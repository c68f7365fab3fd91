import Mathlib.Data.List.Nodup
import SovaVerified.Core.PrBody
import SovaVerified.Utils.Proofs.GhProofs
import SovaVerified.Utils.Proofs.UpsertTwiceProofs

/-!
# Sections of a generated body

`split_sections` cuts a body at the lines whose heading has a text; `upsert_section` and `extract_section` take
marks and a blank for a title already. The sections are read back as they were split when no content has a line
that only the latter take for a title, and when the white space around the body there was does no harm.
-/

namespace Core.PrBody

open Utils Utils.Markdown
open Text (unlines AreLines ended)

variable {line text : Text} {lines : List Text} {st : Option Fence}

/-! ## Heading lines -/

/-- The line is a heading for `split_sections`. -/
def isBodyHeading (line : Text) : Bool := (Regex.matchToLineEnd bodyHeadingRe line).isSome

/-- The heading on a line. -/
def titleOf (line : Text) : Text := Text.strip (line.drop 2)

theorem matches_bodyHeadingRe_iff (u : Text) : Regex.Matches bodyHeadingRe u ↔
    ∃ blanks c t, u = '#' :: '#' :: (blanks ++ c :: t) ∧ blanks ≠ [] ∧ (∀ d ∈ blanks, isBlank d = true) ∧
      Text.isSpace c = false ∧ '\n' ∉ t := by
  constructor
  · rintro ⟨marks, _, rfl, hmarks, blanks, rest, rfl, ⟨hlen, -, hblanks⟩, hrest⟩
    rw [Regex.matches_exact] at hmarks
    subst hmarks
    obtain ⟨c, t, rfl, hc, ht⟩ := (Gh.matches_restOfLineRe_iff rest).mp hrest
    refine ⟨blanks, c, t, rfl, ?_, hblanks, hc, ht⟩
    rintro rfl
    exact absurd hlen (by decide)
  · rintro ⟨blanks, c, t, rfl, hne, hblanks, hc, ht⟩
    exact ⟨"##".toList, blanks ++ c :: t, rfl, Regex.matches_exact.mpr rfl, blanks, c :: t, rfl,
      ⟨List.length_pos_iff.mpr hne, by simp, hblanks⟩, (Gh.matches_restOfLineRe_iff _).mpr ⟨c, t, rfl, hc, ht⟩⟩

theorem uses_bodyHeadingRe : bodyHeadingRe.uses '\n' = false := by decide

theorem isBodyHeading_iff (hline : '\n' ∉ line) : isBodyHeading line = true ↔
    ∃ blanks c t, line = '#' :: '#' :: (blanks ++ c :: t) ∧ blanks ≠ [] ∧ (∀ d ∈ blanks, isBlank d = true) ∧
      Text.isSpace c = false := by
  unfold isBodyHeading
  rw [Regex.matchToLineEnd_isSome_iff]
  constructor
  · rintro ⟨u, v, rfl, hu, hv⟩
    have hnil : v = [] := by
      rcases Regex.head_of_endsLine hv with rfl | ⟨t, rfl⟩
      · rfl
      · exact absurd (List.mem_append_right u List.mem_cons_self) hline
    subst hnil
    obtain ⟨blanks, c, t, rfl, hne, hblanks, hc, -⟩ := (matches_bodyHeadingRe_iff u).mp hu
    exact ⟨blanks, c, t, List.append_nil _, hne, hblanks, hc⟩
  · rintro ⟨blanks, c, t, rfl, hne, hblanks, hc⟩
    refine ⟨_, [], (List.append_nil _).symm, (matches_bodyHeadingRe_iff _).mpr ⟨blanks, c, t, rfl, hne, hblanks,
      hc, fun hmem => hline ?_⟩, rfl⟩
    simp [hmem]

theorem hashed_isBodyHeading : Hashed isBodyHeading := by
  intro line hline
  unfold isBodyHeading at hline
  obtain ⟨u, v, rfl, hu, -⟩ := (Regex.matchToLineEnd_isSome_iff _ _).mp hline
  obtain ⟨blanks, c, t, rfl, -⟩ := (matches_bodyHeadingRe_iff u).mp hu
  exact ⟨_, rfl⟩

theorem seesLine_isBodyHeading :
    Regex.SeesLine (fun s => (Regex.matchToLineEnd bodyHeadingRe s).isSome) isBodyHeading :=
  Regex.seesLine_matchToLineEnd uses_bodyHeadingRe

/-- What the match of a heading line captures. -/
theorem matchToLineEnd_heading (hline : '\n' ∉ line) (hheading : isBodyHeading line = true) {rest : Text}
    (hrest : Regex.endsLine rest = true) : ∃ groups, Regex.matchToLineEnd bodyHeadingRe (line ++ rest) =
      some (groups, rest) ∧ Text.strip ((groups.get 1).getD []) = titleOf line := by
  obtain ⟨blanks, c, t, rfl, hne, hblanks, hc⟩ := (isBodyHeading_iff hline).mp hheading
  have hspace : ∀ d ∈ blanks, Text.isSpace d = true := fun d hd => isSpace_of_isBlank (hblanks d hd)
  have hnl : '\n' ∉ t := fun hmem => hline (by simp [hmem])
  refine ⟨[(1, c :: t)], ?_, ?_⟩
  · have htext : '#' :: '#' :: (blanks ++ c :: t) ++ rest = "##".toList ++ (blanks ++ (c :: (t ++ rest))) := by
      simp
    unfold Regex.matchToLineEnd bodyHeadingRe
    rw [htext, Regex.run_seq, Regex.run_exact]
    exact Gh.run_restOfLine hne hblanks hc hnl hrest (if_pos hrest)
  · show Text.strip (c :: t) = Text.strip (blanks ++ c :: t)
    rw [Text.strip_eq (blanks ++ c :: t), Text.lstrip_append hspace (by simpa using hc), Text.strip_eq,
      Text.lstrip_of_head (by simpa using hc)]

/-! ## Cutting the text at the headings -/

theorem findLines_unlines (hline : '\n' ∉ line) (lines : List Text) :
    findLines bodyHeadingRe (unlines (line :: lines)) =
      ((Regex.matchToLineEnd bodyHeadingRe (unlines (line :: lines))).map fun m =>
        (m.1, unlines (line :: lines), m.2)).toList ++ findLines bodyHeadingRe (unlines lines) := by
  unfold findLines
  by_cases hnil : lines = []
  · subst hnil
    rw [Text.unlines_singleton, Regex.lineStarts_line hline, List.filterMap_cons]
    cases Regex.matchToLineEnd bodyHeadingRe line with
    | none => rfl
    | some m => rfl
  · rw [Text.unlines_cons line hnil, Regex.lineStarts_cons hline, List.filterMap_cons]
    cases Regex.matchToLineEnd bodyHeadingRe (line ++ '\n' :: unlines lines) with
    | none => rfl
    | some m => rfl

/-- Where the first heading is. -/
theorem head_findLines (t : Text) :
    (findLines bodyHeadingRe t).head?.map (fun m => m.2.1) = Regex.firstLine bodyHeadingRe t := by
  unfold findLines Regex.firstLine
  rw [List.head?_filterMap]
  generalize Regex.lineStarts t = starts
  induction starts with
  | nil => rfl
  | cons s starts ih =>
    rw [List.findSome?_cons, List.find?_cons]
    cases Regex.matchToLineEnd bodyHeadingRe s with
    | none => exact ih
    | some m => rfl

theorem head_findLines_masked (hls : AreLines lines) (st : Option Fence) :
    (findLines bodyHeadingRe (unlines (maskLines st lines))).head?.map (fun m => m.2.1) =
      if onward isBodyHeading st lines = [] then none
      else some (unlines (maskLines none (onward isBodyHeading st lines))) := by
  rw [head_findLines]
  by_cases hnil : lines = []
  · subst hnil
    rw [maskLines_nil]
    rfl
  · exact find_masked seesLine_isBodyHeading hashed_isBodyHeading hnil hls st

theorem sectionEntries_cons (markdown masked : Text) (m : Regex.Groups × Text × Text)
    (found : List (Regex.Groups × Text × Text)) : sectionEntries markdown masked (m :: found) =
      (Text.strip ((m.1.get 1).getD []), Text.strip (match found with
        | [] => markdown.drop (masked.length - m.2.2.length)
        | next :: _ => (markdown.drop (masked.length - m.2.2.length)).take (m.2.2.length - next.2.1.length))) ::
          sectionEntries markdown masked found := by
  cases found <;> rfl

/-- A heading with the lines below it, as it is split. -/
def entryOf (section' : Text × List Text) : Text × Text := (titleOf section'.1, Text.strip (unlines section'.2))

/-- `split_sections` cuts the lines at the headings outside of fences. -/
theorem sectionEntries_masked {markdown masked : Text} (hlength : masked.length = markdown.length)
    (hls : AreLines lines) (hsuffix : unlines lines <:+ markdown) (st : Option Fence) :
    sectionEntries markdown masked (findLines bodyHeadingRe (unlines (maskLines st lines))) =
      (Scanning.cuts fenceAfter (outside isBodyHeading) st lines).map entryOf := by
  induction lines generalizing st with
  | nil =>
    rw [maskLines_nil]
    rfl
  | cons line lines ih =>
    obtain ⟨hline, hlines⟩ := Text.areLines_cons hls
    have htail : unlines ([] :: lines) <:+ markdown := by
      refine List.IsSuffix.trans ?_ hsuffix
      rw [Text.unlines_head line]
      exact List.suffix_append _ _
    have hrest : unlines lines <:+ markdown := by
      refine List.IsSuffix.trans ?_ htail
      by_cases hnil : lines = []
      · subst hnil
        exact List.suffix_rfl
      · rw [Text.unlines_cons [] hnil]
        exact List.suffix_cons _ _
    have hmasked : '\n' ∉ (if isVisible st line then line else blanked line) := by
      split_ifs
      · exact hline
      · exact newline_notMem_blanked line
    rw [maskLines_cons, findLines_unlines hmasked]
    have htest := seesLine_isBodyHeading.unlines hmasked (maskLines (fenceAfter st line) lines)
    rw [hashed_isBodyHeading.masked] at htest
    cases hhit : outside isBodyHeading st line with
    | false =>
      rw [hhit, Option.isSome_eq_false_iff, Option.isNone_iff_eq_none] at htest
      rw [htest, Scanning.cuts_of_pass hhit]
      exact ih hlines hrest _
    | true =>
      obtain ⟨rfl, hheading⟩ := outside_iff.mp hhit
      have hopen := hashed_isBodyHeading.openFence hheading
      have hvisible : isVisible none line = true := isVisible_iff.mpr ⟨rfl, hopen⟩
      have hstate : fenceAfter none line = none := hopen
      obtain ⟨groups, hmatch, htitle⟩ := matchToLineEnd_heading hline hheading
        (Regex.endsLine_unlines (maskLines none lines))
      rw [← Text.unlines_head] at hmatch
      have hnext := head_findLines_masked hlines none
      have hbehind : markdown.drop (masked.length - (unlines ([] :: maskLines none lines)).length) =
          unlines ([] :: lines) := by
        rw [hlength, maskLines_rest, length_unlines_maskLines]
        exact (List.suffix_iff_eq_drop.mp htail).symm
      rw [if_pos hvisible, hstate, hmatch, Scanning.cuts_of_hit hhit, hstate, List.map_cons, Option.map_some,
        Option.toList_some, List.singleton_append, sectionEntries_cons, ih hlines hrest none, htitle, hbehind]
      congr 2
      show _ = Text.strip (unlines (before isBodyHeading none lines))
      cases hfound : findLines bodyHeadingRe (unlines (maskLines none lines)) with
      | nil =>
        rw [hfound] at hnext
        have hfree : Free isBodyHeading none lines := by
          by_contra hne
          have hne' : onward isBodyHeading none lines ≠ [] := hne
          rw [if_neg hne'] at hnext
          cases hnext
        rw [before_of_free hfree]
        exact Text.strip_unlines_nil_cons lines
      | cons m found =>
        obtain ⟨g, next, after⟩ := m
        rw [hfound] at hnext
        have hne : onward isBodyHeading none lines ≠ [] := by
          intro hfree
          rw [if_pos hfree] at hnext
          cases hnext
        rw [if_neg hne] at hnext
        obtain rfl : next = unlines (maskLines none (onward isBodyHeading none lines)) := Option.some.inj hnext
        dsimp only
        have hcons : [] :: lines =
            ([] :: before isBodyHeading none lines) ++ onward isBodyHeading none lines := by
          rw [List.cons_append, before_append_onward]
        rw [maskLines_rest, hcons, (cut_masked none none hne ([] :: before isBodyHeading none lines)).1,
          Text.strip_ended, Text.strip_unlines_nil_cons]

/-! ## What is split -/

/-- The headings outside of fences with what stands below them. -/
def entriesOf (lines : List Text) : List (Text × Text) :=
  (Scanning.cuts fenceAfter (outside isBodyHeading) none lines).map entryOf

theorem splitSections_eq (markdown : Text) :
    splitSections markdown = (entriesOf (markdown.splitOn '\n')).foldl addSection [] := by
  have hunlines := Text.unlines_splitOn markdown
  have hlength : (maskFencedBlocks markdown).length = markdown.length := by
    have hmask := length_unlines_maskLines none (markdown.splitOn '\n')
    rwa [hunlines] at hmask
  have hsuffix : unlines (markdown.splitOn '\n') <:+ markdown := ⟨[], hunlines⟩
  have hentries := sectionEntries_masked hlength (Text.areLines_splitOn markdown) hsuffix none
  unfold splitSections entriesOf
  rw [← hentries]
  rfl

/-- What is in front of a line that a reader stops at is closed where the whole is. -/
theorem fencesAfter_before {p : Text → Bool} (hlines : fencesAfter st lines = none) :
    fencesAfter st (before p st lines) = none := by
  cases honward : onward p st lines with
  | nil => rwa [before_of_free honward]
  | cons line behind => exact (onward_eq_cons honward).2.1

theorem exists_heading (hline : '\n' ∉ line) (hheading : isBodyHeading line = true) :
    ∃ x : Heading, x.text = titleOf line := by
  refine ⟨⟨titleOf line, ?_, Text.strip_strip _, ?_⟩, rfl⟩
  · exact fun hmem => hline (List.mem_of_mem_drop (Text.mem_strip hmem))
  · obtain ⟨blanks, c, t, rfl, -, hblanks, hc⟩ := (isBodyHeading_iff hline).mp hheading
    show Text.strip (blanks ++ c :: t) ≠ []
    have hspace : ∀ d ∈ blanks, Text.isSpace d = true := fun d hd => isSpace_of_isBlank (hblanks d hd)
    rw [Text.strip_eq, Text.lstrip_append hspace (by simpa using hc), Ne, Text.rstrip_eq_nil_iff]
    intro hall
    rw [hall c List.mem_cons_self] at hc
    cases hc

/-- An entry as it is split: a heading, and a content without white space around it whose fences are closed. -/
structure IsEntry (e : Text × Text) : Prop where
  heading : ∃ x : Heading, x.text = e.1
  content : IsContent e.2

theorem isEntry_of_mem (hls : AreLines lines) (hlines : fencesAfter none lines = none) {e : Text × Text}
    (he : e ∈ entriesOf lines) : IsEntry e := by
  obtain ⟨⟨line, below⟩, hcut, rfl⟩ := List.mem_map.mp he
  obtain ⟨a, b, rfl, hhit, hbelow⟩ := Scanning.exists_of_mem_cuts hcut
  obtain ⟨hnone, hheading⟩ := outside_iff.mp hhit
  have hline : '\n' ∉ line := (Text.areLines_cons hls.right).1
  have hstate : fencesAfter none a = none := hnone
  have hopen : fenceAfter none line = none := hashed_isBodyHeading.openFence hheading
  have hb : fencesAfter none b = none := by
    rw [fencesAfter_append, hstate, fencesAfter_cons, hopen] at hlines
    exact hlines
  have hbelow' : below = before isBodyHeading none b := by
    have hread : below = Scanning.before fenceAfter (outside isBodyHeading)
        (fenceAfter (List.foldl fenceAfter none a) line) b := hbelow
    rw [hnone, hopen] at hread
    exact hread
  refine ⟨exists_heading hline hheading, Text.strip_strip _, ?_⟩
  show fencesAfter none ((Text.strip (unlines below)).splitOn '\n') = none
  have hb' : AreLines b := (Text.areLines_cons hls.right).2
  have hlines' : AreLines below := by
    rw [hbelow']
    refine AreLines.left (b := onward isBodyHeading none b) ?_
    rwa [before_append_onward]
  rw [fencesAfter_strip]
  by_cases hnil : below = []
  · rw [hnil]
    rfl
  · rw [Text.splitOn_unlines hnil hlines', hbelow']
    exact fencesAfter_before hb

/-! ## One entry after the other -/

variable {entries : List (Text × Text)} {k : Text}

/-- What is kept under a heading: its contents, one below the other. -/
def contentOf (k : Text) (entries : List (Text × Text)) : Text :=
  entries.foldl (fun old e => if e.1 = k then Text.strip (old ++ "\n\n".toList ++ e.2) else old) []

theorem contentOf_snoc (k : Text) (entries : List (Text × Text)) (e : Text × Text) :
    contentOf k (entries ++ [e]) =
      if e.1 = k then Text.strip (contentOf k entries ++ "\n\n".toList ++ e.2) else contentOf k entries := by
  unfold contentOf
  rw [List.foldl_append]
  rfl

theorem contentOf_of_notMem (hk : k ∉ entries.map Prod.fst) : contentOf k entries = [] := by
  induction entries using List.reverseRecOn with
  | nil => rfl
  | append_singleton entries e ih =>
    rw [List.map_append, List.mem_append, not_or] at hk
    have hne : e.1 ≠ k := fun heq => hk.2 (by simp [heq])
    rw [contentOf_snoc, if_neg hne, ih hk.1]

theorem isContent_glue {a b : Text} (ha : IsContent a) (hb : IsContent b) :
    IsContent (Text.strip (a ++ "\n\n".toList ++ b)) := by
  refine ⟨Text.strip_strip _, ?_⟩
  have hne : a.splitOn '\n' ++ [] :: b.splitOn '\n' ≠ [] := by simp
  have hls : AreLines (a.splitOn '\n' ++ [] :: b.splitOn '\n') :=
    (Text.areLines_splitOn a).append (AreLines.cons (by simp) (Text.areLines_splitOn b))
  have htext : a ++ "\n\n".toList ++ b = unlines (a.splitOn '\n' ++ [] :: b.splitOn '\n') := by
    rw [Text.unlines_append _ (List.cons_ne_nil _ _), Text.ended_eq (List.splitOn_ne_nil '\n' a),
      Text.unlines_cons _ (List.splitOn_ne_nil '\n' b), Text.unlines_splitOn, Text.unlines_splitOn]
    simp
  rw [fencesAfter_strip, htext, Text.splitOn_unlines hne hls, fencesAfter_append, ha.2, fencesAfter_cons,
    fenceAfter_of_blank rfl]
  exact hb.2

theorem isContent_contentOf (hentries : ∀ e ∈ entries, IsEntry e) (k : Text) :
    IsContent (contentOf k entries) := by
  induction entries using List.reverseRecOn with
  | nil => exact ⟨rfl, rfl⟩
  | append_singleton entries e ih =>
    have hfront := ih fun e' he' => hentries e' (List.mem_append_left _ he')
    rw [contentOf_snoc]
    split_ifs
    · exact isContent_glue hfront (hentries e (by simp)).content
    · exact hfront

theorem foldl_addSection_snoc (entries : List (Text × Text)) (e : Text × Text) :
    (entries ++ [e]).foldl addSection [] = addSection (entries.foldl addSection []) e := by
  rw [List.foldl_append]
  rfl

/-- A section is added to what there is of it, also where there is nothing. -/
theorem addSection_eq (sections : Assoc Text Text) {e : Text × Text} (he : Text.strip e.2 = e.2) :
    addSection sections e =
      sections.set e.1 (Text.strip ((sections.get e.1).getD [] ++ "\n\n".toList ++ e.2)) := by
  unfold addSection
  cases sections.get e.1 with
  | some old => rfl
  | none =>
    have hfront : Text.strip ("\n\n".toList ++ e.2) = e.2 := by
      rw [Text.strip_eq, Text.lstrip_append_of_eq_nil (by decide), ← Text.strip_eq, he]
    rw [Option.getD_none, List.nil_append, hfront]

theorem get_sections (hentries : ∀ e ∈ entries, IsEntry e) (k : Text) :
    (entries.foldl addSection []).get k =
      if k ∈ entries.map Prod.fst then some (contentOf k entries) else none := by
  induction entries using List.reverseRecOn with
  | nil => rfl
  | append_singleton entries e ih =>
    have hfront := ih fun e' he' => hentries e' (List.mem_append_left [e] he')
    rw [foldl_addSection_snoc, contentOf_snoc, addSection_eq _ (hentries e (by simp)).content.1, Assoc.get_set]
    by_cases hk : k = e.1
    · subst hk
      have hold : ((entries.foldl addSection []).get e.1).getD [] = contentOf e.1 entries := by
        rw [hfront]
        split_ifs with hmem
        · rfl
        · exact (contentOf_of_notMem hmem).symm
      rw [if_pos rfl, if_pos rfl, hold, if_pos (by simp)]
    · have hmem : k ∈ (entries ++ [e]).map Prod.fst ↔ k ∈ entries.map Prod.fst := by simp [hk]
      rw [if_neg hk, if_neg (Ne.symm hk), hfront, if_congr hmem rfl rfl]

theorem nodup_sections (hentries : ∀ e ∈ entries, IsEntry e) :
    ((entries.foldl addSection []).map Prod.fst).Nodup := by
  induction entries using List.reverseRecOn with
  | nil => exact List.nodup_nil
  | append_singleton entries e ih =>
    rw [foldl_addSection_snoc, addSection_eq _ (hentries e (by simp)).content.1]
    exact Assoc.nodup_keys_set (ih fun e' he' => hentries e' (List.mem_append_left _ he')) _ _

/-- The first section is the one of the first heading. -/
theorem head_sections (hentries : ∀ e ∈ entries, IsEntry e) :
    (entries.foldl addSection []).head?.map Prod.fst = entries.head?.map Prod.fst := by
  induction entries using List.reverseRecOn with
  | nil => rfl
  | append_singleton entries e ih =>
    have hfront := ih fun e' he' => hentries e' (List.mem_append_left _ he')
    rw [foldl_addSection_snoc, addSection_eq _ (hentries e (by simp)).content.1, Assoc.head_set, hfront]
    cases entries with
    | nil => rfl
    | cons e' entries => rfl

theorem exists_map_heading {m : List (Text × Text)} (hm : ∀ e ∈ m, ∃ x : Heading, x.text = e.1) :
    ∃ sections : List (Heading × Text), m = sections.map fun e => (e.1.text, e.2) := by
  induction m with
  | nil => exact ⟨[], rfl⟩
  | cons e m ih =>
    obtain ⟨x, hx⟩ := hm e List.mem_cons_self
    obtain ⟨sections, hsections⟩ := ih fun e' he' => hm e' (List.mem_cons_of_mem e he')
    refine ⟨(x, e.2) :: sections, ?_⟩
    rw [List.map_cons, hx, hsections]

/-- The sections with their headings. -/
theorem exists_headings (hentries : ∀ e ∈ entries, IsEntry e) : ∃ sections : List (Heading × Text),
    entries.foldl addSection [] = sections.map (fun e => (e.1.text, e.2)) ∧ (sections.map Prod.fst).Nodup ∧
      ∀ e ∈ sections, e.2 = contentOf e.1.text entries := by
  have hnodup := nodup_sections hentries
  have hkept : ∀ e ∈ entries.foldl addSection [], e.1 ∈ entries.map Prod.fst ∧ e.2 = contentOf e.1 entries := by
    intro e he
    have hget := (Assoc.mem_iff_get hnodup).mp he
    rw [get_sections hentries] at hget
    split_ifs at hget with hmem
    exact ⟨hmem, (Option.some.inj hget).symm⟩
  obtain ⟨sections, hsections⟩ := exists_map_heading (m := entries.foldl addSection []) fun e he => by
    obtain ⟨e', he', heq⟩ := List.mem_map.mp (hkept e he).1
    rw [← heq]
    exact (hentries e' he').heading
  refine ⟨sections, hsections, ?_, fun e he => ?_⟩
  · rw [hsections, List.map_map] at hnodup
    refine List.Nodup.of_map Heading.text ?_
    rw [List.map_map]
    exact hnodup
  · have hmem : (e.1.text, e.2) ∈ entries.foldl addSection [] := by
      rw [hsections]
      exact List.mem_map.mpr ⟨e, he, rfl⟩
    exact (hkept _ hmem).2

theorem mem_map_text (x : Heading) (sections : List (Heading × Text)) :
    x.text ∈ (sections.map fun e => (e.1.text, e.2)).map Prod.fst ↔ x ∈ sections.map Prod.fst := by
  rw [List.map_map, List.mem_map, List.mem_map]
  refine exists_congr fun e => and_congr_right fun _ => ?_
  exact ⟨fun heq => Heading.ext heq, fun heq => congrArg Heading.text heq⟩

theorem applySections_eq (body : Text) (sections : List (Heading × Text)) :
    applySections body (sections.map fun e => (e.1.text, e.2)) = upsertAll body sections := by
  unfold applySections upsertAll
  rw [List.foldl_map]

/-! ## The sections read back -/

/-- The first section of the generated body is read back in the body there was, and every other one has a
content without a title. -/
structure Fits (h : Heading) (body markdown : List Text) : Prop where
  own : OwnKept h (contentOf h.text (entriesOf markdown)) body
  other : ∀ x : Heading, x.text ∉ (entriesOf markdown).map Prod.fst →
    OtherKept x h (contentOf h.text (entriesOf markdown)) body
  plain : ∀ x : Heading, x.text ∈ (entriesOf markdown).map Prod.fst → x ≠ h →
    Free boundary none ((contentOf x.text (entriesOf markdown)).splitOn '\n')

theorem split_apply_iff (body markdown : Text) (hbody : fencesAfter none (body.splitOn '\n') = none)
    (hmarkdown : fencesAfter none (markdown.splitOn '\n') = none) :
    ((∀ (x : Heading) (content : Text), (splitSections markdown).get x.text = some content →
          extractSection (applySections body (splitSections markdown)) x.text false = content) ∧
        ∀ x : Heading, (splitSections markdown).get x.text = none →
          extractSection (applySections body (splitSections markdown)) x.text false =
            extractSection body x.text false) ↔
      ∀ h : Heading, (entriesOf (markdown.splitOn '\n')).head?.map Prod.fst = some h.text →
        Fits h (body.splitOn '\n') (markdown.splitOn '\n') := by
  have hentries : ∀ e ∈ entriesOf (markdown.splitOn '\n'), IsEntry e := fun e he =>
    isEntry_of_mem (Text.areLines_splitOn markdown) hmarkdown he
  have hget := get_sections hentries
  have hhead := head_sections hentries
  obtain ⟨sections, hsections, hnodup, hcontent⟩ := exists_headings hentries
  have hcontents : ∀ e ∈ sections, IsContent e.2 := by
    intro e he
    rw [hcontent e he]
    exact isContent_contentOf hentries _
  have hkeys : ∀ x : Heading, x.text ∈ (entriesOf (markdown.splitOn '\n')).map Prod.fst ↔
      x ∈ sections.map Prod.fst := by
    intro x
    have hisSome :=
      Assoc.get_isSome_iff (m := (entriesOf (markdown.splitOn '\n')).foldl addSection []) (k := x.text)
    rw [hget, hsections, mem_map_text] at hisSome
    rw [← hisSome]
    split_ifs with hmem
    · exact iff_of_true hmem rfl
    · exact iff_of_false hmem Bool.false_ne_true
  have hnodup' := nodup_sections hentries
  rw [hsections] at hget hnodup'
  have hnone : ∀ x : Heading, Assoc.get (sections.map fun e => (e.1.text, e.2)) x.text = none ↔
      x ∉ sections.map Prod.fst := by
    intro x
    rw [hget, ← hkeys]
    by_cases hmem : x.text ∈ (entriesOf (markdown.splitOn '\n')).map Prod.fst
    · rw [if_pos hmem]
      exact iff_of_false (Option.some_ne_none _) (not_not.mpr hmem)
    · rw [if_neg hmem]
      exact iff_of_true rfl hmem
  have hsome : (∀ (x : Heading) (content : Text),
        Assoc.get (sections.map fun e => (e.1.text, e.2)) x.text = some content →
          extractSection (upsertAll body sections) x.text false = content) ↔
      ∀ e ∈ sections, extractSection (upsertAll body sections) e.1.text false = e.2 := by
    constructor
    · intro hread e he
      exact hread e.1 e.2 ((Assoc.mem_iff_get hnodup').mp (List.mem_map.mpr ⟨e, he, rfl⟩))
    · intro hread x content hfound
      obtain ⟨e, he, heq⟩ := List.mem_map.mp (Assoc.mem_of_get hfound)
      obtain ⟨hx, rfl⟩ := Prod.mk.inj heq
      rw [← hx]
      exact hread e he
  rw [splitSections_eq, hsections, applySections_eq, ← head_sections hentries, hsections, hsome]
  simp only [hnone]
  cases sections with
  | nil =>
    refine iff_of_true ⟨fun e he => absurd he List.not_mem_nil, fun x _ => rfl⟩ ?_
    intro h hfirst
    cases hfirst
  | cons e rest =>
    rw [upsertAll_cons_iff hbody hcontents hnodup]
    have hfirst := hcontent e List.mem_cons_self
    constructor
    · rintro ⟨hown, hother, hplain⟩ h heq
      obtain rfl : e.1 = h := Heading.ext (Option.some.inj heq)
      rw [hfirst] at hown hother
      refine ⟨hown, fun x hx => hother x (mt (hkeys x).mpr hx), fun x hx hne => ?_⟩
      obtain ⟨e', he', rfl⟩ := List.mem_map.mp ((hkeys x).mp hx)
      rcases List.mem_cons.mp he' with rfl | he'
      · exact absurd rfl hne
      · rw [← hcontent e' (List.mem_cons_of_mem e he')]
        exact hplain e' he'
    · intro hfits
      obtain ⟨hown, hother, hplain⟩ := hfits e.1 rfl
      rw [← hfirst] at hown hother
      refine ⟨hown, fun x hx => hother x (mt (hkeys x).mp hx), fun e' he' => ?_⟩
      have hmem := List.mem_cons_of_mem e he'
      rw [hcontent e' hmem]
      refine hplain e'.1 ((hkeys e'.1).mpr (List.mem_map_of_mem hmem)) ?_
      intro heq
      exact (List.nodup_cons.mp hnodup).1 (heq ▸ List.mem_map_of_mem he')

/-- A body with a section of a later step, and a generated one that writes two sections. -/
theorem split_apply_at_summary :
    ((∀ (x : Heading) (content : Text),
          (splitSections "## Issue\nCloses #1\n## Test Plan\nRun it.".toList).get x.text = some content →
            extractSection (applySections "## Issue\nPart of #1\n## Confidence Score\n4".toList
              (splitSections "## Issue\nCloses #1\n## Test Plan\nRun it.".toList)) x.text false = content) ∧
        ∀ x : Heading, (splitSections "## Issue\nCloses #1\n## Test Plan\nRun it.".toList).get x.text = none →
          extractSection (applySections "## Issue\nPart of #1\n## Confidence Score\n4".toList
              (splitSections "## Issue\nCloses #1\n## Test Plan\nRun it.".toList)) x.text false =
            extractSection "## Issue\nPart of #1\n## Confidence Score\n4".toList x.text false) ↔
      ∀ h : Heading,
        (entriesOf ("## Issue\nCloses #1\n## Test Plan\nRun it.".toList.splitOn '\n')).head?.map Prod.fst =
            some h.text →
          Fits h ("## Issue\nPart of #1\n## Confidence Score\n4".toList.splitOn '\n')
            ("## Issue\nCloses #1\n## Test Plan\nRun it.".toList.splitOn '\n') :=
  split_apply_iff "## Issue\nPart of #1\n## Confidence Score\n4".toList
    "## Issue\nCloses #1\n## Test Plan\nRun it.".toList (by decide) (by decide +kernel)

/-- The content has marks without a heading, which end the section that it is written to. -/
theorem ends_at_marks :
    ¬ ∀ body markdown : Text, fencesAfter none (body.splitOn '\n') = none →
      fencesAfter none (markdown.splitOn '\n') = none →
      (∀ (x : Heading) (content : Text), (splitSections markdown).get x.text = some content →
          extractSection (applySections body (splitSections markdown)) x.text false = content) ∧
        ∀ x : Heading, (splitSections markdown).get x.text = none →
          extractSection (applySections body (splitSections markdown)) x.text false =
            extractSection body x.text false := by
  intro hclaim
  have hread := (hclaim [] "## Issue\nCloses #1\n## \nMore.".toList (by decide) (by decide +kernel)).1
    issueHeading "Closes #1\n## \nMore.".toList (by decide)
  exact absurd hread (by decide)

end Core.PrBody

/-!
# What is left open, written and read

The closing decision lists the criteria that are not met under a label in the section of the issue, and
`parse_not_done_items` reads the list. A criterion is one line without white space around it, so that its item
is read as it was written; only a section of the issue that comes in front of the one that is written is read
instead of it.
-/

namespace Core.PrBody

open Utils Utils.Gh Utils.Markdown
open Text (unlines AreLines stripLines)

variable {line criterion issueBody issueNumber text : Text} {lines items : List Text}

/-! ## Criteria -/

theorem isItem_of_criterionOf (hline : ∀ c ∈ line, Text.isLineBreak c = false)
    (h : criterionOf line = some criterion) : IsItem criterion := by
  unfold criterionOf at h
  split_ifs at h
  cases hfound : (Regex.matchLine criterionLineRe line).bind (·.get 1) with
  | none =>
    rw [hfound] at h
    cases h
  | some found =>
    rw [hfound] at h
    dsimp only at h
    split_ifs at h with hne
    obtain rfl := Option.some.inj h
    obtain ⟨g, hmatch, hget⟩ := Option.bind_eq_some_iff.mp hfound
    obtain ⟨v, g', -, hend, hg'⟩ := Regex.run_captured hmatch
    split_ifs at hend
    obtain rfl := Option.some.inj hend
    refine ⟨hne, Text.strip_strip found, fun c hc => hline c ?_⟩
    rcases hg' (1, found) (Regex.Groups.mem_of_get hget) with hnil | hsub
    · cases hnil
    · exact hsub (Text.mem_strip hc)

theorem isItem_of_mem_criteria (h : criterion ∈ extractAcceptanceCriteria issueBody) : IsItem criterion := by
  unfold extractAcceptanceCriteria at h
  dsimp only at h
  split_ifs at h
  · cases h
  · cases h
  · obtain ⟨line, hline, hcriterion⟩ := List.mem_filterMap.mp h
    exact isItem_of_criterionOf (Text.isLineBreak_of_mem_lines hline) hcriterion

theorem suffix_cases (verdict : Text) : suffix verdict = [] ∨
    Text.rstrip (suffix verdict) = suffix verdict ∧ suffix verdict ≠ [] := by
  unfold suffix
  split_ifs
  · exact .inr ⟨by decide, List.cons_ne_nil _ _⟩
  · exact .inr ⟨by decide, List.cons_ne_nil _ _⟩
  · exact .inl rfl

theorem isLineBreak_suffix (verdict : Text) : ∀ c ∈ suffix verdict, Text.isLineBreak c = false := by
  unfold suffix
  split_ifs
  · exact Text.forall_mem_of_all (by decide)
  · exact Text.forall_mem_of_all (by decide)
  · simp

theorem isItem_itemText {entry : Text × Text} (h : IsItem entry.1) : IsItem (itemText entry) := by
  unfold itemText
  refine ⟨List.append_ne_nil_of_left_ne_nil h.ne _, ?_, ?_⟩
  · have hfront : Text.lstrip (entry.1 ++ suffix entry.2) = entry.1 ++ suffix entry.2 := by
      rw [Text.lstrip_append_of_ne (by rw [h.lstrip]; exact h.ne), h.lstrip]
    rw [Text.strip_eq, hfront]
    rcases suffix_cases entry.2 with hnil | ⟨hsuffix, hne⟩
    · rw [hnil, List.append_nil, h.rstrip]
    · rw [Text.rstrip_append, hsuffix, if_neg hne]
  · intro c hc
    rcases List.mem_append.mp hc with hc | hc
    · exact h.oneLine c hc
    · exact isLineBreak_suffix entry.2 c hc

/-! ## The lines of the decision -/

variable {unmet : List (Text × Text)}

theorem isPlain_partOfLines (hnumber : ∀ c ∈ issueNumber, Text.isLineBreak c = false)
    (hunmet : ∀ e ∈ unmet, IsItem (itemText e)) : ∀ l ∈ partOfLines issueNumber unmet, IsPlain l := by
  have hnil : IsPlain [] := ⟨rfl, rfl, by simp⟩
  intro l hl
  unfold partOfLines at hl
  rcases List.mem_append.mp hl with hl | hl
  · rcases List.mem_append.mp hl with hl | hl
    · rcases List.mem_append.mp hl with hl | hl
      · rcases List.mem_cons.mp hl with rfl | hl
        · refine isPlain_cons (by decide) (by decide) (by decide) fun c hc => ?_
          have hfront : ∀ d ∈ "art of #".toList, Text.isLineBreak d = false :=
            Text.forall_mem_of_all (by decide)
          rcases List.mem_append.mp hc with hc | hc
          · exact hfront c hc
          · exact hnumber c hc
        · rw [List.mem_singleton.mp hl]
          exact hnil
      · split_ifs at hl
        · rcases List.mem_cons.mp hl with rfl | hl
          · exact isPlain_cons (by decide) (by decide) (by decide) (Text.forall_mem_of_all (by decide))
          · rw [List.mem_singleton.mp hl]
            exact hnil
        · cases hl
    · rw [List.mem_singleton.mp hl]
      exact isPlain_cons (by decide) (by decide) (by decide) (Text.forall_mem_of_all (by decide))
  · obtain ⟨e, he, rfl⟩ := List.mem_map.mp hl
    exact isPlain_bullet (hunmet e he)

/-- The lines in front of the list. -/
def headOf (issueNumber : Text) (unmet : List (Text × Text)) : List Text :=
  ["Part of #".toList ++ issueNumber, []] ++
    if unmet.any fun entry => entry.2 == "unknown".toList then [unparseableNote, []] else []

theorem partOfLines_eq (issueNumber : Text) (unmet : List (Text × Text)) :
    partOfLines issueNumber unmet =
      headOf issueNumber unmet ++ Gh.notDoneLabel :: (unmet.map itemText).map bullet := by
  unfold partOfLines headOf
  rw [List.map_map, List.append_assoc]
  rfl

/-- No line in front of the list is the label. -/
theorem notDoneIn_headOf (issueNumber : Text) (unmet : List (Text × Text)) (lines : List Text) :
    Gh.notDoneIn (headOf issueNumber unmet ++ lines) = Gh.notDoneIn lines := by
  have hfirst : Text.strip ("Part of #".toList ++ issueNumber) ≠ Gh.notDoneLabel := by
    have hfront : Text.lstrip ("Part of #".toList ++ issueNumber) = "Part of #".toList ++ issueNumber :=
      Text.lstrip_append_of_ne (by decide) issueNumber
    rw [Text.strip_eq, hfront, Text.rstrip_append]
    split_ifs
    · decide
    · exact fun heq => absurd (List.cons_eq_cons.mp heq).1 (by decide)
  have hnil : Text.strip [] ≠ Gh.notDoneLabel := by decide
  have hnote : Text.strip unparseableNote ≠ Gh.notDoneLabel := by decide
  unfold headOf
  rw [List.append_assoc, List.cons_append, notDoneIn_cons_of_ne hfirst, List.cons_append,
    notDoneIn_cons_of_ne hnil, List.nil_append]
  split_ifs
  · rw [List.cons_append, notDoneIn_cons_of_ne hnote, List.cons_append, notDoneIn_cons_of_ne hnil,
      List.nil_append]
  · rfl

/-- The list is read as it was written, and what comes behind an empty line is no part of it. -/
theorem notDoneIn_partOfLines (hne : unmet ≠ []) (hunmet : ∀ e ∈ unmet, IsItem (itemText e)) {tail : List Text}
    (htail : ∀ l ∈ tail.head?, l = []) :
    Gh.notDoneIn (partOfLines issueNumber unmet ++ tail) = some (unmet.map itemText) := by
  have hlabel : Text.strip Gh.notDoneLabel = Gh.notDoneLabel := by decide
  have hitems : ∀ item ∈ unmet.map itemText, IsItem item := by
    intro item hitem
    obtain ⟨e, he, rfl⟩ := List.mem_map.mp hitem
    exact hunmet e he
  have hne' : unmet.map itemText ≠ [] := by simpa using hne
  have hlist : Gh.listedItems [] ((unmet.map itemText).map bullet ++ tail) = unmet.map itemText := by
    rw [listedItems_bullets hitems, List.nil_append]
    cases tail with
    | nil => rfl
    | cons l tail =>
      rw [htail l rfl]
      exact listedItems_nil_cons hne' tail
  rw [partOfLines_eq, List.append_assoc, List.cons_append, notDoneIn_headOf, Gh.notDoneIn, if_pos hlabel]
  dsimp only
  rw [hlist, if_neg hne']

/-- There is no white space in front of the decision. -/
theorem stripFront_partOfLines (issueNumber : Text) (unmet : List (Text × Text)) (tail : List Text) :
    Text.stripFront (partOfLines issueNumber unmet ++ tail) = partOfLines issueNumber unmet ++ tail := by
  have hfirst : Text.lstrip ("Part of #".toList ++ issueNumber) = "Part of #".toList ++ issueNumber :=
    Text.lstrip_append_of_ne (by decide) issueNumber
  have hne : Text.lstrip ("Part of #".toList ++ issueNumber) ≠ [] := by
    rw [hfirst]
    exact List.cons_ne_nil _ _
  unfold partOfLines
  rw [List.append_assoc, List.append_assoc, List.append_assoc, List.cons_append, Text.stripFront_cons_of_ne hne,
    hfirst]

/-- The decision ends with its last item. -/
theorem partOfLines_snoc (issueNumber : Text) (hne : unmet ≠ []) :
    ∃ front, ∃ e ∈ unmet, partOfLines issueNumber unmet = front ++ [bullet (itemText e)] := by
  obtain ⟨front, e, rfl⟩ := (List.eq_nil_or_concat' unmet).resolve_left hne
  refine ⟨headOf issueNumber (front ++ [e]) ++ Gh.notDoneLabel :: (front.map itemText).map bullet, e, by simp, ?_⟩
  rw [partOfLines_eq, List.map_append, List.map_append, List.append_assoc, List.cons_append]
  rfl

theorem stripBack_singleton (hline : Text.rstrip line = line) (hne : line ≠ []) : Text.stripBack [line] = [line] := by
  show (if Text.rstrip line = [] then [] else [Text.rstrip line]) = [line]
  rw [hline, if_neg hne]

/-- There is no white space around the decision. -/
theorem strip_partOfLines (hne : unmet ≠ []) (hunmet : ∀ e ∈ unmet, IsItem (itemText e)) :
    stripLines (partOfLines issueNumber unmet) = partOfLines issueNumber unmet := by
  have hfront := stripFront_partOfLines issueNumber unmet []
  rw [List.append_nil] at hfront
  obtain ⟨front, e, he, hsplit⟩ := partOfLines_snoc issueNumber hne
  have hback := stripBack_singleton (rstrip_bullet (hunmet e he)) (List.cons_ne_nil _ _)
  unfold stripLines
  rw [hfront, hsplit, Text.stripBack_append (by rw [hback]; exact List.cons_ne_nil _ _), hback]

/-! ## Reading the section -/

section Block

variable (hnumber : ∀ c ∈ issueNumber, Text.isLineBreak c = false) (hne : unmet ≠ [])
  (hunmet : ∀ e ∈ unmet, IsItem (itemText e))

include hnumber hne hunmet

/-- The decision is read in the lines of its section, also where the marks of a title are left behind it. -/
theorem readOf_partOfLines : readOf ([] :: partOfLines issueNumber unmet ++ [[]]) = some (unmet.map itemText) ∧
    readOf ([] :: partOfLines issueNumber unmet ++ [[]] ++ [marks]) = some (unmet.map itemText) := by
  have hplain := isPlain_partOfLines hnumber hunmet
  constructor
  · have hlast : ∀ l ∈ (partOfLines issueNumber unmet).getLast?, l ≠ [] := by
      obtain ⟨front, e, -, hsplit⟩ := partOfLines_snoc issueNumber hne
      intro l hl
      rw [hsplit, List.getLast?_concat] at hl
      cases hl
      exact List.cons_ne_nil _ _
    have hread : Gh.notDoneIn (partOfLines issueNumber unmet ++ []) = some (unmet.map itemText) :=
      notDoneIn_partOfLines hne hunmet (by simp)
    rw [List.append_nil] at hread
    rw [readOf_snoc_nil, readOf_nil_cons, readOf_eq hplain (strip_partOfLines hne hunmet) hlast, hread]
  · have hmarks : ∀ l ∈ partOfLines issueNumber unmet ++ [[], marks], IsPlain l := by
      intro l hl
      rcases List.mem_append.mp hl with hl | hl
      · exact hplain l hl
      · rcases List.mem_cons.mp hl with rfl | hl
        · exact ⟨rfl, rfl, by simp⟩
        · rw [List.mem_singleton.mp hl]
          exact ⟨by decide, by decide, Text.forall_mem_of_all (by decide)⟩
    have hback : Text.stripBack [[], marks] = [[], marks] := by decide
    have hstrip : stripLines (partOfLines issueNumber unmet ++ [[], marks]) =
        partOfLines issueNumber unmet ++ [[], marks] := by
      unfold stripLines
      rw [stripFront_partOfLines, Text.stripBack_append (by rw [hback]; exact List.cons_ne_nil _ _), hback]
    have hlast : ∀ l ∈ (partOfLines issueNumber unmet ++ [[], marks]).getLast?, l ≠ [] := by
      intro l hl
      rw [List.getLast?_append_of_ne_nil _ (List.cons_ne_nil _ _)] at hl
      cases hl
      exact List.cons_ne_nil _ _
    have hlist : [] :: partOfLines issueNumber unmet ++ [[]] ++ [marks] =
        [] :: (partOfLines issueNumber unmet ++ [[], marks]) := by simp
    rw [hlist, readOf_nil_cons, readOf_eq hmarks hstrip hlast]
    exact notDoneIn_partOfLines hne hunmet (by simp)

/-- The lines of the decision are those that are written. -/
theorem splitOn_decision : (Text.strip (Text.join ['\n'] (partOfLines issueNumber unmet))).splitOn '\n' =
    partOfLines issueNumber unmet := by
  have hplain := isPlain_partOfLines hnumber hunmet
  have hls : AreLines (partOfLines issueNumber unmet) := fun l hl => Text.newline_not_mem (hplain l hl).oneLine
  have hne' : partOfLines issueNumber unmet ≠ [] := List.cons_ne_nil _ _
  rw [← Text.unlines_stripLines, strip_partOfLines hne hunmet, Text.splitOn_unlines hne' hls]

theorem read_decision_iff (body : Text) (hbody : fencesAfter none (body.splitOn '\n') = none) :
    Gh.parseNotDoneItems (upsertSection body issueHeading.text
        (Text.join ['\n'] (partOfLines issueNumber unmet))) = some (unmet.map itemText) ↔
      (Moved issueHeading (body.splitOn '\n') →
        readOf (bodyOf issueHeading.text none (stripLines (body.splitOn '\n'))) = some (unmet.map itemText)) := by
  have hls := Text.areLines_splitOn body
  have hsplit := splitOn_decision hnumber hne hunmet
  have hplain := isPlain_partOfLines hnumber hunmet
  rw [parseNotDoneItems_eq, readOf_congr (bodyOf_upsert issueHeading issueHeading body _)]
  by_cases hmoved : Moved issueHeading (body.splitOn '\n')
  · rw [readOf_congr (bodyOf_in_front hls hbody hmoved)]
    exact ⟨fun heq _ => heq, fun himp => himp hmoved⟩
  · have hfree : Free boundary none (partOfLines issueNumber unmet) :=
      free_of_forall fun l hl => (hplain l hl).notTitle
    have hclosed := fencesAfter_of_visible fun l hl => (hplain l hl).visible
    rw [bodyOf_written hbody (by rw [hsplit]; exact hclosed) hmoved (by rw [hsplit]; exact hfree), hsplit]
    refine iff_of_true ?_ fun hyes => absurd hyes hmoved
    obtain ⟨hread, hmarks⟩ := readOf_partOfLines hnumber hne hunmet
    split_ifs
    · exact hmarks
    · exact hread

end Block

/-! ## The decision in a body -/

theorem parse_not_done_iff (body issueNumber issueBody : Text) (verdicts : List (Text × Text))
    (hbody : fencesAfter none (body.splitOn '\n') = none)
    (hnumber : ∀ c ∈ issueNumber, Text.isLineBreak c = false)
    (hcriteria : ∀ e ∈ verdicts, e.1 ∈ extractAcceptanceCriteria issueBody)
    (hunmet : ∃ e ∈ verdicts, e.2 ≠ "met".toList) :
    Gh.parseNotDoneItems (upsertSection body "Issue".toList (renderClosingBlock issueNumber (some verdicts))) =
        some ((unmetOf verdicts).map itemText) ↔
      (Moved issueHeading (body.splitOn '\n') →
        readOf (bodyOf issueHeading.text none (stripLines (body.splitOn '\n'))) =
          some ((unmetOf verdicts).map itemText)) := by
  have hne : unmetOf verdicts ≠ [] := by
    obtain ⟨e, he, hverdict⟩ := hunmet
    exact List.ne_nil_of_mem (List.mem_filter.mpr ⟨he, decide_eq_true hverdict⟩)
  have hitems : ∀ e ∈ unmetOf verdicts, IsItem (itemText e) := fun e he =>
    isItem_itemText (isItem_of_mem_criteria (hcriteria e (List.mem_of_mem_filter he)))
  have hblock : renderClosingBlock issueNumber (some verdicts) =
      Text.join ['\n'] (partOfLines issueNumber (unmetOf verdicts)) := if_neg hne
  rw [hblock]
  exact read_decision_iff hnumber hne hitems body hbody

theorem parse_not_done_at_docs :
    Gh.parseNotDoneItems (upsertSection "## Summary\nAdds a flag.".toList "Issue".toList
        (renderClosingBlock "1".toList (some [("Docs".toList, "unmet".toList)]))) =
        some ((unmetOf [("Docs".toList, "unmet".toList)]).map itemText) ↔
      (Moved issueHeading ("## Summary\nAdds a flag.".toList.splitOn '\n') →
        readOf (bodyOf issueHeading.text none (stripLines ("## Summary\nAdds a flag.".toList.splitOn '\n'))) =
          some ((unmetOf [("Docs".toList, "unmet".toList)]).map itemText)) :=
  parse_not_done_iff "## Summary\nAdds a flag.".toList "1".toList "## Acceptance Criteria\n- Docs".toList
    [("Docs".toList, "unmet".toList)] (by decide) (Text.forall_mem_of_all (by decide))
    (by decide)
    ⟨_, List.mem_cons_self, by decide⟩

/-- The first line of the body becomes a title of the section when the white space in front of it is taken
away. -/
theorem reads_moved_title :
    ¬ ∀ (body issueNumber issueBody : Text) (verdicts : List (Text × Text)),
      fencesAfter none (body.splitOn '\n') = none → (∀ c ∈ issueNumber, Text.isLineBreak c = false) →
      (∀ e ∈ verdicts, e.1 ∈ extractAcceptanceCriteria issueBody) → (∃ e ∈ verdicts, e.2 ≠ "met".toList) →
      Gh.parseNotDoneItems (upsertSection body "Issue".toList (renderClosingBlock issueNumber (some verdicts))) =
        some ((unmetOf verdicts).map itemText) := by
  intro hclaim
  have hread := hclaim "  ## Issue\nSee the ticket.".toList "1".toList "## Acceptance Criteria\n- Docs".toList
    [("Docs".toList, "unmet".toList)] (by decide) (Text.forall_mem_of_all (by decide))
    (by decide)
    ⟨_, List.mem_cons_self, by decide⟩
  exact absurd hread (by decide)

end Core.PrBody
