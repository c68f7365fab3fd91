import SovaVerified.Utils.Proofs.SectionFrameProofs

/-!
# The section that is removed

`remove_section` has patterns of its own: one blank in front of the heading and any white space behind it, and
one blank after the marks of the next title. It cuts out the section that `extract_section` reads exactly when
both take the same line for the title of the section and the same one for its end.
-/

namespace Utils.Markdown

open Text (unlines AreLines ended)

variable {line text : Text} {lines behind : List Text} {h : Heading}

/-! ## The patterns of `remove_section` -/

/-- The line is a title of the section for `remove_section`. -/
def removedTitles (h line : Text) : Bool := (Regex.matchToLineEnd (removedHeadingRe h) line).isSome

/-- The line is a title of any section for `remove_section`. -/
def removedBoundary (line : Text) : Bool := (Regex.matchPrefix (Regex.exact "## ") line).isSome

theorem matches_removedHeadingRe_iff (h u : Text) : Regex.Matches (removedHeadingRe h) u ↔
    ∃ tail, u = headLine h ++ tail ∧ ∀ c ∈ tail, Text.isSpace c = true := by
  constructor
  · rintro ⟨marks, _, rfl, hmarks, _, tail, rfl, hheading, -, -, htail⟩
    rw [Regex.matches_exact] at hmarks
    rw [Regex.matches_escape_iff] at hheading
    subst hmarks
    subst hheading
    exact ⟨tail, (List.append_assoc ..).symm, htail⟩
  · rintro ⟨tail, rfl, htail⟩
    refine ⟨"## ".toList, h ++ tail, List.append_assoc .., Regex.matches_exact.mpr rfl, h, tail, rfl,
      (Regex.matches_escape_iff h h).mpr rfl, ?_⟩
    exact ⟨Nat.zero_le _, by simp, htail⟩

theorem removedTitles_iff (hline : '\n' ∉ line) : removedTitles h.text line = true ↔
    ∃ tail, line = headLine h.text ++ tail ∧ ∀ c ∈ tail, Text.isSpace c = true := by
  unfold removedTitles
  rw [Regex.matchToLineEnd_isSome_iff, ← matches_removedHeadingRe_iff]
  constructor
  · rintro ⟨u, v, rfl, hu, hv⟩
    cases v with
    | nil => rwa [List.append_nil]
    | cons c v =>
      have hc : c = '\n' := by simpa [Regex.endsLine] using hv
      exact absurd (List.mem_append_right u (hc ▸ List.mem_cons_self)) hline
  · intro hu
    exact ⟨line, [], (List.append_nil line).symm, hu, rfl⟩

theorem removedBoundary_iff : removedBoundary line = true ↔ ∃ rest, line = "## ".toList ++ rest := by
  unfold removedBoundary
  rw [Regex.matchPrefix_isSome_iff]
  constructor
  · rintro ⟨u, v, rfl, hu⟩
    exact ⟨v, by rw [Regex.matches_exact.mp hu]⟩
  · rintro ⟨rest, rfl⟩
    exact ⟨_, rest, rfl, Regex.matches_exact.mpr rfl⟩

theorem boundary_of_removedBoundary (hline : removedBoundary line = true) : boundary line = true := by
  obtain ⟨rest, rfl⟩ := removedBoundary_iff.mp hline
  exact boundary_iff.mpr ⟨' ', rest, rfl, rfl⟩

theorem hashed_removedBoundary : Hashed removedBoundary := fun line hline =>
  hashed_boundary line (boundary_of_removedBoundary hline)

theorem seesLine_removedBoundary :
    Regex.SeesLine (fun s => (Regex.matchPrefix (Regex.exact "## ") s).isSome) removedBoundary :=
  Regex.seesLine_matchPrefix (by decide)

/-- White space behind the heading may run on over the end of the line; the line decides. -/
theorem seesLine_removedTitles (h : Heading) :
    Regex.SeesLine (fun s => (Regex.matchToLineEnd (removedHeadingRe h.text) s).isSome) (removedTitles h.text) := by
  refine fun l hl => ⟨rfl, fun t => ?_⟩
  rw [Bool.eq_iff_iff, removedTitles_iff hl, Regex.matchToLineEnd_isSome_iff]
  constructor
  · rintro ⟨u, v, huv, hu, hv⟩
    obtain ⟨tail, rfl, htail⟩ := (matches_removedHeadingRe_iff h.text u).mp hu
    rw [List.append_assoc] at huv
    rcases List.append_eq_append_iff.mp huv with ⟨w, hw, hrest⟩ | ⟨w, hw, hrest⟩
    · cases w with
      | nil => exact ⟨[], by rw [List.append_nil]; simpa using hw.symm, by simp⟩
      | cons c w =>
        -- the line would end within the heading
        have hc : c = '\n' := by
          rw [List.cons_append] at hrest
          exact (List.cons_eq_cons.mp hrest).1.symm
        have hmem : '\n' ∈ headLine h.text := by
          rw [hw, hc]
          simp
        exact absurd hmem (newline_notMem_headLine h)
    · refine ⟨w, hw, ?_⟩
      rcases List.append_eq_append_iff.mp hrest with ⟨w', hw', hv'⟩ | ⟨w', hw', hv'⟩
      · intro c hc
        rcases Regex.head_of_endsLine hv with rfl | ⟨t', rfl⟩
        · have hnil := congrArg List.length hv'
          simp at hnil
        · cases w' with
          | nil => exact htail c (by rwa [hw', List.append_nil] at hc)
          | cons d w' =>
            have hd : d = '\n' := by
              rw [List.cons_append] at hv'
              exact (List.cons_eq_cons.mp hv').1.symm
            have hmem : '\n' ∈ l := by
              rw [hw, hw', hd]
              simp
            exact absurd hmem hl
      · exact fun c hc => htail c (by rw [hw']; exact List.mem_append_left w' hc)
  · rintro ⟨tail, rfl, htail⟩
    exact ⟨headLine h.text ++ tail, '\n' :: t, rfl, (matches_removedHeadingRe_iff _ _).mpr ⟨tail, rfl, htail⟩, rfl⟩

theorem notAtSpace_removedBoundary :
    Regex.NotAtSpace fun s => (Regex.matchPrefix (Regex.exact "## ") s).isSome := by
  refine ⟨by decide, ?_⟩
  intro c t hc
  rw [Bool.eq_false_iff]
  intro hmatch
  obtain ⟨rest, hrest⟩ := removedBoundary_iff.mp hmatch
  have hhash : c = '#' := (List.cons_eq_cons.mp hrest).1
  rw [hhash] at hc
  exact absurd hc (by decide)

theorem boundary_of_removedTitles (hline : removedTitles h.text line = true) : removedBoundary line = true := by
  unfold removedTitles at hline
  obtain ⟨u, v, rfl, hu, -⟩ := (Regex.matchToLineEnd_isSome_iff _ _).mp hline
  obtain ⟨tail, rfl, -⟩ := (matches_removedHeadingRe_iff h.text u).mp hu
  exact removedBoundary_iff.mpr ⟨h.text ++ tail ++ v, by unfold headLine; simp⟩

theorem hashed_removedTitles (h : Heading) : Hashed (removedTitles h.text) := fun line hline =>
  hashed_removedBoundary line (boundary_of_removedTitles hline)

/-! ## The cuts -/

/-- The text in front of a section and behind it, for a reader that takes its titles and its ends by tests of
its own. -/
def cutLines (title bound : Text → Bool) (lines : List Text) : Option (Text × Text) :=
  match onward title none lines with
  | [] => none
  | _ :: behind => some (ended (before title none lines), unlines (onward bound none behind))

/-- The section that `extract_section` reads is cut out between the same offsets. -/
def sectionCut (text heading : Text) : Option (Text × Text) :=
  let masked := maskFencedBlocks text
  match Regex.searchLineSpan (headingRe heading false) masked with
  | none => none
  | some (found, rest) =>
    let front := text.take (masked.length - found.length)
    match Regex.searchLineStart nextHeadingRe rest with
    | some next => some (front, text.drop (masked.length - next.length))
    | none => some (front, [])

/-- Where the lines are cut, in the text. -/
theorem drop_next {bound : Text → Bool} {front : List Text} (hsplit : text.splitOn '\n' = front ++ line :: behind)
    (hnext : onward bound none behind ≠ []) :
    text.drop ((maskFencedBlocks text).length - (unlines (maskLines none (onward bound none behind))).length) =
      unlines (onward bound none behind) := by
  have hparts : text.splitOn '\n' = (front ++ line :: before bound none behind) ++ onward bound none behind := by
    rw [List.append_assoc, List.cons_append, before_append_onward]
    exact hsplit
  have hcut := cut_masked none none hnext (front ++ line :: before bound none behind)
  rw [← hparts, Text.unlines_splitOn] at hcut
  exact hcut.2

theorem take_front {front : List Text} (hsplit : text.splitOn '\n' = front ++ line :: behind) :
    text.take ((maskFencedBlocks text).length - (unlines (maskLines none (line :: behind))).length) = ended front := by
  have hcut := cut_masked none none (List.cons_ne_nil line behind) front
  rw [← hsplit, Text.unlines_splitOn] at hcut
  exact hcut.1

theorem sectionCut_eq (h : Heading) (text : Text) :
    sectionCut text h.text = cutLines (titles h.text) boundary (text.splitOn '\n') := by
  unfold sectionCut cutLines
  dsimp only
  rw [searchLineSpan_masked]
  cases honward : onward (titles h.text) none (text.splitOn '\n') with
  | nil => rfl
  | cons line behind =>
    obtain ⟨hsplit, -, -⟩ := onward_eq_cons honward
    have hbehind := (Text.areLines_cons (hsplit ▸ Text.areLines_splitOn text).right).2
    dsimp only
    rw [searchLineStart_masked hbehind, take_front hsplit]
    by_cases hnext : onward boundary none behind = []
    · rw [if_pos hnext, hnext]
      rfl
    · rw [if_neg hnext]
      dsimp only
      rw [drop_next hsplit hnext]

/-- What is cut out is the line of the title and the body that is read. -/
theorem extractSection_of_cut (h : Heading) {front back : Text} (hcut : sectionCut text h.text = some (front, back)) :
    ∃ line body, text = front ++ line ++ body ++ back ∧ '\n' ∉ line ∧ titles h.text line = true ∧
      extractSection text h.text false = Text.strip body := by
  rw [sectionCut_eq] at hcut
  unfold cutLines at hcut
  cases honward : onward (titles h.text) none (text.splitOn '\n') with
  | nil =>
    rw [honward] at hcut
    cases hcut
  | cons line behind =>
    rw [honward] at hcut
    cases hcut
    obtain ⟨hsplit, -, htitle⟩ := onward_eq_cons honward
    obtain ⟨hline, -⟩ := Text.areLines_cons (hsplit ▸ Text.areLines_splitOn text).right
    have htext : text = ended (before (titles h.text) none (text.splitOn '\n')) ++ line ++ unlines ([] :: behind) := by
      conv_lhs => rw [← Text.unlines_splitOn text, hsplit, Text.unlines_append _ (List.cons_ne_nil _ _),
        Text.unlines_head]
      rw [List.append_assoc]
    have hread : extractSection text h.text false = Text.strip (unlines (before boundary none behind)) := by
      rw [extractSection_eq h.oneLine]
      unfold sectionOf
      rw [bodyOf_cons honward]
    by_cases hnext : onward boundary none behind = []
    · refine ⟨line, unlines ([] :: behind), ?_, hline, htitle, ?_⟩
      · rw [hnext]
        show _ = _ ++ []
        rw [List.append_nil]
        exact htext
      · rw [hread, before_of_free hnext, Text.strip_unlines_nil_cons]
    · refine ⟨line, ended ([] :: before boundary none behind), ?_, hline, htitle, ?_⟩
      · have hbody : unlines ([] :: behind) =
            ended ([] :: before boundary none behind) ++ unlines (onward boundary none behind) := by
          rw [← Text.unlines_append _ hnext, List.cons_append, before_append_onward]
        rw [List.append_assoc, ← hbody]
        exact htext
      · rw [hread, Text.strip_ended, Text.strip_unlines_nil_cons]

theorem removedCut_eq (h : Heading) (text : Text) :
    removedCut text h.text = cutLines (removedTitles h.text) removedBoundary (text.splitOn '\n') := by
  have hfirst : (Regex.searchLineSpan (removedHeadingRe h.text) (maskFencedBlocks text)).map Prod.fst =
      if onward (removedTitles h.text) none (text.splitOn '\n') = [] then none
      else some (unlines (maskLines none (onward (removedTitles h.text) none (text.splitOn '\n')))) := by
    rw [Regex.map_fst_searchLineSpan]
    exact find_masked (seesLine_removedTitles h) (hashed_removedTitles h) (List.splitOn_ne_nil '\n' text)
      (Text.areLines_splitOn text) none
  unfold removedCut cutLines
  dsimp only
  cases honward : onward (removedTitles h.text) none (text.splitOn '\n') with
  | nil =>
    rw [honward, if_pos rfl, Option.map_eq_none_iff] at hfirst
    rw [hfirst]
  | cons line behind =>
    obtain ⟨hsplit, -, htitle⟩ := onward_eq_cons honward
    obtain ⟨hline, hbehind⟩ := Text.areLines_cons (hsplit ▸ Text.areLines_splitOn text).right
    have hbound := boundary_of_removedBoundary (boundary_of_removedTitles htitle)
    rw [honward, if_neg (List.cons_ne_nil _ _)] at hfirst
    obtain ⟨⟨found, rest⟩, hfound, hmask⟩ := Option.map_eq_some_iff.mp hfirst
    obtain rfl : found = unlines (maskLines none (line :: behind)) := hmask
    -- the search goes on behind the white space that the match took
    have hsearch : Regex.searchLineStart (Regex.exact "## ") rest =
        if onward removedBoundary none behind = [] then none
        else some (unlines (maskLines none (onward removedBoundary none behind))) := by
      obtain ⟨g, hmatch⟩ := Regex.match_of_searchLineSpan hfound
      obtain ⟨u, v, g', hsplit', hu, hk, -⟩ := Regex.run_eq_some hmatch
      split_ifs at hk with hends
      cases hk
      obtain ⟨tail, rfl, htail⟩ := (matches_removedHeadingRe_iff h.text u).mp hu
      rw [maskLines_title hbound] at hsplit'
      have hbehind' := Regex.find_lineStarts_behind notAtSpace_removedBoundary hline (newline_notMem_headLine h)
        htail hends hsplit'
      have hmasked := find_masked seesLine_removedBoundary hashed_removedBoundary
        (List.cons_ne_nil [] behind) (AreLines.cons (by simp) hbehind) none
      rw [(onward_cons_nil hashed_removedBoundary none behind).1, ← maskLines_rest] at hmasked
      exact hbehind'.trans hmasked
    rw [hfound]
    dsimp only
    rw [hsearch, take_front hsplit]
    by_cases hnext : onward removedBoundary none behind = []
    · rw [if_pos hnext, hnext]
      rfl
    · rw [if_neg hnext]
      dsimp only
      rw [drop_next hsplit hnext]

/-! ## The same section -/

/-- Both readers take the same line for the title of the section, and the same one for its end. -/
structure SameSection (h : Heading) (lines : List Text) : Prop where
  titles : before (titles h.text) none lines = before (removedTitles h.text) none lines
  ends : ∀ line behind, onward (Markdown.titles h.text) none lines = line :: behind →
    onward boundary none behind = onward removedBoundary none behind

theorem ended_injective {a b : List Text} (ha : AreLines a) (hb : AreLines b) (h : ended a = ended b) : a = b := by
  have hsplit := congrArg (List.splitOn '\n') h
  rw [splitOn_ended ha, splitOn_ended hb] at hsplit
  exact List.append_cancel_right hsplit

/-- Lines that begin with a title are told by their text. -/
theorem unlines_onward_injective {p q : Text → Bool} (hp : Hashed p) (hq : Hashed q) {a b : List Text}
    (ha : AreLines a) (hb : AreLines b) (h : unlines (onward p none a) = unlines (onward q none b)) :
    onward p none a = onward q none b := by
  have hne : ∀ (r : Text → Bool) (ls : List Text), Hashed r → onward r none ls ≠ [] →
      unlines (onward r none ls) ≠ [] := by
    intro r ls hr hcons hnil
    obtain ⟨l, ls', hls⟩ := List.exists_cons_of_ne_nil hcons
    obtain ⟨rest, hrest⟩ := hr l (onward_eq_cons hls).2.2
    rw [hls, Text.unlines_head, hrest] at hnil
    cases hnil
  have hlines : ∀ (r : Text → Bool) (ls : List Text), AreLines ls → AreLines (onward r none ls) := by
    intro r ls hls
    rw [← before_append_onward r none ls] at hls
    exact hls.right
  by_cases hnil : onward p none a = []
  · by_cases hnil' : onward q none b = []
    · rw [hnil, hnil']
    · rw [hnil] at h
      exact absurd h.symm (hne q b hq hnil')
  · by_cases hnil' : onward q none b = []
    · rw [hnil'] at h
      exact absurd h (hne p a hp hnil)
    · exact Text.unlines_injective hnil hnil' (hlines p a ha) (hlines q b hb) h

theorem cutLines_eq_iff (h : Heading) (hls : AreLines lines) :
    cutLines (removedTitles h.text) removedBoundary lines = cutLines (titles h.text) boundary lines ↔
      SameSection h lines := by
  have hwide : ∀ p : Text → Bool, before p none lines ++ onward p none lines = lines :=
    fun p => before_append_onward p none lines
  have hshort : ∀ (p : Text → Bool) line behind, onward p none lines = line :: behind → before p none lines ≠ lines := by
    intro p line behind hcons heq
    have hlength := congrArg List.length (hwide p)
    rw [hcons, heq, List.length_append, List.length_cons] at hlength
    omega
  unfold cutLines
  cases hfound : onward (titles h.text) none lines with
  | nil =>
    have hall : before (titles h.text) none lines = lines := before_of_free hfound
    cases hremoved : onward (removedTitles h.text) none lines with
    | nil =>
      refine iff_of_true rfl ⟨?_, fun line behind hcons => ?_⟩
      · rw [hall, before_of_free hremoved]
      · rw [hfound] at hcons
        cases hcons
    | cons line behind =>
      refine iff_of_false (by simp) fun hsame => hshort _ line behind hremoved ?_
      rw [← hsame.titles, hall]
  | cons line behind =>
    cases hremoved : onward (removedTitles h.text) none lines with
    | nil =>
      refine iff_of_false (by simp) fun hsame => hshort _ line behind hfound ?_
      rw [hsame.titles, before_of_free hremoved]
    | cons line' behind' =>
      have hlines : ∀ p : Text → Bool, AreLines (before p none lines) := by
        intro p
        have hparts := hls
        rw [← hwide p] at hparts
        exact hparts.left
      have hrest : ∀ (p : Text → Bool) l ls, onward p none lines = l :: ls → AreLines ls := by
        intro p l ls hcons
        have hparts := hls
        rw [← hwide p, hcons] at hparts
        exact (Text.areLines_cons hparts.right).2
      have hbehind : before (titles h.text) none lines = before (removedTitles h.text) none lines →
          behind = behind' := by
        intro hsame
        have hboth := (hwide (titles h.text)).trans (hwide (removedTitles h.text)).symm
        rw [hsame, hfound, hremoved] at hboth
        exact (List.cons_eq_cons.mp (List.append_cancel_left hboth)).2
      dsimp only
      rw [Option.some.injEq, Prod.mk.injEq]
      constructor
      · rintro ⟨hfront, hback⟩
        have hsame := (ended_injective (hlines _) (hlines _) hfront).symm
        refine ⟨hsame, fun l ls hcons => ?_⟩
        rw [hfound] at hcons
        cases hcons
        have hends := unlines_onward_injective hashed_removedBoundary hashed_boundary (hrest _ _ _ hremoved)
          (hrest _ _ _ hfound) hback
        rw [← hends, hbehind hsame]
      · intro hsame
        refine ⟨by rw [hsame.titles], ?_⟩
        rw [hsame.ends line behind hfound, hbehind hsame.titles]

/-- Cutting out a section changes the text. -/
theorem removeSection_ne (h : Heading) (text : Text) (hcut : (removedCut text h.text).isSome = true) :
    removeSection text h.text ≠ Text.strip text := by
  obtain ⟨⟨front, back⟩, hsome⟩ := Option.isSome_iff_exists.mp hcut
  have hlines := hsome
  rw [removedCut_eq] at hlines
  unfold cutLines at hlines
  unfold removeSection
  rw [hsome]
  dsimp only
  cases honward : onward (removedTitles h.text) none (text.splitOn '\n') with
  | nil =>
    rw [honward] at hlines
    cases hlines
  | cons line behind =>
    rw [honward] at hlines
    cases hlines
    obtain ⟨hsplit, -, htitle⟩ := onward_eq_cons honward
    obtain ⟨c, rest, -, rfl⟩ := boundary_iff.mp (boundary_of_removedBoundary (boundary_of_removedTitles htitle))
    have hmarks : Text.ink ('#' :: '#' :: c :: rest) = 2 + Text.ink (c :: rest) := Text.ink_append ['#', '#'] _
    have hparts := congrArg (fun ls => (ls.map Text.ink).sum) (before_append_onward removedBoundary none behind)
    intro heq
    have hink := congrArg Text.ink heq
    conv_rhs at hink => rw [← Text.unlines_splitOn text, hsplit]
    rw [Text.ink_strip, Text.ink_strip, Text.ink_append, Text.ink_ended, Text.ink_unlines, Text.ink_unlines] at hink
    simp only [List.map_append, List.sum_append, List.map_cons, List.sum_cons] at hink hparts
    omega

theorem removeSection_changes_iff (h : Heading) (text : Text) :
    removeSection text h.text ≠ Text.strip text ↔ (removedCut text h.text).isSome = true := by
  constructor
  · intro hne
    rw [Option.isSome_iff_ne_none]
    intro hnone
    unfold removeSection at hne
    rw [hnone] at hne
    exact hne rfl
  · exact removeSection_ne h text

/-- The search of `extract_section` finds the section that is cut out. -/
theorem isSome_sectionCut (h : Heading) (text : Text) :
    (sectionCut text h.text).isSome =
      (Regex.searchLines (headingRe h.text false) (maskFencedBlocks text)).isSome := by
  have hmap := Regex.map_searchLines (uses_headingRe_of_line h.oneLine) (maskFencedBlocks text)
  have hsome := congrArg Option.isSome hmap
  rw [Option.isSome_map, Option.isSome_map, firstLine_masked h.oneLine] at hsome
  rw [hsome, sectionCut_eq]
  unfold cutLines
  cases honward : onward (titles h.text) none (text.splitOn '\n') with
  | nil => rfl
  | cons line behind => rw [if_neg (List.cons_ne_nil _ _)]; rfl

theorem removes_what_is_read_iff (h : Heading) (text : Text) :
    ((removeSection text h.text ≠ Text.strip text ↔
          (Regex.searchLines (headingRe h.text false) (maskFencedBlocks text)).isSome = true) ∧
        removedCut text h.text = sectionCut text h.text) ↔
      SameSection h (text.splitOn '\n') := by
  have hcuts : removedCut text h.text = sectionCut text h.text ↔ SameSection h (text.splitOn '\n') := by
    rw [removedCut_eq, sectionCut_eq]
    exact cutLines_eq_iff h (Text.areLines_splitOn text)
  rw [← hcuts, removeSection_changes_iff, ← isSome_sectionCut]
  constructor
  · exact And.right
  · intro hsame
    exact ⟨by rw [hsame], hsame⟩

/-- Two blanks in front of the heading. -/
theorem keeps_section_with_blanks :
    ¬ ∀ (h : Heading) (text : Text),
      (removeSection text h.text ≠ Text.strip text ↔
          (Regex.searchLines (headingRe h.text false) (maskFencedBlocks text)).isSome = true) ∧
        removedCut text h.text = sectionCut text h.text := by
  intro hclaim
  have hchanges := (hclaim issueHeading "##  Issue\nCloses #1".toList).1.mpr (by decide +kernel)
  exact absurd hchanges (by decide +kernel)

end Utils.Markdown
