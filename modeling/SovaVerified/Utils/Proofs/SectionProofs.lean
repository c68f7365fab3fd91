import SovaVerified.Regex.Proofs.LineProofs
import SovaVerified.Scanning.Scanning
import SovaVerified.Utils.Proofs.MaskProofs

/-!
# Sections, line by line

A section begins below the first line outside of fences that titles it and ends above the next line outside of
fences that titles any section. `extract_section` finds both on the masked text and cuts the text by offsets;
here it reads the lines.
-/

namespace Utils.Markdown

open Text (unlines AreLines ended)

variable {st : Option Fence} {p : Text → Bool} {test : Text → Bool} {line h heading text : Text}
  {lines a b behind : List Text}

/-! ## Reading up to a line outside of fences -/

/-- A hit of a reader that looks for lines outside of fences. -/
def outside (p : Text → Bool) (st : Option Fence) (line : Text) : Bool := st.isNone && p line

/-- The lines above the first one outside of fences that passes the test. -/
abbrev before (p : Text → Bool) (st : Option Fence) (lines : List Text) : List Text :=
  Scanning.before fenceAfter (outside p) st lines

/-- The lines from the first one outside of fences on that passes the test. -/
abbrev onward (p : Text → Bool) (st : Option Fence) (lines : List Text) : List Text :=
  Scanning.onward fenceAfter (outside p) st lines

/-- No line outside of fences passes the test. -/
def Free (p : Text → Bool) (st : Option Fence) (lines : List Text) : Prop := onward p st lines = []

/-- The lines that pass the test begin with a hash, so that none of them is a fence. -/
def Hashed (p : Text → Bool) : Prop := ∀ line, p line = true → ∃ rest, line = '#' :: rest

theorem outside_iff : outside p st line = true ↔ st = none ∧ p line = true := by
  unfold outside
  rw [Bool.and_eq_true, Option.isNone_iff_eq_none]

theorem Hashed.openFence (hp : Hashed p) (h : p line = true) : openFence line = none := by
  obtain ⟨rest, rfl⟩ := hp line h
  rfl

theorem Hashed.lstrip (hp : Hashed p) (h : p line = true) : Text.lstrip line = line := by
  obtain ⟨rest, rfl⟩ := hp line h
  refine Text.lstrip_of_head ?_
  intro c hc
  cases hc
  decide

theorem Hashed.blanked (hp : Hashed p) (line : Text) : p (blanked line) = false := by
  cases hline : p (Markdown.blanked line) with
  | false => rfl
  | true =>
    obtain ⟨rest, hrest⟩ := hp _ hline
    have hmem : '#' ∈ Markdown.blanked line := by
      rw [hrest]
      exact List.mem_cons_self
    exact absurd (List.eq_of_mem_replicate hmem) (by decide)

/-- The test on the masked line. -/
theorem Hashed.masked (hp : Hashed p) (st : Option Fence) (line : Text) :
    p (if isVisible st line then line else Markdown.blanked line) = outside p st line := by
  by_cases hvisible : isVisible st line = true
  · obtain ⟨rfl, -⟩ := isVisible_iff.mp hvisible
    rw [if_pos hvisible]
    rfl
  · rw [if_neg hvisible, hp.blanked, eq_comm, Bool.eq_false_iff, Ne, outside_iff]
    rintro ⟨rfl, hline⟩
    exact hvisible (isVisible_iff.mpr ⟨rfl, hp.openFence hline⟩)

/-- A line that a reader stops at, and the state that it is in. -/
theorem onward_eq_cons (h : onward p st lines = line :: behind) :
    lines = before p st lines ++ line :: behind ∧ fencesAfter st (before p st lines) = none ∧ p line = true := by
  have hsplit : before p st lines ++ onward p st lines = lines := Scanning.before_append_onward st lines
  obtain ⟨hnone, hline⟩ := outside_iff.mp (Scanning.hit_of_onward h)
  refine ⟨?_, hnone, hline⟩
  rw [← h]
  exact hsplit.symm

theorem free_before (p : Text → Bool) (st : Option Fence) (lines : List Text) : Free p st (before p st lines) :=
  Scanning.onward_before st lines

theorem before_append_onward (p : Text → Bool) (st : Option Fence) (lines : List Text) :
    before p st lines ++ onward p st lines = lines := Scanning.before_append_onward st lines

theorem before_of_free (h : Free p st lines) : before p st lines = lines := Scanning.before_of_free h

theorem onward_append_of_free (h : Free p st a) (b : List Text) :
    onward p st (a ++ b) = onward p (fencesAfter st a) b := Scanning.onward_append_of_free h b

theorem before_append_of_free (h : Free p st a) (b : List Text) :
    before p st (a ++ b) = a ++ before p (fencesAfter st a) b := Scanning.before_append_of_free h b

theorem onward_append_of_hit (h : ¬ Free p st a) (b : List Text) : onward p st (a ++ b) = onward p st a ++ b :=
  Scanning.onward_append_of_hit h b

theorem before_append_of_hit (h : ¬ Free p st a) (b : List Text) : before p st (a ++ b) = before p st a :=
  Scanning.before_append_of_hit h b

theorem onward_hit (h : p line = true) (behind : List Text) :
    onward p none (line :: behind) = line :: behind := Scanning.onward_of_hit (outside_iff.mpr ⟨rfl, h⟩) behind

theorem before_hit (h : p line = true) (behind : List Text) : before p none (line :: behind) = [] :=
  Scanning.before_of_hit (outside_iff.mpr ⟨rfl, h⟩) behind

theorem free_append_iff : Free p st (a ++ b) ↔ Free p st a ∧ Free p (fencesAfter st a) b :=
  Scanning.onward_append_eq_nil_iff

theorem onward_cons_nil (hp : Hashed p) (st : Option Fence) (lines : List Text) :
    onward p st ([] :: lines) = onward p st lines ∧ before p st ([] :: lines) = [] :: before p st lines := by
  have hpass : outside p st [] = false := by
    rw [Bool.eq_false_iff, Ne, outside_iff]
    rintro ⟨-, hnil⟩
    obtain ⟨rest, hrest⟩ := hp [] hnil
    cases hrest
  have hstate : fenceAfter st [] = st := fenceAfter_of_blank rfl st
  refine ⟨?_, ?_⟩
  · show Scanning.onward _ _ _ _ = _
    rw [Scanning.onward_of_pass hpass, hstate]
  · show Scanning.before _ _ _ _ = _
    rw [Scanning.before_of_pass hpass, hstate]

/-! ## The reader on the masked lines -/

/-- A search through the masked lines comes to the same line. -/
theorem dropWhile_maskLines (hp : Hashed p) (st : Option Fence) (lines : List Text) :
    (maskLines st lines).dropWhile (fun l => !p l) = maskLines none (onward p st lines) := by
  induction lines generalizing st with
  | nil =>
    rw [maskLines_nil]
    rfl
  | cons line lines ih =>
    cases hhit : outside p st line with
    | true =>
      obtain ⟨rfl, hline⟩ := outside_iff.mp hhit
      have hvisible : isVisible none line = true := isVisible_iff.mpr ⟨rfl, hp.openFence hline⟩
      show _ = maskLines none (Scanning.onward fenceAfter (outside p) none (line :: lines))
      rw [Scanning.onward_of_hit hhit, maskLines_cons, if_pos hvisible, List.dropWhile_cons, hline, Bool.not_true,
        if_neg Bool.false_ne_true]
    | false =>
      have hhead : p (if isVisible st line then line else blanked line) = false := by rw [hp.masked, hhit]
      show _ = maskLines none (Scanning.onward fenceAfter (outside p) st (line :: lines))
      rw [Scanning.onward_of_pass hhit, maskLines_cons, List.dropWhile_cons, hhead, Bool.not_false, if_pos rfl]
      exact ih _

/-- The lines in front of it are the masked ones in front of the line. -/
theorem takeWhile_maskLines (hp : Hashed p) (st : Option Fence) (lines : List Text) :
    (maskLines st lines).takeWhile (fun l => !p l) = maskLines st (before p st lines) := by
  induction lines generalizing st with
  | nil =>
    rw [maskLines_nil]
    exact (maskLines_nil st).symm
  | cons line lines ih =>
    rw [maskLines_cons, List.takeWhile_cons, hp.masked]
    show _ = maskLines st (Scanning.before fenceAfter (outside p) st (line :: lines))
    cases hhit : outside p st line with
    | true =>
      rw [Scanning.before_of_hit hhit, Bool.not_true, if_neg Bool.false_ne_true, maskLines_nil]
    | false =>
      rw [Scanning.before_of_pass hhit, Bool.not_false, if_pos rfl, maskLines_cons, ih]

theorem onward_of_visible (h : ∀ l ∈ lines, openFence l = none) :
    onward p none lines = lines.dropWhile (fun l => !p l) ∧
      before p none lines = lines.takeWhile (fun l => !p l) := by
  induction lines with
  | nil => exact ⟨rfl, rfl⟩
  | cons line lines ih =>
    obtain ⟨hline, hlines⟩ := List.forall_mem_cons.mp h
    obtain ⟨honward, hbefore⟩ := ih hlines
    have hstate : fenceAfter none line = none := hline
    have hout : outside p none line = p line := rfl
    rw [List.dropWhile_cons, List.takeWhile_cons]
    cases hhit : p line with
    | true => exact ⟨onward_hit hhit lines, before_hit hhit lines⟩
    | false =>
      rw [Bool.not_false, if_pos rfl, if_pos rfl, ← honward, ← hbefore]
      refine ⟨?_, ?_⟩
      · show Scanning.onward _ _ _ _ = _
        rw [Scanning.onward_of_pass (hout.trans hhit), hstate]
      · show Scanning.before _ _ _ _ = _
        rw [Scanning.before_of_pass (hout.trans hhit), hstate]

theorem find_masked (htest : Regex.SeesLine test p) (hp : Hashed p) (hne : lines ≠ []) (hls : AreLines lines)
    (st : Option Fence) :
    (Regex.lineStarts (unlines (maskLines st lines))).find? test =
      if onward p st lines = [] then none else some (unlines (maskLines none (onward p st lines))) := by
  rw [Regex.find_lineStarts htest (maskLines_ne_nil hne st) (areLines_maskLines hls st),
    dropWhile_maskLines hp]
  by_cases hnil : onward p st lines = []
  · rw [hnil, maskLines_nil, if_pos rfl]
  · rw [if_neg (maskLines_ne_nil hnil none), if_neg hnil]

/-- The offsets of the masked text cut the text between its lines. -/
theorem cut_masked (st st' : Option Fence) (hb : b ≠ []) (a : List Text) :
    (unlines (a ++ b)).take ((unlines (maskLines st (a ++ b))).length - (unlines (maskLines st' b)).length) =
        ended a ∧
      (unlines (a ++ b)).drop ((unlines (maskLines st (a ++ b))).length - (unlines (maskLines st' b)).length) =
        unlines b := by
  rw [length_unlines_maskLines, length_unlines_maskLines, Text.unlines_append a hb, List.length_append,
    Nat.add_sub_cancel]
  exact ⟨List.take_left, List.drop_left⟩

/-! ## Heading lines -/

/-- The line titles a section. -/
def boundary (line : Text) : Bool := (Regex.matchPrefix nextHeadingRe line).isSome

/-- The line titles the section of the heading. -/
def titles (h line : Text) : Bool := (Regex.matchToLineEnd (headingRe h false) line).isSome

theorem matches_nextHeadingRe_iff (u : Text) :
    Regex.Matches nextHeadingRe u ↔ ∃ c, isBlank c = true ∧ u = ['#', '#', c] := by
  constructor
  · rintro ⟨marks, _, rfl, hmarks, c, hc, rfl⟩
    rw [Regex.matches_exact] at hmarks
    exact ⟨c, hc, by rw [hmarks]; rfl⟩
  · rintro ⟨c, hc, rfl⟩
    exact ⟨"##".toList, [c], rfl, Regex.matches_exact.mpr rfl, c, hc, rfl⟩

theorem boundary_iff : boundary line = true ↔ ∃ c rest, isBlank c = true ∧ line = '#' :: '#' :: c :: rest := by
  unfold boundary
  rw [Regex.matchPrefix_isSome_iff]
  constructor
  · rintro ⟨u, v, rfl, hu⟩
    obtain ⟨c, hc, rfl⟩ := (matches_nextHeadingRe_iff u).mp hu
    exact ⟨c, v, hc, rfl⟩
  · rintro ⟨c, rest, hc, rfl⟩
    exact ⟨['#', '#', c], rest, rfl, (matches_nextHeadingRe_iff _).mpr ⟨c, hc, rfl⟩⟩

theorem hashed_boundary : Hashed boundary := by
  intro line hline
  obtain ⟨c, rest, -, rfl⟩ := boundary_iff.mp hline
  exact ⟨_, rfl⟩

theorem seesLine_boundary : Regex.SeesLine (fun s => (Regex.matchPrefix nextHeadingRe s).isSome) boundary :=
  Regex.seesLine_matchPrefix (by decide)

theorem uses_headingRe {ignoreCase : Bool}
    (h : (Regex.escape ignoreCase heading).uses '\n' = false) : (headingRe heading ignoreCase).uses '\n' = false := by
  have huses : (headingRe heading ignoreCase).uses '\n' =
      ((Regex.exact "##").uses '\n' || (isBlank '\n' ||
        ((Regex.escape ignoreCase heading).uses '\n' || (isBlank '\n' || '\n' == '\r')))) := rfl
  rw [huses, h]
  decide

theorem uses_headingRe_of_line (hh : '\n' ∉ h) : (headingRe h false).uses '\n' = false := by
  refine uses_headingRe ?_
  rw [Regex.uses_escape, List.contains_eq_mem]
  exact decide_eq_false hh

/-- What may stand behind the heading on its line. -/
def isTail (c : Char) : Bool := isBlank c || c == '\r'

theorem matches_headingRe_iff (h u : Text) :
    Regex.Matches (headingRe h false) u ↔ ∃ blanks tail, u = '#' :: '#' :: (blanks ++ h ++ tail) ∧ blanks ≠ [] ∧
      (∀ c ∈ blanks, isBlank c = true) ∧ ∀ c ∈ tail, isTail c = true := by
  constructor
  · rintro ⟨marks, _, rfl, hmarks, blanks, _, rfl, ⟨hlen, -, hblanks⟩, _, tail, rfl, hheading, -, -, htail⟩
    rw [Regex.matches_exact] at hmarks
    rw [Regex.matches_escape_iff] at hheading
    subst hmarks
    subst hheading
    refine ⟨blanks, tail, ?_, ?_, hblanks, htail⟩
    · rw [List.append_assoc]
      rfl
    · rintro rfl
      exact absurd hlen (by decide)
  · rintro ⟨blanks, tail, rfl, hne, hblanks, htail⟩
    refine ⟨"##".toList, blanks ++ h ++ tail, rfl, Regex.matches_exact.mpr rfl, blanks, h ++ tail,
      List.append_assoc .., ⟨List.length_pos_iff.mpr hne, by simp, hblanks⟩, h, tail, rfl,
      (Regex.matches_escape_iff h h).mpr rfl, by simp, by simp, htail⟩

theorem titles_iff (hline : '\n' ∉ line) :
    titles h line = true ↔ ∃ blanks tail, line = '#' :: '#' :: (blanks ++ h ++ tail) ∧ blanks ≠ [] ∧
      (∀ c ∈ blanks, isBlank c = true) ∧ ∀ c ∈ tail, isTail c = true := by
  unfold titles
  rw [Regex.matchToLineEnd_isSome_iff, ← matches_headingRe_iff]
  constructor
  · rintro ⟨u, v, rfl, hu, hv⟩
    cases v with
    | nil => rwa [List.append_nil]
    | cons c v =>
      have hc : c = '\n' := by simpa [Regex.endsLine] using hv
      exact absurd (List.mem_append_right u (hc ▸ List.mem_cons_self)) hline
  · intro hu
    exact ⟨line, [], (List.append_nil line).symm, hu, rfl⟩

/-- A line that titles a section begins with its two hashes and a blank, also where a text goes on behind it. -/
theorem boundary_of_titles (hline : titles h line = true) : boundary line = true := by
  unfold titles at hline
  obtain ⟨u, v, rfl, hu, -⟩ := (Regex.matchToLineEnd_isSome_iff _ _).mp hline
  obtain ⟨blanks, tail, rfl, hne, hblanks, -⟩ := (matches_headingRe_iff h u).mp hu
  obtain ⟨c, blanks, rfl⟩ := List.exists_cons_of_ne_nil hne
  exact boundary_iff.mpr ⟨c, _, hblanks c List.mem_cons_self, rfl⟩

theorem hashed_titles (h : Text) : Hashed (titles h) := fun line hline =>
  hashed_boundary line (boundary_of_titles hline)

/-! ## The section of a heading -/

/-- The lines below the first title of the section, up to the next title of any section. -/
def bodyOf (h : Text) (st : Option Fence) (lines : List Text) : List Text :=
  match onward (titles h) st lines with
  | [] => []
  | _ :: behind => before boundary none behind

/-- The lines from the next title of any section on. -/
def behindOf (h : Text) (st : Option Fence) (lines : List Text) : List Text :=
  match onward (titles h) st lines with
  | [] => []
  | _ :: behind => onward boundary none behind

theorem bodyOf_nil (hnil : onward (titles h) st lines = []) : bodyOf h st lines = [] := by
  unfold bodyOf
  rw [hnil]

theorem bodyOf_cons (hcons : onward (titles h) st lines = line :: behind) :
    bodyOf h st lines = before boundary none behind := by
  unfold bodyOf
  rw [hcons]

theorem behindOf_nil (hnil : onward (titles h) st lines = []) : behindOf h st lines = [] := by
  unfold behindOf
  rw [hnil]

theorem behindOf_cons (hcons : onward (titles h) st lines = line :: behind) :
    behindOf h st lines = onward boundary none behind := by
  unfold behindOf
  rw [hcons]

/-- The section as a text. -/
def sectionOf (h : Text) (lines : List Text) : Text := Text.strip (unlines (bodyOf h none lines))

/-- The masked lines from a title on. -/
theorem maskLines_title (hline : boundary line = true) (behind : List Text) :
    maskLines none (line :: behind) = line :: maskLines none behind := by
  have hvisible : isVisible none line = true := isVisible_iff.mpr ⟨rfl, hashed_boundary.openFence hline⟩
  rw [maskLines_cons, if_pos hvisible, fenceAfter_of_isVisible hvisible]

/-- What the search for the next title sees: the rest of a title's line, with nothing on it, and the lines
behind it. -/
theorem maskLines_rest (behind : List Text) : [] :: maskLines none behind = maskLines none ([] :: behind) := by
  rw [maskLines_cons]
  rfl

/-- The section of the masked lines is the masked section. -/
theorem bodyOf_maskLines (h : Text) (lines : List Text) :
    bodyOf h none (maskLines none lines) = maskLines none (bodyOf h none lines) := by
  have hvisible : ∀ l ∈ maskLines none lines, openFence l = none := fun l hl => openFence_of_mem_maskLines hl
  have hread := (onward_of_visible (p := titles h) hvisible).1
  rw [dropWhile_maskLines (hashed_titles h)] at hread
  cases honward : onward (titles h) none lines with
  | nil =>
    rw [honward, maskLines_nil] at hread
    rw [bodyOf_nil honward, bodyOf_nil hread, maskLines_nil]
  | cons line behind =>
    obtain ⟨-, -, htitle⟩ := onward_eq_cons honward
    rw [honward, maskLines_title (boundary_of_titles htitle)] at hread
    rw [bodyOf_cons honward, bodyOf_cons hread, (onward_of_visible fun l hl => openFence_of_mem_maskLines hl).2,
      takeWhile_maskLines hashed_boundary]

theorem firstLine_masked (hh : '\n' ∉ h) (text : Text) :
    Regex.firstLine (headingRe h false) (maskFencedBlocks text) =
      if onward (titles h) none (text.splitOn '\n') = [] then none
      else some (unlines (maskLines none (onward (titles h) none (text.splitOn '\n')))) :=
  find_masked (Regex.seesLine_matchToLineEnd (uses_headingRe_of_line hh)) (hashed_titles h)
    (List.splitOn_ne_nil '\n' text) (Text.areLines_splitOn text) none

theorem searchLineStart_masked (hb : AreLines behind) :
    Regex.searchLineStart nextHeadingRe (unlines (maskLines none ([] :: behind))) =
      if onward boundary none behind = [] then none
      else some (unlines (maskLines none (onward boundary none behind))) := by
  have hfind := find_masked seesLine_boundary hashed_boundary (List.cons_ne_nil [] behind)
    (AreLines.cons (by simp) hb) none
  rw [(onward_cons_nil hashed_boundary none behind).1] at hfind
  exact hfind

/-- `extract_section` on the lines of the text. -/
theorem extractSection_eq (hh : '\n' ∉ h) (text : Text) :
    extractSection text h false = sectionOf h (text.splitOn '\n') := by
  have hlines := Text.areLines_splitOn text
  have hfirst := firstLine_masked hh text
  have hsearch := Regex.map_searchLines (uses_headingRe_of_line hh) (maskFencedBlocks text)
  unfold extractSection sectionOf
  dsimp only
  cases honward : onward (titles h) none (text.splitOn '\n') with
  | nil =>
    rw [honward, if_pos rfl] at hfirst
    rw [hfirst, Option.map_none, Option.map_eq_none_iff] at hsearch
    rw [hsearch, bodyOf_nil honward]
    rfl
  | cons line behind =>
    obtain ⟨hsplit, -, htitle⟩ := onward_eq_cons honward
    have hbound := boundary_of_titles htitle
    have hline := (hsplit ▸ hlines).right
    obtain ⟨hnl, hbehind⟩ := Text.areLines_cons hline
    rw [honward, if_neg (List.cons_ne_nil _ _), maskLines_title hbound] at hfirst
    rw [hfirst, Option.map_some, Regex.dropWhile_unlines hnl, maskLines_rest] at hsearch
    obtain ⟨⟨g, rest⟩, hfound, hrest⟩ := Option.map_eq_some_iff.mp hsearch
    obtain rfl : rest = unlines (maskLines none ([] :: behind)) := hrest
    -- the text behind the title
    have hdrop : text.drop ((maskFencedBlocks text).length -
        (unlines (maskLines none ([] :: behind))).length) = unlines ([] :: behind) := by
      have htext : text = ended (before (titles h) none (text.splitOn '\n')) ++ line ++ unlines ([] :: behind) := by
        conv_lhs => rw [← Text.unlines_splitOn text, hsplit, Text.unlines_append _ (List.cons_ne_nil _ _),
          Text.unlines_head]
        rw [List.append_assoc]
      have hlength : (maskFencedBlocks text).length = text.length := by
        have hmask := length_unlines_maskLines none (text.splitOn '\n')
        rwa [Text.unlines_splitOn] at hmask
      rw [hlength, length_unlines_maskLines]
      rw [htext, List.length_append, Nat.add_sub_cancel, List.drop_left]
    rw [hfound]
    dsimp only
    rw [searchLineStart_masked hbehind, hdrop, bodyOf_cons honward]
    by_cases hnext : onward boundary none behind = []
    · rw [if_pos hnext]
      dsimp only
      rw [Text.strip_unlines_nil_cons, before_of_free hnext]
    · rw [if_neg hnext]
      dsimp only
      have hcons : [] :: behind = ([] :: before boundary none behind) ++ onward boundary none behind := by
        rw [List.cons_append, before_append_onward]
      rw [hcons, (cut_masked none none hnext ([] :: before boundary none behind)).1, Text.strip_ended, Text.strip_unlines_nil_cons]

/-- `extract_section` on the lines of a text that was masked before. -/
theorem extractSection_masked (hh : '\n' ∉ h) (text : Text) :
    extractSection (maskFencedBlocks text) h false =
      Text.strip (unlines (maskLines none (bodyOf h none (text.splitOn '\n')))) := by
  rw [extractSection_eq hh, splitOn_maskFencedBlocks]
  unfold sectionOf
  rw [bodyOf_maskLines]

end Utils.Markdown
