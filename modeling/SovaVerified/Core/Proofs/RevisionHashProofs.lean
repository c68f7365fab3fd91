import SovaVerified.Core.SpecStamp
import SovaVerified.Utils.Proofs.SectionFrameProofs
import SovaVerified.Utils.Proofs.RemoveSectionProofs

/-!
# What the revision of an issue depends on

The body is unwrapped first and then cut at the first appended section. Sections that are appended do not change
what is left, unless the unwrapping finds its section among them.
-/

namespace Core.SpecStamp

open Utils
open Utils.Markdown (Free Heading Hashed before onward boundary titles headLine removedTitles fencesAfter
  extractSection bodyOf sectionOf maskFencedBlocks)
open Text (unlines AreLines ended)

variable {title body : Text} {lines behind : List Text} {line : Text}

/-! ## The headings -/

def originalDescription : Heading where
  text := "Original Description".toList
  oneLine := by decide
  stripped := by decide
  ne := by decide

def triageAssessment : Heading where
  text := "Triage Assessment".toList
  oneLine := by decide
  stripped := by decide
  ne := by decide

def research : Heading where
  text := "Research".toList
  oneLine := by decide
  stripped := by decide
  ne := by decide

/-- The line begins an appended section. -/
def appendedTitles (line : Text) : Bool :=
  removedTitles triageAssessment.text line || removedTitles research.text line

theorem matches_appendedSectionRe_iff (u : Text) : Regex.Matches appendedSectionRe u ↔
    Regex.Matches (Markdown.removedHeadingRe triageAssessment.text) u ∨
      Regex.Matches (Markdown.removedHeadingRe research.text) u := by
  constructor
  · rintro ⟨marks, _, rfl, hmarks, heading, tail, rfl, hheading | hheading, htail⟩
    · exact .inl ⟨marks, _, rfl, hmarks, heading, tail, rfl, hheading, htail⟩
    · exact .inr ⟨marks, _, rfl, hmarks, heading, tail, rfl, hheading, htail⟩
  · rintro (⟨marks, _, rfl, hmarks, heading, tail, rfl, hheading, htail⟩ |
      ⟨marks, _, rfl, hmarks, heading, tail, rfl, hheading, htail⟩)
    · exact ⟨marks, _, rfl, hmarks, heading, tail, rfl, .inl hheading, htail⟩
    · exact ⟨marks, _, rfl, hmarks, heading, tail, rfl, .inr hheading, htail⟩

theorem matchToLineEnd_appendedSectionRe (s : Text) :
    (Regex.matchToLineEnd appendedSectionRe s).isSome = appendedTitles s := by
  unfold appendedTitles removedTitles
  rw [Bool.eq_iff_iff, Bool.or_eq_true, Regex.matchToLineEnd_isSome_iff, Regex.matchToLineEnd_isSome_iff,
    Regex.matchToLineEnd_isSome_iff]
  simp only [matches_appendedSectionRe_iff]
  constructor
  · rintro ⟨u, v, huv, hu | hu, hv⟩
    · exact .inl ⟨u, v, huv, hu, hv⟩
    · exact .inr ⟨u, v, huv, hu, hv⟩
  · rintro (⟨u, v, huv, hu, hv⟩ | ⟨u, v, huv, hu, hv⟩)
    · exact ⟨u, v, huv, .inl hu, hv⟩
    · exact ⟨u, v, huv, .inr hu, hv⟩

theorem seesLine_appendedTitles :
    Regex.SeesLine (fun s => (Regex.matchToLineEnd appendedSectionRe s).isSome) appendedTitles := by
  intro l hl
  obtain ⟨htriage, htriage'⟩ := Markdown.seesLine_removedTitles triageAssessment l hl
  obtain ⟨hresearch, hresearch'⟩ := Markdown.seesLine_removedTitles research l hl
  refine ⟨matchToLineEnd_appendedSectionRe l, fun t => ?_⟩
  show (Regex.matchToLineEnd appendedSectionRe (l ++ '\n' :: t)).isSome = _
  rw [matchToLineEnd_appendedSectionRe]
  exact congrArg₂ or (htriage' t) (hresearch' t)

theorem boundary_of_appendedTitles (h : appendedTitles line = true) : boundary line = true := by
  rcases Bool.or_eq_true_iff.mp h with h | h
  · exact Markdown.boundary_of_removedBoundary (Markdown.boundary_of_removedTitles h)
  · exact Markdown.boundary_of_removedBoundary (Markdown.boundary_of_removedTitles h)

theorem hashed_appendedTitles : Hashed appendedTitles := fun line hline =>
  Markdown.hashed_boundary line (boundary_of_appendedTitles hline)

/-! ## The cut, line by line -/

/-- The text in front of the first appended section. -/
def frontOfAppended (text : Text) : Text :=
  Text.strip (unlines (before appendedTitles none (text.splitOn '\n')))

theorem stripAppendedSections_eq (body : Text) :
    stripAppendedSections body = frontOfAppended (unwrapOriginalDescription body) := by
  unfold stripAppendedSections frontOfAppended
  dsimp only
  generalize unwrapOriginalDescription body = text
  have hfirst : (Regex.searchLineSpan appendedSectionRe (maskFencedBlocks text)).map Prod.fst =
      if onward appendedTitles none (text.splitOn '\n') = [] then none
      else some (unlines (Markdown.maskLines none (onward appendedTitles none (text.splitOn '\n')))) := by
    rw [Regex.map_fst_searchLineSpan]
    exact Markdown.find_masked seesLine_appendedTitles hashed_appendedTitles (List.splitOn_ne_nil '\n' text)
      (Text.areLines_splitOn text) none
  cases honward : onward appendedTitles none (text.splitOn '\n') with
  | nil =>
    rw [honward, if_pos rfl, Option.map_eq_none_iff] at hfirst
    rw [hfirst, Markdown.before_of_free honward, Text.unlines_splitOn]
  | cons line behind =>
    obtain ⟨hsplit, -, -⟩ := Markdown.onward_eq_cons honward
    rw [honward, if_neg (List.cons_ne_nil _ _)] at hfirst
    obtain ⟨⟨found, rest⟩, hfound, hmask⟩ := Option.map_eq_some_iff.mp hfirst
    obtain rfl : found = unlines (Markdown.maskLines none (line :: behind)) := hmask
    rw [hfound]
    dsimp only
    rw [Markdown.take_front hsplit, Text.strip_ended]

/-- The section that the body is unwrapped to. -/
def original (body : Text) : Text := extractSection body originalDescription.text false

theorem original_eq (body : Text) : original body = sectionOf originalDescription.text (body.splitOn '\n') :=
  Markdown.extractSection_eq originalDescription.oneLine body

/-- The section without the separator at its end. -/
def withoutSeparator (t : Text) : Text := Text.strip (Regex.subAll separator none 0 t)

theorem unwrap_eq (body : Text) : unwrapOriginalDescription body =
    if original body = [] then body else withoutSeparator (original body) := rfl

theorem unwrap_of_nil (h : original body = []) : unwrapOriginalDescription body = body := by
  rw [unwrap_eq, if_pos h]

theorem unwrap_congr {body' : Text} (h : original body = original body') (hne : original body ≠ []) :
    unwrapOriginalDescription body = unwrapOriginalDescription body' := by
  have hne' : original body' ≠ [] := h ▸ hne
  rw [unwrap_eq, unwrap_eq, if_neg hne, if_neg hne', h]

theorem computeIssueRevisionHash_congr {body' : Text} (title : Text)
    (h : stripAppendedSections body = stripAppendedSections body') :
    computeIssueRevisionHash title body = computeIssueRevisionHash title body' := by
  unfold computeIssueRevisionHash
  rw [h]

/-! ## Sections that are appended -/

/-- The headings of the sections that are appended. -/
inductive AppendedHeading where
  | triageAssessment
  | research

def AppendedHeading.heading : AppendedHeading → Heading
  | .triageAssessment => Core.SpecStamp.triageAssessment
  | .research => Core.SpecStamp.research

/-- A section that is appended: so many empty lines, the line of the heading, and what follows it. -/
structure AppendedSection where
  blankLines : Nat
  heading : AppendedHeading
  content : List Text

/-- The section as it is put behind a body. -/
def AppendedSection.text (s : AppendedSection) : Text :=
  '\n' :: (List.replicate s.blankLines '\n' ++
    (headLine s.heading.heading.text ++ s.content.flatMap ('\n' :: ·)))

def appendedText (sections : List AppendedSection) : Text := sections.flatMap AppendedSection.text

theorem boundary_headLine (heading : AppendedHeading) : boundary (headLine heading.heading.text) = true :=
  Markdown.boundary_headLine heading.heading

theorem appendedTitles_headLine (heading : AppendedHeading) :
    appendedTitles (headLine heading.heading.text) = true := by
  cases heading <;> decide +kernel

/-- The lines behind a line feed are the lines of the rest. -/
theorem splitOn_append_newline (t u : Text) :
    (t ++ '\n' :: u).splitOn '\n' = t.splitOn '\n' ++ u.splitOn '\n' := List.splitOn_append_cons_self t u

theorem splitOn_replicate_newline (k : Nat) (t : Text) :
    (List.replicate k '\n' ++ t).splitOn '\n' = List.replicate k [] ++ t.splitOn '\n' := by
  induction k with
  | zero => rfl
  | succ k ih =>
    rw [List.replicate_succ, List.cons_append]
    have hstep := splitOn_append_newline [] (List.replicate k '\n' ++ t)
    rw [List.nil_append, ih] at hstep
    rw [hstep]
    rfl

theorem splitOn_line (h : Heading) : (headLine h.text).splitOn '\n' = [headLine h.text] := by
  have hone : AreLines [headLine h.text] := by
    intro l hl
    rw [List.mem_singleton.mp hl]
    exact Markdown.newline_notMem_headLine h
  have hlines := Text.splitOn_unlines (List.cons_ne_nil _ _) hone
  rwa [Text.unlines_singleton] at hlines

theorem fencesAfter_replicate_nil (k : Nat) : fencesAfter none (List.replicate k []) = none := by
  induction k with
  | zero => rfl
  | succ k ih =>
    rw [List.replicate_succ, Markdown.fencesAfter_cons]
    exact ih

/-- A line, and a text that goes on on the next line. -/
theorem splitOn_headLine (h : Heading) {t : Text} (ht : ∀ c ∈ t.head?, c = '\n') :
    ∃ behind, (headLine h.text ++ t).splitOn '\n' = headLine h.text :: behind := by
  cases t with
  | nil =>
    rw [List.append_nil]
    exact ⟨[], splitOn_line h⟩
  | cons c t =>
    obtain rfl := ht c rfl
    refine ⟨t.splitOn '\n', ?_⟩
    rw [splitOn_append_newline, splitOn_line]
    rfl

/-- The lines of sections that are put behind a body: empty ones, the line of the first heading, and others. -/
theorem appendedText_lines (s : AppendedSection) (sections : List AppendedSection) : ∃ t behind,
    appendedText (s :: sections) = '\n' :: t ∧
      t.splitOn '\n' = List.replicate s.blankLines [] ++ headLine s.heading.heading.text :: behind := by
  have hrest : ∀ c ∈ (s.content.flatMap ('\n' :: ·) ++ appendedText sections).head?, c = '\n' := by
    intro c hc
    cases hcontent : s.content with
    | cons l ls =>
      rw [hcontent] at hc
      exact (Option.some.inj hc).symm
    | nil =>
      rw [hcontent] at hc
      cases sections with
      | nil => cases hc
      | cons s' sections => exact (Option.some.inj hc).symm
  obtain ⟨behind, hbehind⟩ := splitOn_headLine s.heading.heading hrest
  refine ⟨List.replicate s.blankLines '\n' ++ (headLine s.heading.heading.text ++
      (s.content.flatMap ('\n' :: ·) ++ appendedText sections)), behind, ?_, ?_⟩
  · unfold appendedText AppendedSection.text
    rw [List.flatMap_cons]
    simp only [List.cons_append, List.append_assoc]
  · rw [splitOn_replicate_newline, hbehind]

/-- The body has a section of the original description, outside of fences. -/
def HasOriginal (body : Text) : Prop := ¬ Free (titles originalDescription.text) none (body.splitOn '\n')

section

variable {s : AppendedSection} {sections : List AppendedSection}

/-- The section of the body is the same, where it has one. -/
theorem original_append_of_has (hclosed : fencesAfter none (body.splitOn '\n') = none) (h : HasOriginal body) :
    original (body ++ appendedText (s :: sections)) = original body := by
  obtain ⟨t, behind, htext, hlines⟩ := appendedText_lines s sections
  have hclosed' : fencesAfter none (body.splitOn '\n' ++ List.replicate s.blankLines []) = none := by
    rw [Markdown.fencesAfter_append, hclosed, fencesAfter_replicate_nil]
  have hhas : ¬ Free (titles originalDescription.text) none
      (body.splitOn '\n' ++ List.replicate s.blankLines []) := fun hfree =>
    h (Markdown.free_append_iff.mp hfree).1
  rw [original_eq, original_eq, htext, splitOn_append_newline, hlines, ← List.append_assoc]
  unfold sectionOf
  rw [Markdown.bodyOf_append_boundary hhas hclosed' (boundary_headLine s.heading)]
  exact (Markdown.bodyOf_append_replicate _ _ _).strip_unlines

/-- Otherwise it is the one that the sections bring. -/
theorem original_append_of_not (hclosed : fencesAfter none (body.splitOn '\n') = none)
    (h : ¬ HasOriginal body) :
    original (body ++ appendedText (s :: sections)) = original (appendedText (s :: sections)) := by
  obtain ⟨t, behind, htext, hlines⟩ := appendedText_lines s sections
  have hfree : Free (titles originalDescription.text) none (body.splitOn '\n') := not_not.mp h
  have hnil : onward (titles originalDescription.text) none ([] :: t.splitOn '\n') =
      onward (titles originalDescription.text) none (t.splitOn '\n') :=
    (Markdown.onward_cons_nil (Markdown.hashed_titles _) none _).1
  have hwhole : onward (titles originalDescription.text) none (body.splitOn '\n' ++ t.splitOn '\n') =
      onward (titles originalDescription.text) none (t.splitOn '\n') := by
    rw [Markdown.onward_append_of_free hfree, hclosed]
  have hfirst := splitOn_append_newline [] t
  rw [original_eq, original_eq, htext, splitOn_append_newline]
  rw [List.nil_append] at hfirst
  rw [hfirst]
  unfold sectionOf
  rw [Markdown.bodyOf_congr (hwhole.trans hnil.symm)]
  rfl

/-- What is cut off begins in the body or with the sections. -/
theorem frontOfAppended_append (hclosed : fencesAfter none (body.splitOn '\n') = none) :
    frontOfAppended (body ++ appendedText (s :: sections)) = frontOfAppended body := by
  obtain ⟨t, behind, htext, hlines⟩ := appendedText_lines s sections
  unfold frontOfAppended
  rw [htext, splitOn_append_newline, hlines, ← List.append_assoc]
  by_cases hfree : Free appendedTitles none (body.splitOn '\n')
  · have hblank : Free appendedTitles none (body.splitOn '\n' ++ List.replicate s.blankLines []) := by
      refine Markdown.free_append_iff.mpr ⟨hfree, ?_⟩
      exact Markdown.free_of_forall fun l hl => by rw [List.eq_of_mem_replicate hl]; rfl
    have hclosed' : fencesAfter none (body.splitOn '\n' ++ List.replicate s.blankLines []) = none := by
      rw [Markdown.fencesAfter_append, hclosed, fencesAfter_replicate_nil]
    rw [Markdown.before_append_of_free hblank, hclosed', Markdown.before_hit (appendedTitles_headLine s.heading),
      List.append_nil, Markdown.before_of_free hfree, Text.strip_unlines_append_replicate]
  · rw [List.append_assoc, Markdown.before_append_of_hit hfree]

/-- The revision of an issue stays the same when sections are put behind its body, unless the body has no
section of the original description and the sections bring one. Then that one is taken for the body. -/
theorem revision_of_appended (title body : Text) (sections : List AppendedSection)
    (hclosed : fencesAfter none (body.splitOn '\n') = none) :
    (HasOriginal body ∨ original (appendedText sections) = [] →
      computeIssueRevisionHash title (body ++ appendedText sections) = computeIssueRevisionHash title body) ∧
    (¬ (HasOriginal body ∨ original (appendedText sections) = []) →
      computeIssueRevisionHash title (body ++ appendedText sections) =
        computeIssueRevisionHash title (appendedText sections)) := by
  cases sections with
  | nil =>
    have hnone : appendedText [] = [] := rfl
    rw [hnone, List.append_nil]
    exact ⟨fun _ => rfl, fun h => absurd (.inr rfl) h⟩
  | cons s sections =>
    constructor
    · intro h
      refine computeIssueRevisionHash_congr title ?_
      rw [stripAppendedSections_eq, stripAppendedSections_eq]
      have horiginal : original (body ++ appendedText (s :: sections)) = original body := by
        by_cases hhas : HasOriginal body
        · exact original_append_of_has hclosed hhas
        · rw [original_append_of_not hclosed hhas, h.resolve_left hhas, original_eq]
          unfold sectionOf
          rw [Markdown.bodyOf_nil (not_not.mp hhas)]
          rfl
      by_cases hnil : original body = []
      · rw [unwrap_of_nil hnil, unwrap_of_nil (horiginal.trans hnil)]
        exact frontOfAppended_append hclosed
      · rw [unwrap_congr horiginal.symm hnil]
    · intro h
      obtain ⟨hhas, hne⟩ := not_or.mp h
      refine computeIssueRevisionHash_congr title ?_
      rw [stripAppendedSections_eq, stripAppendedSections_eq]
      have horiginal : original (body ++ appendedText (s :: sections)) = original (appendedText (s :: sections)) :=
        original_append_of_not hclosed hhas
      rw [unwrap_congr horiginal.symm hne]

end

/-- A triage and a research behind a body. -/
theorem revision_of_appended_triage :
    let title := "Add cache".toList
    let body := "Cache the listing.\n\n```\n## Research\n```".toList
    let sections : List AppendedSection :=
      [⟨1, .triageAssessment, ["Ready.".toList]⟩, ⟨1, .research, ["## Prior art".toList, "~~~".toList]⟩]
    computeIssueRevisionHash title (body ++ appendedText sections) = computeIssueRevisionHash title body := by
  intro title body sections
  have hclosed : fencesAfter none (body.splitOn '\n') = none := by decide +kernel
  have hnone : original (appendedText sections) = [] := by decide +kernel
  exact (revision_of_appended title body sections hclosed).1 (.inr hnone)

/-- A research that has a section of that name. -/
theorem appended_original_is_hashed :
    let title := "Add cache".toList
    let body := "Cache the listing.".toList
    let sections : List AppendedSection :=
      [⟨1, .research, ["## Original Description".toList, "A listing is slow.".toList]⟩]
    fencesAfter none (body.splitOn '\n') = none ∧
      computeIssueRevisionHash title (body ++ appendedText sections) ≠ computeIssueRevisionHash title body := by
  intro title body sections
  refine ⟨by decide +kernel, ?_⟩
  decide +kernel

end Core.SpecStamp
