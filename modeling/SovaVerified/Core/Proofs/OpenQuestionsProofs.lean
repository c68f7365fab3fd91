import SovaVerified.Core.SpecText
import SovaVerified.Utils.Proofs.SectionFrameProofs

/-!
# The questions of a section

The questions are read line by line, and white space around the section does not matter. Whether the section
says that there are none is said by its first line that is not blank.
-/

namespace Core.SpecText

open Utils
open Utils.Markdown (Heading bodyOf sectionOf)
open Text (unlines AreLines stripFront stripBack stripLines)

variable {l t u w line question answer : Text} {ls lines : List Text}

/-- The heading of the section. -/
def openQuestions : Heading where
  text := "Open Questions".toList
  oneLine := by decide
  stripped := by decide
  ne := by decide

/-! ## Lines -/

theorem readLine_strip (line : Text) : readLine (Text.strip line) = readLine line := by
  unfold readLine
  rw [Text.strip_strip]

theorem readLine_lstrip (line : Text) : readLine (Text.lstrip line) = readLine line := by
  have hidem : Text.lstrip (Text.lstrip line) = Text.lstrip line := Text.lstrip_of_head (Text.head_lstrip line)
  rw [← readLine_strip, Text.strip_eq, hidem, ← Text.strip_eq, readLine_strip]

theorem readLine_rstrip (line : Text) : readLine (Text.rstrip line) = readLine line := by
  rw [← readLine_strip, Text.strip_rstrip, readLine_strip]

theorem readLine_nil : readLine [] = none := rfl

/-- Nothing is read of a blank line. -/
theorem readLine_blank (h : Text.lstrip line = []) : readLine line = none := by
  rw [← readLine_lstrip, h, readLine_nil]

theorem filterMap_stripFront (lines : List Text) :
    (stripFront lines).filterMap readLine = lines.filterMap readLine := by
  induction lines with
  | nil => rfl
  | cons line lines ih =>
    rw [Text.stripFront]
    split_ifs with hblank
    · rw [ih, List.filterMap_cons_none (readLine_blank hblank)]
    · rw [List.filterMap_cons, List.filterMap_cons, readLine_lstrip]

theorem filterMap_stripBack (lines : List Text) :
    (stripBack lines).filterMap readLine = lines.filterMap readLine := by
  induction lines with
  | nil => rfl
  | cons line lines ih =>
    rw [Text.stripBack]
    cases hback : stripBack lines with
    | nil =>
      rw [hback] at ih
      dsimp only
      split_ifs with hblank
      · rw [List.filterMap_cons_none (readLine_blank (Markdown.lstrip_eq_nil_of_rstrip hblank))]
        exact ih
      · rw [List.filterMap_cons, List.filterMap_cons, readLine_rstrip, ← ih]
    | cons l ls =>
      rw [hback] at ih
      dsimp only
      rw [List.filterMap_cons, ih, ← List.filterMap_cons]

/-! ## A section that says that there are none -/

/-- A character that is none of those with another lower case. -/
theorem lowerChar_of_other {c : Char} (hupper : ¬ (65 ≤ c.toNat ∧ c.toNat ≤ 90))
    (hother : c.toNat ≠ 0x212a ∧ c.toNat ≠ 0x130) : Text.lowerChar c = [c] := by
  have hletter : ¬ ('A' ≤ c ∧ c ≤ 'Z') := hupper
  unfold Text.lowerChar
  rw [if_neg hletter, if_neg hother.1, if_neg hother.2]

theorem lowerChar_of_isSpace {c : Char} (hc : Text.isSpace c = true) : Text.lowerChar c = [c] := by
  simp only [Text.isSpace, Bool.or_eq_true, Bool.and_eq_true, decide_eq_true_eq, beq_iff_eq] at hc
  refine lowerChar_of_other ?_ ?_
  · omega
  · omega

/-- A word that a text begins with ends in front of white space. -/
theorem isPrefixOf_lower_append (hw : ∀ c ∈ w, Text.isSpace c = false)
    (hu : ∀ c ∈ u.head?, Text.isSpace c = true) (t : Text) :
    w.isPrefixOf (Text.lower (t ++ u)) = w.isPrefixOf (Text.lower t) := by
  have hlower : Text.lower (t ++ u) = Text.lower t ++ Text.lower u := List.flatMap_append
  rw [Bool.eq_iff_iff, List.isPrefixOf_iff_prefix, List.isPrefixOf_iff_prefix, hlower]
  constructor
  · intro hpre
    cases u with
    | nil =>
      have hnil : Text.lower [] = [] := rfl
      rwa [hnil, List.append_nil] at hpre
    | cons c u =>
      have hc : Text.isSpace c = true := hu c rfl
      have hrest : Text.lower (c :: u) = c :: Text.lower u := by
        unfold Text.lower
        rw [List.flatMap_cons, lowerChar_of_isSpace hc]
        rfl
      rw [hrest] at hpre
      refine Text.prefix_of_prefix_append_cons (fun hmem => ?_) hpre
      rw [hw c hmem] at hc
      cases hc
  · exact fun hpre => hpre.trans (List.prefix_append _ _)

theorem saysNone_append (ht : t ≠ []) (hstrip : Text.strip (t ++ u) = t ++ u) (hline : Text.strip t = t)
    (hu : ∀ c ∈ u.head?, Text.isSpace c = true) : saysNone (t ++ u) = saysNone t := by
  have hne : (Text.lower (t ++ u)).isEmpty = (Text.lower t).isEmpty := by
    have hleft : Text.lower (t ++ u) ≠ [] := Text.lower_ne_nil (List.append_ne_nil_of_left_ne_nil ht u)
    rw [List.isEmpty_eq_false_iff.mpr hleft, List.isEmpty_eq_false_iff.mpr (Text.lower_ne_nil ht)]
  unfold saysNone
  dsimp only
  rw [hstrip, hline, hne, isPrefixOf_lower_append (Text.forall_mem_of_all rfl) hu,
    isPrefixOf_lower_append (Text.forall_mem_of_all rfl) hu]

theorem saysNone_strip (t : Text) : saysNone (Text.strip t) = saysNone t := by
  unfold saysNone
  rw [Text.strip_strip]

/-- The first line that is not blank decides. -/
theorem saysNone_cons (hl : Text.lstrip l ≠ []) (ls : List Text) :
    saysNone (unlines (l :: ls)) = saysNone l := by
  by_cases hls : ls = []
  · rw [hls, Text.unlines_singleton]
  · have hne : Text.strip l ≠ [] := by
      intro hnil
      rw [Text.strip_eq, Text.rstrip_eq_nil_iff, ← Text.lstrip_eq_nil_iff] at hnil
      rw [Text.lstrip_of_head (Text.head_lstrip l)] at hnil
      exact hl hnil
    obtain ⟨s, hs, hspace⟩ := Text.exists_rstrip (Text.lstrip l)
    rw [← Text.strip_eq] at hs
    rw [← saysNone_strip (unlines (l :: ls)), ← saysNone_strip l]
    have hfront : Text.lstrip (unlines (l :: ls)) = Text.strip l ++ (s ++ '\n' :: unlines ls) := by
      rw [Text.unlines_cons l hls, Text.lstrip_append_of_ne hl]
      conv_lhs => rw [hs]
      rw [List.append_assoc]
    obtain ⟨u, hu, hhead⟩ : ∃ u, Text.strip (unlines (l :: ls)) = Text.strip l ++ u ∧
        ∀ c ∈ u.head?, Text.isSpace c = true := by
      rw [Text.strip_eq (unlines _), hfront, Text.rstrip_append]
      split_ifs
      · exact ⟨[], by rw [Text.rstrip_strip, List.append_nil], by simp⟩
      · refine ⟨_, rfl, fun c hc => ?_⟩
        have hpre := Text.rstrip_isPrefix (s ++ '\n' :: unlines ls)
        obtain ⟨rest, hrest⟩ := hpre
        have hfirst : (s ++ '\n' :: unlines ls).head? = some c := by
          rw [← hrest, List.head?_append, Option.mem_def.mp hc]
          rfl
        cases s with
        | nil =>
          obtain rfl : '\n' = c := Option.some.inj hfirst
          exact Text.isSpace_newline
        | cons d s =>
          obtain rfl : d = c := Option.some.inj hfirst
          exact hspace d List.mem_cons_self
    rw [hu]
    refine saysNone_append hne ?_ (Text.strip_strip l) hhead
    rw [← hu]
    exact Text.strip_strip _

theorem saysNone_blank (hl : Text.lstrip l = []) (ls : List Text) :
    saysNone (unlines (l :: ls)) = saysNone (unlines ls) := by
  have hstrip : Text.strip (unlines (l :: ls)) = Text.strip (unlines ls) := by
    rw [Text.strip_unlines, Text.strip_unlines, Text.stripFront, if_pos hl]
  rw [← saysNone_strip, hstrip, saysNone_strip]

/-! ## The questions -/

/-- The questions that are read, counted from `k` on. -/
def numbered (k : Nat) (found : List (Text × Text)) : List Question :=
  (found.zipIdx k).map fun f => { id := f.2, text := f.1.1, answer := f.1.2 }

theorem numbered_cons (k : Nat) (question answer : Text) (found : List (Text × Text)) :
    numbered k ((question, answer) :: found) = ⟨k, question, answer⟩ :: numbered (k + 1) found := rfl

/-- The questions of the lines of a section. -/
def questionsOf (lines : List Text) : List Question :=
  if saysNone (unlines lines) then [] else numbered 0 (lines.filterMap readLine)

/-- `_extract_open_questions` on the lines of the text. -/
theorem extractOpenQuestions_eq (text : Text) :
    extractOpenQuestions text = questionsOf (bodyOf openQuestions.text none (text.splitOn '\n')) := by
  have hcontent : Markdown.extractSection text "Open Questions".toList false =
      Text.strip (unlines (bodyOf openQuestions.text none (text.splitOn '\n'))) :=
    Markdown.extractSection_eq openQuestions.oneLine text
  unfold extractOpenQuestions questionsOf
  dsimp only
  rw [hcontent, saysNone_strip]
  generalize hbody : bodyOf openQuestions.text none (text.splitOn '\n') = lines
  have hlines : AreLines lines := by
    rw [← hbody]
    exact Markdown.areLines_bodyOf openQuestions.text (Text.areLines_splitOn text)
  have hread : ((Text.strip (unlines lines)).splitOn '\n').filterMap readLine = lines.filterMap readLine := by
    by_cases hnil : lines = []
    · rw [hnil]
      rfl
    · rw [Text.splitOn_strip, Text.splitOn_unlines hnil hlines]
      have hstrip : (stripLines lines).filterMap readLine = lines.filterMap readLine := by
        unfold Text.stripLines
        rw [filterMap_stripBack, filterMap_stripFront]
      split_ifs with hempty
      · rw [← hstrip, hempty]
        rfl
      · exact hstrip
  rw [hread]
  rfl

end Core.SpecText
