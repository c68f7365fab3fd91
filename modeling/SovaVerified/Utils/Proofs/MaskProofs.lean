import SovaVerified.Text.LineLists
import SovaVerified.Utils.Markdown

/-!
# Lines inside and outside of fences

A line is visible when no block is open before it and it opens none. The visible lines are those that the mask
leaves as they are. White space around a line changes neither whether it opens a block nor whether it closes
one.
-/

namespace Utils.Markdown

open Text (unlines AreLines)

variable {st : Option Fence} {fence : Fence} {line l text : Text} {lines a b : List Text}

/-! ## The block that is open -/

/-- The fence of the block that is open behind a line. -/
def fenceAfter : Option Fence → Text → Option Fence
  | none, line => openFence line
  | some fence, line => if closesFence fence line then none else some fence

/-- The fence of the block that is open behind some lines. -/
def fencesAfter (st : Option Fence) (lines : List Text) : Option Fence := lines.foldl fenceAfter st

def isVisible (st : Option Fence) (line : Text) : Bool := st.isNone && (openFence line).isNone

theorem fenceAfter_none (line : Text) : fenceAfter none line = openFence line := rfl

theorem fenceAfter_some (fence : Fence) (line : Text) :
    fenceAfter (some fence) line = if closesFence fence line then none else some fence := rfl

@[simp] theorem fencesAfter_nil (st : Option Fence) : fencesAfter st [] = st := rfl

theorem fencesAfter_cons (st : Option Fence) (line : Text) (lines : List Text) :
    fencesAfter st (line :: lines) = fencesAfter (fenceAfter st line) lines := rfl

theorem fencesAfter_append (st : Option Fence) (a b : List Text) :
    fencesAfter st (a ++ b) = fencesAfter (fencesAfter st a) b := List.foldl_append

theorem isVisible_iff : isVisible st line = true ↔ st = none ∧ openFence line = none := by
  unfold isVisible
  rw [Bool.and_eq_true, Option.isNone_iff_eq_none, Option.isNone_iff_eq_none]

theorem fenceAfter_of_isVisible (h : isVisible st line = true) : fenceAfter st line = none := by
  obtain ⟨rfl, hopen⟩ := isVisible_iff.mp h
  exact hopen

/-! ## The mask -/

theorem maskLines_cons (st : Option Fence) (line : Text) (lines : List Text) :
    maskLines st (line :: lines) =
      (if isVisible st line then line else blanked line) :: maskLines (fenceAfter st line) lines := by
  cases st with
  | none =>
    rw [maskLines, fenceAfter_none]
    unfold isVisible
    cases hopen : openFence line with
    | none => rfl
    | some fence => rfl
  | some fence => rfl

theorem maskLines_append (st : Option Fence) (a b : List Text) :
    maskLines st (a ++ b) = maskLines st a ++ maskLines (fencesAfter st a) b := by
  induction a generalizing st with
  | nil =>
    cases st <;> rfl
  | cons line a ih => rw [List.cons_append, maskLines_cons, maskLines_cons, ih, fencesAfter_cons,
      List.cons_append]

theorem length_maskLines (st : Option Fence) (lines : List Text) :
    (maskLines st lines).length = lines.length := by
  induction lines generalizing st with
  | nil => cases st <;> rfl
  | cons line lines ih => rw [maskLines_cons, List.length_cons, List.length_cons, ih]

theorem maskLines_nil (st : Option Fence) : maskLines st [] = [] := by cases st <;> rfl

theorem newline_notMem_blanked (line : Text) : '\n' ∉ blanked line := by
  intro h
  exact absurd (List.eq_of_mem_replicate h) (by decide)

theorem areLines_maskLines (h : AreLines lines) (st : Option Fence) : AreLines (maskLines st lines) := by
  induction lines generalizing st with
  | nil => rw [maskLines_nil]; exact h
  | cons line lines ih =>
    obtain ⟨hline, hlines⟩ := Text.areLines_cons h
    rw [maskLines_cons]
    refine AreLines.cons ?_ (ih hlines _)
    split_ifs
    · exact hline
    · exact newline_notMem_blanked line

theorem maskLines_ne_nil (hne : lines ≠ []) (st : Option Fence) : maskLines st lines ≠ [] := by
  rw [Ne, ← List.length_eq_zero_iff, length_maskLines, List.length_eq_zero_iff]
  exact hne

/-- The lines of the masked text are the masked lines. -/
theorem splitOn_maskFencedBlocks (text : Text) :
    (maskFencedBlocks text).splitOn '\n' = maskLines none (text.splitOn '\n') :=
  Text.splitOn_unlines (maskLines_ne_nil (List.splitOn_ne_nil '\n' text) none)
    (areLines_maskLines (Text.areLines_splitOn text) none)

theorem length_masked (st : Option Fence) (line : Text) :
    (if isVisible st line then line else blanked line).length = line.length := by
  split_ifs
  · rfl
  · exact List.length_replicate ..

/-- The mask keeps the offsets. -/
theorem length_unlines_maskLines (st : Option Fence) (lines : List Text) :
    (unlines (maskLines st lines)).length = (unlines lines).length := by
  induction lines generalizing st with
  | nil => rw [maskLines_nil]
  | cons line lines ih =>
    rw [maskLines_cons]
    by_cases hlines : lines = []
    · subst hlines
      rw [maskLines_nil, Text.unlines_singleton, Text.unlines_singleton, length_masked]
    · rw [Text.unlines_cons _ (maskLines_ne_nil hlines _), Text.unlines_cons _ hlines, List.length_append,
        List.length_append, List.length_cons, List.length_cons, ih, length_masked]

/-! ## White space around a line -/

theorem openFence_of_head {c : Char} (hc : (c == '`' || c == '~') = false) (h : (Text.lstrip line).head? = some c) :
    openFence line = none := by
  unfold openFence
  cases hline : Text.lstrip line with
  | nil => rfl
  | cons d rest =>
    rw [hline] at h
    obtain rfl : d = c := Option.some.inj h
    dsimp only
    rw [hc, Bool.false_and]
    rfl

theorem openFence_lstrip (line : Text) : openFence (Text.lstrip line) = openFence line := by
  have hidem : Text.lstrip (Text.lstrip line) = Text.lstrip line :=
    Text.lstrip_of_head (Text.head_lstrip line)
  unfold openFence
  rw [hidem]

theorem openFence_rstrip (line : Text) : openFence (Text.rstrip line) = openFence line := by
  obtain ⟨s, hs, hspace⟩ := Text.exists_rstrip line
  unfold openFence
  by_cases hline : Text.lstrip (Text.rstrip line) = []
  · have hblank : Text.lstrip line = [] := by
      rw [hs, Text.lstrip_append_of_eq_nil hline]
      exact Text.lstrip_eq_nil_iff.mpr hspace
    rw [hline, hblank]
  · have happend : Text.lstrip line = Text.lstrip (Text.rstrip line) ++ s := by
      conv_lhs => rw [hs]
      exact Text.lstrip_append_of_ne hline s
    obtain ⟨c, rest, hcons⟩ := List.exists_cons_of_ne_nil hline
    rw [happend, hcons, List.cons_append]
    dsimp only
    have hc : Text.isSpace c = false := by
      refine Text.head_lstrip (Text.rstrip line) c ?_
      rw [hcons]
      rfl
    have hrun : ∀ d ∈ s, (d == c) = false := by
      intro d hd
      rw [beq_eq_false_iff_ne]
      rintro rfl
      have hd' := hspace d hd
      rw [hc] at hd'
      cases hd'
    rw [← List.cons_append, Text.takeWhile_append_of_neg hrun]

theorem closesFence_lstrip (fence : Fence) (line : Text) :
    closesFence fence (Text.lstrip line) = closesFence fence line := by
  unfold closesFence
  have hidem : Text.lstrip (Text.lstrip line) = Text.lstrip line :=
    Text.lstrip_of_head (Text.head_lstrip line)
  rw [Text.strip_eq, hidem, ← Text.strip_eq]

theorem closesFence_rstrip (fence : Fence) (line : Text) :
    closesFence fence (Text.rstrip line) = closesFence fence line := by
  unfold closesFence
  rw [Text.strip_rstrip]

theorem fenceAfter_lstrip (st : Option Fence) (line : Text) :
    fenceAfter st (Text.lstrip line) = fenceAfter st line := by
  cases st with
  | none => exact openFence_lstrip line
  | some fence => rw [fenceAfter_some, fenceAfter_some, closesFence_lstrip]

theorem fenceAfter_rstrip (st : Option Fence) (line : Text) :
    fenceAfter st (Text.rstrip line) = fenceAfter st line := by
  cases st with
  | none => exact openFence_rstrip line
  | some fence => rw [fenceAfter_some, fenceAfter_some, closesFence_rstrip]

/-- A blank line neither opens nor closes a block. -/
theorem fenceAfter_of_blank (h : Text.lstrip line = []) (st : Option Fence) : fenceAfter st line = st := by
  rw [← fenceAfter_lstrip, h]
  cases st with
  | none => rfl
  | some fence => rfl

theorem lstrip_eq_nil_of_rstrip (h : Text.rstrip line = []) : Text.lstrip line = [] :=
  Text.lstrip_eq_nil_iff.mpr (Text.rstrip_eq_nil_iff.mp h)

theorem fencesAfter_stripFront (st : Option Fence) (lines : List Text) :
    fencesAfter st (Text.stripFront lines) = fencesAfter st lines := by
  induction lines generalizing st with
  | nil => rfl
  | cons line lines ih =>
    rw [Text.stripFront, fencesAfter_cons]
    split_ifs with hblank
    · rw [ih, fenceAfter_of_blank hblank]
    · rw [fencesAfter_cons, fenceAfter_lstrip]

theorem fencesAfter_stripBack (st : Option Fence) (lines : List Text) :
    fencesAfter st (Text.stripBack lines) = fencesAfter st lines := by
  induction lines generalizing st with
  | nil => rfl
  | cons line lines ih =>
    have hrest := ih (fenceAfter st line)
    rw [Text.stripBack, fencesAfter_cons]
    cases hback : Text.stripBack lines with
    | nil =>
      rw [hback] at hrest
      dsimp only
      split_ifs with hblank
      · rw [← hrest, fenceAfter_of_blank (lstrip_eq_nil_of_rstrip hblank)]
      · rw [fencesAfter_cons, fenceAfter_rstrip, ← hrest]
    | cons l ls =>
      rw [hback] at hrest
      dsimp only
      rw [fencesAfter_cons, hrest]

/-! ## Lines that open no block -/

theorem openFence_blanked (line : Text) : openFence (blanked line) = none := by
  have hblank : Text.lstrip (blanked line) = [] := by
    refine Text.lstrip_eq_nil_iff.mpr fun c hc => ?_
    rw [List.eq_of_mem_replicate hc]
    decide
  rw [← openFence_lstrip, hblank]
  rfl

/-- No masked line opens a block. -/
theorem openFence_of_mem_maskLines (h : l ∈ maskLines st lines) : openFence l = none := by
  induction lines generalizing st with
  | nil =>
    rw [maskLines_nil] at h
    cases h
  | cons line lines ih =>
    rw [maskLines_cons] at h
    rcases List.mem_cons.mp h with rfl | h
    · split_ifs with hvisible
      · exact (isVisible_iff.mp hvisible).2
      · exact openFence_blanked line
    · exact ih h

theorem maskLines_of_visible (h : ∀ l ∈ lines, openFence l = none) : maskLines none lines = lines := by
  induction lines with
  | nil => rfl
  | cons line lines ih =>
    obtain ⟨hline, hlines⟩ := List.forall_mem_cons.mp h
    rw [maskLines_cons, if_pos (isVisible_iff.mpr ⟨rfl, hline⟩), fenceAfter_none, hline, ih hlines]

theorem fencesAfter_of_visible (h : ∀ l ∈ lines, openFence l = none) : fencesAfter none lines = none := by
  induction lines with
  | nil => rfl
  | cons line lines ih =>
    obtain ⟨hline, hlines⟩ := List.forall_mem_cons.mp h
    rw [fencesAfter_cons, fenceAfter_none, hline, ih hlines]

theorem maskLines_replicate (st : Option Fence) (k : Nat) :
    maskLines st (List.replicate k []) = List.replicate k [] := by
  induction k with
  | zero => exact maskLines_nil st
  | succ k ih =>
    rw [List.replicate_succ, maskLines_cons, fenceAfter_of_blank rfl, ih]
    split_ifs <;> rfl

theorem sameLines_maskLines (h : Text.SameLines a b) (st : Option Fence) :
    Text.SameLines (maskLines st a) (maskLines st b) := by
  obtain ⟨j, k, heq⟩ := h
  refine ⟨j, k, ?_⟩
  have hmask := congrArg (maskLines st) heq
  rwa [maskLines_append, maskLines_append, maskLines_replicate, maskLines_replicate] at hmask

/-! ## Fenced blocks -/

/-- The lines that stand in fenced blocks. A block goes from the line that opens it to the first one that closes
it, or to the end of the text. -/
inductive InBlock : List Text → Nat → Prop where
  | opening {line : Text} {fence : Fence} {behind : List Text} (h : openFence line = some fence) :
      InBlock (line :: behind) 0
  | inside {line l : Text} {fence : Fence} {body behind : List Text} (h : openFence line = some fence)
      (hbody : ∀ x ∈ body, closesFence fence x = false) : InBlock (line :: (body ++ l :: behind)) (body.length + 1)
  | plain {line : Text} {behind : List Text} {k : Nat} (h : openFence line = none) (hk : InBlock behind k) :
      InBlock (line :: behind) (k + 1)
  | behind {line l : Text} {fence : Fence} {body behind : List Text} {k : Nat} (h : openFence line = some fence)
      (hbody : ∀ x ∈ body, closesFence fence x = false) (hlast : closesFence fence l = true)
      (hk : InBlock behind k) : InBlock (line :: (body ++ l :: behind)) (body.length + 1 + (k + 1))

theorem fencesAfter_body (h : ∀ x ∈ lines, closesFence fence x = false) :
    fencesAfter (some fence) lines = some fence := by
  induction lines with
  | nil => rfl
  | cons line lines ih =>
    obtain ⟨hline, hlines⟩ := List.forall_mem_cons.mp h
    rw [fencesAfter_cons, fenceAfter_some, hline, if_neg Bool.false_ne_true, ih hlines]

theorem fencesAfter_block {body behind : List Text} (h : openFence line = some fence)
    (hbody : ∀ x ∈ body, closesFence fence x = false) (hlast : closesFence fence l = true) (k : Nat) :
    fencesAfter none ((line :: (body ++ l :: behind)).take (body.length + 1 + (k + 1))) =
      fencesAfter none (behind.take k) := by
  have htake : (line :: (body ++ l :: behind)).take (body.length + 1 + (k + 1)) =
      line :: (body ++ l :: behind.take k) := by
    rw [Nat.add_right_comm, List.take_succ_cons, List.take_length_add_append, List.take_succ_cons]
  rw [htake, fencesAfter_cons, fenceAfter_none, h, fencesAfter_append, fencesAfter_body hbody, fencesAfter_cons,
    fenceAfter_some, if_pos hlast]

/-- A line behind an opened block stands in it, or behind the line that closes it. -/
theorem inside_or_behind (fence : Fence) {k : Nat} (hk : k < lines.length) :
    (∃ body line behind, lines = body ++ line :: behind ∧ k = body.length ∧
        ∀ x ∈ body, closesFence fence x = false) ∨
      ∃ body last behind k', lines = body ++ last :: behind ∧ k = body.length + (k' + 1) ∧
        (∀ x ∈ body, closesFence fence x = false) ∧ closesFence fence last = true := by
  induction lines generalizing k with
  | nil => cases hk
  | cons line lines ih =>
    cases k with
    | zero => exact .inl ⟨[], line, lines, rfl, rfl, fun x hx => by cases hx⟩
    | succ k =>
      cases hline : closesFence fence line with
      | true => exact .inr ⟨[], line, lines, k, rfl, by simp, fun x hx => (by cases hx), hline⟩
      | false =>
        rcases ih (Nat.lt_of_succ_lt_succ hk) with
          ⟨body, l, behind, rfl, rfl, hbody⟩ | ⟨body, last, behind, k', rfl, rfl, hbody, hlast⟩
        · exact .inl ⟨line :: body, l, behind, rfl, rfl, List.forall_mem_cons.mpr ⟨hline, hbody⟩⟩
        · refine .inr ⟨line :: body, last, behind, k', rfl, ?_, List.forall_mem_cons.mpr ⟨hline, hbody⟩, hlast⟩
          rw [List.length_cons]
          omega

theorem isVisible_of_open (h : openFence line = some fence) (st : Option Fence) : isVisible st line = false := by
  unfold isVisible
  rw [h]
  exact Bool.and_false _

theorem not_isVisible_of_inBlock {k : Nat} (h : InBlock lines k) (hline : lines[k]? = some line) :
    isVisible (fencesAfter none (lines.take k)) line = false := by
  induction h with
  | opening h =>
    obtain rfl := Option.some.inj hline
    exact isVisible_of_open h _
  | @inside first l fence body behind h hbody =>
    rw [List.take_succ_cons, List.take_left, fencesAfter_cons, fenceAfter_none, h, fencesAfter_body hbody]
    rfl
  | plain h _ ih =>
    rw [List.take_succ_cons, fencesAfter_cons, fenceAfter_none, h]
    exact ih hline
  | @behind first l fence body behind k h hbody hlast hk ih =>
    rw [fencesAfter_block h hbody hlast]
    refine ih ?_
    rwa [Nat.add_right_comm, List.getElem?_cons_succ, List.getElem?_append_right (Nat.le_add_right _ _),
      Nat.add_sub_cancel_left] at hline

theorem inBlock_of_not_isVisible {k : Nat} (hline : lines[k]? = some line)
    (hnot : isVisible (fencesAfter none (lines.take k)) line = false) : InBlock lines k := by
  induction hlength : lines.length using Nat.strong_induction_on generalizing lines k with
  | _ n ih =>
    cases lines with
    | nil => cases hline
    | cons first lines =>
      rw [List.length_cons] at hlength
      cases k with
      | zero =>
        obtain rfl : first = line := Option.some.inj hline
        cases hopen : openFence first with
        | none =>
          rw [List.take_zero, fencesAfter_nil, isVisible_iff.mpr ⟨rfl, hopen⟩] at hnot
          cases hnot
        | some fence => exact .opening hopen
      | succ k =>
        have hrest : lines[k]? = some line := hline
        have hk : k < lines.length := (List.getElem?_eq_some_iff.mp hrest).1
        cases hopen : openFence first with
        | none =>
          rw [List.take_succ_cons, fencesAfter_cons, fenceAfter_none, hopen] at hnot
          exact .plain hopen (ih lines.length (by omega) hrest hnot rfl)
        | some fence =>
          rcases inside_or_behind fence hk with
            ⟨body, l, behind, rfl, rfl, hbody⟩ | ⟨body, last, behind, k', rfl, rfl, hbody, hlast⟩
          · exact .inside hopen hbody
          · rw [List.length_append, List.length_cons] at hlength
            rw [List.getElem?_append_right (Nat.le_add_right _ _), Nat.add_sub_cancel_left] at hrest
            have hshape : body.length + (k' + 1) + 1 = body.length + 1 + (k' + 1) := by omega
            rw [hshape] at hnot ⊢
            rw [fencesAfter_block hopen hbody hlast] at hnot
            exact .behind hopen hbody hlast (ih behind.length (by omega) hrest hnot rfl)

/-- A line is visible just when it stands in no fenced block. -/
theorem isVisible_iff_not_inBlock {k : Nat} (hline : lines[k]? = some line) :
    isVisible (fencesAfter none (lines.take k)) line = true ↔ ¬ InBlock lines k := by
  constructor
  · intro hvisible h
    rw [not_isVisible_of_inBlock h hline] at hvisible
    cases hvisible
  · intro h
    rw [← Bool.not_eq_false]
    exact fun hnot => h (inBlock_of_not_isVisible hline hnot)

/-! ## Offsets -/

/-- The number of the line in which an offset stands. -/
def lineOf (text : Text) (i : Nat) : Nat := (text.take i).count '\n'

theorem getElem?_masked {i : Nat} {c : Char} (st : Option Fence) (h : (line)[i]? = some c) :
    (if isVisible st line then line else blanked line)[i]? = some (if isVisible st line then c else ' ') := by
  split_ifs
  · exact h
  · exact List.getElem?_replicate_of_lt (List.getElem?_eq_some_iff.mp h).1

theorem lineOf_first (hline : '\n' ∉ line) {i : Nat} (hi : i < line.length) (text : Text) :
    lineOf (line ++ text) i = 0 := by
  unfold lineOf
  rw [List.take_append_of_le_length hi.le, List.count_eq_zero]
  exact fun hmem => hline (List.mem_of_mem_take hmem)

theorem lineOf_next (hline : '\n' ∉ line) (text : Text) (j : Nat) :
    lineOf (line ++ '\n' :: text) (line.length + (j + 1)) = lineOf text j + 1 := by
  unfold lineOf
  rw [List.take_length_add_append, List.take_succ_cons, List.count_append, List.count_eq_zero.mpr hline,
    List.count_cons_self, Nat.zero_add]

/-- What the mask makes of the character at an offset. -/
theorem getElem?_unlines_maskLines (st : Option Fence) (hlines : AreLines lines) {i : Nat} {c : Char}
    (h : (unlines lines)[i]? = some c) :
    (c = '\n' → (unlines (maskLines st lines))[i]? = some '\n') ∧
      (c ≠ '\n' → ∃ line, lines[lineOf (unlines lines) i]? = some line ∧ (unlines (maskLines st lines))[i]? =
        some (if isVisible (fencesAfter st (lines.take (lineOf (unlines lines) i))) line then c else ' ')) := by
  induction lines generalizing st i with
  | nil => cases h
  | cons line lines ih =>
    obtain ⟨hline, hrest⟩ := Text.areLines_cons hlines
    rw [maskLines_cons]
    by_cases hi : i < line.length
    · rw [Text.unlines_head, List.getElem?_append_left hi] at h
      have hc : c ≠ '\n' := by
        rintro rfl
        exact hline (List.mem_of_getElem? h)
      refine ⟨fun heq => absurd heq hc, fun _ => ⟨line, ?_⟩⟩
      rw [Text.unlines_head line, lineOf_first hline hi, Text.unlines_head _ (maskLines _ _),
        List.getElem?_append_left (by rwa [length_masked])]
      exact ⟨rfl, getElem?_masked st h⟩
    · have hne : lines ≠ [] := by
        rintro rfl
        rw [Text.unlines_singleton] at h
        exact hi (List.getElem?_eq_some_iff.mp h).1
      obtain ⟨j, rfl⟩ := Nat.exists_eq_add_of_le (Nat.le_of_not_lt hi)
      rw [Text.unlines_cons _ hne, List.getElem?_append_right (Nat.le_add_right _ _),
        Nat.add_sub_cancel_left] at h
      rw [Text.unlines_cons _ (maskLines_ne_nil hne _), List.getElem?_append_right (by rw [length_masked]; omega),
        length_masked, Nat.add_sub_cancel_left]
      cases j with
      | zero =>
        obtain rfl : '\n' = c := Option.some.inj h
        exact ⟨fun _ => rfl, fun hc => absurd rfl hc⟩
      | succ j =>
        have hshift : lineOf (unlines (line :: lines)) (line.length + (j + 1)) = lineOf (unlines lines) j + 1 := by
          rw [Text.unlines_cons _ hne, lineOf_next hline]
        rw [hshift, List.getElem?_cons_succ, List.getElem?_cons_succ, List.take_succ_cons, fencesAfter_cons]
        exact ih _ hrest h

theorem mask_newline {text : Text} {i : Nat} (h : text[i]? = some '\n') :
    (maskFencedBlocks text)[i]? = some '\n' := by
  rw [← Text.unlines_splitOn text] at h
  exact (getElem?_unlines_maskLines none (Text.areLines_splitOn text) h).1 rfl

theorem mask_char {text : Text} {i : Nat} {c : Char} (h : text[i]? = some c) (hc : c ≠ '\n') :
    (InBlock (text.splitOn '\n') (lineOf text i) ∧ (maskFencedBlocks text)[i]? = some ' ') ∨
      (¬ InBlock (text.splitOn '\n') (lineOf text i) ∧ (maskFencedBlocks text)[i]? = some c) := by
  have hwhole := Text.unlines_splitOn text
  rw [← hwhole] at h
  obtain ⟨line, hline, hmask⟩ := (getElem?_unlines_maskLines none (Text.areLines_splitOn text) h).2 hc
  rw [hwhole] at hline hmask
  have hvisible := isVisible_iff_not_inBlock hline
  by_cases hin : InBlock (text.splitOn '\n') (lineOf text i)
  · rw [if_neg (fun h => hvisible.mp h hin)] at hmask
    exact .inl ⟨hin, hmask⟩
  · rw [if_pos (hvisible.mpr hin)] at hmask
    exact .inr ⟨hin, hmask⟩

/-- The mask keeps the length of a text and the offsets of its line feeds. A character in a fenced block becomes a
space, and every other one stays. -/
theorem maskFencedBlocks_offsets (text : Text) :
    (maskFencedBlocks text).length = text.length ∧
      (∀ i : Nat, (maskFencedBlocks text)[i]? = some '\n' ↔ text[i]? = some '\n') ∧
      ∀ (i : Nat) (c : Char), text[i]? = some c → c ≠ '\n' →
        (InBlock (text.splitOn '\n') (lineOf text i) ∧ (maskFencedBlocks text)[i]? = some ' ') ∨
          (¬ InBlock (text.splitOn '\n') (lineOf text i) ∧ (maskFencedBlocks text)[i]? = some c) := by
  have hlength : (maskFencedBlocks text).length = text.length := by
    have hlines := length_unlines_maskLines none (text.splitOn '\n')
    rwa [Text.unlines_splitOn] at hlines
  refine ⟨hlength, fun i => ⟨fun h => ?_, mask_newline⟩, fun i c h hc => mask_char h hc⟩
  have hi : i < text.length := by
    rw [← hlength]
    exact (List.getElem?_eq_some_iff.mp h).1
  by_cases hc : text[i] = '\n'
  · rw [List.getElem?_eq_getElem hi, hc]
  · rcases mask_char (List.getElem?_eq_getElem hi) hc with ⟨-, hmask⟩ | ⟨-, hmask⟩
    · rw [hmask] at h
      exact absurd (Option.some.inj h) (by decide)
    · rw [hmask] at h
      exact absurd (Option.some.inj h) hc

end Utils.Markdown
