import Mathlib.Algebra.Ring.Nat
import SovaVerified.Text.Reading

/-!
# A text as a list of lines

A text is its lines with a line feed between any two of them, and a list of lines without line feeds is what
its text is split into. `stripFront` and `stripBack` are what `str.strip` does to the lines.
-/

namespace Text

/-- `"\n".join(lines)`. -/
abbrev unlines (ls : List Text) : Text := join ['\n'] ls

/-- Every line is one line. -/
def AreLines (ls : List Text) : Prop := ∀ l ∈ ls, '\n' ∉ l

variable {a b ls : List Text} {l t : Text}

theorem areLines_splitOn (t : Text) : AreLines (t.splitOn '\n') := fun _ hl => not_mem_of_mem_splitOn hl

theorem AreLines.append (ha : AreLines a) (hb : AreLines b) : AreLines (a ++ b) := by
  intro l hl
  rcases List.mem_append.mp hl with h | h
  · exact ha l h
  · exact hb l h

theorem AreLines.left (h : AreLines (a ++ b)) : AreLines a := fun l hl => h l (List.mem_append_left b hl)

theorem AreLines.right (h : AreLines (a ++ b)) : AreLines b := fun l hl => h l (List.mem_append_right a hl)

theorem areLines_cons (h : AreLines (l :: ls)) : '\n' ∉ l ∧ AreLines ls :=
  ⟨h l List.mem_cons_self, fun l' hl' => h l' (List.mem_cons_of_mem l hl')⟩

theorem AreLines.cons (hl : '\n' ∉ l) (h : AreLines ls) : AreLines (l :: ls) :=
  List.forall_mem_cons.mpr ⟨hl, h⟩

theorem unlines_splitOn (t : Text) : unlines (t.splitOn '\n') = t := List.intercalate_splitOn '\n'

theorem splitOn_unlines (hne : ls ≠ []) (h : AreLines ls) : (unlines ls).splitOn '\n' = ls :=
  List.splitOn_intercalate '\n' h hne

theorem unlines_cons (l : Text) (hne : ls ≠ []) : unlines (l :: ls) = l ++ '\n' :: unlines ls := by
  have hcons : unlines (l :: ls) = l ++ ['\n'] ++ unlines ls := List.intercalate_cons_of_ne_nil hne
  rw [hcons, List.append_assoc, List.singleton_append]

theorem unlines_singleton (l : Text) : unlines [l] = l := List.intercalate_singleton

/-- The lines, each with its line feed. -/
def ended (ls : List Text) : Text := ls.flatMap (· ++ ['\n'])

theorem ended_cons (l : Text) (ls : List Text) : ended (l :: ls) = l ++ '\n' :: ended ls := by
  show l ++ ['\n'] ++ ended ls = _
  rw [List.append_assoc, List.singleton_append]

theorem ended_append (a b : List Text) : ended (a ++ b) = ended a ++ ended b := List.flatMap_append

theorem unlines_append (a : List Text) (hb : b ≠ []) : unlines (a ++ b) = ended a ++ unlines b := by
  induction a with
  | nil => rfl
  | cons l a ih =>
    have hne : a ++ b ≠ [] := by simp [hb]
    rw [List.cons_append, unlines_cons l hne, ih, ended_cons, List.append_assoc, List.cons_append]

theorem unlines_snoc_nil (a : List Text) : unlines (a ++ [[]]) = ended a := by
  rw [unlines_append a (List.cons_ne_nil _ _), unlines_singleton, List.append_nil]

theorem ended_eq (hne : ls ≠ []) : ended ls = unlines ls ++ ['\n'] := by
  induction ls with
  | nil => exact absurd rfl hne
  | cons l ls ih =>
    by_cases hls : ls = []
    · subst hls
      rw [unlines_singleton, ended_cons]
      rfl
    · rw [ended_cons, ih hls, unlines_cons l hls, List.append_assoc, List.cons_append]

/-- Lists of lines with the same text are the same. -/
theorem unlines_injective (ha : a ≠ []) (hb : b ≠ []) (hla : AreLines a) (hlb : AreLines b)
    (h : unlines a = unlines b) : a = b := by
  rw [← splitOn_unlines ha hla, ← splitOn_unlines hb hlb, h]

/-- Fewer lines from behind make a shorter text. -/
theorem length_unlines_drop {i j : Nat} (hij : i < j) (hj : j < ls.length) :
    (unlines (ls.drop j)).length < (unlines (ls.drop i)).length := by
  have hsplit : ls.drop i = (ls.drop i).take (j - i) ++ ls.drop j := by
    have hdrop : ls.drop j = (ls.drop i).drop (j - i) := by
      rw [List.drop_drop]
      congr 1
      omega
    rw [hdrop, List.take_append_drop]
  have hne : ls.drop j ≠ [] := by
    rw [Ne, List.drop_eq_nil_iff]
    omega
  have hfront : (ls.drop i).take (j - i) ≠ [] := by
    rw [Ne, ← List.length_eq_zero_iff, List.length_take, List.length_drop]
    omega
  obtain ⟨l, front, hfront⟩ := List.exists_cons_of_ne_nil hfront
  rw [hsplit, unlines_append _ hne, hfront, ended_cons, List.length_append, List.length_append,
    List.length_cons]
  omega

/-! ## White space at the ends -/

/-- What `str.lstrip` does to the lines. -/
def stripFront : List Text → List Text
  | [] => []
  | l :: ls => if lstrip l = [] then stripFront ls else lstrip l :: ls

/-- What `str.rstrip` does to the lines. -/
def stripBack : List Text → List Text
  | [] => []
  | l :: ls =>
    match stripBack ls with
    | [] => if rstrip l = [] then [] else [rstrip l]
    | l' :: ls' => l :: l' :: ls'

theorem lstrip_eq_nil_iff : lstrip t = [] ↔ ∀ c ∈ t, isSpace c = true := List.dropWhile_eq_nil_iff

theorem rstrip_eq_nil_iff : rstrip t = [] ↔ ∀ c ∈ t, isSpace c = true := by
  unfold rstrip
  rw [List.reverse_eq_nil_iff, List.dropWhile_eq_nil_iff]
  simp only [List.mem_reverse]

theorem exists_rstrip (t : Text) : ∃ s, t = rstrip t ++ s ∧ ∀ c ∈ s, isSpace c = true := by
  refine ⟨t.rtakeWhile isSpace, ?_, fun c hc => List.mem_rtakeWhile_imp hc⟩
  exact (List.rdropWhile_append_rtakeWhile (p := isSpace) (l := t)).symm

theorem exists_lstrip (t : Text) : ∃ s, t = s ++ lstrip t ∧ ∀ c ∈ s, isSpace c = true := by
  refine ⟨t.takeWhile isSpace, ?_, fun c hc => List.mem_takeWhile_imp hc⟩
  exact (List.takeWhile_append_dropWhile (p := isSpace) (l := t)).symm

/-- What comes behind can be left out of a run when none of it belongs to the run. -/
theorem takeWhile_append_of_neg {p : Char → Bool} {s : Text} (h : ∀ c ∈ s, p c = false) (t : Text) :
    (t ++ s).takeWhile p = t.takeWhile p := by
  induction t with
  | nil =>
    cases s with
    | nil => rfl
    | cons c s => rw [List.nil_append, List.takeWhile_cons, h c List.mem_cons_self]; rfl
  | cons c t ih => rw [List.cons_append, List.takeWhile_cons, List.takeWhile_cons, ih]

theorem lstrip_append_of_ne (h : lstrip l ≠ []) (t : Text) : lstrip (l ++ t) = lstrip l ++ t := by
  induction l with
  | nil => exact absurd rfl h
  | cons c l ih =>
    unfold lstrip at h ih ⊢
    rw [List.cons_append, List.dropWhile_cons]
    rw [List.dropWhile_cons] at h
    by_cases hc : isSpace c = true
    · rw [if_pos hc] at h ⊢
      rw [ih h, List.dropWhile_cons, if_pos hc]
    · rw [if_neg hc, List.dropWhile_cons, if_neg hc, List.cons_append]

theorem lstrip_append_of_eq_nil (h : lstrip l = []) (t : Text) : lstrip (l ++ t) = lstrip t := by
  unfold lstrip
  rw [List.dropWhile_append_of_pos (lstrip_eq_nil_iff.mp h)]

theorem isSpace_newline : isSpace '\n' = true := by decide

theorem lstrip_unlines (ls : List Text) : lstrip (unlines ls) = unlines (stripFront ls) := by
  induction ls with
  | nil => rfl
  | cons l ls ih =>
    rw [stripFront]
    by_cases hls : ls = []
    · subst hls
      rw [unlines_singleton]
      split_ifs with hl
      · exact hl
      · rw [unlines_singleton]
    · rw [unlines_cons l hls]
      split_ifs with hl
      · rw [lstrip_append_of_eq_nil hl, ← ih]
        unfold lstrip
        rw [List.dropWhile_cons, if_pos isSpace_newline]
      · rw [lstrip_append_of_ne hl, unlines_cons _ hls]

theorem rstrip_newline (t : Text) : rstrip ('\n' :: t) = if rstrip t = [] then [] else '\n' :: rstrip t := by
  rw [← List.singleton_append, rstrip_append]
  rfl

theorem stripBack_eq_nil_iff : stripBack ls = [] ↔ ∀ l ∈ ls, rstrip l = [] := by
  induction ls with
  | nil => exact iff_of_true rfl fun _ h => absurd h List.not_mem_nil
  | cons l ls ih =>
    rw [stripBack, List.forall_mem_cons, ← ih]
    cases hback : stripBack ls with
    | nil =>
      dsimp only
      split_ifs with hl
      · exact iff_of_true rfl ⟨hl, rfl⟩
      · exact iff_of_false not_false fun h => hl h.1
    | cons l' ls' => exact iff_of_false (List.cons_ne_nil _ _) fun h => List.cons_ne_nil _ _ h.2

theorem mem_stripBack (h : l ∈ stripBack ls) : ∃ l' ∈ ls, l = l' ∨ l = rstrip l' := by
  induction ls with
  | nil => cases h
  | cons l₁ ls ih =>
    rw [stripBack] at h
    cases hback : stripBack ls with
    | nil =>
      rw [hback] at h
      dsimp only at h
      split_ifs at h
      · cases h
      · exact ⟨l₁, List.mem_cons_self, .inr (List.mem_singleton.mp h)⟩
    | cons l₂ ls₂ =>
      rw [hback] at h ih
      rcases List.mem_cons.mp h with rfl | h
      · exact ⟨l, List.mem_cons_self, .inl rfl⟩
      · obtain ⟨l', hl', heq⟩ := ih h
        exact ⟨l', List.mem_cons_of_mem l₁ hl', heq⟩

theorem unlines_ne_nil_of_stripBack {l : Text} {ls' : List Text} (h : stripBack ls = l :: ls') :
    unlines (l :: ls') ≠ [] := by
  -- the last of the lines is not blank
  induction ls generalizing l ls' with
  | nil => cases h
  | cons l₁ ls ih =>
    rw [stripBack] at h
    cases hback : stripBack ls with
    | nil =>
      rw [hback] at h
      dsimp only at h
      split_ifs at h with hl
      cases h
      rw [unlines_singleton]
      exact hl
    | cons l₂ ls₂ =>
      rw [hback] at h
      cases h
      rw [unlines_cons _ (List.cons_ne_nil _ _)]
      simp

theorem rstrip_unlines (ls : List Text) : rstrip (unlines ls) = unlines (stripBack ls) := by
  induction ls with
  | nil => rfl
  | cons l ls ih =>
    rw [stripBack]
    by_cases hls : ls = []
    · subst hls
      rw [unlines_singleton]
      show rstrip l = unlines (if rstrip l = [] then [] else [rstrip l])
      split_ifs with hl
      · exact hl
      · rw [unlines_singleton]
    · rw [unlines_cons l hls, rstrip_append, rstrip_newline, ih]
      cases hback : stripBack ls with
      | nil =>
        show (if (if unlines [] = [] then [] else '\n' :: unlines []) = [] then rstrip l
          else l ++ if unlines [] = [] then [] else '\n' :: unlines []) =
            unlines (if rstrip l = [] then [] else [rstrip l])
        have hnil : unlines [] = [] := rfl
        rw [hnil, if_pos rfl, if_pos rfl]
        split_ifs with hl
        · exact hl
        · rw [unlines_singleton]
      | cons l' ls' =>
        have hne := unlines_ne_nil_of_stripBack hback
        rw [if_neg hne, if_neg (List.cons_ne_nil _ _)]
        exact (unlines_cons l (List.cons_ne_nil _ _)).symm

theorem strip_unlines (ls : List Text) : strip (unlines ls) = unlines (stripBack (stripFront ls)) := by
  rw [strip_eq, lstrip_unlines, rstrip_unlines]

theorem stripFront_append (hne : stripFront a ≠ []) (b : List Text) :
    stripFront (a ++ b) = stripFront a ++ b := by
  induction a with
  | nil => exact absurd rfl hne
  | cons l a ih =>
    rw [List.cons_append, stripFront, stripFront]
    rw [stripFront] at hne
    split_ifs at hne ⊢
    · exact ih hne
    · rfl

theorem stripFront_append_of_eq_nil (h : stripFront a = []) (b : List Text) :
    stripFront (a ++ b) = stripFront b := by
  induction a with
  | nil => rfl
  | cons l a ih =>
    rw [stripFront] at h
    rw [List.cons_append, stripFront]
    split_ifs at h ⊢
    exact ih h

theorem stripBack_append (hne : stripBack b ≠ []) (a : List Text) :
    stripBack (a ++ b) = a ++ stripBack b := by
  obtain ⟨l', ls', hback⟩ := List.exists_cons_of_ne_nil hne
  induction a with
  | nil => rfl
  | cons l a ih =>
    rw [List.cons_append, stripBack, ih, hback]
    cases a <;> rfl

theorem stripBack_append_of_eq_nil (h : stripBack b = []) (a : List Text) :
    stripBack (a ++ b) = stripBack a := by
  induction a with
  | nil => exact h
  | cons l a ih => rw [List.cons_append, stripBack, stripBack, ih]

theorem stripFront_cons_of_ne (h : lstrip l ≠ []) (ls : List Text) : stripFront (l :: ls) = lstrip l :: ls := by
  rw [stripFront, if_neg h]

theorem mem_lstrip {c : Char} (h : c ∈ lstrip t) : c ∈ t := (List.dropWhile_suffix isSpace).subset h

theorem mem_rstrip {c : Char} (h : c ∈ rstrip t) : c ∈ t := (rstrip_isPrefix t).subset h

theorem mem_strip {c : Char} (h : c ∈ strip t) : c ∈ t := by
  rw [strip_eq] at h
  exact mem_lstrip (mem_rstrip h)

theorem AreLines.stripFront (h : AreLines ls) : AreLines (stripFront ls) := by
  induction ls with
  | nil => exact h
  | cons l ls ih =>
    obtain ⟨hl, hls⟩ := areLines_cons h
    rw [Text.stripFront]
    split_ifs
    · exact ih hls
    · exact AreLines.cons (fun hmem => hl (mem_lstrip hmem)) hls

theorem AreLines.stripBack (h : AreLines ls) : AreLines (stripBack ls) := by
  intro l hl
  obtain ⟨l', hl', rfl | rfl⟩ := mem_stripBack hl
  · exact h l hl'
  · exact fun hmem => h l' hl' (mem_rstrip hmem)

theorem strip_ended (ls : List Text) : strip (ended ls) = strip (unlines ls) := by
  by_cases hnil : ls = []
  · rw [hnil]
    rfl
  · rw [ended_eq hnil]
    exact strip_append (forall_mem_of_all rfl) _

theorem strip_unlines_snoc_nil (ls : List Text) : strip (unlines (ls ++ [[]])) = strip (unlines ls) := by
  rw [unlines_snoc_nil, strip_ended]

theorem strip_unlines_nil_cons (ls : List Text) : strip (unlines ([] :: ls)) = strip (unlines ls) := by
  rw [strip_unlines, strip_unlines]
  rfl

/-- The first line and what stands behind it. -/
theorem unlines_head (l : Text) (ls : List Text) : unlines (l :: ls) = l ++ unlines ([] :: ls) := by
  by_cases hnil : ls = []
  · subst hnil
    rw [unlines_singleton, unlines_singleton, List.append_nil]
  · rw [unlines_cons l hnil, unlines_cons [] hnil]
    rfl

theorem stripFront_idem (ls : List Text) : stripFront (stripFront ls) = stripFront ls := by
  induction ls with
  | nil => rfl
  | cons l ls ih =>
    rw [stripFront]
    split_ifs with hl
    · exact ih
    · have hidem : lstrip (lstrip l) = lstrip l := lstrip_of_head (head_lstrip l)
      rw [stripFront, hidem, if_neg hl]

theorem rstrip_rstrip (t : Text) : rstrip (rstrip t) = rstrip t := List.rdropWhile_idempotent isSpace t

theorem stripBack_idem (ls : List Text) : stripBack (stripBack ls) = stripBack ls := by
  induction ls with
  | nil => rfl
  | cons l ls ih =>
    rw [stripBack]
    cases hback : stripBack ls with
    | nil =>
      dsimp only
      split_ifs with hl
      · rfl
      · show (if rstrip (rstrip l) = [] then [] else [rstrip (rstrip l)]) = [rstrip l]
        rw [rstrip_rstrip, if_neg hl]
    | cons l' ls' =>
      rw [hback] at ih
      rw [stripBack, ih]

/-- What `str.strip` does to the lines. -/
def stripLines (ls : List Text) : List Text := stripBack (stripFront ls)

theorem unlines_stripLines (ls : List Text) : unlines (stripLines ls) = strip (unlines ls) := (strip_unlines ls).symm

theorem length_stripFront_le (ls : List Text) : (stripFront ls).length ≤ ls.length := by
  induction ls with
  | nil => exact Nat.le_refl 0
  | cons l ls ih =>
    rw [stripFront]
    split_ifs
    · exact Nat.le_succ_of_le ih
    · exact Nat.le_refl _

/-- White space behind does not come to the front. -/
theorem stripFront_stripBack (h : stripFront ls = ls) : stripFront (stripBack ls) = stripBack ls := by
  cases ls with
  | nil => rfl
  | cons l ls =>
    have hl : lstrip l = l ∧ lstrip l ≠ [] := by
      rw [stripFront] at h
      split_ifs at h with hnil
      · have hshort := congrArg List.length h
        have hle := length_stripFront_le ls
        rw [List.length_cons] at hshort
        omega
      · exact ⟨(List.cons_eq_cons.mp h).1, hnil⟩
    rw [stripBack]
    cases hback : stripBack ls with
    | nil =>
      dsimp only
      split_ifs with hr
      · rfl
      · have hidem : lstrip (rstrip l) = rstrip l := by rw [lstrip_rstrip, strip_eq, hl.1]
        rw [stripFront, hidem, if_neg hr]
    | cons l' ls' => rw [stripFront, if_neg hl.2, hl.1]

theorem stripFront_stripLines (ls : List Text) : stripFront (stripLines ls) = stripLines ls :=
  stripFront_stripBack (stripFront_idem ls)

theorem AreLines.stripLines (h : AreLines ls) : AreLines (stripLines ls) := h.stripFront.stripBack

theorem splitOn_strip (t : Text) : (strip t).splitOn '\n' =
    if stripLines (t.splitOn '\n') = [] then [[]] else stripLines (t.splitOn '\n') := by
  have hlines := (areLines_splitOn t).stripLines
  have htext : strip t = unlines (stripLines (t.splitOn '\n')) := by rw [unlines_stripLines, unlines_splitOn]
  rw [htext]
  split_ifs with hnil
  · rw [hnil]
    rfl
  · exact splitOn_unlines hnil hlines

/-! ## Empty lines at the end -/

/-- The same lines but for empty ones at the end. -/
def SameLines (a b : List Text) : Prop := ∃ j k, a ++ List.replicate j [] = b ++ List.replicate k []

theorem SameLines.refl (ls : List Text) : SameLines ls ls := ⟨0, 0, rfl⟩

theorem SameLines.symm (h : SameLines a b) : SameLines b a := by
  obtain ⟨j, k, heq⟩ := h
  exact ⟨k, j, heq.symm⟩

theorem SameLines.trans {c : List Text} (hab : SameLines a b) (hbc : SameLines b c) : SameLines a c := by
  obtain ⟨j, k, hab⟩ := hab
  obtain ⟨j', k', hbc⟩ := hbc
  refine ⟨j + j', k' + k, ?_⟩
  rw [List.replicate_add, ← List.append_assoc, hab, List.replicate_add, ← List.append_assoc, ← hbc,
    List.append_assoc, List.append_assoc, ← List.replicate_add, ← List.replicate_add, Nat.add_comm]

theorem sameLines_append (ls : List Text) (k : Nat) : SameLines (ls ++ List.replicate k []) ls :=
  ⟨0, k, List.append_nil _⟩

theorem strip_unlines_append_replicate (ls : List Text) (k : Nat) :
    strip (unlines (ls ++ List.replicate k [])) = strip (unlines ls) := by
  induction k with
  | zero => rw [List.replicate_zero, List.append_nil]
  | succ k ih => rw [List.replicate_succ', ← List.append_assoc, strip_unlines_snoc_nil, ih]

theorem SameLines.strip_unlines (h : SameLines a b) : strip (unlines a) = strip (unlines b) := by
  obtain ⟨j, k, heq⟩ := h
  rw [← strip_unlines_append_replicate a j, heq, strip_unlines_append_replicate]

/-! ## Lines without any line boundary -/

/-- Lines that are joined are read as they were. -/
theorem lines_unlines (hls : ∀ l ∈ ls, ∀ c ∈ l, isLineBreak c = false) (hlast : ∀ l ∈ ls.getLast?, l ≠ []) :
    lines (unlines ls) = ls := by
  induction ls with
  | nil => rfl
  | cons l ls ih =>
    obtain ⟨hl, hrest⟩ := List.forall_mem_cons.mp hls
    by_cases hnil : ls = []
    · subst hnil
      rw [unlines_singleton]
      exact lines_line (hlast l rfl) hl
    · have hlast' : ∀ l' ∈ ls.getLast?, l' ≠ [] := by
        intro l' hl'
        refine hlast l' ?_
        rw [List.getLast?_cons_of_ne_nil hnil]
        exact hl'
      rw [unlines_cons l hnil, lines_append_newline, pieces_eq_singleton hl, ih hrest hlast']
      rfl

/-! ## Visible characters -/

/-- The number of characters that are no white space. -/
def ink (t : Text) : Nat := t.countP fun c => !isSpace c

theorem ink_append (s t : Text) : ink (s ++ t) = ink s + ink t := List.countP_append

theorem ink_eq_zero {s : Text} (h : ∀ c ∈ s, isSpace c = true) : ink s = 0 := by
  unfold ink
  rw [List.countP_eq_zero]
  intro c hc
  rw [h c hc]
  decide

theorem ink_strip (t : Text) : ink (strip t) = ink t := by
  obtain ⟨s, hs, hspace⟩ := exists_lstrip t
  obtain ⟨s', hs', hspace'⟩ := exists_rstrip (lstrip t)
  have hback : ink (lstrip t) = ink (strip t) := by
    conv_lhs => rw [hs', ink_append, ink_eq_zero hspace']
    rfl
  conv_rhs => rw [hs, ink_append, ink_eq_zero hspace, hback]
  omega

theorem ink_ended (ls : List Text) : ink (ended ls) = (ls.map ink).sum := by
  induction ls with
  | nil => rfl
  | cons l ls ih =>
    have hcons : ink ('\n' :: ended ls) = ink (ended ls) := List.countP_cons_of_neg (by decide)
    rw [ended_cons, ink_append, hcons, ih, List.map_cons, List.sum_cons]

theorem ink_unlines (ls : List Text) : ink (unlines ls) = (ls.map ink).sum := by
  by_cases hnil : ls = []
  · subst hnil
    rfl
  · have hended := ink_ended ls
    rw [ended_eq hnil, ink_append] at hended
    have hzero : ink ['\n'] = 0 := by decide
    omega

end Text
