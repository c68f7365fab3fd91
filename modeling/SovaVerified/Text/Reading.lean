import Mathlib.Data.List.DropRight
import Mathlib.Data.List.Infix
import SovaVerified.Text.Text

/-!
# Reading a text back

What a reader gets back of numbers and lines that were written before: `toNat` is `int` on decimal digits,
and `pieces` are the lines that `str.splitlines` makes of one written line. They are more than one when
the line holds a character that Python takes for a line boundary and its writer did not.
-/

namespace Text

/-! ## Classes and parts of a text -/

/-- The letters and digits of the Unicode version that Python was built with, as `str.isalnum` knows
them. -/
structure Alphabet where
  isAlnum : Char → Bool
  ascii : ∀ c : Char, c.toNat < 128 → isAlnum c = c.isAlphanum
  not_space : ∀ c : Char, isSpace c = true → isAlnum c = false

/-- The letters and digits of ASCII alone. -/
def Alphabet.asciiOnly : Alphabet where
  isAlnum c := c.toNat < 128 && c.isAlphanum
  ascii c hc := by simp [hc]
  not_space c hc := by
    refine Bool.eq_false_iff.mpr fun h => ?_
    obtain ⟨hascii, halnum⟩ := Bool.and_eq_true_iff.mp h
    have hall : ∀ n < 128, isSpace (Char.ofNat n) = true → (Char.ofNat n).isAlphanum = false := by decide
    have hfalse := hall c.toNat (of_decide_eq_true hascii)
    rw [Char.ofNat_toNat] at hfalse
    rw [hfalse hc] at halnum
    cases halnum

/-- `\w` of a regular expression. -/
def Alphabet.isWord (A : Alphabet) (c : Char) : Bool := A.isAlnum c || c == '_'

/-- The digits that are not decimal: superscripts, subscripts and digits with a circle or a full stop. -/
def otherDigits : List (Nat × Nat) :=
  [(0xb2, 0xb3), (0xb9, 0xb9), (0x1369, 0x1371), (0x19da, 0x19da), (0x2070, 0x2070), (0x2074, 0x2079),
   (0x2080, 0x2089), (0x2460, 0x2468), (0x2474, 0x247c), (0x2488, 0x2490), (0x24ea, 0x24ea),
   (0x24f5, 0x24fd), (0x24ff, 0x24ff), (0x2776, 0x277e), (0x2780, 0x2788), (0x278a, 0x2792),
   (0x10a40, 0x10a43), (0x10e60, 0x10e68), (0x11052, 0x1105a), (0x1f100, 0x1f10a)]

/-- `str.isdigit` for one code point. -/
def isDigit (c : Char) : Bool :=
  isDecimal c || otherDigits.any fun r => r.1 ≤ c.toNat && c.toNat ≤ r.2

/-- `str.isdigit`. -/
def isDigits (t : Text) : Bool := !t.isEmpty && t.all isDigit

/-- `t.rpartition(sep)`: what stands before and behind the last separator. -/
def rpartition (sep : Char) : Text → Option (Text × Text)
  | [] => none
  | c :: t =>
    match rpartition sep t with
    | some (a, b) => some (c :: a, b)
    | none => if c = sep then some ([], t) else none

/-- `str.lstrip()`. -/
def lstrip (t : Text) : Text := t.dropWhile isSpace

/-- `str.rstrip()`. -/
def rstrip (t : Text) : Text := (t.reverse.dropWhile isSpace).reverse

theorem rpartition_eq_none_iff {sep : Char} {t : Text} : rpartition sep t = none ↔ sep ∉ t := by
  induction t with
  | nil => simp [rpartition]
  | cons c t ih =>
    rw [rpartition, List.mem_cons, not_or]
    cases hrest : rpartition sep t with
    | some parts =>
      have hmem : sep ∈ t := by
        by_contra hnot
        rw [ih.mpr hnot] at hrest
        cases hrest
      simp [hmem]
    | none => simp [ih.mp hrest, eq_comm]

/-- The last separator is the one behind which no other one stands. -/
theorem rpartition_append {sep : Char} {b : Text} (hb : sep ∉ b) (a : Text) :
    rpartition sep (a ++ sep :: b) = some (a, b) := by
  induction a with
  | nil =>
    rw [List.nil_append, rpartition, rpartition_eq_none_iff.mpr hb]
    exact if_pos rfl
  | cons c a ih => rw [List.cons_append, rpartition, ih]

theorem rpartition_eq_some {sep : Char} {t a b : Text} (h : rpartition sep t = some (a, b)) :
    t = a ++ sep :: b ∧ sep ∉ b := by
  induction t generalizing a b with
  | nil => cases h
  | cons c t ih =>
    rw [rpartition] at h
    cases hrest : rpartition sep t with
    | some parts =>
      rw [hrest] at h
      obtain ⟨rfl, rfl⟩ := Prod.mk.inj (Option.some.inj h)
      obtain ⟨ht, hb⟩ := ih hrest
      exact ⟨by rw [List.cons_append, ← ht], hb⟩
    | none =>
      rw [hrest] at h
      simp only at h
      split_ifs at h with hc
      obtain ⟨rfl, rfl⟩ := Prod.mk.inj (Option.some.inj h)
      exact ⟨by rw [hc, List.nil_append], rpartition_eq_none_iff.mp hrest⟩

/-- Every line boundary is white space. -/
theorem isLineBreak_eq_false {c : Char} (h : isSpace c = false) : isLineBreak c = false := by
  unfold isSpace at h
  unfold isLineBreak
  simp only [Bool.or_eq_false_iff, Bool.and_eq_false_iff, decide_eq_false_iff_not, beq_eq_false_iff_ne] at h ⊢
  omega

/-- The parts of a split hold no separator. -/
theorem not_of_mem_splitOnP {p : Char → Bool} {t w : Text} (hw : w ∈ t.splitOnP p) :
    ∀ c ∈ w, p c = false := by
  induction t generalizing w with
  | nil =>
    rw [List.mem_singleton.mp hw]
    simp
  | cons d t ih =>
    rw [List.splitOnP_cons_eq_if_modifyHead] at hw
    obtain ⟨first, rest, hsplit⟩ := List.exists_cons_of_ne_nil (List.splitOnP_ne_nil p t)
    rw [hsplit] at hw ih
    split_ifs at hw with hd
    · rcases List.mem_cons.mp hw with rfl | hw
      · simp
      · exact ih hw
    · rcases List.mem_cons.mp hw with rfl | hw
      · exact List.forall_mem_cons.mpr ⟨Bool.eq_false_iff.mpr hd, ih (List.mem_cons_self ..)⟩
      · exact ih (List.mem_cons_of_mem _ hw)

theorem not_mem_of_mem_splitOn {sep : Char} {t w : Text} (hw : w ∈ t.splitOn sep) : sep ∉ w := by
  rw [List.splitOn_eq_splitOnP] at hw
  intro hmem
  have hnot := not_of_mem_splitOnP hw sep hmem
  rw [beq_self_eq_true] at hnot
  cases hnot

/-- Of white space, a flattened text holds blanks only. -/
theorem isSpace_of_mem_flatten {t : Text} {c : Char} (h : c ∈ flatten t) : c = ' ' ∨ isSpace c = false := by
  rcases mem_join h with hc | ⟨w, hw, hc⟩
  · exact .inl (List.mem_singleton.mp hc)
  · exact .inr (not_of_mem_splitOnP (List.mem_filter.mp hw).1 c hc)

theorem isLineBreak_of_mem_flatten {t : Text} {c : Char} (h : c ∈ flatten t) : isLineBreak c = false := by
  rcases isSpace_of_mem_flatten h with rfl | hc
  · rfl
  · exact isLineBreak_eq_false hc

/-! ## White space at the ends -/

theorem strip_eq (t : Text) : strip t = rstrip (lstrip t) := rfl

theorem rstrip_append (a b : Text) : rstrip (a ++ b) = if rstrip b = [] then rstrip a else a ++ rstrip b := by
  unfold rstrip
  rw [List.reverse_append, List.dropWhile_append]
  by_cases hb : b.reverse.dropWhile isSpace = []
  · rw [if_pos (List.reverse_eq_nil_iff.mpr hb), if_pos (List.isEmpty_iff.mpr hb)]
  · rw [if_neg (mt List.reverse_eq_nil_iff.mp hb), if_neg (by rwa [List.isEmpty_iff]), List.reverse_append,
      List.reverse_reverse]

/-- What ends without white space stays whole. -/
theorem rstrip_snoc {c : Char} (hc : isSpace c = false) (a : Text) : rstrip (a ++ [c]) = a ++ [c] := by
  have hlast : rstrip [c] = [c] := by
    unfold rstrip
    rw [List.reverse_singleton, List.dropWhile_cons, hc]
    rfl
  rw [rstrip_append, hlast, if_neg (List.cons_ne_nil c [])]

theorem rstrip_append_snoc {c : Char} (hc : isSpace c = false) (a b : Text) :
    rstrip (a ++ [c] ++ b) = a ++ [c] ++ rstrip b := by
  rw [rstrip_append]
  split_ifs with hb
  · rw [hb, rstrip_snoc hc, List.append_nil]
  · rfl

theorem rstrip_eq_nil {t : Text} (h : ∀ c ∈ t, isSpace c = true) : rstrip t = [] := by
  unfold rstrip
  rw [List.reverse_eq_nil_iff, List.dropWhile_eq_nil_iff]
  exact fun c hc => h c (List.mem_reverse.mp hc)

/-- What `rstrip` leaves is white space and what `strip` leaves. -/
theorem rstrip_eq_append_strip (t : Text) :
    ∃ a, rstrip t = a ++ strip t ∧ ∀ c ∈ a, isSpace c = true := by
  have hfront : ∀ c ∈ t.takeWhile isSpace, isSpace c = true :=
    fun c hc => List.all_eq_true.mp List.all_takeWhile c hc
  have hsplit : rstrip t = rstrip (t.takeWhile isSpace ++ lstrip t) :=
    congrArg rstrip List.takeWhile_append_dropWhile.symm
  rw [hsplit, rstrip_append, strip_eq]
  split_ifs with hnil
  · exact ⟨[], by rw [hnil, rstrip_eq_nil hfront, List.append_nil], by simp⟩
  · exact ⟨_, rfl, hfront⟩

theorem rstrip_isPrefix (t : Text) : rstrip t <+: t := by
  unfold rstrip
  rw [← List.reverse_suffix, List.reverse_reverse]
  exact List.dropWhile_suffix isSpace

theorem lstrip_of_head {t : Text} (h : ∀ c ∈ t.head?, isSpace c = false) : lstrip t = t := by
  cases t with
  | nil => rfl
  | cons c t =>
    unfold lstrip
    rw [List.dropWhile_cons, h c rfl]
    rfl

theorem head_lstrip (t : Text) : ∀ c ∈ (lstrip t).head?, isSpace c = false := by
  intro c hc
  have hnot := List.head?_dropWhile_not isSpace t
  unfold lstrip at hc
  rw [Option.mem_def.mp hc] at hnot
  simpa using hnot

/-- What `strip` leaves starts without white space. -/
theorem head_strip (t : Text) : ∀ c ∈ (strip t).head?, isSpace c = false := by
  have hhead := head_lstrip t
  intro c hc
  obtain ⟨a, b, hsplit, -, hb⟩ := strip_spec (lstrip t)
  rw [strip_eq] at hc
  cases hl : lstrip t with
  | nil =>
    rw [hl] at hc
    cases hc
  | cons d l =>
    rw [hl] at hc hhead
    have hd := hhead d rfl
    have hkeep : rstrip (d :: l) = d :: rstrip l := rstrip_append_snoc hd [] l
    rw [hkeep] at hc
    cases hc
    exact hd

/-- White space in front of a text that starts without it. -/
theorem lstrip_append {a b : Text} (ha : ∀ c ∈ a, isSpace c = true) (hb : ∀ c ∈ b.head?, isSpace c = false) :
    lstrip (a ++ b) = b := by
  unfold lstrip
  rw [List.dropWhile_append_of_pos ha]
  exact lstrip_of_head hb

theorem lstrip_rstrip (t : Text) : lstrip (rstrip t) = strip t := by
  obtain ⟨a, hback, ha⟩ := rstrip_eq_append_strip t
  rw [hback]
  exact lstrip_append ha (head_strip t)

theorem rstrip_strip (t : Text) : rstrip (strip t) = strip t := by
  unfold strip rstrip
  rw [List.reverse_reverse, List.dropWhile_idempotent]

theorem strip_strip (t : Text) : strip (strip t) = strip t := by
  rw [strip_eq, lstrip_of_head (head_strip t), rstrip_strip]

theorem strip_rstrip (t : Text) : strip (rstrip t) = strip t := by
  rw [strip_eq, lstrip_rstrip, rstrip_strip]

/-- White space behind a text is stripped with it. -/
theorem strip_append {b : Text} (hb : ∀ c ∈ b, isSpace c = true) (a : Text) : strip (a ++ b) = strip a := by
  rw [← lstrip_rstrip, rstrip_append, if_pos (rstrip_eq_nil hb), lstrip_rstrip]

/-- A text between two characters that are no white space keeps its middle. -/
theorem strip_append_middle {c d : Char} (hc : isSpace c = false) (hd : isSpace d = false) (a m b : Text) :
    strip (a ++ (c :: m ++ [d]) ++ b) = lstrip a ++ (c :: m ++ [d]) ++ rstrip b := by
  have hfront : ∀ x, lstrip (a ++ c :: x) = lstrip a ++ c :: x := by
    intro x
    have hkeep : (c :: x).dropWhile isSpace = c :: x := lstrip_of_head fun d hd => by
      rw [← Option.some.inj hd]
      exact hc
    unfold lstrip
    rw [List.dropWhile_append, hkeep]
    split_ifs with hnil
    · rw [List.isEmpty_iff.mp hnil, List.nil_append]
    · rfl
  have hsplit : a ++ (c :: m ++ [d]) ++ b = a ++ c :: (m ++ [d] ++ b) := by simp
  have hjoin : lstrip a ++ c :: (m ++ [d] ++ b) = (lstrip a ++ c :: m) ++ [d] ++ b := by simp
  rw [strip_eq, hsplit, hfront, hjoin, rstrip_append_snoc hd]
  simp

/-! ## Numbers -/

/-- The value of a decimal digit. -/
def digitOf (c : Char) : Option Nat :=
  (decimalZeros.find? fun first => first ≤ c.toNat && c.toNat < first + 10).map (c.toNat - ·)

/-- `int(t)` of decimal digits. The limit on their number is left out. -/
def toNat (t : Text) : Nat := t.foldl (fun n c => 10 * n + (digitOf c).getD 0) 0

theorem digitOf_of_isDigit {c : Char} (h : c.isDigit = true) : digitOf c = some (c.toNat - 48) := by
  have hrange : 48 ≤ c.toNat ∧ c.toNat ≤ 57 := by
    unfold Char.isDigit at h
    simp only [Bool.and_eq_true, decide_eq_true_eq] at h
    exact ⟨UInt32.le_iff_toNat_le.mp h.1, UInt32.le_iff_toNat_le.mp h.2⟩
  have hfirst : (decide (48 ≤ c.toNat) && decide (c.toNat < 48 + 10)) = true := by
    simp only [Bool.and_eq_true, decide_eq_true_eq]
    omega
  have hzeros : decimalZeros = 48 :: decimalZeros.tail := rfl
  unfold digitOf
  rw [hzeros, List.find?_cons, hfirst]
  rfl

theorem isDecimal_of_isDigit {c : Char} (h : c.isDigit = true) : isDecimal c = true := by
  have hdigit := digitOf_of_isDigit h
  unfold digitOf at hdigit
  obtain ⟨first, hfind, -⟩ := Option.map_eq_some_iff.mp hdigit
  have hdecimal := List.find?_some hfind
  exact List.any_eq_true.mpr ⟨first, List.mem_of_find?_eq_some hfind, hdecimal⟩

theorem toList_toString (n : Nat) : (toString n).toList = Nat.toDigits 10 n := by
  show (String.ofList (Nat.toDigits 10 n)).toList = _
  exact String.toList_ofList

theorem isDigit_of_mem_toString {n : Nat} {c : Char} (h : c ∈ (toString n).toList) :
    c.isDigit = true := by
  rw [toList_toString] at h
  exact Nat.isDigit_of_mem_toDigits (by decide) (by decide) h

theorem toString_ne_nil (n : Nat) : (toString n).toList ≠ [] := by
  rw [toList_toString]
  exact Nat.toDigits_ne_nil

/-- A number is read as it was written. -/
theorem toNat_toString (n : Nat) : toNat (toString n).toList = n := by
  have hfold : ∀ (t : Text) (init : Nat), (∀ c ∈ t, c.isDigit = true) →
      t.foldl (fun n c => 10 * n + (digitOf c).getD 0) init = Nat.ofDigitChars 10 t init := by
    intro t
    induction t with
    | nil => exact fun init _ => Nat.ofDigitChars_nil.symm
    | cons c t ih =>
      intro init h
      obtain ⟨hc, ht⟩ := List.forall_mem_cons.mp h
      rw [List.foldl_cons, ih _ ht, Nat.ofDigitChars_cons, digitOf_of_isDigit hc]
      rfl
  unfold toNat
  rw [hfold _ 0 fun c hc => isDigit_of_mem_toString hc, toList_toString]
  exact Nat.ofDigitChars_ten_toDigits

/-! ## Lines -/

theorem join_snoc (sep l : Text) (ls : List Text) :
    join sep (ls ++ [l]) = ls.flatMap (· ++ sep) ++ l := by
  induction ls with
  | nil => simp [join]
  | cons l' ls ih =>
    have hne : ls ++ [l] ≠ [] := by simp
    unfold join at ih ⊢
    rw [List.cons_append, List.intercalate_cons_of_ne_nil hne, ih, List.flatMap_cons, List.append_assoc,
      List.append_assoc, List.append_assoc]

/-- A text is written line by line. -/
theorem flatMap_splitOn (t : Text) : (t.splitOn '\n').flatMap (· ++ ['\n']) = t ++ ['\n'] := by
  rw [List.splitOn_eq_splitOnP]
  induction t with
  | nil => rfl
  | cons c t ih =>
    rw [List.splitOnP_cons_eq_if_modifyHead]
    obtain ⟨first, rest, hsplit⟩ := List.exists_cons_of_ne_nil (List.splitOnP_ne_nil (· == '\n') t)
    rw [hsplit] at ih ⊢
    split_ifs with hc
    · rw [List.flatMap_cons, ih, beq_iff_eq.mp hc]
      rfl
    · rw [List.modifyHead_cons, List.flatMap_cons, List.cons_append, List.cons_append, List.cons_append, ← ih]
      rfl

/-- A written line as `str.splitlines` sees it. -/
def pieces (line : Text) : List Text := lines (line ++ ['\n'])

theorem splitLines_ne_nil {t : Text} (h : t ≠ []) : splitLines t ≠ [] := by
  cases t with
  | nil => exact absurd rfl h
  | cons c t =>
    unfold splitLines
    split_ifs
    · simp
    · cases splitLines t with
      | nil => simp
      | cons l ls => simp

theorem splitLines_append_newline (a b : Text) :
    splitLines (a ++ '\n' :: b) = splitLines (a ++ ['\n']) ++ splitLines b := by
  induction a with
  | nil => rfl
  | cons c a ih =>
    have hhead : (a ++ '\n' :: b).head? = (a ++ ['\n']).head? := by
      cases a with
      | nil => rfl
      | cons d a => rfl
    rw [List.cons_append, List.cons_append, splitLines, splitLines, hhead, ih]
    split_ifs
    · rfl
    · obtain ⟨l, ls, hsplit⟩ := List.exists_cons_of_ne_nil
        (splitLines_ne_nil (List.append_ne_nil_of_right_ne_nil a (List.cons_ne_nil '\n' [])))
      rw [hsplit]
      rfl

/-- A text is read line by line. -/
theorem lines_append_newline (a b : Text) : lines (a ++ '\n' :: b) = pieces a ++ lines b := by
  unfold pieces lines
  rw [splitLines_append_newline, List.map_append]

/-- Written lines are read one after the other. -/
theorem lines_flatMap_newline (ls : List Text) :
    lines (ls.flatMap fun l => l ++ ['\n']) = ls.flatMap pieces := by
  induction ls with
  | nil => rfl
  | cons l ls ih =>
    rw [List.flatMap_cons, List.flatMap_cons, ← ih, List.append_assoc]
    exact lines_append_newline l _

theorem pieces_nil : pieces [] = [[]] := rfl

/-- A character that is no line boundary stays where it is. -/
theorem pieces_cons {c : Char} (hc : isLineBreak c = false) (t : Text) :
    ∃ first rest, pieces t = first :: rest ∧ pieces (c :: t) = (c :: first) :: rest := by
  obtain ⟨l, ls, hsplit⟩ := List.exists_cons_of_ne_nil
    (splitLines_ne_nil (List.append_ne_nil_of_right_ne_nil t (List.cons_ne_nil '\n' [])))
  have hstrip : (((c :: l).reverse.dropWhile isLineBreak).reverse) =
      c :: (l.reverse.dropWhile isLineBreak).reverse := by
    have hkeep : [c].dropWhile isLineBreak = [c] := by
      rw [List.dropWhile_cons, hc]
      rfl
    rw [List.reverse_cons, List.dropWhile_append, hkeep]
    split_ifs with hempty
    · have hnil : l.reverse.dropWhile isLineBreak = [] := List.isEmpty_iff.mp hempty
      rw [hnil]
      rfl
    · simp
  refine ⟨_, _, by unfold pieces lines; rw [hsplit, List.map_cons], ?_⟩
  unfold pieces lines
  rw [List.cons_append, splitLines, hsplit, hc]
  show List.map _ ((c :: l) :: ls) = _
  rw [List.map_cons, hstrip]

/-- A line without line boundaries is one piece. -/
theorem pieces_eq_singleton {l : Text} (h : ∀ c ∈ l, isLineBreak c = false) : pieces l = [l] := by
  induction l with
  | nil => rfl
  | cons c l ih =>
    obtain ⟨hc, hl⟩ := List.forall_mem_cons.mp h
    obtain ⟨first, rest, hpieces, hcons⟩ := pieces_cons hc l
    rw [ih hl] at hpieces
    obtain ⟨rfl, rfl⟩ := List.cons.inj hpieces
    exact hcons

theorem newline_not_mem {t : Text} (h : ∀ c ∈ t, isLineBreak c = false) : '\n' ∉ t := by
  intro hmem
  have hbreak := h _ hmem
  revert hbreak
  decide

theorem splitLines_line {l : Text} (hne : l ≠ []) (h : ∀ c ∈ l, isLineBreak c = false) : splitLines l = [l] := by
  induction l with
  | nil => exact absurd rfl hne
  | cons c l ih =>
    obtain ⟨hc, hl⟩ := List.forall_mem_cons.mp h
    rw [splitLines, hc, Bool.false_and, if_neg Bool.false_ne_true]
    cases l with
    | nil => rfl
    | cons d l => rw [ih (List.cons_ne_nil d l) hl]

/-- A last line that is not ended is read as it is. -/
theorem lines_line {l : Text} (hne : l ≠ []) (h : ∀ c ∈ l, isLineBreak c = false) : lines l = [l] := by
  have hkeep : l.reverse.dropWhile isLineBreak = l.reverse := by
    refine List.dropWhile_eq_self_iff.mpr fun hpos => ?_
    rw [h _ (List.mem_reverse.mp (List.getElem_mem hpos))]
    exact Bool.false_ne_true
  unfold lines
  rw [splitLines_line hne h, List.map_singleton, hkeep, List.reverse_reverse]

/-- A line of `str.splitlines(keepends=True)`: nothing that ends a line stands in front of its end. -/
theorem exists_of_mem_splitLines {t l : Text} (h : l ∈ splitLines t) :
    ∃ a b, l = a ++ b ∧ (∀ c ∈ a, isLineBreak c = false) ∧ ∀ c ∈ b, isLineBreak c = true := by
  induction t generalizing l with
  | nil => cases h
  | cons c t ih =>
    rw [splitLines] at h
    by_cases hc : isLineBreak c = true
    · have hone : ∀ d ∈ [c], isLineBreak d = true := by
        rintro d hd
        rwa [List.mem_singleton.mp hd]
      rw [hc, Bool.true_and] at h
      by_cases hend : (!(c == '\r' && t.head? == some '\n')) = true
      · rw [if_pos hend] at h
        rcases List.mem_cons.mp h with rfl | h
        · exact ⟨[], [c], rfl, by simp, hone⟩
        · exact ih h
      · -- a carriage return in front of a line feed
        rw [if_neg hend] at h
        have hhead : t.head? = some '\n' := by
          rw [Bool.not_eq_true', Bool.not_eq_false, Bool.and_eq_true, beq_iff_eq, beq_iff_eq] at hend
          exact hend.2
        obtain ⟨rest, rfl⟩ := List.head?_eq_some_iff.mp hhead
        have hsplit : splitLines ('\n' :: rest) = ['\n'] :: splitLines rest := rfl
        rw [hsplit] at h ih
        rcases List.mem_cons.mp h with rfl | h
        · refine ⟨[], [c, '\n'], rfl, by simp, ?_⟩
          rintro d hd
          rcases List.mem_cons.mp hd with rfl | hd
          · exact hc
          · rw [List.mem_singleton.mp hd]
            decide
        · exact ih (List.mem_cons_of_mem _ h)
    · rw [Bool.not_eq_true] at hc
      rw [hc, Bool.false_and, if_neg Bool.false_ne_true] at h
      cases hsplit : splitLines t with
      | nil =>
        rw [hsplit] at h
        rw [List.mem_singleton.mp h]
        exact ⟨[c], [], rfl, by simpa using hc, by simp⟩
      | cons l' ls =>
        rw [hsplit] at h ih
        rcases List.mem_cons.mp h with rfl | h
        · obtain ⟨a, b, rfl, ha, hb⟩ := ih List.mem_cons_self
          exact ⟨c :: a, b, rfl, List.forall_mem_cons.mpr ⟨hc, ha⟩, hb⟩
        · exact ih (List.mem_cons_of_mem _ h)

/-- No line of `str.splitlines` has a line boundary in it. -/
theorem isLineBreak_of_mem_lines {t l : Text} (h : l ∈ lines t) : ∀ c ∈ l, isLineBreak c = false := by
  obtain ⟨l', hl', rfl⟩ := List.mem_map.mp h
  obtain ⟨a, b, rfl, ha, hb⟩ := exists_of_mem_splitLines hl'
  intro c hc
  have hb' : ∀ c ∈ b.reverse, isLineBreak c = true := fun c hc => hb c (List.mem_reverse.mp hc)
  rw [List.reverse_append, List.dropWhile_append_of_pos hb', List.mem_reverse] at hc
  exact ha c (List.mem_reverse.mp ((List.dropWhile_suffix isLineBreak).subset hc))

/-- A front without line boundaries stays where it is. -/
theorem pieces_append {front : Text} (hfront : ∀ c ∈ front, isLineBreak c = false) (t : Text) :
    ∃ first rest, pieces t = first :: rest ∧ pieces (front ++ t) = (front ++ first) :: rest := by
  induction front with
  | nil =>
    have hne : pieces t ≠ [] := by
      unfold pieces lines
      exact fun h => splitLines_ne_nil (List.append_ne_nil_of_right_ne_nil t (List.cons_ne_nil '\n' []))
        (List.map_eq_nil_iff.mp h)
    obtain ⟨first, rest, h⟩ := List.exists_cons_of_ne_nil hne
    exact ⟨first, rest, h, h⟩
  | cons c front ih =>
    obtain ⟨hc, hfront⟩ := List.forall_mem_cons.mp hfront
    obtain ⟨first, rest, h, hfront⟩ := ih hfront
    obtain ⟨first', rest', h', hcons⟩ := pieces_cons hc (front ++ t)
    rw [hfront] at h'
    obtain ⟨rfl, rfl⟩ := List.cons.inj h'
    exact ⟨first, rest, h, hcons⟩

/-- A line boundary at the front of a line ends its first piece. -/
theorem pieces_cons_of_isLineBreak {c : Char} (hc : isLineBreak c = true) (t : Text) :
    ∃ rest, pieces (c :: t) = [] :: rest := by
  unfold pieces lines
  rw [List.cons_append, splitLines]
  split_ifs with hend
  · exact ⟨_, by rw [List.map_cons]; simp [hc]; rfl⟩
  · have hhead : (t ++ ['\n']).head? = some '\n' := by
      rw [hc] at hend
      simp only [Bool.true_and, Bool.not_eq_true', Bool.not_eq_false, Bool.and_eq_true,
        beq_iff_eq] at hend
      exact hend.2
    obtain ⟨rest, hrest⟩ := List.head?_eq_some_iff.mp hhead
    have hsplit : splitLines (t ++ ['\n']) = ['\n'] :: splitLines rest := by
      rw [hrest]
      rfl
    rw [hsplit]
    have hnewline : isLineBreak '\n' = true := rfl
    exact ⟨_, by rw [List.map_cons]; simp [hc, hnewline]; rfl⟩

/-- What a line starts with is in its first piece. -/
theorem isPrefixOf_head_pieces (front : Text) (hfront : ∀ c ∈ front, isLineBreak c = false)
    (t : Text) {first : Text} {rest : List Text} (h : pieces t = first :: rest) :
    front.isPrefixOf first = front.isPrefixOf t := by
  induction front generalizing t first rest with
  | nil => rfl
  | cons a front ih =>
    obtain ⟨ha, hfront⟩ := List.forall_mem_cons.mp hfront
    cases t with
    | nil =>
      rw [pieces_nil] at h
      obtain ⟨rfl, -⟩ := List.cons.inj h
      rfl
    | cons c t =>
      by_cases hc : isLineBreak c = true
      · have hne : (a == c) = false := by
          refine beq_eq_false_iff_ne.mpr ?_
          rintro rfl
          rw [hc] at ha
          cases ha
        obtain ⟨rest', hpieces⟩ := pieces_cons_of_isLineBreak hc t
        rw [hpieces] at h
        obtain ⟨rfl, -⟩ := List.cons.inj h
        rw [List.isPrefixOf_cons_cons, hne]
        rfl
      · obtain ⟨first', rest', hpieces, hcons⟩ := pieces_cons (Bool.eq_false_iff.mpr hc) t
        rw [hcons] at h
        obtain ⟨rfl, rfl⟩ := List.cons.inj h
        rw [List.isPrefixOf_cons_cons, List.isPrefixOf_cons_cons, ih hfront t hpieces]

end Text

/-!
# Where a text occurs in another one

`str.find`, and how the first occurrence lies in a text that is put together from parts: an occurrence does
not reach over a character that it does not contain.
-/

namespace Text

/-- `t.find(part)`; `none` stands for `-1`. -/
def find (part : Text) : Text → Option Nat
  | [] => if part = [] then some 0 else none
  | c :: t => if part.isPrefixOf (c :: t) then some 0 else (find part t).map (· + 1)

variable {part a b x y t : Text} {c : Char} {n : Nat}

theorem isIn_iff : isIn part t = true ↔ part <:+: t := by
  unfold isIn
  rw [List.any_eq_true]
  constructor
  · rintro ⟨rest, hrest, hprefix⟩
    obtain ⟨behind, hbehind⟩ := List.isPrefixOf_iff_prefix.mp hprefix
    obtain ⟨front, hfront⟩ := (List.mem_tails _ _).mp hrest
    exact ⟨front, behind, by rw [List.append_assoc, hbehind, hfront]⟩
  · rintro ⟨front, behind, h⟩
    refine ⟨part ++ behind, (List.mem_tails _ _).mpr ⟨front, ?_⟩, ?_⟩
    · rw [← List.append_assoc]
      exact h
    · exact List.isPrefixOf_iff_prefix.mpr ⟨behind, rfl⟩

theorem isIn_eq_false_iff : isIn part t = false ↔ ¬part <:+: t := by
  rw [← isIn_iff, Bool.not_eq_true]

theorem find_eq_none_iff : find part t = none ↔ ¬part <:+: t := by
  induction t with
  | nil =>
    rw [find, List.infix_nil]
    split_ifs with h
    · exact iff_of_false nofun (not_not.mpr h)
    · exact iff_of_true rfl h
  | cons c t ih =>
    rw [find, List.infix_cons_iff, ← List.isPrefixOf_iff_prefix]
    split_ifs with h
    · exact iff_of_false nofun (not_not.mpr (.inl h))
    · rw [Option.map_eq_none_iff, ih, not_or]
      exact (and_iff_right h).symm

/-- Where the text is found, it stands. -/
theorem prefix_drop_of_find (h : find part t = some n) : part <+: t.drop n := by
  induction t generalizing n with
  | nil =>
    rw [find] at h
    split_ifs at h with hpart
    rw [hpart]
    exact List.nil_prefix
  | cons c t ih =>
    rw [find] at h
    split_ifs at h with hprefix
    · rw [← Option.some.inj h]
      exact List.isPrefixOf_iff_prefix.mp hprefix
    · obtain ⟨m, hm, rfl⟩ := Option.map_eq_some_iff.mp h
      exact ih hm

theorem lt_length_of_find (hne : part ≠ []) (h : find part t = some n) : n < t.length := by
  by_contra hlength
  have hdrop : t.drop n = [] := List.drop_eq_nil_iff.mpr (by omega)
  have hprefix := prefix_drop_of_find h
  rw [hdrop, List.prefix_nil] at hprefix
  exact hne hprefix

/-- An occurrence does not reach over a character that it does not contain. -/
theorem prefix_of_prefix_append_cons (hc : c ∉ part) (h : part <+: x ++ c :: t) : part <+: x := by
  by_cases hlen : part.length ≤ x.length
  · exact List.prefix_of_prefix_length_le h (List.prefix_append _ _) hlen
  · have hsplit : x ++ c :: t = (x ++ [c]) ++ t := by simp
    rw [hsplit] at h
    have hover : x ++ [c] <+: part := by
      refine List.prefix_of_prefix_length_le (List.prefix_append _ _) h ?_
      rw [List.length_append, List.length_singleton]
      omega
    exact absurd (hover.subset (by simp)) hc

theorem isPrefixOf_append_cons (hc : c ∉ part) :
    part.isPrefixOf (x ++ c :: t) = part.isPrefixOf x := by
  rw [Bool.eq_iff_iff, List.isPrefixOf_iff_prefix, List.isPrefixOf_iff_prefix]
  exact ⟨prefix_of_prefix_append_cons hc, fun h => h.trans (List.prefix_append _ _)⟩

/-- A text around a character that is not in the part is searched in two pieces. -/
theorem find_append_cons (hc : c ∉ part) (hne : part ≠ []) :
    find part (x ++ c :: t) = (find part x).or ((find part t).map fun n => n + (x.length + 1)) := by
  induction x with
  | nil =>
    have hprefix : part.isPrefixOf (c :: t) = false := by
      rw [← List.nil_append (c :: t), isPrefixOf_append_cons hc]
      cases part with
      | nil => exact absurd rfl hne
      | cons d part => rfl
    have hskip : find part (c :: t) = (find part t).map (· + 1) := by
      rw [find, hprefix, if_neg Bool.false_ne_true]
    rw [List.nil_append, hskip, find, if_neg hne]
    rfl
  | cons d x ih =>
    rw [List.cons_append, find, ← List.cons_append, isPrefixOf_append_cons hc, find]
    split_ifs with hprefix
    · rfl
    · rw [ih]
      cases find part x with
      | some n => rfl
      | none =>
        cases find part t with
        | none => rfl
        | some n => rfl

/-- A single character is found in front of it first. -/
theorem find_singleton (hc : c ∉ x) : find [c] (x ++ c :: t) = some x.length := by
  induction x with
  | nil => simp [find]
  | cons d x ih =>
    have hd : c ≠ d := List.ne_of_not_mem_cons hc
    have hx : c ∉ x := List.not_mem_of_not_mem_cons hc
    have hprefix : [c].isPrefixOf (d :: (x ++ c :: t)) = false := by
      rw [List.isPrefixOf_cons_cons, beq_eq_false_iff_ne.mpr hd, Bool.false_and]
    rw [List.cons_append, find, hprefix, if_neg Bool.false_ne_true, ih hx]
    rfl

theorem find_self (hne : part ≠ []) (t : Text) : find part (part ++ t) = some 0 := by
  obtain ⟨c, rest, rfl⟩ := List.exists_cons_of_ne_nil hne
  rw [List.cons_append, find, ← List.cons_append, if_pos]
  exact List.isPrefixOf_iff_prefix.mpr (List.prefix_append _ _)

/-- A text behind one that it does not occur in is found there, or a little before. -/
theorem find_append_self (hne : part ≠ []) (h : ¬part <:+: a) (t : Text) :
    ∃ n ≤ a.length, find part (a ++ (part ++ t)) = some n ∧ a.drop n <+: part := by
  induction a with
  | nil => exact ⟨0, le_rfl, find_self hne t, List.nil_prefix⟩
  | cons c a ih =>
    by_cases hprefix : part.isPrefixOf (c :: (a ++ (part ++ t))) = true
    · refine ⟨0, Nat.zero_le _, by rw [List.cons_append, find, if_pos hprefix], ?_⟩
      have hwhole : c :: a <+: c :: (a ++ (part ++ t)) := List.prefix_append (c :: a) _
      rcases List.prefix_or_prefix_of_prefix (List.isPrefixOf_iff_prefix.mp hprefix) hwhole with hin | hover
      · exact absurd hin.isInfix h
      · exact hover
    · obtain ⟨n, hn, hfind, hdrop⟩ := ih fun hin => h (hin.trans (List.infix_cons List.infix_rfl))
      refine ⟨n + 1, Nat.succ_le_succ hn, ?_, hdrop⟩
      rw [List.cons_append, find, if_neg hprefix, hfind]
      rfl

/-- An occurrence behind characters that are not in it. -/
theorem infix_of_infix_append (ha : ∀ c ∈ a, c ∉ part) (hne : part ≠ []) (h : part <:+: a ++ t) :
    part <:+: t := by
  induction a with
  | nil => exact h
  | cons c a ih =>
    refine ih (fun d hd => ha d (List.mem_cons_of_mem _ hd)) ?_
    rcases List.infix_cons_iff.mp h with hprefix | hinfix
    · have hnil : part <+: [] := prefix_of_prefix_append_cons (ha c List.mem_cons_self) hprefix
      exact absurd (List.prefix_nil.mp hnil) hne
    · exact hinfix

theorem infix_of_infix_append_right (hb : ∀ c ∈ b, c ∉ part) (hne : part ≠ []) (h : part <:+: t ++ b) :
    part <:+: t := by
  have hreverse : part.reverse <:+: b.reverse ++ t.reverse := by
    rw [← List.reverse_append]
    exact List.reverse_infix.mpr h
  refine List.reverse_infix.mp (infix_of_infix_append (fun c hc => ?_) (by simpa using hne) hreverse)
  rw [List.mem_reverse] at hc ⊢
  exact hb c hc

/-- White space at the ends holds no occurrence of a text without any. -/
theorem infix_strip (hpart : ∀ c ∈ part, isSpace c = false) (hne : part ≠ []) (h : part <:+: t) :
    part <:+: strip t := by
  obtain ⟨a, b, ht, ha, hb⟩ := strip_spec t
  have hspace : ∀ c, isSpace c = true → c ∉ part := by
    intro c hc hmem
    rw [hpart c hmem] at hc
    cases hc
  rw [ht] at h
  exact infix_of_infix_append_right (fun c hc => hspace c (hb c hc)) hne
    (infix_of_infix_append (fun c hc => hspace c (ha c hc)) hne h)

theorem infix_join (sep : Text) {l : Text} {ls : List Text} (h : l ∈ ls) : l <:+: join sep ls := by
  unfold join
  induction ls with
  | nil => cases h
  | cons l' ls ih =>
    by_cases hne : ls = []
    · rw [hne, List.mem_singleton] at h
      rw [hne, List.intercalate_singleton, h]
    · rw [List.intercalate_cons_of_ne_nil hne]
      rcases List.mem_cons.mp h with rfl | h
      · exact ⟨[], sep ++ sep.intercalate ls, by simp⟩
      · exact (ih h).trans ⟨l' ++ sep, [], by simp⟩

end Text
