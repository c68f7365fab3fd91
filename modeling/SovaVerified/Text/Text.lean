import Mathlib.Tactic.Common

/-!
# Texts

A text is the list of its code points. The operations are the ones of the Python `str` type that the
modelled programs use: white space, `strip`, `split` without an argument, `splitlines`, `join`, `lower`
and `upper`.
-/

/-- A text: the code points of a Python string. -/
abbrev Text := List Char

namespace Text

instance : LawfulBEq Text := inferInstance

/-- `str.isspace` for one code point; `\s` of a regular expression is the same class. -/
def isSpace (c : Char) : Bool :=
  let n := c.toNat
  (9 ≤ n && n ≤ 13) || (28 ≤ n && n ≤ 32) || n == 0x85 || n == 0xa0 || n == 0x1680 ||
    (0x2000 ≤ n && n ≤ 0x200a) || n == 0x2028 || n == 0x2029 || n == 0x202f || n == 0x205f ||
    n == 0x3000

/-- `str.strip()`: white space is dropped at both ends. -/
def strip (t : Text) : Text :=
  ((t.dropWhile isSpace).reverse.dropWhile isSpace).reverse

/-- `str.split()`: the maximal runs without white space. -/
def split (t : Text) : List Text :=
  (t.splitOnP isSpace).filter (fun w => !w.isEmpty)

/-- `sep.join(parts)`. -/
def join (sep : Text) (parts : List Text) : Text :=
  sep.intercalate parts

/-- `" ".join(t.split())`: every run of white space becomes one blank. -/
def flatten (t : Text) : Text :=
  join [' '] (split t)

/-- `str.lower()` for one code point: the ASCII letters, and of the four other letters that a
case-insensitive pattern takes for an ASCII one, the two that have a lower case of their own. -/
def lowerChar (c : Char) : Text :=
  if 'A' ≤ c ∧ c ≤ 'Z' then [Char.ofNat (c.toNat + 32)]
  else if c.toNat = 0x212a then ['k']
  else if c.toNat = 0x130 then ['i', Char.ofNat 0x307]
  else [c]

/-- `str.lower()`. -/
def lower (t : Text) : Text :=
  t.flatMap lowerChar

/-- `str.upper()` for one code point, as far as only ASCII letters come out of it. -/
def upperChar (c : Char) : Text :=
  if 'a' ≤ c ∧ c ≤ 'z' then [Char.ofNat (c.toNat - 32)]
  else
    match c.toNat with
    | 0x131 => ['I']
    | 0x17f => ['S']
    | 0xdf => ['S', 'S']
    | 0xfb00 => ['F', 'F']
    | 0xfb01 => ['F', 'I']
    | 0xfb02 => ['F', 'L']
    | 0xfb03 => ['F', 'F', 'I']
    | 0xfb04 => ['F', 'F', 'L']
    | 0xfb05 => ['S', 'T']
    | 0xfb06 => ['S', 'T']
    | _ => [c]

/-- `str.upper()`. -/
def upper (t : Text) : Text :=
  t.flatMap upperChar

/-- `t.split(sep, 1)[0]`: what stands before the first occurrence of a separator. -/
def before (sep : Text) : Text → Text
  | [] => []
  | c :: t => if sep.isPrefixOf (c :: t) then [] else c :: before sep t

/-- `t.removeprefix(front)`. -/
def withoutFront (front t : Text) : Text :=
  if front.isPrefixOf t then t.drop front.length else t

/-- `part in t`. -/
def isIn (part t : Text) : Bool :=
  t.tails.any fun rest => part.isPrefixOf rest

/-- What a file reads as in text mode: every end of a line becomes a line feed. -/
def universalNewlines : Text → Text
  | '\r' :: '\n' :: t => '\n' :: universalNewlines t
  | '\r' :: t => '\n' :: universalNewlines t
  | c :: t => c :: universalNewlines t
  | [] => []

/-- The line boundaries of `str.splitlines`. -/
def isLineBreak (c : Char) : Bool :=
  let n := c.toNat
  (10 ≤ n && n ≤ 13) || (28 ≤ n && n ≤ 30) || n == 0x85 || n == 0x2028 || n == 0x2029

/-- `str.splitlines(keepends=True)`. A carriage return in front of a line feed ends no line of its
own. -/
def splitLines : Text → List Text
  | [] => []
  | c :: t =>
    if isLineBreak c && !(c == '\r' && t.head? == some '\n') then [c] :: splitLines t
    else
      match splitLines t with
      | [] => [[c]]
      | l :: ls => (c :: l) :: ls

/-- `str.splitlines()`. -/
def lines (t : Text) : List Text :=
  (splitLines t).map fun l => (l.reverse.dropWhile isLineBreak).reverse

/-- The zeros of the decimal digits: each one is followed by the other nine digits of its script. -/
def decimalZeros : List Nat :=
  [0x30, 0x660, 0x6f0, 0x7c0, 0x966, 0x9e6, 0xa66, 0xae6, 0xb66, 0xbe6, 0xc66, 0xce6, 0xd66, 0xde6, 0xe50,
   0xed0, 0xf20, 0x1040, 0x1090, 0x17e0, 0x1810, 0x1946, 0x19d0, 0x1a80, 0x1a90, 0x1b50, 0x1bb0, 0x1c40,
   0x1c50, 0xa620, 0xa8d0, 0xa900, 0xa9d0, 0xa9f0, 0xaa50, 0xabf0, 0xff10, 0x104a0, 0x10d30, 0x11066,
   0x110f0, 0x11136, 0x111d0, 0x112f0, 0x11450, 0x114d0, 0x11650, 0x116c0, 0x11730, 0x118e0, 0x11950,
   0x11c50, 0x11d50, 0x11da0, 0x16a60, 0x16ac0, 0x16b50, 0x1d7ce, 0x1d7d8, 0x1d7e2, 0x1d7ec, 0x1d7f6,
   0x1e140, 0x1e2f0, 0x1e950, 0x1fbf0]

/-- `str.isdecimal` for one code point; `\d` of a regular expression is the same class. -/
def isDecimal (c : Char) : Bool :=
  decimalZeros.any fun first => first ≤ c.toNat && c.toNat < first + 10

/-- `str(n)` of an integer. -/
def ofInt (n : Int) : Text :=
  (toString n).toList

/-- A test of every character of a given text can be evaluated. -/
theorem forall_mem_of_all {t : Text} {test : Char → Bool} {b : Bool}
    (h : (t.all fun c => test c == b) = true) : ∀ c ∈ t, test c = b := by
  intro c hc
  simpa using List.all_eq_true.mp h c hc

theorem lower_ne_nil {t : Text} (h : t ≠ []) : lower t ≠ [] := by
  cases t with
  | nil => exact absurd rfl h
  | cons c t =>
    have hc : lowerChar c ≠ [] := by unfold lowerChar; split_ifs <;> simp
    show lowerChar c ++ lower t ≠ []
    simp [hc]

/-- `strip` takes white space away from both ends and nothing else. -/
theorem strip_spec (t : Text) : ∃ a b, t = a ++ (strip t ++ b) ∧
    (∀ c ∈ a, isSpace c = true) ∧ ∀ c ∈ b, isSpace c = true := by
  have hfront : t = t.takeWhile isSpace ++ t.dropWhile isSpace := List.takeWhile_append_dropWhile.symm
  have hback : t.dropWhile isSpace =
      strip t ++ ((t.dropWhile isSpace).reverse.takeWhile isSpace).reverse := by
    unfold strip
    rw [← List.reverse_append, List.takeWhile_append_dropWhile, List.reverse_reverse]
  refine ⟨t.takeWhile isSpace, ((t.dropWhile isSpace).reverse.takeWhile isSpace).reverse, ?_, ?_, ?_⟩
  · rw [← hback]
    exact hfront
  · intro c hc
    exact List.all_eq_true.mp List.all_takeWhile c hc
  · intro c hc
    exact List.all_eq_true.mp List.all_takeWhile c (List.mem_reverse.mp hc)

/-- Joined lines: every line but the first follows its separator. -/
theorem join_cons (sep l : Text) (ls : List Text) :
    join sep (l :: ls) = l ++ ls.flatMap (sep ++ ·) := by
  induction ls generalizing l with
  | nil => simp [join]
  | cons l' ls ih =>
    have hrec : join sep (l :: l' :: ls) = l ++ sep ++ join sep (l' :: ls) := by
      simp [join, List.intercalate]
    rw [hrec, ih l']
    simp

/-- A character of joined texts stands in one of them or in the separator. -/
theorem mem_join {sep : Text} {parts : List Text} {c : Char} (h : c ∈ join sep parts) :
    c ∈ sep ∨ ∃ p ∈ parts, c ∈ p := by
  cases parts with
  | nil => simp [join] at h
  | cons l ls =>
    rw [join_cons, List.mem_append, List.mem_flatMap] at h
    rcases h with h | ⟨l', hl', h⟩
    · exact .inr ⟨l, List.mem_cons_self .., h⟩
    · rcases List.mem_append.mp h with h | h
      · exact .inl h
      · exact .inr ⟨l', List.mem_cons_of_mem _ hl', h⟩

/-- A number is written with digits and a sign. -/
theorem mem_ofInt {n : Int} {c : Char} (h : c ∈ ofInt n) : c = '-' ∨ c.isDigit = true := by
  have hnat : ∀ m : Nat, c ∈ (toString m).toList → c.isDigit = true := by
    intro m hm
    have hrepr : (toString m).toList = Nat.toDigits 10 m := by
      show (String.ofList (Nat.toDigits 10 m)).toList = _
      exact String.toList_ofList
    rw [hrepr] at hm
    exact Nat.isDigit_of_mem_toDigits (by decide) (by decide) hm
  cases n with
  | ofNat m => exact .inr (hnat m h)
  | negSucc m =>
    have hsplit : ofInt (Int.negSucc m) = '-' :: (toString (m + 1)).toList := by
      show ("-" ++ toString (m + 1)).toList = _
      rw [String.toList_append]
      rfl
    rw [hsplit, List.mem_cons] at h
    exact h.imp_right (hnat (m + 1))

end Text
