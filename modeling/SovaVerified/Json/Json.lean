import Mathlib.Algebra.Ring.Nat
import Mathlib.Data.List.Sort
import SovaVerified.Exceptions.Exceptions
import SovaVerified.Text.Reading

/-!
# Values out of JSON

A text of JSON is read into an untyped value, and what a program does with such a value is to compare it
with `==`, to subtract it from another one and to call `int` on it. The last two raise on most values.

A float is a multiple of the smallest subnormal number, `2 ^ -1074`, so that the arithmetic on floats is
exact arithmetic on integers followed by a rounding.
-/

/-- A float. There is one zero: nothing but its text tells whether it has a sign, which is left out. -/
inductive PyFloat where
  | finite (units : Int)
  | infinite (negative : Bool)
  | nan
  deriving DecidableEq

namespace PyFloat

/-- How many units make a one. -/
def one : Nat := 2 ^ 1074

/-- Division by a power of two, to the nearest integer and to the even one of two that are as near. -/
def nearest (m : Nat) (shift : Nat) : Nat :=
  let q := m / 2 ^ shift
  let r := 2 * (m % 2 ^ shift)
  if r < 2 ^ shift then q
  else if 2 ^ shift < r then q + 1
  else q + q % 2

/-- The magnitude of a number of units, with 53 significant bits. -/
def roundMagnitude (m : Nat) : Nat :=
  let shift := Nat.log2 m - 52
  nearest m shift * 2 ^ shift

/-- The float that is nearest to a number of units. -/
def round (units : Int) : PyFloat :=
  let m := roundMagnitude units.natAbs
  if 2 ^ 1024 * one ≤ m then .infinite (units < 0)
  else .finite (units.sign * m)

def isFinite : PyFloat → Bool
  | .finite _ => true
  | _ => false

/-- `float(n)`. -/
def ofInt (n : Int) : Except PyException PyFloat :=
  let x := round (n * one)
  if x.isFinite then .ok x else .error (.other "OverflowError".toList)

/-- An integer that is too large for a float. -/
def tooLarge (n : Int) : Bool := !(round (n * one)).isFinite

/-- `a - b`. -/
def sub : PyFloat → PyFloat → PyFloat
  | .finite a, .finite b => round (a - b)
  | .finite _, .infinite negative => .infinite (!negative)
  | .infinite negative, .finite _ => .infinite negative
  | .infinite a, .infinite b => if a = b then .nan else .infinite a
  | _, _ => .nan

/-- `abs(a) <= n`. -/
def absLe (n : Nat) : PyFloat → Bool
  | .finite a => a.natAbs ≤ n * one
  | _ => false

end PyFloat

/-- A value that `json.loads` returns. The members of an object have different keys, as a later one
replaces an earlier one. -/
inductive Json where
  | null
  | bool (b : Bool)
  | int (n : Int)
  | float (x : PyFloat)
  | str (t : Text)
  | arr (items : List Json)
  | obj (members : List (Text × Json))

namespace Json

/-! ## Equality -/

/-- A piece of the form in which values are compared. -/
inductive Token where
  | null
  | number (units : Int)
  | infinite (negative : Bool)
  | nan
  | str (t : Text)
  | key (t : Text)
  | openArray
  | closeArray
  | openObject
  | closeObject
  deriving DecidableEq

/-- The order of texts by their code points. -/
def beforeText (s t : Text) : Bool :=
  t.lex s (fun x y => x.toNat < y.toNat) = false

mutual

/-- The form in which values are compared: numbers by their value, whatever their type, and objects
without the order of their members. -/
def form : Json → List Token
  | .null => [.null]
  | .bool b => [.number (b.toNat * PyFloat.one)]
  | .int n => [.number (n * PyFloat.one)]
  | .float (.finite units) => [.number units]
  | .float (.infinite negative) => [.infinite negative]
  | .float .nan => [.nan]
  | .str t => [.str t]
  | .arr items => .openArray :: formItems items ++ [.closeArray]
  | .obj members =>
    let sorted := (formMembers members).insertionSort fun a b => beforeText a.1 b.1
    .openObject :: sorted.flatMap (fun m => .key m.1 :: m.2) ++ [.closeObject]

def formItems : List Json → List Token
  | [] => []
  | item :: items => form item ++ formItems items

def formMembers : List (Text × Json) → List (Text × List Token)
  | [] => []
  | (key, value) :: members => (key, form value) :: formMembers members

end

/-- `a == b`. A NaN is equal to nothing, but inside an array or an object it is found to be the same, as
the reader of JSON has only one. -/
def eq (a b : Json) : Bool := form a = form b && form a ≠ [.nan]

theorem eq_iff {a b : Json} : eq a b = true ↔ form a = form b ∧ form a ≠ [.nan] := by
  unfold eq
  rw [Bool.and_eq_true, decide_eq_true_iff, decide_eq_true_iff]

theorem eq_symm {a b : Json} (h : eq a b = true) : eq b a = true := by
  obtain ⟨heq, hnan⟩ := eq_iff.mp h
  refine eq_iff.mpr ⟨heq.symm, ?_⟩
  rwa [← heq]

theorem eq_trans {a b c : Json} (hab : eq a b = true) (hbc : eq b c = true) : eq a c = true := by
  obtain ⟨hab, hnan⟩ := eq_iff.mp hab
  exact eq_iff.mpr ⟨hab.trans (eq_iff.mp hbc).1, hnan⟩

/-! ## Numbers -/

/-- A number: an integer or a float. -/
inductive Number where
  | int (n : Int)
  | float (x : PyFloat)

namespace Number

def isFloat : Number → Bool
  | .int _ => false
  | .float _ => true

/-- An integer that is too large for a float. -/
def isHuge : Number → Bool
  | .int n => PyFloat.tooLarge n
  | .float _ => false

/-- `abs(d) <= n`. -/
def absLe (n : Nat) : Number → Bool
  | .int m => m.natAbs ≤ n
  | .float x => x.absLe n

/-- `a - b`. Between an integer and a float, the integer is made a float first. -/
def sub : Number → Number → Except PyException Number
  | .int m, .int n => .ok (.int (m - n))
  | .int m, .float y => (PyFloat.ofInt m).map fun x => .float (x.sub y)
  | .float x, .int n => (PyFloat.ofInt n).map fun y => .float (x.sub y)
  | .float x, .float y => .ok (.float (x.sub y))

/-- One of the numbers is a float, and the other one an integer that is too large for a float. -/
def Overflows (a b : Number) : Prop :=
  (a.isHuge = true ∧ b.isFloat = true) ∨ (a.isFloat = true ∧ b.isHuge = true)

theorem Overflows.symm {a b : Number} (h : Overflows a b) : Overflows b a := by
  rcases h with ⟨ha, hb⟩ | ⟨ha, hb⟩
  · exact .inr ⟨hb, ha⟩
  · exact .inl ⟨hb, ha⟩

theorem returns_ofInt_iff {n : Int} :
    Exceptions.Returns (PyFloat.ofInt n) ↔ PyFloat.tooLarge n = false := by
  unfold PyFloat.ofInt PyFloat.tooLarge
  dsimp only
  cases (PyFloat.round (n * PyFloat.one)).isFinite with
  | true =>
    rw [if_pos rfl]
    exact iff_of_true (Exceptions.returns_ok _) rfl
  | false =>
    rw [if_neg Bool.false_ne_true]
    exact iff_of_false (Exceptions.not_returns_error _) (by simp)

theorem returns_sub_iff {a b : Number} : Exceptions.Returns (a.sub b) ↔ ¬Overflows a b := by
  unfold Overflows
  cases a with
  | int m =>
    cases b with
    | int n => simpa [sub, isFloat] using Exceptions.returns_ok _
    | float y => simp [sub, isFloat, isHuge, Exceptions.returns_map_iff, returns_ofInt_iff]
  | float x =>
    cases b with
    | int n => simp [sub, isFloat, isHuge, Exceptions.returns_map_iff, returns_ofInt_iff]
    | float y => simpa [sub, isHuge] using Exceptions.returns_ok _

end Number

/-- A value of a numeric type; `bool` is one. -/
def asNumber : Json → Option Number
  | .bool b => some (.int b.toNat)
  | .int n => some (.int n)
  | .float x => some (.float x)
  | _ => none

/-- `a - b`. -/
def sub (a b : Json) : Except PyException Number :=
  match a.asNumber, b.asNumber with
  | some m, some n => m.sub n
  | _, _ => .error .typeError

def IsNumber (a : Json) : Prop := ∃ m, a.asNumber = some m

/-- Two values that can be subtracted. -/
def Subtractable (a b : Json) : Prop :=
  ∃ m n, a.asNumber = some m ∧ b.asNumber = some n ∧ ¬Number.Overflows m n

theorem Subtractable.symm {a b : Json} (h : Subtractable a b) : Subtractable b a := by
  obtain ⟨m, n, ha, hb, hover⟩ := h
  exact ⟨n, m, hb, ha, fun h => hover h.symm⟩

theorem returns_sub_iff {a b : Json} : Exceptions.Returns (sub a b) ↔ Subtractable a b := by
  unfold sub Subtractable
  cases ha : a.asNumber with
  | none => simpa using Exceptions.not_returns_error _
  | some m =>
    cases hb : b.asNumber with
    | none => simpa using Exceptions.not_returns_error _
    | some n => simp [Number.returns_sub_iff]

/-- The digits of a number: single underscores may stand between them, and there are not more than
`sys.get_int_max_str_digits()`. -/
def digits (t : Text) : Option Nat := do
  let parts := t.splitOn '_'
  if parts.any List.isEmpty then none
  else
    let ds ← parts.flatten.mapM Text.digitOf
    if 4300 < ds.length then none else some (ds.foldl (fun n d => 10 * n + d) 0)

/-- `int(t)` of a text; `none` is a `ValueError`. -/
def intOfText (t : Text) : Option Int :=
  match Text.strip t with
  | '+' :: ds => (digits ds).map Int.ofNat
  | '-' :: ds => (digits ds).map fun n => -(n : Int)
  | ds => (digits ds).map Int.ofNat

/-- `int(value)`. -/
def toInt : Json → Except PyException Int
  | .null => .error .typeError
  | .bool b => .ok b.toNat
  | .int n => .ok n
  | .float (.finite units) => .ok (units.tdiv PyFloat.one)
  | .float (.infinite _) => .error (.other "OverflowError".toList)
  | .float .nan => .error .valueError
  | .str t =>
    match intOfText t with
    | some n => .ok n
    | none => .error .valueError
  | .arr _ => .error .typeError
  | .obj _ => .error .typeError

/-- An infinite float. -/
def isInfinite : Json → Bool
  | .float (.infinite _) => true
  | _ => false

/-- `int` raises nothing but a `TypeError` or a `ValueError`, unless the value is infinite. -/
theorem escapes_toInt_iff {a : Json} :
    Exceptions.Escapes (fun e => e == .typeError || e == .valueError) a.toInt ↔ a.isInfinite = true := by
  cases a with
  | str t =>
    cases h : intOfText t with
    | none => simp [Exceptions.Escapes, toInt, isInfinite, h]
    | some n => simp [Exceptions.Escapes, toInt, isInfinite, h]
  | float x =>
    cases x with
    | finite units => exact iff_of_false (Exceptions.not_escapes_ok _) Bool.false_ne_true
    | infinite negative => exact iff_of_true ⟨_, rfl, rfl⟩ rfl
    | nan =>
      refine iff_of_false ?_ Bool.false_ne_true
      rintro ⟨e, h, hcaught⟩
      cases h
      cases hcaught
  | _ => simp [Exceptions.Escapes, toInt, isInfinite]

end Json
