import Mathlib.Data.Nat.Log
import SovaVerified.Assoc.Assoc
import SovaVerified.Json.Json

/-!
# Reading JSON

The reader of the `json` module: `raw_decode`, which reads one value at the front of a text and returns what
stands behind it, and `loads`. As there, numbers are read as far as they go, `NaN` and the infinities are
numbers, and a later member of an object replaces an earlier one with the same key.

Left out is the limit of the nesting. An escape of one half of a surrogate pair is refused, as a text of code
points has no place for it.
-/

namespace PyFloat

/-- The quotient, to the nearest integer and to the even one of two that are as near. -/
def nearestQuotient (m d : Nat) : Nat :=
  let q := m / d
  let r := 2 * (m % d)
  if r < d then q
  else if d < r then q + 1
  else q + q % 2

/-- The float that is nearest to a quotient of units. -/
def ofQuotient (negative : Bool) (m d : Nat) : PyFloat :=
  let shift := Nat.log2 (m / d) - 52
  let magnitude := nearestQuotient m (d * 2 ^ shift) * 2 ^ shift
  if 2 ^ 1024 * one ≤ magnitude then .infinite negative
  else .finite (if negative then -magnitude else magnitude)

/-- The float that is nearest to a decimal number: `float(t)` of a number that is written with digits. -/
def ofDecimal (negative : Bool) (digits : Nat) (exponent : Int) : PyFloat :=
  if 0 ≤ exponent then ofQuotient negative (digits * 10 ^ exponent.toNat * one) 1
  else ofQuotient negative (digits * one) (10 ^ (-exponent).toNat)

end PyFloat

namespace Json

/-- `JSONDecodeError`, which is a `ValueError`. -/
def decodeError : PyException := .other "JSONDecodeError".toList

/-- The white space of JSON. -/
def isBlank (c : Char) : Bool := c == ' ' || c == '\t' || c == '\n' || c == '\r'

def skip (t : Text) : Text := t.dropWhile isBlank

/-! ## Strings -/

/-- What stands behind a backslash for one character. -/
def escapes : List (Char × Char) :=
  [('"', '"'), ('\\', '\\'), ('/', '/'), ('b', '\x08'), ('f', '\x0c'), ('n', '\n'), ('r', '\r'), ('t', '\t')]

def hexDigit (c : Char) : Option Nat :=
  if '0' ≤ c ∧ c ≤ '9' then some (c.toNat - 48)
  else if 'a' ≤ c ∧ c ≤ 'f' then some (c.toNat - 87)
  else if 'A' ≤ c ∧ c ≤ 'F' then some (c.toNat - 55)
  else none

/-- The number that the next four characters stand for. -/
def hex4 : Text → Option Nat
  | a :: b :: c :: d :: _ => do
    let a ← hexDigit a
    let b ← hexDigit b
    let c ← hexDigit c
    let d ← hexDigit d
    pure (((a * 16 + b) * 16 + c) * 16 + d)
  | _ => none

/-- What stands behind `\u`: the character, and how many characters it is written with, the `u` included. A
character above the sixteen bits is written as a surrogate pair. -/
def unicodeEscape (t : Text) : Option (Char × Nat) := do
  let n ← hex4 t
  if 0xd800 ≤ n ∧ n ≤ 0xdbff then
    match t.drop 4 with
    | slash :: u :: t => do
      let m ← hex4 t
      if slash = '\\' ∧ u = 'u' ∧ 0xdc00 ≤ m ∧ m ≤ 0xdfff then
        pure (Char.ofNat (0x10000 + (n - 0xd800) * 0x400 + (m - 0xdc00)), 11)
      else none
    | _ => none
  else if 0xdc00 ≤ n ∧ n ≤ 0xdfff then none
  else pure (Char.ofNat n, 5)

/-- What stands behind a backslash: the character, and how many characters it is written with. -/
def escape : Text → Option (Char × Nat)
  | [] => none
  | c :: t => if c = 'u' then unicodeEscape t else (escapes.lookup c).map fun e => (e, 1)

/-- A string behind its opening quotation mark: the text, and what stands behind the closing one. The number
says how many characters of an escape are still to be passed over. -/
def scanString : Nat → Text → Except PyException (Text × Text)
  | _, [] => .error decodeError
  | pending + 1, _ :: t => scanString pending t
  | 0, c :: t =>
    if c = '"' then .ok ([], t)
    else if c = '\\' then
      match escape t with
      | none => .error decodeError
      | some (e, length) => (scanString length t).map fun r => (e :: r.1, r.2)
    else if c.toNat < 32 then .error decodeError
    else (scanString 0 t).map fun r => (c :: r.1, r.2)

/-! ## Numbers -/

def isDigit (c : Char) : Bool := '0' ≤ c && c ≤ '9'

def digitsValue (ds : Text) : Nat := ds.foldl (fun n c => 10 * n + (c.toNat - 48)) 0

structure Exponent where
  letter : Char
  sign : Text
  digits : Text
  deriving DecidableEq

/-- The parts of a number. The fraction is empty where there is none. -/
structure Numeral where
  negative : Bool
  whole : Text
  fraction : Text
  exponent : Option Exponent
  deriving DecidableEq

def scanSign : Text → Bool × Text
  | '-' :: t => (true, t)
  | t => (false, t)

/-- A zero, or the digits up to the next other character. -/
def scanWhole : Text → Text × Text
  | '0' :: t => (['0'], t)
  | t => (t.takeWhile isDigit, t.dropWhile isDigit)

def scanFraction : Text → Text × Text
  | '.' :: t =>
    if t.takeWhile isDigit = [] then ([], '.' :: t) else (t.takeWhile isDigit, t.dropWhile isDigit)
  | t => ([], t)

def scanExponentSign : Text → Text × Text
  | c :: t => if c = '+' ∨ c = '-' then ([c], t) else ([], c :: t)
  | [] => ([], [])

def scanExponent : Text → Option Exponent × Text
  | c :: t =>
    if c = 'e' ∨ c = 'E' then
      let (sign, ds) := scanExponentSign t
      if ds.takeWhile isDigit = [] then (none, c :: t)
      else (some { letter := c, sign, digits := ds.takeWhile isDigit }, ds.dropWhile isDigit)
    else (none, c :: t)
  | [] => (none, [])

/-- `_match_number_unicode`, but for the value. -/
def scanNumeral (t : Text) : Option (Numeral × Text) :=
  let (negative, t) := scanSign t
  let (whole, t) := scanWhole t
  if whole = [] then none
  else
    let (fraction, t) := scanFraction t
    let (exponent, t) := scanExponent t
    some ({ negative, whole, fraction, exponent }, t)

def Exponent.value (e : Exponent) : Int :=
  if e.sign = ['-'] then -(digitsValue e.digits : Int) else digitsValue e.digits

/-- An integer, of no more than `sys.get_int_max_str_digits()` digits, or a float. -/
def Numeral.value (l : Numeral) : Except PyException Json :=
  if l.fraction = [] ∧ l.exponent = none then
    if 4300 < l.whole.length then .error .valueError
    else .ok (.int (if l.negative then -(digitsValue l.whole : Int) else digitsValue l.whole))
  else
    let exponent := (l.exponent.map Exponent.value).getD 0
    .ok (.float (PyFloat.ofDecimal l.negative (digitsValue (l.whole ++ l.fraction))
      (exponent - l.fraction.length)))

/-! ## Values -/

def literals : List (Text × Json) :=
  [("null".toList, .null), ("true".toList, .bool true), ("false".toList, .bool false),
    ("NaN".toList, .float .nan), ("Infinity".toList, .float (.infinite false)),
    ("-Infinity".toList, .float (.infinite true))]

def scanScalar (t : Text) : Except PyException (Json × Text) :=
  match literals.find? fun l => l.1.isPrefixOf t with
  | some l => .ok (l.2, t.drop l.1.length)
  | none =>
    match scanNumeral t with
    | none => .error decodeError
    | some (l, rest) => l.value.map fun v => (v, rest)

mutual

/-- `scan_once`: the value at the front, and what stands behind it. -/
def scanOnce : Nat → Text → Except PyException (Json × Text)
  | _ + 1, '"' :: t => (scanString 0 t).map fun r => (.str r.1, r.2)
  | fuel + 1, '{' :: t =>
    match skip t with
    | '}' :: rest => .ok (.obj [], rest)
    | t => (scanMembers fuel t).map fun r => (.obj (Assoc.ofEntries r.1), r.2)
  | fuel + 1, '[' :: t =>
    match skip t with
    | ']' :: rest => .ok (.arr [], rest)
    | t => (scanItems fuel t).map fun r => (.arr r.1, r.2)
  | _ + 1, t => scanScalar t
  | 0, _ => .error decodeError

/-- The items of an array that is not empty, and what stands behind the closing bracket. -/
def scanItems : Nat → Text → Except PyException (List Json × Text)
  | fuel + 1, t => do
    let (v, rest) ← scanOnce fuel t
    match skip rest with
    | ']' :: rest => .ok ([v], rest)
    | ',' :: rest => (scanItems fuel (skip rest)).map fun r => (v :: r.1, r.2)
    | _ => .error decodeError
  | 0, _ => .error decodeError

/-- The members of an object that is not empty, and what stands behind the closing brace. -/
def scanMembers : Nat → Text → Except PyException (List (Text × Json) × Text)
  | fuel + 1, '"' :: t => do
    let (key, rest) ← scanString 0 t
    match skip rest with
    | ':' :: rest => do
      let (v, rest) ← scanOnce fuel (skip rest)
      match skip rest with
      | '}' :: rest => .ok ([(key, v)], rest)
      | ',' :: rest => (scanMembers fuel (skip rest)).map fun r => ((key, v) :: r.1, r.2)
      | _ => .error decodeError
    | _ => .error decodeError
  | _, _ => .error decodeError

end

/-- `JSONDecoder().raw_decode(t)`. A level of nesting takes two steps and at least one character. -/
def rawDecode (t : Text) : Except PyException (Json × Text) := scanOnce (2 * t.length + 1) t

/-- `json.loads(t)`. -/
def loads (t : Text) : Except PyException Json := do
  let (v, rest) ← rawDecode (skip t)
  if skip rest = [] then .ok v else .error decodeError

/-! ## Steps of the reader -/

section

attribute [local simp] scanOnce scanItems scanMembers

variable {fuel : Nat} {t rest : Text}

theorem scanOnce_array (h : ∀ rest, skip t ≠ ']' :: rest) :
    scanOnce (fuel + 1) ('[' :: t) = (scanItems fuel (skip t)).map fun r => (.arr r.1, r.2) := by
  rw [scanOnce]
  split
  · rename_i rest hrest
    exact absurd hrest (h rest)
  · rfl

theorem scanOnce_object (h : ∀ rest, skip t ≠ '}' :: rest) :
    scanOnce (fuel + 1) ('{' :: t) =
      (scanMembers fuel (skip t)).map fun r => (.obj (Assoc.ofEntries r.1), r.2) := by
  rw [scanOnce]
  split
  · rename_i rest hrest
    exact absurd hrest (h rest)
  · rfl

theorem scanOnce_scalar {c : Char} (hquote : c ≠ '"') (hbrace : c ≠ '{') (hbracket : c ≠ '[') :
    scanOnce (fuel + 1) (c :: t) = scanScalar (c :: t) := by
  rw [scanOnce]
  · rintro t' h
    exact hquote (List.cons.inj h).1
  · rintro t' h
    exact hbrace (List.cons.inj h).1
  · rintro t' h
    exact hbracket (List.cons.inj h).1

variable {v : Json} {rest' key : Text}

theorem scanItems_last (hv : scanOnce fuel t = .ok (v, rest)) (hrest : skip rest = ']' :: rest') :
    scanItems (fuel + 1) t = .ok ([v], rest') := by
  simp only [scanItems, hv, bind, Except.bind, hrest]

theorem scanItems_cons (hv : scanOnce fuel t = .ok (v, rest)) (hrest : skip rest = ',' :: rest') :
    scanItems (fuel + 1) t = (scanItems fuel (skip rest')).map fun r => (v :: r.1, r.2) := by
  simp only [scanItems, hv, bind, Except.bind, hrest]

theorem scanMembers_last {colon : Text} (hkey : scanString 0 t = .ok (key, colon))
    (hcolon : skip colon = ':' :: rest) {end' : Text} (hv : scanOnce fuel (skip rest) = .ok (v, end'))
    (hend : skip end' = '\x7d' :: rest') : scanMembers (fuel + 1) ('"' :: t) = .ok ([(key, v)], rest') := by
  simp only [scanMembers, hkey, bind, Except.bind, hcolon, hv, hend]

theorem scanMembers_cons {colon : Text} (hkey : scanString 0 t = .ok (key, colon))
    (hcolon : skip colon = ':' :: rest) {end' : Text} (hv : scanOnce fuel (skip rest) = .ok (v, end'))
    (hend : skip end' = ',' :: rest') : scanMembers (fuel + 1) ('"' :: t) =
      (scanMembers fuel (skip rest')).map fun r => ((key, v) :: r.1, r.2) := by
  simp only [scanMembers, hkey, bind, Except.bind, hcolon, hv, hend]

end

end Json

/-!
# The grammar of JSON

Which texts stand for a value, as a relation: with any white space, any escapes and any way to write a
number. A text that stands for a value is a serialisation of it. The reader of this grammar is in
`Json.Decoding`.
-/

namespace Json

def Blanks (t : Text) : Prop := ∀ c ∈ t, isBlank c = true

/-- A string behind its opening quotation mark, the closing one included. -/
inductive StringBody : Text → Text → Prop
  | close : StringBody ['"'] []
  | plain {c : Char} {t s : Text} (hquote : c ≠ '"') (hslash : c ≠ '\\') (hcontrol : 32 ≤ c.toNat)
      (h : StringBody t s) : StringBody (c :: t) (c :: s)
  | escape {e t s : Text} {c : Char} (he : Json.escape e = some (c, e.length)) (h : StringBody t s) :
      StringBody ('\\' :: (e ++ t)) (c :: s)

structure Exponent.Wellformed (e : Exponent) : Prop where
  letter : e.letter = 'e' ∨ e.letter = 'E'
  sign : e.sign = [] ∨ e.sign = ['+'] ∨ e.sign = ['-']
  nonempty : e.digits ≠ []
  digits : e.digits.all isDigit = true

def Exponent.text (e : Exponent) : Text := e.letter :: (e.sign ++ e.digits)

/-- A number has no leading zeros. -/
structure Numeral.Wellformed (l : Numeral) : Prop where
  nonempty : l.whole ≠ []
  whole : l.whole = ['0'] ∨ (l.whole.all isDigit = true ∧ l.whole.head? ≠ some '0')
  fraction : l.fraction.all isDigit = true
  exponent : ∀ e ∈ l.exponent, e.Wellformed

def signText (negative : Bool) : Text := if negative then ['-'] else []

def fractionText (fraction : Text) : Text := if fraction = [] then [] else '.' :: fraction

def exponentText (exponent : Option Exponent) : Text := (exponent.map Exponent.text).getD []

def Numeral.text (l : Numeral) : Text :=
  signText l.negative ++ (l.whole ++ (fractionText l.fraction ++ exponentText l.exponent))

mutual

/-- The text stands for the value. -/
inductive Denotes : Text → Json → Prop
  | literal {l : Text × Json} (h : l ∈ literals) : Denotes l.1 l.2
  | numeral {l : Numeral} {v : Json} (hl : l.Wellformed) (hv : l.value = .ok v) : Denotes l.text v
  | str {t s : Text} (h : StringBody t s) : Denotes ('"' :: t) (.str s)
  | noItems {front : Text} (hfront : Blanks front) : Denotes ('[' :: (front ++ [']'])) (.arr [])
  | items {front t : Text} {vs : List Json} (hfront : Blanks front) (h : DenotesItems t vs) :
      Denotes ('[' :: (front ++ t)) (.arr vs)
  | noMembers {front : Text} (hfront : Blanks front) : Denotes ('{' :: (front ++ ['}'])) (.obj [])
  | members {front t : Text} {ms : List (Text × Json)} (hfront : Blanks front)
      (h : DenotesMembers t ms) : Denotes ('{' :: (front ++ t)) (.obj (Assoc.ofEntries ms))

/-- The items of an array, the closing bracket included. -/
inductive DenotesItems : Text → List Json → Prop
  | last {t gap : Text} {v : Json} (hv : Denotes t v) (hgap : Blanks gap) :
      DenotesItems (t ++ (gap ++ [']'])) [v]
  | cons {t gap front rest : Text} {v : Json} {vs : List Json} (hv : Denotes t v) (hgap : Blanks gap)
      (hfront : Blanks front) (h : DenotesItems rest vs) :
      DenotesItems (t ++ (gap ++ ',' :: (front ++ rest))) (v :: vs)

/-- The members of an object as they are written, the closing brace included. -/
inductive DenotesMembers : Text → List (Text × Json) → Prop
  | last {k key colon front t gap : Text} {v : Json} (hkey : StringBody k key) (hcolon : Blanks colon)
      (hfront : Blanks front) (hv : Denotes t v) (hgap : Blanks gap) :
      DenotesMembers ('"' :: (k ++ (colon ++ ':' :: (front ++ (t ++ (gap ++ ['}'])))))) [(key, v)]
  | cons {k key colon front t gap front' rest : Text} {v : Json} {ms : List (Text × Json)}
      (hkey : StringBody k key) (hcolon : Blanks colon) (hfront : Blanks front) (hv : Denotes t v)
      (hgap : Blanks gap) (hfront' : Blanks front') (h : DenotesMembers rest ms) :
      DenotesMembers ('"' :: (k ++ (colon ++ ':' :: (front ++ (t ++ (gap ++ ',' :: (front' ++ rest)))))))
        ((key, v) :: ms)

end

end Json

/-!
# Writing JSON

`json.dumps` with its defaults: `", "` and `": "` between the parts, and nothing but printable ASCII in a
string. A float is written by `repr`, with the fewest digits that are read back as the same float.

A zero is written without its sign, which is left out of the values.
-/

namespace PyFloat

/-- A decimal number: `0.digits` times a power of ten. -/
structure Decimal where
  digits : Text
  point : Int

/-- The power of ten that is next above a number of units. -/
def pointOf (units : Nat) : Int :=
  if one ≤ units then Nat.log 10 (units / one) + 1
  else 1 - (Nat.clog 10 ((one + units - 1) / units) : Int)

/-- The number with so many digits that is nearest to the float, or another one next to it, if it is read as
the float. -/
def withDigits (units n : Nat) : Option Decimal :=
  let shift : Int := n - pointOf units
  let above := units * 10 ^ shift.toNat
  let below := one * 10 ^ (-shift).toNat
  let candidates := [nearestQuotient above below, above / below, above / below + 1]
  (candidates.find? fun d => ofDecimal false d (-shift) == .finite units).map fun d =>
    let digits := (toString d).toList
    { digits := digits.rdropWhile (· == '0'), point := digits.length - shift }

/-- Seventeen digits are enough for every float. -/
def shortest (units : Nat) : Decimal :=
  ((List.range' 1 17).findSome? (withDigits units)).getD { digits := ['0'], point := 1 }

/-- With an exponent, which has two digits or more. -/
def Decimal.scientific (d : Decimal) : Text :=
  let exponent := d.point - 1
  let digits := (toString exponent.natAbs).toList
  d.digits.take 1 ++ (if d.digits.length ≤ 1 then [] else '.' :: d.digits.drop 1) ++
    ['e', if exponent < 0 then '-' else '+'] ++ List.replicate (2 - digits.length) '0' ++ digits

/-- With a point between the digits, and zeros where they do not reach it. -/
def Decimal.positional (d : Decimal) : Text :=
  if d.point ≤ 0 then "0.".toList ++ List.replicate (-d.point).toNat '0' ++ d.digits
  else
    let whole := d.point.toNat
    if d.digits.length ≤ whole then
      d.digits ++ List.replicate (whole - d.digits.length) '0' ++ ".0".toList
    else d.digits.take whole ++ '.' :: d.digits.drop whole

def Decimal.text (d : Decimal) : Text :=
  if d.point ≤ -4 ∨ 16 < d.point then d.scientific else d.positional

/-- `repr(x)`, but for the names that JSON has for the other floats. -/
def text : PyFloat → Text
  | .finite units =>
    if units = 0 then "0.0".toList
    else (if units < 0 then ['-'] else []) ++ (shortest units.natAbs).text
  | .infinite negative => if negative then "-Infinity".toList else "Infinity".toList
  | .nan => "NaN".toList

end PyFloat

namespace Json

/-- Four digits, with small letters. -/
def hexText (n : Nat) : Text :=
  let digits := Nat.toDigits 16 n
  List.replicate (4 - digits.length) '0' ++ digits

/-- A character that is not printable ASCII. -/
def unicodeText (c : Char) : Text :=
  let n := c.toNat
  if n < 0x10000 then "\\u".toList ++ hexText n
  else
    let m := n - 0x10000
    "\\u".toList ++ hexText (0xd800 + m / 0x400) ++ "\\u".toList ++ hexText (0xdc00 + m % 0x400)

/-- The characters that a letter stands for behind a backslash. -/
def shortEscapes : List (Char × Char) :=
  [('\\', '\\'), ('"', '"'), ('\x08', 'b'), ('\x0c', 'f'), ('\n', 'n'), ('\r', 'r'), ('\t', 't')]

def charText (c : Char) : Text :=
  match shortEscapes.lookup c with
  | some e => ['\\', e]
  | none => if ' ' ≤ c ∧ c ≤ '~' then [c] else unicodeText c

def strText (s : Text) : Text := '"' :: (s.flatMap charText ++ ['"'])

mutual

/-- `json.dumps(value)`. -/
def dumps : Json → Text
  | .null => "null".toList
  | .bool b => if b then "true".toList else "false".toList
  | .int n => Text.ofInt n
  | .float x => x.text
  | .str s => strText s
  | .arr items => '[' :: (Text.join ", ".toList (dumpsItems items) ++ [']'])
  | .obj members => '{' :: (Text.join ", ".toList (dumpsMembers members) ++ ['}'])

def dumpsItems : List Json → List Text
  | [] => []
  | item :: items => dumps item :: dumpsItems items

def dumpsMembers : List (Text × Json) → List Text
  | [] => []
  | (key, value) :: members => (strText key ++ ": ".toList ++ dumps value) :: dumpsMembers members

end

end Json
