import SovaVerified.Text.Reading
import SovaVerified.Text.Text

/-!
# Regular expressions with priorities

The fragment of Python's `re` that the modelled programs use: character classes, greedy repetition of
a class, concatenation, ordered alternatives and capture groups. `run` is the backtracking matcher;
it tries the choices in the order Python does, so that the groups of the first match are the ones
`re.search` reports. `Matches` is the language of an expression, without priorities.
-/

/-- A regular expression. -/
inductive Regex where
  /-- The empty text. -/
  | eps
  /-- One character of a class. -/
  | chr (p : Char → Bool)
  /-- `p{lo,hi}`, greedy; no upper bound when `hi` is `none`. -/
  | rep (lo : Nat) (hi : Option Nat) (p : Char → Bool)
  /-- Concatenation. -/
  | seq (r s : Regex)
  /-- `r|s`: `s` is tried only when `r` fails. -/
  | alt (r s : Regex)
  /-- The capture group number `i`. -/
  | cap (i : Nat) (r : Regex)

namespace Regex

/-- The texts captured so far, latest first. -/
abbrev Groups := List (Nat × Text)

/-- `m.group(i)`. -/
def Groups.get (g : Groups) (i : Nat) : Option Text :=
  g.lookup i

/-- Tries `k n`, `k (n - 1)`, ... down to `k lo`. -/
def backoff {α : Type} (k : Nat → Option α) (lo : Nat) : Nat → Option α
  | 0 => if lo = 0 then k 0 else none
  | n + 1 => if n + 1 < lo then none else (k (n + 1)).or (backoff k lo n)

/-- The largest number of characters that `p{lo,hi}` can take from the front of `t`. -/
def reach (hi : Option Nat) (p : Char → Bool) (t : Text) : Nat :=
  match hi with
  | none => (t.takeWhile p).length
  | some h => min h (t.takeWhile p).length

/-- The backtracking matcher: matches a prefix of `t` and hands the rest to `k`. -/
def run {α : Type} : Regex → Text → Groups → (Text → Groups → Option α) → Option α
  | .eps, t, g, k => k t g
  | .chr _, [], _, _ => none
  | .chr p, c :: t, g, k => if p c then k t g else none
  | .rep lo hi p, t, g, k => backoff (fun n => k (t.drop n) g) lo (reach hi p t)
  | .seq r s, t, g, k => run r t g (fun t' g' => run s t' g' k)
  | .alt r s, t, g, k => (run r t g k).or (run s t g k)
  | .cap i r, t, g, k => run r t g (fun t' g' => k t' ((i, t.take (t.length - t'.length)) :: g'))

/-- `re.match`: the groups of the first match at the start of `t`. -/
def matchPrefix (r : Regex) (t : Text) : Option Groups :=
  run r t [] (fun _ g => some g)

/-- `re.search`: the groups of the leftmost match in `t`. -/
def search (r : Regex) : Text → Option Groups
  | [] => matchPrefix r []
  | c :: t => (matchPrefix r (c :: t)).or (search r t)

/-- `re.match` of an expression that ends in `$`: the end of the text, or its last line feed. -/
def matchLine (r : Regex) (t : Text) : Option Groups :=
  run r t [] fun rest g => if rest = [] ∨ rest = ['\n'] then some g else none

/-- `re.match`, and what stands behind the match. -/
def matchRest (r : Regex) (t : Text) : Option (Groups × Text) :=
  run r t [] fun rest g => some (g, rest)

/-- `re.search` of an expression that goes on with `k`. -/
def searchWith {α : Type} (r : Regex) (k : Text → Groups → Option α) : Text → Option α
  | [] => run r [] [] k
  | c :: t => (run r (c :: t) [] k).or (searchWith r k t)

/-- What stands behind each line feed. -/
def afterBreaks : Text → List Text
  | [] => []
  | c :: t => if c = '\n' then t :: afterBreaks t else afterBreaks t

/-- Where `^` matches with `re.MULTILINE`: the text from the beginning of each line on. -/
def lineStarts (t : Text) : List Text := t :: afterBreaks t

/-- `$` with `re.MULTILINE`. -/
def endsLine (rest : Text) : Bool := rest.head?.all (· == '\n')

/-- A match of an expression up to the end of a line: the groups, and what stands behind the match. -/
def matchToLineEnd (r : Regex) (t : Text) : Option (Groups × Text) :=
  run r t [] fun rest g => if endsLine rest then some (g, rest) else none

/-- `re.search` with `re.MULTILINE` of an expression between `^` and `$`. -/
def searchLines (r : Regex) (t : Text) : Option (Groups × Text) := (lineStarts t).findSome? (matchToLineEnd r)

/-- The same search: the text from the beginning of the match on, and what stands behind the match. -/
def searchLineSpan (r : Regex) (t : Text) : Option (Text × Text) :=
  (lineStarts t).findSome? fun s => (matchToLineEnd r s).map fun m => (s, m.2)

/-- `re.search` with `re.MULTILINE` of an expression behind `^`: the text from the match on. -/
def searchLineStart (r : Regex) (t : Text) : Option Text :=
  (lineStarts t).find? fun s => (matchPrefix r s).isSome

/-- `re.fullmatch` as a test. -/
def fullMatch (r : Regex) (t : Text) : Bool :=
  (run r t [] (fun t' g => if t' = [] then some g else none)).isSome

/-- The language of an expression. -/
def Matches : Regex → Text → Prop
  | .eps, u => u = []
  | .chr p, u => ∃ c, p c = true ∧ u = [c]
  | .rep lo hi p, u => lo ≤ u.length ∧ (∀ h ∈ hi, u.length ≤ h) ∧ ∀ c ∈ u, p c = true
  | .seq r s, u => ∃ v w, u = v ++ w ∧ Matches r v ∧ Matches s w
  | .alt r s, u => Matches r u ∨ Matches s u
  | .cap _ r, u => Matches r u

/-! ## Which characters a match can consist of -/

/-- The expression matches the empty text. -/
def nullable : Regex → Bool
  | .eps => true
  | .chr _ => false
  | .rep lo _ _ => lo == 0
  | .seq r s => nullable r && nullable s
  | .alt r s => nullable r || nullable s
  | .cap _ r => nullable r

/-- The character can occur in a match. -/
def uses : Regex → Char → Bool
  | .eps, _ => false
  | .chr p, c => p c
  | .rep _ _ p, c => p c
  | .seq r s, c => uses r c || uses s c
  | .alt r s, c => uses r c || uses s c
  | .cap _ r, c => uses r c

/-- The character can be the first one of a match. -/
def starts : Regex → Char → Bool
  | .eps, _ => false
  | .chr p, c => p c
  | .rep _ _ p, c => p c
  | .seq r s, c => starts r c || (nullable r && starts s c)
  | .alt r s, c => starts r c || starts s c
  | .cap _ r, c => starts r c

/-- The character can be the last one of a match. -/
def ends : Regex → Char → Bool
  | .eps, _ => false
  | .chr p, c => p c
  | .rep _ _ p, c => p c
  | .seq r s, c => ends s c || (nullable s && ends r c)
  | .alt r s, c => ends r c || ends s c
  | .cap _ r, c => ends r c

/-- The two characters can stand next to each other in a match. -/
def follows : Regex → Char → Char → Bool
  | .eps, _, _ => false
  | .chr _, _, _ => false
  | .rep _ _ p, c, d => p c && p d
  | .seq r s, c, d => follows r c d || follows s c d || (ends r c && starts s d)
  | .alt r s, c, d => follows r c d || follows s c d
  | .cap _ r, c, d => follows r c d

/-- The groups of an expression, with what they capture. -/
def captures : Regex → List (Nat × Regex)
  | .eps => []
  | .chr _ => []
  | .rep _ _ _ => []
  | .seq r s => captures r ++ captures s
  | .alt r s => captures r ++ captures s
  | .cap i r => (i, r) :: captures r

/-- No match reaches over the word `w`, on either side of which the search can go on by itself. -/
def Blocks (r : Regex) (w : Text) : Prop :=
  ∀ a b, (search r (a ++ (w ++ b))).isSome ↔ (search r a).isSome ∨ (search r b).isSome

/-! ## Building expressions -/

/-- `re.IGNORECASE` for one pattern character: its case, and the other letters that fold to it. -/
def foldEq (c x : Char) : Bool :=
  x == c || x.toLower == c || (c == 'i' && (x.toNat == 0x130 || x.toNat == 0x131)) ||
    (c == 's' && x.toNat == 0x17f) || (c == 'k' && x.toNat == 0x212a)

/-- A literal, without regard to case. -/
def lit (s : String) : Regex :=
  s.toList.foldr (fun c r => .seq (.chr (foldEq c)) r) .eps

/-- A literal, with regard to case. -/
def exact (s : String) : Regex :=
  s.toList.foldr (fun c r => .seq (.chr (· == c)) r) .eps

/-- A text as a literal, with or without regard to case. A pattern without regard to case is given in
capital or small letters of ASCII. -/
def escape (ignoreCase : Bool) (t : Text) : Regex :=
  t.foldr (fun c r => .seq (.chr (if ignoreCase then foldEq c.toLower else (· == c))) r) .eps

/-- `\s*`. -/
def spaces : Regex := .rep 0 none Text.isSpace

/-- `\s+`. -/
def spaces1 : Regex := .rep 1 none Text.isSpace

/-- `(?:r)?`. -/
def opt (r : Regex) : Regex := .alt r .eps

/-- Concatenation of several expressions. -/
def cat (rs : List Regex) : Regex := rs.foldr .seq .eps

end Regex

/-!
# All matches of a text

`re.finditer` and `re.sub`: the matches from left to right, the next one looked for behind the last. A matcher is
told the character in front of the text, which `\b` asks for, and tells how many characters it takes: at least
one.
-/

namespace Regex

/-- What is found at the beginning of a text, and the number of characters that it takes. -/
abbrev Matcher (β : Type) := Option Char → Text → Option (β × Nat)

variable {β : Type}

/-- `re.finditer`. The number counts the characters that the last match goes on to take. -/
def findAll (m : Matcher β) : Option Char → Nat → Text → List β
  | _, _, [] => []
  | _, k + 1, c :: t => findAll m (some c) k t
  | prev, 0, c :: t =>
    match m prev (c :: t) with
    | some (x, n) => x :: findAll m (some c) (n - 1) t
    | none => findAll m (some c) 0 t

/-- `re.sub`, where the matcher finds what is written instead of the match. -/
def subAll (m : Matcher Text) : Option Char → Nat → Text → Text
  | _, _, [] => []
  | _, k + 1, c :: t => subAll m (some c) k t
  | prev, 0, c :: t =>
    match m prev (c :: t) with
    | some (written, n) => written ++ subAll m (some c) (n - 1) t
    | none => c :: subAll m (some c) 0 t

/-- `re.sub` with `count=1`, for an expression that does not match the empty text. -/
def replaceFirst (r : Regex) (written : Text) : Text → Text
  | [] => []
  | c :: t =>
    match matchRest r (c :: t) with
    | some (_, rest) => written ++ rest
    | none => c :: replaceFirst r written t

/-- Where the first match begins: the text from there on. -/
def firstPlace (r : Regex) (t : Text) : Option Text := t.tails.find? fun s => (matchRest r s).isSome

/-- `re.search` as a test of every place. -/
def anyPlace (test : Option Char → Text → Bool) : Option Char → Text → Bool
  | prev, [] => test prev []
  | prev, c :: t => test prev (c :: t) || anyPlace test (some c) t

/-- The matcher of an expression, where a test of the place allows it. -/
def matcher (guard : Option Char → Text → Bool) (r : Regex) : Matcher Groups := fun prev t =>
  if guard prev t then (matchRest r t).map fun m => (m.1, t.length - m.2.length) else none

/-- The matcher of an expression between a test of where it begins and one of where it ends, for `re.sub`. Both
tests are told the characters on the two sides of the place. -/
def rewriter (start stop : Option Char → Option Char → Bool) (r : Regex) (write : Groups → Text) :
    Matcher Text :=
  fun prev t =>
    if start prev t.head? then
      run r t [] fun rest g =>
        if stop (t.take (t.length - rest.length)).getLast? rest.head? then
          some (write g, t.length - rest.length)
        else none
    else none

/-- `\b` between two characters. -/
def isBoundary (A : Text.Alphabet) (a b : Option Char) : Bool := a.any A.isWord != b.any A.isWord

/-- The character can be in a match, but for its beginning. -/
def inner : Regex → Char → Bool
  | .eps, _ => false
  | .chr _, _ => false
  | .rep _ _ p, c => p c
  | .seq r s, c => inner r c || inner s c || starts s c
  | .alt r s, c => inner r c || inner s c
  | .cap _ r, c => inner r c

end Regex
