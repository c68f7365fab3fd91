import Mathlib.Algebra.Ring.Nat
import SovaVerified.Text.Text

/-!
# SHA-256

`hashlib.sha256(data).hexdigest()`: messages are lists of bytes, words have 32 bits, and the digest is written
in small hexadecimal digits.
-/

namespace Sha256

abbrev Word := BitVec 32

/-- The round constants. -/
def constants : List Word :=
  [0x428a2f98, 0x71374491, 0xb5c0fbcf, 0xe9b5dba5, 0x3956c25b, 0x59f111f1, 0x923f82a4, 0xab1c5ed5,
   0xd807aa98, 0x12835b01, 0x243185be, 0x550c7dc3, 0x72be5d74, 0x80deb1fe, 0x9bdc06a7, 0xc19bf174,
   0xe49b69c1, 0xefbe4786, 0x0fc19dc6, 0x240ca1cc, 0x2de92c6f, 0x4a7484aa, 0x5cb0a9dc, 0x76f988da,
   0x983e5152, 0xa831c66d, 0xb00327c8, 0xbf597fc7, 0xc6e00bf3, 0xd5a79147, 0x06ca6351, 0x14292967,
   0x27b70a85, 0x2e1b2138, 0x4d2c6dfc, 0x53380d13, 0x650a7354, 0x766a0abb, 0x81c2c92e, 0x92722c85,
   0xa2bfe8a1, 0xa81a664b, 0xc24b8b70, 0xc76c51a3, 0xd192e819, 0xd6990624, 0xf40e3585, 0x106aa070,
   0x19a4c116, 0x1e376c08, 0x2748774c, 0x34b0bcb5, 0x391c0cb3, 0x4ed8aa4a, 0x5b9cca4f, 0x682e6ff3,
   0x748f82ee, 0x78a5636f, 0x84c87814, 0x8cc70208, 0x90befffa, 0xa4506ceb, 0xbef9a3f7, 0xc67178f2]

/-- The chaining value. -/
structure State where
  a : Word
  b : Word
  c : Word
  d : Word
  e : Word
  f : Word
  g : Word
  h : Word

def initial : State where
  a := 0x6a09e667
  b := 0xbb67ae85
  c := 0x3c6ef372
  d := 0xa54ff53a
  e := 0x510e527f
  f := 0x9b05688c
  g := 0x1f83d9ab
  h := 0x5be0cd19

def State.words (s : State) : List Word := [s.a, s.b, s.c, s.d, s.e, s.f, s.g, s.h]

/-! ## Blocks -/

/-- A number in `n` bytes, the most significant first. -/
def bigEndian (n value : Nat) : List Nat := (List.range n).reverse.map fun i => value / 256 ^ i % 256

/-- The message with its padding, a multiple of 64 bytes. -/
def padded (message : List Nat) : List Nat :=
  message ++ 0x80 :: List.replicate ((119 - message.length % 64) % 64) 0 ++ bigEndian 8 (8 * message.length)

/-- The words of a list of bytes. -/
def wordsOf : List Nat → List Word
  | x :: y :: z :: w :: rest => BitVec.ofNat 32 (((x * 256 + y) * 256 + z) * 256 + w) :: wordsOf rest
  | _ => []

def rotr (x : Word) (n : Nat) : Word := x.rotateRight n

/-- The message schedule, the newest word first. -/
def extended : Nat → List Word → List Word
  | 0, words => words
  | n + 1, words =>
    let w2 := words.getD 1 0
    let w7 := words.getD 6 0
    let w15 := words.getD 14 0
    let w16 := words.getD 15 0
    let s0 := rotr w15 7 ^^^ rotr w15 18 ^^^ (w15 >>> 3)
    let s1 := rotr w2 17 ^^^ rotr w2 19 ^^^ (w2 >>> 10)
    extended n ((w16 + s0 + w7 + s1) :: words)

def schedule (block : List Word) : List Word := (extended 48 block.reverse).reverse

/-! ## Compression -/

def round (s : State) (kw : Word × Word) : State :=
  let s1 := rotr s.e 6 ^^^ rotr s.e 11 ^^^ rotr s.e 25
  let ch := (s.e &&& s.f) ^^^ (~~~s.e &&& s.g)
  let temp1 := s.h + s1 + ch + kw.1 + kw.2
  let s0 := rotr s.a 2 ^^^ rotr s.a 13 ^^^ rotr s.a 22
  let maj := (s.a &&& s.b) ^^^ (s.a &&& s.c) ^^^ (s.b &&& s.c)
  { a := temp1 + (s0 + maj), b := s.a, c := s.b, d := s.c, e := s.d + temp1, f := s.e, g := s.f, h := s.g }

def State.add (s t : State) : State where
  a := s.a + t.a
  b := s.b + t.b
  c := s.c + t.c
  d := s.d + t.d
  e := s.e + t.e
  f := s.f + t.f
  g := s.g + t.g
  h := s.h + t.h

def compress (s : State) (block : List Word) : State := s.add ((constants.zip (schedule block)).foldl round s)

/-- The blocks of sixteen words; the number bounds how many there are. -/
def blocks : Nat → List Word → List (List Word)
  | 0, _ => []
  | n + 1, words => if words = [] then [] else words.take 16 :: blocks n (words.drop 16)

def digest (message : List Nat) : State :=
  let words := wordsOf (padded message)
  (blocks words.length words).foldl compress initial

/-! ## Hexadecimal digits -/

def hexDigit (n : Nat) : Char := "0123456789abcdef".toList.getD n '0'

def hexWord (w : Word) : Text := (List.range 8).reverse.map fun i => hexDigit (w.toNat / 16 ^ i % 16)

def hexdigest (message : List Nat) : Text := (digest message).words.flatMap hexWord

/-- `t.encode()`. -/
def encode (t : Text) : List Nat := t.flatMap fun c => (String.utf8EncodeChar c).map (·.toNat)

/-- A small hexadecimal digit. -/
def isHex (c : Char) : Bool := ('0' ≤ c && c ≤ '9') || ('a' ≤ c && c ≤ 'f')

theorem isHex_hexDigit (n : Nat) : isHex (hexDigit n) = true := by
  unfold hexDigit
  rw [List.getD_eq_getElem?_getD]
  have hall : ∀ c ∈ "0123456789abcdef".toList, isHex c = true := Text.forall_mem_of_all (by decide +kernel)
  cases hget : "0123456789abcdef".toList[n]? with
  | none => decide
  | some c => exact hall c (List.mem_of_getElem? hget)

theorem length_hexdigest (message : List Nat) : (hexdigest message).length = 64 := by
  simp [hexdigest, State.words, hexWord]

theorem isHex_of_mem_hexdigest {message : List Nat} {c : Char} (h : c ∈ hexdigest message) :
    isHex c = true := by
  obtain ⟨w, -, hc⟩ := List.mem_flatMap.mp h
  obtain ⟨i, -, rfl⟩ := List.mem_map.mp hc
  exact isHex_hexDigit _

example : hexdigest (encode "abc".toList) =
    "ba7816bf8f01cfea414140de5dae2223b00361a396177a9cb410ff61f20015ad".toList := by
  decide +kernel

end Sha256
