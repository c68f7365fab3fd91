import Mathlib.Tactic.FinCases
import SovaVerified.Llm.Egress
import SovaVerified.Regex.Proofs.SubProofs
import SovaVerified.Text.LineLists

/-!
# Lines that the egress filter leaves

A line in which no pattern finds anything stays where it is, whatever is written in front of it and behind it,
as long as no match can go on to it from the line before. So the filter replaces the first line of a private key
and leaves the key.
-/

namespace Llm.Egress

open Regex

variable {A : Text.Alphabet} {p : Pattern} {l a b s u : Text} {c x : Char}

/-! ## The patterns -/

/-- No character of a word is a line feed. -/
theorem isWord_newline (A : Text.Alphabet) : A.isWord '\n' = false := by
  unfold Text.Alphabet.isWord
  rw [A.not_space '\n' (by decide)]
  rfl

theorem nullable_eq_false (hp : p ∈ sensitivePatterns A) : p.regex.nullable = false := by
  fin_cases hp <;> rfl

theorem starts_newline (hp : p ∈ sensitivePatterns A) : p.regex.starts '\n' = false := by
  fin_cases hp <;> rfl

/-- A match is not empty. -/
theorem ne_nil_of_matches (hp : p ∈ sensitivePatterns A) (hu : Matches p.regex u) : u ≠ [] := by
  intro hnil
  have hnull := hu.nullable hnil
  rw [nullable_eq_false hp] at hnull
  cases hnull

theorem ends_connectionString (h : connectionString.regex.ends c = true) : c = '@' := by
  have hends : connectionString.regex.ends c = (c == '@') := by
    unfold connectionString
    simp [Regex.ends, Regex.nullable]
  rw [hends] at h
  exact beq_iff_eq.mp h

/-- What stands between the brackets of a replacement. -/
def Pattern.label (p : Pattern) : Text := p.replacement.tail.dropLast

theorem replacement_eq (hp : p ∈ sensitivePatterns A) (hconn : p ≠ connectionString) :
    p.replacement = '[' :: (p.label ++ [']']) := by
  fin_cases hp
  case «11» => exact absurd rfl hconn
  all_goals rfl

theorem write_eq (hp : p ∈ sensitivePatterns A) (hconn : p ≠ connectionString) (g : Groups) :
    p.write g = '[' :: (p.label ++ [']']) := by
  have hcategory : p.category ≠ "connection_string".toList := by
    fin_cases hp
    case «11» => exact absurd rfl hconn
    all_goals exact of_decide_eq_false rfl
  rw [← replacement_eq hp hconn]
  exact if_neg hcategory

/-! ## A line -/

/-- No match goes on from the character to the next line, and no connection string ends in it. -/
def EndsLine (A : Text.Alphabet) (c : Char) : Prop :=
  (∀ p ∈ sensitivePatterns A, p.regex.follows c '\n' = false) ∧ c ≠ '@'

/-- A line in which no pattern finds anything, and from which no match goes on to the next line. -/
structure Inert (A : Text.Alphabet) (l : Text) : Prop where
  nothing : ∀ p ∈ sensitivePatterns A, search p.regex l = none
  last : ∃ c ∈ l.getLast?, ∀ p ∈ sensitivePatterns A, p.regex.follows c '\n' = false

theorem endsLine_bracket (A : Text.Alphabet) : EndsLine A ']' := by
  refine ⟨fun p hp => ?_, by decide⟩
  fin_cases hp
  case «4» =>
    simp [githubToken, Regex.follows, Regex.ends, Regex.starts, Regex.nullable, Regex.exact, isWord_newline]
  all_goals rfl

theorem endsLine_dash (A : Text.Alphabet) : EndsLine A '-' := by
  refine ⟨fun p hp => ?_, by decide⟩
  fin_cases hp
  case «4» =>
    simp [githubToken, Regex.follows, Regex.ends, Regex.starts, Regex.nullable, Regex.exact, isWord_newline]
  all_goals rfl

/-- No match reaches over the end of a line of which the last character does not go on. -/
theorem not_matches_over (hc : p.regex.follows c '\n' = false) (hlast : c ∈ s.getLast?) (rest : Text) :
    ¬ Matches p.regex (s ++ '\n' :: rest) := by
  intro h
  obtain ⟨front, rfl⟩ := List.getLast?_eq_some_iff.mp hlast
  rw [List.append_assoc, List.singleton_append] at h
  rw [h.follows] at hc
  cases hc

/-- A match that begins in front of the line ends there. -/
theorem length_le_of_matches (hp : p ∈ sensitivePatterns A) (hs : ∃ c ∈ s.getLast?, EndsLine A c)
    {rest v : Text} (hu : Matches p.regex u) (h : s ++ '\n' :: rest = u ++ v) : u.length ≤ s.length := by
  obtain ⟨c, hc, hend⟩ := hs
  rcases List.append_eq_append_iff.mp h with ⟨e, rfl, he⟩ | ⟨e, rfl, -⟩
  · cases e with
    | nil => simp
    | cons d e =>
      obtain ⟨rfl, -⟩ := List.cons.inj he
      exact absurd hu (not_matches_over (hend.1 p hp) hc e)
  · simp

/-- What is written instead of a match that ends the line in front ends it as well. -/
theorem endsLine_write (hp : p ∈ sensitivePatterns A) (hs : ∃ c ∈ s.getLast?, EndsLine A c)
    (hu : Matches p.regex s) (g : Groups) : ∃ c ∈ (p.write g).getLast?, EndsLine A c := by
  by_cases hconn : p = connectionString
  · obtain ⟨c, hc, hend⟩ := hs
    obtain ⟨front, rfl⟩ := List.getLast?_eq_some_iff.mp hc
    rw [hconn] at hu
    exact absurd (ends_connectionString hu.ends) hend.2
  · rw [write_eq hp hconn, ← List.cons_append]
    exact ⟨']', List.getLast?_concat, endsLine_bracket A⟩

/-- No match begins in the line. -/
theorem find_eq_none (hp : p ∈ sensitivePatterns A) (hl : Inert A l) (hs : s <:+ '\n' :: (l ++ ['\n']))
    (hne : s ≠ []) (prev : Option Char) : p.find prev (s ++ b) = none := by
  rw [Option.eq_none_iff_forall_ne_some]
  rintro ⟨x, n⟩ hfound
  obtain ⟨u, rest, g, hsplit, -, hu, -⟩ := rewriter_eq_some hfound
  have hnotBreak : ∀ t, u ≠ '\n' :: t := by
    rintro t rfl
    have hstarts := hu.starts
    rw [starts_newline hp] at hstarts
    cases hstarts
  have hbreak : ∀ t, s ++ b ≠ '\n' :: t := by
    intro t ht
    rw [ht] at hsplit
    cases u with
    | nil => exact ne_nil_of_matches hp hu rfl
    | cons d u =>
      obtain ⟨rfl, -⟩ := List.cons.inj hsplit
      exact hnotBreak u rfl
  obtain ⟨front, hfront⟩ := hs
  cases front with
  | nil =>
    rw [List.nil_append] at hfront
    exact hbreak (l ++ ['\n'] ++ b) (by rw [hfront]; rfl)
  | cons d front =>
    have hsuffix : front ++ s = l ++ ['\n'] := (List.cons.inj hfront).2
    rcases List.append_eq_append_iff.mp hsuffix with ⟨e, rfl, rfl⟩ | ⟨e, -, he⟩
    · -- the place is in the line itself
      by_cases hnil : e = []
      · rw [hnil] at hbreak
        exact hbreak b rfl
      · obtain ⟨c, hc, hend⟩ := hl.last
        have hlast : c ∈ e.getLast? := by
          rw [List.getLast?_append_of_ne_nil _ hnil] at hc
          exact hc
        rw [List.append_assoc, List.singleton_append] at hsplit
        rcases List.append_eq_append_iff.mp hsplit with ⟨w, rfl, hw⟩ | ⟨w, rfl, -⟩
        · cases w with
          | nil =>
            rw [List.append_nil] at hu
            have hsearch := (search_isSome_iff p.regex (front ++ e)).mpr ⟨front, e, [], by simp, hu⟩
            rw [hl.nothing p hp] at hsearch
            cases hsearch
          | cons d w =>
            obtain ⟨rfl, -⟩ := List.cons.inj hw
            exact not_matches_over (hend p hp) hlast w hu
        · have hsearch := (search_isSome_iff p.regex (front ++ (u ++ w))).mpr ⟨front, u, w, by simp, hu⟩
          rw [hl.nothing p hp] at hsearch
          cases hsearch
    · -- only the line feed behind it is left
      cases e with
      | nil =>
        rw [List.nil_append] at he
        rw [← he] at hbreak
        exact hbreak b rfl
      | cons d e =>
        have hlength := congrArg List.length he
        have hpos := List.length_pos_iff.mpr hne
        simp only [List.length_cons, List.length_nil, List.length_append] at hlength
        omega

/-- One pattern leaves the line. -/
theorem sub_line (hp : p ∈ sensitivePatterns A) (hl : Inert A l) (hx : EndsLine A x) (a b : Text) :
    ∃ a' x' b', EndsLine A x' ∧
      p.sub (a ++ x :: '\n' :: (l ++ '\n' :: b)) = a' ++ x' :: '\n' :: (l ++ '\n' :: b') := by
  have hfront : ∀ prev s y n, (∃ c ∈ s.getLast?, EndsLine A c) →
      p.find prev (s ++ ('\n' :: (l ++ ['\n']) ++ b)) = some (y, n) →
        0 < n ∧ n ≤ s.length ∧ (n = s.length → ∃ c ∈ y.getLast?, EndsLine A c) := by
    intro prev s y n hs hfound
    obtain ⟨u, rest, g, hsplit, rfl, hu, -, -, rfl, -⟩ := rewriter_eq_some hfound
    have hle := length_le_of_matches hp hs hu hsplit
    refine ⟨List.length_pos_iff.mpr (ne_nil_of_matches hp hu), hle, fun hwhole => ?_⟩
    obtain rfl : s = u := (List.append_inj hsplit hwhole.symm).1
    exact endsLine_write hp hs hu g
  have hlast : ∃ c ∈ (a ++ [x]).getLast?, EndsLine A c := ⟨x, List.getLast?_concat, hx⟩
  have hword : ∀ prev s, s <:+ '\n' :: (l ++ ['\n']) → s ≠ [] → p.find prev (s ++ b) = none :=
    fun prev s hs hne => find_eq_none hp hl hs hne prev
  obtain ⟨a', heq, hend, -⟩ := subAll_wall (k := 0) hfront hword (List.cons_ne_nil _ _) (.inr hlast) none
    (Nat.zero_le _)
  obtain ⟨x', hx', hendsLine⟩ := hend (by simp)
  obtain ⟨front, rfl⟩ := List.getLast?_eq_some_iff.mp hx'
  refine ⟨front, x', subAll p.find ('\n' :: (l ++ ['\n'])).getLast? 0 b, hendsLine, ?_⟩
  have hshape : a ++ x :: '\n' :: (l ++ '\n' :: b) = a ++ [x] ++ ('\n' :: (l ++ ['\n']) ++ b) := by simp
  unfold Pattern.sub
  rw [hshape, heq]
  simp

/-! ## The filter -/

theorem scanPattern_snd (state : List Text × Text) (p : Pattern) : (scanPattern state p).2 = p.sub state.2 := by
  unfold scanPattern
  dsimp only
  by_cases hsame : p.sub state.2 = state.2
  · rw [if_neg (not_not_intro hsame)]
    exact hsame.symm
  · rw [if_pos hsame]

theorem foldl_scanPattern_snd (ps : List Pattern) (state : List Text × Text) :
    (ps.foldl scanPattern state).2 = ps.foldl (fun text p => p.sub text) state.2 := by
  induction ps generalizing state with
  | nil => rfl
  | cons p ps ih => rw [List.foldl_cons, ih, scanPattern_snd, List.foldl_cons]

theorem foldl_line (hl : Inert A l) {ps : List Pattern} (hps : ∀ p ∈ ps, p ∈ sensitivePatterns A)
    (hx : EndsLine A x) (a b : Text) : ∃ a' b', ps.foldl (fun text p => p.sub text)
      (a ++ x :: '\n' :: (l ++ '\n' :: b)) = a' ++ l ++ b' := by
  induction ps generalizing a b x with
  | nil => exact ⟨a ++ [x, '\n'], '\n' :: b, by simp⟩
  | cons p ps ih =>
    obtain ⟨hp, hps⟩ := List.forall_mem_cons.mp hps
    obtain ⟨a', x', b', hx', hsub⟩ := sub_line hp hl hx a b
    rw [List.foldl_cons, hsub]
    exact ih hps hx' a' b'

/-- A line in which no pattern finds anything leaves the filter with the text, whatever stands around it. -/
theorem line_survives (hl : Inert A l) (hx : EndsLine A x) (a b : Text) :
    ∃ out, filterEgress A (a ++ x :: '\n' :: (l ++ '\n' :: b)) .warn = some out ∧ l <:+: out := by
  have hne : a ++ x :: '\n' :: (l ++ '\n' :: b) ≠ [] :=
    List.append_ne_nil_of_right_ne_nil _ (List.cons_ne_nil _ _)
  unfold filterEgress
  dsimp only
  rw [if_neg (by simp)]
  by_cases hclean : (scanAndRedact A (a ++ x :: '\n' :: (l ++ '\n' :: b))).clean = true
  · rw [if_pos hclean]
    exact ⟨_, rfl, a ++ [x, '\n'], '\n' :: b, by simp⟩
  · rw [if_neg hclean, if_neg (by decide)]
    refine ⟨_, rfl, ?_⟩
    obtain ⟨a', b', hfold⟩ := foldl_line hl (fun p hp => hp) hx a b
    unfold scanAndRedact
    rw [if_neg hne]
    dsimp only
    rw [foldl_scanPattern_snd, hfold]
    exact ⟨a', b', rfl⟩

/-! ## Secrets -/

/-- `[A-Za-z0-9+/=]`. -/
def isBase64 (c : Char) : Bool := isAlnum c || "+/=".toList.contains c

/-- A private key in the PEM format. -/
structure PemBlock where
  /-- What stands in front of `PRIVATE KEY`. -/
  kind : Text
  lines : List Text
  known : kind ∈ ["", "RSA ", "EC ", "DSA ", "OPENSSH "].map String.toList
  base64 : ∀ l ∈ lines, l ≠ [] ∧ ∀ c ∈ l, isBase64 c = true

def PemBlock.text (block : PemBlock) : Text :=
  "-----BEGIN ".toList ++ block.kind ++ "PRIVATE KEY-----\n".toList ++ Text.ended block.lines ++
    "-----END ".toList ++ block.kind ++ "PRIVATE KEY-----".toList

/-- A connection string with a user and a password. -/
structure Connection where
  scheme : Text
  user : Text
  password : Text
  host : Text
  known : scheme ∈ ["postgresql", "mysql", "mongodb", "redis", "amqp", "mssql"].map String.toList
  visible : ∀ part ∈ [user, password, host], part ≠ [] ∧ ∀ c ∈ part, isVisible c = true

def Connection.text (connection : Connection) : Text :=
  connection.scheme ++ "://".toList ++ connection.user ++ ':' :: connection.password ++ '@' :: connection.host

/-- A key of the form that OpenAI and Anthropic issue, behind `sk-`. -/
structure HyphenatedKey where
  rest : Text
  long : 20 ≤ rest.length
  chars : ∀ c ∈ rest, isBase64Url c = true

inductive Secret where
  | pem (block : PemBlock)
  | connection (c : Connection)
  | key (k : HyphenatedKey)

/-- The secret as it stands in a text. -/
def Secret.text : Secret → Text
  | .pem block => block.text
  | .connection c => c.text
  | .key k => "sk-".toList ++ k.rest

/-- What must not be read by others. -/
def Secret.parts : Secret → List Text
  | .pem block => block.lines
  | .connection c => [c.password]
  | .key k => ["sk-".toList ++ k.rest]

/-- The text that the filter returns in warn mode holds no part of the secret. -/
def Hidden (A : Text.Alphabet) (before after : Text) (secret : Secret) : Prop :=
  ∀ out ∈ filterEgress A (before ++ secret.text ++ after) .warn, ∀ part ∈ secret.parts, ¬ part <:+: out

/-- What stands in front of a line of a private key ends in a line feed, with a character before it that no
match goes on from. -/
theorem exists_front (block : PemBlock) {ls : List Text}
    (hend : ∀ l' ∈ ls.getLast?, ∃ c ∈ l'.getLast?, EndsLine A c) :
    ∃ front x, EndsLine A x ∧
      "-----BEGIN ".toList ++ block.kind ++ "PRIVATE KEY-----\n".toList ++ Text.ended ls =
        front ++ [x, '\n'] := by
  cases hlast : ls.getLast? with
  | none =>
    obtain rfl := List.getLast?_eq_none_iff.mp hlast
    exact ⟨"-----BEGIN ".toList ++ block.kind ++ "PRIVATE KEY----".toList, '-', endsLine_dash A,
      by simp [Text.ended]⟩
  | some l' =>
    obtain ⟨c, hc, hendsLine⟩ := hend l' hlast
    obtain ⟨ls, rfl⟩ := List.getLast?_eq_some_iff.mp hlast
    obtain ⟨l', rfl⟩ := List.getLast?_eq_some_iff.mp hc
    refine ⟨"-----BEGIN ".toList ++ block.kind ++ "PRIVATE KEY-----\n".toList ++ Text.ended ls ++ l', c,
      hendsLine, ?_⟩
    rw [Text.ended_append, Text.ended_cons]
    simp [Text.ended]

/-- The first line of a private key is replaced, and the key behind it is left. -/
theorem not_hidden_pem (block : PemBlock) {ls ls' : List Text} (hlines : block.lines = ls ++ l :: ls')
    (hl : Inert A l) (hend : ∀ l' ∈ ls.getLast?, ∃ c ∈ l'.getLast?, EndsLine A c) (before after : Text) :
    ¬ Hidden A before after (.pem block) := by
  intro hhidden
  obtain ⟨front, x, hx, hfront⟩ := exists_front block hend
  have htext : before ++ (Secret.pem block).text ++ after = (before ++ front) ++ x :: '\n' ::
      (l ++ '\n' :: (Text.ended ls' ++ "-----END ".toList ++ block.kind ++ "PRIVATE KEY-----".toList ++
        after)) := by
    have hsplit : block.text = front ++ [x, '\n'] ++ (l ++ '\n' :: (Text.ended ls' ++
        "-----END ".toList ++ block.kind ++ "PRIVATE KEY-----".toList)) := by
      unfold PemBlock.text
      rw [hlines, Text.ended_append, Text.ended_cons, ← hfront]
      simp
    show before ++ block.text ++ after = _
    rw [hsplit]
    simp
  obtain ⟨out, hout, hin⟩ := line_survives hl hx (before ++ front)
    (Text.ended ls' ++ "-----END ".toList ++ block.kind ++ "PRIVATE KEY-----".toList ++ after)
  rw [← htext] at hout
  have hpart : l ∈ (Secret.pem block).parts := by
    show l ∈ block.lines
    rw [hlines]
    simp
  exact hhidden out hout l hpart hin

/-- A secret in which no pattern finds anything is left on a line of its own. -/
theorem not_hidden_line {secret : Secret} {part : Text} (hl : Inert A secret.text) (hpart : part ∈ secret.parts)
    (hin : part <:+: secret.text) (hx : EndsLine A x) (a b : Text) :
    ¬ Hidden A (a ++ [x, '\n']) ('\n' :: b) secret := by
  intro hhidden
  obtain ⟨out, hout, hline⟩ := line_survives hl hx a b
  have htext : a ++ [x, '\n'] ++ secret.text ++ '\n' :: b = a ++ x :: '\n' :: (secret.text ++ '\n' :: b) := by
    simp
  rw [← htext] at hout
  exact hhidden out hout part hpart (hin.trans hline)

/-- A line of a private key. -/
def keyLine : Text := "MIIEowIBAAKCAQEA".toList

theorem inert_keyLine (A : Text.Alphabet) : Inert A keyLine := by
  constructor
  · intro p hp
    fin_cases hp <;> rfl
  · refine ⟨'A', rfl, fun p hp => ?_⟩
    fin_cases hp
    case «4» =>
      simp [githubToken, Regex.follows, Regex.ends, Regex.starts, Regex.nullable, Regex.exact, isWord_newline]
    all_goals rfl

/-- A private key of one line. -/
def rsaKey : PemBlock where
  kind := "RSA ".toList
  lines := [keyLine]
  known := by decide
  base64 := by
    intro l hl
    obtain rfl := List.mem_singleton.mp hl
    exact ⟨by decide, Text.forall_mem_of_all rfl⟩

/-- A key with hyphens. -/
def hyphenated : HyphenatedKey where
  rest := "ant-api03-R2D2C3POBB8K2SO".toList
  long := by decide
  chars := Text.forall_mem_of_all (by decide)

/-- A connection string with a password that begins with `@`. -/
def atConnection : Connection where
  scheme := "redis".toList
  user := "u".toList
  password := "@pw".toList
  host := "host".toList
  known := by decide
  visible := by
    intro part hpart
    fin_cases hpart
    · exact ⟨by decide, Text.forall_mem_of_all rfl⟩
    · exact ⟨by decide, Text.forall_mem_of_all rfl⟩
    · exact ⟨by decide, Text.forall_mem_of_all rfl⟩

end Llm.Egress
