import Mathlib.Algebra.Order.Group.Nat
import SovaVerified.Git.Diff
import SovaVerified.Regex.Proofs.SearchProofs
import SovaVerified.Shares.Shares

/-!
# `parse_diff_lines` on what git writes

The parser tells a line of a hunk from a header by what the line starts with, and Python has more line
boundaries than git. So the result is right as long as no added line starts like the header of a file, no
name is written in another way than it reads, and what Python splits off a line is passed over. Where
Python splits off nothing, this is the exact condition: a diff that breaks it shows fewer lines than
it has.
-/

namespace Git.Diff

open Text

/-! ## What the parser does with a line -/

/-- How the parser takes a raw line, whatever its state. -/
inductive Kind where
  | close
  | file (name : Text)
  | hunk (start : Nat)
  | skip
  | line

def kindOf (rawLine : Text) : Kind :=
  if "diff --git ".toList.isPrefixOf rawLine then .close
  else if "+++ b/".toList.isPrefixOf rawLine then .file (rawLine.drop 6)
  else if "+++ /dev/null".toList.isPrefixOf rawLine then .close
  else
    match hunkStart rawLine with
    | some n => .hunk n
    | none =>
      if ['+'].isPrefixOf rawLine then .line
      else if ['-'].isPrefixOf rawLine || ['\\'].isPrefixOf rawLine then .skip
      else if "index ".toList.isPrefixOf rawLine || "--- ".toList.isPrefixOf rawLine then .skip
      else .line

/-- What a line of the kind does to the state. -/
def Parse.take (p : Parse) : Kind → Parse
  | .close => { p with currentFile := none }
  | .file name => p.openFile name
  | .hunk start => { p with lineNum := start }
  | .skip => p
  | .line =>
    match p.currentFile with
    | none => p
    | some file => p.addLine file

theorem step_eq_take (p : Parse) (rawLine : Text) : p.step rawLine = p.take (kindOf rawLine) := by
  unfold Parse.step kindOf Parse.take
  by_cases hgit : "diff --git ".toList.isPrefixOf rawLine = true
  · simp only [if_pos hgit]
  · by_cases hfile : "+++ b/".toList.isPrefixOf rawLine = true
    · simp only [if_neg hgit, if_pos hfile]
    · by_cases hnull : "+++ /dev/null".toList.isPrefixOf rawLine = true
      · simp only [if_neg hgit, if_neg hfile, if_pos hnull]
      · simp only [if_neg hgit, if_neg hfile, if_neg hnull]
        cases hunkStart rawLine with
        | some n => rfl
        | none =>
          cases p.currentFile with
          | none => split_ifs <;> rfl
          | some file => split_ifs <;> rfl

/-- The line that is shown when a raw line of the kind is taken. -/
def Parse.emitted (p : Parse) : Kind → List (Text × Nat)
  | .line =>
    match p.currentFile with
    | none => []
    | some file => [(file, p.lineNum)]
  | _ => []

theorem shows_put {result : Assoc Text (List Nat)} {file name : Text} {ns : List Nat} {n : Nat} :
    Shows (result.put name ns) file n ↔
      (file = name ∧ n ∈ ns) ∨ (file ≠ name ∧ Shows result file n) := by
  unfold Shows
  by_cases hfile : file = name
  · subst hfile
    rw [Assoc.get_put_self]
    simp
  · rw [Assoc.get_put_ne result ns hfile]
    simp [hfile]

theorem shows_openFile {p : Parse} {name file : Text} {n : Nat} :
    Shows (p.openFile name).result file n ↔ Shows p.result file n := by
  unfold Parse.openFile
  simp only
  split_ifs with hopen
  · rfl
  · have hnone : p.result.get name = none := Option.not_isSome_iff_eq_none.mp hopen
    rw [shows_put]
    constructor
    · rintro (⟨-, hmem⟩ | ⟨-, hshows⟩)
      · cases hmem
      · exact hshows
    · intro hshows
      refine .inr ⟨?_, hshows⟩
      rintro rfl
      obtain ⟨ns, hget, -⟩ := hshows
      rw [hnone] at hget
      cases hget

theorem shows_addLine {p : Parse} {name file : Text} {n : Nat} :
    Shows (p.addLine name).result file n ↔ Shows p.result file n ∨ (file, n) = (name, p.lineNum) := by
  unfold Parse.addLine
  rw [shows_put, Prod.mk.injEq]
  by_cases hfile : file = name
  · subst hfile
    unfold Shows
    cases hget : p.result.get file with
    | none => simp
    | some ns => simp [or_comm]
  · simp [hfile]

theorem shows_step {p : Parse} {rawLine file : Text} {n : Nat} :
    Shows (p.step rawLine).result file n ↔
      Shows p.result file n ∨ (file, n) ∈ p.emitted (kindOf rawLine) := by
  rw [step_eq_take]
  cases kindOf rawLine with
  | close => simp [Parse.take, Parse.emitted]
  | file name => simp [Parse.take, Parse.emitted, shows_openFile]
  | hunk start => simp [Parse.take, Parse.emitted]
  | skip => simp [Parse.take, Parse.emitted]
  | line =>
    unfold Parse.take Parse.emitted
    cases p.currentFile with
    | none => simp
    | some current => simp [shows_addLine]

/-- The state after some raw lines. -/
def Parse.run (p : Parse) (rawLines : List Text) : Parse := rawLines.foldl Parse.step p

/-- The lines that are shown on the way. -/
def Parse.shown : Parse → List Text → List (Text × Nat)
  | _, [] => []
  | p, r :: rs => p.emitted (kindOf r) ++ (p.step r).shown rs

theorem run_append (p : Parse) (rs rs' : List Text) : p.run (rs ++ rs') = (p.run rs).run rs' :=
  List.foldl_append

theorem shown_append (p : Parse) (rs rs' : List Text) :
    p.shown (rs ++ rs') = p.shown rs ++ (p.run rs).shown rs' := by
  induction rs generalizing p with
  | nil => rfl
  | cons r rs ih =>
    rw [List.cons_append, Parse.shown, Parse.shown, ih, List.append_assoc]
    rfl

theorem shows_run {p : Parse} {rs : List Text} {file : Text} {n : Nat} :
    Shows (p.run rs).result file n ↔ Shows p.result file n ∨ (file, n) ∈ p.shown rs := by
  induction rs generalizing p with
  | nil => simp [Parse.run, Parse.shown]
  | cons r rs ih =>
    show Shows ((p.step r).run rs).result file n ↔ _
    rw [ih, shows_step, Parse.shown, List.mem_append, or_assoc]

/-- The raw lines of a diff. -/
def rawLines (ls : List Text) : List Text := ls.flatMap pieces

theorem rawLines_cons (l : Text) (ls : List Text) : rawLines (l :: ls) = pieces l ++ rawLines ls :=
  List.flatMap_cons

theorem rawLines_append (ls ls' : List Text) : rawLines (ls ++ ls') = rawLines ls ++ rawLines ls' :=
  List.flatMap_append

theorem shows_parseDiffLines {files : List FileDiff} {file : Text} {n : Nat} :
    Shows (parseDiffLines (render files)) file n ↔
      (file, n) ∈ Parse.shown {} (rawLines (files.flatMap FileDiff.textLines)) := by
  unfold parseDiffLines render
  rw [lines_flatMap_newline]
  refine Iff.trans (b := Shows ([] : Assoc Text (List Nat)) file n ∨ _) shows_run (or_iff_right ?_)
  rintro ⟨ns, hget, -⟩
  cases hget

/-! ## Hunk headers -/

theorem mem_ofNat {n : Nat} {c : Char} (h : c ∈ ofNat n) : isDecimal c = true :=
  isDecimal_of_isDigit (isDigit_of_mem_toString h)

theorem one_le_length_ofNat (n : Nat) : 1 ≤ (ofNat n).length :=
  List.length_pos_iff.mpr (toString_ne_nil n)

section Regex

open Regex

variable {α : Type} {r : Regex} {t : Text} {g : Groups} {k : Text → Groups → Option α} {x : α}

theorem run_opt_of_some (h : run r t g k = some x) : run (opt r) t g k = some x := by
  unfold opt
  rw [run_alt, h]
  rfl

theorem run_opt_of_none (h : run r t g k = none) : run (opt r) t g k = k t g := by
  unfold opt
  rw [run_alt, h, run_eps]
  rfl

/-- The digits of a number are taken as a whole. -/
theorem run_digits {n : Nat} {b : Text} (hb : ∀ c ∈ b.head?, isDecimal c = false) (hk : k b g = some x) :
    run (.rep 1 none isDecimal) (ofNat n ++ b) g k = some x :=
  run_rep_all (one_le_length_ofNat n) (by simp) (fun _ => mem_ofNat) hb hk

/-- The count of a range may be left out. -/
theorem run_count {n : Nat} {b : Text} (hb : ∀ c ∈ b.head?, isDecimal c = false)
    (hcomma : b.head? ≠ some ',') (hk : k b g = some x) :
    run (opt (.seq (lit ",") (.rep 1 none isDecimal))) (Hunk.countText n ++ b) g k = some x := by
  unfold Hunk.countText
  split_ifs with hn
  · have hnone : run (.seq (lit ",") (.rep 1 none isDecimal)) b g k = none := by
      cases b with
      | nil => rfl
      | cons c b =>
        have hc : foldEq ',' c = false := foldEq_symbol (by decide) fun heq => hcomma (by rw [heq]; rfl)
        show (if foldEq ',' c = true then _ else none) = none
        rw [hc]
        rfl
    rw [List.nil_append, run_opt_of_none hnone]
    exact hk
  · apply run_opt_of_some
    have hcons : ',' :: ofNat n ++ b = ",".toList ++ (ofNat n ++ b) := rfl
    rw [hcons, run_seq, run_lit]
    exact run_digits hb hk

/-- The same where the count is a group: it is captured or left out. -/
theorem run_count_cap {n : Nat} {b : Text} {y : Groups → α} (hb : ∀ c ∈ b.head?, isDecimal c = false)
    (hcomma : b.head? ≠ some ',') (hk : ∀ g', k b g' = some (y g')) :
    ∃ g', (g' = g ∨ ∃ u, g' = (2, u) :: g) ∧
      run (opt (.seq (lit ",") (.cap 2 (.rep 1 none isDecimal)))) (Hunk.countText n ++ b) g k =
        some (y g') := by
  unfold Hunk.countText
  split_ifs with hn
  · have hnone : run (.seq (lit ",") (.cap 2 (.rep 1 none isDecimal))) b g k = none := by
      cases b with
      | nil => rfl
      | cons c b =>
        have hc : foldEq ',' c = false := foldEq_symbol (by decide) fun heq => hcomma (by rw [heq]; rfl)
        show (if foldEq ',' c = true then _ else none) = none
        rw [hc]
        rfl
    refine ⟨g, .inl rfl, ?_⟩
    rw [List.nil_append, run_opt_of_none hnone]
    exact hk g
  · refine ⟨(2, ofNat n) :: g, .inr ⟨_, rfl⟩, run_opt_of_some ?_⟩
    have hcons : ',' :: ofNat n ++ b = ",".toList ++ (ofNat n ++ b) := rfl
    rw [hcons, run_seq, run_lit, run_cap]
    refine run_digits hb ?_
    rw [take_captured]
    exact hk _

end Regex

/-- What a hunk header starts with, up to its heading. -/
def Hunk.front (h : Hunk) : Text :=
  "@@ -".toList ++ (ofNat h.oldStart ++ (Hunk.countText (h.lines.countP DiffLine.isOld) ++
    (" +".toList ++ (ofNat h.newStart ++ (Hunk.countText (h.lines.countP DiffLine.isNew) ++
      " @@".toList)))))

theorem header_eq (h : Hunk) :
    h.header = h.front ++ if h.heading.1 = [] then [] else ' ' :: h.heading.1 := by
  unfold Hunk.header Hunk.front
  simp only [List.append_assoc]

/-- The header of a hunk is recognised whatever its heading. -/
theorem hunkStart_front (h : Hunk) (rest : Text) : hunkStart (h.front ++ rest) = some h.newStart := by
  have hfront : h.front ++ rest = "@@ -".toList ++ (ofNat h.oldStart ++
      (Hunk.countText (h.lines.countP DiffLine.isOld) ++ (" +".toList ++ (ofNat h.newStart ++
        (Hunk.countText (h.lines.countP DiffLine.isNew) ++ (" @@".toList ++ rest)))))) := by
    unfold Hunk.front
    simp only [List.append_assoc]
  have hhead : ∀ (n : Nat) (b : Text), (∀ c ∈ b.head?, isDecimal c = false) →
      ∀ c ∈ (Hunk.countText n ++ b).head?, isDecimal c = false := by
    intro n b hb
    unfold Hunk.countText
    split_ifs
    · exact hb
    · rintro c hc
      cases hc
      rfl
  have hplus : ∀ b : Text, ∀ c ∈ (" +".toList ++ b).head?, isDecimal c = false := by
    rintro b c hc
    cases hc
    rfl
  have hat : ∀ b : Text, ∀ c ∈ (" @@".toList ++ b).head?, isDecimal c = false := by
    rintro b c hc
    cases hc
    rfl
  -- the end of the expression first: each part hands the rest of the line to the next one
  obtain ⟨g', hg', hcount⟩ := run_count_cap
    (n := h.lines.countP DiffLine.isNew) (b := " @@".toList ++ rest) (g := [(1, ofNat h.newStart)])
    (k := fun t g => Regex.run (.seq (.lit " @@") .eps) t g fun _ g => some g) (y := id)
    (hat rest) (by simp) (by
      intro g'
      rw [Regex.run_seq, Regex.run_lit]
      rfl)
  have hget : g'.get 1 = some (ofNat h.newStart) := by
    rcases hg' with rfl | ⟨u, rfl⟩
    · rfl
    · rfl
  have hmatch : Regex.matchPrefix hunkRe (h.front ++ rest) = some g' := by
    rw [hfront]
    unfold Regex.matchPrefix hunkRe Regex.cat
    simp only [List.foldr_cons, List.foldr_nil]
    rw [Regex.run_seq, Regex.run_lit, Regex.run_seq]
    refine run_digits (hhead _ _ (hplus _)) ?_
    rw [Regex.run_seq]
    refine run_count (hplus _) (by simp) ?_
    rw [Regex.run_seq, Regex.run_lit, Regex.run_seq, Regex.run_cap]
    refine run_digits (hhead _ _ (hat _)) ?_
    rw [Regex.take_captured]
    exact hcount
  unfold hunkStart
  rw [hmatch, Option.bind_some, hget, Option.map_some]
  exact congrArg some (toNat_toString h.newStart)

/-- Only a line that starts with `@` is a hunk header. -/
theorem hunkStart_eq_none {c : Char} (hc : c ≠ '@') (t : Text) : hunkStart (c :: t) = none := by
  have hfold : Regex.foldEq '@' c = false := Regex.foldEq_symbol (by decide) hc
  have hmatch : Regex.matchPrefix hunkRe (c :: t) = none := by
    show (if Regex.foldEq '@' c = true then _ else none) = none
    rw [hfold]
    rfl
  unfold hunkStart
  rw [hmatch]
  rfl

/-! ## The kinds of the lines that git writes -/

theorem kindOf_front (h : Hunk) (rest : Text) : kindOf (h.front ++ rest) = .hunk h.newStart := by
  unfold kindOf
  rw [hunkStart_front]
  rfl

theorem kindOf_context (t : Text) : kindOf (' ' :: t) = .line := by
  unfold kindOf
  rw [hunkStart_eq_none (by decide)]
  rfl

theorem kindOf_removed (t : Text) : kindOf ('-' :: t) = .skip := by
  unfold kindOf
  rw [hunkStart_eq_none (by decide)]
  rfl

theorem kindOf_backslash (t : Text) : kindOf ('\\' :: t) = .skip := by
  unfold kindOf
  rw [hunkStart_eq_none (by decide)]
  rfl

theorem kindOf_ignored {r : Text} (h : Ignored r) : kindOf r = .skip := by
  rcases h with h | h | h
  · obtain ⟨t, rfl⟩ := List.isPrefixOf_iff_prefix.mp h
    exact kindOf_removed t
  · obtain ⟨t, rfl⟩ := List.isPrefixOf_iff_prefix.mp h
    exact kindOf_backslash t
  · obtain ⟨t, rfl⟩ := List.isPrefixOf_iff_prefix.mp h
    show kindOf ('i' :: ("ndex ".toList ++ t)) = .skip
    unfold kindOf
    rw [hunkStart_eq_none (by decide)]
    rfl

/-- An added line is taken for a line unless its content looks like the rest of a header. -/
theorem kindOf_added (t : Text) :
    kindOf ('+' :: t) =
      if "++ b/".toList.isPrefixOf t then .file (t.drop 5)
      else if "++ /dev/null".toList.isPrefixOf t then .close
      else .line := by
  have hfile : "+++ b/".toList.isPrefixOf ('+' :: t) = "++ b/".toList.isPrefixOf t := rfl
  have hnull : "+++ /dev/null".toList.isPrefixOf ('+' :: t) = "++ /dev/null".toList.isPrefixOf t := rfl
  have hgit : "diff --git ".toList.isPrefixOf ('+' :: t) = false := rfl
  unfold kindOf
  rw [hunkStart_eq_none (by decide), hfile, hnull, hgit]
  rfl

/-! ## Names -/

/-- A character that a line of git's own consists of. -/
def Printable (c : Char) : Prop := 0x20 ≤ c.toNat ∧ c.toNat < 0x7f

theorem Printable.isLineBreak {c : Char} (h : Printable c) : isLineBreak c = false := by
  obtain ⟨hlow, hhigh⟩ := h
  unfold Text.isLineBreak
  simp only [Bool.or_eq_false_iff, Bool.and_eq_false_iff, decide_eq_false_iff_not, beq_eq_false_iff_ne]
  omega

theorem printable_of_not_needsQuote {c : Char} (h : needsQuote c = false) : Printable c := by
  unfold needsQuote at h
  simp only [Bool.or_eq_false_iff, decide_eq_false_iff_not] at h
  exact ⟨by omega, by omega⟩

instance (c : Char) : Decidable (Printable c) :=
  inferInstanceAs (Decidable (0x20 ≤ c.toNat ∧ c.toNat < 0x7f))

theorem printable_digitChar {n : Nat} (h : n < 16) : Printable (Nat.digitChar n) := by
  have hall : ∀ m < 16, Printable (Nat.digitChar m) := by decide
  exact hall n h

theorem printable_escape (c : Char) : ∀ d ∈ escape c, Printable d := by
  have hoctal : ∀ b : UInt8, ∀ d ∈ octal b, Printable d := by
    intro b d hd
    have hb : b.toNat < 256 := b.toNat_lt
    simp only [octal, List.mem_cons, List.not_mem_nil, or_false] at hd
    rcases hd with rfl | rfl | rfl | rfl
    · exact ⟨by decide, by decide⟩
    · exact printable_digitChar (by omega)
    · exact printable_digitChar (by omega)
    · exact printable_digitChar (by omega)
  intro d hd
  unfold escape at hd
  split at hd
  all_goals first
    | (simp only [List.mem_cons, List.not_mem_nil, or_false] at hd
       rcases hd with rfl | rfl <;> exact ⟨by decide, by decide⟩)
    | (obtain ⟨b, -, hd⟩ := List.mem_flatMap.mp hd
       exact hoctal b d hd)

theorem printable_quoteTwo {front : Text} (hfront : ∀ c ∈ front, Printable c) (name : Text) :
    ∀ c ∈ quoteTwo front name, Printable c := by
  have hquote : Printable '"' := ⟨by decide, by decide⟩
  intro c hc
  unfold quoteTwo at hc
  split_ifs at hc with hneeds
  · simp only [List.cons_append, List.mem_cons, List.mem_append, List.not_mem_nil, or_false] at hc
    rcases hc with rfl | (hc | hc) | rfl
    · exact hquote
    · exact hfront c hc
    · obtain ⟨d, -, hd⟩ := List.mem_flatMap.mp hc
      split_ifs at hd with hd'
      · exact printable_escape d c hd
      · obtain rfl := List.mem_singleton.mp hd
        exact printable_of_not_needsQuote (Bool.eq_false_iff.mpr hd')
    · exact hquote
  · rcases List.mem_append.mp hc with hc | hc
    · exact hfront c hc
    · refine printable_of_not_needsQuote (Bool.eq_false_iff.mpr fun h => hneeds ?_)
      exact List.any_eq_true.mpr ⟨c, hc, h⟩

/-- A given text of printable characters. -/
theorem printable_of_all {t : Text} (h : (t.all fun c => 0x20 ≤ c.toNat && c.toNat < 0x7f) = true) :
    ∀ c ∈ t, Printable c := by
  intro c hc
  have htest := List.all_eq_true.mp h c hc
  simp only [Bool.and_eq_true, decide_eq_true_eq] at htest
  exact htest

theorem printable_append {s t : Text} (hs : ∀ c ∈ s, Printable c) (ht : ∀ c ∈ t, Printable c) :
    ∀ c ∈ s ++ t, Printable c := by
  intro c hc
  rcases List.mem_append.mp hc with hc | hc
  · exact hs c hc
  · exact ht c hc

theorem printable_toDigits {b : Nat} (hb : 1 < b) (hb' : b ≤ 16) (n : Nat) :
    ∀ c ∈ Nat.toDigits b n, Printable c := by
  induction n using Nat.strongRecOn with
  | ind n ih =>
    rw [Nat.toDigits_eq_if hb]
    split_ifs with hn
    · intro c hc
      obtain rfl := List.mem_singleton.mp hc
      exact printable_digitChar (by omega)
    · refine printable_append (ih (n / b) (Nat.div_lt_self (by omega) hb)) ?_
      intro c hc
      obtain rfl := List.mem_singleton.mp hc
      have hmod : n % b < b := Nat.mod_lt n (by omega)
      exact printable_digitChar (by omega)

theorem printable_ofNat (n : Nat) : ∀ c ∈ ofNat n, Printable c := by
  unfold ofNat
  rw [toList_toString]
  exact printable_toDigits (by decide) (by decide) n

/-- The name of a side of a binary file. -/
theorem printable_side {front : Text} (hfront : ∀ c ∈ front, Printable c) (name : Option Text) :
    ∀ c ∈ (name.map (quoteTwo front)).getD "/dev/null".toList, Printable c := by
  cases name with
  | none =>
    have hnull : ∀ c ∈ "/dev/null".toList, Printable c := printable_of_all (by decide)
    exact hnull
  | some name => exact printable_quoteTwo hfront name

theorem printable_extended (e : ExtendedHeader) : ∀ c ∈ e.text, Printable c := by
  have hnil : ∀ c ∈ ([] : Text), Printable c := by simp
  cases e with
  | oldMode mode => exact printable_append (printable_of_all (by decide)) (printable_ofNat mode)
  | newMode mode => exact printable_append (printable_of_all (by decide)) (printable_ofNat mode)
  | deletedFileMode mode => exact printable_append (printable_of_all (by decide)) (printable_ofNat mode)
  | newFileMode mode => exact printable_append (printable_of_all (by decide)) (printable_ofNat mode)
  | similarity percent =>
    exact printable_append (printable_of_all (by decide))
      (printable_append (printable_ofNat percent) (printable_of_all (by decide)))
  | dissimilarity percent =>
    exact printable_append (printable_of_all (by decide))
      (printable_append (printable_ofNat percent) (printable_of_all (by decide)))
  | renameFrom name => exact printable_append (printable_of_all (by decide)) (printable_quoteTwo hnil name)
  | renameTo name => exact printable_append (printable_of_all (by decide)) (printable_quoteTwo hnil name)
  | copyFrom name => exact printable_append (printable_of_all (by decide)) (printable_quoteTwo hnil name)
  | copyTo name => exact printable_append (printable_of_all (by decide)) (printable_quoteTwo hnil name)
  | index old new mode =>
    have hmode : ∀ c ∈ (mode.map fun m => ' ' :: ofNat m).getD [], Printable c := by
      cases mode with
      | none => exact hnil
      | some m =>
        exact List.forall_mem_cons.mpr ⟨⟨by decide, by decide⟩, printable_ofNat m⟩
    have hdots : ∀ c ∈ "..".toList, Printable c := printable_of_all (by decide)
    exact printable_append (printable_of_all (by decide))
      (printable_append (printable_append (printable_append (printable_toDigits (by decide) (by decide) old) hdots)
        (printable_toDigits (by decide) (by decide) new)) hmode)
  | binary old new =>
    have hold := printable_side (printable_of_all (by decide) : ∀ c ∈ "a/".toList, Printable c) old
    have hnew := printable_side (printable_of_all (by decide) : ∀ c ∈ "b/".toList, Printable c) new
    have hand : ∀ c ∈ " and ".toList, Printable c := printable_of_all (by decide)
    have hdiffer : ∀ c ∈ " differ".toList, Printable c := printable_of_all (by decide)
    exact printable_append (printable_of_all (by decide))
      (printable_append (printable_append (printable_append hold hand) hnew) hdiffer)

/-! ## The header of a file -/

/-- A line of printable characters, and perhaps a tab at its end. -/
theorem pieces_of_printable {l : Text} (h : ∀ c ∈ l, Printable c ∨ c = '\t') : pieces l = [l] := by
  refine pieces_eq_singleton fun c hc => ?_
  rcases h c hc with hc | rfl
  · exact hc.isLineBreak
  · rfl

theorem printable_label {front : Text} (hfront : ∀ c ∈ front, Printable c) (name : Option Text) :
    ∀ c ∈ label front name, Printable c ∨ c = '\t' := by
  cases name with
  | none =>
    have hnull : ∀ c ∈ "/dev/null".toList, Printable c := printable_of_all (by decide)
    exact fun c hc => .inl (hnull c hc)
  | some name =>
    intro c hc
    have hquoted := printable_quoteTwo hfront name
    unfold label at hc
    simp only at hc
    split_ifs at hc
    · rcases List.mem_append.mp hc with hc | hc
      · exact .inl (hquoted c hc)
      · exact .inr (List.mem_singleton.mp hc)
    · exact .inl (hquoted c hc)

theorem pieces_gitLine (f : FileDiff) : pieces f.gitLine = [f.gitLine] := by
  have ha : ∀ c ∈ "a/".toList, Printable c := printable_of_all (by decide)
  have hb : ∀ c ∈ "b/".toList, Printable c := printable_of_all (by decide)
  have hblank : ∀ c ∈ [' '], Printable c := printable_of_all (by decide)
  have hline : ∀ c ∈ f.gitLine, Printable c :=
    printable_append (printable_of_all (by decide))
      (printable_append (printable_append (printable_quoteTwo ha _) hblank) (printable_quoteTwo hb _))
  exact pieces_of_printable fun c hc => .inl (hline c hc)

theorem pieces_extended (e : ExtendedHeader) : pieces e.text = [e.text] :=
  pieces_of_printable fun c hc => .inl (printable_extended e c hc)

/-- The lines `---` and `+++`. -/
theorem pieces_label {mark front : Text} (hmark : ∀ c ∈ mark, Printable c)
    (hfront : ∀ c ∈ front, Printable c) (name : Option Text) :
    pieces (mark ++ label front name) = [mark ++ label front name] := by
  refine pieces_of_printable fun c hc => ?_
  rcases List.mem_append.mp hc with hc | hc
  · exact .inl (hmark c hc)
  · exact printable_label hfront name c hc

theorem pieces_oldLine (f : FileDiff) : pieces f.oldLine = [f.oldLine] :=
  pieces_label (printable_of_all (by decide)) (printable_of_all (by decide)) f.oldName

theorem pieces_newLine (f : FileDiff) : pieces f.newLine = [f.newLine] :=
  pieces_label (printable_of_all (by decide)) (printable_of_all (by decide)) f.newName

/-- A name as it stands in the line `+++`, without quotes. -/
def written (name : Text) : Text := if ' ' ∈ name then name ++ ['\t'] else name

/-- The file that the parser takes the hunks for. -/
def FileDiff.opened (f : FileDiff) : Option Text :=
  f.newName.bind fun name => if name.any needsQuote then none else some (written name)

theorem kindOf_newLine (f : FileDiff) :
    (f.opened = none ∧ (kindOf f.newLine = .close ∨ kindOf f.newLine = .line)) ∨
      ∃ name, f.opened = some name ∧ kindOf f.newLine = .file name := by
  unfold FileDiff.opened FileDiff.newLine label
  cases f.newName with
  | none => exact .inl ⟨rfl, .inl rfl⟩
  | some name =>
    have hplus : ∀ l : Text, "+++ ".toList ++ l = '+' :: ("++ ".toList ++ l) := fun _ => rfl
    simp only [Option.bind_some]
    by_cases hname : name.any needsQuote = true
    · refine .inl ⟨by rw [if_pos hname], .inr ?_⟩
      obtain ⟨l, hl⟩ : ∃ l, (if ' ' ∈ quoteTwo "b/".toList name then
          quoteTwo "b/".toList name ++ ['\t'] else quoteTwo "b/".toList name) = '"' :: l := by
        unfold quoteTwo
        rw [if_pos hname]
        split_ifs
        · exact ⟨_, rfl⟩
        · exact ⟨_, rfl⟩
      rw [hl, hplus, kindOf_added]
      rfl
    · refine .inr ⟨written name, by rw [if_neg hname], ?_⟩
      have hlabel : (if ' ' ∈ quoteTwo "b/".toList name then quoteTwo "b/".toList name ++ ['\t']
          else quoteTwo "b/".toList name) = "b/".toList ++ written name := by
        have hblank : ' ' ∈ "b/".toList ++ name ↔ ' ' ∈ name := by
          rw [List.mem_append]
          exact or_iff_right (by decide)
        unfold quoteTwo written
        rw [if_neg hname, if_congr hblank rfl rfl]
        split_ifs
        · rfl
        · rfl
      rw [hlabel, hplus, kindOf_added]
      rfl

/-- A line that opens a file starts like one. -/
theorem isPrefixOf_of_kindOf {r name : Text} (h : kindOf r = .file name) :
    "+++ b/".toList.isPrefixOf r = true := by
  by_contra hfile
  unfold kindOf at h
  by_cases hgit : "diff --git ".toList.isPrefixOf r = true
  · rw [if_pos hgit] at h
    cases h
  · rw [if_neg hgit, if_neg hfile] at h
    by_cases hnull : "+++ /dev/null".toList.isPrefixOf r = true
    · rw [if_pos hnull] at h
      cases h
    · rw [if_neg hnull] at h
      cases hstart : hunkStart r with
      | some n =>
        rw [hstart] at h
        cases h
      | none =>
        rw [hstart] at h
        simp only at h
        split_ifs at h

/-- While no file is open, and no line opens one, nothing is shown. -/
theorem shown_closed {p : Parse} {rs : List Text} (hclosed : p.currentFile = none)
    (h : ∀ r ∈ rs, "+++ b/".toList.isPrefixOf r = false) :
    p.shown rs = [] ∧ (p.run rs).currentFile = none := by
  induction rs generalizing p with
  | nil => exact ⟨rfl, hclosed⟩
  | cons r rs ih =>
    obtain ⟨hr, hrs⟩ := List.forall_mem_cons.mp h
    have hstep : p.emitted (kindOf r) = [] ∧ (p.step r).currentFile = none := by
      rw [step_eq_take]
      unfold Parse.emitted Parse.take
      cases hkind : kindOf r with
      | close => exact ⟨rfl, rfl⟩
      | file name =>
        rw [isPrefixOf_of_kindOf hkind] at hr
        cases hr
      | hunk start => exact ⟨rfl, hclosed⟩
      | skip => exact ⟨rfl, hclosed⟩
      | line =>
        rw [hclosed]
        exact ⟨rfl, hclosed⟩
    obtain ⟨hshown, hrun⟩ := ih hstep.2 hrs
    refine ⟨?_, hrun⟩
    rw [Parse.shown, hstep.1, hshown]
    rfl

theorem extended_opens_nothing (e : ExtendedHeader) : "+++ b/".toList.isPrefixOf e.text = false := by
  cases e <;> rfl

theorem rawLines_extended (es : List ExtendedHeader) :
    rawLines (es.map ExtendedHeader.text) = es.map ExtendedHeader.text := by
  induction es with
  | nil => rfl
  | cons e es ih =>
    rw [List.map_cons, rawLines_cons, ih, pieces_extended]
    rfl

theorem oldLine_opens_nothing (f : FileDiff) : "+++ b/".toList.isPrefixOf f.oldLine = false := rfl

/-- The lines before the hunks open the file, and show nothing. -/
theorem exists_shown_body (f : FileDiff) (p : Parse) :
    ∃ p' : Parse, p'.currentFile = f.opened ∧
      p.shown (rawLines f.textLines) = p'.shown (rawLines f.body) := by
  have hgit : kindOf f.gitLine = .close := rfl
  have hclosed : (p.step f.gitLine).currentFile = none := by
    rw [step_eq_take, hgit]
    rfl
  have hextended : ∀ r ∈ f.extended.map ExtendedHeader.text, "+++ b/".toList.isPrefixOf r = false := by
    intro r hr
    obtain ⟨e, -, rfl⟩ := List.mem_map.mp hr
    exact extended_opens_nothing e
  have hstart : p.shown (rawLines f.textLines) = (p.step f.gitLine).shown
      (f.extended.map ExtendedHeader.text ++
        rawLines (if f.hunks = [] then [] else f.oldLine :: f.newLine :: f.body)) := by
    unfold FileDiff.textLines
    rw [List.cons_append, rawLines_cons, pieces_gitLine, rawLines_append, rawLines_extended,
      List.singleton_append, Parse.shown, hgit]
    rfl
  rw [hstart]
  split_ifs with hhunks
  · refine ⟨{ currentFile := f.opened }, rfl, ?_⟩
    have hbody : f.body = [] := by
      unfold FileDiff.body
      rw [hhunks]
      rfl
    rw [hbody, show rawLines [] = [] from rfl, List.append_nil, (shown_closed hclosed hextended).1]
    rfl
  · have hheader : ∀ r ∈ f.extended.map ExtendedHeader.text ++ [f.oldLine],
        "+++ b/".toList.isPrefixOf r = false := by
      intro r hr
      rcases List.mem_append.mp hr with hr | hr
      · exact hextended r hr
      · rw [List.mem_singleton.mp hr]
        exact oldLine_opens_nothing f
    obtain ⟨hshown, hrun⟩ := shown_closed hclosed hheader
    set p₁ := (p.step f.gitLine).run (f.extended.map ExtendedHeader.text ++ [f.oldLine]) with hp₁
    have hsplit : f.extended.map ExtendedHeader.text ++ rawLines (f.oldLine :: f.newLine :: f.body) =
        (f.extended.map ExtendedHeader.text ++ [f.oldLine]) ++ (f.newLine :: rawLines f.body) := by
      rw [rawLines_cons, rawLines_cons, pieces_oldLine, pieces_newLine, List.append_assoc]
      rfl
    have hemitted : p₁.emitted (kindOf f.newLine) = [] ∧ (p₁.step f.newLine).currentFile = f.opened := by
      rw [step_eq_take]
      unfold Parse.emitted Parse.take
      rcases kindOf_newLine f with ⟨hopened, hkind | hkind⟩ | ⟨name, hopened, hkind⟩
      · rw [hkind, hopened]
        exact ⟨rfl, rfl⟩
      · rw [hkind, hopened, hrun]
        exact ⟨rfl, hrun⟩
      · rw [hkind, hopened]
        exact ⟨rfl, rfl⟩
    refine ⟨p₁.step f.newLine, hemitted.2, ?_⟩
    rw [hsplit, shown_append, hshown, ← hp₁, Parse.shown, hemitted.1]
    rfl

/-! ## Hunks that are read right -/

/-- The lines with the given numbers, of a file that is open. -/
def marks (current : Option Text) (numbers : List Nat) : List (Text × Nat) :=
  match current with
  | none => []
  | some file => numbers.map fun n => (file, n)

theorem marks_append (current : Option Text) (ns ms : List Nat) :
    marks current (ns ++ ms) = marks current ns ++ marks current ms := by
  cases current with
  | none => rfl
  | some file => exact List.map_append

theorem shown_ignored {p : Parse} {rs : List Text} (h : ∀ r ∈ rs, Ignored r) :
    p.shown rs = [] ∧ p.run rs = p := by
  induction rs with
  | nil => exact ⟨rfl, rfl⟩
  | cons r rs ih =>
    obtain ⟨hr, hrs⟩ := List.forall_mem_cons.mp h
    have hstep : p.step r = p := by
      rw [step_eq_take, kindOf_ignored hr]
      rfl
    obtain ⟨hshown, hrun⟩ := ih hrs
    constructor
    · rw [Parse.shown, hstep, hshown, kindOf_ignored hr]
      rfl
    · show (p.step r).run rs = p
      rw [hstep, hrun]

/-- How the parser takes the first piece of a line of a hunk. -/
def DiffLine.kind : DiffLine → Kind
  | .context _ => .line
  | .removed _ => .skip
  | .added content =>
    if "++ b/".toList.isPrefixOf content.1 then .file (((pieces content.1).headD []).drop 5)
    else if "++ /dev/null".toList.isPrefixOf content.1 then .close
    else .line
  | .noNewline => .skip

theorem pieces_text (l : DiffLine) :
    ∃ first, pieces l.text = first :: (pieces l.text).tail ∧ kindOf first = l.kind := by
  have hself : ∀ {t first : Text} {rest : List Text}, pieces t = first :: rest →
      pieces t = first :: (pieces t).tail := by
    intro t first rest h
    rw [h, List.tail_cons]
  cases l with
  | context content =>
    obtain ⟨first, rest, -, hcons⟩ := pieces_cons (c := ' ') rfl content.1
    exact ⟨' ' :: first, hself hcons, kindOf_context first⟩
  | removed content =>
    obtain ⟨first, rest, -, hcons⟩ := pieces_cons (c := '-') rfl content.1
    exact ⟨'-' :: first, hself hcons, kindOf_removed first⟩
  | added content =>
    obtain ⟨first, rest, hpieces, hcons⟩ := pieces_cons (c := '+') rfl content.1
    refine ⟨'+' :: first, hself hcons, ?_⟩
    have hfile := isPrefixOf_head_pieces "++ b/".toList (forall_mem_of_all (by decide)) content.1 hpieces
    have hnull := isPrefixOf_head_pieces "++ /dev/null".toList (forall_mem_of_all (by decide)) content.1
      hpieces
    simp only [DiffLine.kind, hpieces, List.headD_cons]
    rw [kindOf_added, hfile, hnull]
  | noNewline => exact ⟨_, rfl, rfl⟩

theorem kind_of_plain {l : DiffLine} (h : l.Plain) : l.kind = if l.isNew then .line else .skip := by
  cases l with
  | added content =>
    obtain ⟨hfile, hnull⟩ := h
    unfold DiffLine.kind
    simp only
    rw [hfile, hnull]
    rfl
  | _ => rfl

/-- The lines of a hunk that is read right. -/
theorem shown_lines {p : Parse} {current : Option Text} (hcurrent : p.currentFile = current)
    (ls : List DiffLine) (hwhole : ∀ l ∈ ls, Whole l.text) (hplain : ∀ l ∈ ls, l.Plain) :
    p.shown (rawLines (ls.map DiffLine.text)) = marks current (Hunk.numbersFrom p.lineNum ls) ∧
      (p.run (rawLines (ls.map DiffLine.text))).currentFile = current := by
  induction ls generalizing p with
  | nil =>
    refine ⟨?_, hcurrent⟩
    cases current with
    | none => rfl
    | some file => rfl
  | cons l ls ih =>
    obtain ⟨hl, hwhole⟩ := List.forall_mem_cons.mp hwhole
    obtain ⟨hl', hplain⟩ := List.forall_mem_cons.mp hplain
    obtain ⟨first, hpieces, hkind⟩ := pieces_text l
    rw [kind_of_plain hl'] at hkind
    have hignored := shown_ignored (p := p.step first) hl
    have hstep : (p.step first).currentFile = current ∧
        p.shown (rawLines ((l :: ls).map DiffLine.text)) =
          p.emitted (kindOf first) ++ (p.step first).shown (rawLines (ls.map DiffLine.text)) ∧
        p.run (rawLines ((l :: ls).map DiffLine.text)) =
          (p.step first).run (rawLines (ls.map DiffLine.text)) := by
      rw [List.map_cons, rawLines_cons, hpieces, List.cons_append]
      refine ⟨?_, ?_, ?_⟩
      · rw [step_eq_take, hkind]
        unfold Parse.take
        split_ifs
        · cases hfile : p.currentFile with
          | none => rwa [hfile] at hcurrent ⊢
          | some file => exact hcurrent
        · exact hcurrent
      · rw [Parse.shown, shown_append, hignored.1, hignored.2]
        rfl
      · show (p.step first).run _ = _
        rw [run_append, hignored.2]
    obtain ⟨hfile, hshown, hrun⟩ := hstep
    obtain ⟨hrest, hend⟩ := ih hfile hwhole hplain
    rw [hrun, hshown, hrest]
    refine ⟨?_, hend⟩
    rw [hkind, Hunk.numbersFrom, step_eq_take, hkind]
    unfold Parse.emitted Parse.take
    cases current with
    | none =>
      rw [hcurrent]
      split_ifs
      · rfl
      · rfl
    | some file =>
      rw [hcurrent]
      split_ifs
      · rfl
      · rfl

theorem printable_countText (n : Nat) : ∀ c ∈ Hunk.countText n, Printable c := by
  unfold Hunk.countText
  split_ifs
  · simp
  · exact List.forall_mem_cons.mpr ⟨by decide, printable_ofNat n⟩

theorem pieces_header (h : Hunk) :
    ∃ rest, pieces h.header = (h.front ++ rest) :: (pieces h.header).tail := by
  have hfront : ∀ c ∈ h.front, Printable c := by
    unfold Hunk.front
    exact printable_append (printable_of_all (by decide)) (printable_append (printable_ofNat _)
      (printable_append (printable_countText _) (printable_append (printable_of_all (by decide))
        (printable_append (printable_ofNat _) (printable_append (printable_countText _)
          (printable_of_all (by decide)))))))
  obtain ⟨rest, tail, -, hpieces⟩ := pieces_append (fun c hc => (hfront c hc).isLineBreak)
    (if h.heading.1 = [] then [] else ' ' :: h.heading.1)
  rw [← header_eq] at hpieces
  exact ⟨rest, by rw [hpieces, List.tail_cons]⟩

/-- The hunks of a file that are read right. -/
theorem shown_hunks {p : Parse} {current : Option Text} (hcurrent : p.currentFile = current)
    (hs : List Hunk) (hwhole : ∀ h ∈ hs, Whole h.header ∧ ∀ l ∈ h.lines, Whole l.text)
    (hplain : ∀ h ∈ hs, ∀ l ∈ h.lines, l.Plain) :
    p.shown (rawLines (hs.flatMap fun h => h.header :: h.lines.map DiffLine.text)) =
      marks current (hs.flatMap Hunk.numbers) := by
  induction hs generalizing p with
  | nil =>
    cases current with
    | none => rfl
    | some file => rfl
  | cons h hs ih =>
    obtain ⟨⟨hheader, hlines⟩, hwhole⟩ := List.forall_mem_cons.mp hwhole
    obtain ⟨hh, hplain⟩ := List.forall_mem_cons.mp hplain
    obtain ⟨rest, hpieces⟩ := pieces_header h
    have hkind := kindOf_front h rest
    have hstep : p.step (h.front ++ rest) = { p with lineNum := h.newStart } := by
      rw [step_eq_take, hkind]
      rfl
    have hignored := shown_ignored (p := ({ p with lineNum := h.newStart } : Parse)) hheader
    obtain ⟨hshown, hrun⟩ := shown_lines (p := ({ p with lineNum := h.newStart } : Parse)) hcurrent
      h.lines hlines hh
    rw [List.flatMap_cons, List.flatMap_cons, rawLines_append, rawLines_cons, hpieces, List.cons_append,
      List.cons_append, Parse.shown, hkind, hstep, List.append_assoc, shown_append, hignored.1,
      hignored.2, shown_append, hshown, ih hrun hwhole hplain, marks_append]
    rfl

/-- A file that is read right. -/
theorem shown_textLines {f : FileDiff} (h : f.Plain) (p : Parse) :
    p.shown (rawLines f.textLines) = f.newSide := by
  obtain ⟨p', hopened, hshown⟩ := exists_shown_body f p
  rw [hshown]
  unfold FileDiff.Plain at h
  unfold FileDiff.newSide
  unfold FileDiff.opened at hopened
  cases hname : f.newName with
  | none =>
    rw [hname] at h hopened
    refine (shown_closed hopened ?_).1
    intro r hr
    obtain ⟨line, hline, hr⟩ := List.mem_flatMap.mp hr
    exact h line hline r hr
  | some name =>
    rw [hname] at h hopened
    obtain ⟨hplainName, hwhole, hplain⟩ := h
    have hbody : ∀ hunk ∈ f.hunks, Whole hunk.header ∧ ∀ l ∈ hunk.lines, Whole l.text := by
      intro hunk hhunk
      have hmem : ∀ line ∈ hunk.header :: hunk.lines.map DiffLine.text, Whole line :=
        fun line hline => hwhole line (List.mem_flatMap.mpr ⟨hunk, hhunk, hline⟩)
      refine ⟨hmem _ (List.mem_cons_self ..), fun l hl => ?_⟩
      exact hmem _ (List.mem_cons_of_mem _ (List.mem_map_of_mem hl))
    have hmarks : p'.shown (rawLines f.body) = marks p'.currentFile f.numbers :=
      shown_hunks rfl f.hunks hbody hplain
    rw [hmarks, hopened, Option.bind_some]
    by_cases hnumbers : f.numbers = []
    · rw [hnumbers]
      split_ifs <;> rfl
    · obtain ⟨hquote, hblank⟩ := hplainName hnumbers
      rw [hquote, if_neg Bool.false_ne_true]
      unfold written
      rw [if_neg hblank]
      rfl

theorem shown_files {files : List FileDiff} (h : ∀ f ∈ files, f.Plain) (p : Parse) :
    p.shown (rawLines (files.flatMap FileDiff.textLines)) = newSide files := by
  induction files generalizing p with
  | nil => rfl
  | cons f files ih =>
    obtain ⟨hf, hfiles⟩ := List.forall_mem_cons.mp h
    unfold newSide at ih ⊢
    rw [List.flatMap_cons, List.flatMap_cons, rawLines_append, shown_append, shown_textLines hf,
      ih hfiles]

theorem correct_of_plain {files : List FileDiff} (h : ∀ f ∈ files, f.Plain) : Correct files := by
  intro file n
  rw [shows_parseDiffLines, shown_files h]

/-! ## Diffs that Python splits as git does -/

theorem length_numbersFrom (n : Nat) (ls : List DiffLine) :
    (Hunk.numbersFrom n ls).length = ls.countP DiffLine.isNew := by
  induction ls generalizing n with
  | nil => rfl
  | cons l ls ih =>
    rw [Hunk.numbersFrom, List.countP_cons]
    split_ifs
    · rw [List.length_cons, ih]
    · exact ih n

/-- A line shows at most itself, and itself only if it does not look like the header of a file. -/
theorem length_emitted_le (p : Parse) (l : DiffLine) :
    (p.emitted l.kind).length ≤ (if l.isNew then 1 else 0) ∧
      ((p.emitted l.kind).length = (if l.isNew then 1 else 0) → l.Plain) := by
  have hline : (p.emitted .line).length ≤ 1 := by
    unfold Parse.emitted
    cases p.currentFile with
    | none => exact Nat.zero_le 1
    | some file => exact le_refl 1
  cases l with
  | context content => exact ⟨hline, fun _ => trivial⟩
  | removed content => exact ⟨le_refl 0, fun _ => trivial⟩
  | noNewline => exact ⟨le_refl 0, fun _ => trivial⟩
  | added content =>
    show _ ≤ 1 ∧ (_ = 1 → _)
    unfold DiffLine.kind
    simp only
    split_ifs with hfile hnull
    · exact ⟨Nat.zero_le 1, fun h => nomatch h⟩
    · exact ⟨Nat.zero_le 1, fun h => nomatch h⟩
    · exact ⟨hline, fun _ => ⟨Bool.eq_false_iff.mpr hfile, Bool.eq_false_iff.mpr hnull⟩⟩

theorem length_shown_lines_le (p : Parse) {ls : List DiffLine} (h : ∀ l ∈ ls, Unbroken l.text) :
    (p.shown (rawLines (ls.map DiffLine.text))).length ≤ ls.countP DiffLine.isNew ∧
      ((p.shown (rawLines (ls.map DiffLine.text))).length = ls.countP DiffLine.isNew →
        ∀ l ∈ ls, l.Plain) := by
  induction ls generalizing p with
  | nil => exact ⟨le_refl 0, by simp⟩
  | cons l ls ih =>
    obtain ⟨hl, hls⟩ := List.forall_mem_cons.mp h
    obtain ⟨first, hpieces, hkind⟩ := pieces_text l
    rw [show (pieces l.text).tail = [] from hl] at hpieces
    obtain ⟨hle, htight⟩ := length_emitted_le p l
    obtain ⟨hle', htight'⟩ := ih (p.step first) hls
    have hlength : (p.shown (rawLines ((l :: ls).map DiffLine.text))).length =
        (p.emitted l.kind).length + ((p.step first).shown (rawLines (ls.map DiffLine.text))).length := by
      rw [List.map_cons, rawLines_cons, hpieces, List.singleton_append, Parse.shown, hkind,
        List.length_append]
    rw [hlength, List.countP_cons]
    refine ⟨by omega, fun heq => List.forall_mem_cons.mpr ⟨htight (by omega), htight' (by omega)⟩⟩

theorem length_shown_hunks_le (p : Parse) {hs : List Hunk}
    (h : ∀ hunk ∈ hs, Unbroken hunk.header ∧ ∀ l ∈ hunk.lines, Unbroken l.text) :
    (p.shown (rawLines (hs.flatMap fun h => h.header :: h.lines.map DiffLine.text))).length ≤
        (hs.flatMap Hunk.numbers).length ∧
      ((p.shown (rawLines (hs.flatMap fun h => h.header :: h.lines.map DiffLine.text))).length =
          (hs.flatMap Hunk.numbers).length → ∀ hunk ∈ hs, ∀ l ∈ hunk.lines, l.Plain) := by
  induction hs generalizing p with
  | nil => exact ⟨le_refl 0, by simp⟩
  | cons hunk hs ih =>
    obtain ⟨⟨hheader, hlines⟩, hhs⟩ := List.forall_mem_cons.mp h
    obtain ⟨rest, hpieces⟩ := pieces_header hunk
    rw [show (pieces hunk.header).tail = [] from hheader] at hpieces
    set p₁ := p.step (hunk.front ++ rest) with hp₁
    obtain ⟨hle, htight⟩ := length_shown_lines_le p₁ hlines
    obtain ⟨hle', htight'⟩ := ih (p₁.run (rawLines (hunk.lines.map DiffLine.text))) hhs
    have hlength : (p.shown (rawLines ((hunk :: hs).flatMap fun h =>
          h.header :: h.lines.map DiffLine.text))).length =
        (p₁.shown (rawLines (hunk.lines.map DiffLine.text))).length +
          ((p₁.run (rawLines (hunk.lines.map DiffLine.text))).shown
            (rawLines (hs.flatMap fun h => h.header :: h.lines.map DiffLine.text))).length := by
      rw [List.flatMap_cons, rawLines_append, rawLines_cons, hpieces, List.singleton_append,
        List.cons_append, Parse.shown, kindOf_front, ← hp₁, shown_append]
      have hempty : p.emitted (.hunk hunk.newStart) = [] := rfl
      rw [hempty, List.nil_append, List.length_append]
    have hnumbers : ((hunk :: hs).flatMap Hunk.numbers).length =
        hunk.lines.countP DiffLine.isNew + (hs.flatMap Hunk.numbers).length := by
      rw [List.flatMap_cons, List.length_append, Hunk.numbers, length_numbersFrom]
    rw [hlength, hnumbers]
    refine ⟨by omega, fun heq => List.forall_mem_cons.mpr ⟨htight (by omega), htight' (by omega)⟩⟩

/-- The parts of a run, one for each file, with the state that each one starts in. -/
def sections : Parse → List FileDiff → List (Parse × FileDiff)
  | _, [] => []
  | p, f :: files => (p, f) :: sections (p.run (rawLines f.textLines)) files

/-- What is shown for one file. -/
def shownFor (s : Parse × FileDiff) : List (Text × Nat) := s.1.shown (rawLines s.2.textLines)

theorem shown_eq_flatMap (p : Parse) (files : List FileDiff) :
    p.shown (rawLines (files.flatMap FileDiff.textLines)) = (sections p files).flatMap shownFor := by
  induction files generalizing p with
  | nil => rfl
  | cons f files ih =>
    rw [List.flatMap_cons, rawLines_append, shown_append, ih, sections, List.flatMap_cons]
    rfl

theorem map_snd_sections (p : Parse) (files : List FileDiff) :
    (sections p files).map Prod.snd = files := by
  induction files generalizing p with
  | nil => rfl
  | cons f files ih => rw [sections, List.map_cons, ih]

theorem numbers_eq_nil {f : FileDiff} (h : f.newName = none) : f.numbers = [] := by
  have hlines : ∀ hunk ∈ f.hunks, hunk.numbers = [] := by
    intro hunk hhunk
    have hcount : hunk.lines.countP DiffLine.isNew = 0 :=
      List.countP_eq_zero.mpr fun l hl => by rw [f.deleted h hunk hhunk l hl]; exact Bool.false_ne_true
    rw [← length_numbersFrom hunk.newStart] at hcount
    exact List.length_eq_zero_iff.mp hcount
  exact List.flatMap_eq_nil_iff.mpr hlines

theorem length_newSide (f : FileDiff) : f.newSide.length = f.numbers.length := by
  unfold FileDiff.newSide
  cases hname : f.newName with
  | none => rw [numbers_eq_nil hname]; rfl
  | some name => exact List.length_map ..

section Unbroken

variable {f : FileDiff} (hunbroken : ∀ line ∈ f.body, Unbroken line)
include hunbroken

theorem unbroken_hunks : ∀ hunk ∈ f.hunks, Unbroken hunk.header ∧ ∀ l ∈ hunk.lines, Unbroken l.text := by
  intro hunk hhunk
  have hmem : ∀ line ∈ hunk.header :: hunk.lines.map DiffLine.text, Unbroken line :=
    fun line hline => hunbroken line (List.mem_flatMap.mpr ⟨hunk, hhunk, hline⟩)
  exact ⟨hmem _ (List.mem_cons_self ..),
    fun l hl => hmem _ (List.mem_cons_of_mem _ (List.mem_map_of_mem hl))⟩

/-- A file shows at most as many lines as its hunks have. If it shows as many, then no added line looks
like a header, and what it shows is the numbers of the lines under the name that was opened. -/
theorem length_shownFor_le (p : Parse) :
    (shownFor (p, f)).length ≤ f.numbers.length ∧
      ((shownFor (p, f)).length = f.numbers.length →
        (∀ hunk ∈ f.hunks, ∀ l ∈ hunk.lines, l.Plain) ∧
          shownFor (p, f) = marks f.opened f.numbers) := by
  obtain ⟨p', hopened, hshown⟩ := exists_shown_body f p
  have hhunks := unbroken_hunks hunbroken
  obtain ⟨hle, htight⟩ := length_shown_hunks_le p' hhunks
  unfold shownFor
  rw [hshown]
  refine ⟨hle, fun heq => ?_⟩
  have hplain := htight heq
  have hwhole : ∀ hunk ∈ f.hunks, Whole hunk.header ∧ ∀ l ∈ hunk.lines, Whole l.text := by
    have hnone : ∀ {line : Text}, Unbroken line → Whole line := by
      intro line hline piece hpiece
      rw [show (pieces line).tail = [] from hline] at hpiece
      cases hpiece
    exact fun hunk hhunk => ⟨hnone (hhunks hunk hhunk).1, fun l hl => hnone ((hhunks hunk hhunk).2 l hl)⟩
  exact ⟨hplain, shown_hunks hopened f.hunks hwhole hplain⟩

/-- A deleted file has no line that looks like the header of a file. -/
theorem plain_of_deleted (hname : f.newName = none) : f.Plain := by
  have hnot : ∀ {r : Text} {k : Kind}, kindOf r = k → (∀ name, k ≠ .file name) →
      "+++ b/".toList.isPrefixOf r = false := by
    intro r k hkind hk
    refine Bool.eq_false_iff.mpr fun hfront => ?_
    obtain ⟨t, rfl⟩ := List.isPrefixOf_iff_prefix.mp hfront
    exact hk t (hkind.symm.trans (kindOf_added ("++ b/".toList ++ t)))
  unfold FileDiff.Plain
  rw [hname]
  intro line hline r hr
  obtain ⟨hunk, hhunk, hline⟩ := List.mem_flatMap.mp hline
  obtain ⟨hheader, hlines⟩ := unbroken_hunks hunbroken hunk hhunk
  rcases List.mem_cons.mp hline with rfl | hline
  · obtain ⟨rest, hpieces⟩ := pieces_header hunk
    rw [show (pieces hunk.header).tail = [] from hheader] at hpieces
    rw [hpieces] at hr
    obtain rfl := List.mem_singleton.mp hr
    exact hnot (kindOf_front hunk rest) fun name => by simp
  · obtain ⟨l, hl, rfl⟩ := List.mem_map.mp hline
    obtain ⟨first, hpieces, hkind⟩ := pieces_text l
    rw [show (pieces l.text).tail = [] from hlines l hl] at hpieces
    rw [hpieces] at hr
    obtain rfl := List.mem_singleton.mp hr
    refine hnot hkind ?_
    have hold := f.deleted hname hunk hhunk l hl
    cases l with
    | context content => cases hold
    | added content => cases hold
    | removed content => exact fun name h => nomatch h
    | noNewline => exact fun name h => nomatch h

end Unbroken

section Correct

variable {files : List FileDiff} (hunbroken : ∀ f ∈ files, ∀ line ∈ f.body, Unbroken line)
  (hnodup : (newSide files).Nodup) (hcorrect : Correct files)
include hunbroken hnodup hcorrect

/-- All the lines are shown, so each file shows as many as its hunks have: none can make up for another
one. -/
theorem length_shownFor_eq : ∀ s ∈ sections {} files, (shownFor s).length = s.2.numbers.length := by
  have hsubset : newSide files ⊆ (sections {} files).flatMap shownFor := by
    rintro ⟨file, n⟩ hmem
    rw [← shown_eq_flatMap, ← shows_parseDiffLines]
    exact (hcorrect file n).mpr hmem
  have hlength := (List.subperm_of_subset hnodup hsubset).length_le
  have hnumbers : (newSide files).length =
      ((sections {} files).map fun s => s.2.numbers.length).sum := by
    unfold newSide
    rw [List.length_flatMap, ← map_snd_sections {} files, List.map_map, map_snd_sections]
    exact congrArg List.sum (List.map_congr_left fun s _ => length_newSide s.2)
  rw [hnumbers, List.length_flatMap] at hlength
  refine Shares.eq_of_sum_le (fun s hs => ?_) hlength
  have hfile : s.2 ∈ files := by
    rw [← map_snd_sections {} files]
    exact List.mem_map_of_mem hs
  exact (length_shownFor_le (hunbroken s.2 hfile) s.1).1

/-- Each file shows the numbers of its lines, under the name that was opened. -/
theorem shownFor_eq_marks {f : FileDiff} (hf : f ∈ files) :
    (∀ hunk ∈ f.hunks, ∀ l ∈ hunk.lines, l.Plain) ∧
      (marks f.opened f.numbers).length = f.numbers.length ∧
      ∀ line ∈ marks f.opened f.numbers, line ∈ newSide files := by
  have htight := length_shownFor_eq hunbroken hnodup hcorrect
  have hsection := hf
  rw [← map_snd_sections {} files] at hsection
  obtain ⟨s, hs, rfl⟩ := List.mem_map.mp hsection
  obtain ⟨hplain, hmarks⟩ := (length_shownFor_le (hunbroken s.2 hf) s.1).2 (htight s hs)
  refine ⟨hplain, by rw [← hmarks]; exact htight s hs, ?_⟩
  rintro ⟨file, n⟩ hmem
  rw [← hmarks] at hmem
  rw [← hcorrect file n, shows_parseDiffLines, shown_eq_flatMap]
  exact List.mem_flatMap.mpr ⟨s, hs, hmem⟩

/-- A file with lines is opened under its name, as it is written. -/
theorem opened_eq {f : FileDiff} (hf : f ∈ files) (hnumbers : f.numbers ≠ []) {name : Text}
    (hname : f.newName = some name) :
    name.any needsQuote = false ∧ f.opened = some (written name) := by
  obtain ⟨-, hlength, -⟩ := shownFor_eq_marks hunbroken hnodup hcorrect hf
  unfold FileDiff.opened at hlength ⊢
  rw [hname, Option.bind_some] at hlength ⊢
  split_ifs at hlength ⊢ with hquote
  · exact absurd (List.length_eq_zero_iff.mp hlength.symm) hnumbers
  · exact ⟨Bool.eq_false_iff.mpr hquote, rfl⟩

/-- The name of a file with lines is plain. With the tab that git writes behind a blank it would be the
name of another file, and git would quote that one. -/
theorem plainName_of_correct {f : FileDiff} (hf : f ∈ files) (hnumbers : f.numbers ≠ []) {name : Text}
    (hname : f.newName = some name) : PlainName name := by
  obtain ⟨hquote, hopened⟩ := opened_eq hunbroken hnodup hcorrect hf hnumbers hname
  refine ⟨hquote, fun hblank => ?_⟩
  obtain ⟨-, -, hmem⟩ := shownFor_eq_marks hunbroken hnodup hcorrect hf
  obtain ⟨n, hn⟩ := List.exists_mem_of_ne_nil _ hnumbers
  have hshown : (written name, n) ∈ newSide files := by
    refine hmem _ ?_
    rw [hopened]
    exact List.mem_map_of_mem hn
  obtain ⟨g, hg, hside⟩ := List.mem_flatMap.mp hshown
  unfold FileDiff.newSide at hside
  cases hother : g.newName with
  | none =>
    rw [hother] at hside
    cases hside
  | some other =>
    rw [hother] at hside
    obtain ⟨m, hm, heq⟩ := List.mem_map.mp hside
    obtain ⟨rfl, -⟩ := Prod.mk.inj heq
    obtain ⟨hother, -⟩ := opened_eq hunbroken hnodup hcorrect hg (List.ne_nil_of_mem hm) hother
    have htab : '\t' ∈ written name := by
      unfold written
      rw [if_pos hblank]
      exact List.mem_append_right _ (List.mem_singleton_self _)
    have hneeds := List.any_eq_false.mp hother '\t' htab
    exact hneeds rfl

theorem plain_of_correct : ∀ f ∈ files, f.Plain := by
  intro f hf
  obtain ⟨hplain, -, -⟩ := shownFor_eq_marks hunbroken hnodup hcorrect hf
  cases hname : f.newName with
  | none => exact plain_of_deleted (hunbroken f hf) hname
  | some name =>
    unfold FileDiff.Plain
    rw [hname]
    refine ⟨fun hnumbers => plainName_of_correct hunbroken hnodup hcorrect hf hnumbers hname, ?_, hplain⟩
    intro line hline piece hpiece
    rw [show (pieces line).tail = [] from hunbroken f hf line hline] at hpiece
    cases hpiece

end Correct

/-- The result shows exactly the lines of the new side when each file is plain. Where Python takes every
line of the files for one line, and no line comes twice, that is the exact condition. -/
theorem parseDiffLines_correct (files : List FileDiff) :
    ((∀ f ∈ files, f.Plain) → Correct files) ∧
      ((∀ f ∈ files, ∀ line ∈ f.body, Unbroken line) → (newSide files).Nodup →
        (Correct files ↔ ∀ f ∈ files, f.Plain)) :=
  ⟨correct_of_plain, fun hunbroken hnodup =>
    ⟨fun hcorrect => plain_of_correct hunbroken hnodup hcorrect, correct_of_plain⟩⟩

/-- A change to the second line of a file. -/
def changed (content : Line) : FileDiff where
  oldName := some "notes.md".toList
  newName := some "notes.md".toList
  extended := [.index 0x1f3a 0x2b4c (some 100644)]
  hunks := [⟨1, 1, ⟨[], by decide⟩, [.context ⟨"# Notes".toList, by decide⟩,
    .removed ⟨"old".toList, by decide⟩, .added content]⟩]
  deleted := by simp

theorem changed_correct : Correct [changed ⟨"new".toList, by decide⟩] := by
  refine (parseDiffLines_correct _).1 fun f hf => ?_
  obtain rfl := List.mem_singleton.mp hf
  refine ⟨fun _ => ⟨by decide +kernel, by decide⟩, ?_, ?_⟩
  · intro line hline
    have hall : ∀ line ∈ (changed ⟨"new".toList, by decide⟩).body, (pieces line).tail = [] := by
      decide +kernel
    intro piece hpiece
    rw [hall line hline] at hpiece
    cases hpiece
  · intro hunk hhunk l hl
    obtain rfl := List.mem_singleton.mp hhunk
    simp only [List.mem_cons, List.not_mem_nil, or_false] at hl
    rcases hl with rfl | rfl | rfl
    · trivial
    · trivial
    · exact ⟨by decide, by decide⟩

/-- The line `++ b/old.md` of a file is an added line `+++ b/old.md`, which the parser takes for the
header of another file. -/
theorem header_like_not_correct : ¬ Correct [changed ⟨"++ b/old.md".toList, by decide⟩] := by
  intro hcorrect
  obtain ⟨ns, hget, hmem⟩ := (hcorrect "notes.md".toList 2).mpr (by decide)
  have hresult : (parseDiffLines (render [changed ⟨"++ b/old.md".toList, by decide⟩])).get
      "notes.md".toList = some [1] := by decide +kernel
  rw [hresult, Option.some.injEq] at hget
  rw [← hget] at hmem
  cases List.mem_singleton.mp hmem

end Git.Diff
