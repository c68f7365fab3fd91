import SovaVerified.Core.Proofs.OpenQuestionsProofs
import SovaVerified.Dashboard.SpecService

/-!
# The line of a question and of its answer

A line is its list marker, the question and white space. An answer that is put in place of the question is read
back with it, when the question has no mark of its own between the marks that are written around it.
-/

namespace Dashboard.SpecService

open Utils Core.SpecText
open Utils.Markdown (Fence fenceAfter boundary closesFence openFence)

variable {t u x y line question answer given : Text}

/-! ## The parts of a line -/

/-- The list marker, with the white space behind it. -/
def listMark (t : Text) : Text :=
  if t.head?.any isListMark then t.takeWhile isListMark ++ (t.dropWhile isListMark).takeWhile Text.isSpace
  else []

/-- What a line has to say: the text without its list marker. -/
def cleaned (line : Text) : Text := withoutListMark (Text.strip line)

/-- The line up to what it says. -/
def lead (line : Text) : Text := line.takeWhile Text.isSpace ++ listMark (Text.strip line)

/-- The white space at the end of the line. -/
def trail (line : Text) : Text := (Text.lstrip line).drop (Text.strip line).length

theorem listMark_append (t : Text) : listMark t ++ withoutListMark t = t := by
  unfold listMark withoutListMark
  split_ifs
  · rw [List.append_assoc, List.takeWhile_append_dropWhile, List.takeWhile_append_dropWhile]
  · rfl

theorem strip_append_trail (line : Text) : Text.strip line ++ trail line = Text.lstrip line := by
  have hfront : Text.strip line <+: Text.lstrip line := Text.rstrip_isPrefix _
  exact List.prefix_iff_eq_append.mp hfront

theorem isSpace_of_mem_trail : ∀ c ∈ trail line, Text.isSpace c = true := by
  obtain ⟨s, hs, hspace⟩ := Text.exists_rstrip (Text.lstrip line)
  have hsame := (strip_append_trail line).trans hs
  rw [Text.strip_eq, List.append_cancel_left_eq] at hsame
  rw [hsame]
  exact hspace

theorem line_eq (line : Text) : line = lead line ++ (cleaned line ++ trail line) := by
  unfold lead cleaned
  rw [List.append_assoc, ← List.append_assoc (listMark _), listMark_append, strip_append_trail]
  exact (List.takeWhile_append_dropWhile (p := Text.isSpace) (l := line)).symm

/-- What a line says begins without white space. -/
theorem head_cleaned (line : Text) : ∀ c ∈ (cleaned line).head?, Text.isSpace c = false := by
  unfold cleaned withoutListMark
  split_ifs
  · exact Text.head_lstrip _
  · exact Text.head_strip line

theorem rstrip_of_suffix (hsuffix : u <:+ t) (ht : Text.rstrip t = t) : Text.rstrip u = u := by
  obtain ⟨s, rfl⟩ := hsuffix
  rw [Text.rstrip_append] at ht
  split_ifs at ht with hu
  · have hlen := congrArg List.length ht
    have hle := (Text.rstrip_isPrefix s).length_le
    rw [List.length_append] at hlen
    have hnil : u = [] := List.eq_nil_of_length_eq_zero (by omega)
    rw [hnil]
    rfl
  · exact List.append_cancel_left ht

theorem strip_cleaned (line : Text) : Text.strip (cleaned line) = cleaned line := by
  rw [Text.strip_eq, Text.lstrip_of_head (head_cleaned line)]
  refine rstrip_of_suffix ⟨listMark (Text.strip line), ?_⟩ (Text.rstrip_strip line)
  exact listMark_append (Text.strip line)

/-- A line that is read says something. -/
theorem readLine_eq (h : readLine line = some (question, answer)) :
    cleaned line ≠ [] ∧ splitAnswer (cleaned line) = (question, answer) ∧
      (Text.strip line).head? ≠ some '(' := by
  unfold readLine at h
  dsimp only at h
  split_ifs at h with hskip hempty
  refine ⟨hempty, Option.some.inj h, fun hparen => hskip (.inr hparen)⟩

/-- What is read of a line is in it. -/
theorem mem_of_readLine (h : readLine line = some (question, answer)) {c : Char} (hc : c ∈ question) :
    c ∈ line := by
  obtain ⟨-, hsplit, -⟩ := readLine_eq h
  have hpart : c ∈ cleaned line := by
    unfold splitAnswer at hsplit
    dsimp only at hsplit
    split_ifs at hsplit
    · split at hsplit
      · obtain ⟨rfl, -⟩ := Prod.mk.inj hsplit
        exact List.mem_of_mem_drop (List.mem_of_mem_take (Text.mem_strip hc))
      · obtain ⟨rfl, -⟩ := Prod.mk.inj hsplit
        exact List.mem_of_mem_drop (Text.mem_strip hc)
    · obtain ⟨rfl, -⟩ := Prod.mk.inj hsplit
      exact hc
  rw [line_eq line]
  exact List.mem_append_right _ (List.mem_append_left _ hpart)

/-- A question is read without white space around it. -/
theorem strip_question (h : readLine line = some (question, answer)) : Text.strip question = question := by
  obtain ⟨-, hsplit, -⟩ := readLine_eq h
  unfold splitAnswer at hsplit
  dsimp only at hsplit
  split_ifs at hsplit
  · split at hsplit
    · obtain ⟨rfl, -⟩ := Prod.mk.inj hsplit
      exact Text.strip_strip _
    · obtain ⟨rfl, -⟩ := Prod.mk.inj hsplit
      exact Text.strip_strip _
  · obtain ⟨rfl, -⟩ := Prod.mk.inj hsplit
    exact strip_cleaned line

/-! ## The mark of an answer -/

theorem findMarkerFrom_cons (i : Nat) (prev : Option Char) (c : Char) (t : Text) :
    findMarkerFrom i prev (c :: t) =
      if "A:".toList.isPrefixOf (c :: t) ∧ 2 ≤ i ∧ prev.any Text.isSpace = true then some i
      else findMarkerFrom (i + 1) (some c) t := rfl

/-- The first mark is the one that is written, when the text in front of it has none. -/
theorem findMarkerFrom_append {i : Nat} {prev : Option Char} (hnone : findMarkerFrom i prev (x ++ [' ']) = none)
    (hi : 1 ≤ i + x.length) (y : Text) :
    findMarkerFrom i prev (x ++ ' ' :: ("A:".toList ++ y)) = some (i + x.length + 1) := by
  induction x generalizing i prev with
  | nil =>
    have hi' : 2 ≤ i + 1 := by
      rw [List.length_nil] at hi
      omega
    have hmark : ("A:".toList.isPrefixOf ("A:".toList ++ y) : Bool) = true :=
      List.isPrefixOf_iff_prefix.mpr (List.prefix_append _ _)
    rw [List.nil_append, findMarkerFrom_cons, if_neg (fun h => absurd h.1 (by simp [List.isPrefixOf]))]
    show findMarkerFrom (i + 1) (some ' ') ('A' :: ':' :: y) = _
    rw [findMarkerFrom_cons, if_pos ⟨hmark, hi', by decide⟩]
    rfl
  | cons c x ih =>
    rw [List.cons_append, findMarkerFrom_cons] at hnone
    rw [List.cons_append, findMarkerFrom_cons]
    split_ifs at hnone with hmark
    -- The mark has no white space, and so it does not go on behind the text.
    have hsame : ("A:".toList.isPrefixOf (c :: (x ++ ' ' :: ("A:".toList ++ y)))) =
        "A:".toList.isPrefixOf (c :: (x ++ [' '])) := by
      cases x with
      | nil => simp [List.isPrefixOf]
      | cons d x => simp [List.isPrefixOf]
    rw [hsame, if_neg hmark, ih hnone (by omega), List.length_cons]
    congr 1
    omega

/-- The text between the marks has no mark of its own. -/
def Unmarked (question : Text) : Prop := findAnswerMarker (' ' :: (question ++ [' '])) = none

instance (question : Text) : Decidable (Unmarked question) := inferInstanceAs (Decidable (_ = _))

theorem strip_spaced (hq : Text.strip question = question) :
    Text.strip (' ' :: (question ++ [' '])) = question := by
  have hspace : ∀ c ∈ [' '], Text.isSpace c = true := Text.forall_mem_of_all rfl
  have hback := Text.strip_append hspace (' ' :: question)
  rw [List.cons_append] at hback
  rw [hback, Text.strip_eq]
  show Text.rstrip (Text.lstrip question) = question
  rw [← Text.strip_eq, hq]

/-- What is written is read back. -/
theorem splitAnswer_entry (hq : Text.strip question = question) (hunmarked : Unmarked question)
    (hgiven : Text.strip given = given) : splitAnswer (entry question given) = (question, given) := by
  have hrest : (entry question given).drop 2 = ' ' :: (question ++ ' ' :: ("A:".toList ++ ' ' :: given)) := rfl
  have hmarked : "Q:".toList.isPrefixOf (entry question given) = true := rfl
  have hfound : findAnswerMarker (' ' :: (question ++ ' ' :: ("A:".toList ++ ' ' :: given))) =
      some (question.length + 2) := by
    have happend : findMarkerFrom 0 none ((' ' :: question) ++ ' ' :: ("A:".toList ++ ' ' :: given)) =
        some (0 + (' ' :: question).length + 1) := by
      have hnone : findMarkerFrom 0 none ((' ' :: question) ++ [' ']) = none := hunmarked
      refine findMarkerFrom_append hnone ?_ (' ' :: given)
      rw [List.length_cons]
      omega
    rw [List.cons_append, List.length_cons] at happend
    unfold findAnswerMarker
    rw [happend]
    congr 1
    omega
  unfold splitAnswer
  rw [if_pos hmarked]
  dsimp only
  rw [hrest, hfound]
  dsimp only
  have hsplit : ' ' :: (question ++ ' ' :: ("A:".toList ++ ' ' :: given)) =
      (' ' :: (question ++ [' '])) ++ ("A:".toList ++ ' ' :: given) := by simp
  have hlen : (' ' :: (question ++ [' '])).length = question.length + 2 := by simp
  rw [hsplit, List.take_left' hlen, ← List.drop_drop, List.drop_left' hlen, strip_spaced hq]
  have hback : Text.strip ((("A:".toList ++ ' ' :: given)).drop 2) = given := by
    show Text.rstrip (Text.lstrip given) = given
    rw [← Text.strip_eq, hgiven]
  rw [hback]

/-! ## The line that is written -/

/-- The line with the question and the answer in place of what it said. -/
def newLine (line question given : Text) : Text := lead line ++ (entry question given ++ trail line)

/-- A list marker begins with one of its characters. -/
theorem listMark_head (t : Text) : ∀ c ∈ (listMark t).head?, isListMark c = true ∧ t.head? = some c := by
  intro c hc
  unfold listMark at hc
  split_ifs at hc with hmark
  · cases t with
    | nil => cases hmark
    | cons d t =>
      have hd : isListMark d = true := hmark
      rw [List.takeWhile_cons, if_pos hd] at hc
      obtain rfl : d = c := Option.some.inj hc
      exact ⟨hd, rfl⟩
  · cases hc

theorem dropWhile_of_head {p : Char → Bool} (ht : ∀ c ∈ t.head?, p c = false) : t.dropWhile p = t := by
  cases t with
  | nil => rfl
  | cons c t =>
    rw [List.dropWhile_cons, ht c rfl]
    rfl

/-- None of the characters has another lower case. -/
theorem lowerChar_of_isListMark {c : Char} (hc : isListMark c = true) : Text.lowerChar c = [c] := by
  have hzeros : ∀ first ∈ Text.decimalZeros, (first + 10 ≤ 65 ∨ 90 < first) ∧
      (first + 10 ≤ 0x212a ∨ 0x212a < first) ∧ (first + 10 ≤ 0x130 ∨ 0x130 < first) := by decide
  unfold isListMark at hc
  simp only [Bool.or_eq_true, beq_iff_eq] at hc
  rcases hc with ((rfl | rfl) | hc) | rfl
  · rfl
  · rfl
  · unfold Text.isDecimal at hc
    obtain ⟨first, hfirst, hrange⟩ := List.any_eq_true.mp hc
    rw [Bool.and_eq_true, decide_eq_true_eq, decide_eq_true_eq] at hrange
    have hbounds := hzeros first hfirst
    refine lowerChar_of_other ?_ ?_
    · omega
    · omega
  · rfl

/-- What is written behind a list marker is found behind it. -/
theorem withoutListMark_append {c : Char} (hmark : isListMark c = false) (hspace : Text.isSpace c = false)
    (t y : Text) : withoutListMark (listMark t ++ c :: y) = c :: y := by
  by_cases ht : t.head?.any isListMark = true
  · have hhead : (listMark t ++ c :: y).head?.any isListMark = true := by
      cases t with
      | nil => cases ht
      | cons d t =>
        have hd : isListMark d = true := ht
        unfold listMark
        rw [if_pos ht, List.takeWhile_cons, if_pos hd]
        exact hd
    have hfirst : ∀ d ∈ ((t.dropWhile isListMark).takeWhile Text.isSpace ++ c :: y).head?,
        isListMark d = false := by
      intro d hd
      have hnot := List.head?_dropWhile_not isListMark t
      cases hrest : t.dropWhile isListMark with
      | nil =>
        rw [hrest] at hd
        obtain rfl : c = d := Option.some.inj hd
        exact hmark
      | cons e rest =>
        rw [hrest] at hd hnot
        rw [List.takeWhile_cons] at hd
        have he : isListMark e = false := by simpa using hnot
        split_ifs at hd
        · obtain rfl : e = d := Option.some.inj hd
          exact he
        · obtain rfl : c = d := Option.some.inj hd
          exact hmark
    unfold withoutListMark
    rw [if_pos hhead]
    unfold listMark
    rw [if_pos ht, List.append_assoc, List.dropWhile_append_of_pos fun d hd => List.mem_takeWhile_imp hd,
      dropWhile_of_head hfirst, List.dropWhile_append_of_pos fun d hd => List.mem_takeWhile_imp hd,
      List.dropWhile_cons, if_neg (by rw [hspace]; exact Bool.false_ne_true)]
  · have hnone : listMark t = [] := if_neg ht
    unfold withoutListMark
    rw [hnone, List.nil_append, if_neg]
    show ¬ isListMark c = true
    rw [hmark]
    exact Bool.false_ne_true

section

variable (hne : given ≠ []) (hgiven : Text.strip given = given)

theorem entry_cons (question given : Text) :
    entry question given = 'Q' :: (": ".toList ++ (question ++ (" A: ".toList ++ given))) := rfl

/-- The line begins with a list marker or with the mark of the question. -/
theorem lstrip_newLine (line question given : Text) :
    Text.lstrip (newLine line question given) =
        listMark (Text.strip line) ++ (entry question given ++ trail line) ∧
      ∃ c rest, Text.lstrip (newLine line question given) = c :: rest ∧ (isListMark c = true ∨ c = 'Q') ∧
        (c = 'Q' ∨ (Text.strip line).head? = some c) := by
  have hhead : ∃ c rest, listMark (Text.strip line) ++ (entry question given ++ trail line) = c :: rest ∧
      (isListMark c = true ∨ c = 'Q') ∧ (c = 'Q' ∨ (Text.strip line).head? = some c) := by
    cases hmark : listMark (Text.strip line) with
    | nil =>
      rw [entry_cons]
      exact ⟨'Q', _, rfl, .inr rfl, .inl rfl⟩
    | cons c rest =>
      obtain ⟨hc, hfirst⟩ := listMark_head (Text.strip line) c (by rw [hmark]; rfl)
      exact ⟨c, _, rfl, .inl hc, .inr hfirst⟩
  have hstrip : Text.lstrip (newLine line question given) =
      listMark (Text.strip line) ++ (entry question given ++ trail line) := by
    unfold newLine lead
    rw [List.append_assoc]
    refine Text.lstrip_append (fun c hc => List.mem_takeWhile_imp hc) ?_
    intro c hc
    obtain ⟨d, rest, hcons, -, hd⟩ := hhead
    rw [hcons] at hc
    obtain rfl : d = c := Option.some.inj hc
    rcases hd with rfl | hd
    · decide
    · exact Text.head_strip line d hd
  exact ⟨hstrip, hstrip ▸ hhead⟩

include hne hgiven

theorem strip_newLine (line question : Text) :
    Text.strip (newLine line question given) = listMark (Text.strip line) ++ entry question given := by
  have hlast : Text.rstrip given = given := by
    rw [← hgiven]
    exact Text.rstrip_strip given
  have hfront : listMark (Text.strip line) ++ entry question given =
      (listMark (Text.strip line) ++ ("Q: ".toList ++ (question ++ " A: ".toList))) ++ given := by
    unfold entry
    simp only [List.append_assoc]
  rw [Text.strip_eq, (lstrip_newLine line question given).1, ← List.append_assoc, Text.rstrip_append,
    if_pos (Text.rstrip_eq_nil isSpace_of_mem_trail), hfront, Text.rstrip_append, hlast, if_neg hne]

/-- The question and the answer are read back. -/
theorem readLine_newLine (hq : Text.strip question = question) (hunmarked : Unmarked question)
    (hparen : (Text.strip line).head? ≠ some '(') :
    readLine (newLine line question given) = some (question, given) := by
  have hfound :
      withoutListMark (listMark (Text.strip line) ++ entry question given) = entry question given := by
    rw [entry_cons]
    exact withoutListMark_append (by decide +kernel) (by decide) _ _
  have hskip : ¬ (listMark (Text.strip line) ++ entry question given = [] ∨
      (listMark (Text.strip line) ++ entry question given).head? = some '(') := by
    rintro (hnil | hhead)
    · rw [entry_cons] at hnil
      exact absurd (List.append_eq_nil_iff.mp hnil).2 (List.cons_ne_nil _ _)
    · cases hmark : listMark (Text.strip line) with
      | nil =>
        rw [hmark, List.nil_append, entry_cons] at hhead
        exact absurd (Option.some.inj hhead) (by decide)
      | cons c rest =>
        rw [hmark] at hhead
        obtain ⟨-, hfirst⟩ := listMark_head (Text.strip line) c (by rw [hmark]; rfl)
        exact hparen (hfirst.trans hhead)
  unfold readLine
  dsimp only
  rw [strip_newLine hne hgiven, if_neg hskip, hfound, if_neg (by rw [entry_cons]; exact List.cons_ne_nil _ _),
    splitAnswer_entry hq hunmarked hgiven]

/-- The line that is written neither opens nor closes a fence. -/
theorem fenceAfter_newLine (line question : Text) (st : Option Fence) :
    fenceAfter st (newLine line question given) = st := by
  cases st with
  | none =>
    obtain ⟨-, c, rest, hcons, hc, -⟩ := lstrip_newLine line question given
    refine Markdown.openFence_of_head (c := c) ?_ (by rw [hcons]; rfl)
    rcases hc with hc | rfl
    · rw [Bool.or_eq_false_iff, beq_eq_false_iff_ne, beq_eq_false_iff_ne]
      constructor
      · rintro rfl
        exact absurd hc (by decide +kernel)
      · rintro rfl
        exact absurd hc (by decide +kernel)
    · decide
  | some fence =>
    have hopen : closesFence fence (newLine line question given) = false := by
      unfold closesFence
      dsimp only
      rw [strip_newLine hne hgiven, Bool.eq_false_iff, Ne, Bool.and_eq_true, Bool.and_eq_true]
      rintro ⟨⟨-, hall⟩, -⟩
      rw [List.all_eq_true] at hall
      have hmark : 'Q' == fence.char :=
        hall 'Q' (List.mem_append_right _ (by rw [entry_cons]; exact List.mem_cons_self))
      have hcolon : ':' == fence.char :=
        hall ':' (List.mem_append_right _ (by rw [entry_cons]; exact List.mem_cons_of_mem _ List.mem_cons_self))
      rw [beq_iff_eq] at hmark hcolon
      exact absurd (hmark.trans hcolon.symm) (by decide)
    rw [Markdown.fenceAfter_some, hopen]
    rfl

omit hne hgiven

/-- The line that is written is no heading. -/
theorem boundary_newLine (line question given : Text) : boundary (newLine line question given) = false := by
  rw [Bool.eq_false_iff]
  intro hline
  obtain ⟨rest, hrest⟩ := Markdown.hashed_boundary _ hline
  obtain ⟨-, c, rest', hcons, hc, -⟩ := lstrip_newLine line question given
  rw [Markdown.hashed_boundary.lstrip hline, hrest] at hcons
  obtain ⟨rfl, -⟩ := List.cons.inj hcons
  rcases hc with hc | hc
  · exact absurd hc (by decide +kernel)
  · exact absurd hc (by decide)

end

end Dashboard.SpecService
