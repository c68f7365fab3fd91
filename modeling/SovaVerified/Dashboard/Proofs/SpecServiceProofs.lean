import Mathlib.Data.List.Forall2
import SovaVerified.Dashboard.SpecService
import SovaVerified.Regex.Proofs.LineProofs
import SovaVerified.Regex.Proofs.SubProofs

/-!
# What approving and rejecting does to a spec

The guard and the reader look for the first status line whatever its case, and the writer for the first one that
is spelled as the program spells it. They agree when the first of all is spelled so.
-/

namespace Dashboard.SpecService

open Regex Core.SpecText

variable {A : Text.Alphabet} {ic : Bool} {text front label ws word back x y s t u v w : Text}

/-! ## The label of a status line -/

def statusLabel : Text := "**Status**:".toList

/-- The character of a text stands for the one of the label. -/
def standsFor (ic : Bool) (c d : Char) : Bool := if ic then foldEq c.toLower d else d == c

/-- A spelling of the label. -/
def Spelled (ic : Bool) (label : Text) : Prop := List.Forall₂ (fun c d => standsFor ic c d = true) statusLabel label

theorem matches_escape (ic : Bool) (t u : Text) :
    Matches (escape ic t) u ↔ List.Forall₂ (fun c d => standsFor ic c d = true) t u := by
  induction t generalizing u with
  | nil => exact List.forall₂_nil_left_iff.symm
  | cons c t ih =>
    rw [List.forall₂_cons_left_iff]
    constructor
    · rintro ⟨v, w, rfl, ⟨d, hd, rfl⟩, hw⟩
      refine ⟨d, w, ?_, (ih w).mp hw, rfl⟩
      cases ic <;> exact hd
    · rintro ⟨d, w, hd, hw, rfl⟩
      refine ⟨[d], w, rfl, ⟨d, ?_, rfl⟩, (ih w).mpr hw⟩
      cases ic <;> exact hd

theorem run_escape {α : Type} (h : List.Forall₂ (fun c d => standsFor ic c d = true) t u) (b : Text) (g : Groups)
    (k : Text → Groups → Option α) : run (escape ic t) (u ++ b) g k = k b g := by
  induction h with
  | nil => rfl
  | @cons c d t u hd _ ih =>
    have hstands : (if ic then foldEq c.toLower else (· == c)) d = true := by
      cases ic <;> exact hd
    show (if (if ic then foldEq c.toLower else (· == c)) d then run (escape ic t) (u ++ b) g k else none) = _
    rw [if_pos hstands, ih]

theorem standsFor_colon {d : Char} (h : standsFor ic ':' d = true) : d = ':' := by
  by_contra hne
  cases ic with
  | false => exact hne (beq_iff_eq.mp h)
  | true =>
    have hfold : foldEq ':' d = false := foldEq_symbol (by decide) hne
    have hcolon : foldEq ':' d = true := h
    rw [hfold] at hcolon
    cases hcolon

theorem standsFor_star {d : Char} (h : standsFor ic '*' d = true) : d = '*' := by
  by_contra hne
  cases ic with
  | false => exact hne (beq_iff_eq.mp h)
  | true =>
    have hfold : foldEq '*' d = false := foldEq_symbol (by decide) hne
    have hstar : foldEq '*' d = true := h
    rw [hfold] at hstar
    cases hstar

theorem forall₂_snoc {R : Char → Char → Prop} {c : Char} (h : List.Forall₂ R (t ++ [c]) u) :
    ∃ init d, u = init ++ [d] ∧ List.Forall₂ R t init ∧ R c d := by
  induction t generalizing u with
  | nil =>
    obtain ⟨d, rest, hd, hrest, rfl⟩ := List.forall₂_cons_left_iff.mp h
    rw [List.forall₂_nil_left_iff.mp hrest]
    exact ⟨[], d, rfl, .nil, hd⟩
  | cons b t ih =>
    obtain ⟨e, rest, he, hrest, rfl⟩ := List.forall₂_cons_left_iff.mp h
    obtain ⟨init, d, rfl, hinit, hd⟩ := ih hrest
    exact ⟨e :: init, d, rfl, .cons he hinit, hd⟩

theorem notMem_of_forall₂ {R : Char → Char → Prop} {d : Char} (h : List.Forall₂ R t u) (hno : ∀ c ∈ t, ¬ R c d) :
    d ∉ u := by
  induction h with
  | nil => exact List.not_mem_nil
  | cons hab _ ih =>
    obtain ⟨ha, hrest⟩ := List.forall_mem_cons.mp hno
    rw [List.mem_cons, not_or]
    refine ⟨?_, ih hrest⟩
    rintro rfl
    exact ha hab

/-- A spelling ends in its only colon. -/
theorem Spelled.colon (h : Spelled ic label) : ∃ init, label = init ++ [':'] ∧ ':' ∉ init := by
  have hsplit : statusLabel = "**Status**".toList ++ [':'] := rfl
  unfold Spelled at h
  rw [hsplit] at h
  obtain ⟨init, d, rfl, hinit, hd⟩ := forall₂_snoc h
  rw [standsFor_colon hd]
  have hno : ∀ c ∈ "**Status**".toList, standsFor ic c ':' = false :=
    Text.forall_mem_of_all (by cases ic <;> decide)
  refine ⟨init, rfl, notMem_of_forall₂ hinit ?_⟩
  intro c hc hcolon
  rw [hno c hc] at hcolon
  cases hcolon

/-- A spelling begins with a star. -/
theorem Spelled.star (h : Spelled ic label) : ∃ rest, label = '*' :: rest := by
  have hsplit : statusLabel = '*' :: "*Status**:".toList := rfl
  unfold Spelled at h
  rw [hsplit] at h
  obtain ⟨d, rest, hd, -, rfl⟩ := List.forall₂_cons_left_iff.mp h
  exact ⟨rest, by rw [standsFor_star hd]⟩

theorem Spelled.length (h : Spelled ic label) : label.length = 11 := h.length_eq.symm

theorem spelled_exact : Spelled ic statusLabel := by
  refine List.forall₂_same.mpr (Text.forall_mem_of_all ?_)
  cases ic <;> decide

theorem Spelled.fold (h : Spelled false label) : label = statusLabel :=
  (matches_escape_iff _ _).mp ((matches_escape false _ _).mpr h)

/-- No spelling begins within another one. -/
theorem Spelled.not_overlap (h : Spelled ic label) {label' : Text} (h' : Spelled true label') (hy : y ≠ [])
    (hx : x ≠ []) (hsplit : label' = y ++ x) (hjoin : x ++ t = label ++ s) : False := by
  obtain ⟨init, hinit, hcolon⟩ := h.colon
  obtain ⟨init', hinit', -⟩ := h'.colon
  have hlast : x.getLast? = some ':' := by
    rw [hinit'] at hsplit
    have hends := congrArg List.getLast? hsplit
    rwa [List.getLast?_concat, List.getLast?_append_of_ne_nil _ hx, eq_comm] at hends
  obtain ⟨x', rfl⟩ := List.getLast?_eq_some_iff.mp hlast
  have hshort : (x' ++ [':']).length ≤ init.length := by
    have hlen := h.length
    have hlen' := h'.length
    have hpos := List.length_pos_iff.mpr hy
    rw [hinit] at hlen
    rw [hsplit] at hlen'
    simp only [List.length_append, List.length_singleton] at hlen hlen' ⊢
    omega
  have hin : x' ++ [':'] <+: init := by
    have hleft : x' ++ [':'] <+: label ++ s := ⟨t, hjoin⟩
    rw [hinit, List.append_assoc] at hleft
    exact List.prefix_of_prefix_length_le hleft (List.prefix_append init _) hshort
  exact hcolon (hin.subset (by simp))

/-! ## A status line -/

/-- The white space and the word behind the label. -/
structure IsValue (A : Text.Alphabet) (ws word back : Text) : Prop where
  space : ∀ c ∈ ws, Text.isSpace c = true
  nonempty : word ≠ []
  chars : ∀ c ∈ word, A.isWord c = true
  stops : ∀ c ∈ back.head?, A.isWord c = false

theorem isWord_of_isSpace {c : Char} (h : Text.isSpace c = true) : A.isWord c = false := by
  have hunder : (c == '_') = false := by
    rw [beq_eq_false_iff_ne]
    rintro rfl
    revert h
    decide
  unfold Text.Alphabet.isWord
  rw [A.not_space c h, hunder]
  rfl

theorem isWord_star : A.isWord '*' = false := by
  unfold Text.Alphabet.isWord
  rw [A.ascii '*' (by decide)]
  rfl

theorem run_statusRe {α : Type} (hlabel : Spelled ic label) (hvalue : IsValue A ws word back)
    {k : Text → Groups → Option α} {z : α} (hk : k back [(1, word)] = some z) :
    run (statusRe A ic) (label ++ (ws ++ (word ++ back))) [] k = some z := by
  unfold statusRe
  rw [run_seq]
  refine (run_escape hlabel _ _ _).trans ?_
  rw [run_seq]
  obtain ⟨c, rest, hword⟩ := List.exists_cons_of_ne_nil hvalue.nonempty
  have hhead : ∀ d ∈ (word ++ back).head?, Text.isSpace d = false := by
    intro d hd
    rw [hword] at hd
    obtain rfl : c = d := Option.some.inj hd
    rw [← Bool.not_eq_true]
    intro hspace
    have hchar := hvalue.chars c (hword ▸ List.mem_cons_self)
    rw [isWord_of_isSpace hspace] at hchar
    cases hchar
  refine run_rep_all (Nat.zero_le _) (by simp) hvalue.space hhead ?_
  rw [run_cap]
  refine run_rep_all (List.length_pos_iff.mpr hvalue.nonempty) (by simp) hvalue.chars hvalue.stops ?_
  rw [take_captured]
  exact hk

theorem exists_value (h : (matchRest (statusRe A ic) s).isSome = true) :
    ∃ label ws word back, s = label ++ (ws ++ (word ++ back)) ∧ Spelled ic label ∧ IsValue A ws word back := by
  obtain ⟨u, v, rfl, label, w, rfl, hlabel, ws, word, rfl, hws, hword⟩ := matchRest_isSome_iff.mp h
  refine ⟨label, ws, word ++ v.takeWhile A.isWord, v.dropWhile A.isWord, ?_, (matches_escape _ _ _).mp hlabel, ?_⟩
  · simp
  · refine ⟨hws.2.2, ?_, ?_, ?_⟩
    · exact List.append_ne_nil_of_left_ne_nil (List.length_pos_iff.mp hword.1) _
    · intro c hc
      rcases List.mem_append.mp hc with hc | hc
      · exact hword.2.2 c hc
      · exact List.mem_takeWhile_imp hc
    · intro c hc
      have hnot := List.head?_dropWhile_not A.isWord v
      rw [Option.mem_def.mp hc] at hnot
      exact hnot

theorem nullable_statusRe : (statusRe A ic).nullable = false := by
  cases ic <;> rfl

theorem matchRest_statusRe (hlabel : Spelled ic label) (hvalue : IsValue A ws word back) :
    matchRest (statusRe A ic) (label ++ (ws ++ (word ++ back))) = some ([(1, word)], back) :=
  run_statusRe hlabel hvalue rfl

theorem search_statusRe (hlabel : Spelled ic label) (hvalue : IsValue A ws word back) :
    search (statusRe A ic) (label ++ (ws ++ (word ++ back))) = some [(1, word)] := by
  have hrun : matchPrefix (statusRe A ic) (label ++ (ws ++ (word ++ back))) = some [(1, word)] :=
    run_statusRe hlabel hvalue rfl
  obtain ⟨rest, rfl⟩ := hlabel.star
  rw [List.cons_append] at hrun ⊢
  rw [search, hrun, Option.some_or]

theorem Spelled.ignoreCase (h : Spelled ic label) : Spelled true label := by
  cases ic with
  | true => exact h
  | false =>
    rw [h.fold]
    exact spelled_exact

theorem matches_ignoreCase (h : Matches (statusRe A ic) u) : Matches (statusRe A true) u := by
  obtain ⟨label, w, rfl, hlabel, hw⟩ := h
  have hspelled : Spelled ic label := (matches_escape _ _ _).mp hlabel
  exact ⟨label, w, rfl, (matches_escape _ _ _).mpr hspelled.ignoreCase, hw⟩

/-- What begins in front of a label ends in front of it. -/
theorem ends_before_star (hstar : ∃ rest, s = '*' :: rest) (hno : '*' ∉ u) (h : x ++ s = u ++ v) :
    ∃ z, x = u ++ z ∧ z ++ s = v := by
  rcases List.append_eq_append_iff.mp h with ⟨e, rfl, he⟩ | ⟨e, rfl, rfl⟩
  · cases e with
    | nil => exact ⟨[], by simp, he⟩
    | cons d e =>
      obtain ⟨rest, rfl⟩ := hstar
      obtain ⟨rfl, -⟩ := List.cons.inj he
      exact absurd (List.mem_append_right x List.mem_cons_self) hno
  · exact ⟨e, rfl, rfl⟩

/-- A match that begins in front of a label ends in front of it. -/
theorem match_inside (hlabel : Spelled ic label) {ic' : Bool} (hu : Matches (statusRe A ic') u) (hy : y ≠ [])
    (h : y ++ (label ++ s) = u ++ v) : ∃ z, y = u ++ z := by
  obtain ⟨label', w, rfl, hlabel', ws, word, rfl, hws, hword⟩ := hu
  have hspelled : Spelled ic' label' := (matches_escape _ _ _).mp hlabel'
  have hstar : ∃ rest, label ++ s = '*' :: rest := by
    obtain ⟨rest, rfl⟩ := hlabel.star
    exact ⟨rest ++ s, rfl⟩
  rw [List.append_assoc] at h
  have hfront : ∃ z, y = label' ++ z ∧ z ++ (label ++ s) = ws ++ word ++ v := by
    rcases List.append_eq_append_iff.mp h with ⟨e, he, hrest⟩ | ⟨e, he, hrest⟩
    · by_cases hnil : e = []
      · subst hnil
        exact ⟨[], by rw [he, List.append_nil, List.append_nil], hrest⟩
      · exact absurd (hlabel.not_overlap hspelled.ignoreCase hy hnil he hrest.symm) id
    · exact ⟨e, he, hrest.symm⟩
  obtain ⟨z, rfl, hz⟩ := hfront
  have hspace : '*' ∉ ws := by
    intro hmem
    have hno := hws.2.2 '*' hmem
    revert hno
    decide
  have hchar : '*' ∉ word := by
    intro hmem
    have hno := hword.2.2 '*' hmem
    rw [isWord_star] at hno
    cases hno
  rw [List.append_assoc] at hz
  obtain ⟨z₁, rfl, hz₁⟩ := ends_before_star hstar hspace hz
  obtain ⟨z₂, rfl, -⟩ := ends_before_star hstar hchar hz₁
  exact ⟨z₂, by simp⟩

/-- Whether something is found in front of a label does not depend on what is behind. -/
theorem noneIn_swap (hlabel : Spelled ic label) {ic' : Bool} (h : NoneIn (statusRe A ic') front s) (t : Text) :
    NoneIn (statusRe A ic') front (label ++ t) := by
  intro a b hab hb
  rw [← Option.not_isSome_iff_eq_none, matchRest_isSome_iff]
  rintro ⟨u, v, hsplit, hu⟩
  obtain ⟨z, rfl⟩ := match_inside hlabel hu hb hsplit
  have hnone := h a (u ++ z) hab hb
  rw [← Option.not_isSome_iff_eq_none, matchRest_isSome_iff] at hnone
  exact hnone ⟨u, z ++ s, List.append_assoc _ _ _, hu⟩

/-- The first status line of a text, with or without regard to case. -/
structure StatusLine (A : Text.Alphabet) (ic : Bool) (text front label ws word back : Text) : Prop where
  text_eq : text = front ++ (label ++ (ws ++ (word ++ back)))
  spelled : Spelled ic label
  value : IsValue A ws word back
  first : NoneIn (statusRe A ic) front (label ++ (ws ++ (word ++ back)))

theorem statusLine_cases (A : Text.Alphabet) (ic : Bool) (text : Text) :
    NoneIn (statusRe A ic) text [] ∨ ∃ front label ws word back, StatusLine A ic text front label ws word back := by
  rcases first_place_cases (statusRe A ic) text with hnone | ⟨x, s, rfl, hnone, hsome, -⟩
  · exact .inl hnone
  · obtain ⟨label, ws, word, back, rfl, hlabel, hvalue⟩ := exists_value hsome
    exact .inr ⟨x, label, ws, word, back, rfl, hlabel, hvalue, hnone⟩

theorem StatusLine.statusOf_eq (h : StatusLine A true text front label ws word back) :
    statusOf A text = Text.lower word := by
  have hfield : field (statusRe A true) text = some word := by
    unfold field
    rw [h.text_eq, search_skip h.first, search_statusRe h.spelled h.value]
    rfl
  unfold statusOf
  rw [hfield]
  rfl

theorem StatusLine.place (h : StatusLine A ic text front label ws word back) :
    firstPlace (statusRe A ic) text = some (label ++ (ws ++ (word ++ back))) := by
  rw [h.text_eq, firstPlace_skip h.first, firstPlace_here]
  rw [matchRest_statusRe h.spelled h.value]
  rfl

theorem StatusLine.writeStatus_eq (h : StatusLine A false text front label ws word back) (status : Text) :
    writeStatus A status text = front ++ (statusLabel ++ ([' '] ++ (status ++ back))) := by
  have hmatch := matchRest_statusRe h.spelled h.value
  unfold writeStatus
  rw [h.text_eq, replaceFirst_skip h.first]
  obtain ⟨rest, rfl⟩ := h.spelled.star
  rw [List.cons_append] at hmatch ⊢
  rw [replaceFirst, hmatch]
  dsimp only
  have hfront : "**Status**: ".toList = statusLabel ++ [' '] := rfl
  rw [hfront, List.append_assoc, List.append_assoc]

theorem writeStatus_of_none (h : NoneIn (statusRe A false) text []) (status : Text) :
    writeStatus A status text = text := replaceFirst_eq_self h

/-- A word that is written as a status. -/
structure IsStatus (A : Text.Alphabet) (status : Text) : Prop where
  nonempty : status ≠ []
  chars : ∀ c ∈ status, A.isWord c = true
  lower : Text.lower status = status

/-- The line that is written is the first one again. -/
theorem StatusLine.written (h : StatusLine A false text front label ws word back) {status : Text}
    (hstatus : IsStatus A status) {label' ws' word' back' : Text}
    (hfirst : StatusLine A ic text front label' ws' word' back') :
    StatusLine A ic (writeStatus A status text) front statusLabel [' '] status back := by
  have hexact : Spelled true statusLabel := spelled_exact
  have hvalue : IsValue A [' '] status back := ⟨Text.forall_mem_of_all rfl, hstatus.nonempty, hstatus.chars, h.value.stops⟩
  exact ⟨h.writeStatus_eq status, spelled_exact, hvalue, noneIn_swap hexact hfirst.first _⟩

/-- A line in front of the one that is written is the first one still. -/
theorem StatusLine.before (h : StatusLine A false text front label ws word back) (status : Text) {x : Text}
    (hx : x ≠ []) {front' label' ws' word' back' : Text}
    (hfirst : StatusLine A true text front' label' ws' word' back')
    (hfront : front = front' ++ x) :
    ∃ back'', StatusLine A true (writeStatus A status text) front' label' ws' word' back'' := by
  have hrest : x ++ (label ++ (ws ++ (word ++ back))) = label' ++ (ws' ++ word') ++ back' := by
    have htext := h.text_eq.symm.trans hfirst.text_eq
    rw [hfront, List.append_assoc] at htext
    rw [List.append_cancel_left htext]
    simp
  have hmatch : Matches (statusRe A true) (label' ++ (ws' ++ word')) :=
    ⟨label', ws' ++ word', rfl, (matches_escape _ _ _).mpr hfirst.spelled, ws', word', rfl,
      ⟨Nat.zero_le _, by simp, hfirst.value.space⟩,
      ⟨List.length_pos_iff.mpr hfirst.value.nonempty, by simp, hfirst.value.chars⟩⟩
  obtain ⟨z, rfl⟩ := match_inside h.spelled hmatch hx hrest
  have hback : z ++ (label ++ (ws ++ (word ++ back))) = back' := by
    rw [List.append_assoc] at hrest
    exact List.append_cancel_left hrest
  refine ⟨z ++ (statusLabel ++ ([' '] ++ (status ++ back))), ?_, hfirst.spelled, ?_,
    noneIn_swap hfirst.spelled hfirst.first _⟩
  · rw [h.writeStatus_eq, hfront]
    simp
  · refine ⟨hfirst.value.space, hfirst.value.nonempty, hfirst.value.chars, fun c hc => ?_⟩
    cases z with
    | nil =>
      obtain rfl : '*' = c := Option.some.inj hc
      exact isWord_star
    | cons d z =>
      refine hfirst.value.stops c ?_
      rw [← hback]
      exact hc

theorem StatusLine.isWritten (h : StatusLine A false text front label ws word back) {status : Text}
    (hstatus : IsStatus A status) :
    StatusLine A false (writeStatus A status text) front statusLabel [' '] status back := h.written hstatus h

/-- The first line that is spelled as the program spells it is not in front of the first one. -/
theorem StatusLine.not_in_front (h : StatusLine A false text front label ws word back)
    {front' label' ws' word' back' : Text} (hfirst : StatusLine A true text front' label' ws' word' back') :
    ∃ x, front = front' ++ x := by
  have htext := h.text_eq.symm.trans hfirst.text_eq
  rcases List.append_eq_append_iff.mp htext with ⟨y, rfl, hy⟩ | ⟨x, hx, -⟩
  · cases y with
    | nil => exact ⟨[], by simp⟩
    | cons c y =>
      have hnone := hfirst.first front (c :: y) rfl (List.cons_ne_nil c y)
      rw [← hy, matchRest_statusRe h.spelled.ignoreCase h.value] at hnone
      cases hnone
  · exact ⟨x, hx⟩

theorem noneIn_exact (h : NoneIn (statusRe A true) text []) : NoneIn (statusRe A false) text [] := by
  intro a b hab hb
  rw [← Option.not_isSome_iff_eq_none, matchRest_isSome_iff]
  rintro ⟨u, v, huv, hu⟩
  have hnone := h a b hab hb
  rw [← Option.not_isSome_iff_eq_none, matchRest_isSome_iff] at hnone
  exact hnone ⟨u, v, huv, matches_ignoreCase hu⟩

theorem isWord_of_isAsciiAlnum {c : Char} (hc : c.toNat < 128) (h : c.isAlphanum = true) : A.isWord c = true := by
  unfold Text.Alphabet.isWord
  rw [A.ascii c hc, h]
  rfl

theorem isWord_of_isLower {c : Char} (h : c.isLower = true) : A.isWord c = true := by
  have hhigh : c.toNat ≤ 122 := by
    unfold Char.isLower at h
    rw [Bool.and_eq_true, decide_eq_true_eq, decide_eq_true_eq] at h
    exact UInt32.le_iff_toNat_le.mp h.2
  refine isWord_of_isAsciiAlnum (by omega) ?_
  unfold Char.isAlphanum Char.isAlpha
  rw [h, Bool.or_true, Bool.true_or]

theorem isStatus_approved : IsStatus A "approved".toList where
  nonempty := by decide
  chars := by
    have hlower : ∀ c ∈ "approved".toList, c.isLower = true := Text.forall_mem_of_all (by decide)
    exact fun c hc => isWord_of_isLower (hlower c hc)
  lower := by decide

theorem isStatus_rejected : IsStatus A "rejected".toList where
  nonempty := by decide
  chars := by
    have hlower : ∀ c ∈ "rejected".toList, c.isLower = true := Text.forall_mem_of_all (by decide)
    exact fun c hc => isWord_of_isLower (hlower c hc)
  lower := by decide

/-! ## Calls -/

inductive SpecCall where
  | approve
  | reject
  deriving DecidableEq

/-- The status that a call is about to give. -/
def SpecCall.status : SpecCall → Text
  | .approve => "approved".toList
  | .reject => "rejected".toList

/-- Whether a call returns without an error, and the text that it leaves. -/
def SpecCall.run (A : Text.Alphabet) (fileName issueNumber : Text) : SpecCall → Text → Bool × Text
  | .approve, text =>
    let called := approveSpec A fileName issueNumber text
    (called.1.isOk, called.2)
  | .reject, text =>
    let called := rejectSpec A issueNumber text
    (called.1.isOk, called.2)

/-- Two texts are the same but for what stands on one line behind the label of a status. -/
def OneValue (text text' : Text) : Prop :=
  text' = text ∨ ∃ front label value value' back, Spelled true label ∧ '\n' ∉ value ∧ '\n' ∉ value' ∧
    text = front ++ (label ++ (value ++ back)) ∧ text' = front ++ (label ++ (value' ++ back))

/-- A call does what it says. -/
structure CallTakesEffect (A : Text.Alphabet) (fileName issueNumber : Text) (call : SpecCall) (text : Text) :
    Prop where
  effect : (call.run A fileName issueNumber text).1 = true →
    (parseSpec A (call.run A fileName issueNumber text).2 fileName issueNumber).status = call.status
  approved : (parseSpec A text fileName issueNumber).status = "approved".toList →
    (parseSpec A (call.run A fileName issueNumber text).2 fileName issueNumber).status ≠ "rejected".toList
  oneValue : OneValue text (call.run A fileName issueNumber text).2

/-- Every call of a sequence does what it says. -/
def CallsTakeEffect (A : Text.Alphabet) (fileName issueNumber : Text) : List SpecCall → Text → Prop
  | [], _ => True
  | call :: calls, text => CallTakesEffect A fileName issueNumber call text ∧
    CallsTakeEffect A fileName issueNumber calls (call.run A fileName issueNumber text).2

/-- There is a status line, and the first one is spelled as the program spells it. -/
def firstIsExact (A : Text.Alphabet) (text : Text) : Prop :=
  (firstPlace (statusRe A true) text).isSome = true ∧
    firstPlace (statusRe A false) text = firstPlace (statusRe A true) text

/-- The value of the line that is written stands on the line of its label. -/
def valueOnLine (A : Text.Alphabet) (text : Text) : Prop :=
  ∀ line ∈ firstPlace (statusRe A false) text, '\n' ∉ (line.drop statusLabel.length).takeWhile Text.isSpace

/-- What a spec has to be for the calls to take effect, as long as its status can be changed. -/
structure CanBeWritten (A : Text.Alphabet) (text : Text) : Prop where
  exact : statusOf A text = "draft".toList → firstIsExact A text
  onLine : statusOf A text = "draft".toList ∨ statusOf A text = "rejected".toList → valueOnLine A text

theorem IsValue.space_eq (h : IsValue A ws word back) : (ws ++ (word ++ back)).takeWhile Text.isSpace = ws := by
  obtain ⟨c, rest, rfl⟩ := List.exists_cons_of_ne_nil h.nonempty
  have hchar : Text.isSpace c = false := by
    rw [← Bool.not_eq_true]
    intro hspace
    have hword := h.chars c List.mem_cons_self
    rw [isWord_of_isSpace hspace] at hword
    cases hword
  rw [List.takeWhile_append_of_pos h.space, List.cons_append, List.takeWhile_cons, hchar]
  simp

theorem StatusLine.valueOnLine_iff (h : StatusLine A false text front label ws word back) :
    valueOnLine A text ↔ '\n' ∉ ws := by
  unfold valueOnLine
  have hlen : statusLabel.length = label.length := h.spelled.length_eq
  rw [h.place]
  simp only [Option.mem_def, Option.some.injEq, forall_eq']
  rw [hlen, List.drop_left, h.value.space_eq]

theorem valueOnLine_of_none (h : NoneIn (statusRe A false) text []) : valueOnLine A text := by
  unfold valueOnLine
  rw [firstPlace_eq_none nullable_statusRe h]
  intro line hline
  cases hline

theorem StatusLine.firstIsExact_iff (h : StatusLine A false text front label ws word back)
    {front' label' ws' word' back' : Text} (hfirst : StatusLine A true text front' label' ws' word' back') :
    firstIsExact A text ↔ front = front' := by
  unfold firstIsExact
  rw [h.place, hfirst.place]
  simp only [Option.isSome_some, true_and, Option.some.injEq]
  have htext := h.text_eq.symm.trans hfirst.text_eq
  constructor
  · intro hrest
    rw [hrest] at htext
    exact List.append_cancel_right htext
  · rintro rfl
    exact List.append_cancel_left htext

theorem not_firstIsExact_of_none (h : NoneIn (statusRe A false) text []) : ¬ firstIsExact A text := by
  rintro ⟨hsome, heq⟩
  rw [← heq, firstPlace_eq_none nullable_statusRe h] at hsome
  cases hsome

/-! ## What is written -/

theorem OneValue.count_newline {text' : Text} (h : OneValue text text') : text'.count '\n' = text.count '\n' := by
  rcases h with rfl | ⟨front, label, value, value', back, -, hvalue, hvalue', rfl, rfl⟩
  · rfl
  · simp only [List.count_append, List.count_eq_zero_of_not_mem hvalue, List.count_eq_zero_of_not_mem hvalue']

theorem StatusLine.writeStatus_oneValue (h : StatusLine A false text front label ws word back) {status : Text}
    (hstatus : IsStatus A status) : OneValue text (writeStatus A status text) ↔ '\n' ∉ ws := by
  have hword : '\n' ∉ word := by
    intro hmem
    have hspace := h.value.chars '\n' hmem
    rw [isWord_of_isSpace (by decide)] at hspace
    cases hspace
  have hwritten : '\n' ∉ status := by
    intro hmem
    have hspace := hstatus.chars '\n' hmem
    rw [isWord_of_isSpace (by decide)] at hspace
    cases hspace
  have hlabel : label = statusLabel := h.spelled.fold
  constructor
  · intro hone
    have hcount : (writeStatus A status text).count '\n' = text.count '\n' := hone.count_newline
    rw [h.writeStatus_eq, h.text_eq, hlabel] at hcount
    have hblank : List.count '\n' [' '] = 0 := rfl
    simp only [List.count_append, List.count_eq_zero_of_not_mem hword, List.count_eq_zero_of_not_mem hwritten,
      hblank] at hcount
    exact List.count_eq_zero.mp (by omega)
  · intro hws
    refine .inr ⟨front, label, ws ++ word, [' '] ++ status, back, h.spelled.ignoreCase, ?_, ?_, ?_, ?_⟩
    · simp [hws, hword]
    · simp [hwritten]
    · rw [List.append_assoc]
      exact h.text_eq
    · rw [h.writeStatus_eq, hlabel, List.append_assoc]

theorem StatusLine.statusOf_written (h : StatusLine A false text front label ws word back) {status : Text}
    (hstatus : IsStatus A status) (hexact : firstIsExact A text) :
    statusOf A (writeStatus A status text) = status := by
  rcases statusLine_cases A true text with hnone | ⟨front', label', ws', word', back', hfirst⟩
  · exact absurd hexact (not_firstIsExact_of_none (noneIn_exact hnone))
  · obtain rfl := (h.firstIsExact_iff hfirst).mp hexact
    rw [(h.written hstatus hfirst).statusOf_eq, hstatus.lower]

theorem statusOf_not_written (h : ¬ firstIsExact A text) (status : Text) :
    statusOf A (writeStatus A status text) = statusOf A text := by
  rcases statusLine_cases A false text with hnone | ⟨front, label, ws, word, back, hline⟩
  · rw [writeStatus_of_none hnone]
  · rcases statusLine_cases A true text with hnone | ⟨front', label', ws', word', back', hfirst⟩
    · have hplace := firstPlace_eq_none nullable_statusRe (noneIn_exact hnone)
      rw [hline.place] at hplace
      cases hplace
    · obtain ⟨x, hx⟩ := hline.not_in_front hfirst
      have hne : x ≠ [] := by
        rintro rfl
        exact h ((hline.firstIsExact_iff hfirst).mpr (by rw [hx, List.append_nil]))
      obtain ⟨back'', hwritten⟩ := hline.before status hne hfirst hx
      rw [hwritten.statusOf_eq, hfirst.statusOf_eq]

theorem oneValue_written_iff {status : Text} (hstatus : IsStatus A status) :
    OneValue text (writeStatus A status text) ↔ valueOnLine A text := by
  rcases statusLine_cases A false text with hnone | ⟨front, label, ws, word, back, hline⟩
  · rw [writeStatus_of_none hnone]
    exact iff_of_true (.inl rfl) (valueOnLine_of_none hnone)
  · rw [hline.writeStatus_oneValue hstatus, hline.valueOnLine_iff]

theorem valueOnLine_written {status : Text} (hstatus : IsStatus A status) :
    valueOnLine A (writeStatus A status text) := by
  rcases statusLine_cases A false text with hnone | ⟨front, label, ws, word, back, hline⟩
  · rw [writeStatus_of_none hnone]
    exact valueOnLine_of_none hnone
  · rw [(hline.isWritten hstatus).valueOnLine_iff]
    decide

theorem firstIsExact.statusOf_written (h : firstIsExact A text) {status : Text} (hstatus : IsStatus A status) :
    statusOf A (writeStatus A status text) = status := by
  rcases statusLine_cases A false text with hnone | ⟨front, label, ws, word, back, hline⟩
  · exact absurd h (not_firstIsExact_of_none hnone)
  · exact hline.statusOf_written hstatus h

/-! ## One call -/

theorem SpecCall.isStatus (call : SpecCall) : IsStatus A call.status := by
  cases call with
  | approve => exact isStatus_approved
  | reject => exact isStatus_rejected

/-- The statuses of a spec that a call can be made on. -/
def SpecCall.allows : SpecCall → Text → Prop
  | .approve, status => status = "draft".toList
  | .reject, status => status = "draft".toList ∨ status = "rejected".toList

theorem approveSpec_eq (A : Text.Alphabet) (fileName issueNumber text : Text) :
    approveSpec A fileName issueNumber text =
      if statusOf A text = "draft".toList then
        (.ok (parseSpec A (writeStatus A "approved".toList text) fileName issueNumber),
          writeStatus A "approved".toList text)
      else (.error ("Spec is already '".toList ++ statusOf A text ++ "', cannot approve".toList), text) := by
  unfold approveSpec
  dsimp only
  by_cases hdraft : statusOf A text = "draft".toList
  · rw [if_neg (not_not.mpr hdraft), if_pos hdraft]
  · rw [if_pos hdraft, if_neg hdraft]

theorem rejectSpec_eq (A : Text.Alphabet) (issueNumber text : Text) :
    rejectSpec A issueNumber text =
      if statusOf A text ∈ ["draft".toList, "rejected".toList] then
        (.ok { issueNumber }, writeStatus A "rejected".toList text)
      else (.error ("Spec is '".toList ++ statusOf A text ++ "', cannot reject".toList), text) := by
  unfold rejectSpec
  dsimp only
  by_cases hopen : statusOf A text ∈ ["draft".toList, "rejected".toList]
  · rw [if_neg (not_not.mpr hopen), if_pos hopen]
  · rw [if_pos hopen, if_neg hopen]

theorem SpecCall.run_of_allows (call : SpecCall) (fileName issueNumber : Text)
    (h : call.allows (statusOf A text)) :
    call.run A fileName issueNumber text = (true, writeStatus A call.status text) := by
  cases call with
  | approve =>
    have hdraft : statusOf A text = "draft".toList := h
    unfold SpecCall.run
    dsimp only
    rw [approveSpec_eq, if_pos hdraft]
    rfl
  | reject =>
    have hin : statusOf A text ∈ ["draft".toList, "rejected".toList] := by
      rcases h with h | h <;> rw [h] <;> decide
    unfold SpecCall.run
    dsimp only
    rw [rejectSpec_eq, if_pos hin]
    rfl

theorem SpecCall.run_of_not_allows (call : SpecCall) (fileName issueNumber : Text)
    (h : ¬ call.allows (statusOf A text)) : call.run A fileName issueNumber text = (false, text) := by
  cases call with
  | approve =>
    have hnot : ¬ statusOf A text = "draft".toList := h
    unfold SpecCall.run
    dsimp only
    rw [approveSpec_eq, if_neg hnot]
    rfl
  | reject =>
    have hnot : statusOf A text ∉ ["draft".toList, "rejected".toList] := by
      intro hmem
      rcases List.mem_cons.mp hmem with hdraft | hmem
      · exact h (.inl hdraft)
      · exact h (.inr (List.mem_singleton.mp hmem))
    unfold SpecCall.run
    dsimp only
    rw [rejectSpec_eq, if_neg hnot]
    rfl

theorem SpecCall.not_allows_approved (call : SpecCall) : ¬ call.allows "approved".toList := by
  cases call with
  | approve =>
    intro h
    have hne : "approved".toList ≠ "draft".toList := by decide
    exact hne h
  | reject =>
    rintro (h | h)
    · have hne : "approved".toList ≠ "draft".toList := by decide
      exact hne h
    · have hne : "approved".toList ≠ "rejected".toList := by decide
      exact hne h

/-- The status that a spec has when the call is made is the one that the call gives, or the first line is
written. -/
theorem SpecCall.effect_iff (call : SpecCall) (h : call.allows (statusOf A text)) :
    statusOf A (writeStatus A call.status text) = call.status ↔
      (statusOf A text = "draft".toList → firstIsExact A text) := by
  by_cases hexact : firstIsExact A text
  · exact iff_of_true (hexact.statusOf_written call.isStatus) fun _ => hexact
  · rw [statusOf_not_written hexact]
    constructor
    · intro hstatus hdraft
      rw [hdraft] at hstatus
      cases call <;> exact absurd hstatus (by decide)
    · intro hcan
      cases call with
      | approve => exact absurd (hcan h) hexact
      | reject => exact h.resolve_left fun hdraft => hexact (hcan hdraft)

theorem CanBeWritten.takesEffect (h : CanBeWritten A text) (fileName issueNumber : Text) (call : SpecCall) :
    CallTakesEffect A fileName issueNumber call text := by
  by_cases hallows : call.allows (statusOf A text)
  · have hrun := call.run_of_allows fileName issueNumber hallows
    refine ⟨fun _ => ?_, fun happroved => ?_, ?_⟩
    · rw [hrun]
      exact (call.effect_iff hallows).mpr h.exact
    · have hstatus : statusOf A text = "approved".toList := happroved
      rw [hstatus] at hallows
      exact absurd hallows call.not_allows_approved
    · rw [hrun]
      refine (oneValue_written_iff call.isStatus).mpr (h.onLine ?_)
      cases call with
      | approve => exact .inl hallows
      | reject => exact hallows
  · have hrun := call.run_of_not_allows fileName issueNumber hallows
    refine ⟨fun hok => ?_, fun happroved => ?_, ?_⟩
    · rw [hrun] at hok
      cases hok
    · rw [hrun, happroved]
      decide
    · rw [hrun]
      exact .inl rfl

theorem CanBeWritten.step (h : CanBeWritten A text) (fileName issueNumber : Text) (call : SpecCall) :
    CanBeWritten A (call.run A fileName issueNumber text).2 := by
  by_cases hallows : call.allows (statusOf A text)
  · rw [call.run_of_allows fileName issueNumber hallows]
    have hstatus := (call.effect_iff hallows).mpr h.exact
    refine ⟨fun hdraft => ?_, fun _ => valueOnLine_written call.isStatus⟩
    rw [hstatus] at hdraft
    cases call <;> exact absurd hdraft (by decide)
  · rw [call.run_of_not_allows fileName issueNumber hallows]
    exact h

theorem CanBeWritten.run (h : CanBeWritten A text) (fileName issueNumber : Text) (calls : List SpecCall) :
    CallsTakeEffect A fileName issueNumber calls text := by
  induction calls generalizing text with
  | nil => trivial
  | cons call calls ih => exact ⟨h.takesEffect fileName issueNumber call, ih (h.step fileName issueNumber call)⟩

theorem CallTakesEffect.canBeWritten (fileName issueNumber : Text)
    (h : CallTakesEffect A fileName issueNumber .reject text) : CanBeWritten A text := by
  have hwrites : statusOf A text = "draft".toList ∨ statusOf A text = "rejected".toList →
      SpecCall.reject.run A fileName issueNumber text = (true, writeStatus A "rejected".toList text) :=
    fun hallows => SpecCall.reject.run_of_allows fileName issueNumber hallows
  refine ⟨fun hdraft => ?_, fun hcan => ?_⟩
  · have hrun := hwrites (.inl hdraft)
    have heffect := h.effect (by rw [hrun])
    rw [hrun] at heffect
    exact (SpecCall.reject.effect_iff (.inl hdraft)).mp heffect hdraft
  · have hone := h.oneValue
    rw [hwrites hcan] at hone
    exact (oneValue_written_iff isStatus_rejected).mp hone

/-- The calls on a spec take effect, whatever they are, if and only if the spec can be written. -/
theorem calls_take_effect_iff (A : Text.Alphabet) (fileName issueNumber text : Text) :
    (∀ calls, CallsTakeEffect A fileName issueNumber calls text) ↔ CanBeWritten A text := by
  constructor
  · intro h
    exact (h [.reject]).1.canBeWritten
  · intro h calls
    exact h.run fileName issueNumber calls

/-- The line is read whatever its case, and written in one case alone. -/
theorem approve_lowerCaseStatus :
    ¬ CallsTakeEffect Text.Alphabet.asciiOnly "7-cache.md".toList "7".toList [.approve]
      "# Spec: Cache\n\n**status**: draft\n".toList := by
  rintro ⟨⟨heffect, -, -⟩, -⟩
  revert heffect
  decide +kernel

end Dashboard.SpecService
