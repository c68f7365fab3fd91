import SovaVerified.Core.CommitConvention
import SovaVerified.Regex.Proofs.LineProofs

/-!
# Which lines pass the check

The expression of a line is read from the front without a choice: the type, the scope, the colon and the
subject. So a line of a type and a scope passes exactly when these can be read back and the subject is one line
that does not start with a capital (`isValidCommitLine_iff`).
-/

namespace Core.CommitConvention

open Regex

variable {L : Casing} {T S r t d : Text} {types scopes : List Text}

/-! ## Reading a line -/

/-- The part of the expression behind the colon. -/
def subjectRe : Regex := .seq Regex.spaces (.cap 3 (.seq (.chr isVisible) (.rep 0 none (· != '\n'))))

/-- The end of the text, or its last line feed. -/
def atEnd (rest : Text) (g : Groups) : Option Groups := if rest = [] ∨ rest = ['\n'] then some g else none

theorem atEnd_cons {c : Char} {g : Groups} (h : (c != '\n') = true) (rest : Text) :
    atEnd (c :: rest) g = none := by
  refine if_neg ?_
  rintro (hnil | hbreak)
  · cases hnil
  · obtain ⟨rfl, -⟩ := List.cons.inj hbreak
    cases h

/-- A text without white space at its end does not end in a line feed. -/
theorem not_endsInBreak (a : Text) : Text.rstrip (a ++ ['\n']) ≠ a ++ ['\n'] := by
  intro h
  have hdrop : Text.rstrip (a ++ ['\n']) = Text.rstrip a := by
    rw [Text.rstrip_append, if_pos (by decide)]
  have hlength := (Text.rstrip_isPrefix a).length_le
  rw [← hdrop, h, List.length_append, List.length_singleton] at hlength
  omega

/-- The subject is one line. -/
theorem run_visible {c : Char} {s : Text} (hvisible : isVisible c = true)
    (hend : Text.rstrip (c :: s) = c :: s) (g : Groups) :
    Regex.run (.cap 3 (.seq (.chr isVisible) (.rep 0 none (· != '\n')))) (c :: s) g atEnd =
      if '\n' ∉ c :: s then some ((3, c :: s) :: g) else none := by
  have hc : c ≠ '\n' := by
    rintro rfl
    exact absurd hvisible (by decide)
  have hstep : Regex.run (.cap 3 (.seq (.chr isVisible) (.rep 0 none (· != '\n')))) (c :: s) g atEnd =
      Regex.run (.rep 0 none (· != '\n')) s g
        (fun t' g' => atEnd t' ((3, (c :: s).take ((c :: s).length - t'.length)) :: g')) :=
    if_pos hvisible
  rw [hstep]
  by_cases hbreak : '\n' ∈ s
  · obtain ⟨a, b, rfl, ha⟩ := List.eq_append_cons_of_mem hbreak
    have hspan : Regex.run (.rep 0 none (· != '\n')) (a ++ '\n' :: b) g
        (fun t' g' => atEnd t'
          ((3, (c :: (a ++ '\n' :: b)).take ((c :: (a ++ '\n' :: b)).length - t'.length)) :: g')) = _ :=
      run_rep_span (fun x hx => bne_iff_ne.mpr fun h => ha (h ▸ hx)) (fun x hx => by cases hx; rfl)
        fun x t g hx => atEnd_cons hx t
    rw [hspan, if_pos (Nat.zero_le _), if_neg fun h => h (List.mem_cons_of_mem c hbreak)]
    refine if_neg ?_
    rintro (hnil | hlast)
    · cases hnil
    · obtain rfl := (List.cons.inj hlast).2
      exact not_endsInBreak (c :: a) hend
  · have hspan : Regex.run (.rep 0 none (· != '\n')) (s ++ []) g
        (fun t' g' => atEnd t' ((3, (c :: s).take ((c :: s).length - t'.length)) :: g')) = _ :=
      run_rep_span (fun x hx => bne_iff_ne.mpr fun h => hbreak (h ▸ hx)) (fun x hx => by cases hx)
        fun x t g hx => atEnd_cons hx t
    rw [List.append_nil] at hspan
    have hall : '\n' ∉ c :: s := fun h => (List.mem_cons.mp h).elim (fun heq => hc heq.symm) hbreak
    rw [hspan, if_pos (Nat.zero_le _), if_pos hall]
    simp [atEnd]

/-- What stands behind the colon is a subject if it is one visible line. -/
theorem run_subjectRe (hr : Text.rstrip r = r) (g : Groups) : Regex.run subjectRe r g atEnd =
    if Text.lstrip r ≠ [] ∧ '\n' ∉ Text.lstrip r then some ((3, Text.lstrip r) :: g) else none := by
  obtain ⟨front, hfront, hspace⟩ := Text.exists_lstrip r
  have hhead := Text.head_lstrip r
  have hspan : Regex.run Regex.spaces (front ++ Text.lstrip r) g
      (fun t' g' => Regex.run (.cap 3 (.seq (.chr isVisible) (.rep 0 none (· != '\n')))) t' g' atEnd) =
        if 0 ≤ front.length then
          Regex.run (.cap 3 (.seq (.chr isVisible) (.rep 0 none (· != '\n')))) (Text.lstrip r) g atEnd
        else none := by
    refine run_rep_span hspace hhead fun c t g hc => ?_
    have hinvisible : ¬ isVisible c = true := by
      unfold isVisible
      rw [hc]
      exact Bool.false_ne_true
    exact if_neg hinvisible
  rw [← hfront, if_pos (Nat.zero_le _)] at hspan
  have hsubject : Regex.run subjectRe r g atEnd =
      Regex.run (.cap 3 (.seq (.chr isVisible) (.rep 0 none (· != '\n')))) (Text.lstrip r) g atEnd := hspan
  rw [hsubject]
  cases hs : Text.lstrip r with
  | nil => rfl
  | cons c s =>
    rw [hs] at hhead
    have hvisible : isVisible c = true := by
      unfold isVisible
      rw [hhead c rfl]
      rfl
    have hend : Text.rstrip (c :: s) = c :: s := by
      have hstrip : Text.rstrip (Text.lstrip r) = Text.lstrip (Text.rstrip r) := by
        rw [Text.lstrip_rstrip, Text.strip_eq]
      rw [hr, hs] at hstrip
      exact hstrip
    rw [run_visible hvisible hend]
    by_cases hbreak : '\n' ∈ c :: s
    · rw [if_neg fun h => h hbreak, if_neg fun h => h.2 hbreak]
    · rw [if_pos hbreak, if_pos ⟨List.cons_ne_nil c s, hbreak⟩]

/-! ## The front of a line -/

/-- The part of the expression behind the type. -/
def behindTypeRe : Regex :=
  .seq (Regex.opt (.seq (.chr (· == '(')) (.seq (.cap 2 (.rep 1 none (· != ')'))) (.chr (· == ')')))))
    (.seq (.chr (· == ':')) subjectRe)

theorem behindTypeRe_colon (r : Text) (g : Groups) :
    Regex.run behindTypeRe (':' :: r) g atEnd = Regex.run subjectRe r g atEnd := rfl

theorem behindTypeRe_none {c : Char} (hopen : (c == '(') = false) (hcolon : (c == ':') = false) (t : Text)
    (g : Groups) : Regex.run behindTypeRe (c :: t) g atEnd = none := by
  have hfirst : ¬ (c == '(') = true := Bool.eq_false_iff.mp hopen
  have hsecond : ¬ (c == ':') = true := Bool.eq_false_iff.mp hcolon
  show Option.or (if c == '(' then _ else none) (if c == ':' then _ else none) = none
  rw [if_neg hfirst, if_neg hsecond]
  rfl

/-- An open bracket is only passed with the scope that it begins. -/
theorem behindTypeRe_open (t : Text) (g : Groups) : Regex.run behindTypeRe ('(' :: t) g atEnd =
    Regex.run (.cap 2 (.rep 1 none (· != ')'))) t g fun t' g' =>
      Regex.run (.chr (· == ')')) t' g' fun t' g' => Regex.run (.seq (.chr (· == ':')) subjectRe) t' g' atEnd :=
  Option.or_none

theorem close_none {c : Char} (h : (c != ')') = true) (t : Text) (g : Groups)
    (k : Text → Groups → Option Groups) : Regex.run (.chr (· == ')')) (c :: t) g k = none := by
  refine if_neg fun heq => ?_
  rw [beq_iff_eq.mp heq] at h
  cases h

theorem behindTypeRe_scope (hS : ')' ∉ S) (r : Text) (g : Groups) :
    Regex.run behindTypeRe ('(' :: (S ++ ')' :: ':' :: r)) g atEnd =
      if S = [] then none else Regex.run subjectRe r ((2, S) :: g) atEnd := by
  have hspan : Regex.run (.rep 1 none (· != ')')) (S ++ ')' :: ':' :: r) g (fun t' g' =>
      Regex.run (.chr (· == ')')) t'
        ((2, (S ++ ')' :: ':' :: r).take ((S ++ ')' :: ':' :: r).length - t'.length)) :: g')
        fun t' g' => Regex.run (.seq (.chr (· == ':')) subjectRe) t' g' atEnd) = _ :=
    run_rep_span (fun x hx => bne_iff_ne.mpr fun h => hS (h ▸ hx)) (fun x hx => by cases hx; rfl)
      fun x t g hx => close_none hx t _ _
  rw [behindTypeRe_open, run_cap, hspan, take_captured]
  by_cases hne : S = []
  · subst hne
    rfl
  · have hlength : 1 ≤ S.length := List.length_pos_iff.mpr hne
    rw [if_pos hlength, if_neg hne]
    rfl

/-- A bracket that is not closed is no scope. -/
theorem behindTypeRe_unclosed (hS : ')' ∉ S) (g : Groups) : Regex.run behindTypeRe ('(' :: S) g atEnd = none := by
  have hspan : Regex.run (.rep 1 none (· != ')')) (S ++ []) g (fun t' g' =>
      Regex.run (.chr (· == ')')) t' ((2, S.take (S.length - t'.length)) :: g')
        fun t' g' => Regex.run (.seq (.chr (· == ':')) subjectRe) t' g' atEnd) = _ :=
    run_rep_span (fun x hx => bne_iff_ne.mpr fun h => hS (h ▸ hx)) (fun x hx => by cases hx)
      fun x t g hx => close_none hx t _ _
  rw [List.append_nil] at hspan
  rw [behindTypeRe_open, run_cap, hspan]
  split_ifs <;> rfl

/-- A type begins with a small letter. -/
def startsSmall (T : Text) : Bool := T.head?.any isSmall

/-- The type is read whole, as what ends it is no character of a type. -/
theorem matchLine_lineRe (hT : ∀ c ∈ T, isTypeChar c = true) {x : Char} (hx : isTypeChar x = false) (t : Text) :
    Regex.matchLine lineRe (T ++ x :: t) =
      if startsSmall T then Regex.run behindTypeRe (x :: t) [(1, T)] atEnd else none := by
  have hlineRe : Regex.matchLine lineRe (T ++ x :: t) =
      Regex.run (.cap 1 (.seq (.chr isSmall) (.rep 0 none isTypeChar))) (T ++ x :: t) []
        fun t' g' => Regex.run behindTypeRe t' g' atEnd := rfl
  rw [hlineRe]
  cases T with
  | nil =>
    refine if_neg fun h => ?_
    unfold isTypeChar at hx
    rw [h] at hx
    cases hx
  | cons c T =>
    obtain ⟨hc, hrest⟩ := List.forall_mem_cons.mp hT
    have hstarts : startsSmall (c :: T) = isSmall c := rfl
    rw [hstarts]
    by_cases hsmall : isSmall c = true
    · have hspan : Regex.run (.rep 0 none isTypeChar) (T ++ x :: t) [] (fun t' g' => Regex.run behindTypeRe t'
          ((1, (c :: (T ++ x :: t)).take ((c :: (T ++ x :: t)).length - t'.length)) :: g') atEnd) =
          if 0 ≤ T.length then Regex.run behindTypeRe (x :: t)
            [(1, (c :: (T ++ x :: t)).take ((c :: (T ++ x :: t)).length - (x :: t).length))] atEnd
          else none := by
        refine run_rep_span hrest (fun y hy => ?_) fun y t g hy => ?_
        · cases hy
          exact hx
        · have hopen : (y == '(') = false := by
            refine Bool.eq_false_iff.mpr fun h => ?_
            rw [beq_iff_eq.mp h] at hy
            exact absurd hy (by decide)
          have hcolon : (y == ':') = false := by
            refine Bool.eq_false_iff.mpr fun h => ?_
            rw [beq_iff_eq.mp h] at hy
            exact absurd hy (by decide)
          exact behindTypeRe_none hopen hcolon t _
      have hstep : Regex.run (.cap 1 (.seq (.chr isSmall) (.rep 0 none isTypeChar))) (c :: T ++ x :: t) []
          (fun t' g' => Regex.run behindTypeRe t' g' atEnd) =
          Regex.run (.rep 0 none isTypeChar) (T ++ x :: t) [] (fun t' g' => Regex.run behindTypeRe t'
            ((1, (c :: (T ++ x :: t)).take ((c :: (T ++ x :: t)).length - t'.length)) :: g') atEnd) :=
        if_pos hsmall
      have htake : (c :: (T ++ x :: t)).take ((c :: (T ++ x :: t)).length - (x :: t).length) = c :: T :=
        take_captured (c :: T) (x :: t)
      rw [hstep, hspan, if_pos (Nat.zero_le _), if_pos hsmall, htake]
    · rw [if_neg hsmall]
      exact if_neg hsmall

/-! ## The check -/

/-- The type begins with a small letter, and a scope is there where one is needed. -/
def Usable (T S : Text) : Prop := startsSmall T = true ∧ (T = scopelessType ∨ S ≠ [])

/-- A subject: one visible line that does not start with a capital. -/
def IsSubject (L : Casing) (t : Text) : Prop := t ≠ [] ∧ '\n' ∉ t ∧ startsCapital L t = false

/-- What the check makes of the groups of a line. -/
def accepts (L : Casing) (types scopes : List Text) (groups : Groups) : Bool :=
  let commitType := (groups.get 1).getD []
  let scope := groups.get 2
  let subject := (groups.get 3).getD []
  if commitType ∉ types then false
  else if commitType = scopelessType then scope.all scopes.contains && !startsCapital L subject
  else scope.any (fun s => s ≠ [] && scopes.contains s) && !startsCapital L subject

theorem isValidCommitLine_eq {line : Text} (hne : Text.strip line ≠ [])
    (hlength : (Text.strip line).length ≤ maxLineLength) :
    isValidCommitLine L line types scopes =
      (Regex.matchLine lineRe (Text.strip line)).any (accepts L types scopes) := by
  have hfirst : ¬ (Text.strip line = [] ∨ maxLineLength < (Text.strip line).length) := by
    rintro (hnil | hlong)
    · exact hne hnil
    · omega
  unfold isValidCommitLine
  dsimp only
  rw [if_neg hfirst]
  cases Regex.matchLine lineRe (Text.strip line) with
  | none => rfl
  | some groups => rfl

/-- A line of a type and a scope of the lists passes the check exactly when these can be read back and a subject
stands behind the colon. -/
theorem isValidCommitLine_iff {line : Text} (hT : T ∈ types) (hTc : ∀ c ∈ T, isTypeChar c = true)
    (hS : S ∈ scopes) (hSc : ')' ∉ S) (hline : Text.strip line = formatTypeScope T S ++ ':' :: r)
    (hr : Text.rstrip r = r) (hlength : (Text.strip line).length ≤ maxLineLength) :
    isValidCommitLine L line types scopes = true ↔ Usable T S ∧ IsSubject L (Text.lstrip r) := by
  have hne : Text.strip line ≠ [] := by
    rw [hline]
    exact List.append_ne_nil_of_right_ne_nil _ (List.cons_ne_nil _ _)
  rw [isValidCommitLine_eq hne hlength, hline]
  by_cases hsubject : Text.lstrip r ≠ [] ∧ '\n' ∉ Text.lstrip r
  · have hiff : IsSubject L (Text.lstrip r) ↔ startsCapital L (Text.lstrip r) = false :=
      ⟨fun h => h.2.2, fun h => ⟨hsubject.1, hsubject.2, h⟩⟩
    rw [hiff]
    by_cases hci : T = scopelessType
    · subst hci
      have hmatch : Regex.matchLine lineRe (formatTypeScope scopelessType S ++ ':' :: r) =
          some [(3, Text.lstrip r), (1, scopelessType)] := by
        have hformat : formatTypeScope scopelessType S = scopelessType := if_pos rfl
        rw [hformat, matchLine_lineRe hTc (by decide), if_pos (by decide), behindTypeRe_colon, run_subjectRe hr,
          if_pos hsubject]
      have haccepts : accepts L types scopes [(3, Text.lstrip r), (1, scopelessType)] =
          !startsCapital L (Text.lstrip r) := by
        show (if scopelessType ∉ types then false else _) = _
        rw [if_neg (not_not_intro hT)]
        rfl
      have husable : Usable scopelessType S := ⟨by decide, .inl rfl⟩
      rw [hmatch, Option.any_some, haccepts, Bool.not_eq_true']
      exact ⟨fun h => ⟨husable, h⟩, fun h => h.2⟩
    · have hformat : formatTypeScope T S ++ ':' :: r = T ++ '(' :: (S ++ ')' :: ':' :: r) := by
        have h : formatTypeScope T S = T ++ '(' :: S ++ [')'] := if_neg hci
        rw [h]
        simp
      rw [hformat, matchLine_lineRe hTc (by decide), behindTypeRe_scope hSc]
      by_cases hstarts : startsSmall T = true
      · by_cases hempty : S = []
        · subst hempty
          have hunusable : ¬ Usable T [] := fun h => h.2.elim hci fun h => h rfl
          rw [if_pos hstarts, if_pos rfl]
          exact iff_of_false Bool.false_ne_true fun h => hunusable h.1
        · have haccepts : accepts L types scopes [(3, Text.lstrip r), (2, S), (1, T)] =
              !startsCapital L (Text.lstrip r) := by
            have hscope : (decide (S ≠ []) && scopes.contains S) = true := by
              rw [decide_eq_true hempty, List.contains_iff_mem.mpr hS]
              rfl
            show (if T ∉ types then false else if T = scopelessType then _ else
              (decide (S ≠ []) && scopes.contains S) && !startsCapital L (Text.lstrip r)) = _
            rw [if_neg (not_not_intro hT), if_neg hci, hscope, Bool.true_and]
          rw [if_pos hstarts, if_neg hempty, run_subjectRe hr, if_pos hsubject, Option.any_some, haccepts,
            Bool.not_eq_true']
          exact ⟨fun h => ⟨⟨hstarts, .inr hempty⟩, h⟩, fun h => h.2⟩
      · rw [if_neg hstarts]
        exact iff_of_false Bool.false_ne_true fun h => hstarts h.1.1
  · have hnone : Regex.matchLine lineRe (formatTypeScope T S ++ ':' :: r) = none := by
      by_cases hci : T = scopelessType
      · have hformat : formatTypeScope T S = T := if_pos hci
        rw [hformat, matchLine_lineRe hTc (by decide), behindTypeRe_colon, run_subjectRe hr, if_neg hsubject]
        exact ite_self none
      · have hformat : formatTypeScope T S ++ ':' :: r = T ++ '(' :: (S ++ ')' :: ':' :: r) := by
          have h : formatTypeScope T S = T ++ '(' :: S ++ [')'] := if_neg hci
          rw [h]
          simp
        rw [hformat, matchLine_lineRe hTc (by decide), behindTypeRe_scope hSc, run_subjectRe hr,
          if_neg hsubject, ite_self, ite_self]
    rw [hnone]
    exact iff_of_false Bool.false_ne_true fun h => hsubject ⟨h.2.1, h.2.2.1⟩

/-- A line whose scope is not closed does not pass. -/
theorem isValidCommitLine_unclosed {line : Text} (hTc : ∀ c ∈ T, isTypeChar c = true)
    (hline : Text.strip line = T ++ '(' :: S) (hSc : ')' ∉ S)
    (hlength : (Text.strip line).length ≤ maxLineLength) : isValidCommitLine L line types scopes = false := by
  have hne : Text.strip line ≠ [] := by
    rw [hline]
    exact List.append_ne_nil_of_right_ne_nil _ (List.cons_ne_nil _ _)
  rw [isValidCommitLine_eq hne hlength, hline, matchLine_lineRe hTc (by decide), behindTypeRe_unclosed hSc,
    ite_self]
  rfl

end Core.CommitConvention
