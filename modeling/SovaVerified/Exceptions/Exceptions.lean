import Mathlib.Data.List.Forall2
import Mathlib.Tactic.Common
import SovaVerified.Text.Text

/-!
# Calls that raise

A call returns a value or raises an exception. A handler catches the classes that its `except` names, so all
that matters of an exception is its class. `Returns` and `Escapes` say how a call ends, and the rules say how
a block of calls and a handled call end.
-/

/-- The class of an exception, as far as a handler asks for it. -/
inductive PyException where
  | timeoutError
  | osError
  | runtimeError
  | sqlAlchemyError
  | valueError
  | typeError
  | keyError
  | indexError
  | other (name : Text)
  deriving DecidableEq, Repr

namespace PyException

/-- `TimeoutError` is a class of `OSError`. -/
def isOsError : PyException → Bool
  | timeoutError => true
  | osError => true
  | _ => false

/-- `except (RuntimeError, OSError)`. -/
def isOsOrRuntime (e : PyException) : Bool := e.isOsError || e == runtimeError

/-- `except (OSError, RuntimeError, SQLAlchemyError)`. -/
def isServiceError (e : PyException) : Bool := e.isOsOrRuntime || e == sqlAlchemyError

/-- `except (OSError, ValueError, TypeError)`. -/
def isFileError (e : PyException) : Bool := e.isOsError || e == valueError || e == typeError

end PyException

namespace Exceptions

/-- The value of a call whose handler catches some classes and answers with a value of its own. -/
def handling {α : Type} (caught : PyException → Bool) (answer : α) (call : Except PyException α) :
    Except PyException α :=
  match call with
  | .ok a => .ok a
  | .error e => if caught e then .ok answer else .error e

/-- The call raises an exception that the handler does not catch. -/
def Escapes {α : Type} (caught : PyException → Bool) (call : Except PyException α) : Prop :=
  ∃ e, call = .error e ∧ caught e = false

/-- The call returns. -/
def Returns {α : Type} (call : Except PyException α) : Prop := ∃ a, call = .ok a

variable {α β : Type} {caught : PyException → Bool} {call : Except PyException α} {answer : α}

theorem returns_ok (a : α) : Returns (.ok a : Except PyException α) := ⟨a, rfl⟩

theorem not_returns_error (e : PyException) : ¬ Returns (.error e : Except PyException α) := by
  rintro ⟨a, h⟩
  cases h

theorem not_escapes_ok (a : α) : ¬ Escapes caught (.ok a : Except PyException α) := by
  rintro ⟨e, h, -⟩
  cases h

theorem returns_handling_iff : Returns (handling caught answer call) ↔ ¬ Escapes caught call := by
  cases call with
  | ok a =>
    have h : Returns (handling caught answer (.ok a)) := ⟨a, rfl⟩
    exact ⟨fun _ => not_escapes_ok a, fun _ => h⟩
  | error e =>
    have heq : handling caught answer (.error e) = if caught e then .ok answer else .error e := rfl
    rw [heq]
    cases hcaught : caught e with
    | true =>
      have h : ¬ Escapes caught (.error e : Except PyException α) := by
        rintro ⟨e', he', hnot⟩
        cases he'
        rw [hcaught] at hnot
        cases hnot
      exact ⟨fun _ => h, fun _ => returns_ok answer⟩
    | false => exact ⟨fun h => absurd h (not_returns_error e), fun h => absurd ⟨e, rfl, hcaught⟩ h⟩

theorem bind_eq_ok_iff {f : α → Except PyException β} {b : β} :
    (call >>= f) = .ok b ↔ ∃ a, call = .ok a ∧ f a = .ok b := by
  cases call with
  | ok a =>
    constructor
    · exact fun h => ⟨a, rfl, h⟩
    · rintro ⟨a', ha, h⟩
      cases ha
      exact h
  | error e =>
    constructor
    · intro h
      cases h
    · rintro ⟨a, ha, -⟩
      cases ha

theorem map_eq_ok_iff {f : α → β} {b : β} : call.map f = .ok b ↔ ∃ a, call = .ok a ∧ f a = b := by
  cases call with
  | ok a =>
    constructor
    · intro h
      exact ⟨a, rfl, Except.ok.inj h⟩
    · rintro ⟨a', ha, rfl⟩
      cases ha
      rfl
  | error e =>
    constructor
    · intro h
      cases h
    · rintro ⟨a, ha, -⟩
      cases ha

/-- A block returns when its first call returns, and the rest of it does with that value. -/
theorem returns_bind_iff {f : α → Except PyException β} :
    Returns (call >>= f) ↔ ∃ a, call = .ok a ∧ Returns (f a) := by
  constructor
  · rintro ⟨b, hb⟩
    obtain ⟨a, ha, hf⟩ := bind_eq_ok_iff.mp hb
    exact ⟨a, ha, b, hf⟩
  · rintro ⟨a, ha, b, hf⟩
    exact ⟨b, bind_eq_ok_iff.mpr ⟨a, ha, hf⟩⟩

theorem returns_map_iff {f : α → β} :
    Returns (call.map f) ↔ Returns call := by
  cases call with
  | ok a => exact ⟨fun _ => returns_ok a, fun _ => returns_ok (f a)⟩
  | error e => exact ⟨fun h => absurd h (not_returns_error e), fun h => absurd h (not_returns_error e)⟩

/-- A call for each element of a list: the values are the ones of the calls, in order. -/
theorem mapM_eq_ok_iff {f : α → Except PyException β} {l : List α} {bs : List β} :
    l.mapM f = .ok bs ↔ List.Forall₂ (fun a b => f a = .ok b) l bs := by
  induction l generalizing bs with
  | nil =>
    rw [List.mapM_nil, List.forall₂_nil_left_iff]
    constructor
    · intro h
      cases h
      rfl
    · rintro rfl
      rfl
  | cons a l ih =>
    rw [List.mapM_cons, List.forall₂_cons_left_iff]
    cases ha : f a with
    | error e =>
      constructor
      · intro h
        cases h
      · rintro ⟨b, bs', hb, -⟩
        cases hb
    | ok b =>
      constructor
      · intro h
        cases hl : l.mapM f with
        | error e =>
          rw [hl] at h
          cases h
        | ok bs' =>
          rw [hl] at h
          cases h
          exact ⟨b, bs', rfl, ih.mp hl, rfl⟩
      · rintro ⟨b', bs', hb, hbs, rfl⟩
        cases hb
        rw [ih.mpr hbs]
        rfl

theorem returns_mapM_iff {f : α → Except PyException β} {l : List α} :
    Returns (l.mapM f) ↔ ∀ a ∈ l, Returns (f a) := by
  induction l with
  | nil => exact ⟨fun _ a ha => absurd ha List.not_mem_nil, fun _ => returns_ok []⟩
  | cons a l ih =>
    rw [List.mapM_cons, returns_bind_iff, List.forall_mem_cons, ← ih]
    constructor
    · rintro ⟨b, hb, hrest⟩
      obtain ⟨bs, hbs, -⟩ := returns_bind_iff.mp hrest
      exact ⟨⟨b, hb⟩, bs, hbs⟩
    · rintro ⟨⟨b, hb⟩, bs, hbs⟩
      exact ⟨b, hb, returns_bind_iff.mpr ⟨bs, hbs, returns_ok _⟩⟩

/-- Calls in a row raise what one of them raises. -/
theorem exists_of_mapM_eq_error {f : α → Except PyException β} {l : List α} {e : PyException}
    (h : l.mapM f = .error e) : ∃ a ∈ l, f a = .error e := by
  induction l with
  | nil => cases h
  | cons a l ih =>
    rw [List.mapM_cons] at h
    cases ha : f a with
    | error e' =>
      rw [ha] at h
      cases h
      exact ⟨a, List.mem_cons_self, ha⟩
    | ok b =>
      rw [ha] at h
      cases hl : l.mapM f with
      | error e' =>
        have herror : (Except.error e' : Except PyException (List β)) = .error e := by
          rw [hl] at h
          cases h
          rfl
        cases herror
        obtain ⟨a', ha', he⟩ := ih hl
        exact ⟨a', List.mem_cons_of_mem a ha', he⟩
      | ok bs =>
        rw [hl] at h
        cases h

/-- A call that is only made under a condition, and whose value is not used. -/
theorem ite_bind_eq_ok_iff {p : Prop} [Decidable p] {call : Except PyException Unit}
    (rest : Unit → Except PyException β) {b : β} :
    (if p then call >>= rest else rest ()) = .ok b ↔ (p → Returns call) ∧ rest () = .ok b := by
  split_ifs with hp
  · cases call with
    | ok a => exact ⟨fun h => ⟨fun _ => returns_ok a, h⟩, fun h => h.2⟩
    | error e =>
      constructor
      · intro h
        cases h
      · exact fun h => absurd (h.1 hp) (not_returns_error e)
  · exact ⟨fun h => ⟨fun h' => absurd h' hp, h⟩, fun h => h.2⟩

end Exceptions
