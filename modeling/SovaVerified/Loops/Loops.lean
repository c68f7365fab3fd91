import Mathlib.Tactic.Common

/-!
# Loops with an early exit

A `for` loop over a list whose body changes a state, and which is left as soon as the state says so.
Nested loops that share one exit flag are nested uses of `untilStop`.

The rules are about a relation `R L s t`: a stretch of the program took the state from `s` to `t` and
had the work `L` to do. `untilStop_rel` and `foldl_rel` give the relation for a loop from the one for
its body, when stretches compose and a stretch after the exit does nothing.

`trail` is a loop whose body says what it did and may fail, which ends the loop; `upTo` are the elements that
such a loop visits.
-/

namespace Loops

variable {σ α β : Type*} {stop : σ → Bool} {body : σ → α → σ} {R : List β → σ → σ → Prop}

/-- The state after the loop. The exit is tested before each element. -/
def untilStop (stop : σ → Bool) (body : σ → α → σ) : σ → List α → σ
  | s, [] => s
  | s, a :: l => if stop s then s else untilStop stop body (body s a) l

theorem foldl_rel (work : α → List β) (hnil : ∀ s, R [] s s)
    (hcomp : ∀ {L M s t u}, R L s t → R M t u → R (L ++ M) s u) {l : List α}
    (hbody : ∀ a ∈ l, ∀ s, R (work a) s (body s a)) (s : σ) :
    R (l.flatMap work) s (l.foldl body s) := by
  induction l generalizing s with
  | nil => exact hnil s
  | cons a l ih =>
    have hfirst : R (work a) s (body s a) := hbody a (List.mem_cons_self ..) s
    have hrest := ih (fun b hb => hbody b (List.mem_cons_of_mem _ hb)) (body s a)
    rw [List.flatMap_cons]
    exact hcomp hfirst hrest

theorem untilStop_rel (work : α → List β) (hnil : ∀ s, R [] s s)
    (hcomp : ∀ {L M s t u}, R L s t → R M t u → R (L ++ M) s u)
    (hstop : ∀ L s, stop s = true → R L s s) {l : List α}
    (hbody : ∀ a ∈ l, ∀ s, R (work a) s (body s a)) (s : σ) :
    R (l.flatMap work) s (untilStop stop body s l) := by
  induction l generalizing s with
  | nil => exact hnil s
  | cons a l ih =>
    unfold untilStop
    by_cases hs : stop s = true
    · rw [if_pos hs]
      exact hstop _ s hs
    · have hfirst : R (work a) s (body s a) := hbody a (List.mem_cons_self ..) s
      have hrest := ih (fun b hb => hbody b (List.mem_cons_of_mem _ hb)) (body s a)
      rw [if_neg hs, List.flatMap_cons]
      exact hcomp hfirst hrest

/-! ## Loops whose body may fail -/

/-- What the body did at each element that the loop visits, and the failure that ends the loop. -/
def trail {ε : Type*} (body : α → β × Option ε) : List α → List (α × β) × Option ε
  | [] => ([], none)
  | a :: l =>
    match body a with
    | (b, some e) => ([(a, b)], some e)
    | (b, none) =>
      let rest := trail body l
      ((a, b) :: rest.1, rest.2)

/-- The elements up to the first one that ends the loop, which is among them. -/
def upTo (last : α → Bool) : List α → List α
  | [] => []
  | a :: l => if last a then [a] else a :: upTo last l

theorem trail_eq_map {ε : Type*} (body : α → β × Option ε) (l : List α) :
    (trail body l).1 = (upTo (fun a => (body a).2.isSome) l).map fun a => (a, (body a).1) := by
  induction l with
  | nil => rfl
  | cons a l ih =>
    unfold trail upTo
    rcases hbody : body a with ⟨b, failure⟩
    cases failure with
    | none => simp [ih, hbody]
    | some e => simp [hbody]

/-! ## Loops that raise -/

/-- The invariant of a loop whose body may raise, over the elements that are done, and what holds of an error. -/
theorem foldlM_rule {ε : Type*} {body : σ → α → Except ε σ} {P : List α → σ → Prop} {E : ε → Prop} {l : List α}
    {s : σ} (h0 : P [] s)
    (hok : ∀ done a rest t u, l = done ++ a :: rest → P done t → body t a = .ok u → P (done ++ [a]) u)
    (herror : ∀ done a rest t e, l = done ++ a :: rest → P done t → body t a = .error e → E e) :
    (∀ t, l.foldlM body s = .ok t → P l t) ∧ ∀ e, l.foldlM body s = .error e → E e := by
  have hgen : ∀ rest done t, l = done ++ rest → P done t →
      (∀ u, rest.foldlM body t = .ok u → P l u) ∧ ∀ e, rest.foldlM body t = .error e → E e := by
    intro rest
    induction rest with
    | nil =>
      intro done t hl hP
      rw [List.append_nil] at hl
      refine ⟨fun u hu => ?_, fun e he => nomatch he⟩
      obtain rfl : t = u := Except.ok.inj hu
      exact hl ▸ hP
    | cons a rest ih =>
      intro done t hl hP
      cases hbody : body t a with
      | error e =>
        have hfold : (a :: rest).foldlM body t = .error e := by
          rw [List.foldlM_cons, hbody]
          rfl
        rw [hfold]
        refine ⟨fun u hu => (nomatch hu), fun e' he => ?_⟩
        obtain rfl : e = e' := Except.error.inj he
        exact herror done a rest t e hl hP hbody
      | ok u =>
        have hfold : (a :: rest).foldlM body t = rest.foldlM body u := by
          rw [List.foldlM_cons, hbody]
          rfl
        rw [hfold]
        exact ih (done ++ [a]) u (by rw [hl, List.append_assoc, List.singleton_append])
          (hok done a rest t u hl hP hbody)
  exact hgen l [] s rfl h0

/-- A loop none of whose turns raises. -/
theorem foldlM_total {ε : Type*} {body : σ → α → Except ε σ} {P : σ → Prop} {l : List α} {s : σ} (h0 : P s)
    (hbody : ∀ a ∈ l, ∀ t, P t → ∃ u, body t a = .ok u ∧ P u) : ∃ t, l.foldlM body s = .ok t ∧ P t := by
  induction l generalizing s with
  | nil => exact ⟨s, rfl, h0⟩
  | cons a l ih =>
    obtain ⟨u, hu, hP⟩ := hbody a List.mem_cons_self s h0
    obtain ⟨t, ht, hPt⟩ := ih hP fun b hb => hbody b (List.mem_cons_of_mem _ hb)
    refine ⟨t, ?_, hPt⟩
    rw [List.foldlM_cons, hu]
    exact ht

end Loops
