import Mathlib.Tactic.Common

/-!
# Runs of a step function

A system is a partial step function on its states: `step s a = some s'` when the action `a` is enabled
in `s`. A run is a list of actions, each enabled where it happens. The rules carry a property of one
step over a whole run; `invariant_of_guard` is the one for systems that keep an invariant only as long
as every step meets a condition on the state it starts from.
-/

namespace Runs

variable {σ α : Type*} (step : σ → α → Option σ)

/-- The state after a run, when every action of it is enabled. -/
def exec : σ → List α → Option σ
  | s, [] => some s
  | s, a :: as => (step s a).bind fun s' => exec s' as

/-- Every action of the run meets the condition `guard` on the state it starts from. -/
def Meets (guard : σ → α → Prop) : σ → List α → Prop
  | _, [] => True
  | s, a :: as => guard s a ∧ ∀ s', step s a = some s' → Meets guard s' as

/-- Whether a run meets a decidable condition can be evaluated. -/
instance decidableMeets (guard : σ → α → Prop) [∀ s a, Decidable (guard s a)] :
    ∀ s as, Decidable (Meets step guard s as)
  | _, [] => .isTrue trivial
  | s, a :: as =>
    match h : step s a with
    | none => decidable_of_iff (guard s a) ⟨fun hg => ⟨hg, by simp [h]⟩, fun hm => hm.1⟩
    | some s' =>
      have := decidableMeets guard s' as
      decidable_of_iff (guard s a ∧ Meets step guard s' as)
        ⟨fun hg => ⟨hg.1, fun t ht => by rw [h] at ht; exact Option.some.inj ht ▸ hg.2⟩,
          fun hm => ⟨hm.1, hm.2 s' h⟩⟩

variable {step}

theorem exec_cons {s t : σ} {a : α} {as : List α} (h : exec step s (a :: as) = some t) :
    ∃ s', step s a = some s' ∧ exec step s' as = some t := by
  simpa [exec, Option.bind_eq_some_iff] using h

theorem exec_append {s t : σ} {as bs : List α} (h : exec step s (as ++ bs) = some t) :
    ∃ u, exec step s as = some u ∧ exec step u bs = some t := by
  induction as generalizing s with
  | nil => exact ⟨s, rfl, h⟩
  | cons a as ih =>
    obtain ⟨s', hs', h'⟩ := exec_cons h
    obtain ⟨u, hu, ht⟩ := ih h'
    exact ⟨u, by simp [exec, hs', hu], ht⟩

/-- A run meets a condition when both stretches of it do. -/
theorem meets_append {guard : σ → α → Prop} {s t : σ} {as bs : List α}
    (h : Meets step guard s (as ++ bs)) (hexec : exec step s as = some t) :
    Meets step guard s as ∧ Meets step guard t bs := by
  induction as generalizing s with
  | nil =>
    have hst : s = t := Option.some.inj hexec
    exact ⟨trivial, hst ▸ h⟩
  | cons a as ih =>
    obtain ⟨s', hs', hrest⟩ := exec_cons hexec
    obtain ⟨has, hbs⟩ := ih (h.2 s' hs') hrest
    refine ⟨⟨h.1, ?_⟩, hbs⟩
    intro u hu
    rw [hs'] at hu
    exact Option.some.inj hu ▸ has

/-- A condition on the actions alone can be added to the condition that a run meets. -/
theorem Meets.and_of_forall {guard : σ → α → Prop} {q : α → Prop} {s : σ} {as : List α}
    (h : Meets step guard s as) (hq : ∀ a ∈ as, q a) : Meets step (fun s a => guard s a ∧ q a) s as := by
  induction as generalizing s with
  | nil => trivial
  | cons a as ih =>
    refine ⟨⟨h.1, hq a List.mem_cons_self⟩, fun s' hs' => ?_⟩
    exact ih (h.2 s' hs') fun b hb => hq b (List.mem_cons_of_mem _ hb)

/-- A property that every step meeting the condition keeps holds after every run that meets it. -/
theorem invariant_of_guard {guard : σ → α → Prop} {P : σ → Prop}
    (hstep : ∀ s a s', P s → guard s a → step s a = some s' → P s')
    {s t : σ} {as : List α} (h0 : P s) (hg : Meets step guard s as)
    (h : exec step s as = some t) : P t := by
  induction as generalizing s with
  | nil => exact Option.some.inj h ▸ h0
  | cons a as ih =>
    obtain ⟨s', hs', h'⟩ := exec_cons h
    exact ih (hstep s a s' h0 hg.1 hs') (hg.2 s' hs') h'

/-- A property that every step keeps holds after every run. -/
theorem invariant {P : σ → Prop} (hstep : ∀ s a s', P s → step s a = some s' → P s')
    {s t : σ} {as : List α} (h0 : P s) (h : exec step s as = some t) : P t := by
  induction as generalizing s with
  | nil => exact Option.some.inj h ▸ h0
  | cons a as ih =>
    obtain ⟨s', hs', h'⟩ := exec_cons h
    exact ih (hstep s a s' h0 hs') h'

/-- When each step keeps a property exactly if it meets a condition, a run keeps it exactly if all its steps
meet the condition. -/
theorem iff_meets {guard : σ → α → Prop} {P Q : σ → Prop}
    (hinv : ∀ s a s', Q s → step s a = some s' → Q s')
    (hiff : ∀ s a s', Q s → step s a = some s' → (P s' ↔ P s ∧ guard s a))
    {s t : σ} {as : List α} (h0 : Q s) (h : exec step s as = some t) : P t ↔ P s ∧ Meets step guard s as := by
  induction as generalizing s with
  | nil =>
    have hst : s = t := Option.some.inj h
    rw [hst]
    exact ⟨fun hP => ⟨hP, trivial⟩, fun hP => hP.1⟩
  | cons a as ih =>
    obtain ⟨s', hs', h'⟩ := exec_cons h
    have hrest := ih (hinv s a s' h0 hs') h'
    have hone := hiff s a s' h0 hs'
    constructor
    · intro hP
      obtain ⟨hP', hmeets⟩ := hrest.mp hP
      obtain ⟨hPs, hguard⟩ := hone.mp hP'
      refine ⟨hPs, hguard, fun u hu => ?_⟩
      rw [hs'] at hu
      exact Option.some.inj hu ▸ hmeets
    · rintro ⟨hPs, hguard, hmeets⟩
      exact hrest.mpr ⟨hone.mpr ⟨hPs, hguard⟩, hmeets s' hs'⟩

theorem exec_concat {s t u : σ} {as : List α} {a : α} (h : exec step s as = some t)
    (ha : step t a = some u) : exec step s (as ++ [a]) = some u := by
  induction as generalizing s with
  | nil =>
    have hst : s = t := Option.some.inj h
    simp [exec, hst, ha]
  | cons b as ih =>
    obtain ⟨s', hs', h'⟩ := exec_cons h
    have hrec := ih h'
    simp [exec, hs', hrec]

/-- The invariant rule for properties that also speak about the run so far. -/
theorem history_invariant {P : List α → σ → Prop} {s₀ : σ} (h0 : P [] s₀)
    (hstep : ∀ as s a s', exec step s₀ as = some s → P as s → step s a = some s' → P (as ++ [a]) s')
    {as : List α} {t : σ} (h : exec step s₀ as = some t) : P as t := by
  have hgen : ∀ (bs pre : List α) (s : σ), exec step s₀ pre = some s → P pre s →
      exec step s bs = some t → P (pre ++ bs) t := by
    intro bs
    induction bs with
    | nil =>
      intro pre s _ hP hrun
      rw [List.append_nil]
      exact Option.some.inj hrun ▸ hP
    | cons b bs ih =>
      intro pre s hpre hP hrun
      obtain ⟨s', hs', hrest⟩ := exec_cons hrun
      have hnext := ih (pre ++ [b]) s' (exec_concat hpre hs') (hstep pre s b s' hpre hP hs') hrest
      simpa using hnext
  exact hgen as [] s₀ rfl h0 h

end Runs
