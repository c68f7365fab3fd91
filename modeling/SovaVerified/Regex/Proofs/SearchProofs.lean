import SovaVerified.Regex.Regex
import Mathlib.Data.List.Induction

/-!
# Proofs: what the matcher finds

The matcher finds a match exactly when the language has one (`search_isSome_iff`), and a word that no
match reaches over splits a search into two (`Blocks`). The last section runs the matcher on
texts of which only the front is known.
-/

namespace Regex

variable {α : Type}

/-! ## The matcher and the language -/

theorem backoff_isSome_iff (k : Nat → Option α) (lo n : Nat) :
    (backoff k lo n).isSome ↔ ∃ m, lo ≤ m ∧ m ≤ n ∧ (k m).isSome := by
  induction n with
  | zero =>
    unfold backoff
    split
    · rename_i h
      subst h
      constructor
      · intro hk; exact ⟨0, Nat.le_refl 0, Nat.le_refl 0, hk⟩
      · rintro ⟨m, -, hm, hk⟩
        rwa [Nat.le_zero.mp hm] at hk
    · rename_i h
      constructor
      · intro hk; simp at hk
      · rintro ⟨m, h1, h2, -⟩; omega
  | succ n ih =>
    unfold backoff
    split
    · rename_i h
      constructor
      · intro hk; simp at hk
      · rintro ⟨m, h1, h2, -⟩; omega
    · rename_i h
      rw [Option.isSome_or, Bool.or_eq_true, ih]
      constructor
      · rintro (hk | ⟨m, h1, h2, hk⟩)
        · exact ⟨n + 1, by omega, Nat.le_refl _, hk⟩
        · exact ⟨m, h1, by omega, hk⟩
      · rintro ⟨m, h1, h2, hk⟩
        by_cases hm : m = n + 1
        · subst hm; exact Or.inl hk
        · exact Or.inr ⟨m, h1, by omega, hk⟩

/-- The prefixes that `p{lo,hi}` can take are those of length at most `reach`. -/
theorem le_reach_iff (hi : Option Nat) (p : Char → Bool) (t : Text) (n : Nat) :
    n ≤ reach hi p t ↔
      n ≤ t.length ∧ (∀ h ∈ hi, n ≤ h) ∧ ∀ c ∈ t.take n, p c = true := by
  have key : n ≤ (t.takeWhile p).length ↔ n ≤ t.length ∧ ∀ c ∈ t.take n, p c = true := by
    induction t generalizing n with
    | nil =>
      constructor
      · intro h; exact ⟨by simpa using h, by simp⟩
      · rintro ⟨h, -⟩; simpa using h
    | cons a t ih =>
      cases n with
      | zero => simp
      | succ n =>
        by_cases ha : p a = true
        · simp only [List.takeWhile_cons, ha, if_true, List.length_cons, Nat.add_le_add_iff_right,
            List.take_succ_cons, List.mem_cons, forall_eq_or_imp, true_and]
          exact ih n
        · simp [ha]
  cases hi with
  | none => simpa [reach] using key
  | some h =>
    simp only [reach, Nat.le_min, key, Option.mem_def, Option.some.injEq, forall_eq']
    tauto

/-- What is left after a match of `r` at the start of `t`, when the continuation accepts regardless of
the groups. -/
theorem run_isSome_iff (r : Regex) (t : Text) (g : Groups) (k : Text → Groups → Option α)
    (hk : ∀ v g g', (k v g).isSome = (k v g').isSome) :
    (run r t g k).isSome ↔ ∃ u v, t = u ++ v ∧ Matches r u ∧ (k v g).isSome := by
  induction r generalizing t g k with
  | eps =>
    constructor
    · intro h; exact ⟨[], t, rfl, rfl, h⟩
    · rintro ⟨u, v, rfl, rfl, h⟩; exact h
  | chr p =>
    cases t with
    | nil =>
      constructor
      · intro h; simp [run] at h
      · rintro ⟨u, v, h, ⟨c, -, rfl⟩, -⟩; simp at h
    | cons c t =>
      constructor
      · intro h
        by_cases hc : p c = true
        · exact ⟨[c], t, rfl, ⟨c, hc, rfl⟩, by simpa [run, hc] using h⟩
        · simp [run, hc] at h
      · rintro ⟨u, v, h, ⟨d, hd, rfl⟩, hv⟩
        obtain ⟨rfl, rfl⟩ := List.cons.inj h
        simpa [run, hd] using hv
  | rep lo hi p =>
    simp only [run, backoff_isSome_iff, le_reach_iff]
    constructor
    · rintro ⟨m, hlo, ⟨hlen, hhi, hall⟩, h⟩
      refine ⟨t.take m, t.drop m, (List.take_append_drop m t).symm, ⟨?_, ?_, hall⟩, h⟩
      · simp [hlen, hlo]
      · intro b hb; simp only [List.length_take]; have := hhi b hb; omega
    · rintro ⟨u, v, rfl, ⟨hlo, hhi, hall⟩, h⟩
      refine ⟨u.length, hlo, ⟨by simp, hhi, by simpa using hall⟩, by simpa using h⟩
  | seq r s ihr ihs =>
    have hinner : ∀ v g g', (run s v g k).isSome = (run s v g' k).isSome := by
      intro v g g'
      rw [Bool.eq_iff_iff, ihs v g k hk, ihs v g' k hk]
      simp only [hk _ g g']
    rw [run, ihr t g _ hinner]
    constructor
    · rintro ⟨u, v, rfl, hu, h⟩
      obtain ⟨u', v', rfl, hu', h'⟩ := (ihs v g k hk).mp h
      exact ⟨u ++ u', v', by simp, ⟨u, u', rfl, hu, hu'⟩, h'⟩
    · rintro ⟨u, v, rfl, ⟨u1, u2, rfl, h1, h2⟩, h⟩
      exact ⟨u1, u2 ++ v, by simp, h1, (ihs (u2 ++ v) g k hk).mpr ⟨u2, v, rfl, h2, h⟩⟩
  | alt r s ihr ihs =>
    rw [run, Option.isSome_or, Bool.or_eq_true, ihr t g k hk, ihs t g k hk]
    constructor
    · rintro (⟨u, v, rfl, hu, h⟩ | ⟨u, v, rfl, hu, h⟩)
      · exact ⟨u, v, rfl, Or.inl hu, h⟩
      · exact ⟨u, v, rfl, Or.inr hu, h⟩
    · rintro ⟨u, v, rfl, hu | hu, h⟩
      · exact Or.inl ⟨u, v, rfl, hu, h⟩
      · exact Or.inr ⟨u, v, rfl, hu, h⟩
  | cap i r ih =>
    rw [run, ih t g _ (fun v g g' => hk v _ _)]
    constructor
    · rintro ⟨u, v, rfl, hu, h⟩
      exact ⟨u, v, rfl, hu, by rw [hk v g]; exact h⟩
    · rintro ⟨u, v, rfl, hu, h⟩
      exact ⟨u, v, rfl, hu, by rw [← hk v g]; exact h⟩

theorem backoff_eq_some {k : Nat → Option α} {lo n : Nat} {x : α} (h : backoff k lo n = some x) :
    ∃ m, lo ≤ m ∧ m ≤ n ∧ k m = some x := by
  induction n with
  | zero =>
    unfold backoff at h
    split_ifs at h with hlo
    exact ⟨0, by omega, Nat.le_refl 0, h⟩
  | succ n ih =>
    unfold backoff at h
    split_ifs at h with hlo
    rcases Option.or_eq_some_iff.mp h with hk | ⟨-, hrest⟩
    · exact ⟨n + 1, by omega, Nat.le_refl _, hk⟩
    · obtain ⟨m, hm, hle, hk⟩ := ih hrest
      exact ⟨m, hm, by omega, hk⟩

/-- The captured texts come from the groups of the expression. -/
def CapturedBy (r : Regex) (g g' : Groups) : Prop :=
  ∀ e ∈ g', e ∈ g ∨ ∃ s, (e.1, s) ∈ captures r ∧ Matches s e.2

/-- A run that ends well has matched a front of the text, and captured what its groups match. -/
theorem run_eq_some {r : Regex} {t : Text} {g : Groups} {k : Text → Groups → Option α} {x : α}
    (h : run r t g k = some x) :
    ∃ u v g', t = u ++ v ∧ Matches r u ∧ k v g' = some x ∧ CapturedBy r g g' := by
  induction r generalizing t g k with
  | eps => exact ⟨[], t, g, rfl, rfl, h, fun e he => .inl he⟩
  | chr p =>
    cases t with
    | nil => cases h
    | cons c t =>
      rw [run] at h
      split_ifs at h with hc
      exact ⟨[c], t, g, rfl, ⟨c, hc, rfl⟩, h, fun e he => .inl he⟩
  | rep lo hi p =>
    obtain ⟨m, hlo, hle, hk⟩ := backoff_eq_some h
    obtain ⟨hlen, hhi, hall⟩ := (le_reach_iff hi p t m).mp hle
    refine ⟨t.take m, t.drop m, g, (List.take_append_drop m t).symm, ⟨?_, ?_, hall⟩, hk, fun e he => .inl he⟩
    · simp [hlen, hlo]
    · intro b hb
      have hm := hhi b hb
      rw [List.length_take]
      omega
  | seq r s ihr ihs =>
    obtain ⟨u, v, g', rfl, hu, hs, hg'⟩ := ihr h
    obtain ⟨u', v', g'', rfl, hu', hk, hg''⟩ := ihs hs
    refine ⟨u ++ u', v', g'', by simp, ⟨u, u', rfl, hu, hu'⟩, hk, fun e he => ?_⟩
    rcases hg'' e he with he | ⟨q, hq, hm⟩
    · rcases hg' e he with he | ⟨q, hq, hm⟩
      · exact .inl he
      · exact .inr ⟨q, List.mem_append_left _ hq, hm⟩
    · exact .inr ⟨q, List.mem_append_right _ hq, hm⟩
  | alt r s ihr ihs =>
    rcases Option.or_eq_some_iff.mp h with hr | ⟨-, hs⟩
    · obtain ⟨u, v, g', rfl, hu, hk, hg'⟩ := ihr hr
      refine ⟨u, v, g', rfl, .inl hu, hk, fun e he => ?_⟩
      exact (hg' e he).imp_right fun ⟨q, hq, hm⟩ => ⟨q, List.mem_append_left _ hq, hm⟩
    · obtain ⟨u, v, g', rfl, hu, hk, hg'⟩ := ihs hs
      refine ⟨u, v, g', rfl, .inr hu, hk, fun e he => ?_⟩
      exact (hg' e he).imp_right fun ⟨q, hq, hm⟩ => ⟨q, List.mem_append_right _ hq, hm⟩
  | cap i r ih =>
    obtain ⟨u, v, g', rfl, hu, hk, hg'⟩ := ih h
    have htake : (u ++ v).take ((u ++ v).length - v.length) = u := by simp
    rw [htake] at hk
    refine ⟨u, v, (i, u) :: g', rfl, hu, hk, fun e he => ?_⟩
    rcases List.mem_cons.mp he with rfl | he
    · exact .inr ⟨r, List.mem_cons_self, hu⟩
    · exact (hg' e he).imp_right fun ⟨q, hq, hm⟩ => ⟨q, List.mem_cons_of_mem _ hq, hm⟩

/-- A run that ends well has captured parts of the text. -/
theorem run_captured {r : Regex} {t : Text} {g : Groups} {k : Text → Groups → Option α} {x : α}
    (h : run r t g k = some x) :
    ∃ v g', v <:+ t ∧ k v g' = some x ∧ ∀ e ∈ g', e ∈ g ∨ e.2 ⊆ t := by
  induction r generalizing t g k with
  | eps => exact ⟨t, g, List.suffix_rfl, h, fun e he => .inl he⟩
  | chr p =>
    cases t with
    | nil => cases h
    | cons c t =>
      rw [run] at h
      split_ifs at h
      exact ⟨t, g, List.suffix_cons c t, h, fun e he => .inl he⟩
  | rep lo hi p =>
    obtain ⟨m, -, -, hk⟩ := backoff_eq_some h
    exact ⟨t.drop m, g, List.drop_suffix m t, hk, fun e he => .inl he⟩
  | seq r s ihr ihs =>
    obtain ⟨v, g', hv, hs, hg'⟩ := ihr h
    obtain ⟨w, g'', hw, hk, hg''⟩ := ihs hs
    refine ⟨w, g'', hw.trans hv, hk, fun e he => ?_⟩
    rcases hg'' e he with he | hsub
    · exact hg' e he
    · exact .inr fun c hc => hv.subset (hsub hc)
  | alt r s ihr ihs =>
    rcases Option.or_eq_some_iff.mp h with hr | ⟨-, hs⟩
    · exact ihr hr
    · exact ihs hs
  | cap i r ih =>
    obtain ⟨v, g', hv, hk, hg'⟩ := ih h
    refine ⟨v, _, hv, hk, fun e he => ?_⟩
    rcases List.mem_cons.mp he with rfl | he
    · exact .inr fun c hc => List.mem_of_mem_take hc
    · exact hg' e he

theorem Groups.mem_of_get {g : Groups} {i : Nat} {u : Text} (h : g.get i = some u) : (i, u) ∈ g := by
  obtain ⟨a, b, hsplit, -⟩ := List.lookup_eq_some_iff.mp h
  rw [hsplit]
  simp

/-- What a search captures is matched by a group of that number. -/
theorem search_captured {r : Regex} {t : Text} {g : Groups} (h : search r t = some g) {i : Nat} {u : Text}
    (hget : g.get i = some u) : ∃ s, (i, s) ∈ captures r ∧ Matches s u := by
  have hprefix : ∀ {t : Text}, matchPrefix r t = some g → ∃ s, (i, s) ∈ captures r ∧ Matches s u := by
    intro t ht
    obtain ⟨-, -, g', -, -, heq, hg'⟩ := run_eq_some ht
    cases heq
    rcases hg' (i, u) (Groups.mem_of_get hget) with hnil | hcaptured
    · cases hnil
    · exact hcaptured
  induction t with
  | nil => exact hprefix h
  | cons c t ih =>
    rcases Option.or_eq_some_iff.mp h with hhere | ⟨-, hrest⟩
    · exact hprefix hhere
    · exact ih hrest

/-- A search that goes on comes to a match at some place. -/
theorem searchWith_eq_some {r : Regex} {t : Text} {k : Text → Groups → Option α} {x : α}
    (h : searchWith r k t = some x) : ∃ s, s <:+ t ∧ run r s [] k = some x := by
  induction t with
  | nil => exact ⟨[], List.suffix_rfl, h⟩
  | cons c t ih =>
    rcases Option.or_eq_some_iff.mp h with hhere | ⟨-, hrest⟩
    · exact ⟨c :: t, List.suffix_rfl, hhere⟩
    · obtain ⟨s, hs, hrun⟩ := ih hrest
      exact ⟨s, hs.trans (List.suffix_cons c t), hrun⟩

theorem matchPrefix_isSome_iff (r : Regex) (t : Text) :
    (matchPrefix r t).isSome ↔ ∃ u v, t = u ++ v ∧ Matches r u := by
  rw [matchPrefix, run_isSome_iff r t [] _ (fun _ _ _ => rfl)]
  simp

/-- `search` finds something exactly when some part of the text is in the language. -/
theorem search_isSome_iff (r : Regex) (t : Text) :
    (search r t).isSome ↔ ∃ a u b, t = a ++ u ++ b ∧ Matches r u := by
  induction t with
  | nil =>
    rw [search, matchPrefix_isSome_iff]
    constructor
    · rintro ⟨u, v, h, hu⟩; exact ⟨[], u, v, by simpa using h, hu⟩
    · rintro ⟨a, u, b, h, hu⟩
      have : u = [] := by
        have h' := h.symm
        simp only [List.append_eq_nil_iff] at h'
        exact h'.1.2
      exact ⟨[], [], rfl, this ▸ hu⟩
  | cons c t ih =>
    rw [search, Option.isSome_or, Bool.or_eq_true, matchPrefix_isSome_iff, ih]
    constructor
    · rintro (⟨u, v, h, hu⟩ | ⟨a, u, b, rfl, hu⟩)
      · exact ⟨[], u, v, by simpa using h, hu⟩
      · exact ⟨c :: a, u, b, rfl, hu⟩
    · rintro ⟨a, u, b, h, hu⟩
      cases a with
      | nil => exact Or.inl ⟨u, b, by simpa using h, hu⟩
      | cons d a =>
        simp only [List.cons_append, List.cons.injEq] at h
        exact Or.inr ⟨a, u, b, h.2, hu⟩

/-! ## The characters of a match -/

theorem Matches.uses {r : Regex} {u : Text} (h : Matches r u) : ∀ c ∈ u, r.uses c = true := by
  induction r generalizing u with
  | eps => intro c hc; rw [show u = [] from h] at hc; simp at hc
  | chr p =>
    obtain ⟨d, hd, rfl⟩ := h
    intro c hc
    rw [List.mem_singleton.mp hc]
    exact hd
  | rep lo hi p => exact h.2.2
  | seq r s ihr ihs =>
    obtain ⟨v, w, rfl, hv, hw⟩ := h
    intro c hc
    simp only [Regex.uses, Bool.or_eq_true]
    rcases List.mem_append.mp hc with hc | hc
    · exact Or.inl (ihr hv c hc)
    · exact Or.inr (ihs hw c hc)
  | alt r s ihr ihs =>
    intro c hc
    simp only [Regex.uses, Bool.or_eq_true]
    exact h.imp (fun h => ihr h c hc) (fun h => ihs h c hc)
  | cap i r ih => exact ih h

theorem Matches.nullable {r : Regex} {u : Text} (h : Matches r u) (hu : u = []) :
    r.nullable = true := by
  induction r generalizing u with
  | eps => rfl
  | chr p => obtain ⟨d, -, rfl⟩ := h; simp at hu
  | rep lo hi p => subst hu; simpa [Regex.nullable] using h.1
  | seq r s ihr ihs =>
    obtain ⟨v, w, rfl, hv, hw⟩ := h
    obtain ⟨hv0, hw0⟩ := List.append_eq_nil_iff.mp hu
    simp [Regex.nullable, ihr hv hv0, ihs hw hw0]
  | alt r s ihr ihs =>
    simp only [Regex.nullable, Bool.or_eq_true]
    exact h.imp (fun h => ihr h hu) (fun h => ihs h hu)
  | cap i r ih => exact ih h hu

theorem Matches.starts {r : Regex} {c : Char} {u : Text} (h : Matches r (c :: u)) :
    r.starts c = true := by
  induction r generalizing c u with
  | eps => simp [Matches] at h
  | chr p => obtain ⟨d, hd, hu⟩ := h; rw [(List.cons.inj hu).1]; exact hd
  | rep lo hi p => exact h.2.2 c (List.mem_cons_self ..)
  | seq r s ihr ihs =>
    obtain ⟨v, w, hvw, hv, hw⟩ := h
    simp only [Regex.starts, Bool.or_eq_true, Bool.and_eq_true]
    cases v with
    | nil =>
      rw [List.nil_append] at hvw
      exact Or.inr ⟨hv.nullable rfl, ihs (hvw ▸ hw)⟩
    | cons d v => exact Or.inl (ihr ((List.cons.inj hvw).1 ▸ hv))
  | alt r s ihr ihs =>
    simp only [Regex.starts, Bool.or_eq_true]
    exact h.imp ihr ihs
  | cap i r ih => exact ih h

theorem Matches.ends {r : Regex} {c : Char} {u : Text} (h : Matches r (u ++ [c])) :
    r.ends c = true := by
  induction r generalizing c u with
  | eps => simp [Matches] at h
  | chr p =>
    obtain ⟨d, hd, hu⟩ := h
    have : c = d := by
      have := congrArg List.getLast? hu
      simpa using this
    exact this ▸ hd
  | rep lo hi p => exact h.2.2 c (by simp)
  | seq r s ihr ihs =>
    obtain ⟨v, w, hvw, hv, hw⟩ := h
    simp only [Regex.ends, Bool.or_eq_true, Bool.and_eq_true]
    rcases List.eq_nil_or_concat w with rfl | ⟨w', d, rfl⟩
    · rw [List.append_nil] at hvw
      exact Or.inr ⟨hw.nullable rfl, ihr (hvw ▸ hv)⟩
    · simp only [List.concat_eq_append, ← List.append_assoc] at hvw hw
      have hcd : c = d := by
        have := congrArg List.getLast? hvw
        simpa using this
      exact Or.inl (ihs (hcd ▸ hw))
  | alt r s ihr ihs =>
    simp only [Regex.ends, Bool.or_eq_true]
    exact h.imp ihr ihs
  | cap i r ih => exact ih h

theorem Matches.follows {r : Regex} {c d : Char} {x y : Text} (h : Matches r (x ++ c :: d :: y)) :
    r.follows c d = true := by
  induction r generalizing x y with
  | eps => simp [Matches] at h
  | chr p =>
    obtain ⟨e, -, he⟩ := h
    have := congrArg List.length he
    simp at this
    omega
  | rep lo hi p =>
    have hc := h.2.2 c (by simp)
    have hd := h.2.2 d (by simp)
    simp [Regex.follows, hc, hd]
  | seq r s ihr ihs =>
    obtain ⟨v, w, hvw, hv, hw⟩ := h
    simp only [Regex.follows, Bool.or_eq_true, Bool.and_eq_true]
    rcases List.append_eq_append_iff.mp hvw with ⟨e, rfl, he⟩ | ⟨e, rfl, he⟩
    · match e, he with
      | [], he =>
        rw [List.nil_append] at he
        exact Or.inl (Or.inr (ihs (x := []) (by rw [← he] at hw; exact hw)))
      | [f], he =>
        simp only [List.cons_append, List.nil_append, List.cons.injEq] at he
        obtain ⟨rfl, rfl⟩ := he
        exact Or.inr ⟨hv.ends, hw.starts⟩
      | f :: f' :: e, he =>
        simp only [List.cons_append, List.cons.injEq] at he
        obtain ⟨rfl, rfl, rfl⟩ := he
        exact Or.inl (Or.inl (ihr hv))
    · exact Or.inl (Or.inr (ihs (by rw [he] at hw; exact hw)))
  | alt r s ihr ihs =>
    simp only [Regex.follows, Bool.or_eq_true]
    exact h.imp ihr ihs
  | cap i r ih => exact ih h

/-! ## Cutting a text where no match can pass -/

variable {r : Regex}

theorem search_append_left {a b : Text} (h : (search r a).isSome) : (search r (a ++ b)).isSome := by
  obtain ⟨x, u, y, rfl, hu⟩ := (search_isSome_iff r a).mp h
  exact (search_isSome_iff r _).mpr ⟨x, u, y ++ b, by simp, hu⟩

theorem search_append_right {a b : Text} (h : (search r b).isSome) : (search r (a ++ b)).isSome := by
  obtain ⟨x, u, y, rfl, hu⟩ := (search_isSome_iff r b).mp h
  exact (search_isSome_iff r _).mpr ⟨a ++ x, u, y, by simp, hu⟩

/-- A text that no match can begin in has no match. -/
theorem search_eq_none (hn : r.nullable = false) {t : Text} (h : ∀ c ∈ t, r.starts c = false) :
    search r t = none := by
  cases hs : search r t with
  | none => rfl
  | some g =>
    obtain ⟨a, u, b, rfl, hu⟩ := (search_isSome_iff r t).mp (by rw [hs]; rfl)
    cases u with
    | nil => rw [hu.nullable rfl] at hn; simp at hn
    | cons c u =>
      have hc := h c (by simp)
      rw [hu.starts] at hc
      simp at hc

/-- A text in front that no match can begin in does not matter. -/
theorem search_skip_front (hn : r.nullable = false) {a b : Text}
    (ha : ∀ c ∈ a, r.starts c = false) : (search r (a ++ b)).isSome ↔ (search r b).isSome := by
  refine ⟨fun h => ?_, search_append_right⟩
  induction a with
  | nil => exact h
  | cons c a ih =>
    rw [List.cons_append, search, Option.isSome_or, Bool.or_eq_true] at h
    rcases h with h | h
    · obtain ⟨u, v, huv, hu⟩ := (matchPrefix_isSome_iff r _).mp h
      cases u with
      | nil => rw [hu.nullable rfl] at hn; simp at hn
      | cons d u =>
        rw [← (List.cons.inj huv).1] at hu
        have hc : r.starts c = false := ha c (List.mem_cons_self ..)
        rw [hu.starts] at hc
        simp at hc
    · exact ih (fun x hx => ha x (List.mem_cons_of_mem _ hx)) h

/-- A text at the end that no match can end in does not matter. -/
theorem search_skip_back (hn : r.nullable = false) {a b : Text}
    (hb : ∀ c ∈ b, r.ends c = false) : (search r (a ++ b)).isSome ↔ (search r a).isSome := by
  refine ⟨fun h => ?_, search_append_left⟩
  induction b using List.reverseRecOn with
  | nil => simpa using h
  | append_singleton b c ih =>
    refine ih (fun x hx => hb x (by simp [hx])) ?_
    obtain ⟨x, u, y, hxy, hu⟩ := (search_isSome_iff r _).mp h
    rcases List.eq_nil_or_concat y with rfl | ⟨y', d, rfl⟩
    · rcases List.eq_nil_or_concat u with rfl | ⟨u', d, rfl⟩
      · rw [hu.nullable rfl] at hn; simp at hn
      · have hd : c = d := by
          have := congrArg List.getLast? hxy
          simpa using this
        rw [List.concat_eq_append, ← hd] at hu
        have := hb c (by simp)
        rw [hu.ends] at this
        simp at this
    · have hcut : a ++ b = x ++ u ++ y' := by
        have : (a ++ b) ++ [c] = (x ++ u ++ y') ++ [d] := by simpa using hxy
        exact (List.append_inj' this rfl).1
      rw [hcut]
      exact (search_isSome_iff r _).mpr ⟨x, u, y', rfl, hu⟩

/-- No match passes a character that no match contains. -/
theorem search_cut {a b : Text} {c : Char} (hc : r.uses c = false) :
    (search r (a ++ c :: b)).isSome ↔ (search r a).isSome ∨ (search r b).isSome := by
  constructor
  · intro h
    obtain ⟨x, u, y, hxy, hu⟩ := (search_isSome_iff r _).mp h
    have hcu : c ∉ u := fun hmem => by
      rw [hu.uses c hmem] at hc; simp at hc
    rw [List.append_assoc] at hxy
    rcases List.append_eq_append_iff.mp hxy with ⟨d, rfl, hd⟩ | ⟨d, rfl, hd⟩
    · right
      cases d with
      | nil =>
        -- the match would begin at `c`
        cases u with
        | nil =>
          exact (search_isSome_iff r b).mpr ⟨[], [], b, by simp, hu⟩
        | cons e u =>
          simp only [List.nil_append, List.cons_append, List.cons.injEq] at hd
          exact absurd (hd.1 ▸ List.mem_cons_self ..) hcu
      | cons e d =>
        simp only [List.cons_append, List.cons.injEq] at hd
        exact (search_isSome_iff r b).mpr ⟨d, u, y, by simp [hd.2], hu⟩
    · rcases List.append_eq_append_iff.mp hd with ⟨e, he, hb⟩ | ⟨e, rfl, hb⟩
      · left
        subst he
        exact (search_isSome_iff r _).mpr ⟨x, u, e, by simp, hu⟩
      · cases e with
        | nil =>
          left
          exact (search_isSome_iff r _).mpr ⟨x, d, [], by simp, by simpa using hu⟩
        | cons f e =>
          simp only [List.cons_append, List.cons.injEq] at hb
          exact absurd (by simp [hb.1]) hcu
  · rintro (h | h)
    · exact search_append_left h
    · have hr := search_append_right (a := a ++ [c]) h
      simpa using hr

/-- A word blocks when it has a character that no match contains, no match ends before that character
and none begins after it. -/
theorem blocks_of_unused (hn : r.nullable = false) {v x : Text} {c : Char}
    (hc : r.uses c = false) (hv : ∀ d ∈ v, r.ends d = false) (hx : ∀ d ∈ x, r.starts d = false) :
    Blocks r (v ++ c :: x) := by
  intro a b
  have hshape : a ++ ((v ++ c :: x) ++ b) = (a ++ v) ++ c :: (x ++ b) := by simp
  rw [hshape, search_cut hc, search_skip_back hn hv, search_skip_front hn hx]

/-- A word blocks when no match contains it, and none begins or ends in it. -/
theorem blocks_of_not_infix (hn : r.nullable = false) {w : Text}
    (hw : ∀ x y, ¬ Matches r (x ++ w ++ y)) (hs : ∀ d ∈ w, r.starts d = false)
    (he : ∀ d ∈ w, r.ends d = false) : Blocks r w := by
  intro a b
  refine ⟨fun h => ?_, fun h => h.elim search_append_left
    (fun h => search_append_right (search_append_right h))⟩
  obtain ⟨x, u, y, hxy, hu⟩ := (search_isSome_iff r _).mp h
  rw [List.append_assoc] at hxy
  rcases List.append_eq_append_iff.mp hxy with ⟨d, rfl, hd⟩ | ⟨d, rfl, hd⟩
  · -- the match begins in `w` or after it
    right
    have hsearch : (search r (w ++ b)).isSome :=
      (search_isSome_iff r _).mpr ⟨d, u, y, by rw [hd]; simp, hu⟩
    exact (search_skip_front hn hs).mp hsearch
  · rcases List.append_eq_append_iff.mp hd with ⟨e, he', hb⟩ | ⟨e, rfl, hb⟩
    · left
      exact (search_isSome_iff r _).mpr ⟨x, u, e, by simp [he'], hu⟩
    · -- the match begins before `w` and ends after the start of `w`
      rcases List.append_eq_append_iff.mp hb with ⟨f, rfl, -⟩ | ⟨f, hf, -⟩
      · exact absurd (by simpa using hu) (hw d f)
      · rcases List.eq_nil_or_concat e with rfl | ⟨e', c, rfl⟩
        · left
          exact (search_isSome_iff r _).mpr ⟨x, d, [], by simp, by simpa using hu⟩
        · have hc : r.ends c = false := he c (by simp [hf])
          rw [List.concat_eq_append, ← List.append_assoc] at hu
          rw [hu.ends] at hc
          simp at hc

/-! ## Running the matcher on a known front -/

theorem run_eps (t : Text) (g : Groups) (k : Text → Groups → Option α) :
    run .eps t g k = k t g := rfl

theorem run_seq (r s : Regex) (t : Text) (g : Groups) (k : Text → Groups → Option α) :
    run (.seq r s) t g k = run r t g (fun t' g' => run s t' g' k) := rfl

theorem run_alt (r s : Regex) (t : Text) (g : Groups) (k : Text → Groups → Option α) :
    run (.alt r s) t g k = (run r t g k).or (run s t g k) := rfl

theorem run_cap (i : Nat) (r : Regex) (t : Text) (g : Groups) (k : Text → Groups → Option α) :
    run (.cap i r) t g k =
      run r t g (fun t' g' => k t' ((i, t.take (t.length - t'.length)) :: g')) := rfl

/-- A repetition takes the whole run of its class when what follows the run is then accepted. -/
theorem run_rep_all {lo : Nat} {hi : Option Nat} {p : Char → Bool} {a b : Text} {g : Groups}
    {k : Text → Groups → Option α} {x : α} (hlo : lo ≤ a.length) (hhi : ∀ h ∈ hi, a.length ≤ h)
    (ha : ∀ c ∈ a, p c = true) (hb : ∀ c ∈ b.head?, p c = false) (hk : k b g = some x) :
    run (.rep lo hi p) (a ++ b) g k = some x := by
  have htw : (a ++ b).takeWhile p = a := by
    rw [List.takeWhile_append_of_pos ha]
    cases b with
    | nil => simp
    | cons c b => simp [hb c rfl]
  have hr : reach hi p (a ++ b) = a.length := by
    cases hi with
    | none => simp [reach, htw]
    | some h => simp only [reach, htw]; exact Nat.min_eq_right (hhi h rfl)
  rw [run, hr]
  cases hn : a.length with
  | zero =>
    have : a = [] := List.length_eq_zero_iff.mp hn
    subst this
    simp only [List.length_nil, Nat.le_zero] at hlo
    simp [backoff, hlo, hk]
  | succ n =>
    have hdrop : (a ++ b).drop (n + 1) = b := by rw [← hn]; simp
    have hge : ¬ n + 1 < lo := by omega
    simp [backoff, hge, hdrop, hk]

/-- Ignoring case only matters to letters. -/
theorem foldEq_symbol {c x : Char} (hc : c.toNat < 65) (h : x ≠ c) : foldEq c x = false := by
  have hlow : x.toLower ≠ c := by
    unfold Char.toLower
    split
    · rename_i hupper
      intro heq
      have hlo : 65 ≤ x.toNat := UInt32.le_iff_toNat_le.mp hupper.1
      have hhi : x.toNat ≤ 90 := UInt32.le_iff_toNat_le.mp hupper.2
      have hval := congrArg (fun c => c.val.toNat) heq
      simp at hval
      omega
    · exact h
  have hi : c ≠ 'i' := by rintro rfl; revert hc; decide
  have hs : c ≠ 's' := by rintro rfl; revert hc; decide
  have hk : c ≠ 'k' := by rintro rfl; revert hc; decide
  simp [foldEq, h, hlow, hi, hs, hk]

/-- A literal takes its own text. -/
theorem run_lit (s : String) (b : Text) (g : Groups) (k : Text → Groups → Option α) :
    run (lit s) (s.toList ++ b) g k = k b g := by
  have hfold : ∀ cs : Text,
      run (cs.foldr (fun c r => .seq (.chr (foldEq c)) r) .eps) (cs ++ b) g k = k b g := by
    intro cs
    induction cs with
    | nil => rfl
    | cons c cs ih =>
      have hc : foldEq c c = true := by simp [foldEq]
      simp only [List.foldr_cons, List.cons_append, run, hc, if_true]
      exact ih
  exact hfold s.toList

theorem run_exact (s : String) (b : Text) (g : Groups) (k : Text → Groups → Option α) :
    run (exact s) (s.toList ++ b) g k = k b g := by
  have hfold : ∀ cs : Text,
      run (cs.foldr (fun c r => .seq (.chr (· == c)) r) .eps) (cs ++ b) g k = k b g := by
    intro cs
    induction cs with
    | nil => rfl
    | cons c cs ih =>
      simp only [List.foldr_cons, List.cons_append, run, beq_self_eq_true, if_true]
      exact ih
  exact hfold s.toList

/-- The text of a group is what its expression took. -/
theorem take_captured (a b : Text) : (a ++ b).take ((a ++ b).length - b.length) = a := by
  simp

/-- A full match is a match of the whole text. -/
theorem fullMatch_iff (r : Regex) (t : Text) : fullMatch r t = true ↔ Matches r t := by
  unfold fullMatch
  rw [run_isSome_iff r t [] _ (by intro v g g'; by_cases hv : v = [] <;> simp [hv])]
  constructor
  · rintro ⟨u, v, rfl, hu, hv⟩
    by_cases hnil : v = []
    · simpa [hnil] using hu
    · simp [hnil] at hv
  · intro h
    exact ⟨t, [], by simp, h, by simp⟩

/-- The first match of a search is the one at the start of the text, when there is one. -/
theorem search_of_matchPrefix {t : Text} {g : Groups} (h : matchPrefix r t = some g) :
    search r t = some g := by
  cases t with
  | nil => exact h
  | cons c t => rw [search, h]; rfl

/-! ## Lines -/

/-- A match up to the end of a line. -/
theorem matchToLineEnd_isSome_iff (r : Regex) (t : Text) :
    (matchToLineEnd r t).isSome = true ↔ ∃ u v, t = u ++ v ∧ Matches r u ∧ endsLine v = true := by
  unfold matchToLineEnd
  rw [run_isSome_iff r t [] _ (by intro v g g'; cases endsLine v <;> rfl)]
  constructor
  · rintro ⟨u, v, rfl, hu, hv⟩
    refine ⟨u, v, rfl, hu, ?_⟩
    by_contra hnot
    rw [if_neg hnot] at hv
    cases hv
  · rintro ⟨u, v, rfl, hu, hv⟩
    refine ⟨u, v, rfl, hu, ?_⟩
    rw [if_pos hv]
    rfl

/-- An expression without a line feed that matches up to the end of a line leaves the lines behind it. -/
theorem rest_of_matchToLineEnd {t rest : Text} {g : Groups} (hr : r.uses '\n' = false)
    (h : matchToLineEnd r t = some (g, rest)) : rest = t.dropWhile (· ≠ '\n') := by
  obtain ⟨u, v, g', rfl, hu, hk, -⟩ := run_eq_some h
  by_cases hv : endsLine v = true
  · rw [if_pos hv] at hk
    cases hk
    have hinside : ∀ c ∈ u, decide (c ≠ '\n') = true := by
      rintro c hc
      refine decide_eq_true ?_
      rintro rfl
      have huses := hu.uses _ hc
      rw [hr] at huses
      cases huses
    rw [List.dropWhile_append_of_pos hinside]
    cases rest with
    | nil => rfl
    | cons c rest =>
      have hbreak : c = '\n' := by simpa [endsLine] using hv
      simp [hbreak]
  · rw [if_neg hv] at hk
    cases hk

/-- Where the first line that matches begins. -/
def firstLine (r : Regex) (t : Text) : Option Text :=
  (lineStarts t).find? fun s => (matchToLineEnd r s).isSome

theorem map_searchLines (hr : r.uses '\n' = false) (t : Text) :
    (searchLines r t).map Prod.snd = (firstLine r t).map (·.dropWhile (· ≠ '\n')) := by
  unfold searchLines firstLine
  generalize lineStarts t = starts
  induction starts with
  | nil => rfl
  | cons s starts ih =>
    rw [List.findSome?_cons, List.find?_cons]
    cases hmatch : matchToLineEnd r s with
    | none => exact ih
    | some m =>
      obtain ⟨g, rest⟩ := m
      show some rest = some (s.dropWhile (· ≠ '\n'))
      rw [rest_of_matchToLineEnd hr hmatch]

/-- The first line that matches a wider expression is the first one of the narrower expression, when it
matches that too. -/
theorem firstLine_eq {s : Regex} {t line : Text} (hsub : ∀ u, Matches r u → Matches s u)
    (hfirst : firstLine s t = some line) (hline : (matchToLineEnd r line).isSome = true) :
    firstLine r t = some line := by
  obtain ⟨-, front, back, hstarts, hfront⟩ := List.find?_eq_some_iff_append.mp hfirst
  refine List.find?_eq_some_iff_append.mpr ⟨hline, front, back, hstarts, fun x hx => ?_⟩
  have hnot := hfront x hx
  cases hx' : (matchToLineEnd r x).isSome with
  | false => rfl
  | true =>
    obtain ⟨u, v, rfl, hu, hv⟩ := (matchToLineEnd_isSome_iff r x).mp hx'
    have hwide := (matchToLineEnd_isSome_iff s (u ++ v)).mpr ⟨u, v, rfl, hsub u hu, hv⟩
    rw [hwide] at hnot
    cases hnot

theorem firstLine_eq_none {s : Regex} {t : Text} (hsub : ∀ u, Matches r u → Matches s u)
    (hfirst : firstLine s t = none) : firstLine r t = none := by
  refine List.find?_eq_none.mpr fun x hx hx' => ?_
  obtain ⟨u, v, rfl, hu, hv⟩ := (matchToLineEnd_isSome_iff r x).mp hx'
  exact List.find?_eq_none.mp hfirst _ hx ((matchToLineEnd_isSome_iff s _).mpr ⟨u, v, rfl, hsub u hu, hv⟩)

/-- What a search through the lines captures is matched by a group of that number. -/
theorem searchLines_captured {t rest : Text} {g : Groups} (h : searchLines r t = some (g, rest)) {i : Nat}
    {u : Text} (hget : g.get i = some u) : ∃ s, (i, s) ∈ captures r ∧ Matches s u := by
  obtain ⟨front, line, back, -, hline, -⟩ := List.findSome?_eq_some_iff.mp h
  obtain ⟨w, v, g', -, -, hk, hcaptured⟩ := run_eq_some hline
  split_ifs at hk
  cases hk
  rcases hcaptured _ (Groups.mem_of_get hget) with hnone | hgroup
  · cases hnone
  · exact hgroup

/-! ## Literals -/

theorem matches_exact {s : String} {u : Text} : Matches (exact s) u ↔ u = s.toList := by
  have hfold : ∀ (cs u : Text), Matches (cs.foldr (fun c r => .seq (.chr (· == c)) r) .eps) u ↔ u = cs := by
    intro cs
    induction cs with
    | nil => exact fun u => Iff.rfl
    | cons c cs ih =>
      intro u
      constructor
      · rintro ⟨v, w, rfl, ⟨d, hd, rfl⟩, hw⟩
        rw [(ih w).mp hw, beq_iff_eq.mp hd]
        rfl
      · rintro rfl
        exact ⟨[c], cs, rfl, ⟨c, beq_self_eq_true c, rfl⟩, (ih cs).mpr rfl⟩
  exact hfold s.toList u

theorem matches_escape_iff (t u : Text) : Matches (escape false t) u ↔ u = t := by
  induction t generalizing u with
  | nil => exact Iff.rfl
  | cons c t ih =>
    constructor
    · rintro ⟨v, w, rfl, ⟨d, hd, rfl⟩, hw⟩
      have hdc : d = c := by simpa using hd
      rw [hdc, (ih w).mp hw]
      rfl
    · rintro rfl
      exact ⟨[c], t, rfl, ⟨c, by simp, rfl⟩, (ih t).mpr rfl⟩

theorem uses_escape (t : Text) (c : Char) : (escape false t).uses c = t.contains c := by
  induction t with
  | nil => rfl
  | cons d t ih =>
    have hcons : (escape false (d :: t)).uses c = (c == d || (escape false t).uses c) := rfl
    rw [hcons, ih, List.contains_cons]

end Regex
