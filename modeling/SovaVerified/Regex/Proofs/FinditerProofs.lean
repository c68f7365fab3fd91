import SovaVerified.Regex.Regex
import SovaVerified.Regex.Proofs.SearchProofs

/-!
# Where matches are found

A search for all matches finds what there is at every place of the text that no earlier match reaches over. Where
no match begins inside another one, that is every place.
-/

namespace Regex

variable {β : Type} {m : Matcher β} {r : Regex} {prev : Option Char} {t u rest : Text} {x : β} {g : Groups}
  {guard : Option Char → Text → Bool}

/-! ## Matches that do not overlap -/

/-- No match begins inside another one, and none where the text ends. -/
structure NoOverlap (m : Matcher β) : Prop where
  inside : ∀ {prev a b x n}, m prev (a ++ b) = some (x, n) → a ≠ [] → a.length < n → m a.getLast? b = none
  atEnd : ∀ prev, m prev [] = none

/-- What is at a place of the text. -/
def FoundAt (m : Matcher β) (prev : Option Char) (x : β) (a b : Text) : Prop :=
  ∃ n, m (a.getLast?.or prev) b = some (x, n)

theorem foundAt_cons {c : Char} {a b : Text} : FoundAt m prev x (c :: a) b ↔ FoundAt m (some c) x a b := by
  have hlast : (c :: a).getLast?.or prev = a.getLast?.or (some c) := by
    cases a with
    | nil => rfl
    | cons d a =>
      rw [List.getLast?_cons_cons, List.getLast?_cons]
      rfl
  unfold FoundAt
  rw [hlast]

theorem mem_findAll_skip_iff (hm : NoOverlap m) (k : Nat) :
    x ∈ findAll m prev k t ↔ ∃ a b, t = a ++ b ∧ k ≤ a.length ∧ FoundAt m prev x a b := by
  induction t generalizing prev k with
  | nil =>
    refine iff_of_false List.not_mem_nil ?_
    rintro ⟨a, b, heq, -, n, hfound⟩
    obtain ⟨rfl, rfl⟩ := List.append_eq_nil_iff.mp heq.symm
    rw [hm.atEnd] at hfound
    cases hfound
  | cons c t ih =>
    cases k with
    | succ k =>
      rw [findAll, ih]
      constructor
      · rintro ⟨a, b, rfl, hle, hfound⟩
        exact ⟨c :: a, b, rfl, Nat.succ_le_succ hle, foundAt_cons.mpr hfound⟩
      · rintro ⟨a, b, heq, hle, hfound⟩
        cases a with
        | nil => cases hle
        | cons d a =>
          obtain ⟨rfl, rfl⟩ := List.cons_eq_cons.mp heq
          exact ⟨a, b, rfl, Nat.le_of_succ_le_succ hle, foundAt_cons.mp hfound⟩
    | zero =>
      cases hhere : m prev (c :: t) with
      | none =>
        rw [findAll, hhere]
        dsimp only
        rw [ih]
        constructor
        · rintro ⟨a, b, rfl, -, hfound⟩
          exact ⟨c :: a, b, rfl, Nat.zero_le _, foundAt_cons.mpr hfound⟩
        · rintro ⟨a, b, heq, -, hfound⟩
          cases a with
          | nil =>
            obtain ⟨n, hfound⟩ := hfound
            rw [List.nil_append] at heq
            rw [← heq] at hfound
            have hnone : m prev (c :: t) = some (x, n) := hfound
            rw [hhere] at hnone
            cases hnone
          | cons d a =>
            obtain ⟨rfl, rfl⟩ := List.cons_eq_cons.mp heq
            exact ⟨a, b, rfl, Nat.zero_le _, foundAt_cons.mp hfound⟩
      | some found =>
        obtain ⟨y, n⟩ := found
        rw [findAll, hhere]
        dsimp only
        rw [List.mem_cons, ih]
        constructor
        · rintro (rfl | ⟨a, b, rfl, -, hfound⟩)
          · exact ⟨[], c :: t, rfl, Nat.zero_le _, n, hhere⟩
          · exact ⟨c :: a, b, rfl, Nat.zero_le _, foundAt_cons.mpr hfound⟩
        · rintro ⟨a, b, heq, -, hfound⟩
          cases a with
          | nil =>
            obtain ⟨n', hfound⟩ := hfound
            rw [List.nil_append] at heq
            rw [← heq] at hfound
            have hsome : m prev (c :: t) = some (x, n') := hfound
            rw [hhere] at hsome
            cases hsome
            exact .inl rfl
          | cons d a =>
            obtain ⟨rfl, rfl⟩ := List.cons_eq_cons.mp heq
            refine .inr ⟨a, b, rfl, ?_, foundAt_cons.mp hfound⟩
            -- the place is behind the match
            by_contra hlt
            have hinside := hm.inside (a := c :: a) hhere (List.cons_ne_nil _ _) (by rw [List.length_cons]; omega)
            obtain ⟨n', hfound⟩ := hfound
            rw [Option.or_of_isSome (by simp)] at hfound
            rw [hinside] at hfound
            cases hfound

theorem mem_findAll_iff (hm : NoOverlap m) :
    x ∈ findAll m prev 0 t ↔ ∃ a b, t = a ++ b ∧ FoundAt m prev x a b := by
  rw [mem_findAll_skip_iff hm]
  simp only [Nat.zero_le, true_and]

/-! ## Matches of an expression -/

/-- A character behind the first one of a match. -/
theorem Matches.inner {a b : Text} {d : Char} (h : Matches r u) (hu : u = a ++ d :: b) (ha : a ≠ []) :
    r.inner d = true := by
  induction r generalizing u a b with
  | eps =>
    obtain rfl : u = [] := h
    exact absurd (List.append_eq_nil_iff.mp hu.symm).1 ha
  | chr p =>
    obtain ⟨c, -, rfl⟩ := h
    have hlength := congrArg List.length hu
    have hpos := List.length_pos_iff.mpr ha
    rw [List.length_append, List.length_cons, List.length_cons, List.length_nil] at hlength
    omega
  | rep lo hi p =>
    obtain ⟨-, -, hall⟩ := h
    exact hall d (by rw [hu]; simp)
  | seq r s ihr ihs =>
    obtain ⟨v, w, rfl, hv, hw⟩ := h
    have hstarts : ∀ c, w = d :: c → (Regex.seq r s).inner d = true := by
      rintro c rfl
      have hs := hw.starts
      unfold Regex.inner
      rw [hs, Bool.or_true]
    rcases List.append_eq_append_iff.mp hu with ⟨c, rfl, hc⟩ | ⟨c, rfl, hc⟩
    · by_cases hnil : c = []
      · rw [hnil, List.nil_append] at hc
        exact hstarts b hc
      · have hin := ihs hw hc hnil
        unfold Regex.inner
        rw [hin, Bool.or_true, Bool.true_or]
    · cases c with
      | nil => exact hstarts b hc.symm
      | cons e c =>
        obtain ⟨rfl, -⟩ := List.cons_eq_cons.mp hc
        have hin := ihr hv rfl ha
        unfold Regex.inner
        rw [hin, Bool.true_or, Bool.true_or]
  | alt r s ihr ihs =>
    unfold Regex.inner
    rcases h with h | h
    · rw [ihr h hu ha, Bool.true_or]
    · rw [ihs h hu ha, Bool.or_true]
  | cap i r ih => exact ih h hu ha

/-- What the matcher of an expression finds. -/
theorem matcher_eq_some {n : Nat} (h : matcher guard r prev t = some (g, n)) :
    guard prev t = true ∧ ∃ rest, matchRest r t = some (g, rest) ∧ n = t.length - rest.length := by
  unfold matcher at h
  split_ifs at h with hguard
  obtain ⟨⟨g', rest⟩, hmatch, heq⟩ := Option.map_eq_some_iff.mp h
  obtain ⟨rfl, rfl⟩ := Prod.mk.inj heq
  exact ⟨hguard, rest, hmatch, rfl⟩

theorem matches_of_matchRest (h : matchRest r t = some (g, rest)) : ∃ u, t = u ++ rest ∧ Matches r u := by
  obtain ⟨u, v, g', ht, hu, heq, -⟩ := run_eq_some h
  obtain ⟨-, rfl⟩ := Prod.mk.inj (Option.some.inj heq)
  exact ⟨u, ht, hu⟩

/-- An expression whose beginning is nowhere else in a match. -/
theorem noOverlap_matcher (guard : Option Char → Text → Bool) (hn : r.nullable = false)
    (hstarts : ∀ d, r.starts d = true → r.inner d = false) : NoOverlap (matcher guard r) := by
  have hfound : ∀ {prev t g n}, matcher guard r prev t = some (g, n) → ∃ u v, t = u ++ v ∧ n = u.length ∧
      Matches r u := by
    intro prev t g n h
    obtain ⟨-, rest, hmatch, rfl⟩ := matcher_eq_some h
    obtain ⟨u, rfl, hu⟩ := matches_of_matchRest hmatch
    refine ⟨u, rest, rfl, ?_, hu⟩
    rw [List.length_append, Nat.add_sub_cancel]
  have hne : ∀ {u}, Matches r u → u ≠ [] := by
    rintro u hu rfl
    have hnull := hu.nullable rfl
    rw [hn] at hnull
    cases hnull
  constructor
  · intro prev a b x n h ha hlt
    obtain ⟨u, v, hu, rfl, hmatch⟩ := hfound h
    rcases List.append_eq_append_iff.mp hu with ⟨c, rfl, hb⟩ | ⟨c, rfl, -⟩
    · rw [Option.eq_none_iff_forall_ne_some]
      rintro ⟨y, k⟩ hagain
      obtain ⟨u', v', rfl, -, hmatch'⟩ := hfound hagain
      obtain ⟨d, u', rfl⟩ := List.exists_cons_of_ne_nil (hne hmatch')
      cases c with
      | nil =>
        rw [List.append_nil] at hlt
        exact absurd hlt (Nat.lt_irrefl _)
      | cons e c =>
        obtain ⟨rfl, -⟩ := List.cons_eq_cons.mp hb
        have hinner := hmatch.inner rfl ha
        rw [hstarts d hmatch'.starts] at hinner
        cases hinner
    · rw [List.length_append] at hlt
      omega
  · intro prev
    rw [Option.eq_none_iff_forall_ne_some]
    rintro ⟨y, k⟩ hend
    obtain ⟨u, v, hu, -, hmatch⟩ := hfound hend
    exact hne hmatch (List.append_eq_nil_iff.mp hu.symm).1

/-! ## Runs of a class -/

theorem backoff_some {α : Type} (k : Nat → α) (lo n : Nat) :
    backoff (fun n => some (k n)) lo n = if n < lo then none else some (k n) := by
  cases n with
  | zero =>
    rw [backoff]
    by_cases hlo : lo = 0
    · rw [if_pos hlo, if_neg (by omega)]
    · rw [if_neg hlo, if_pos (by omega)]
  | succ n =>
    rw [backoff]
    split_ifs
    · rfl
    · rfl

/-- A class is taken as far as it goes. -/
theorem matchRest_cap_rep (p : Char → Bool) (t : Text) :
    matchRest (.cap 1 (.rep 1 none p)) t =
      if t.takeWhile p = [] then none else some ([(1, t.takeWhile p)], t.dropWhile p) := by
  have hrun : matchRest (.cap 1 (.rep 1 none p)) t =
      backoff (fun n => some ([(1, t.take (t.length - (t.drop n).length))], t.drop n)) 1 (t.takeWhile p).length := rfl
  have hsplit : t.takeWhile p ++ t.dropWhile p = t := List.takeWhile_append_dropWhile
  have hdrop : t.drop (t.takeWhile p).length = t.dropWhile p := by
    have hcut : (t.takeWhile p ++ t.dropWhile p).drop (t.takeWhile p).length = t.dropWhile p := List.drop_left
    rwa [hsplit] at hcut
  have htake : t.take (t.length - (t.dropWhile p).length) = t.takeWhile p := by
    have hcut := take_captured (t.takeWhile p) (t.dropWhile p)
    rwa [hsplit] at hcut
  rw [hrun, backoff_some, hdrop, htake]
  by_cases hnil : t.takeWhile p = []
  · rw [hnil, if_pos (by decide), if_pos rfl]
  · have hpos := List.length_pos_iff.mpr hnil
    rw [if_neg (by omega), if_neg hnil]

end Regex
