import Mathlib.Tactic.Linarith
import Mathlib.Tactic.Ring
import SovaVerified.Json.Json

/-!
# Products of floats

The product of two floats is the float that is nearest to their exact product. What is shown of it is what
a comparison with an integer needs: a number with 53 significant bits that is not above the exact product is
not above the rounded one, and the rounded one is off by at most one part in `2 ^ 53`.
-/

namespace PyFloat

/-- The magnitude of the product of two numbers of units: it has 53 significant bits, but none below the
unit. -/
def mulMagnitude (m n : Nat) : Nat :=
  let shift := max 1074 (Nat.log2 (m * n) - 52)
  nearest (m * n) shift * 2 ^ (shift - 1074)

/-- `a * b`. -/
def mul : PyFloat → PyFloat → PyFloat
  | .finite a, .finite b =>
    let m := mulMagnitude a.natAbs b.natAbs
    if 2 ^ 1024 * one ≤ m then .infinite (a * b < 0) else .finite ((a * b).sign * m)
  | .finite a, .infinite negative | .infinite negative, .finite a =>
    if a = 0 then .nan else .infinite (negative != (a < 0))
  | .infinite a, .infinite b => .infinite (a != b)
  | _, _ => .nan

/-- `x <= n`. -/
def leInt (n : Int) : PyFloat → Bool
  | .finite a => a ≤ n * one
  | .infinite negative => negative
  | .nan => false

/-- `x > 0.5`. -/
def aboveHalf : PyFloat → Bool
  | .finite a => one < 2 * a
  | .infinite negative => !negative
  | .nan => false

/-- The number of units of a float has 53 significant bits, and is not too large. -/
def isDouble : PyFloat → Bool
  | .finite units => round units == .finite units
  | _ => true

/-! ## Rounding of magnitudes -/

theorem div_le_nearest (m shift : Nat) : m / 2 ^ shift ≤ nearest m shift := by
  unfold nearest
  dsimp only
  split_ifs <;> omega

/-- On the grid, what is not above a number is not above the nearest one to it. -/
theorem le_nearest {m shift j : Nat} (h : j * 2 ^ shift ≤ m) : j ≤ nearest m shift := by
  have hquotient : j ≤ m / 2 ^ shift := (Nat.le_div_iff_mul_le (Nat.two_pow_pos shift)).mpr h
  exact hquotient.trans (div_le_nearest m shift)

theorem nearest_zero (m : Nat) : nearest m 0 = m := by
  simp [nearest, Nat.mod_one]

/-- The nearest number is off by at most half a step. -/
theorem le_nearest_add (m shift : Nat) : 2 * m ≤ 2 * (nearest m shift * 2 ^ shift) + 2 ^ shift := by
  have hm := Nat.div_add_mod' m (2 ^ shift)
  have hr := Nat.mod_lt m (Nat.two_pow_pos shift)
  unfold nearest
  dsimp only
  split_ifs with hlow hhigh
  · omega
  · have hstep : (m / 2 ^ shift + 1) * 2 ^ shift = m / 2 ^ shift * 2 ^ shift + 2 ^ shift := by ring
    omega
  · have hstep : m / 2 ^ shift * 2 ^ shift ≤ (m / 2 ^ shift + m / 2 ^ shift % 2) * 2 ^ shift :=
      Nat.mul_le_mul_right _ (Nat.le_add_right _ _)
    omega

/-- The step of the grid on which a number is rounded is small against it. -/
theorem step_le {m : Nat} (h : m ≠ 0) (hlog : 52 ≤ Nat.log2 m) : 2 ^ 52 * 2 ^ (Nat.log2 m - 52) ≤ m := by
  rw [← Nat.pow_add, Nat.add_sub_cancel' hlog]
  exact Nat.log2_self_le h

/-- A number with 53 significant bits that is not above `m` is not above what `m` is rounded to. -/
theorem le_roundMagnitude {m j i : Nat} (hj : j ≤ 2 ^ 53) (h : j * 2 ^ i ≤ m) :
    j * 2 ^ i ≤ roundMagnitude m := by
  unfold roundMagnitude
  dsimp only
  by_cases hlog : Nat.log2 m ≤ 52
  · rw [Nat.sub_eq_zero_of_le hlog, nearest_zero, Nat.pow_zero, Nat.mul_one]
    exact h
  have hm : m ≠ 0 := by
    rintro rfl
    exact hlog (by decide)
  rcases Nat.lt_or_ge i (Nat.log2 m - 52) with hlt | hge
  · -- The number lies in a lower binade than `m`, whose own lowest number is on the grid.
    have hbinade : 2 ^ 52 * 2 ^ (Nat.log2 m - 52) ≤ m := step_le hm (by omega)
    have hbelow : j * 2 ^ i ≤ 2 ^ 52 * 2 ^ (Nat.log2 m - 52) := calc
      j * 2 ^ i ≤ 2 ^ 53 * 2 ^ i := Nat.mul_le_mul_right _ hj
      _ = 2 ^ 52 * 2 ^ (i + 1) := by ring
      _ ≤ 2 ^ 52 * 2 ^ (Nat.log2 m - 52) :=
        Nat.mul_le_mul_left _ (Nat.pow_le_pow_right (by omega) (by omega))
    exact hbelow.trans (Nat.mul_le_mul_right _ (le_nearest hbinade))
  · have hgrid : j * 2 ^ i = j * 2 ^ (i - (Nat.log2 m - 52)) * 2 ^ (Nat.log2 m - 52) := by
      rw [Nat.mul_assoc, ← Nat.pow_add, Nat.sub_add_cancel hge]
    rw [hgrid] at h ⊢
    exact Nat.mul_le_mul_right _ (le_nearest h)

/-- Rounding takes away at most one part in `2 ^ 53`. -/
theorem mul_le_roundMagnitude (m : Nat) : (2 ^ 53 - 1) * m ≤ 2 ^ 53 * roundMagnitude m := by
  unfold roundMagnitude
  dsimp only
  by_cases hlog : Nat.log2 m ≤ 52
  · rw [Nat.sub_eq_zero_of_le hlog, nearest_zero, Nat.pow_zero, Nat.mul_one]
    exact Nat.mul_le_mul_right _ (Nat.sub_le _ _)
  have hm : m ≠ 0 := by
    rintro rfl
    exact hlog (by decide)
  have hstep := step_le hm (by omega)
  have hnear := le_nearest_add m (Nat.log2 m - 52)
  generalize nearest m (Nat.log2 m - 52) * 2 ^ (Nat.log2 m - 52) = rounded at hnear ⊢
  generalize 2 ^ (Nat.log2 m - 52) = step at hstep hnear
  omega

/-! ## Doubles and their products -/

theorem roundMagnitude_of_isDouble {m : Nat} (h : isDouble (.finite m) = true) : roundMagnitude m = m := by
  have hround : round m = .finite m := by simpa [isDouble] using h
  unfold round at hround
  dsimp only at hround
  rw [Int.natAbs_natCast] at hround
  split_ifs at hround
  have hmagnitude : (m : Int).sign * (roundMagnitude m : Int) = m := PyFloat.finite.inj hround
  by_cases hm : m = 0
  · rw [hm]
    rfl
  · rw [Int.sign_natCast_of_ne_zero hm, Int.one_mul] at hmagnitude
    exact Int.ofNat_inj.mp hmagnitude

/-- Above a power of two there is no double before the one that has one more in the last place. -/
theorem next_le_of_isDouble {m e : Nat} (h : isDouble (.finite m) = true) (he : 52 ≤ e) (hm : 2 ^ e < m) :
    2 ^ e + 2 ^ (e - 52) ≤ m := by
  have hround := roundMagnitude_of_isDouble h
  have hlog : e ≤ Nat.log2 m := (Nat.le_log2 (Nat.zero_lt_of_lt hm).ne').mpr hm.le
  have hmultiple : 2 ^ (e - 52) ∣ m := by
    rw [← hround]
    exact Dvd.dvd.mul_left (Nat.pow_dvd_pow 2 (by omega)) _
  obtain ⟨k, hk⟩ := hmultiple
  have hpow : 2 ^ e = 2 ^ (e - 52) * 2 ^ 52 := by rw [← Nat.pow_add, Nat.sub_add_cancel he]
  have hlt : 2 ^ 52 < k := by
    rw [hpow, hk] at hm
    exact Nat.lt_of_mul_lt_mul_left hm
  calc 2 ^ e + 2 ^ (e - 52) = 2 ^ (e - 52) * (2 ^ 52 + 1) := by rw [hpow]; ring
    _ ≤ 2 ^ (e - 52) * k := Nat.mul_le_mul_left _ hlt
    _ = m := hk.symm

/-- What is more than half by at least one in the last place: a product with it is more than half of what
the other factor was before it was rounded. -/
theorem lt_two_mul_roundMagnitude {m n e : Nat} (hlog : 52 ≤ Nat.log2 m) (he : 52 ≤ e)
    (hn : 2 ^ e + 2 ^ (e - 52) ≤ n) : m * 2 ^ (e + 1) < 2 * roundMagnitude (roundMagnitude m * n) := by
  have hm : m ≠ 0 := by
    rintro rfl
    exact absurd hlog (by decide)
  have hlow : 2 ^ 52 * 2 ^ (Nat.log2 m - 52) ≤ roundMagnitude m :=
    le_roundMagnitude (by decide) (step_le hm hlog)
  have hhigh : m < 2 ^ 53 * 2 ^ (Nat.log2 m - 52) := by
    rw [← Nat.pow_add]
    exact Nat.lt_log2_self.trans_le (Nat.pow_le_pow_right (by omega) (by omega))
  have hnear := le_nearest_add m (Nat.log2 m - 52)
  have hrounded : roundMagnitude m = nearest m (Nat.log2 m - 52) * 2 ^ (Nat.log2 m - 52) := rfl
  have hstep := Nat.two_pow_pos (Nat.log2 m - 52)
  generalize Nat.log2 m - 52 = s at hlow hhigh hnear hrounded hstep
  have hfactor : roundMagnitude m * 2 ^ (e + 1) + 2 ^ s * 2 ^ (e + 1) ≤ 2 * (roundMagnitude m * n) := calc
    roundMagnitude m * 2 ^ (e + 1) + 2 ^ s * 2 ^ (e + 1)
      = roundMagnitude m * 2 ^ (e + 1) + 2 ^ 52 * 2 ^ s * 2 ^ (e - 52 + 1) := by
        rw [show e + 1 = 52 + (e - 52 + 1) by omega, Nat.pow_add 2 52]
        ring
    _ ≤ roundMagnitude m * 2 ^ (e + 1) + roundMagnitude m * 2 ^ (e - 52 + 1) :=
        Nat.add_le_add_left (Nat.mul_le_mul_right _ hlow) _
    _ = 2 * (roundMagnitude m * (2 ^ e + 2 ^ (e - 52))) := by ring
    _ ≤ 2 * (roundMagnitude m * n) := by gcongr
  -- A number above `m` with 53 significant bits, and half of which the product reaches.
  obtain ⟨j, hj, habove, hreached⟩ : ∃ j ≤ 2 ^ 53, m < j * 2 ^ s ∧
      j * 2 ^ s ≤ roundMagnitude m + 2 ^ s := by
    by_cases htop : nearest m s < 2 ^ 53
    · have hnext : (nearest m s + 1) * 2 ^ s = nearest m s * 2 ^ s + 2 ^ s := by ring
      refine ⟨nearest m s + 1, htop, ?_, ?_⟩ <;> omega
    · have htop' : 2 ^ 53 * 2 ^ s ≤ nearest m s * 2 ^ s := Nat.mul_le_mul_right _ (by omega)
      exact ⟨2 ^ 53, le_refl _, hhigh, by omega⟩
  have hexact : j * 2 ^ (s + e) ≤ roundMagnitude m * n := by
    have htwice : 2 * (j * 2 ^ (s + e)) ≤ 2 * (roundMagnitude m * n) := calc
      2 * (j * 2 ^ (s + e)) = j * 2 ^ s * 2 ^ (e + 1) := by ring
      _ ≤ (roundMagnitude m + 2 ^ s) * 2 ^ (e + 1) := Nat.mul_le_mul_right _ hreached
      _ ≤ 2 * (roundMagnitude m * n) := by rw [Nat.add_mul]; exact hfactor
    omega
  calc m * 2 ^ (e + 1) < j * 2 ^ s * 2 ^ (e + 1) := Nat.mul_lt_mul_of_pos_right habove (Nat.two_pow_pos _)
    _ = 2 * (j * 2 ^ (s + e)) := by ring
    _ ≤ 2 * roundMagnitude (roundMagnitude m * n) := Nat.mul_le_mul_left 2 (le_roundMagnitude hj hexact)

/-- A product that is not near the unit is rounded as any other number. -/
theorem nearest_shifted {m k : Nat} (h : k ≤ Nat.log2 m - 52) :
    nearest m (max k (Nat.log2 m - 52)) * 2 ^ (max k (Nat.log2 m - 52) - k) * 2 ^ k = roundMagnitude m := by
  unfold roundMagnitude
  dsimp only
  rw [max_eq_right h, Nat.mul_assoc, ← Nat.pow_add, Nat.sub_add_cancel h]

theorem mulMagnitude_mul_one {m n : Nat} (h : 1126 ≤ Nat.log2 (m * n)) :
    mulMagnitude m n * one = roundMagnitude (m * n) := by
  unfold mulMagnitude one
  generalize hk : 1074 = k
  exact nearest_shifted (by omega)

theorem exists_one : ∃ e, 1073 ≤ e ∧ one = 2 ^ (e + 1) := by
  unfold one
  generalize hexp : 1074 = k
  refine ⟨k - 1, by omega, ?_⟩
  rw [Nat.sub_add_cancel (by omega)]

section

variable {m n : Nat}

theorem one_le_roundMagnitude (hm : one ≤ m) : one ≤ roundMagnitude m := by
  obtain ⟨e, -, hone⟩ := exists_one
  rw [hone, ← Nat.one_mul (2 ^ (e + 1))] at hm ⊢
  exact le_roundMagnitude (by omega) hm

theorem le_log2_mul (hm : one ≤ m) (hn : one < 2 * n) : 1126 ≤ Nat.log2 (roundMagnitude m * n) := by
  obtain ⟨e, he, hone⟩ := exists_one
  have hfactor := one_le_roundMagnitude hm
  rw [hone] at hfactor hn
  have hhalf : 2 ^ e ≤ n := by
    rw [Nat.pow_succ'] at hn
    exact (Nat.lt_of_mul_lt_mul_left hn).le
  have hproduct : 2 ^ (e + 1 + e) ≤ roundMagnitude m * n := by
    rw [Nat.pow_add]
    exact Nat.mul_le_mul hfactor hhalf
  have hlog := (Nat.le_log2 ((Nat.two_pow_pos _).trans_le hproduct).ne').mpr hproduct
  omega

/-- A product with a double above one half is more than half of the other factor, also where both are
rounded. -/
theorem lt_two_mul_mulMagnitude (hm : one ≤ m) (hdouble : isDouble (.finite n) = true) (hn : one < 2 * n) :
    m < 2 * mulMagnitude (roundMagnitude m) n := by
  have hproduct := mulMagnitude_mul_one (le_log2_mul hm hn)
  obtain ⟨e, he, hone⟩ := exists_one
  have hlog : e + 1 ≤ Nat.log2 m := by
    rw [hone] at hm
    exact (Nat.le_log2 ((Nat.two_pow_pos _).trans_le hm).ne').mpr hm
  rw [hone] at hproduct hn
  have hhalf : 2 ^ e < n := by
    rw [Nat.pow_succ'] at hn
    exact Nat.lt_of_mul_lt_mul_left hn
  have hlt := lt_two_mul_roundMagnitude (m := m) (by omega) (by omega)
    (next_le_of_isDouble hdouble (by omega) hhalf)
  rw [← hproduct, ← Nat.mul_assoc] at hlt
  exact Nat.lt_of_mul_lt_mul_right hlt

/-- The two roundings take away at most two parts in `2 ^ 53`. -/
theorem mul_le_mulMagnitude (hm : one ≤ m) (hn : one < 2 * n) :
    (2 ^ 53 - 1) ^ 2 * (m * n) ≤ 2 ^ 106 * (mulMagnitude (roundMagnitude m) n * one) := by
  rw [mulMagnitude_mul_one (le_log2_mul hm hn)]
  calc (2 ^ 53 - 1) ^ 2 * (m * n) = (2 ^ 53 - 1) * ((2 ^ 53 - 1) * m * n) := by ring
    _ ≤ (2 ^ 53 - 1) * (2 ^ 53 * roundMagnitude m * n) :=
        Nat.mul_le_mul_left _ (Nat.mul_le_mul_right _ (mul_le_roundMagnitude m))
    _ = 2 ^ 53 * ((2 ^ 53 - 1) * (roundMagnitude m * n)) := by ring
    _ ≤ 2 ^ 53 * (2 ^ 53 * roundMagnitude (roundMagnitude m * n)) :=
        Nat.mul_le_mul_left _ (mul_le_roundMagnitude _)
    _ = 2 ^ 106 * roundMagnitude (roundMagnitude m * n) := by ring

theorem one_pos : 0 < one := by
  obtain ⟨e, -, hone⟩ := exists_one
  rw [hone]
  exact Nat.two_pow_pos _

theorem leInt_finite_iff {n a : Int} : leInt n (.finite a) = true ↔ a ≤ n * one := by
  unfold leInt
  rw [decide_eq_true_iff]

/-- The comparison of an integer with the product of an integer and a float. -/
theorem le_of_leInt_mul {count : Nat} (hm : one ≤ m) (hn : one < 2 * n)
    (h : ((round m).mul (.finite n)).leInt count = true) :
    mulMagnitude (roundMagnitude m) n ≤ count * one := by
  have hmpos : 0 < m := one_pos.trans_le hm
  have hnpos : 0 < n := by omega
  have hround : 0 < roundMagnitude m := one_pos.trans_le (one_le_roundMagnitude hm)
  unfold round at h
  dsimp only at h
  rw [Int.natAbs_natCast, Int.sign_natCast_of_ne_zero hmpos.ne', Int.one_mul] at h
  split_ifs at h with hlarge
  · -- No integer is above what is too large for a float.
    have hne : (n : Int) ≠ 0 := by omega
    have hsigns : (m : Int) < 0 ↔ (n : Int) < 0 := iff_of_false (by omega) (by omega)
    unfold mul at h
    dsimp only at h
    rw [if_neg hne] at h
    simp [leInt, hsigns] at h
  · have hpos : 0 < (roundMagnitude m : Int) * n := by
      rw [← Int.natCast_mul]
      exact Int.natCast_pos.mpr (Nat.mul_pos hround hnpos)
    unfold mul at h
    dsimp only at h
    rw [Int.natAbs_natCast, Int.natAbs_natCast, Int.sign_eq_one_of_pos hpos, Int.one_mul] at h
    split_ifs at h
    · simp [leInt, not_lt.mpr hpos.le] at h
    · rw [leInt_finite_iff, ← Int.natCast_mul] at h
      exact Int.ofNat_le.mp h

/-- No integer is above the product of a positive number and infinity. -/
theorem leInt_mul_infinite (hm : one ≤ m) (count : Nat) :
    ((round m).mul (.infinite false)).leInt count = false := by
  have hround : 0 < roundMagnitude m := one_pos.trans_le (one_le_roundMagnitude hm)
  have hmpos : 0 < m := one_pos.trans_le hm
  unfold round
  dsimp only
  rw [Int.natAbs_natCast, Int.sign_natCast_of_ne_zero hmpos.ne', Int.one_mul]
  split_ifs
  · simp [mul, leInt]
  · have hnonneg : ¬(roundMagnitude m : Int) < 0 := by omega
    simp [mul, leInt, hround.ne', hnonneg]

end

end PyFloat
