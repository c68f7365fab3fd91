import Mathlib.Algebra.BigOperators.Group.List.Basic
import Mathlib.Tactic.Ring
import Mathlib.Algebra.Order.Ring.Rat

/-!
# Tables of rows with a key

A table is the list of its rows in the order of their creation. Rows are read by their key, by a
condition, or all together; an update rewrites the rows that meet a condition and leaves the others and
the order alone.
-/

namespace Tables

variable {ρ β : Type*}

/-- The first row with a key. -/
def get (key : ρ → Nat) (k : Nat) (rows : List ρ) : Option ρ := rows.find? fun r => key r == k

/-- The table after an update of the rows that meet a condition. -/
def updateWhere (cond : ρ → Bool) (f : ρ → ρ) (rows : List ρ) : List ρ :=
  rows.map fun r => if cond r then f r else r

theorem get_key {key : ρ → Nat} {k : Nat} {rows : List ρ} {r : ρ} (h : get key k rows = some r) :
    key r = k := by
  simpa using List.find?_some h

theorem mem_of_get {key : ρ → Nat} {k : Nat} {rows : List ρ} {r : ρ} (h : get key k rows = some r) :
    r ∈ rows :=
  List.mem_of_find?_eq_some h

theorem get_append (key : ρ → Nat) (k : Nat) (rows rows' : List ρ) :
    get key k (rows ++ rows') = (get key k rows).or (get key k rows') := by
  simp [get, List.find?_append]

theorem length_updateWhere (cond : ρ → Bool) (f : ρ → ρ) (rows : List ρ) :
    (updateWhere cond f rows).length = rows.length := by
  simp [updateWhere]

theorem mem_updateWhere {cond : ρ → Bool} {f : ρ → ρ} {rows : List ρ} {r : ρ}
    (h : r ∈ updateWhere cond f rows) :
    (r ∈ rows ∧ cond r = false) ∨ ∃ r₀ ∈ rows, cond r₀ = true ∧ r = f r₀ := by
  obtain ⟨r₀, hmem, rfl⟩ := List.mem_map.mp h
  by_cases hcond : cond r₀ = true
  · exact .inr ⟨r₀, hmem, hcond, by rw [if_pos hcond]⟩
  · rw [if_neg hcond]
    exact .inl ⟨hmem, by simpa using hcond⟩

/-- An update that keeps the keys is an update of the row that is read. -/
theorem get_updateWhere {key : ρ → Nat} {cond : ρ → Bool} {f : ρ → ρ} (rows : List ρ)
    (hkey : ∀ r, key (f r) = key r) (k : Nat) :
    get key k (updateWhere cond f rows) =
      (get key k rows).map fun r => if cond r then f r else r := by
  unfold get updateWhere
  rw [List.find?_map]
  congr 2
  funext r
  by_cases hcond : cond r = true
  · simp [hcond, hkey]
  · simp [hcond]

/-- What an update keeps of each row, it keeps of the table. -/
theorem map_updateWhere {cond : ρ → Bool} {f : ρ → ρ} (rows : List ρ) {g : ρ → β}
    (hg : ∀ r, g (f r) = g r) : (updateWhere cond f rows).map g = rows.map g := by
  unfold updateWhere
  rw [List.map_map]
  congr 1
  funext r
  by_cases hcond : cond r = true
  · simp [hcond, hg]
  · simp [hcond]

/-- An update that keeps the keys keeps a row with every key. -/
theorem mem_key_updateWhere {cond : ρ → Bool} {f : ρ → ρ} {rows : List ρ} {key : ρ → Nat}
    (hkey : ∀ r, key (f r) = key r) {r : ρ} (h : r ∈ rows) :
    ∃ r' ∈ updateWhere cond f rows, key r' = key r := by
  have hmem : key r ∈ (updateWhere cond f rows).map key := by
    rw [map_updateWhere rows hkey]
    exact List.mem_map_of_mem h
  exact List.mem_map.mp hmem

/-- An update that does not change whether a row is selected is an update of the selected rows. -/
theorem filter_updateWhere {cond : ρ → Bool} {f : ρ → ρ} (rows : List ρ) {sel : ρ → Bool}
    (hsel : ∀ r, sel (f r) = sel r) :
    (updateWhere cond f rows).filter sel = updateWhere cond f (rows.filter sel) := by
  induction rows with
  | nil => rfl
  | cons r rows ih =>
    have hhead : sel (if cond r then f r else r) = sel r := by
      split
      · exact hsel r
      · rfl
    unfold updateWhere at ih ⊢
    rw [List.map_cons, List.filter_cons, List.filter_cons, hhead, ih]
    split <;> rfl

/-- An update that takes rows out of a selection and puts none into it makes the selection no longer. -/
theorem length_filter_updateWhere_le {cond : ρ → Bool} {f : ρ → ρ} (rows : List ρ) {sel : ρ → Bool}
    (hsel : ∀ r, cond r = true → sel (f r) = true → sel r = true) :
    ((updateWhere cond f rows).filter sel).length ≤ (rows.filter sel).length := by
  induction rows with
  | nil => exact le_rfl
  | cons r rows ih =>
    have hhead : sel (if cond r then f r else r) = true → sel r = true := by
      split
      · exact hsel r ‹_›
      · exact id
    have hcons : updateWhere cond f (r :: rows) =
        (if cond r then f r else r) :: updateWhere cond f rows := rfl
    rw [hcons]
    generalize (if cond r then f r else r) = r' at hhead
    rw [List.filter_cons, List.filter_cons]
    by_cases hnew : sel r' = true
    · rw [if_pos hnew, if_pos (hhead hnew), List.length_cons, List.length_cons]
      omega
    · rw [if_neg hnew]
      split
      · rw [List.length_cons]
        omega
      · exact ih

/-- No two rows of the table are selected. -/
theorem length_filter_le_one {rows : List ρ} {sel : ρ → Bool}
    (h : ∀ (i j : Nat) (a b : ρ), rows[i]? = some a → rows[j]? = some b →
      sel a = true → sel b = true → i = j) : (rows.filter sel).length ≤ 1 := by
  induction rows with
  | nil => simp
  | cons r rows ih =>
    have hrest : (rows.filter sel).length ≤ 1 := by
      refine ih fun i j a b hi hj ha hb => ?_
      have := h (i + 1) (j + 1) a b (by simpa using hi) (by simpa using hj) ha hb
      omega
    by_cases hr : sel r = true
    · -- nothing behind the first one is selected
      have hnil : rows.filter sel = [] := by
        rw [List.filter_eq_nil_iff]
        intro a ha hsel
        obtain ⟨i, hi⟩ := List.mem_iff_getElem?.mp ha
        have := h 0 (i + 1) r a rfl (by simpa using hi) hr hsel
        omega
      simp [hr, hnil]
    · simpa [hr] using hrest

/-! ## Tables that number their rows -/

/-- The rows are numbered from one, in the order of the table. -/
def Numbered (key : ρ → Nat) (rows : List ρ) : Prop := rows.map key = List.range' 1 rows.length

theorem Numbered.updateWhere {key : ρ → Nat} {rows : List ρ} (h : Numbered key rows) {cond : ρ → Bool}
    {f : ρ → ρ} (hkey : ∀ r, key (f r) = key r) : Numbered key (updateWhere cond f rows) := by
  unfold Numbered
  rw [map_updateWhere rows hkey, length_updateWhere]
  exact h

theorem Numbered.concat {key : ρ → Nat} {rows : List ρ} (h : Numbered key rows) {r : ρ}
    (hr : key r = rows.length + 1) : Numbered key (rows ++ [r]) := by
  have hmap : (rows ++ [r]).map key = List.range' 1 rows.length ++ [1 + rows.length] := by
    rw [List.map_append, h, List.map_singleton, hr, Nat.add_comm]
  show (rows ++ [r]).map key = List.range' 1 (rows ++ [r]).length
  rw [hmap, List.length_append, List.length_singleton, List.range'_1_concat]

theorem Numbered.nodup {key : ρ → Nat} {rows : List ρ} (h : Numbered key rows) :
    (rows.map key).Nodup := by
  rw [h]
  exact List.nodup_range'

theorem Numbered.key_le {key : ρ → Nat} {rows : List ρ} (h : Numbered key rows) {r : ρ}
    (hr : r ∈ rows) : key r ≤ rows.length := by
  have hmem : key r ∈ rows.map key := List.mem_map_of_mem hr
  rw [h, List.mem_range'_1] at hmem
  omega

/-! ## The largest key -/

theorem le_foldl_max (l : List Nat) (n : Nat) : n ≤ l.foldl max n := by
  induction l generalizing n with
  | nil => exact le_refl n
  | cons a l ih => exact le_trans (le_max_left n a) (ih (max n a))

theorem le_foldl_max_of_mem {l : List Nat} {n m : Nat} (h : m ∈ l) : m ≤ l.foldl max n := by
  induction l generalizing n with
  | nil => cases h
  | cons a l ih =>
    rcases List.mem_cons.mp h with rfl | h
    · exact le_trans (le_max_right n m) (le_foldl_max l (max n m))
    · exact ih h

/-! ## Sums over a selection -/

/-- The sum of a column over the selected rows. -/
def sumWhere (sel : ρ → Bool) (value : ρ → ℚ) (rows : List ρ) : ℚ := ((rows.filter sel).map value).sum

theorem sumWhere_cons (sel : ρ → Bool) (value : ρ → ℚ) (r : ρ) (rows : List ρ) :
    sumWhere sel value (r :: rows) = (if sel r then value r else 0) + sumWhere sel value rows := by
  unfold sumWhere
  rw [List.filter_cons]
  by_cases h : sel r = true
  · simp [h]
  · simp [h]

theorem sumWhere_append (sel : ρ → Bool) (value : ρ → ℚ) (rows rows' : List ρ) :
    sumWhere sel value (rows ++ rows') = sumWhere sel value rows + sumWhere sel value rows' := by
  simp [sumWhere]

/-- An update of rows outside of the selection that puts none into it keeps the sum. -/
theorem sumWhere_updateWhere {cond : ρ → Bool} {f : ρ → ρ} (rows : List ρ) {sel : ρ → Bool}
    {value : ρ → ℚ} (hold : ∀ r ∈ rows, cond r = true → sel r = false)
    (hnew : ∀ r ∈ rows, cond r = true → sel (f r) = false) :
    sumWhere sel value (updateWhere cond f rows) = sumWhere sel value rows := by
  induction rows with
  | nil => rfl
  | cons r rows ih =>
    have hrest := ih (fun x hx => hold x (List.mem_cons_of_mem _ hx))
      (fun x hx => hnew x (List.mem_cons_of_mem _ hx))
    have hcons : updateWhere cond f (r :: rows) =
        (if cond r then f r else r) :: updateWhere cond f rows := rfl
    rw [hcons, sumWhere_cons, sumWhere_cons, hrest]
    by_cases hcond : cond r = true
    · rw [if_pos hcond, hold r List.mem_cons_self hcond, hnew r List.mem_cons_self hcond]
      rfl
    · rw [if_neg hcond]

/-- An update of the one row with a key changes the sum by what it changes of that row. -/
theorem sumWhere_update_one {key : ρ → Nat} {rows : List ρ} {r : ρ} {f : ρ → ρ}
    (hnodup : (rows.map key).Nodup) (hmem : r ∈ rows) (sel : ρ → Bool) (value : ρ → ℚ) :
    sumWhere sel value (updateWhere (fun x => key x == key r) f rows) =
      sumWhere sel value rows - (if sel r then value r else 0) +
        (if sel (f r) then value (f r) else 0) := by
  induction rows with
  | nil => cases hmem
  | cons x rows ih =>
    rw [List.map_cons, List.nodup_cons] at hnodup
    have hcons : updateWhere (fun x => key x == key r) f (x :: rows) =
        (if key x == key r then f x else x) :: updateWhere (fun x => key x == key r) f rows := rfl
    rw [hcons, sumWhere_cons, sumWhere_cons]
    by_cases hx : key x = key r
    · -- the row is the first one, and no other has its key
      have hxr : x = r := by
        rcases List.mem_cons.mp hmem with h | h
        · exact h.symm
        · exact absurd (List.mem_map.mpr ⟨r, h, hx.symm⟩) hnodup.1
      have hrest : updateWhere (fun x => key x == key r) f rows = rows := by
        unfold updateWhere
        refine (List.map_congr_left fun y hy => ?_).trans (List.map_id rows)
        have hy : key y ≠ key r := fun h => hnodup.1 (List.mem_map.mpr ⟨y, hy, h.trans hx.symm⟩)
        simp [hy]
      rw [hrest, hxr]
      simp only [beq_self_eq_true, if_true]
      ring
    · have hr : r ∈ rows := by
        rcases List.mem_cons.mp hmem with h | h
        · exact absurd (congrArg key h).symm hx
        · exact h
      have hbeq : (key x == key r) = false := by simpa using hx
      rw [hbeq, ih hnodup.2 hr]
      simp only [Bool.false_eq_true, if_false]
      ring

end Tables
