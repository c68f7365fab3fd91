import Mathlib.Tactic.Common
import Mathlib.Data.List.Induction

/-!
# Association lists

A finite map as the list of its entries, newest first: the model of a dict, or of a table with a
primary key. `get` is `List.lookup`; `put` and `del` keep at most one entry for a key. Where the order of
a dict is seen, `set` keeps it: an old key keeps its place and a new one comes last.
-/

/-- The entries of a map. -/
abbrev Assoc (κ β : Type*) := List (κ × β)

namespace Assoc

variable {κ β : Type*} [DecidableEq κ]

def get (m : Assoc κ β) (k : κ) : Option β := m.lookup k

def del (m : Assoc κ β) (k : κ) : Assoc κ β := m.filter fun e => e.1 ≠ k

def put (m : Assoc κ β) (k : κ) (v : β) : Assoc κ β := (k, v) :: del m k

/-- Every value replaced, under its own key: a bulk update of a table. -/
def mapVal (f : κ → β → β) (m : Assoc κ β) : Assoc κ β := m.map fun e => (e.1, f e.1 e.2)

variable {m : Assoc κ β} {k k' : κ} {v : β} {e : κ × β}

theorem mem_of_get (h : get m k = some v) : (k, v) ∈ m := by
  obtain ⟨front, back, rfl, -⟩ := List.lookup_eq_some_iff.mp h
  simp

theorem mem_del : e ∈ del m k ↔ e ∈ m ∧ e.1 ≠ k := by
  simp [del]

theorem mem_put : e ∈ put m k v ↔ e = (k, v) ∨ (e ∈ m ∧ e.1 ≠ k) := by
  simp [put, mem_del]

@[simp] theorem get_nil : get ([] : Assoc κ β) k = none := rfl

theorem get_cons (m : Assoc κ β) (k k' : κ) (v : β) :
    get ((k', v) :: m) k = if k = k' then some v else get m k := by
  unfold get
  rw [List.lookup_cons]
  by_cases h : k = k'
  · simp [h]
  · have hbeq : (k == k') = false := beq_eq_false_iff_ne.mpr h
    rw [hbeq, if_neg h]

theorem get_del_self (m : Assoc κ β) (k : κ) : get (del m k) k = none := by
  unfold get
  rw [List.lookup_eq_none_iff]
  intro e he
  have hne := (mem_del.mp he).2
  simpa using hne.symm

theorem get_del_ne (m : Assoc κ β) (h : k' ≠ k) : get (del m k) k' = get m k' := by
  induction m with
  | nil => rfl
  | cons e m ih =>
    obtain ⟨x, v⟩ := e
    rw [get_cons]
    by_cases hx : x = k
    · have hk' : k' ≠ x := fun heq => h (heq.trans hx)
      have hdel : del ((x, v) :: m) k = del m k := by simp [del, hx]
      rw [hdel, ih, if_neg hk']
    · have hdel : del ((x, v) :: m) k = (x, v) :: del m k := by simp [del, hx]
      rw [hdel, get_cons, ih]

@[simp] theorem get_put_self (m : Assoc κ β) (k : κ) (v : β) : get (put m k v) k = some v := by
  simp [put, get_cons]

theorem get_put_ne (m : Assoc κ β) (v : β) (h : k' ≠ k) : get (put m k v) k' = get m k' := by
  rw [put, get_cons, if_neg h, get_del_ne m h]

theorem get_mapVal (f : κ → β → β) (m : Assoc κ β) (k : κ) :
    get (mapVal f m) k = (get m k).map (f k) := by
  induction m with
  | nil => rfl
  | cons e m ih =>
    obtain ⟨x, v⟩ := e
    have hcons : mapVal f ((x, v) :: m) = (x, f x v) :: mapVal f m := rfl
    rw [hcons, get_cons, get_cons, ih]
    by_cases h : k = x
    · simp [h]
    · simp [h]

/-- Dropping the entries of other keys does not change a lookup. -/
theorem get_filter_key (m : Assoc κ β) {q : κ → Bool} (hk : q k = true) :
    get (m.filter fun e => q e.1) k = get m k := by
  induction m with
  | nil => rfl
  | cons e m ih =>
    obtain ⟨x, v⟩ := e
    rw [get_cons]
    by_cases hx : k = x
    · have hq : q x = true := hx ▸ hk
      have hfilter : ((x, v) :: m).filter (fun e => q e.1) = (x, v) :: m.filter fun e => q e.1 := by
        simp [hq]
      rw [hfilter, get_cons, if_pos hx, if_pos hx]
    · rw [if_neg hx, ← ih, List.filter_cons]
      split
      · rw [get_cons, if_neg hx]
      · rfl

theorem get_filter_key_eq_none (m : Assoc κ β) {q : κ → Bool} (hk : q k = false) :
    get (m.filter fun e => q e.1) k = none := by
  unfold get
  rw [List.lookup_eq_none_iff]
  intro e he
  obtain ⟨-, hkeep⟩ := List.mem_filter.mp he
  have hne : k ≠ e.1 := by
    rintro rfl
    rw [hk] at hkeep
    cases hkeep
  simpa using hne

/-! ## Counting -/

/-- The number of entries whose value has a property. -/
def count (q : β → Bool) (m : Assoc κ β) : Nat := m.countP fun e => q e.2

variable {q : β → Bool}

theorem count_del_le (m : Assoc κ β) (k : κ) : count q (del m k) ≤ count q m :=
  List.filter_sublist.countP_le

theorem count_del_lt (h : get m k = some v) (hv : q v = true) :
    count q (del m k) + 1 ≤ count q m := by
  obtain ⟨front, back, rfl, -⟩ := List.lookup_eq_some_iff.mp h
  have hfront : count q (del front k) ≤ count q front := count_del_le front k
  have hback : count q (del back k) ≤ count q back := count_del_le back k
  unfold count del at *
  simp only [List.filter_append, List.countP_append, List.countP_cons, hv, if_true]
  rw [List.filter_cons_of_neg (by simp)]
  omega

theorem count_put (m : Assoc κ β) (k : κ) (v : β) :
    count q (put m k v) = count q (del m k) + if q v then 1 else 0 := by
  simp [count, put, List.countP_cons]

/-- Replacing a value by one that counts no more. -/
theorem count_put_le {v' : β} (h : get m k = some v) (hv : q v' = true → q v = true) :
    count q (put m k v') ≤ count q m := by
  rw [count_put]
  by_cases hq : q v' = true
  · rw [if_pos hq]
    exact count_del_lt h (hv hq)
  · rw [if_neg hq]
    exact count_del_le m k

/-! ## Dicts in the order of insertion -/

/-- `m[k] = v`. -/
def set : Assoc κ β → κ → β → Assoc κ β
  | [], k, v => [(k, v)]
  | e :: m, k, v => if e.1 = k then (k, v) :: m else e :: set m k v

/-- `m.setdefault(k, []).append(v)`. -/
def push (m : Assoc κ (List β)) (k : κ) (v : β) : Assoc κ (List β) :=
  set m k ((get m k).getD [] ++ [v])

/-- The dict of a list of entries, set one after the other. -/
def ofEntries (entries : List (κ × β)) : Assoc κ β := entries.foldl (fun m e => set m e.1 e.2) []

theorem get_set (m : Assoc κ β) (k k' : κ) (v : β) :
    get (set m k v) k' = if k' = k then some v else get m k' := by
  induction m with
  | nil => exact get_cons [] k' k v
  | cons e m ih =>
    obtain ⟨x, w⟩ := e
    unfold set
    by_cases hx : x = k
    · rw [if_pos hx, get_cons, get_cons, hx]
      split <;> rfl
    · rw [if_neg hx, get_cons, get_cons, ih]
      by_cases hk' : k' = x
      · rw [if_pos hk', if_pos hk', if_neg (hk' ▸ hx)]
      · rw [if_neg hk', if_neg hk']

/-- Pushed one after the other, the values of a key are those of its entries. -/
theorem getD_foldl_push (m : Assoc κ (List β)) (entries : List (κ × β)) (k : κ) :
    (get (entries.foldl (fun m e => push m e.1 e.2) m) k).getD [] =
      (get m k).getD [] ++ (entries.filter fun e => e.1 = k).map Prod.snd := by
  induction entries generalizing m with
  | nil => simp
  | cons e entries ih =>
    rw [List.foldl_cons, ih, push, get_set, List.filter_cons]
    by_cases hk : k = e.1
    · subst hk
      simp
    · have hne : ¬ e.1 = k := fun heq => hk heq.symm
      simp [hk, hne]

theorem mem_keys_set {x : κ} (h : x ∈ (set m k v).map Prod.fst) : x = k ∨ x ∈ m.map Prod.fst := by
  induction m with
  | nil => exact .inl (by simpa [set] using h)
  | cons e m ih =>
    unfold set at h
    by_cases hk : e.1 = k
    · rw [if_pos hk, List.map_cons, List.mem_cons] at h
      exact h.imp_right fun hx => List.mem_cons_of_mem _ hx
    · rw [if_neg hk, List.map_cons, List.mem_cons] at h
      rcases h with hx | hx
      · exact .inr (hx ▸ List.mem_cons_self)
      · exact (ih hx).imp_right fun hx => List.mem_cons_of_mem _ hx

/-- The first key stays where it is. -/
theorem head_set (m : Assoc κ β) (k : κ) (v : β) :
    (set m k v).head?.map Prod.fst = (m.head?.map Prod.fst).or (some k) := by
  cases m with
  | nil => rfl
  | cons e m =>
    unfold set
    split_ifs with hk
    · rw [List.head?_cons, List.head?_cons, Option.map_some, Option.map_some, hk]
      rfl
    · rfl

theorem mem_of_mem_set (h : e ∈ set m k v) : e = (k, v) ∨ e ∈ m := by
  induction m with
  | nil => exact .inl (List.mem_singleton.mp h)
  | cons a m ih =>
    unfold set at h
    by_cases hk : a.1 = k
    · rw [if_pos hk] at h
      exact (List.mem_cons.mp h).imp_right (List.mem_cons_of_mem _)
    · rw [if_neg hk] at h
      rcases List.mem_cons.mp h with rfl | h
      · exact .inr (List.mem_cons_self ..)
      · exact (ih h).imp_right (List.mem_cons_of_mem _)

theorem nodup_keys_set (h : (m.map Prod.fst).Nodup) (k : κ) (v : β) :
    ((set m k v).map Prod.fst).Nodup := by
  induction m with
  | nil => simp [set]
  | cons e m ih =>
    rw [List.map_cons, List.nodup_cons] at h
    unfold set
    by_cases hk : e.1 = k
    · rw [if_pos hk, List.map_cons, List.nodup_cons]
      exact ⟨hk ▸ h.1, h.2⟩
    · rw [if_neg hk, List.map_cons, List.nodup_cons]
      refine ⟨fun hmem => ?_, ih h.2⟩
      rcases mem_keys_set hmem with hx | hx
      · exact hk hx
      · exact h.1 hx

/-- The entries of a dict set into another one win there. -/
theorem get_foldl_set (l m : Assoc κ β) (h : (l.map Prod.fst).Nodup) (k : κ) :
    get (l.foldl (fun m e => set m e.1 e.2) m) k = (get l k).or (get m k) := by
  induction l generalizing m with
  | nil => simp
  | cons e l ih =>
    obtain ⟨x, v⟩ := e
    rw [List.map_cons, List.nodup_cons] at h
    rw [List.foldl_cons, ih _ h.2, get_set, get_cons]
    by_cases hk : k = x
    · have hnone : get l k = none := by
        rw [Option.eq_none_iff_forall_ne_some]
        intro w hw
        have hkey : k ∈ l.map Prod.fst := List.mem_map.mpr ⟨(k, w), mem_of_get hw, rfl⟩
        exact h.1 (hk ▸ hkey)
      rw [hnone, if_pos hk, if_pos hk]
      rfl
    · simp [hk]

theorem nodup_keys_ofEntries (entries : List (κ × β)) :
    ((ofEntries entries).map Prod.fst).Nodup := by
  induction entries using List.reverseRecOn with
  | nil => simp [ofEntries]
  | append_singleton entries e ih =>
    unfold ofEntries at ih ⊢
    rw [List.foldl_append, List.foldl_cons, List.foldl_nil]
    exact nodup_keys_set ih e.1 e.2

/-- Under a key a dict holds the last value that was set. -/
theorem get_ofEntries (entries : List (κ × β)) (k : κ) :
    get (ofEntries entries) k = (entries.reverse.find? fun e => e.1 = k).map Prod.snd := by
  induction entries using List.reverseRecOn with
  | nil => rfl
  | append_singleton entries e ih =>
    unfold ofEntries at ih ⊢
    rw [List.foldl_append, List.foldl_cons, List.foldl_nil, get_set, ih, List.reverse_append,
      List.reverse_singleton, List.singleton_append, List.find?_cons]
    by_cases hk : k = e.1
    · simp [hk]
    · have hne : ¬ e.1 = k := fun h => hk h.symm
      simp [hk, hne]

/-- A new key comes last. -/
theorem set_of_notMem (h : k ∉ m.map Prod.fst) (v : β) : set m k v = m ++ [(k, v)] := by
  induction m with
  | nil => rfl
  | cons e m ih =>
    rw [List.map_cons, List.mem_cons, not_or] at h
    unfold set
    rw [if_neg (Ne.symm h.1), ih h.2, List.cons_append]

/-- Setting entries with new and distinct keys adds them at the end. -/
theorem foldl_set_of_nodup {l : Assoc κ β} (h : ((m ++ l).map Prod.fst).Nodup) :
    l.foldl (fun m e => set m e.1 e.2) m = m ++ l := by
  induction l generalizing m with
  | nil => exact (List.append_nil m).symm
  | cons e l ih =>
    have hnew : e.1 ∉ m.map Prod.fst := by
      rw [List.map_append, List.nodup_append] at h
      exact fun hmem => h.2.2 e.1 hmem e.1 List.mem_cons_self rfl
    have hcons : m ++ e :: l = m ++ [e] ++ l := by simp
    rw [hcons] at h ⊢
    rw [List.foldl_cons, set_of_notMem hnew]
    exact ih h

/-- The dict of entries with distinct keys is the list of the entries. -/
theorem ofEntries_of_nodup (h : (m.map Prod.fst).Nodup) : ofEntries m = m := by
  unfold ofEntries
  rw [foldl_set_of_nodup (by rwa [List.nil_append]), List.nil_append]

theorem get_isSome_iff : (get m k).isSome = true ↔ k ∈ m.map Prod.fst := by
  induction m with
  | nil => exact ⟨fun h => (nomatch h), fun h => (nomatch h)⟩
  | cons e m ih =>
    obtain ⟨x, v⟩ := e
    rw [get_cons, List.map_cons, List.mem_cons, ← ih]
    by_cases hx : k = x
    · rw [if_pos hx]
      exact ⟨fun _ => .inl hx, fun _ => rfl⟩
    · rw [if_neg hx]
      exact ⟨.inr, fun h => h.resolve_left hx⟩

/-- With distinct keys the entries are what can be looked up. -/
theorem mem_iff_get (h : (m.map Prod.fst).Nodup) : (k, v) ∈ m ↔ get m k = some v := by
  refine ⟨fun hmem => ?_, mem_of_get⟩
  induction m with
  | nil => cases hmem
  | cons e m ih =>
    obtain ⟨x, w⟩ := e
    rw [List.map_cons, List.nodup_cons] at h
    rw [get_cons]
    rcases List.mem_cons.mp hmem with heq | hmem
    · cases heq
      rw [if_pos rfl]
    · have hkey : k ∈ m.map Prod.fst := List.mem_map_of_mem (f := Prod.fst) hmem
      have hx : k ≠ x := fun heq => h.1 (heq ▸ hkey)
      rw [if_neg hx]
      exact ih h.2 hmem

/-- An old key keeps its place. -/
theorem map_fst_set (h : get m k = some v) (v' : β) : (set m k v').map Prod.fst = m.map Prod.fst := by
  induction m with
  | nil => cases h
  | cons e m ih =>
    obtain ⟨x, w⟩ := e
    rw [get_cons] at h
    unfold set
    by_cases hx : x = k
    · rw [if_pos hx, List.map_cons, List.map_cons, hx]
    · rw [if_neg (fun heq => hx heq.symm)] at h
      rw [if_neg hx, List.map_cons, List.map_cons, ih h]

theorem get_append (a b : Assoc κ β) (k : κ) : get (a ++ b) k = (get a k).or (get b k) := List.lookup_append

end Assoc
