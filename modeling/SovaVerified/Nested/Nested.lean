import Mathlib.Data.List.Induction
import Mathlib.Data.List.Infix
import Mathlib.Data.List.Nodup
import Mathlib.Tactic.Common

/-!
# Nested dictionaries

A dictionary whose values are leaves or dictionaries again. It is read along paths: at a path stands a
leaf, a dictionary, or nothing (`kindAt`), and two dictionaries are the same when they agree at every
path. `build` sets leaves at paths one after the other, as far as needed over what was there.
-/

namespace Nested

variable {κ L : Type*}

/-- The entries in the order in which they were set. -/
inductive Dict (κ L : Type*) where
  | nil
  | leaf (key : κ) (value : L) (rest : Dict κ L)
  | dict (key : κ) (entries rest : Dict κ L)
  deriving DecidableEq

/-- A value of a dictionary. -/
inductive Value (κ L : Type*) where
  | leaf (value : L)
  | dict (entries : Dict κ L)
  deriving DecidableEq

/-- What stands at a path. -/
inductive Kind (L : Type*) where
  | leaf (value : L)
  | dict
  deriving DecidableEq

namespace Dict

def cons (key : κ) (rest : Dict κ L) : Value κ L → Dict κ L
  | .leaf value => .leaf key value rest
  | .dict entries => .dict key entries rest

def keys : Dict κ L → List κ
  | .nil => []
  | .leaf key _ rest => key :: keys rest
  | .dict key _ rest => key :: keys rest

/-- No key stands twice in one dictionary. -/
def Unique : Dict κ L → Prop
  | .nil => True
  | .leaf key _ rest => key ∉ rest.keys ∧ Unique rest
  | .dict key entries rest => key ∉ rest.keys ∧ Unique entries ∧ Unique rest

/-- The leaves, each with the path to it. -/
def leaves : Dict κ L → List (List κ × L)
  | .nil => []
  | .leaf key value rest => ([key], value) :: leaves rest
  | .dict key entries rest => (leaves entries).map (fun e => (key :: e.1, e.2)) ++ leaves rest

section Leaves

variable {d : Dict κ L} {k : κ} {x : L} {path : List κ}

theorem ne_nil_of_mem_leaves (h : (path, x) ∈ d.leaves) : path ≠ [] := by
  induction d generalizing path with
  | nil => cases h
  | leaf key value rest ih =>
    rcases List.mem_cons.mp h with h | h
    · cases h
      simp
    · exact ih h
  | dict key entries rest _ ih =>
    rcases List.mem_append.mp h with h | h
    · obtain ⟨e, -, he⟩ := List.mem_map.mp h
      cases he
      simp
    · exact ih h

theorem mem_keys_of_mem_leaves (h : (k :: path, x) ∈ d.leaves) : k ∈ d.keys := by
  induction d with
  | nil => cases h
  | leaf key value rest ih =>
    rcases List.mem_cons.mp h with h | h
    · cases h
      exact List.mem_cons_self ..
    · exact List.mem_cons_of_mem _ (ih h)
  | dict key entries rest _ ih =>
    rcases List.mem_append.mp h with h | h
    · obtain ⟨e, -, he⟩ := List.mem_map.mp h
      cases he
      exact List.mem_cons_self ..
    · exact List.mem_cons_of_mem _ (ih h)

theorem nodup_leaves (h : d.Unique) : (d.leaves.map Prod.fst).Nodup := by
  have hrest : ∀ {rest : Dict κ L} {key : κ} {path : List κ}, key ∉ rest.keys →
      key :: path ∉ rest.leaves.map Prod.fst := by
    intro rest key path hkey hmem
    obtain ⟨e, he, hpath⟩ := List.mem_map.mp hmem
    obtain ⟨p, x⟩ := e
    obtain rfl : p = key :: path := hpath
    exact hkey (mem_keys_of_mem_leaves he)
  induction d with
  | nil => exact List.nodup_nil
  | leaf key value rest ih =>
    rw [leaves, List.map_cons, List.nodup_cons]
    exact ⟨hrest h.1, ih h.2⟩
  | dict key entries rest ihe ih =>
    have hmap : ((entries.leaves.map fun e => (key :: e.1, e.2)).map Prod.fst) =
        (entries.leaves.map Prod.fst).map (key :: ·) := by
      rw [List.map_map, List.map_map]
      rfl
    rw [leaves, List.map_append, hmap, List.nodup_append]
    refine ⟨List.Nodup.map List.cons_injective (ihe h.2.1), ih h.2.2, ?_⟩
    intro a ha b hb hab
    obtain ⟨path, -, rfl⟩ := List.mem_map.mp ha
    exact hrest h.1 (hab ▸ hb)

end Leaves

variable [DecidableEq κ]

def get : Dict κ L → κ → Option (Value κ L)
  | .nil, _ => none
  | .leaf key value rest, k => if k = key then some (.leaf value) else get rest k
  | .dict key entries rest, k => if k = key then some (.dict entries) else get rest k

/-- `d[k] = v`: an old key keeps its place. -/
def set : Dict κ L → κ → Value κ L → Dict κ L
  | .nil, k, v => cons k .nil v
  | .leaf key value rest, k, v => if key = k then cons k rest v else .leaf key value (set rest k v)
  | .dict key entries rest, k, v => if key = k then cons k rest v else .dict key entries (set rest k v)

/-- The dictionary under a key; an empty one takes the place of anything else. -/
def sub (d : Dict κ L) (k : κ) : Dict κ L :=
  match d.get k with
  | some (.dict entries) => entries
  | _ => .nil

/-- Sets a value at a path, which is given by its first key and the others. -/
def setPath : Dict κ L → κ → List κ → Value κ L → Dict κ L
  | d, k, [], v => d.set k v
  | d, k, k' :: path, v => d.set k (.dict (setPath (d.sub k) k' path v))

def kindAt : Dict κ L → List κ → Option (Kind L)
  | _, [] => some .dict
  | d, k :: path =>
    match d.get k with
    | none => none
    | some (.leaf value) => if path = [] then some (.leaf value) else none
    | some (.dict entries) => kindAt entries path

end Dict

variable [DecidableEq κ]

def Value.kindAt : Value κ L → List κ → Option (Kind L)
  | .leaf value, path => if path = [] then some (.leaf value) else none
  | .dict entries, path => entries.kindAt path

/-- The two dictionaries have the same keys with the same values, in any order. -/
def Same (d d' : Dict κ L) : Prop := ∀ path, d.kindAt path = d'.kindAt path

namespace Dict

variable {d rest : Dict κ L} {k k' : κ} {v : Value κ L} {x : L} {path q : List κ}

@[simp] theorem kindAt_nil_path (d : Dict κ L) : d.kindAt [] = some .dict := by
  unfold kindAt
  rfl

theorem kindAt_cons (d : Dict κ L) (k : κ) (path : List κ) :
    d.kindAt (k :: path) = (d.get k).bind (Value.kindAt · path) := by
  conv_lhs => unfold kindAt
  cases d.get k with
  | none => rfl
  | some v =>
    cases v with
    | leaf value => rfl
    | dict entries => rfl

theorem kindAt_nil (path : List κ) (h : path ≠ []) : (nil : Dict κ L).kindAt path = none := by
  cases path with
  | nil => exact absurd rfl h
  | cons k path => rw [kindAt_cons]; rfl

theorem get_cons (k k' : κ) (rest : Dict κ L) (v : Value κ L) :
    (cons k rest v).get k' = if k' = k then some v else rest.get k' := by
  cases v with
  | leaf value => rfl
  | dict entries => rfl

theorem get_set (d : Dict κ L) (k k' : κ) (v : Value κ L) :
    (d.set k v).get k' = if k' = k then some v else d.get k' := by
  induction d with
  | nil => exact get_cons k k' .nil v
  | leaf key value rest ih =>
    unfold set
    by_cases hkey : key = k
    · rw [if_pos hkey, get_cons, hkey]
      by_cases hk : k' = k
      · rw [if_pos hk, if_pos hk]
      · rw [if_neg hk, if_neg hk, get, if_neg hk]
    · rw [if_neg hkey, get, get, ih]
      by_cases hk : k' = key
      · rw [if_pos hk, if_pos hk, if_neg (hk ▸ hkey)]
      · rw [if_neg hk, if_neg hk]
  | dict key entries rest _ ih =>
    unfold set
    by_cases hkey : key = k
    · rw [if_pos hkey, get_cons, hkey]
      by_cases hk : k' = k
      · rw [if_pos hk, if_pos hk]
      · rw [if_neg hk, if_neg hk, get, if_neg hk]
    · rw [if_neg hkey, get, get, ih]
      by_cases hk : k' = key
      · rw [if_pos hk, if_pos hk, if_neg (hk ▸ hkey)]
      · rw [if_neg hk, if_neg hk]

theorem kindAt_sub (d : Dict κ L) (k : κ) (h : path ≠ []) :
    (d.sub k).kindAt path = d.kindAt (k :: path) := by
  rw [kindAt_cons]
  unfold sub
  cases d.get k with
  | none => exact kindAt_nil path h
  | some v =>
    cases v with
    | leaf value => exact (kindAt_nil path h).trans (if_neg h).symm
    | dict entries => rfl

/-- Setting a value changes what is read at the paths below it and above it. -/
theorem kindAt_setPath (d : Dict κ L) (k : κ) (path : List κ) (v : Value κ L) (q : List κ) :
    (d.setPath k path v).kindAt q =
      if k :: path <+: q then v.kindAt (q.drop (path.length + 1))
      else if q <+: k :: path then some .dict
      else d.kindAt q := by
  induction path generalizing d k q with
  | nil =>
    cases q with
    | nil => simp
    | cons a q =>
      unfold setPath
      rw [kindAt_cons, get_set]
      by_cases ha : a = k
      · rw [if_pos ha, ha, if_pos (by simp)]
        rfl
      · have hbelow : ¬[k] <+: a :: q := fun h => ha (List.cons_prefix_cons.mp h).1.symm
        have habove : ¬a :: q <+: [k] := fun h => ha (List.cons_prefix_cons.mp h).1
        rw [if_neg ha, if_neg hbelow, if_neg habove, kindAt_cons]
  | cons k' path ih =>
    cases q with
    | nil => simp
    | cons a q =>
      unfold setPath
      rw [kindAt_cons, get_set]
      by_cases ha : a = k
      · have hread := ih (d.sub k) k' q
        rw [if_pos ha, ha]
        show ((d.sub k).setPath k' path v).kindAt q = _
        rw [hread]
        simp only [List.cons_prefix_cons, true_and, List.length_cons, List.drop_succ_cons]
        split_ifs with hbelow habove
        · rfl
        · rfl
        · have hq : q ≠ [] := fun hq => habove (hq ▸ List.nil_prefix)
          exact kindAt_sub d k hq
      · have hbelow : ¬k :: k' :: path <+: a :: q := fun h => ha (List.cons_prefix_cons.mp h).1.symm
        have habove : ¬a :: q <+: k :: k' :: path := fun h => ha (List.cons_prefix_cons.mp h).1
        rw [if_neg ha, if_neg hbelow, if_neg habove, kindAt_cons]

/-! ## Leaves -/

/-- The leaves are what is read at their paths. -/
theorem mem_leaves_iff (h : d.Unique) : (path, x) ∈ d.leaves ↔ d.kindAt path = some (.leaf x) := by
  cases path with
  | nil => exact iff_of_false (fun h => ne_nil_of_mem_leaves h rfl) (by simp)
  | cons k path =>
    rw [kindAt_cons]
    induction d generalizing k path with
    | nil => exact iff_of_false (fun h => by cases h) (fun h => by cases h)
    | leaf key value rest ih =>
      obtain ⟨hkey, hrest⟩ := h
      rw [leaves, get, List.mem_cons]
      by_cases hk : k = key
      · have hnone : (k :: path, x) ∉ rest.leaves :=
          fun hmem => hkey (hk ▸ mem_keys_of_mem_leaves hmem)
        rw [if_pos hk, or_iff_left hnone, Option.bind_some]
        by_cases hpath : path = []
        · simp [Value.kindAt, hpath, hk, eq_comm]
        · simp [Value.kindAt, hpath]
      · rw [if_neg hk, or_iff_right (fun heq => by cases heq; exact hk rfl)]
        exact ih hrest k path
    | dict key entries rest ihe ih =>
      obtain ⟨hkey, hentries, hrest⟩ := h
      rw [leaves, get, List.mem_append, List.mem_map]
      by_cases hk : k = key
      · have hnone : (k :: path, x) ∉ rest.leaves :=
          fun hmem => hkey (hk ▸ mem_keys_of_mem_leaves hmem)
        have hinner : (∃ e ∈ entries.leaves, (key :: e.1, e.2) = (k :: path, x)) ↔
            (path, x) ∈ entries.leaves := by
          constructor
          · rintro ⟨e, he, heq⟩
            cases heq
            exact he
          · exact fun hmem => ⟨(path, x), hmem, by rw [hk]⟩
        rw [if_pos hk, or_iff_left hnone, hinner, Option.bind_some]
        show _ ↔ entries.kindAt path = _
        cases path with
        | nil => exact iff_of_false (fun h => ne_nil_of_mem_leaves h rfl) (by simp)
        | cons k' path =>
          rw [kindAt_cons]
          exact ihe hentries k' path
      · rw [if_neg hk, or_iff_right]
        · exact ih hrest k path
        · rintro ⟨e, -, heq⟩
          cases heq
          exact hk rfl

theorem exists_key (h : d ≠ .nil) : ∃ k, d.kindAt [k] ≠ none := by
  cases d with
  | nil => exact absurd rfl h
  | leaf key value rest => exact ⟨key, by simp [kindAt_cons, get, Value.kindAt]⟩
  | dict key entries rest => exact ⟨key, by simp [kindAt_cons, get, Value.kindAt]⟩

/-- No dictionary in the whole is empty. -/
def Full (d : Dict κ L) : Prop :=
  ∀ path, d.kindAt path = some .dict → ∃ k, d.kindAt (path ++ [k]) ≠ none

theorem Full.exists_leaf (h : d.Full) : ∃ path x, d.kindAt path = some (.leaf x) := by
  induction d with
  | nil =>
    obtain ⟨k, hk⟩ := h [] (kindAt_nil_path _)
    exact absurd (kindAt_nil _ (by simp)) hk
  | leaf key value rest _ => exact ⟨[key], value, by simp [kindAt_cons, get, Value.kindAt]⟩
  | dict key entries rest ihe _ =>
    have hread : ∀ path, (dict key entries rest).kindAt (key :: path) = entries.kindAt path := by
      intro path
      rw [kindAt_cons, get, if_pos rfl]
      rfl
    have hentries : entries.Full := by
      intro path hpath
      obtain ⟨k, hk⟩ := h (key :: path) ((hread path).trans hpath)
      rw [List.cons_append, hread] at hk
      exact ⟨k, hk⟩
    obtain ⟨path, x, hx⟩ := ihe hentries
    exact ⟨key :: path, x, (hread path).trans hx⟩

/-- The dictionary at a path is read along the longer paths. -/
theorem exists_dict_at (h : d.kindAt q = some .dict) :
    ∃ entries : Dict κ L, ∀ path, entries.kindAt path = d.kindAt (q ++ path) := by
  induction q generalizing d with
  | nil => exact ⟨d, fun path => rfl⟩
  | cons k q ih =>
    rw [kindAt_cons] at h
    cases hget : d.get k with
    | none =>
      rw [hget] at h
      cases h
    | some v =>
      rw [hget] at h
      cases v with
      | leaf value =>
        simp only [Option.bind_some, Value.kindAt] at h
        split_ifs at h
        simp at h
      | dict entries =>
        obtain ⟨inner, hinner⟩ := ih (d := entries) h
        refine ⟨inner, fun path => ?_⟩
        rw [hinner, List.cons_append, kindAt_cons, hget]
        rfl

/-- Under every dictionary there is a leaf. -/
theorem Full.exists_leaf_below (h : d.Full) (hq : d.kindAt q = some .dict) :
    ∃ path x, path ≠ [] ∧ d.kindAt (q ++ path) = some (.leaf x) := by
  obtain ⟨entries, hentries⟩ := exists_dict_at hq
  have hfull : entries.Full := by
    intro path hpath
    rw [hentries] at hpath
    obtain ⟨k, hk⟩ := h (q ++ path) hpath
    rw [List.append_assoc, ← hentries] at hk
    exact ⟨k, hk⟩
  obtain ⟨path, x, hx⟩ := hfull.exists_leaf
  refine ⟨path, x, ?_, (hentries path) ▸ hx⟩
  rintro rfl
  simp at hx

/-- Above everything that is read stands a dictionary. -/
theorem kindAt_of_longer {path : List κ} (h : d.kindAt (q ++ path) ≠ none) (hpath : path ≠ []) :
    d.kindAt q = some .dict := by
  induction q generalizing d with
  | nil => exact kindAt_nil_path d
  | cons k q ih =>
    rw [List.cons_append, kindAt_cons] at h
    rw [kindAt_cons]
    cases hget : d.get k with
    | none => simp [hget] at h
    | some v =>
      rw [hget] at h
      cases v with
      | leaf value => simp [Value.kindAt, hpath] at h
      | dict entries => exact ih h

end Dict

/-! ## Building -/

/-- Sets a value at a path; the empty path is none. -/
def put (d : Dict κ L) (path : List κ) (v : Value κ L) : Dict κ L :=
  match path with
  | [] => d
  | k :: path => d.setPath k path v

/-- The dictionary of some leaves, set one after the other. -/
def build (ls : List (List κ × L)) : Dict κ L :=
  ls.foldl (fun d e => put d e.1 (.leaf e.2)) .nil

variable {ls : List (List κ × L)} {path q : List κ} {x : L}

theorem build_snoc (ls : List (List κ × L)) (e : List κ × L) :
    build (ls ++ [e]) = put (build ls) e.1 (.leaf e.2) := by
  unfold build
  rw [List.foldl_append, List.foldl_cons, List.foldl_nil]

theorem kindAt_put_leaf (d : Dict κ L) (h : path ≠ []) (x : L) (q : List κ) :
    (put d path (.leaf x)).kindAt q =
      if q = path then some (.leaf x)
      else if path <+: q then none
      else if q <+: path then some .dict
      else d.kindAt q := by
  cases path with
  | nil => exact absurd rfl h
  | cons k path =>
    unfold put
    dsimp only
    rw [Dict.kindAt_setPath]
    by_cases hq : q = k :: path
    · rw [if_pos hq, hq, if_pos (List.prefix_refl _)]
      simp [Value.kindAt]
    · rw [if_neg hq]
      by_cases hbelow : k :: path <+: q
      · rw [if_pos hbelow, if_pos hbelow]
        obtain ⟨more, rfl⟩ := hbelow
        have hmore : more ≠ [] := by
          rintro rfl
          exact hq (List.append_nil _)
        have hdrop : (k :: path ++ more).drop (path.length + 1) = more :=
          List.drop_left' (List.length_cons ..)
        rw [hdrop]
        exact if_neg hmore
      · rw [if_neg hbelow, if_neg hbelow]

section Build

variable (hls : ∀ e ∈ ls, e.1 ≠ [])

include hls

/-- Every leaf of what is built was set. -/
theorem mem_of_kindAt_build (h : (build ls).kindAt q = some (.leaf x)) : (q, x) ∈ ls := by
  induction ls using List.reverseRecOn with
  | nil =>
    cases q with
    | nil => simp at h
    | cons k q =>
      rw [show build ([] : List (List κ × L)) = .nil from rfl, Dict.kindAt_nil _ (by simp)] at h
      cases h
  | append_singleton ls e ih =>
    rw [build_snoc, kindAt_put_leaf _ (hls e (by simp))] at h
    split_ifs at h with heq hbelow habove
    · cases h
      exact List.mem_append_right _ (List.mem_singleton.mpr (by rw [heq]))
    · cases h
    · exact List.mem_append_left _ (ih (fun e he => hls e (List.mem_append_left _ he)) h)

/-- Nothing is built but what stands on the way to a leaf that was set. -/
theorem prefix_of_kindAt_build (h : (build ls).kindAt q ≠ none) : q = [] ∨ ∃ e ∈ ls, q <+: e.1 := by
  induction ls using List.reverseRecOn with
  | nil =>
    by_contra hq
    rw [not_or] at hq
    exact h (Dict.kindAt_nil _ hq.1)
  | append_singleton ls e ih =>
    rw [build_snoc, kindAt_put_leaf _ (hls e (by simp))] at h
    split_ifs at h with heq hbelow habove
    · exact .inr ⟨e, by simp, heq ▸ List.prefix_refl _⟩
    · exact absurd rfl h
    · exact .inr ⟨e, by simp, habove⟩
    · rcases ih (fun e he => hls e (List.mem_append_left _ he)) h with hnil | ⟨e', he', hprefix⟩
      · exact .inl hnil
      · exact .inr ⟨e', List.mem_append_left _ he', hprefix⟩

/-- Whatever is built, no dictionary in it is empty. -/
theorem build_full (hq : q ≠ []) (h : (build ls).kindAt q = some .dict) :
    ∃ k, (build ls).kindAt (q ++ [k]) ≠ none := by
  induction ls using List.reverseRecOn with
  | nil =>
    rw [show build ([] : List (List κ × L)) = .nil from rfl, Dict.kindAt_nil _ hq] at h
    cases h
  | append_singleton ls e ih =>
    have hpath : e.1 ≠ [] := hls e (by simp)
    rw [build_snoc, kindAt_put_leaf _ hpath] at h
    rw [build_snoc]
    simp only [kindAt_put_leaf _ hpath]
    by_cases heq : q = e.1
    · rw [if_pos heq] at h
      cases h
    rw [if_neg heq] at h
    by_cases hbelow : e.1 <+: q
    · rw [if_pos hbelow] at h
      cases h
    rw [if_neg hbelow] at h
    by_cases habove : q <+: e.1
    · -- On the way to the new leaf the next key is there as well.
      obtain ⟨more, hmore⟩ := habove
      cases more with
      | nil => exact absurd (by rw [← hmore, List.append_nil]) heq
      | cons k more =>
        have hnext : q ++ [k] <+: e.1 := ⟨more, by rw [← hmore]; simp⟩
        refine ⟨k, ?_⟩
        split_ifs with h₁ h₂
        · simp
        · exact absurd (hnext.eq_of_length_le h₂.length_le) h₁
        · simp
    · rw [if_neg habove] at h
      obtain ⟨k, hk⟩ := ih (fun e he => hls e (List.mem_append_left _ he)) h
      refine ⟨k, ?_⟩
      split_ifs with h₁ h₂ h₃
      · simp
      · rcases List.prefix_concat_iff.mp h₂ with h₂ | h₂
        · exact absurd h₂.symm h₁
        · exact absurd h₂ hbelow
      · exact absurd ((List.prefix_append q [k]).trans h₃) habove
      · exact hk

/-- When no path leads over another one's leaf, every leaf stands where it was set, with dictionaries
above it. -/
theorem kindAt_build (hanti : ∀ e ∈ ls, ∀ e' ∈ ls, e.1 <+: e'.1 → e = e') :
    (∀ e ∈ ls, (build ls).kindAt e.1 = some (.leaf e.2)) ∧
      ∀ e ∈ ls, q <+: e.1 → q ≠ e.1 → (build ls).kindAt q = some .dict := by
  induction ls using List.reverseRecOn with
  | nil => exact ⟨fun e he => absurd he List.not_mem_nil, fun e he => absurd he List.not_mem_nil⟩
  | append_singleton ls e ih =>
    have hlast : e ∈ ls ++ [e] := by simp
    obtain ⟨ihleaf, ihdict⟩ := ih (fun e he => hls e (List.mem_append_left _ he))
      fun a ha b hb => hanti a (List.mem_append_left _ ha) b (List.mem_append_left _ hb)
    rw [build_snoc]
    simp only [kindAt_put_leaf _ (hls e hlast)]
    constructor
    · intro a ha
      split_ifs with h₁ h₂ h₃
      · rw [hanti e hlast a ha (h₁ ▸ List.prefix_refl _)]
      · rw [hanti e hlast a ha h₂] at h₁
        exact absurd rfl h₁
      · rw [hanti a ha e hlast h₃] at h₁
        exact absurd rfl h₁
      · rcases List.mem_append.mp ha with ha | ha
        · exact ihleaf a ha
        · rw [List.mem_singleton.mp ha] at h₁
          exact absurd rfl h₁
    · intro a ha hqa hne
      split_ifs with h₁ h₂ h₃
      · have heq := hanti e hlast a ha (h₁ ▸ hqa)
        exact absurd (h₁.trans (congrArg Prod.fst heq)) hne
      · have heq := hanti e hlast a ha (h₂.trans hqa)
        rw [← heq] at hqa
        exact absurd (hqa.eq_of_length_le h₂.length_le) h₁
      · rfl
      · rcases List.mem_append.mp ha with ha | ha
        · exact ihdict a ha hqa hne
        · rw [List.mem_singleton.mp ha] at hqa
          exact absurd hqa h₃

end Build

end Nested
