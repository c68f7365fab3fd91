import SovaVerified.Config.ConfigRows

/-!
# Whether a saved configuration is read back

A configuration survives the way through its rows exactly when it is plain: no key has a dot in it, no
dictionary is empty, no section goes without a name and no setting takes an internal key. Object-valued
settings with keys of their own can break the first two.
-/

namespace Config

open Nested

variable {L : Type*}

/-- What is read at the paths of a plain configuration can be named by dotted keys. -/
structure Plain (config : Dict Text L) : Prop where
  keys : ∀ path, config.kindAt path ≠ none → ∀ key ∈ path, '.' ∉ key
  full : config.Full
  named : config.kindAt [[]] ≠ some .dict
  own : ∀ path x, config.kindAt path = some (.leaf x) →
    Text.join ['.'] path ∉ internalSettingKeys

/-! ## Keys -/

theorem not_mem_of_mem_splitOn {sep : Char} {t key : Text} (h : key ∈ t.splitOn sep) : sep ∉ key := by
  induction t generalizing key with
  | nil =>
    rw [List.splitOn_nil, List.mem_singleton] at h
    rw [h]
    exact List.not_mem_nil
  | cons c t ih =>
    rw [List.splitOn_cons_eq_if_modifyHead] at h
    by_cases hc : c = sep
    · rw [if_pos (beq_iff_eq.mpr hc)] at h
      rcases List.mem_cons.mp h with rfl | h
      · exact List.not_mem_nil
      · exact ih h
    · rw [if_neg (by simpa using hc)] at h
      cases hsplit : t.splitOn sep with
      | nil => exact absurd hsplit (List.splitOn_ne_nil _ _)
      | cons first more =>
        rw [hsplit, List.modifyHead_cons] at h
        rw [hsplit] at ih
        rcases List.mem_cons.mp h with rfl | h
        · rw [List.mem_cons, not_or]
          exact ⟨Ne.symm hc, ih (List.mem_cons_self ..)⟩
        · exact ih (List.mem_cons_of_mem _ h)

/-- The dotted key of a path. -/
def rowKey (path : List Text) : Text := path.foldl fullKey []

theorem foldl_fullKey {front : Text} (h : front ≠ []) (path : List Text) :
    path.foldl fullKey front = Text.join ['.'] (front :: path) := by
  induction path generalizing front with
  | nil => exact List.intercalate_singleton.symm
  | cons key path ih =>
    have hfull : fullKey front key = front ++ '.' :: key := if_neg h
    rw [List.foldl_cons, hfull, ih (by simp)]
    unfold Text.join
    rw [List.intercalate_cons_cons]
    cases path with
    | nil => simp [List.intercalate_singleton]
    | cons key' path => simp [List.intercalate_cons_cons]

theorem rowKey_cons {key : Text} {path : List Text} (h : key ≠ [] ∨ path = []) :
    rowKey (key :: path) = Text.join ['.'] (key :: path) := by
  have hfull : fullKey [] key = key := if_pos rfl
  unfold rowKey
  rw [List.foldl_cons, hfull]
  by_cases hkey : key = []
  · rw [h.resolve_left (not_not.mpr hkey)]
    exact List.intercalate_singleton.symm
  · exact foldl_fullKey hkey path

/-- Without dots in the keys, no dotted key begins with one. -/
theorem head_rowKey {path : List Text} (h : ∀ key ∈ path, '.' ∉ key) :
    (rowKey path).head? ≠ some '.' := by
  induction path with
  | nil => simp [rowKey]
  | cons key path ih =>
    cases key with
    | nil => exact ih fun k hk => h k (List.mem_cons_of_mem _ hk)
    | cons c key =>
      have hc : c ≠ '.' := by
        rintro rfl
        exact h _ (List.mem_cons_self ..) (List.mem_cons_self ..)
      rw [rowKey_cons (.inl (by simp))]
      unfold Text.join
      cases path with
      | nil => simpa [List.intercalate_singleton] using hc
      | cons key' path => simpa [List.intercalate_cons_cons] using hc

theorem join_splitOn (t : Text) : Text.join ['.'] (t.splitOn '.') = t :=
  List.intercalate_splitOn '.'

theorem splitOn_join {path : List Text} (hne : path ≠ []) (h : ∀ key ∈ path, '.' ∉ key) :
    (Text.join ['.'] path).splitOn '.' = path :=
  List.splitOn_intercalate '.' h hne

/-! ## Flattening -/

theorem mem_foldl_set {l m : Assoc Text L} {e : Text × L}
    (h : e ∈ l.foldl (fun m e => m.set e.1 e.2) m) : e ∈ l ∨ e ∈ m := by
  induction l generalizing m with
  | nil => exact .inr h
  | cons a l ih =>
    rcases ih h with h | h
    · exact .inl (List.mem_cons_of_mem _ h)
    · rcases Assoc.mem_of_mem_set h with rfl | h
      · exact .inl (List.mem_cons_self ..)
      · exact .inr h

/-- The setting of a leaf below a key. -/
def settingOf (front : Text) (l : List Text × L) : Text × L := (l.1.foldl fullKey front, l.2)

/-- Every setting comes from a leaf. -/
theorem mem_flattenConfigDict {front : Text} {flat : Assoc Text L} {d : Dict Text L} {e : Text × L}
    (h : e ∈ flattenConfigDict front flat d) :
    e ∈ flat ∨ ∃ l ∈ d.leaves, e = settingOf front l := by
  induction d generalizing front flat with
  | nil => exact .inl h
  | leaf key value rest ih =>
    rcases ih h with h | ⟨l, hl, he⟩
    · rcases Assoc.mem_of_mem_set h with rfl | h
      · exact .inr ⟨([key], value), List.mem_cons_self .., rfl⟩
      · exact .inl h
    · exact .inr ⟨l, List.mem_cons_of_mem _ hl, he⟩
  | dict key entries rest ihe ih =>
    rcases ih h with h | ⟨l, hl, he⟩
    · rcases mem_foldl_set h with h | h
      · rcases ihe h with h | ⟨l, hl, he⟩
        · cases h
        · exact .inr ⟨(key :: l.1, l.2), List.mem_append_left _ (List.mem_map_of_mem hl), he⟩
      · exact .inl h
    · exact .inr ⟨l, List.mem_append_right _ hl, he⟩

theorem nodup_keys_foldl_set {l m : Assoc Text L} (h : (m.map Prod.fst).Nodup) :
    ((l.foldl (fun m e => m.set e.1 e.2) m).map Prod.fst).Nodup := by
  induction l generalizing m with
  | nil => exact h
  | cons a l ih => exact ih (Assoc.nodup_keys_set h a.1 a.2)

theorem nodup_keys_flattenConfigDict {front : Text} {flat : Assoc Text L} (d : Dict Text L)
    (h : (flat.map Prod.fst).Nodup) : ((flattenConfigDict front flat d).map Prod.fst).Nodup := by
  induction d generalizing front flat with
  | nil => exact h
  | leaf key value rest ih => exact ih (Assoc.nodup_keys_set h _ value)
  | dict key entries rest _ ih => exact ih (nodup_keys_foldl_set h)

/-- When no two leaves get the same key, the settings are the leaves. -/
theorem flattenConfigDict_eq {front : Text} {flat : Assoc Text L} {d : Dict Text L}
    (h : ((flat ++ d.leaves.map (settingOf front)).map Prod.fst).Nodup) :
    flattenConfigDict front flat d = flat ++ d.leaves.map (settingOf front) := by
  induction d generalizing front flat with
  | nil => exact (List.append_nil flat).symm
  | leaf key value rest ih =>
    have hnew : fullKey front key ∉ flat.map Prod.fst := by
      rw [List.map_append, List.nodup_append] at h
      exact fun hmem => h.2.2 _ hmem _ (List.mem_cons_self ..) rfl
    have hcons : flat ++ (Dict.leaf key value rest).leaves.map (settingOf front) =
        flat ++ [(fullKey front key, value)] ++ rest.leaves.map (settingOf front) := by
      rw [List.append_assoc]
      rfl
    rw [hcons] at h ⊢
    unfold flattenConfigDict
    rw [Assoc.set_of_notMem hnew]
    exact ih h
  | dict key entries rest ihe ih =>
    have hcons : flat ++ (Dict.dict key entries rest).leaves.map (settingOf front) =
        flat ++ entries.leaves.map (settingOf (fullKey front key)) ++
          rest.leaves.map (settingOf front) := by
      rw [List.append_assoc, Dict.leaves, List.map_append, List.map_map]
      rfl
    rw [hcons] at h ⊢
    have hfront : ((flat ++ entries.leaves.map (settingOf (fullKey front key))).map
        Prod.fst).Nodup := by
      rw [List.map_append, List.nodup_append] at h
      exact h.1
    have hentries : (([] ++ entries.leaves.map (settingOf (fullKey front key))).map
        Prod.fst).Nodup := by
      rw [List.map_append, List.nodup_append] at hfront
      exact hfront.2.1
    unfold flattenConfigDict
    rw [ihe hentries, List.nil_append, Assoc.foldl_set_of_nodup hfront]
    exact ih h

/-- The row of a setting. -/
def rowOf (e : Text × L) : Text × Option (Value Text L) := (e.1, some (.leaf e.2))

/-- The rows of a configuration that is saved for the first time. -/
theorem saveConfigToDb_nil (config : Dict Text L) :
    saveConfigToDb [] config = (flattenConfigDict [] [] config).map rowOf := by
  have hkeys : (([] ++ (flattenConfigDict [] [] config).map rowOf).map Prod.fst).Nodup := by
    rw [List.nil_append, List.map_map]
    exact nodup_keys_flattenConfigDict config List.nodup_nil
  have hset := Assoc.foldl_set_of_nodup hkeys
  rw [List.foldl_map, List.nil_append] at hset
  exact hset

/-! ## Reading back -/

/-- The leaf that a row of a saved configuration sets. -/
def rowLeaf (row : Text × Option (Value Text L)) : Option (List Text × L) :=
  if row.1 ∈ internalSettingKeys then none
  else
    match row.2 with
    | some (.leaf x) => some (row.1.splitOn '.', x)
    | _ => none

theorem foldl_addRow {rows : SettingRows L} (h : ∀ row ∈ rows, ∃ x, row.2 = some (.leaf x)) :
    rows.foldl addRow .nil = build (rows.filterMap rowLeaf) := by
  induction rows using List.reverseRecOn with
  | nil => rfl
  | append_singleton rows row ih =>
    obtain ⟨x, hx⟩ := h row (by simp)
    rw [List.foldl_append, List.foldl_cons, List.foldl_nil, List.filterMap_append,
      ih fun r hr => h r (List.mem_append_left _ hr)]
    by_cases hkey : row.1 ∈ internalSettingKeys
    · have hnone : rowLeaf row = none := if_pos hkey
      rw [List.filterMap_cons_none hnone, List.filterMap_nil, List.append_nil]
      exact if_pos hkey
    · have hsome : rowLeaf row = some (row.1.splitOn '.', x) := by
        unfold rowLeaf
        rw [if_neg hkey, hx]
      rw [List.filterMap_cons_some hsome, List.filterMap_nil, build_snoc]
      unfold addRow
      rw [if_neg hkey, hx]
      rfl

theorem rowsToNested_eq_some_iff {rows : SettingRows L} {d : Dict Text L} :
    rowsToNested rows = some d ↔ rows.foldl addRow .nil = d ∧ d ≠ .nil := by
  unfold rowsToNested
  split
  · next hnil =>
    rw [hnil]
    exact iff_of_false (by simp) fun h => h.2 h.1.symm
  · next hne =>
    constructor
    · intro h
      obtain rfl := Option.some.inj h
      exact ⟨rfl, hne⟩
    · rintro ⟨rfl, -⟩
      rfl

section RoundTrip

variable {config : NestedConfig L} {rows : SettingRows L}
  (hrows : rows.Perm (saveConfigToDb [] config.entries))

include hrows

theorem rows_leaf : ∀ row ∈ rows, ∃ x, row.2 = some (.leaf x) := by
  intro row hrow
  rw [hrows.mem_iff, saveConfigToDb_nil] at hrow
  obtain ⟨e, -, rfl⟩ := List.mem_map.mp hrow
  exact ⟨e.2, rfl⟩

/-- The leaves that the rows set are the settings that are not internal. -/
theorem mem_rowLeaf_iff {path : List Text} {x : L} : (path, x) ∈ rows.filterMap rowLeaf ↔
    ∃ key, (key, x) ∈ flattenConfigDict [] [] config.entries ∧ key ∉ internalSettingKeys ∧
      key.splitOn '.' = path := by
  rw [List.mem_filterMap]
  constructor
  · rintro ⟨row, hrow, h⟩
    rw [hrows.mem_iff, saveConfigToDb_nil] at hrow
    obtain ⟨e, he, rfl⟩ := List.mem_map.mp hrow
    unfold rowLeaf at h
    split_ifs at h with hkey
    cases h
    exact ⟨e.1, he, hkey, rfl⟩
  · rintro ⟨key, hmem, hkey, rfl⟩
    refine ⟨(key, some (.leaf x)), ?_, if_neg hkey⟩
    rw [hrows.mem_iff, saveConfigToDb_nil]
    exact List.mem_map.mpr ⟨(key, x), hmem, rfl⟩

theorem rowLeaf_ne_nil : ∀ e ∈ rows.filterMap rowLeaf, e.1 ≠ [] := by
  rintro ⟨path, x⟩ he
  obtain ⟨key, -, -, rfl⟩ := (mem_rowLeaf_iff hrows).mp he
  exact List.splitOn_ne_nil _ _

/-- What is read back is plain, so a configuration that is read back is. -/
theorem plain_of_same {d : Dict Text L} (hd : rowsToNested rows = some d)
    (hsame : Same d config.entries) : Plain config.entries := by
  obtain ⟨hbuild, hne⟩ := rowsToNested_eq_some_iff.mp hd
  rw [foldl_addRow (rows_leaf hrows)] at hbuild
  have hls := rowLeaf_ne_nil hrows
  have hleaf : ∀ path x, config.entries.kindAt path = some (.leaf x) →
      ∃ key, (key, x) ∈ flattenConfigDict [] [] config.entries ∧ key ∉ internalSettingKeys ∧
        key.splitOn '.' = path := by
    intro path x hx
    rw [← hsame, ← hbuild] at hx
    exact (mem_rowLeaf_iff hrows).mp (mem_of_kindAt_build hls hx)
  have hkeys : ∀ path, config.entries.kindAt path ≠ none → ∀ key ∈ path, '.' ∉ key := by
    intro path hpath key hkey
    rw [← hsame, ← hbuild] at hpath
    rcases prefix_of_kindAt_build hls hpath with rfl | ⟨e, he, hbelow⟩
    · cases hkey
    · obtain ⟨rkey, -, -, hsplit⟩ := (mem_rowLeaf_iff hrows).mp he
      exact not_mem_of_mem_splitOn (hsplit ▸ hbelow.subset hkey)
  have hfull : config.entries.Full := by
    intro path hpath
    simp only [← hsame _, ← hbuild] at hpath ⊢
    by_cases hnil : path = []
    · rw [hnil, hbuild]
      exact Dict.exists_key hne
    · exact build_full hls hnil hpath
  refine ⟨hkeys, hfull, ?_, ?_⟩
  · -- A leaf below a section without a name would be named by a key that begins with a dot.
    intro hsection
    obtain ⟨path, x, hne, hx⟩ := hfull.exists_leaf_below hsection
    obtain ⟨key, hkey, -, hsplit⟩ := hleaf _ _ hx
    have hdot : key.head? = some '.' := by
      rw [← join_splitOn key, hsplit]
      cases path with
      | nil => exact absurd rfl hne
      | cons k path => rfl
    rcases mem_flattenConfigDict hkey with hmem | ⟨l, hl, he⟩
    · cases hmem
    · have hread := (Dict.mem_leaves_iff config.unique).mp hl
      have hhead := head_rowKey (hkeys l.1 (by rw [hread]; simp))
      obtain rfl : key = rowKey l.1 := congrArg Prod.fst he
      exact hhead hdot
  · intro path x hx
    obtain ⟨key, -, hkey, hsplit⟩ := hleaf path x hx
    rw [← hsplit, join_splitOn]
    exact hkey

end RoundTrip

/-! ## Plain configurations -/

namespace Plain

variable {config : NestedConfig L} (h : Plain config.entries)

include h

theorem rowKey_eq {path : List Text} {x : L} (hx : config.entries.kindAt path = some (.leaf x)) :
    rowKey path = Text.join ['.'] path ∧ (rowKey path).splitOn '.' = path := by
  have hdots := h.keys path (by rw [hx]; simp)
  cases path with
  | nil => simp at hx
  | cons key path =>
    have hkey : key ≠ [] ∨ path = [] := by
      by_contra hnot
      rw [not_or, not_not] at hnot
      obtain ⟨rfl, hpath⟩ := hnot
      have hbelow : config.entries.kindAt ([[]] ++ path) ≠ none := by simp [hx]
      exact h.named (Dict.kindAt_of_longer hbelow hpath)
    have hjoin := rowKey_cons hkey
    rw [hjoin]
    exact ⟨rfl, splitOn_join (by simp) hdots⟩

theorem flatten_eq : flattenConfigDict [] [] config.entries =
    config.entries.leaves.map (settingOf []) := by
  refine flattenConfigDict_eq (d := config.entries) ?_
  rw [List.nil_append, List.map_map]
  have hnodup := Dict.nodup_leaves config.unique
  have hinj : ∀ l ∈ config.entries.leaves, ∀ l' ∈ config.entries.leaves,
      rowKey l.1 = rowKey l'.1 → l.1 = l'.1 := by
    intro l hl l' hl' heq
    have hread := (Dict.mem_leaves_iff config.unique).mp hl
    have hread' := (Dict.mem_leaves_iff config.unique).mp hl'
    rw [← (h.rowKey_eq hread).2, heq, (h.rowKey_eq hread').2]
  have hmap : (config.entries.leaves.map Prod.fst).map rowKey =
      config.entries.leaves.map (Prod.fst ∘ settingOf []) := by
    rw [List.map_map]
    rfl
  rw [← hmap]
  refine List.Nodup.map_on ?_ hnodup
  intro p hp p' hp' heq
  obtain ⟨l, hl, rfl⟩ := List.mem_map.mp hp
  obtain ⟨l', hl', rfl⟩ := List.mem_map.mp hp'
  exact hinj l hl l' hl' heq

theorem same_build {rows : SettingRows L} (hrows : rows.Perm (saveConfigToDb [] config.entries)) :
    Same (build (rows.filterMap rowLeaf)) config.entries := by
  have hls := rowLeaf_ne_nil hrows
  have hmem : ∀ path x, (path, x) ∈ rows.filterMap rowLeaf ↔
      config.entries.kindAt path = some (.leaf x) := by
    intro path x
    rw [mem_rowLeaf_iff hrows, h.flatten_eq, ← Dict.mem_leaves_iff config.unique]
    constructor
    · rintro ⟨key, hkey, -, rfl⟩
      obtain ⟨l, hl, he⟩ := List.mem_map.mp hkey
      cases he
      have hsplit := (h.rowKey_eq ((Dict.mem_leaves_iff config.unique).mp hl)).2
      unfold rowKey at hsplit
      rw [hsplit]
      exact hl
    · intro hleaf
      have hread := (Dict.mem_leaves_iff config.unique).mp hleaf
      obtain ⟨hjoin, hsplit⟩ := h.rowKey_eq hread
      exact ⟨rowKey path, List.mem_map.mpr ⟨(path, x), hleaf, rfl⟩, hjoin ▸ h.own path x hread, hsplit⟩
  have habove : ∀ q path x, path ≠ [] → config.entries.kindAt (q ++ path) = some (.leaf x) →
      config.entries.kindAt q = some .dict := by
    intro q path x hpath hx
    exact Dict.kindAt_of_longer (by rw [hx]; simp) hpath
  have hanti : ∀ e ∈ rows.filterMap rowLeaf, ∀ e' ∈ rows.filterMap rowLeaf, e.1 <+: e'.1 →
      e = e' := by
    rintro ⟨q, x⟩ he ⟨q', x'⟩ he' ⟨more, rfl⟩
    rw [hmem] at he he'
    by_cases hmore : more = []
    · rw [hmore, List.append_nil] at he' ⊢
      rw [he] at he'
      cases he'
      rfl
    · rw [habove q more x' hmore he'] at he
      cases he
  intro q
  cases hq : config.entries.kindAt q with
  | none =>
    by_contra hbuilt
    rcases prefix_of_kindAt_build hls hbuilt with rfl | ⟨e, he, more, hmore⟩
    · simp at hq
    · have hx := (hmem e.1 e.2).mp he
      rw [← hmore] at hx
      by_cases hnil : more = []
      · rw [hnil, List.append_nil, hq] at hx
        cases hx
      · rw [habove q more e.2 hnil hx] at hq
        cases hq
  | some kind =>
    cases kind with
    | leaf x => exact (kindAt_build (q := q) hls hanti).1 (q, x) ((hmem q x).mpr hq)
    | dict =>
      obtain ⟨path, x, hpath, hx⟩ := h.full.exists_leaf_below hq
      refine (kindAt_build hls hanti).2 (q ++ path, x) ((hmem _ x).mpr hx) (List.prefix_append ..) ?_
      intro heq
      exact hpath (List.append_right_eq_self.mp heq.symm)

end Plain

/-- A configuration that is saved is read back, whatever the order of the rows, exactly when it is
plain. -/
theorem rowsToNested_saveConfigToDb_iff (config : NestedConfig L) (rows : SettingRows L)
    (hrows : rows.Perm (saveConfigToDb [] config.entries)) :
    (∃ d, rowsToNested rows = some d ∧ Same d config.entries) ↔ Plain config.entries := by
  constructor
  · rintro ⟨d, hd, hsame⟩
    exact plain_of_same hrows hd hsame
  · intro h
    have hsame := h.same_build hrows
    refine ⟨build (rows.filterMap rowLeaf), rowsToNested_eq_some_iff.mpr ⟨?_, ?_⟩, hsame⟩
    · exact foldl_addRow (rows_leaf hrows)
    · intro hnil
      obtain ⟨path, x, hx⟩ := h.full.exists_leaf
      rw [← hsame, hnil] at hx
      cases path with
      | nil => simp at hx
      | cons k path =>
        rw [Dict.kindAt_nil _ (by simp)] at hx
        cases hx

/-! A template for one model, whose name has a dot in it. -/

def dottedTemplates : NestedConfig Text where
  entries := .dict "conflict_resolution".toList
    (.dict "prompt_templates".toList
      (.leaf "gpt-4.1".toList "Resolve the conflict.".toList .nil) .nil) .nil
  unique := by simp [Dict.Unique, Dict.keys]

theorem dottedTemplates_not_read_back :
    ¬∀ (config : NestedConfig Text) (rows : SettingRows Text),
      rows.Perm (saveConfigToDb [] config.entries) →
        ∃ d, rowsToNested rows = some d ∧ Same d config.entries := by
  intro h
  obtain ⟨d, hd, hsame⟩ := h dottedTemplates _ (List.Perm.refl _)
  have hbuilt := (rowsToNested_eq_some_iff.mp hd).1
  have hleaf := hsame ["conflict_resolution".toList, "prompt_templates".toList, "gpt-4.1".toList]
  rw [← hbuilt] at hleaf
  revert hleaf
  decide

/-- The same template for a model without a dot in its name. -/
def plainTemplates : NestedConfig Text where
  entries := .dict "conflict_resolution".toList
    (.dict "prompt_templates".toList
      (.leaf "opus".toList "Resolve the conflict.".toList .nil) .nil) .nil
  unique := by simp [Dict.Unique, Dict.keys]

theorem plainTemplates_read_back_iff :
    (∃ d, rowsToNested (saveConfigToDb [] plainTemplates.entries) = some d ∧
      Same d plainTemplates.entries) ↔ Plain plainTemplates.entries :=
  rowsToNested_saveConfigToDb_iff plainTemplates _ (List.Perm.refl _)

end Config
