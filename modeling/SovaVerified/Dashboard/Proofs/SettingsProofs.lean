import SovaVerified.Dashboard.Settings

/-!
# When saving settings keeps the configuration loadable

The check of a save validates a dump of the loaded configuration with the edits in it, and what is loaded after
the save is the stored configuration with the edits in it. The two differ in three ways. The dump leaves out the
edits of keys with two dots; it has the values that a validator has filled in, which are not stored; and in it
every edit counts, while a variable of the environment keeps the edit of its field from taking effect. A run in
which none of these differences hides a refusal keeps the configuration loadable.
-/

namespace Settings

variable {S : Schema} {st : Stored} {raw raw' : Key → Option Value} {cfg : Key → Value}

/-! ## Validation -/

/-- The stored configuration loads. -/
def Loads (S : Schema) (st : Stored) : Prop := ∃ cfg, loadConfig S st = .ok cfg

theorem loads_iff : Loads S st ↔ errorLocs S (effective S st) = [] := by
  unfold Loads loadConfig validate
  split_ifs with h
  · exact iff_of_true ⟨_, rfl⟩ (List.isEmpty_iff.mp h)
  · refine iff_of_false ?_ fun hnil => h (List.isEmpty_iff.mpr hnil)
    rintro ⟨cfg, hcfg⟩
    cases hcfg

instance (S : Schema) (st : Stored) : Decidable (Loads S st) := decidable_of_iff _ loads_iff.symm

/-- No field is refused. -/
def FieldsPass (S : Schema) (raw : Key → Option Value) (P : Key → Prop) : Prop :=
  ∀ k ∈ S.fields, P k → ∀ v, raw k = some v → (S.check k v).isSome = true

/-- The validator of the section does not refuse. -/
def SectionPasses (S : Schema) (raw : Key → Option Value) (sec : Text) : Prop :=
  (afterSection S sec (readable S (valueOf S raw) sec)).isSome = true

theorem mem_fieldErrors_iff {k : Key} :
    k ∈ fieldErrors S raw ↔ k ∈ S.fields ∧ ∃ v, raw k = some v ∧ (S.check k v).isSome = false := by
  unfold fieldErrors
  rw [List.mem_filter]
  cases raw k with
  | none => simp
  | some v => cases S.check k v <;> simp

/-- A section without an error is passed by its fields and by its validator. -/
theorem passes_of_not_mem_errorLocs {loc : Text} (h : loc ∉ errorLocs S raw) :
    FieldsPass S raw (fun k => k.head = loc) ∧ (loc ∈ S.sections → SectionPasses S raw loc) := by
  unfold errorLocs at h
  rw [List.mem_append, not_or] at h
  have hfields : FieldsPass S raw (fun k => k.head = loc) := by
    intro k hk hhead v hv
    by_contra hnone
    refine h.1 (List.mem_map.mpr ⟨k, mem_fieldErrors_iff.mpr ⟨hk, v, hv, ?_⟩, hhead⟩)
    simpa using hnone
  refine ⟨hfields, fun hsec => ?_⟩
  by_contra hnone
  refine h.2 (List.mem_filter.mpr ⟨hsec, ?_⟩)
  have hquiet : ((fieldErrors S raw).any fun k => k.sectionOf == some loc) = false := by
    rw [List.any_eq_false]
    intro k hk hin
    obtain ⟨hmem, v, hv, hcheck⟩ := mem_fieldErrors_iff.mp hk
    have hhead : k.head = loc := by
      cases k with
      | top name => cases hin
      | field sec name => exact Option.some.inj (beq_iff_eq.mp hin)
      | sub sec subsec name => exact Option.some.inj (beq_iff_eq.mp hin)
    rw [hfields k hmem hhead v hv] at hcheck
    cases hcheck
  rw [hquiet]
  unfold SectionPasses at hnone
  simpa using hnone

theorem errorLocs_eq_nil_iff :
    errorLocs S raw = [] ↔ FieldsPass S raw (fun _ => True) ∧ ∀ sec ∈ S.sections, SectionPasses S raw sec := by
  constructor
  · intro h
    have hnot : ∀ loc, loc ∉ errorLocs S raw := by
      intro loc
      rw [h]
      exact List.not_mem_nil
    exact ⟨fun k hk _ => (passes_of_not_mem_errorLocs (hnot k.head)).1 k hk rfl,
      fun sec hsec => (passes_of_not_mem_errorLocs (hnot sec)).2 hsec⟩
  · rintro ⟨hfields, hsections⟩
    unfold errorLocs
    have hnone : fieldErrors S raw = [] := by
      rw [List.eq_nil_iff_forall_not_mem]
      intro k hk
      obtain ⟨hmem, v, hv, hcheck⟩ := mem_fieldErrors_iff.mp hk
      rw [hfields k hmem trivial v hv] at hcheck
      cases hcheck
    have hsec : sectionErrors S raw = [] := by
      unfold sectionErrors
      rw [List.filter_eq_nil_iff]
      intro sec hsec
      have hpass : (afterSection S sec (readable S (valueOf S raw) sec)).isNone = false := by
        rw [← Option.not_isSome, hsections sec hsec]
        rfl
      rw [hpass, Bool.and_false]
      exact Bool.false_ne_true
    rw [hnone, hsec]
    rfl

/-- A validator that reads the same values comes to the same end. -/
theorem sectionPasses_congr {sec : Text}
    (h : ∀ name, valueOf S raw (.field sec name) = valueOf S raw' (.field sec name)) :
    SectionPasses S raw sec ↔ SectionPasses S raw' sec := by
  have hread : readable S (valueOf S raw) sec = readable S (valueOf S raw') sec := by
    funext name
    unfold readable
    rw [h name]
  unfold SectionPasses
  rw [hread]

/-! ## The values of a configuration that loads -/

/-- A validated value, and a default, is validated as it is. -/
theorem check_valueOf {k : Key} (hk : k ∈ S.fields) (hpass : FieldsPass S raw fun _ => True) :
    S.check k (valueOf S raw k) = some (valueOf S raw k) := by
  unfold valueOf
  rw [if_pos hk]
  cases hraw : raw k with
  | none => exact S.check_default k
  | some v =>
    obtain ⟨w, hw⟩ := Option.isSome_iff_exists.mp (hpass k hk trivial v hraw)
    dsimp only
    rw [hw]
    exact S.check_idem hw

/-- Only two sections fill in values. -/
theorem afterSection_getD_of_ne {sec : Text} {read : Text → Value} (hllm : sec ≠ "llm".toList)
    (hquota : sec ≠ "coderabbit_quota".toList) : (afterSection S sec read).getD [] = [] := by
  unfold afterSection
  rw [if_neg hllm, if_neg hquota]
  split_ifs <;> rfl

theorem configOf_of_ne {sec name : Text} (hllm : sec ≠ "llm".toList)
    (hquota : sec ≠ "coderabbit_quota".toList) :
    configOf S raw (.field sec name) = valueOf S raw (.field sec name) := by
  unfold configOf
  dsimp only
  rw [afterSection_getD_of_ne hllm hquota]
  rfl

/-- The model of the section `llm` is empty, and its provider is one that a model is filled in for. -/
def FillsModel (read : Text → Value) : Prop :=
  read "model".toList = .str [] ∧ read "provider".toList ∈ litellmProviders

instance (read : Text → Value) : Decidable (FillsModel read) := by
  unfold FillsModel
  infer_instance

theorem litellm_not_vendor {v : Value} (h : v ∈ litellmProviders) : v ∉ vendorProviders := by
  have hall : ∀ v ∈ litellmProviders, v ∉ vendorProviders := by decide
  exact hall v h

theorem defaultModelForLitellm_isSome_iff {read : Text → Value} :
    (defaultModelForLitellm read).isSome = true ↔
      ¬ (read "model".toList = .str [] ∧ read "provider".toList ∈ vendorProviders) := by
  unfold defaultModelForLitellm
  by_cases hmodel : read "model".toList = .str []
  · rw [if_pos hmodel]
    by_cases hlite : read "provider".toList ∈ litellmProviders
    · rw [if_pos hlite]
      exact iff_of_true rfl fun h => litellm_not_vendor hlite h.2
    · rw [if_neg hlite]
      by_cases hvendor : read "provider".toList ∈ vendorProviders
      · rw [if_pos hvendor]
        exact iff_of_false Bool.false_ne_true fun h => h ⟨hmodel, hvendor⟩
      · rw [if_neg hvendor]
        exact iff_of_true rfl fun h => hvendor h.2
  · rw [if_neg hmodel]
    exact iff_of_true rfl fun h => hmodel h.1

/-- The filled-in values of the section `llm`. -/
theorem get_defaultModelForLitellm {read : Text → Value} {name : Text} :
    ((defaultModelForLitellm read).getD []).get name =
      if name = "model".toList ∧ FillsModel read then some litellmModel else none := by
  unfold defaultModelForLitellm
  by_cases hmodel : read "model".toList = .str []
  · rw [if_pos hmodel]
    by_cases hlite : read "provider".toList ∈ litellmProviders
    · rw [if_pos hlite, Option.getD_some, Assoc.get_cons]
      by_cases hname : name = "model".toList
      · rw [if_pos hname, if_pos ⟨hname, hmodel, hlite⟩]
      · rw [if_neg hname, if_neg fun h => hname h.1]
        rfl
    · have hnot : ¬ (name = "model".toList ∧ FillsModel read) := fun h => hlite h.2.2
      rw [if_neg hlite, if_neg hnot]
      split_ifs <;> rfl
  · rw [if_neg hmodel, if_neg fun h => hmodel h.2.1]
    rfl

theorem configOf_llm {name : Text} :
    configOf S raw (.field "llm".toList name) =
      if name = "model".toList ∧ FillsModel (readable S (valueOf S raw) "llm".toList) then litellmModel
      else valueOf S raw (.field "llm".toList name) := by
  unfold configOf afterSection
  dsimp only
  rw [if_pos rfl, get_defaultModelForLitellm]
  split_ifs <;> rfl

/-! ## The dump with the edits -/

/-- The key has at most one dot. -/
def Key.isPlain : Key → Bool
  | sub .. => false
  | _ => true

theorem editDump_apply (data : Key → Option Value) (k' k : Key) (v : Value) :
    editDump data (k', v) k =
      if k = k' ∧ k.isPlain = true ∧ (data k).isSome = true then some v else data k := by
  have hplain : ∀ key : Key, key.isPlain = true →
      (if (data key).isSome then fun k => if k = key then some v else data k else data) k =
        if k = key ∧ k.isPlain = true ∧ (data k).isSome = true then some v else data k := by
    intro key hkey
    by_cases hk : k = key
    · subst hk
      cases hdata : (data k).isSome with
      | true => simp [hkey]
      | false => simp
    · cases (data key).isSome with
      | true => simp [hk]
      | false => simp [hk]
  cases k' with
  | top name => exact hplain (.top name) rfl
  | field sec name => exact hplain (.field sec name) rfl
  | sub sec subsec name =>
    have hnot : ¬ (k = .sub sec subsec name ∧ k.isPlain = true ∧ (data k).isSome = true) := by
      rintro ⟨rfl, hsub, -⟩
      cases hsub
    rw [if_neg hnot]
    rfl

/-- The dump with edits under distinct keys. -/
theorem foldl_editDump (edits : Assoc Key Value) (hnodup : (edits.map Prod.fst).Nodup)
    (data : Key → Option Value) (k : Key) :
    edits.foldl editDump data k =
      if k.isPlain = true ∧ (data k).isSome = true then (edits.get k).or (data k) else data k := by
  induction edits generalizing data with
  | nil => simp
  | cons e edits ih =>
    obtain ⟨x, v⟩ := e
    rw [List.map_cons, List.nodup_cons] at hnodup
    rw [List.foldl_cons, ih hnodup.2, editDump_apply, Assoc.get_cons]
    by_cases hcond : k.isPlain = true ∧ (data k).isSome = true
    · by_cases hk : k = x
      · have hnone : Assoc.get edits k = none := by
          rw [Option.eq_none_iff_forall_ne_some]
          intro w hw
          have hkey : k ∈ edits.map Prod.fst := List.mem_map.mpr ⟨(k, w), Assoc.mem_of_get hw, rfl⟩
          exact hnodup.1 (hk ▸ hkey)
        simp [hk, hk ▸ hcond, hk ▸ hnone]
      · simp [hk]
    · have hnot : ¬ (k = x ∧ k.isPlain = true ∧ (data k).isSome = true) := fun h => hcond h.2
      rw [if_neg hnot, if_neg hcond, if_neg hcond]

/-- The dump of a configuration that loads, with the edits in it. -/
def editedDump (S : Schema) (raw : Key → Option Value) (edits : Assoc Key Value) (k : Key) : Option Value :=
  if k ∈ S.fields then
    some (if k.isPlain = true then (edits.get k).getD (configOf S raw k) else configOf S raw k)
  else none

theorem foldl_editDump_dump (edits : Assoc Key Value) (hnodup : (edits.map Prod.fst).Nodup) :
    edits.foldl editDump (dump S (configOf S raw)) = editedDump S raw edits := by
  funext k
  rw [foldl_editDump edits hnodup]
  unfold dump editedDump
  by_cases hk : k ∈ S.fields
  · by_cases hplain : k.isPlain = true
    · cases hget : edits.get k with
      | none => simp [hk]
      | some v => simp [hk, hplain]
    · simp [hk, hplain]
  · simp [hk]

/-! ## The edits that take effect -/

/-- What the fields are given when some of the edits take effect. -/
def inEffect (takes : Key → Bool) (edits : Assoc Key Value) (raw : Key → Option Value) (k : Key) :
    Option Value :=
  if takes k then (edits.get k).or (raw k) else raw k

/-- No difference between the check and the next load hides a refusal. -/
structure NothingHidden (S : Schema) (takes : Key → Bool) (edits : Assoc Key Value)
    (raw : Key → Option Value) : Prop where
  /-- A field with a key of two dots accepts its new value. -/
  sub : ∀ sec subsec name v, edits.get (.sub sec subsec name) = some v →
    takes (.sub sec subsec name) = true → (S.check (.sub sec subsec name) v).isSome = true
  /-- No model is filled in for the old provider when the new one needs a model of its own. -/
  model : FillsModel (readable S (valueOf S raw) "llm".toList) → edits.get llmModel = none →
    takes llmProvider = true → ∀ v, edits.get llmProvider = some v →
    (S.check llmProvider v).getD v ∉ vendorProviders
  /-- Where only some of the edits of a section take effect, its validator accepts the values that do. -/
  mixed : ∀ sec k k', k.sectionOf = some sec → k'.sectionOf = some sec → k.isPlain = true →
    k'.isPlain = true → (edits.get k).isSome = true → (edits.get k').isSome = true → takes k = true →
    takes k' = false → SectionPasses S (inEffect takes edits raw) sec

variable {takes : Key → Bool} {edits : Assoc Key Value}

/-- The fields pass after the edits. -/
theorem fieldsPass_inEffect (hbase : FieldsPass S raw fun _ => True)
    (hclean : ∀ k v, edits.get k = some v → k.isPlain = true →
      FieldsPass S (editedDump S raw edits) fun k' => k'.head = k.head)
    (hhidden : NothingHidden S takes edits raw) :
    FieldsPass S (inEffect takes edits raw) fun _ => True := by
  intro k hk _ v hv
  unfold inEffect at hv
  cases htakes : takes k with
  | false =>
    rw [htakes] at hv
    exact hbase k hk trivial v hv
  | true =>
    rw [htakes, if_pos rfl] at hv
    cases hget : edits.get k with
    | none =>
      rw [hget] at hv
      exact hbase k hk trivial v hv
    | some w =>
      rw [hget] at hv
      cases hv
      by_cases hplain : k.isPlain = true
      · have hdata : editedDump S raw edits k = some v := by simp [editedDump, hk, hplain, hget]
        exact hclean k v hget hplain k hk rfl v hdata
      · cases k with
        | sub sec subsec name => exact hhidden.sub sec subsec name v hget htakes
        | top name => exact absurd rfl hplain
        | field sec name => exact absurd rfl hplain

/-- The value that the check validates for a field: the edit, or the value of the configuration. -/
theorem valueOf_editedDump {k : Key} (hk : k ∈ S.fields) (hplain : k.isPlain = true) :
    valueOf S (editedDump S raw edits) k =
      match edits.get k with
      | some v => (S.check k v).getD v
      | none => (S.check k (configOf S raw k)).getD (configOf S raw k) := by
  unfold valueOf editedDump
  rw [if_pos hk]
  simp only [if_pos hk, hplain, if_true]
  cases edits.get k <;> rfl

/-- The value of a field after the edits. -/
theorem valueOf_inEffect_of_takes {k : Key} (hk : k ∈ S.fields) (htakes : takes k = true) :
    valueOf S (inEffect takes edits raw) k =
      match edits.get k with
      | some v => (S.check k v).getD v
      | none => valueOf S raw k := by
  unfold valueOf inEffect
  rw [if_pos hk, if_pos hk, htakes, if_pos rfl]
  cases edits.get k <;> rfl

theorem valueOf_inEffect_of_get {k : Key} (h : edits.get k = none ∨ takes k = false) :
    valueOf S (inEffect takes edits raw) k = valueOf S raw k := by
  unfold valueOf inEffect
  rcases h with hget | htakes
  · rw [hget]
    simp
  · simp [htakes]

theorem valueOf_of_not_mem {k : Key} (hk : k ∉ S.fields) : valueOf S raw k = S.default k := if_neg hk

/-- A field whose edit takes effect, if it has one, and that nothing is filled in for, has the value that the
check validates. -/
theorem valueOf_inEffect_eq_editedDump {sec name : Text} (hbase : FieldsPass S raw fun _ => True)
    (htakes : (edits.get (.field sec name)).isSome = true → takes (.field sec name) = true)
    (h : (edits.get (.field sec name)).isSome = true ∨
      configOf S raw (.field sec name) = valueOf S raw (.field sec name)) :
    valueOf S (inEffect takes edits raw) (.field sec name) =
      valueOf S (editedDump S raw edits) (.field sec name) := by
  by_cases hk : Key.field sec name ∈ S.fields
  · rw [valueOf_editedDump hk rfl]
    cases hget : edits.get (.field sec name) with
    | some v =>
      rw [hget] at htakes
      rw [valueOf_inEffect_of_takes hk (htakes rfl), hget]
    | none =>
      rw [hget] at h
      have hcfg := h.resolve_left Bool.false_ne_true
      rw [valueOf_inEffect_of_get (.inl hget), hcfg]
      dsimp only
      rw [check_valueOf hk hbase]
      rfl
  · rw [valueOf_of_not_mem hk, valueOf_of_not_mem hk]

theorem readable_congr {sec name : Text}
    (h : valueOf S raw (.field sec name) = valueOf S raw' (.field sec name)) :
    readable S (valueOf S raw) sec name = readable S (valueOf S raw') sec name := by
  unfold readable
  rw [h]

theorem sectionPasses_llm_iff :
    SectionPasses S raw "llm".toList ↔
      ¬ (readable S (valueOf S raw) "llm".toList "model".toList = .str [] ∧
        readable S (valueOf S raw) "llm".toList "provider".toList ∈ vendorProviders) := by
  unfold SectionPasses afterSection
  rw [if_pos rfl, defaultModelForLitellm_isSome_iff]

/-- The section `llm` passes after edits of it that all take effect. -/
theorem llm_passes (hbase : FieldsPass S raw fun _ => True)
    (hfields : ∀ k v, edits.get k = some v → k ∈ S.fields)
    (htakes : ∀ name, (edits.get (.field "llm".toList name)).isSome = true →
      takes (.field "llm".toList name) = true)
    (hcheck : SectionPasses S (editedDump S raw edits) "llm".toList)
    (hmodel : FillsModel (readable S (valueOf S raw) "llm".toList) → edits.get llmModel = none →
      takes llmProvider = true → ∀ v, edits.get llmProvider = some v →
      (S.check llmProvider v).getD v ∉ vendorProviders) :
    SectionPasses S (inEffect takes edits raw) "llm".toList := by
  rw [sectionPasses_llm_iff] at hcheck ⊢
  rintro ⟨hm, hp⟩
  have hprovider : configOf S raw llmProvider = valueOf S raw llmProvider := by
    have hname : ¬ ("provider".toList = "model".toList ∧
        FillsModel (readable S (valueOf S raw) "llm".toList)) := fun h => absurd h.1 (by decide)
    have heq := @configOf_llm S raw "provider".toList
    rwa [if_neg hname] at heq
  by_cases hsame : (edits.get llmModel).isSome = true ∨
      ¬ FillsModel (readable S (valueOf S raw) "llm".toList)
  · -- the check has read the same provider and the same model
    have hconfig : (edits.get llmModel).isSome = true ∨ configOf S raw llmModel = valueOf S raw llmModel := by
      refine hsame.imp_right fun hfills => ?_
      have heq := @configOf_llm S raw "model".toList
      rwa [if_neg fun h => hfills h.2] at heq
    rw [readable_congr (valueOf_inEffect_eq_editedDump hbase (htakes _) hconfig)] at hm
    rw [readable_congr (valueOf_inEffect_eq_editedDump hbase (htakes _) (.inr hprovider))] at hp
    exact hcheck ⟨hm, hp⟩
  · rw [not_or, not_not] at hsame
    obtain ⟨hmodelNone, hfills⟩ := hsame
    have hget : edits.get llmModel = none := by simpa using hmodelNone
    cases hedit : edits.get llmProvider with
    | none =>
      rw [readable_congr (valueOf_inEffect_of_get (.inl hedit))] at hp
      exact litellm_not_vendor hfills.2 hp
    | some v =>
      have htake : takes llmProvider = true := htakes _ (by rw [← llmProvider, hedit]; rfl)
      unfold readable at hp
      split_ifs at hp with hsecret
      · exact absurd hp (by decide)
      · rw [← llmProvider, valueOf_inEffect_of_takes (hfields _ v hedit) htake, hedit] at hp
        exact hmodel hfills hget htake v hedit hp

/-- The configuration passes after edits that the check lets through and that hide no refusal. -/
theorem errorLocs_inEffect (hload : errorLocs S raw = [])
    (hfields : ∀ k v, edits.get k = some v → k ∈ S.fields)
    (hclean : ∀ k v, edits.get k = some v → k.isPlain = true →
      k.head ∉ errorLocs S (editedDump S raw edits))
    (hhidden : NothingHidden S takes edits raw) : errorLocs S (inEffect takes edits raw) = [] := by
  obtain ⟨hbase, hsections⟩ := errorLocs_eq_nil_iff.mp hload
  have hpass : ∀ k v, edits.get k = some v → k.isPlain = true →
      FieldsPass S (editedDump S raw edits) (fun k' => k'.head = k.head) ∧
        (k.head ∈ S.sections → SectionPasses S (editedDump S raw edits) k.head) :=
    fun k v hget hplain => passes_of_not_mem_errorLocs (hclean k v hget hplain)
  refine errorLocs_eq_nil_iff.mpr
    ⟨fieldsPass_inEffect hbase (fun k v hget hplain => (hpass k v hget hplain).1) hhidden, ?_⟩
  intro sec hsec
  by_cases htaken : ∃ name, (edits.get (.field sec name)).isSome = true ∧ takes (.field sec name) = true
  · obtain ⟨name, hname, htake⟩ := htaken
    by_cases hall : ∀ name', (edits.get (.field sec name')).isSome = true → takes (.field sec name') = true
    · -- every edit of the section takes effect, and the check has validated the section
      obtain ⟨v, hv⟩ := Option.isSome_iff_exists.mp hname
      have hcheck : SectionPasses S (editedDump S raw edits) sec := (hpass _ v hv rfl).2 hsec
      by_cases hllm : sec = "llm".toList
      · subst hllm
        exact llm_passes hbase hfields hall hcheck hhidden.model
      · by_cases hquota : sec = "coderabbit_quota".toList
        · unfold SectionPasses afterSection
          rw [if_neg hllm, if_pos hquota]
          rfl
        · rw [sectionPasses_congr fun name' =>
            valueOf_inEffect_eq_editedDump hbase (hall name') (.inr (configOf_of_ne hllm hquota))]
          exact hcheck
    · push Not at hall
      obtain ⟨name', hname', htake'⟩ := hall
      have hfalse : takes (.field sec name') = false := by simpa using htake'
      exact hhidden.mixed sec _ _ rfl rfl rfl rfl hname hname' htake hfalse
  · -- no edit of the section takes effect
    have hsame : ∀ name, valueOf S (inEffect takes edits raw) (.field sec name) =
        valueOf S raw (.field sec name) := by
      intro name
      refine valueOf_inEffect_of_get ?_
      by_contra h
      rw [not_or] at h
      refine htaken ⟨name, ?_, by simpa using h.2⟩
      exact Option.isSome_iff_ne_none.mpr h.1
    rw [sectionPasses_congr hsame]
    exact hsections sec hsec

/-! ## What a call stores -/

variable {w : Writes}

/-- The edit of a key takes effect at the next load: no variable overrides the field, and what is written is not
behind a value that wins over it. -/
def takesEffect (S : Schema) (st : Stored) (w : Writes) (k : Key) : Bool :=
  (S.env k).isNone && (w.dbWrites || ((st.db.get k).isNone && (st.project.get k).isNone))

theorem metaOf_mem {key : Key} {m : SettingMeta} (h : S.metaOf key = some m) : m ∈ S.metas ∧ m.key = key :=
  ⟨List.mem_of_find?_eq_some h, by simpa using List.find?_some h⟩

theorem metaOf_mem_fields {key : Key} {m : SettingMeta} (h : S.metaOf key = some m) : key ∈ S.fields := by
  obtain ⟨hmem, rfl⟩ := metaOf_mem h
  exact S.metas_fields m hmem

/-- What is given to a field after its row is written. -/
theorem effective_saveDb (key k : Key) (v : Value) :
    effective S (saveDb st key v) k =
      if k = key ∧ (S.env k).isNone = true then some v else effective S st k := by
  unfold effective saveDb
  rw [Assoc.get_set]
  cases henv : S.env k with
  | some e => simp
  | none =>
    by_cases hk : k = key
    · simp [hk]
    · simp [hk]

theorem effective_saveOne (key : Key) (v : Value) (hok : (w.dbWrites || w.tomlWrites key) = true) :
    effective S (saveOne w st key v).2 = inEffect (takesEffect S st w) [(key, v)] (effective S st) := by
  funext k
  have hget : Assoc.get [(key, v)] k = if k = key then some v else none := Assoc.get_cons [] k key v
  unfold saveOne inEffect takesEffect
  rw [if_pos hok, hget]
  by_cases hk : k = key
  · subst hk
    cases henv : S.env k with
    | some e =>
      cases w.dbWrites <;> cases w.tomlWrites k <;> simp [effective, saveDb, saveToml, henv]
    | none =>
      cases hdb : w.dbWrites with
      | true => cases w.tomlWrites k <;> simp [effective, saveDb, saveToml, henv, Assoc.get_set]
      | false =>
        have htoml : w.tomlWrites k = true := by rwa [hdb] at hok
        cases hrow : st.db.get k with
        | some r => simp [effective, saveToml, henv, hrow, htoml]
        | none =>
          cases hproject : st.project.get k with
          | some r => simp [effective, saveToml, henv, hrow, hproject, htoml]
          | none => simp [effective, saveToml, henv, hrow, hproject, htoml, Assoc.get_set]
  · cases w.dbWrites <;> cases w.tomlWrites key <;> simp [effective, saveDb, saveToml, Assoc.get_set, hk]

/-- The writes of several rows. -/
theorem foldl_saveDb (edits : Assoc Key Value) (st : Stored) :
    edits.foldl (fun st e => saveDb st e.1 e.2) st =
      { st with db := edits.foldl (fun m e => m.set e.1 e.2) st.db } := by
  induction edits generalizing st with
  | nil => rfl
  | cons e edits ih =>
    rw [List.foldl_cons, ih]
    rfl

/-- The writes of the file leave the database, the table `project` and the other keys alone. -/
theorem foldl_saveToml (edits : Assoc Key Value) (st : Stored) :
    let st' := edits.foldl (fun st e => if w.tomlWrites e.1 then saveToml st e.1 e.2 else st) st
    st'.db = st.db ∧ st'.project = st.project ∧
      ∀ k, k ∉ edits.map Prod.fst → st'.toml.get k = st.toml.get k := by
  induction edits generalizing st with
  | nil => exact ⟨rfl, rfl, fun k _ => rfl⟩
  | cons e edits ih =>
    obtain ⟨hdb, hproject, htoml⟩ := ih (if w.tomlWrites e.1 then saveToml st e.1 e.2 else st)
    rw [List.foldl_cons]
    refine ⟨?_, ?_, ?_⟩
    · rw [hdb]
      split_ifs <;> rfl
    · rw [hproject]
      split_ifs <;> rfl
    · intro k hk
      rw [List.map_cons, List.mem_cons, not_or] at hk
      rw [htoml k hk.2]
      split_ifs
      · unfold saveToml
        rw [Assoc.get_set, if_neg hk.1]
      · rfl

theorem effective_saveMany (edits : Assoc Key Value) (hnodup : (edits.map Prod.fst).Nodup)
    (hdb : w.dbWrites = true) :
    effective S (edits.foldl (fun st e => if w.tomlWrites e.1 then saveToml st e.1 e.2 else st)
        (edits.foldl (fun st e => saveDb st e.1 e.2) st)) =
      inEffect (takesEffect S st w) edits (effective S st) := by
  funext k
  rw [foldl_saveDb]
  obtain ⟨hdb', hproject, htoml⟩ := @foldl_saveToml w edits
    { st with db := edits.foldl (fun m e => m.set e.1 e.2) st.db }
  unfold effective inEffect takesEffect
  dsimp only
  rw [hdb', hproject, Assoc.get_foldl_set edits st.db hnodup]
  cases henv : S.env k with
  | some e => simp
  | none =>
    cases hget : edits.get k with
    | some v => simp [hdb]
    | none =>
      have hk : k ∉ edits.map Prod.fst := by
        intro hmem
        obtain ⟨⟨k', v⟩, he, rfl⟩ := List.mem_map.mp hmem
        have hsome := (Assoc.mem_iff_get hnodup).mp he
        rw [hget] at hsome
        cases hsome
      rw [htoml k hk]
      simp

/-! ## What the check lets through -/

theorem loadConfig_of_loads (h : Loads S st) : loadConfig S st = .ok (configOf S (effective S st)) := by
  unfold loadConfig validate
  rw [if_pos (List.isEmpty_iff.mpr (loads_iff.mp h))]

/-- The check of several edits finds no error in the section of any of them. -/
theorem not_mem_errorLocs_of_refusesMany (hload : Loads S st) (hnodup : (edits.map Prod.fst).Nodup)
    (h : refusesMany S st edits = false) {k : Key} {v : Value} (hget : edits.get k = some v) :
    k.head ∉ errorLocs S (editedDump S (effective S st) edits) := by
  unfold refusesMany at h
  rw [loadConfig_of_loads hload] at h
  dsimp only at h
  rw [foldl_editDump_dump edits hnodup] at h
  unfold validate at h
  split_ifs at h with hnil
  · rw [List.isEmpty_iff.mp hnil]
    exact List.not_mem_nil
  · intro hmem
    have hedited : k.head ∈ edits.map fun e => e.1.head := List.mem_map.mpr ⟨(k, v), Assoc.mem_of_get hget, rfl⟩
    have hany := List.any_eq_false.mp h k.head hmem
    exact hany (List.contains_iff_mem.mpr hedited)

theorem contains_eq_any (locs : List Text) (loc : Text) :
    locs.contains loc = locs.any fun l => [loc].contains l := by
  rw [Bool.eq_iff_iff]
  simp

/-- The check of one edit is the check of several with only that one, unless the key has two dots. -/
theorem refuses_of_isPlain {key : Key} {v : Value} (hload : Loads S st) (hplain : key.isPlain = true)
    (hmem : key ∈ S.fields) : refuses S st key v = refusesMany S st [(key, v)] := by
  have hdump : (dump S (configOf S (effective S st)) key).isSome = true := by
    unfold dump
    rw [if_pos hmem]
    rfl
  unfold refuses refusesMany
  rw [loadConfig_of_loads hload]
  dsimp only
  rw [List.foldl_cons, List.foldl_nil]
  cases key with
  | sub sec subsec name => cases hplain
  | top name =>
    dsimp only
    rw [if_pos hdump]
    cases validate S (editDump (dump S (configOf S (effective S st))) (.top name, v)) with
    | ok c => rfl
    | error locs => exact contains_eq_any locs _
  | field sec name =>
    dsimp only
    rw [if_pos hdump]
    cases validate S (editDump (dump S (configOf S (effective S st))) (.field sec name, v)) with
    | ok c => rfl
    | error locs => exact contains_eq_any locs _

/-! ## Calls -/

/-- The values that a call submits, cast, unless it is refused for one of them alone. A secret is not among
them: any text will do. -/
def submitted (S : Schema) : Call → Assoc Key Value
  | .update w key value =>
    match S.metaOf key with
    | none => []
    | some m =>
      if m.valueType = .secret ∨ refusesType m value = true then []
      else [(key, castValue w.json value m.valueType)]
  | .updateMany w updates =>
    match castMany S w updates [] with
    | .error _ => []
    | .ok casted => casted

def Call.writes : Call → Writes
  | .update w _ _ => w
  | .updateMany w _ => w

/-- The check of a call hides no refusal. -/
def HidesNothing (S : Schema) (st : Stored) (call : Call) : Prop :=
  NothingHidden S (takesEffect S st call.writes) (submitted S call) (effective S st)

/-- The submitted values are under distinct keys, and these are fields. -/
theorem castMany_spec {updates : List (Key × Text)} {casted casted' : Assoc Key Value}
    (h : castMany S w updates casted = .ok casted') (hnodup : (casted.map Prod.fst).Nodup)
    (hfields : ∀ k ∈ casted.map Prod.fst, k ∈ S.fields) :
    (casted'.map Prod.fst).Nodup ∧ ∀ k ∈ casted'.map Prod.fst, k ∈ S.fields := by
  induction updates generalizing casted with
  | nil =>
    cases h
    exact ⟨hnodup, hfields⟩
  | cons e updates ih =>
    obtain ⟨key, value⟩ := e
    unfold castMany at h
    cases hmeta : S.metaOf key with
    | none =>
      rw [hmeta] at h
      cases h
    | some m =>
      rw [hmeta] at h
      dsimp only at h
      split_ifs at h
      refine ih h (Assoc.nodup_keys_set hnodup key _) fun k hk => ?_
      rcases Assoc.mem_keys_set hk with rfl | hk
      · exact metaOf_mem_fields hmeta
      · exact hfields k hk

/-- A secret can be any text. -/
theorem loads_saveDb_secret {key : Key} {m : SettingMeta} (hload : Loads S st) (hmeta : S.metaOf key = some m)
    (hsecret : m.valueType = .secret) (t : Text) : Loads S (saveDb st key (.str t)) := by
  obtain ⟨hmem, rfl⟩ := metaOf_mem hmeta
  obtain ⟨hfields, hsections⟩ := errorLocs_eq_nil_iff.mp (loads_iff.mp hload)
  have hmask : S.isSecret m.key = true :=
    List.any_eq_true.mpr ⟨m, hmem, by simp [hsecret]⟩
  refine loads_iff.mpr (errorLocs_eq_nil_iff.mpr ⟨?_, ?_⟩)
  · intro k hk _ v hv
    rw [effective_saveDb] at hv
    split_ifs at hv with hcond
    · cases hv
      rw [hcond.1, S.check_secret m hmem hsecret t]
      rfl
    · exact hfields k hk trivial v hv
  · intro sec hsec
    have hread : readable S (valueOf S (effective S (saveDb st m.key (.str t)))) sec =
        readable S (valueOf S (effective S st)) sec := by
      funext name
      unfold readable
      split_ifs with hsec'
      · rfl
      · have hne : Key.field sec name ≠ m.key := by
          intro heq
          rw [heq] at hsec'
          exact hsec' hmask
        have hsame : effective S (saveDb st m.key (.str t)) (.field sec name) = effective S st (.field sec name) := by
          rw [effective_saveDb, if_neg fun h => hne h.1]
        unfold valueOf
        rw [hsame]
    have hpass := hsections sec hsec
    unfold SectionPasses at hpass ⊢
    rwa [hread]

theorem submitted_update {key : Key} {value : Text} {m : SettingMeta} (hmeta : S.metaOf key = some m)
    (hsecret : m.valueType ≠ .secret) (htype : refusesType m value ≠ true) :
    submitted S (.update w key value) = [(key, castValue w.json value m.valueType)] := by
  unfold submitted
  dsimp only
  rw [hmeta]
  dsimp only
  rw [if_neg]
  rintro (h | h)
  · exact hsecret h
  · exact htype h

/-- A saved value that passed the check. -/
theorem loads_saveOne {key : Key} {v : Value} (hload : Loads S st) (hmem : key ∈ S.fields)
    (hrefused : refuses S st key v = false)
    (hhides : NothingHidden S (takesEffect S st w) [(key, v)] (effective S st)) :
    Loads S (saveOne w st key v).2 := by
  have hget : ∀ k v', Assoc.get [(key, v)] k = some v' → k = key := by
    intro k v' hv
    rw [Assoc.get_cons] at hv
    split_ifs at hv with hk
    · exact hk
    · cases hv
  by_cases hok : (w.dbWrites || w.tomlWrites key) = true
  · refine loads_iff.mpr ?_
    rw [effective_saveOne key v hok]
    refine errorLocs_inEffect (loads_iff.mp hload) (fun k v' hv => hget k v' hv ▸ hmem) ?_ hhides
    intro k v' hv hplain
    have hmany : refusesMany S st [(key, v)] = false := by
      rw [← refuses_of_isPlain hload (hget k v' hv ▸ hplain) hmem]
      exact hrefused
    have hnodup : (([(key, v)] : Assoc Key Value).map Prod.fst).Nodup := List.nodup_singleton key
    exact not_mem_errorLocs_of_refusesMany hload hnodup hmany hv
  · unfold saveOne
    rw [if_neg hok]
    exact hload

theorem loads_updateConfig {key : Key} {value : Text} (hload : Loads S st)
    (hhides : HidesNothing S st (.update w key value)) : Loads S (updateConfig S w st key value).2 := by
  unfold updateConfig
  cases hmeta : S.metaOf key with
  | none => exact hload
  | some m =>
    dsimp only
    split_ifs with hmask htype hunreadable hrefused hsecret
    · exact hload
    · exact hload
    · exact hload
    · exact hload
    · unfold saveSecret
      cases secretRow w key value with
      | none => exact hload
      | some row =>
        dsimp only
        split_ifs
        · exact loads_saveDb_secret hload hmeta hsecret row
        · exact hload
    · unfold HidesNothing at hhides
      rw [submitted_update hmeta hsecret htype] at hhides
      exact loads_saveOne hload (metaOf_mem_fields hmeta) (by simpa using hrefused) hhides

theorem loads_updateConfigMany {updates : List (Key × Text)} (hload : Loads S st)
    (hhides : HidesNothing S st (.updateMany w updates)) : Loads S (updateConfigMany S w st updates).2 := by
  unfold updateConfigMany
  cases hcast : castMany S w updates [] with
  | error result => exact hload
  | ok casted =>
    have hsubmitted : submitted S (.updateMany w updates) = casted := by
      unfold submitted
      dsimp only
      rw [hcast]
    unfold HidesNothing at hhides
    rw [hsubmitted] at hhides
    obtain ⟨hnodup, hfields⟩ := castMany_spec hcast List.nodup_nil fun k hk => absurd hk List.not_mem_nil
    dsimp only
    split_ifs with hunreadable hrefused hdb
    · exact hload
    · exact hload
    · exact hload
    · refine loads_iff.mpr ?_
      rw [effective_saveMany casted hnodup (by simpa using hdb)]
      refine errorLocs_inEffect (loads_iff.mp hload) ?_ ?_ hhides
      · exact fun k v hv => hfields k (List.mem_map.mpr ⟨(k, v), Assoc.mem_of_get hv, rfl⟩)
      · exact fun k v hv _ => not_mem_errorLocs_of_refusesMany hload hnodup (by simpa using hrefused) hv

/-- A call that hides no refusal keeps the configuration loadable. -/
theorem loads_perform {call : Call} (hload : Loads S st) (hhides : HidesNothing S st call) :
    Loads S (perform S st call).2 := by
  cases call with
  | update w key value => exact loads_updateConfig hload hhides
  | updateMany w updates => exact loads_updateConfigMany hload hhides

/-- A configuration that loads goes on loading through every sequence of saves whose checks hide no refusal. -/
theorem settings_keep_loading (S : Schema) {st t : Stored} {calls : List Call} (h0 : Loads S st)
    (hmeets : Runs.Meets (step S) (HidesNothing S) st calls) (h : Runs.exec (step S) st calls = some t) :
    Loads S t := by
  refine Runs.invariant_of_guard ?_ h0 hmeets h
  intro s call s' hs hhides hstep
  cases hstep
  exact loads_perform hs hhides

/-! ## A project -/

/-- `external_reviews.sonarcloud.project_key`. -/
def projectKey : Key := .sub "external_reviews".toList "sonarcloud".toList "project_key".toList

def providerOptions : List Text :=
  ["claude-code".toList, "litellm".toList, "hybrid".toList, "anthropic".toList, "openai".toList, "ollama".toList,
    "vertex".toList]

/-- A field of text, which for the provider is one of the options. -/
def checkText (k : Key) : Value → Option Value
  | .str t => if k = llmProvider → t ∈ providerOptions then some (.str t) else none
  | _ => none

theorem checkText_eq_some {k : Key} {v v' : Value} (h : checkText k v = some v') : v' = v := by
  cases v with
  | str t =>
    unfold checkText at h
    dsimp only at h
    split_ifs at h
    cases h
    rfl
  | _ => cases h

/-- The provider and the model of the section `llm`, and the project key of SonarCloud. -/
def projectSchema : Schema where
  fields := [llmProvider, llmModel, projectKey]
  metas := [⟨llmProvider, .select, providerOptions⟩, ⟨llmModel, .string, []⟩, ⟨projectKey, .string, []⟩]
  check := checkText
  default k := .str (if k = llmProvider then "claude-code".toList else [])
  accepts _ _ := true
  env _ := none
  metas_fields := by decide
  check_idem h := by
    have heq := checkText_eq_some h
    rwa [← heq] at h
  check_default k := by
    by_cases hk : k = llmProvider
    · subst hk
      decide
    · simp [checkText, hk]
  check_litellmModel := by decide
  check_secret m hm hsecret := by
    simp only [List.mem_cons, List.not_mem_nil, or_false] at hm
    rcases hm with rfl | rfl | rfl <;> cases hsecret

/-- Where every value is stored in the database, nothing is hidden by a call that names the model whenever it names
the provider, and whose values for keys of two dots are accepted. -/
theorem hidesNothing_projectSchema {call : Call} (hdb : call.writes.dbWrites = true)
    (hsub : ∀ e ∈ submitted projectSchema call, e.1.isPlain = true ∨ (checkText e.1 e.2).isSome = true)
    (hmodel : (submitted projectSchema call).get llmProvider = none ∨
      ((submitted projectSchema call).get llmModel).isSome = true) : HidesNothing projectSchema st call := by
  have htakes : ∀ k, takesEffect projectSchema st call.writes k = true := by
    intro k
    unfold takesEffect
    rw [hdb]
    rfl
  refine ⟨?_, ?_, ?_⟩
  · intro sec subsec name v hget _
    exact (hsub _ (Assoc.mem_of_get hget)).resolve_left Bool.false_ne_true
  · intro _ hnone _ v hget
    rcases hmodel with hprovider | hnamed
    · rw [hprovider] at hget
      cases hget
    · rw [hnone] at hnamed
      cases hnamed
  · intro sec k k' _ _ _ _ _ _ _ hfalse
    rw [htakes k'] at hfalse
    cases hfalse

/-- The project key, the provider and its model, as they are saved. -/
def savedProject : Assoc Key Value :=
  [(projectKey, .str "org_repo".toList), (llmProvider, .str "openai".toList), (llmModel, .str "gpt-5".toList)]

def savingCalls : List Call :=
  [.update {} projectKey "org_repo".toList,
    .updateMany {} [(llmProvider, "openai".toList), (llmModel, "gpt-5".toList)]]

/-- A project key, and then a provider with its model, are saved and load. -/
theorem settings_load_with_project_key :
    Runs.exec (step projectSchema) {} savingCalls = some { db := savedProject, toml := savedProject } ∧
      Loads projectSchema { db := savedProject, toml := savedProject } := by
  have hload : Loads projectSchema {} := by decide +kernel
  have hexec : Runs.exec (step projectSchema) {} savingCalls =
      some { db := savedProject, toml := savedProject } := rfl
  refine ⟨hexec, settings_keep_loading projectSchema hload ?_ hexec⟩
  refine ⟨hidesNothing_projectSchema rfl (by decide +kernel) (by decide +kernel), ?_⟩
  rintro s' -
  refine ⟨hidesNothing_projectSchema rfl (by decide +kernel) (by decide +kernel), ?_⟩
  rintro s' -
  trivial

/-- A project key of digits alone is saved as a number, which the next load refuses; and so is a provider for
which a model has to be named, when the model of the old one was filled in. -/
theorem saved_settings_break_load :
    (Loads projectSchema {} ∧
      (updateConfig projectSchema {} {} projectKey "123".toList).1 = .ok ∧
      ¬ Loads projectSchema (updateConfig projectSchema {} {} projectKey "123".toList).2) ∧
    (Loads projectSchema { db := [(llmProvider, .str "litellm".toList)] } ∧
      (updateConfig projectSchema {} { db := [(llmProvider, .str "litellm".toList)] } llmProvider
        "openai".toList).1 = .ok ∧
      ¬ Loads projectSchema (updateConfig projectSchema {} { db := [(llmProvider, .str "litellm".toList)] }
        llmProvider "openai".toList).2) := by
  decide +kernel

end Settings
