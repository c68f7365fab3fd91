import SovaVerified.Config.EnvOverrides
import SovaVerified.Json.Access

/-!
# Which value is in force

One variable names a field for which a value is stored, and no variable names a section around the field. In
a section the variable comes before the stored value when it is not empty. On the top level it is put in the
place of the stored value in any case, as the text that it is.
-/

namespace Config.EnvOverrides

open Json

/-! ## Letters of ASCII -/

theorem ascii_cases {c : Char} (h : c.toNat < 128) :
    Text.upper (Text.lowerChar c) = Text.upperChar c ∧ Text.lower (Text.upperChar c) = Text.lowerChar c ∧
      Text.upper (Text.upperChar c) = Text.upperChar c := by
  have hall : ∀ n < 128, Text.upper (Text.lowerChar (Char.ofNat n)) = Text.upperChar (Char.ofNat n) ∧
      Text.lower (Text.upperChar (Char.ofNat n)) = Text.lowerChar (Char.ofNat n) ∧
      Text.upper (Text.upperChar (Char.ofNat n)) = Text.upperChar (Char.ofNat n) := by decide
  have hc := hall c.toNat h
  rwa [Char.ofNat_toNat] at hc

variable {s t : Text}

theorem upper_append (s t : Text) : Text.upper (s ++ t) = Text.upper s ++ Text.upper t :=
  List.flatMap_append

theorem lower_append (s t : Text) : Text.lower (s ++ t) = Text.lower s ++ Text.lower t :=
  List.flatMap_append

theorem ascii_cons {c : Char} (h : isAscii (c :: t) = true) : c.toNat < 128 ∧ isAscii t = true := by
  unfold isAscii at h ⊢
  rw [List.all_cons, Bool.and_eq_true, decide_eq_true_iff] at h
  exact h

theorem upper_lower (h : isAscii t = true) : Text.upper (Text.lower t) = Text.upper t := by
  induction t with
  | nil => rfl
  | cons c t ih =>
    obtain ⟨hc, ht⟩ := ascii_cons h
    show Text.upper (Text.lowerChar c ++ Text.lower t) = Text.upperChar c ++ Text.upper t
    rw [upper_append, ih ht, (ascii_cases hc).1]

theorem lower_upper (h : isAscii t = true) : Text.lower (Text.upper t) = Text.lower t := by
  induction t with
  | nil => rfl
  | cons c t ih =>
    obtain ⟨hc, ht⟩ := ascii_cons h
    show Text.lower (Text.upperChar c ++ Text.upper t) = Text.lowerChar c ++ Text.lower t
    rw [lower_append, ih ht, (ascii_cases hc).2.1]

theorem upper_upper (h : isAscii t = true) : Text.upper (Text.upper t) = Text.upper t := by
  induction t with
  | nil => rfl
  | cons c t ih =>
    obtain ⟨hc, ht⟩ := ascii_cons h
    show Text.upper (Text.upperChar c ++ Text.upper t) = Text.upperChar c ++ Text.upper t
    rw [upper_append, ih ht, (ascii_cases hc).2.2]

/-- Two names are the same in capital letters exactly when they are in small ones. -/
theorem upper_eq_iff (hs : isAscii s = true) (ht : isAscii t = true) :
    Text.upper s = Text.upper t ↔ Text.lower s = Text.lower t := by
  constructor
  · intro h
    rw [← lower_upper hs, ← lower_upper ht, h]
  · intro h
    rw [← upper_lower hs, ← upper_lower ht, h]

theorem isAscii_append : isAscii (s ++ t) = true ↔ isAscii s = true ∧ isAscii t = true := by
  unfold isAscii
  rw [List.all_append, Bool.and_eq_true]

theorem fieldName_char {c : Char} (h : (('a' ≤ c && c ≤ 'z') || c.isDigit || c == '_') = true) :
    c.toNat < 128 ∧ Text.lowerChar c = [c] := by
  have hnat : c.toNat < 128 := by
    simp only [Bool.or_eq_true, Bool.and_eq_true, decide_eq_true_eq, beq_iff_eq, Char.isDigit] at h
    rcases h with (⟨-, hz⟩ | ⟨-, hd⟩) | rfl
    · exact lt_of_le_of_lt (UInt32.le_iff_toNat_le.mp hz) (by decide)
    · exact lt_of_le_of_lt (UInt32.le_iff_toNat_le.mp hd) (by decide)
    · decide
  have hall : ∀ n < 128, ((('a' ≤ Char.ofNat n && Char.ofNat n ≤ 'z') || (Char.ofNat n).isDigit ||
      Char.ofNat n == '_') = true) → Text.lowerChar (Char.ofNat n) = [Char.ofNat n] := by decide
  have hc := hall c.toNat hnat
  rw [Char.ofNat_toNat] at hc
  exact ⟨hnat, hc h⟩

theorem fieldName_spec (h : isFieldName t = true) : isAscii t = true ∧ Text.lower t = t := by
  induction t with
  | nil => exact ⟨rfl, rfl⟩
  | cons c t ih =>
    unfold isFieldName at h
    rw [List.all_cons, Bool.and_eq_true] at h
    obtain ⟨hnat, hlower⟩ := fieldName_char h.1
    obtain ⟨hascii, hsame⟩ := ih h.2
    constructor
    · unfold isAscii at hascii ⊢
      rw [List.all_cons, Bool.and_eq_true, decide_eq_true_iff]
      exact ⟨hnat, hascii⟩
    · show Text.lowerChar c ++ Text.lower t = c :: t
      rw [hlower, hsame, List.singleton_append]

/-! ## The fields -/

/-- The names are names of Python in small letters, no two fields of a class have the same, and the prefixes
are ASCII. -/
def Fields.Proper : Fields → Prop
  | .nil => True
  | .value name _ rest => isFieldName name = true ∧ name ∉ rest.names ∧ rest.Proper
  | .nested name envPrefix fields rest =>
    isFieldName name = true ∧ isAscii envPrefix = true ∧ fields.Proper ∧ name ∉ rest.names ∧ rest.Proper

variable {fields : Fields} {keys : List Text} {stored members : Assoc Text Json} {f name : Text}
  {env : Environ} {complex : Bool} {inner model : SettingsModel}

theorem mem_names_of_declared {d : Declared} (h : fields.declared f = some d) : f ∈ fields.names := by
  induction fields with
  | nil => cases h
  | value name complex rest ih =>
    rw [Fields.declared] at h
    split_ifs at h with hf
    · exact hf ▸ List.mem_cons_self
    · exact List.mem_cons_of_mem _ (ih h)
  | nested name envPrefix inner rest _ ih =>
    rw [Fields.declared] at h
    split_ifs at h with hf
    · exact hf ▸ List.mem_cons_self
    · exact List.mem_cons_of_mem _ (ih h)

theorem proper_declared (hproper : fields.Proper) {d : Declared} (h : fields.declared f = some d) :
    isFieldName f = true ∧
      ∀ inner, d = .nested inner → isAscii inner.envPrefix = true ∧ inner.fields.Proper := by
  induction fields with
  | nil => cases h
  | value name complex rest ih =>
    obtain ⟨hname, -, hrest⟩ := hproper
    rw [Fields.declared] at h
    split_ifs at h with hf
    · cases h
      refine ⟨hf ▸ hname, ?_⟩
      rintro inner ⟨⟩
    · exact ih hrest h
  | nested name envPrefix inner rest _ ih =>
    obtain ⟨hname, hascii, hinner, -, hrest⟩ := hproper
    rw [Fields.declared] at h
    split_ifs at h with hf
    · cases h
      refine ⟨hf ▸ hname, ?_⟩
      rintro _ ⟨⟩
      exact ⟨hascii, hinner⟩
    · exact ih hrest h

/-- What a class gets of the dict that is stored for its section. -/
def handled (model : SettingsModel) (envKeys : List Text) (members : Assoc Text Json) : Assoc Text Json :=
  dropEnvShadowed model.fields envKeys <|
    members.filter fun e => !envKeys.contains (Text.upper (Text.upper model.envPrefix ++ e.1))

theorem get_dropEnvShadowed_of_notMem (h : f ∉ fields.names) :
    Assoc.get (dropEnvShadowed fields keys stored) f = Assoc.get stored f := by
  induction fields generalizing stored with
  | nil => rfl
  | value name complex rest ih => exact ih fun hmem => h (List.mem_cons_of_mem _ hmem)
  | nested name envPrefix inner rest _ ih =>
    have hne : f ≠ name := fun heq => h (heq ▸ List.mem_cons_self)
    rw [dropEnvShadowed, ih fun hmem => h (List.mem_cons_of_mem _ hmem)]
    split
    · rw [Assoc.get_set, if_neg hne]
    · rfl

theorem get_dropEnvShadowed_value (hproper : fields.Proper)
    (h : fields.declared f = some (.value complex)) :
    Assoc.get (dropEnvShadowed fields keys stored) f = Assoc.get stored f := by
  induction fields generalizing stored with
  | nil => rfl
  | value name c rest ih =>
    obtain ⟨-, hfresh, hrest⟩ := hproper
    rw [dropEnvShadowed]
    rw [Fields.declared] at h
    split_ifs at h with hf
    · exact get_dropEnvShadowed_of_notMem (hf ▸ hfresh)
    · exact ih hrest h
  | nested name envPrefix inner rest _ ih =>
    obtain ⟨-, -, -, -, hrest⟩ := hproper
    rw [Fields.declared] at h
    split_ifs at h with hf
    · cases h
    · rw [dropEnvShadowed, ih hrest h]
      split
      · rw [Assoc.get_set, if_neg hf]
      · rfl

theorem get_dropEnvShadowed_nested (hproper : fields.Proper)
    (h : fields.declared f = some (.nested inner)) (hget : Assoc.get stored f = some (.obj members)) :
    Assoc.get (dropEnvShadowed fields keys stored) f = some (.obj (handled inner keys members)) := by
  induction fields generalizing stored with
  | nil => cases h
  | value name c rest ih =>
    obtain ⟨-, -, hrest⟩ := hproper
    rw [Fields.declared] at h
    split_ifs at h with hf
    · cases h
    · exact ih hrest h hget
  | nested name envPrefix nestedFields rest _ ih =>
    obtain ⟨-, -, -, hfresh, hrest⟩ := hproper
    rw [Fields.declared] at h
    split_ifs at h with hf
    · cases h
      subst hf
      rw [dropEnvShadowed, get_dropEnvShadowed_of_notMem hfresh, hget]
      exact (Assoc.get_set _ _ _ _).trans (if_pos rfl)
    · rw [dropEnvShadowed]
      refine ih hrest h ?_
      split
      · rw [Assoc.get_set, if_neg hf]
        exact hget
      · exact hget

/-! ## The variables -/

variable {e : EnvName × Text}

theorem mem_setKeys_iff {key : Text} :
    key ∈ setKeys env ↔ ∃ e ∈ env, e.2 ≠ [] ∧ Text.upper e.1.1 = key := by
  unfold setKeys
  simp only [List.mem_map, List.mem_filter, decide_eq_true_eq, and_assoc]

theorem mem_named_iff : e ∈ named env name ↔ e ∈ env ∧ Text.upper e.1.1 = Text.upper name := by
  unfold named
  rw [List.mem_filter, decide_eq_true_iff]

/-- A stored field is dropped when the variable that names it is not empty. -/
theorem contains_setKeys (hcaps : isAscii model.envPrefix = true) :
    (setKeys env).contains (Text.upper (Text.upper model.envPrefix ++ f)) = true ↔
      ∃ e ∈ named env (model.envPrefix ++ f), e.2 ≠ [] := by
  rw [List.contains_iff_mem, mem_setKeys_iff, upper_append, upper_upper hcaps, ← upper_append]
  constructor
  · rintro ⟨e, he, hset, hname⟩
    exact ⟨e, mem_named_iff.mpr ⟨he, hname⟩, hset⟩
  · rintro ⟨e, he, hset⟩
    obtain ⟨hmem, hname⟩ := mem_named_iff.mp he
    exact ⟨e, hmem, hset, hname⟩

/-- What the loader lets pass of a section, where one variable or none has the name. -/
theorem get_filter_shadowed (hcaps : isAscii model.envPrefix = true) :
    Assoc.get (members.filter fun e =>
        !(setKeys env).contains (Text.upper (Text.upper model.envPrefix ++ e.1))) f =
      if ∃ e ∈ named env (model.envPrefix ++ f), e.2 ≠ [] then none else Assoc.get members f := by
  have hcontains : (setKeys env).contains (Text.upper (Text.upper model.envPrefix ++ f)) = true ↔ _ :=
    contains_setKeys hcaps
  split_ifs with hset
  · have hout := hcontains.mpr hset
    refine Assoc.get_filter_key_eq_none members (q := fun key =>
      !(setKeys env).contains (Text.upper (Text.upper model.envPrefix ++ key))) ?_
    rw [hout]
    rfl
  · have hin := Bool.eq_false_iff.mpr fun hout => hset (hcontains.mp hout)
    refine Assoc.get_filter_key members (q := fun key =>
      !(setKeys env).contains (Text.upper (Text.upper model.envPrefix ++ key))) ?_
    rw [hin]
    rfl

/-- The name of a top-level field, behind its prefix in capital letters. -/
theorem lower_drop_eq_iff {n : EnvName} (hstarts : rootPrefix.isPrefixOf n.1 = true)
    (hf : isFieldName f = true) :
    Text.lower (n.1.drop rootPrefix.length) = f ↔ Text.upper n.1 = Text.upper (rootPrefix ++ f) := by
  obtain ⟨rest, hrest⟩ := List.isPrefixOf_iff_prefix.mp hstarts
  obtain ⟨hascii, hlower⟩ := fieldName_spec hf
  have hn := n.2
  rw [← hrest, isAscii_append] at hn
  rw [← hrest, List.drop_left, upper_append, upper_append, List.append_cancel_left_eq,
    upper_eq_iff hn.2 hascii, hlower]

theorem get_overrideTop (hf : isFieldName f = true) (hmem : f ∈ fields.names) :
    Assoc.get (overrideTop fields stored e) f =
      if rootPrefix.isPrefixOf e.1.1 = true ∧ Text.upper e.1.1 = Text.upper (rootPrefix ++ f) then
        some (.str e.2)
      else Assoc.get stored f := by
  unfold overrideTop
  by_cases hstarts : rootPrefix.isPrefixOf e.1.1 = true
  · have hname := lower_drop_eq_iff hstarts hf
    rw [if_pos hstarts]
    dsimp only
    by_cases heq : Text.upper e.1.1 = Text.upper (rootPrefix ++ f)
    · rw [hname.mpr heq, if_pos hmem, Assoc.get_set, if_pos rfl, if_pos (And.intro hstarts heq)]
    · have hne : f ≠ Text.lower (e.1.1.drop rootPrefix.length) := fun h => heq (hname.mp h.symm)
      have hother : ¬ (rootPrefix.isPrefixOf e.1.1 = true ∧
          Text.upper e.1.1 = Text.upper (rootPrefix ++ f)) := fun h => heq h.2
      rw [if_neg hother]
      split_ifs
      · rw [Assoc.get_set, if_neg hne]
      · rfl
  · rw [if_neg hstarts, if_neg fun h => hstarts h.1]

/-- The variables that the loop takes for a top-level field. -/
def takenFor (env : Environ) (f : Text) : Environ :=
  (named env (rootPrefix ++ f)).filter fun e => rootPrefix.isPrefixOf e.1.1

/-- The last of them is in the place of what was stored. -/
theorem get_foldl_overrideTop (hf : isFieldName f = true) (hmem : f ∈ fields.names) :
    Assoc.get (env.foldl (overrideTop fields) stored) f =
      match (takenFor env f).getLast? with
      | some e => some (.str e.2)
      | none => Assoc.get stored f := by
  induction env using List.reverseRecOn with
  | nil => rfl
  | append_singleton env e ih =>
    rw [List.foldl_append, List.foldl_cons, List.foldl_nil, get_overrideTop hf hmem, ih]
    unfold takenFor named
    rw [List.filter_append, List.filter_append]
    by_cases hstarts : rootPrefix.isPrefixOf e.1.1 = true
    · by_cases heq : Text.upper e.1.1 = Text.upper (rootPrefix ++ f)
      · simp [hstarts, heq]
      · simp [heq]
    · simp [hstarts]

/-! ## Fields in sections -/

/-- The class of a field in a section, and whether the field is complex. -/
def fieldAt : SettingsModel → List Text → Text → Option (SettingsModel × Bool)
  | model, [], f =>
    match model.fields.declared f with
    | some (.value complex) => some (model, complex)
    | _ => none
  | model, s :: sections, f =>
    match model.fields.declared s with
    | some (.nested inner) => fieldAt inner sections f
    | _ => none

/-- What is stored at a path. -/
def storedAt : Assoc Text Json → List Text → Text → Option Json
  | stored, [], f => Assoc.get stored f
  | stored, s :: sections, f =>
    match Assoc.get stored s with
    | some (.obj members) => storedAt members sections f
    | _ => none

/-- No variable names one of the sections. -/
def Unset (env : Environ) : SettingsModel → List Text → Prop
  | _, [] => True
  | model, s :: sections =>
    named env (model.envPrefix ++ s) = [] ∧
      ∀ inner, model.fields.declared s = some (.nested inner) → Unset env inner sections

variable {settings : PydanticSettings} {sections : List Text} {v : Json}

/-- What a field gets of the text of its variable. -/
def fromVariable (settings : PydanticSettings) (model : SettingsModel) (f : Text) (complex : Bool)
    (text : Text) : Except LoadError settings.Value :=
  match readVariable complex text with
  | some raw => validated (settings.validate model f raw)
  | none => .error .settings

theorem readVariable_nil : readVariable complex [] = if complex then none else some (.str []) := by
  cases complex <;> rfl

theorem fieldAt_nil (h : fieldAt model [] f = some (inner, complex)) :
    inner = model ∧ model.fields.declared f = some (.value complex) := by
  unfold fieldAt at h
  split at h
  · rename_i c hc
    cases h
    exact ⟨rfl, hc⟩
  · cases h

theorem fieldAt_cons {s : Text} (h : fieldAt model (s :: sections) f = some (inner, complex)) :
    ∃ next, model.fields.declared s = some (.nested next) ∧
      fieldAt next sections f = some (inner, complex) := by
  rw [fieldAt] at h
  split at h
  · rename_i next hnext
    exact ⟨next, hnext, h⟩
  · cases h

theorem storedAt_cons {s : Text} (h : storedAt stored (s :: sections) f = some v) :
    ∃ members, Assoc.get stored s = some (.obj members) ∧ storedAt members sections f = some v := by
  rw [storedAt] at h
  split at h
  · rename_i members hmembers
    exact ⟨members, hmembers, h⟩
  · cases h

/-- In a section the variable comes first unless it is empty, and then the stored value does; but an empty
variable of a complex field is not JSON. -/
theorem valueAt_handled (hproper : model.fields.Proper) (hcaps : isAscii model.envPrefix = true)
    (hfield : fieldAt model sections f = some (inner, complex)) (hv : storedAt members sections f = some v)
    (hvariable : named env (inner.envPrefix ++ f) = [e]) (hunset : Unset env model sections) :
    settings.valueAt model (handled model (setKeys env) members) env sections f =
      if e.2 = [] then if complex then .error .settings else validated (settings.validate inner f v)
      else fromVariable settings inner f complex e.2 := by
  -- induction on the sections around the field
  induction sections generalizing model members with
  | nil =>
    obtain ⟨rfl, hdeclared⟩ := fieldAt_nil hfield
    have hget : Assoc.get (handled inner (setKeys env) members) f =
        if e.2 = [] then some v else none := by
      unfold handled
      rw [get_dropEnvShadowed_value hproper hdeclared, get_filter_shadowed hcaps, hvariable]
      by_cases hempty : e.2 = []
      · have hstored : Assoc.get members f = some v := hv
        simp [hempty, hstored]
      · simp [hempty]
    split_ifs with hempty hcomplex
    · have hread : readVariable complex e.2 = none := by
        rw [hempty, readVariable_nil, if_pos hcomplex]
      exact settings.unreadable hdeclared hvariable hread
    · have hread : readVariable complex e.2 = some (.str []) := by
        rw [hempty, readVariable_nil, if_neg hcomplex]
      exact settings.argument_first hdeclared hvariable hread (hget.trans (if_pos hempty))
    · unfold fromVariable
      cases hread : readVariable complex e.2 with
      | none => exact settings.unreadable hdeclared hvariable hread
      | some raw =>
        exact settings.variable_next hdeclared hvariable hread (hget.trans (if_neg hempty))
  | cons s sections ih =>
    obtain ⟨next, hnext, hfield'⟩ := fieldAt_cons hfield
    obtain ⟨members', hmembers, hv'⟩ := storedAt_cons hv
    obtain ⟨hfree, hunset'⟩ := hunset
    obtain ⟨-, hinner⟩ := proper_declared hproper hnext
    obtain ⟨hcaps', hproper'⟩ := hinner next rfl
    have hget : Assoc.get (handled model (setKeys env) members) s =
        some (.obj (handled next (setKeys env) members')) := by
      refine get_dropEnvShadowed_nested hproper hnext ?_
      rw [get_filter_shadowed hcaps, hfree]
      simpa using hmembers
    rw [settings.section_given hnext hfree hget]
    exact ih hproper' hcaps' hfield' hv' (hunset' next hnext)

/-! ## The configuration -/

/-- The root class: the prefix of its variables is `SOVA_`. -/
structure Project where
  fields : Fields
  proper : fields.Proper

def Project.root (p : Project) : SettingsModel := ⟨rootPrefix, p.fields⟩

/-- A field for which a value is stored and which one variable names, while none names a section around it. -/
structure Setting (p : Project) where
  stored : Assoc Text Json
  env : Environ
  sections : List Text
  field : Text
  inner : SettingsModel
  complex : Bool
  value : Json
  entry : EnvName × Text
  field_at : fieldAt p.root sections field = some (inner, complex)
  stored_at : storedAt stored sections field = some value
  named_eq : named env (inner.envPrefix ++ field) = [entry]
  starts : rootPrefix.isPrefixOf entry.1.1 = true
  unset : Unset env p.root sections

variable {p : Project}

/-- What the field gets when the configuration is loaded. -/
def Setting.outcome (settings : PydanticSettings) (c : Setting p) : Except LoadError settings.Value :=
  settings.valueAt p.root (applyEnvOverrides p.fields c.env c.stored) c.env c.sections c.field

/-- What the stored value makes of the field. -/
def Setting.ofStored (settings : PydanticSettings) (c : Setting p) : Except LoadError settings.Value :=
  validated (settings.validate c.inner c.field c.value)

/-- What the variable makes of the field. -/
def Setting.ofVariable (settings : PydanticSettings) (c : Setting p) : Except LoadError settings.Value :=
  fromVariable settings c.inner c.field c.complex c.entry.2

/-- An empty variable leaves the stored value in force, and another one overrides it. -/
def Setting.Respected (settings : PydanticSettings) (c : Setting p) : Prop :=
  c.outcome settings = if c.entry.2 = [] then c.ofStored settings else c.ofVariable settings

/-- In a section an empty variable must not name a complex field. On the top level it must not be empty,
unless the stored value reads as a blank one does, and for a complex field its text must read as the JSON
in it. -/
def Setting.Handled (settings : PydanticSettings) (c : Setting p) : Prop :=
  if c.sections ≠ [] then c.entry.2 ≠ [] ∨ c.complex = false
  else if c.complex then
    c.entry.2 ≠ [] ∧ ∀ raw, readVariable true c.entry.2 = some raw →
      settings.validate c.inner c.field (.str c.entry.2) = settings.validate c.inner c.field raw
  else c.entry.2 ≠ [] ∨
    settings.validate c.inner c.field (.str []) = settings.validate c.inner c.field c.value

theorem validated_injective {V : Type} {x y : Option V} : validated x = validated y ↔ x = y := by
  constructor
  · intro h
    cases x <;> cases y <;> first | rfl | cases h
    rfl
  · rintro rfl
    rfl

theorem validated_ne {V : Type} {x : Option V} : (.error .settings : Except LoadError V) ≠ validated x := by
  intro h
  cases x <;> cases h

/-- A variable puts its text in the place of what is stored for a top-level field. -/
theorem outcome_top (settings : PydanticSettings) (c : Setting p) (h : c.sections = []) :
    c.outcome settings =
      match readVariable c.complex c.entry.2 with
      | some _ => validated (settings.validate c.inner c.field (.str c.entry.2))
      | none => .error .settings := by
  obtain ⟨stored, env, sections, f, inner, complex, v, e, hfield, hv, hnamed, hstarts, _⟩ := c
  dsimp only at h hnamed hstarts hfield ⊢
  subst h
  obtain ⟨rfl, hdeclared⟩ := fieldAt_nil hfield
  have hname := (proper_declared p.proper hdeclared).1
  have hmem : f ∈ p.fields.names := mem_names_of_declared hdeclared
  have htaken : takenFor env f = [e] := by
    unfold takenFor
    have heq : named env (rootPrefix ++ f) = [e] := hnamed
    rw [heq, List.filter_cons, hstarts]
    rfl
  have hget : Assoc.get (applyEnvOverrides p.fields env stored) f = some (.str e.2) := by
    unfold applyEnvOverrides
    rw [get_dropEnvShadowed_value p.proper hdeclared, get_foldl_overrideTop hname hmem, htaken]
    rfl
  show settings.valueAt _ _ _ _ _ = _
  cases hread : readVariable complex e.2 with
  | none => exact settings.unreadable hdeclared hnamed hread
  | some raw => exact settings.argument_first hdeclared hnamed hread hget

/-- Nothing is put in the place of a section. -/
theorem outcome_nested (settings : PydanticSettings) (c : Setting p) (h : c.sections ≠ []) :
    c.outcome settings =
      if c.entry.2 = [] then if c.complex then .error .settings else c.ofStored settings
      else c.ofVariable settings := by
  obtain ⟨stored, env, sections, f, inner, complex, v, e, hfield, hv, hnamed, hstarts, hunset⟩ := c
  dsimp only at h hnamed hstarts hfield hunset ⊢
  cases sections with
  | nil => exact absurd rfl h
  | cons s sections =>
    obtain ⟨next, hnext, hfield'⟩ := fieldAt_cons hfield
    obtain ⟨members, hmembers, hv'⟩ := storedAt_cons hv
    obtain ⟨hfree, hunset'⟩ := hunset
    obtain ⟨hname, hinner⟩ := proper_declared p.proper hnext
    obtain ⟨hcaps, hproper⟩ := hinner next rfl
    have hget : Assoc.get (applyEnvOverrides p.fields env stored) s =
        some (.obj (handled next (setKeys env) members)) := by
      refine get_dropEnvShadowed_nested p.proper hnext ?_
      have htaken : takenFor env s = [] := by
        unfold takenFor
        have heq : named env (rootPrefix ++ s) = [] := hfree
        rw [heq]
        rfl
      have hmem : s ∈ p.fields.names := mem_names_of_declared hnext
      rw [get_foldl_overrideTop hname hmem, htaken]
      exact hmembers
    show settings.valueAt _ _ _ _ _ = _
    rw [settings.section_given hnext hfree hget]
    exact valueAt_handled hproper hcaps hfield' hv' hnamed (hunset' next hnext)

theorem respected_iff_handled (p : Project) (settings : PydanticSettings) (c : Setting p) :
    c.Respected settings ↔ c.Handled settings := by
  unfold Setting.Respected Setting.Handled
  by_cases hsections : c.sections = []
  · rw [outcome_top settings c hsections, if_neg (not_not.mpr hsections)]
    unfold Setting.ofStored Setting.ofVariable fromVariable
    cases hcomplex : c.complex with
    | true =>
      by_cases hempty : c.entry.2 = []
      · rw [hempty, if_pos rfl, readVariable_nil]
        exact iff_of_false validated_ne fun h => h.1 rfl
      · rw [if_neg hempty, if_pos rfl]
        cases hread : readVariable true c.entry.2 with
        | none => exact iff_of_true rfl ⟨hempty, fun raw h => nomatch h⟩
        | some raw =>
          dsimp only
          rw [validated_injective]
          constructor
          · refine fun h => ⟨hempty, fun raw' hraw => ?_⟩
            cases hraw
            exact h
          · exact fun h => h.2 raw rfl
    | false =>
      have hread : readVariable false c.entry.2 = some (.str c.entry.2) := rfl
      rw [hread, if_neg Bool.false_ne_true]
      dsimp only
      by_cases hempty : c.entry.2 = []
      · rw [if_pos hempty, validated_injective, hempty]
        exact ⟨.inr, fun h => h.resolve_left (not_not.mpr rfl)⟩
      · rw [if_neg hempty]
        exact iff_of_true rfl (.inl hempty)
  · rw [outcome_nested settings c hsections, if_pos hsections]
    by_cases hempty : c.entry.2 = []
    · rw [if_pos hempty, if_pos hempty]
      cases hcomplex : c.complex with
      | true =>
        rw [if_pos rfl]
        exact iff_of_false validated_ne fun h => h.elim (fun h' => h' hempty) (fun h' => nomatch h')
      | false => exact iff_of_true rfl (.inr rfl)
    · rw [if_neg hempty, if_neg hempty]
      exact iff_of_true rfl (.inl hempty)

/-! ## A blank branch -/

/-- What a field gets, where every field is a text. -/
def textAt : SettingsModel → Assoc Text Json → Environ → List Text → Text → Except LoadError Text
  | model, args, env, [], f =>
    match model.fields.declared f, named env (model.envPrefix ++ f) with
    | some (.value complex), e :: _ =>
      match readVariable complex e.2 with
      | some raw => validated (asText ((Assoc.get args f).getD raw)).toOption
      | none => .error .settings
    | _, _ => validated ((Assoc.get args f).bind fun v => (asText v).toOption)
  | model, args, env, s :: sections, f =>
    match model.fields.declared s with
    | some (.nested inner) =>
      match Assoc.get args s with
      | some (.obj members) => textAt inner members env sections f
      | _ => textAt inner [] env sections f
    | _ => .error .validation

/-- Classes all of whose fields are texts. -/
def textSettings : PydanticSettings where
  Value := Text
  validate _ _ v := (asText v).toOption
  valueAt := textAt
  unreadable hdeclared hnamed hread := by simp only [textAt, hdeclared, hnamed, hread]
  argument_first hdeclared hnamed hread hget := by
    simp only [textAt, hdeclared, hnamed, hread, hget, Option.getD_some]
  variable_next hdeclared hnamed hread hget := by
    simp only [textAt, hdeclared, hnamed, hread, hget, Option.getD_none]
  section_given hdeclared _ hget := by simp only [textAt, hdeclared, hget]

def branchProject : Project where
  fields := .value "base_branch".toList false .nil
  proper := ⟨by decide, List.not_mem_nil, trivial⟩

/-- `base_branch`, which is stored, with an empty `SOVA_BASE_BRANCH`. -/
def blankBranch : Setting branchProject where
  stored := [("base_branch".toList, .str "develop".toList)]
  env := [(⟨"SOVA_BASE_BRANCH".toList, rfl⟩, [])]
  sections := []
  field := "base_branch".toList
  inner := ⟨rootPrefix, .value "base_branch".toList false .nil⟩
  complex := false
  value := .str "develop".toList
  entry := (⟨"SOVA_BASE_BRANCH".toList, rfl⟩, [])
  field_at := rfl
  stored_at := rfl
  named_eq := by decide
  starts := by decide
  unset := trivial

/-- The stored branch is discarded for a blank one. -/
theorem discards_stored_branch :
    ¬ ∀ (p : Project) (settings : PydanticSettings) (c : Setting p), c.Respected settings := by
  intro h
  have hrespected := h branchProject textSettings blankBranch
  have hempty : blankBranch.entry.2 = [] := rfl
  unfold Setting.Respected at hrespected
  rw [if_pos hempty] at hrespected
  have hblank : blankBranch.outcome textSettings = .ok [] := outcome_top textSettings blankBranch rfl
  rw [hblank] at hrespected
  cases hrespected

end Config.EnvOverrides
