import Mathlib.Data.List.Dedup
import SovaVerified.Assoc.Assoc
import SovaVerified.Runs.Runs
import SovaVerified.Text.Text

/-!
# Saving settings

`update_config` and `update_config_many` of `sova/dashboard/services/settings_service.py`, and the load of the
configuration that they must keep possible, `load_config` of `sova/config/loader.py`.

The model classes of the configuration are a parameter: which fields there are, what a field makes of a value,
and which sections refuse their values. Only the two validators that fill in a value of their own are written
out. A field that holds a table is stored as one value here, and the database can be read.
-/

namespace Settings

/-- The key of a setting by its depth: `name`, `section.name` or `section.subsection.name`. -/
inductive Key where
  | top (name : Text)
  | field (sec name : Text)
  | sub (sec subsec name : Text)
  deriving DecidableEq, Repr

/-- `key.partition(".")[0]`. -/
def Key.head : Key → Text
  | top name => name
  | field sec _ => sec
  | sub sec _ _ => sec

/-- The section of the configuration that the key is in. -/
def Key.sectionOf : Key → Option Text
  | top _ => none
  | field sec _ => some sec
  | sub sec _ _ => some sec

/-- A value of the configuration. A float and a decimal are the text that they are read from. -/
inductive Value where
  | null
  | bool (b : Bool)
  | int (n : Int)
  | float (literal : Text)
  | decimal (literal : Text)
  | str (t : Text)
  | strs (items : List Text)
  | ints (items : List Int)
  | table (entries : List (Text × Text))
  deriving DecidableEq, Repr

/-- `SettingMeta.value_type`. -/
inductive ValueType where
  | string
  | number
  | integer
  | boolean
  | list
  | select
  | object
  | secret
  deriving DecidableEq, Repr

/-- `SettingMeta`, as far as a save reads it. -/
structure SettingMeta where
  key : Key
  valueType : ValueType := .string
  options : List Text := []
  deriving DecidableEq, Repr

/-! ## The model of the configuration -/

def llmProvider : Key := .field "llm".toList "provider".toList

def llmModel : Key := .field "llm".toList "model".toList

/-- The model of `_default_model_for_litellm`. -/
def litellmModel : Value := .str "claude-sonnet-4-6".toList

/-- The fields of `ProjectConfig` with what its classes do to their values, the registered settings, and the
variables of the environment. -/
structure Schema where
  fields : List Key
  metas : List SettingMeta
  /-- The value that a field makes of what it is given, unless it refuses it. -/
  check : Key → Value → Option Value
  default : Key → Value
  /-- Whether a section accepts its values. No validator reads a secret or a field of a subsection. -/
  accepts : Text → (Text → Value) → Bool
  /-- The value of the variable that overrides the field. -/
  env : Key → Option Value
  /-- Every registered setting is a field. -/
  metas_fields : ∀ m ∈ metas, m.key ∈ fields
  /-- A validated value is validated as it is. -/
  check_idem : ∀ {k v w}, check k v = some w → check k w = some w
  check_default : ∀ k, check k (default k) = some (default k)
  check_litellmModel : check llmModel litellmModel = some litellmModel
  /-- A secret is any text. -/
  check_secret : ∀ m ∈ metas, m.valueType = .secret → ∀ t, check m.key (.str t) = some (.str t)

namespace Schema

variable (S : Schema)

/-- `_META_BY_KEY.get`. -/
def metaOf (k : Key) : Option SettingMeta := S.metas.find? fun m => m.key == k

def isSecret (k : Key) : Bool := S.metas.any fun m => m.key == k && m.valueType == .secret

/-- The sections of the model. -/
def sections : List Text := (S.fields.filterMap Key.sectionOf).dedup

end Schema

/-! ## Validation -/

/-- The providers of `_VENDOR_MODEL_EXAMPLES`. -/
def vendorProviders : List Value := [.str "openai".toList, .str "ollama".toList, .str "vertex".toList]

def litellmProviders : List Value := [.str "litellm".toList, .str "hybrid".toList]

/-- `_default_model_for_litellm`: the values that it fills in, unless it refuses the section. -/
def defaultModelForLitellm (read : Text → Value) : Option (Assoc Text Value) :=
  if read "model".toList = .str [] then
    if read "provider".toList ∈ litellmProviders then some [("model".toList, litellmModel)]
    else if read "provider".toList ∈ vendorProviders then none
    else some []
  else some []

/-- `_apply_plan_defaults`. -/
def applyPlanDefaults (read : Text → Value) : Assoc Text Value :=
  if read "reviews_per_hour".toList = .null then
    [("reviews_per_hour".toList,
      .int (if read "plan".toList ∈ [Value.str "pro".toList, .str "pro_plus".toList] then 0 else 4))]
  else []

/-- The validator of a section after its fields: the values that it fills in, unless it refuses. -/
def afterSection (S : Schema) (sec : Text) (read : Text → Value) : Option (Assoc Text Value) :=
  if sec = "llm".toList then defaultModelForLitellm read
  else if sec = "coderabbit_quota".toList then some (applyPlanDefaults read)
  else if S.accepts sec read then some []
  else none

/-- The fields that refuse what they are given. -/
def fieldErrors (S : Schema) (raw : Key → Option Value) : List Key :=
  S.fields.filter fun k => (raw k).any fun v => (S.check k v).isNone

/-- The value of a field before the validators of the sections. -/
def valueOf (S : Schema) (raw : Key → Option Value) (k : Key) : Value :=
  if k ∈ S.fields then
    match raw k with
    | none => S.default k
    | some v => (S.check k v).getD v
  else S.default k

/-- What the validator of a section reads. -/
def readable (S : Schema) (vals : Key → Value) (sec name : Text) : Value :=
  if S.isSecret (.field sec name) then .null else vals (.field sec name)

/-- The sections whose validator refuses. It is not asked when a field of the section is refused. -/
def sectionErrors (S : Schema) (raw : Key → Option Value) : List Text :=
  S.sections.filter fun sec =>
    !((fieldErrors S raw).any fun k => k.sectionOf == some sec) &&
      (afterSection S sec (readable S (valueOf S raw) sec)).isNone

/-- The first parts of the locations of the errors. -/
def errorLocs (S : Schema) (raw : Key → Option Value) : List Text :=
  (fieldErrors S raw).map Key.head ++ sectionErrors S raw

/-- The value of a field after the validators. -/
def configOf (S : Schema) (raw : Key → Option Value) (k : Key) : Value :=
  match k with
  | .field sec name =>
    (((afterSection S sec (readable S (valueOf S raw) sec)).getD []).get name).getD (valueOf S raw k)
  | k => valueOf S raw k

/-- `ProjectConfig(**data)`: the configuration, or where its errors are. -/
def validate (S : Schema) (raw : Key → Option Value) : Except (List Text) (Key → Value) :=
  if (errorLocs S raw).isEmpty then .ok (configOf S raw) else .error (errorLocs S raw)

/-! ## Loading -/

/-- The stored configuration: the rows of the database, and of `sova.toml` the table `project` and the rest. -/
structure Stored where
  db : Assoc Key Value := []
  project : Assoc Key Value := []
  toml : Assoc Key Value := []

/-- What a field is given at a load: the environment wins over the database, and the database over the
file. -/
def effective (S : Schema) (st : Stored) (k : Key) : Option Value :=
  ((S.env k).or (st.db.get k)).or ((st.project.get k).or (st.toml.get k))

/-- `load_config`. -/
def loadConfig (S : Schema) (st : Stored) : Except (List Text) (Key → Value) := validate S (effective S st)

/-! ## Casting -/

/-- The value of a decimal digit. -/
def digitValue (c : Char) : Nat :=
  ((Text.decimalZeros.find? fun first => first ≤ c.toNat && c.toNat < first + 10).map fun first =>
    c.toNat - first).getD 0

/-- Digits with single underscores between them. -/
def isDigits (t : Text) : Bool := (t.splitOn '_').all fun part => !part.isEmpty && part.all Text.isDecimal

def signed : Text → Bool × Text
  | '-' :: t => (true, t)
  | '+' :: t => (false, t)
  | t => (false, t)

/-- `int(t)`. A text of more than 4300 digits is refused. -/
def pyInt (t : Text) : Option Int :=
  let (negative, body) := signed (Text.strip t)
  let digits := body.filter (· != '_')
  if isDigits body && digits.length ≤ 4300 then
    let n : Int := digits.foldl (fun n c => 10 * n + digitValue c) 0
    some (if negative then -n else n)
  else none

/-- `float(t)` raises no `ValueError`. -/
def isFloat (t : Text) : Bool :=
  let body := Text.lower (signed (Text.strip t)).2
  if ["inf".toList, "infinity".toList, "nan".toList].contains body then true
  else
    let mantissa := body.takeWhile (· != 'e')
    let whole := mantissa.takeWhile (· != '.')
    let fraction := (mantissa.drop whole.length).drop 1
    let exponent := body.drop mantissa.length
    (whole.isEmpty || isDigits whole) && (fraction.isEmpty || isDigits fraction) &&
      !(whole.isEmpty && fraction.isEmpty) &&
      (exponent.isEmpty || isDigits (signed (exponent.drop 1)).2)

/-- `_cast_list`; `json` reads the items of a JSON array. -/
def castList (json : Text → Option (List Text)) (value : Text) : List Text :=
  let stripped := Text.strip value
  let items (parts : List Text) : List Text := (parts.map Text.strip).filter fun p => !p.isEmpty
  if stripped.isEmpty then []
  else
    match if stripped.head? == some '[' then json stripped else none with
    | some parsed => items parsed
    | none => items (stripped.splitOn ',')

/-- `_cast_value`. -/
def castValue (json : Text → Option (List Text)) (value : Text) (valueType : ValueType) : Value :=
  if valueType = .list then .strs (castList json value)
  else if valueType = .secret then .str value
  else if Text.lower value = "true".toList then .bool true
  else if Text.lower value = "false".toList then .bool false
  else
    match pyInt value with
    | some n => .int n
    | none => if isFloat value then .float (Text.strip value) else .str value

/-- `_validate_value_type`: whether the value is refused. -/
def refusesType (m : SettingMeta) (value : Text) : Bool :=
  if m.valueType = .secret then false
  else if !m.options.isEmpty && !m.options.contains value then true
  else if m.valueType = .number then !isFloat value
  else if m.valueType = .boolean then
    !(["true".toList, "false".toList].contains (Text.lower value))
  else false

/-! ## The check of the combination -/

/-- `model_dump`. -/
def dump (S : Schema) (cfg : Key → Value) (k : Key) : Option Value := if k ∈ S.fields then some (cfg k) else none

/-- An edit of the dump. The rest of a key with two dots is the name of no field of its section, so that the
edit is left out. -/
def editDump (data : Key → Option Value) (e : Key × Value) : Key → Option Value :=
  match e.1 with
  | .sub .. => data
  | key => if (data key).isSome then fun k => if k = key then some e.2 else data k else data

/-- `_validate_config_consistency_many`: whether the edits are refused. Only errors in the edited sections
count. -/
def refusesMany (S : Schema) (st : Stored) (updates : Assoc Key Value) : Bool :=
  match loadConfig S st with
  | .error _ => false
  | .ok cfg =>
    match validate S (updates.foldl editDump (dump S cfg)) with
    | .ok _ => false
    | .error locs => locs.any fun loc => (updates.map fun e => e.1.head).contains loc

/-- `_validate_config_consistency`. -/
def refuses (S : Schema) (st : Stored) (key : Key) (value : Value) : Bool :=
  match loadConfig S st with
  | .error _ => false
  | .ok cfg =>
    match key with
    | .sub .. => false
    | key =>
      if (dump S cfg key).isSome then
        match validate S (editDump (dump S cfg) (key, value)) with
        | .ok _ => false
        | .error locs => locs.contains key.head
      else false

/-! ## Saving -/

/-- What the writes of one call do. -/
structure Writes where
  json : Text → Option (List Text) := fun _ => none
  -- `_unreadable_database_error`
  unreadable : Bool := false
  dbWrites : Bool := true
  tomlWrites : Key → Bool := fun _ => true
  -- `_save_secret`: the provider is known, and the keyring takes the secret
  providerKnown : Bool := true
  keyringStores : Bool := false

inductive UpdateResult where
  | ok
  | unchanged
  | unknownSetting
  | secretSetting
  | badValue
  | unreadable
  | rejected
  | notPersisted
  deriving DecidableEq, Repr

/-- `_SECRET_MASK_CHARS`. -/
def secretMaskChars : List Char := ['*', Char.ofNat 0x2022, Char.ofNat 0xb7]

/-- `_is_masked_secret`. -/
def isMaskedSecret (value : Text) : Bool :=
  let stripped := Text.strip value
  !stripped.isEmpty && stripped.all secretMaskChars.contains

/-- `keyring_store.SENTINEL`. -/
def sentinel : Text := "keyring:stored".toList

/-- `RESOLVED_SECRET_KEYS`. -/
def resolvedSecretKeys : List Key := [.field "llm".toList "api_key".toList]

/-- The text that `_save_secret` puts into the row of a secret, when it writes it. -/
def secretRow (w : Writes) (key : Key) (value : Text) : Option Text :=
  if !resolvedSecretKeys.contains key then some value
  else if !w.providerKnown then none
  else if value.isEmpty then some []
  else if w.keyringStores then some sentinel
  else some value

def saveDb (st : Stored) (key : Key) (value : Value) : Stored := { st with db := st.db.set key value }

/-- `_save_setting_to_toml`: a key of the top level is written outside of the table `project`. -/
def saveToml (st : Stored) (key : Key) (value : Value) : Stored := { st with toml := st.toml.set key value }

/-- The save of a value that passed the checks of `update_config`. -/
def saveOne (w : Writes) (st : Stored) (key : Key) (value : Value) : UpdateResult × Stored :=
  let st₁ := if w.dbWrites then saveDb st key value else st
  let st₂ := if w.tomlWrites key then saveToml st₁ key value else st₁
  if w.dbWrites || w.tomlWrites key then (.ok, st₂) else (.notPersisted, st)

/-- The save of a secret. -/
def saveSecret (w : Writes) (st : Stored) (key : Key) (value : Text) : UpdateResult × Stored :=
  match secretRow w key value with
  | none => (.notPersisted, st)
  | some row => if w.dbWrites then (.ok, saveDb st key (.str row)) else (.notPersisted, st)

/-- `update_config`. -/
def updateConfig (S : Schema) (w : Writes) (st : Stored) (key : Key) (value : Text) : UpdateResult × Stored :=
  match S.metaOf key with
  | none => (.unknownSetting, st)
  | some m =>
    if m.valueType = .secret ∧ isMaskedSecret value then (.unchanged, st)
    else if refusesType m value then (.badValue, st)
    else if w.unreadable then (.unreadable, st)
    else
      let cast := castValue w.json value m.valueType
      if refuses S st key cast then (.rejected, st)
      else if m.valueType = .secret then saveSecret w st key value
      else saveOne w st key cast

/-- The loop of `update_config_many` over the submitted values. -/
def castMany (S : Schema) (w : Writes) :
    List (Key × Text) → Assoc Key Value → Except UpdateResult (Assoc Key Value)
  | [], casted => .ok casted
  | (key, value) :: updates, casted =>
    match S.metaOf key with
    | none => .error .unknownSetting
    | some m =>
      if m.valueType = .secret then .error .secretSetting
      else if refusesType m value then .error .badValue
      else castMany S w updates (casted.set key (castValue w.json value m.valueType))

/-- `update_config_many`. -/
def updateConfigMany (S : Schema) (w : Writes) (st : Stored) (updates : List (Key × Text)) :
    UpdateResult × Stored :=
  match castMany S w updates [] with
  | .error result => (result, st)
  | .ok casted =>
    if w.unreadable then (.unreadable, st)
    else if refusesMany S st casted then (.rejected, st)
    else if !w.dbWrites then (.notPersisted, st)
    else
      let saved := casted.foldl (fun st e => saveDb st e.1 e.2) st
      (.ok, casted.foldl (fun st e => if w.tomlWrites e.1 then saveToml st e.1 e.2 else st) saved)

/-! ## Sequences of calls -/

inductive Call where
  | update (w : Writes) (key : Key) (value : Text)
  | updateMany (w : Writes) (updates : List (Key × Text))

def perform (S : Schema) (st : Stored) : Call → UpdateResult × Stored
  | .update w key value => updateConfig S w st key value
  | .updateMany w updates => updateConfigMany S w st updates

/-- A call always ends. -/
def step (S : Schema) (st : Stored) (call : Call) : Option Stored := some (perform S st call).2

end Settings
