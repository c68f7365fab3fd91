import SovaVerified.Assoc.Assoc
import SovaVerified.Json.Decoding

/-!
# Environment variables over the stored configuration

`sova/config/loader.py`: `_apply_env_overrides` and `_drop_env_shadowed`, which prepare the merged layers for
the settings classes, and what the classes of `pydantic-settings` then take for a field.

The classes of `sova/config/models.py` stand as any tree of fields, each section with its own `env_prefix`.
-/

namespace Config.EnvOverrides

/-! ## The settings classes -/

/-- The fields of a settings class, in order. The value of a complex field is a list, a dict or a model. -/
inductive Fields where
  | nil
  | value (name : Text) (complex : Bool) (rest : Fields)
  /-- The annotation is a settings class, with its prefix and its fields. -/
  | nested (name envPrefix : Text) (fields rest : Fields)
  deriving DecidableEq

/-- A settings class. -/
structure SettingsModel where
  envPrefix : Text
  fields : Fields
  deriving DecidableEq

/-- What is declared under a name. -/
inductive Declared where
  | value (complex : Bool)
  | nested (model : SettingsModel)
  deriving DecidableEq

namespace Fields

def names : Fields → List Text
  | .nil => []
  | .value name _ rest => name :: names rest
  | .nested name _ _ rest => name :: names rest

def declared : Fields → Text → Option Declared
  | .nil, _ => none
  | .value name complex rest, k => if k = name then some (.value complex) else declared rest k
  | .nested name envPrefix fields rest, k =>
    if k = name then some (.nested ⟨envPrefix, fields⟩) else declared rest k

end Fields

def isAscii (t : Text) : Bool := t.all fun c => c.toNat < 128

/-- The characters of a Python name in small letters. -/
def isFieldName (t : Text) : Bool := t.all fun c => ('a' ≤ c && c ≤ 'z') || c.isDigit || c == '_'

/-- The name of a variable, as POSIX has it. -/
abbrev EnvName := { t : Text // isAscii t = true }

/-- `os.environ`. -/
abbrev Environ := List (EnvName × Text)

/-! ## The loader -/

/-- The prefix of the top-level variables. -/
def rootPrefix : Text := "SOVA_".toList

/-- The keys that are not empty, in capital letters. -/
def setKeys (env : Environ) : List Text := (env.filter fun e => e.2 ≠ []).map fun e => Text.upper e.1.1

/-- `_drop_env_shadowed`. A value that is no dict, or whose field is no settings class, stays. -/
def dropEnvShadowed : Fields → List Text → Assoc Text Json → Assoc Text Json
  | .nil, _, stored => stored
  | .value _ _ rest, envKeys, stored => dropEnvShadowed rest envKeys stored
  | .nested name envPrefix fields rest, envKeys, stored =>
    dropEnvShadowed rest envKeys <|
      match Assoc.get stored name with
      | some (.obj members) =>
        Assoc.set stored name <| .obj <| dropEnvShadowed fields envKeys <|
          members.filter fun e => !envKeys.contains (Text.upper (Text.upper envPrefix ++ e.1))
      | _ => stored

/-- The loop of `_apply_env_overrides` over the variables, on one of them. -/
def overrideTop (project : Fields) (merged : Assoc Text Json) (e : EnvName × Text) : Assoc Text Json :=
  if rootPrefix.isPrefixOf e.1.1 then
    let fieldName := Text.lower (e.1.1.drop rootPrefix.length)
    if fieldName ∈ project.names then Assoc.set merged fieldName (.str e.2) else merged
  else merged

/-- `_apply_env_overrides`. -/
def applyEnvOverrides (project : Fields) (env : Environ) (merged : Assoc Text Json) : Assoc Text Json :=
  dropEnvShadowed project (setKeys env) (env.foldl (overrideTop project) merged)

/-! ## What the settings classes make of it -/

inductive LoadError where
  /-- A value that its field does not take. -/
  | validation
  /-- A variable of a complex field that is not JSON. -/
  | settings
  deriving DecidableEq, Repr

/-- The variables that have a name, whatever the case of its letters. -/
def named (env : Environ) (name : Text) : Environ :=
  env.filter fun e => Text.upper e.1.1 = Text.upper name

/-- The text of a variable as the value of a field. -/
def readVariable (complex : Bool) (text : Text) : Option Json :=
  if complex then (Json.loads text).toOption else some (.str text)

/-- A field that is validated has its value, or it makes the load fail. -/
def validated {V : Type} (v : Option V) : Except LoadError V := v.elim (.error .validation) .ok

/-- `pydantic-settings`, as far as its documentation says what a field gets: the arguments of the initialiser
come before the variables, a variable of a complex field is parsed as JSON, and a section that is given as a
dict is initialised with that dict, in its own class. -/
structure PydanticSettings where
  Value : Type
  validate : SettingsModel → Text → Json → Option Value
  /-- What a field in a section gets when a class is initialised with some arguments. -/
  valueAt : SettingsModel → Assoc Text Json → Environ → List Text → Text → Except LoadError Value
  unreadable : ∀ {model args env f complex e}, model.fields.declared f = some (.value complex) →
    named env (model.envPrefix ++ f) = [e] → readVariable complex e.2 = none →
      valueAt model args env [] f = .error .settings
  argument_first : ∀ {model args env f complex e raw v},
    model.fields.declared f = some (.value complex) → named env (model.envPrefix ++ f) = [e] →
      readVariable complex e.2 = some raw → Assoc.get args f = some v →
        valueAt model args env [] f = validated (validate model f v)
  variable_next : ∀ {model args env f complex e raw},
    model.fields.declared f = some (.value complex) → named env (model.envPrefix ++ f) = [e] →
      readVariable complex e.2 = some raw → Assoc.get args f = none →
        valueAt model args env [] f = validated (validate model f raw)
  section_given : ∀ {model args env s sections f inner members},
    model.fields.declared s = some (.nested inner) → named env (model.envPrefix ++ s) = [] →
      Assoc.get args s = some (.obj members) →
        valueAt model args env (s :: sections) f = valueAt inner members env sections f

end Config.EnvOverrides
