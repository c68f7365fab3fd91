import SovaVerified.Assoc.Assoc
import SovaVerified.Nested.Nested
import SovaVerified.Text.Text

/-!
# The configuration as rows of settings

`sova/config/db_loader.py`: a nested configuration is flattened into settings with dotted keys, the settings
are rows of a table, and the rows are read back into a nested configuration.

`L` are the JSON values that are no objects. A row holds a JSON text; what stands here is the value that it
is read as, or `none` when it is no JSON.
-/

namespace Config

open Nested

variable {L : Type*}

/-- A nested dict: no key stands twice in it. -/
structure NestedConfig (L : Type*) where
  entries : Dict Text L
  unique : entries.Unique

/-- The rows of `project_settings`, by their keys. -/
abbrev SettingRows (L : Type*) := Assoc Text (Option (Value Text L))

/-- `_INTERNAL_SETTING_KEYS`. -/
def internalSettingKeys : List Text := ["db.orphan_edges_swept".toList]

/-! ## Saving -/

/-- `key if not prefix else f"{prefix}.{key}"`. -/
def fullKey (front key : Text) : Text := if front = [] then key else front ++ '.' :: key

/-- `_flatten_config_dict` for a dict under a key, where `flat` was filled so far. -/
def flattenConfigDict (front : Text) : Assoc Text L → Dict Text L → Assoc Text L
  | flat, .nil => flat
  | flat, .leaf key value rest => flattenConfigDict front (flat.set (fullKey front key) value) rest
  | flat, .dict key entries rest =>
    flattenConfigDict front
      ((flattenConfigDict (fullKey front key) [] entries).foldl (fun m e => m.set e.1 e.2) flat) rest

/-- `save_setting`. -/
def saveSetting (rows : SettingRows L) (key : Text) (value : Value Text L) : SettingRows L :=
  rows.set key (some value)

/-- The keys of the replaced sections, each with its dot. -/
def sectionPrefixes : Dict Text L → List Text
  | .nil => []
  | .leaf _ _ rest => sectionPrefixes rest
  | .dict key _ rest => (key ++ ['.']) :: sectionPrefixes rest

/-- `save_config_to_db`. -/
def saveConfigToDb (rows : SettingRows L) (config : Dict Text L) : SettingRows L :=
  let flat := flattenConfigDict [] [] config
  let kept := rows.filter fun row =>
    !((sectionPrefixes config).any (·.isPrefixOf row.1) && (flat.get row.1).isNone)
  flat.foldl (fun rows e => saveSetting rows e.1 (.leaf e.2)) kept

/-! ## Reading back -/

/-- `_set_nested`. -/
def setNested (d : Dict Text L) (dottedKey : Text) (value : Value Text L) : Dict Text L :=
  put d (dottedKey.splitOn '.') value

/-- One turn of the loop of `_rows_to_nested`. -/
def addRow (nested : Dict Text L) (row : Text × Option (Value Text L)) : Dict Text L :=
  if row.1 ∈ internalSettingKeys then nested
  else
    match row.2 with
    | none => nested
    | some value => setNested nested row.1 value

/-- `_rows_to_nested`. -/
def rowsToNested (rows : SettingRows L) : Option (Dict Text L) :=
  match rows.foldl addRow .nil with
  | .nil => none
  | nested => some nested

end Config
