import Mathlib.Algebra.Group.Int.Defs
import Mathlib.Logic.Function.Basic
import SovaVerified.Generations.Generations
import SovaVerified.Runs.Runs
import SovaVerified.Text.Text

/-!
# The cached configuration

`load_config` and `invalidate_config_cache` of `sova/config/loader.py`, with the fingerprint and the settings
stamp of `sova/config/db_loader.py`, in any number of processes that share their databases.

A load reads the fingerprint, looks at the cache, reads the database and stores. An invalidation touches the
stamp and then takes the lock. The steps of different processes and threads come in any order.
-/

namespace Config

open Generations

/-- `(mtime_ns, size, inode)` of a file, as `_file_stamp` returns it. -/
structure FileStamp where
  mtimeNs : Int
  size : Nat
  inode : Nat
  deriving DecidableEq

/-- The database that `_sync_url_for` names: a file of SQLite, or a remote one. -/
inductive Database where
  | sqlite (file : Text)
  | remote (url : Text)
  deriving DecidableEq

/-- `PG_CONFIG_CACHE_TTL_S`, in microseconds. -/
def pgConfigCacheTtl : Int := 5000000

/-- `SQLITE_CONFIG_CACHE_TTL_S`. -/
def sqliteConfigCacheTtl : Int := 60000000

/-- `SETTINGS_STAMP_SUFFIX`. -/
def settingsStampSuffix : Text := ".settings-stamp".toList

/-- `db_failure_backoff`: the window doubles with each failure, from 15 up to 120 seconds. -/
def dbFailureBackoff (consecutiveFailures : Nat) : Int :=
  min (15000000 * 2 ^ (consecutiveFailures - 1)) 120000000

/-- `settings_stamp_file`. -/
def settingsStampFile : Database → Option Text
  | .sqlite file => some (file ++ settingsStampSuffix)
  | .remote _ => none

/-- The first two places of a fingerprint: the hash of the `SOVA_*` environment and the stamp of `sova.toml`. -/
structure Front where
  env : Int
  toml : Option FileStamp
  deriving DecidableEq

structure Fingerprint where
  front : Front
  database : Database
  /-- The inode of the database file. -/
  inode : Option Nat
  /-- The stamp of the settings stamp file. -/
  stamp : Option FileStamp
  deriving DecidableEq

/-- A cache belongs to a process, and is keyed by the project. -/
structure ConfigKey where
  process : Nat
  project : Text
  deriving DecidableEq

/-- `_CacheEntry`. Of a configuration the model keeps which settings it was built from: the number of commits
that came before the read of the database, or `none` when it has the other layers only. -/
structure ConfigEntry where
  fingerprint : Fingerprint
  settings : Option Nat
  builtAt : Int
  backoffTtl : Option Int := none
  hasDbLayer : Bool := true
  failures : Nat := 0
  /-- The number of invalidations when the load behind the entry looked at the cache. The code keeps neither
  this nor the next number, and no step depends on them. -/
  began : Nat
  /-- The number of replacements of the stamp file when its fingerprint was read. -/
  seen : Nat
  deriving DecidableEq

/-- `_CacheEntry.is_fresh`. -/
def ConfigEntry.isFresh (e : ConfigEntry) (fingerprint : Fingerprint) (ttl : Option Int) (now : Int) : Bool :=
  let age := now - e.builtAt
  match e.backoffTtl with
  | some backoffTtl => decide (age < backoffTtl) && decide (e.fingerprint.front = fingerprint.front)
  | none => decide (e.fingerprint = fingerprint) && ttl.all fun ttl => decide (age < ttl)

/-- A load that has read its fingerprint. `started` is the number of invalidations at its start. -/
structure Load where
  key : ConfigKey
  fingerprint : Fingerprint
  ttl : Option Int
  started : Nat
  seen : Nat
  deriving DecidableEq

/-- What `_try_load_from_db` came back with. -/
inductive DbRead where
  | pending
  /-- `db_read_failed()`. -/
  | failed
  /-- The settings, or that there are none, after so many commits. -/
  | settings (commits : Nat)
  deriving DecidableEq

/-- A load that has missed the cache. `fetch` has the generation it read with its entry. -/
structure Build where
  load : Load
  entry : Option ConfigEntry
  fetch : Fetch ConfigKey (Nat × Nat)
  read : DbRead := .pending
  deriving DecidableEq

/-- A call of `invalidate_config_cache`. -/
structure Invalidation where
  process : Nat
  project : Option Text
  /-- The stamp file that it replaced. -/
  replaced : Option Text
  /-- The number of commits when it began. -/
  commits : Nat
  deriving DecidableEq

/-- The triple that a replacement of a stamp file left, and the number of commits before it. -/
structure Replacement where
  stamp : FileStamp
  commits : Nat
  deriving DecidableEq

/-- What a call of `load_config` returned. -/
structure Loaded where
  key : ConfigKey
  started : Nat
  settings : Option Nat
  deriving DecidableEq

structure ConfigCache where
  /-- The databases of the settings commits so far. -/
  commits : List Database := []
  /-- The replacements of a stamp file. -/
  replacements : Text → List Replacement := fun _ => []
  /-- `_cache` of a process. -/
  cache : ConfigKey → Option ConfigEntry := fun _ => none
  /-- `_generation` of a process. -/
  generation : Nat → Nat := fun _ => 0
  /-- `_project_generation` of a process. -/
  projectGeneration : ConfigKey → Nat := fun _ => 0
  loads : List Load := []
  builds : List Build := []
  /-- The invalidations that have yet to take the lock. -/
  invalidating : List Invalidation := []
  /-- The invalidations that have returned. -/
  invalidations : List Invalidation := []
  /-- The loads that have returned. -/
  loaded : List Loaded := []

/-- The triple of a stamp file after its replacements. -/
def currentStamp (replacements : List Replacement) : Option FileStamp :=
  replacements.getLast?.map Replacement.stamp

/-- A call covers its own process: one project of it, or all of them. -/
def Invalidation.covers (i : Invalidation) (key : ConfigKey) : Prop :=
  i.process = key.process ∧ (i.project = none ∨ i.project = some key.project)

instance (i : Invalidation) (key : ConfigKey) : Decidable (i.covers key) :=
  inferInstanceAs (Decidable (i.process = key.process ∧ (i.project = none ∨ i.project = some key.project)))

namespace ConfigCache

/-- `_generation_of`. -/
def generationOf (s : ConfigCache) (key : ConfigKey) : Nat × Nat :=
  (s.generation key.process, s.projectGeneration key)

/-- `os.replace` of a stamp file. -/
def replace (s : ConfigCache) (file : Text) (r : Replacement) : ConfigCache :=
  { s with replacements := Function.update s.replacements file (s.replacements file ++ [r]) }

/-- `touch_settings_stamp`; the replacement leaves the triple `outcome`, or fails. -/
def touchSettingsStamp (s : ConfigCache) (db : Database) (outcome : Option FileStamp) : ConfigCache :=
  match settingsStampFile db, outcome with
  | some file, some stamp => s.replace file ⟨stamp, s.commits.length⟩
  | _, _ => s

/-- `config_fingerprint`; the front and the inode are whatever the process finds. -/
def configFingerprint (s : ConfigCache) (db : Database) (front : Front) (inode : Option Nat) :
    Fingerprint × Option Int :=
  match db with
  | .sqlite _ =>
    let stamp := (settingsStampFile db).bind fun file => currentStamp (s.replacements file)
    (⟨front, db, inode, stamp⟩, some sqliteConfigCacheTtl)
  | .remote _ => (⟨front, db, none, none⟩, some pgConfigCacheTtl)

/-- A load starts with its fingerprint. -/
def start (s : ConfigCache) (db : Database) (key : ConfigKey) (front : Front) (inode : Option Nat) : Load :=
  let fingerprint := s.configFingerprint db front inode
  { key := key, fingerprint := fingerprint.1, ttl := fingerprint.2, started := s.invalidations.length,
    seen := ((settingsStampFile db).map fun file => (s.replacements file).length).getD 0 }

/-- `_store`. -/
def store (s : ConfigCache) (fetch : Fetch ConfigKey (Nat × Nat)) (entry : ConfigEntry) : ConfigCache :=
  if s.generationOf fetch.key = fetch.generation then
    { s with cache := Function.update s.cache fetch.key (some entry) }
  else s

/-- A load looks at the cache, and returns or goes on to build. -/
def look (s : ConfigCache) (load : Load) (now : Int) : ConfigCache :=
  match s.cache load.key with
  | some e =>
    if e.isFresh load.fingerprint load.ttl now then
      { s with loaded := ⟨load.key, load.started, e.settings⟩ :: s.loaded }
    else
      let fetch := ⟨load.key, s.generationOf load.key, s.invalidations.length⟩
      { s with builds := ⟨load, some e, fetch, .pending⟩ :: s.builds }
  | none =>
    let fetch := ⟨load.key, s.generationOf load.key, s.invalidations.length⟩
    { s with builds := ⟨load, none, fetch, .pending⟩ :: s.builds }

/-- The end of a load that has read the database. -/
def finish (s : ConfigCache) (b : Build) (now : Int) : ConfigCache :=
  match b.read with
  | .pending => s
  | .settings n =>
    let s := s.store b.fetch
      { fingerprint := b.load.fingerprint, settings := some n, builtAt := now,
        began := b.fetch.began, seen := b.load.seen }
    { s with loaded := ⟨b.load.key, b.load.started, some n⟩ :: s.loaded }
  | .failed =>
    -- the last good configuration, unless the environment or the file has moved since
    let good := b.entry.filter fun e => e.hasDbLayer && decide (e.fingerprint.front = b.load.fingerprint.front)
    let served := good.bind ConfigEntry.settings
    let failures := (b.entry.map ConfigEntry.failures).getD 0 + 1
    let s := s.store b.fetch
      { fingerprint := b.load.fingerprint, settings := served, builtAt := now,
        backoffTtl := some (dbFailureBackoff failures), hasDbLayer := good.isSome, failures := failures,
        began := b.fetch.began, seen := b.load.seen }
    { s with loaded := ⟨b.load.key, b.load.started, served⟩ :: s.loaded }

/-- `invalidate_config_cache` up to the lock. -/
def invalidate (s : ConfigCache) (dbOf : ConfigKey → Database) (process : Nat) (project : Option Text)
    (outcome : Option FileStamp) : ConfigCache :=
  match project with
  | none => { s with invalidating := ⟨process, none, none, s.commits.length⟩ :: s.invalidating }
  | some p =>
    let db := dbOf ⟨process, p⟩
    let replaced := if outcome.isSome then settingsStampFile db else none
    let s := s.touchSettingsStamp db outcome
    { s with invalidating := ⟨process, some p, replaced, s.commits.length⟩ :: s.invalidating }

/-- The rest of `invalidate_config_cache`, under the lock. -/
def drop (s : ConfigCache) (i : Invalidation) : ConfigCache :=
  let s := { s with
    cache := fun key => if i.covers key then none else s.cache key
    invalidations := s.invalidations ++ [i] }
  match i.project with
  | none => { s with generation := Function.update s.generation i.process (s.generation i.process + 1) }
  | some p =>
    { s with projectGeneration :=
        Function.update s.projectGeneration ⟨i.process, p⟩ (s.projectGeneration ⟨i.process, p⟩ + 1) }

end ConfigCache

inductive ConfigAction where
  /-- A settings write commits. -/
  | commit (db : Database)
  /-- `_save_config_to_db_sync` touches the stamp after its write. -/
  | touch (key : ConfigKey) (outcome : Option FileStamp)
  | invalidate (process : Nat) (project : Option Text) (outcome : Option FileStamp)
  | drop (i : Invalidation)
  | start (key : ConfigKey) (front : Front) (inode : Option Nat)
  | look (load : Load) (now : Int)
  /-- The read of the database, which may fail. -/
  | read (b : Build) (readable : Bool)
  | finish (b : Build) (now : Int)

/-- One step of the system; `none` when the named call is not at that point. `dbOf` is the database of a
project as a process finds it. -/
def configStep (dbOf : ConfigKey → Database) (s : ConfigCache) : ConfigAction → Option ConfigCache
  | .commit db => some { s with commits := s.commits ++ [db] }
  | .touch key outcome => some (s.touchSettingsStamp (dbOf key) outcome)
  | .invalidate process project outcome => some (s.invalidate dbOf process project outcome)
  | .drop i =>
    if i ∈ s.invalidating then
      let s' := s.drop i
      some { s' with invalidating := s'.invalidating.erase i }
    else none
  | .start key front inode => some { s with loads := s.start (dbOf key) key front inode :: s.loads }
  | .look load now =>
    if load ∈ s.loads then
      let s' := s.look load now
      some { s' with loads := s'.loads.erase load }
    else none
  | .read b readable =>
    if b ∈ s.builds ∧ b.read = .pending then
      let read := if readable then .settings s.commits.length else .failed
      some { s with builds := { b with read := read } :: s.builds.erase b }
    else none
  | .finish b now =>
    if b ∈ s.builds ∧ b.read ≠ .pending then
      let s' := s.finish b now
      some { s' with builds := s'.builds.erase b }
    else none

/-- The stamp file of the database has never had this triple. -/
def ConfigCache.NewStamp (s : ConfigCache) (db : Database) (stamp : FileStamp) : Prop :=
  ∀ file ∈ settingsStampFile db, stamp ∉ (s.replacements file).map Replacement.stamp

instance (s : ConfigCache) (db : Database) (stamp : FileStamp) : Decidable (s.NewStamp db stamp) :=
  inferInstanceAs (Decidable (∀ file ∈ settingsStampFile db, stamp ∉ (s.replacements file).map Replacement.stamp))

/-- The databases are readable, and no stamp file gets a triple that it had before. -/
def ConfigAction.Clean (dbOf : ConfigKey → Database) (s : ConfigCache) : ConfigAction → Prop
  | .touch key outcome => ∀ stamp ∈ outcome, s.NewStamp (dbOf key) stamp
  | .invalidate process project outcome =>
    ∀ p ∈ project, ∀ stamp ∈ outcome, s.NewStamp (dbOf ⟨process, p⟩) stamp
  | .read _ readable => readable = true
  | _ => True

instance (dbOf : ConfigKey → Database) (s : ConfigCache) : ∀ a : ConfigAction, Decidable (a.Clean dbOf s)
  | .touch key outcome => inferInstanceAs (Decidable (∀ stamp ∈ outcome, s.NewStamp (dbOf key) stamp))
  | .invalidate process project outcome =>
    inferInstanceAs (Decidable (∀ p ∈ project, ∀ stamp ∈ outcome, s.NewStamp (dbOf ⟨process, p⟩) stamp))
  | .read _ readable => inferInstanceAs (Decidable (readable = true))
  | .commit _ | .drop _ | .start _ _ _ | .look _ _ | .finish _ _ => .isTrue trivial

/-- The invalidation reaches the loads of a key: it was made in the same process, for the project or for all,
or it replaced the stamp file of their database. -/
def Invalidation.Reaches (dbOf : ConfigKey → Database) (i : Invalidation) (key : ConfigKey) : Prop :=
  i.covers key ∨ ∃ file, i.replaced = some file ∧ settingsStampFile (dbOf key) = some file

end Config
