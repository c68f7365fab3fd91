import Mathlib.Data.List.Nodup
import Mathlib.Order.Nat
import SovaVerified.Config.ConfigCache

/-!
# A load is not older than the invalidations that reach it

The two mechanisms are two invariants. Within a process no entry is older than an invalidation of its key
(`Generations.Sound`). Across processes the settings of an entry were read after its fingerprint, so every
replacement that the fingerprint has seen was made before the read.
-/

namespace Config

open Generations

variable {dbOf : ConfigKey → Database} {s s' : ConfigCache} {key : ConfigKey} {fingerprint : Fingerprint}
  {load : Load} {b : Build} {e : ConfigEntry} {i : Invalidation} {began seen n : Nat} {now : Int}

namespace ConfigCache

/-- Nothing of the past of `s` is lost in `s'`. -/
structure Extends (s s' : ConfigCache) : Prop where
  commits : s.commits.length ≤ s'.commits.length
  replacements : ∀ file, s.replacements file <+: s'.replacements file
  invalidations : s.invalidations <+: s'.invalidations

/-- The fingerprint has the triple that the first `seen` replacements left. -/
def Stamped (dbOf : ConfigKey → Database) (s : ConfigCache) (key : ConfigKey) (fingerprint : Fingerprint)
    (seen : Nat) : Prop :=
  ∀ file, settingsStampFile (dbOf key) = some file → seen ≤ (s.replacements file).length ∧
    fingerprint.stamp = currentStamp ((s.replacements file).take seen)

/-- The database was read, after `n` commits, when the first `began` invalidations had been made, and the first
`seen` replacements. -/
structure ReadAfter (dbOf : ConfigKey → Database) (s : ConfigCache) (key : ConfigKey) (began seen n : Nat) :
    Prop where
  began_le : began ≤ s.invalidations.length
  invalidations : ∀ i ∈ s.invalidations.take began, i.commits ≤ n
  replacements : ∀ file, settingsStampFile (dbOf key) = some file → seen ≤ (s.replacements file).length ∧
    ∀ r ∈ (s.replacements file).take seen, r.commits ≤ n

/-- What an invalidation has left behind. -/
structure Known (s : ConfigCache) (i : Invalidation) : Prop where
  commits : i.commits ≤ s.commits.length
  replaced : ∀ file, i.replaced = some file → ∃ r ∈ s.replacements file, i.commits ≤ r.commits

structure LoadOk (dbOf : ConfigKey → Database) (s : ConfigCache) (load : Load) : Prop where
  started : load.started ≤ s.invalidations.length
  stamped : Stamped dbOf s load.key load.fingerprint load.seen
  replaced : ∀ i ∈ s.invalidations.take load.started, ∀ file, i.replaced = some file →
    settingsStampFile (dbOf load.key) = some file → ∃ r ∈ (s.replacements file).take load.seen, i.commits ≤ r.commits

structure BuildOk (dbOf : ConfigKey → Database) (s : ConfigCache) (b : Build) : Prop where
  load : LoadOk dbOf s b.load
  key : b.fetch.key = b.load.key
  started : b.load.started ≤ b.fetch.began
  began : b.fetch.began ≤ s.invalidations.length
  readable : b.read ≠ .failed
  read : ∀ n, b.read = .settings n → ReadAfter dbOf s b.load.key b.fetch.began b.load.seen n

structure EntryOk (dbOf : ConfigKey → Database) (s : ConfigCache) (key : ConfigKey) (e : ConfigEntry) : Prop where
  backoffTtl : e.backoffTtl = none
  stamped : Stamped dbOf s key e.fingerprint e.seen
  settings : ∃ n, e.settings = some n ∧ ReadAfter dbOf s key e.began e.seen n

/-- The settings of a finished load are not older than an invalidation before its start that reaches it. -/
def LoadedOk (dbOf : ConfigKey → Database) (s : ConfigCache) (r : Loaded) : Prop :=
  r.started ≤ s.invalidations.length ∧
    ∃ n, r.settings = some n ∧ ∀ i ∈ s.invalidations.take r.started, i.Reaches dbOf r.key → i.commits ≤ n

/-- Where the load behind an entry looked at the cache. -/
def beganOf (s : ConfigCache) (key : ConfigKey) : Option Nat := (s.cache key).map ConfigEntry.began

def flights (s : ConfigCache) : List (Fetch ConfigKey (Nat × Nat)) := s.builds.map Build.fetch

structure Inv (dbOf : ConfigKey → Database) (s : ConfigCache) : Prop where
  sound : Sound Invalidation.covers s.invalidations s.generationOf s.beganOf s.flights
  nodup : ∀ file, ((s.replacements file).map Replacement.stamp).Nodup
  past : ∀ file, ∀ r ∈ s.replacements file, r.commits ≤ s.commits.length
  known : ∀ i, i ∈ s.invalidating ∨ i ∈ s.invalidations → Known s i
  load : ∀ l ∈ s.loads, LoadOk dbOf s l
  build : ∀ b ∈ s.builds, BuildOk dbOf s b
  entry : ∀ key e, s.cache key = some e → EntryOk dbOf s key e
  loaded : ∀ r ∈ s.loaded, LoadedOk dbOf s r

/-! ## The past -/

theorem take_eq_of_extends {α : Type*} {l l' : List α} {k : Nat} (h : l <+: l') (hk : k ≤ l.length) :
    l'.take k = l.take k := by
  obtain ⟨t, rfl⟩ := h
  exact List.take_append_of_le_length hk

/-- As no triple comes back, a triple tells the replacements before it. -/
theorem eq_of_currentStamp_take {replacements : List Replacement} {a c : Nat}
    (hnodup : (replacements.map Replacement.stamp).Nodup) (ha : a ≤ replacements.length)
    (hc : c ≤ replacements.length)
    (h : currentStamp (replacements.take a) = currentStamp (replacements.take c)) : a = c := by
  have hplace : ∀ k ≤ replacements.length, currentStamp (replacements.take k) =
      if k = 0 then none else (replacements.map Replacement.stamp)[k - 1]? := by
    intro k hk
    unfold currentStamp
    rw [List.getLast?_take, List.getElem?_map]
    split
    · rfl
    next hk0 =>
      have hlt : k - 1 < replacements.length := by omega
      rw [List.getElem?_eq_getElem hlt]
      rfl
  rw [hplace a ha, hplace c hc] at h
  have hlength : (replacements.map Replacement.stamp).length = replacements.length := List.length_map _
  by_cases ha0 : a = 0
  · by_cases hc0 : c = 0
    · omega
    · rw [if_pos ha0, if_neg hc0, List.getElem?_eq_getElem (by omega)] at h
      cases h
  · by_cases hc0 : c = 0
    · rw [if_neg ha0, if_pos hc0, List.getElem?_eq_getElem (by omega)] at h
      cases h
    · rw [if_neg ha0, if_neg hc0] at h
      have hpred : a - 1 = c - 1 := (List.getElem?_inj (by omega) hnodup).mp h
      omega

theorem Stamped.mono (h : Stamped dbOf s key fingerprint seen) (hext : Extends s s') :
    Stamped dbOf s' key fingerprint seen := by
  intro file hfile
  obtain ⟨hseen, hstamp⟩ := h file hfile
  refine ⟨le_trans hseen (hext.replacements file).length_le, ?_⟩
  rw [take_eq_of_extends (hext.replacements file) hseen]
  exact hstamp

theorem ReadAfter.mono (h : ReadAfter dbOf s key began seen n) (hext : Extends s s') :
    ReadAfter dbOf s' key began seen n where
  began_le := le_trans h.began_le hext.invalidations.length_le
  invalidations := by
    rw [take_eq_of_extends hext.invalidations h.began_le]
    exact h.invalidations
  replacements := by
    intro file hfile
    obtain ⟨hseen, hread⟩ := h.replacements file hfile
    refine ⟨le_trans hseen (hext.replacements file).length_le, ?_⟩
    rw [take_eq_of_extends (hext.replacements file) hseen]
    exact hread

theorem Known.mono (h : Known s i) (hext : Extends s s') : Known s' i where
  commits := le_trans h.commits hext.commits
  replaced := by
    intro file hfile
    obtain ⟨r, hr, hle⟩ := h.replaced file hfile
    exact ⟨r, (hext.replacements file).subset hr, hle⟩

theorem LoadOk.mono (h : LoadOk dbOf s load) (hext : Extends s s') : LoadOk dbOf s' load where
  started := le_trans h.started hext.invalidations.length_le
  stamped := h.stamped.mono hext
  replaced := by
    rw [take_eq_of_extends hext.invalidations h.started]
    intro i hi file hreplaced hfile
    rw [take_eq_of_extends (hext.replacements file) (h.stamped file hfile).1]
    exact h.replaced i hi file hreplaced hfile

theorem BuildOk.mono (h : BuildOk dbOf s b) (hext : Extends s s') : BuildOk dbOf s' b where
  load := h.load.mono hext
  key := h.key
  started := h.started
  began := le_trans h.began hext.invalidations.length_le
  readable := h.readable
  read := fun n hn => (h.read n hn).mono hext

theorem EntryOk.mono (h : EntryOk dbOf s key e) (hext : Extends s s') : EntryOk dbOf s' key e where
  backoffTtl := h.backoffTtl
  stamped := h.stamped.mono hext
  settings := by
    obtain ⟨n, hn, hread⟩ := h.settings
    exact ⟨n, hn, hread.mono hext⟩

theorem LoadedOk.mono {r : Loaded} (h : LoadedOk dbOf s r) (hext : Extends s s') : LoadedOk dbOf s' r := by
  obtain ⟨hstarted, n, hn, hi⟩ := h
  refine ⟨le_trans hstarted hext.invalidations.length_le, n, hn, ?_⟩
  rw [take_eq_of_extends hext.invalidations hstarted]
  exact hi

/-! ## The operations -/

theorem touchSettingsStamp_cases (s : ConfigCache) (db : Database) (outcome : Option FileStamp) :
    s.touchSettingsStamp db outcome = s ∨ ∃ file stamp, settingsStampFile db = some file ∧ outcome = some stamp ∧
      s.touchSettingsStamp db outcome = s.replace file ⟨stamp, s.commits.length⟩ := by
  unfold touchSettingsStamp
  split
  next file stamp hfile =>
    exact .inr ⟨file, stamp, hfile, rfl, rfl⟩
  next => exact .inl rfl

theorem Inv.commit (h : s.Inv dbOf) (db : Database) : Inv dbOf { s with commits := s.commits ++ [db] } := by
  have hle : s.commits.length ≤ (s.commits ++ [db]).length := by
    rw [List.length_append]
    exact Nat.le_add_right _ _
  have hext : Extends s { s with commits := s.commits ++ [db] } :=
    ⟨hle, fun _ => List.prefix_refl _, List.prefix_refl _⟩
  exact
    { sound := h.sound
      nodup := h.nodup
      past := fun file r hr => le_trans (h.past file r hr) hle
      known := fun i hi => (h.known i hi).mono hext
      load := fun l hl => (h.load l hl).mono hext
      build := fun b hb => (h.build b hb).mono hext
      entry := fun key e he => (h.entry key e he).mono hext
      loaded := fun r hr => (h.loaded r hr).mono hext }

theorem replacements_replace (s : ConfigCache) (file : Text) (r : Replacement) (k : Text) :
    (s.replace file r).replacements k = if k = file then s.replacements file ++ [r] else s.replacements k := by
  unfold ConfigCache.replace
  exact Function.update_apply _ _ _ _

theorem extends_replace (s : ConfigCache) (file : Text) (r : Replacement) : Extends s (s.replace file r) := by
  refine ⟨le_refl _, fun k => ?_, List.prefix_refl _⟩
  rw [replacements_replace]
  split
  next hk => exact hk ▸ List.prefix_append _ _
  next => exact List.prefix_refl _

theorem Inv.replace (h : s.Inv dbOf) {file : Text} {stamp : FileStamp}
    (hnew : stamp ∉ (s.replacements file).map Replacement.stamp) :
    (s.replace file ⟨stamp, s.commits.length⟩).Inv dbOf := by
  have hext := extends_replace s file ⟨stamp, s.commits.length⟩
  refine
    { sound := h.sound
      nodup := fun k => ?_
      past := fun k => ?_
      known := fun i hi => (h.known i hi).mono hext
      load := fun l hl => (h.load l hl).mono hext
      build := fun b hb => (h.build b hb).mono hext
      entry := fun key e he => (h.entry key e he).mono hext
      loaded := fun r hr => (h.loaded r hr).mono hext }
  · rw [replacements_replace]
    split
    · rw [List.map_append, List.map_singleton, ← List.concat_eq_append]
      exact List.Nodup.concat hnew (h.nodup file)
    · exact h.nodup k
  · rw [replacements_replace]
    split
    · intro r hr
      rcases List.mem_append.mp hr with hr | hr
      · exact h.past file r hr
      · obtain rfl := List.mem_singleton.mp hr
        exact le_refl _
    · exact h.past k

theorem Inv.touchSettingsStamp (h : s.Inv dbOf) {db : Database} {outcome : Option FileStamp}
    (hnew : ∀ stamp ∈ outcome, s.NewStamp db stamp) : (s.touchSettingsStamp db outcome).Inv dbOf := by
  rcases touchSettingsStamp_cases s db outcome with heq | ⟨file, stamp, hfile, houtcome, heq⟩
  · rw [heq]
    exact h
  · rw [heq]
    exact h.replace (hnew stamp houtcome file hfile)

/-- The lists of calls change and the past stays. -/
theorem Inv.calls (h : s.Inv dbOf) (hpast : s'.commits = s.commits ∧ s'.replacements = s.replacements ∧
    s'.invalidations = s.invalidations)
    (hsound : Sound Invalidation.covers s'.invalidations s'.generationOf s'.beganOf s'.flights)
    (hinvalidating : ∀ i ∈ s'.invalidating, i ∈ s.invalidating ∨ Known s i)
    (hload : ∀ l ∈ s'.loads, l ∈ s.loads ∨ LoadOk dbOf s l)
    (hbuild : ∀ b ∈ s'.builds, b ∈ s.builds ∨ BuildOk dbOf s b)
    (hentry : ∀ key e, s'.cache key = some e → s.cache key = some e ∨ EntryOk dbOf s key e)
    (hloaded : ∀ r ∈ s'.loaded, r ∈ s.loaded ∨ LoadedOk dbOf s r) : s'.Inv dbOf := by
  obtain ⟨hcommits, hreplacements, hinvalidations⟩ := hpast
  have hext : Extends s s' := by
    refine ⟨le_of_eq ?_, fun file => ?_, ?_⟩
    · rw [hcommits]
    · exact hreplacements ▸ List.prefix_refl _
    · exact hinvalidations ▸ List.prefix_refl _
  refine
    { sound := hsound
      nodup := fun file => ?_
      past := fun file => ?_
      known := fun i hi => ?_
      load := fun l hl => ?_
      build := fun b hb => ?_
      entry := fun key e he => ?_
      loaded := fun r hr => ?_ }
  · rw [hreplacements]
    exact h.nodup file
  · rw [hreplacements, hcommits]
    exact h.past file
  · rw [hinvalidations] at hi
    rcases hi with hi | hi
    · rcases hinvalidating i hi with hi | hi
      · exact (h.known i (.inl hi)).mono hext
      · exact hi.mono hext
    · exact (h.known i (.inr hi)).mono hext
  · rcases hload l hl with hl | hl
    · exact (h.load l hl).mono hext
    · exact hl.mono hext
  · rcases hbuild b hb with hb | hb
    · exact (h.build b hb).mono hext
    · exact hb.mono hext
  · rcases hentry key e he with he | he
    · exact (h.entry key e he).mono hext
    · exact he.mono hext
  · rcases hloaded r hr with hr | hr
    · exact (h.loaded r hr).mono hext
    · exact hr.mono hext

theorem known_touchSettingsStamp (s : ConfigCache) (db : Database) (outcome : Option FileStamp) (process : Nat)
    (project : Option Text) :
    Known (s.touchSettingsStamp db outcome) ⟨process, project,
      if outcome.isSome then settingsStampFile db else none,
      (s.touchSettingsStamp db outcome).commits.length⟩ := by
  refine ⟨le_refl _, fun file hfile => ?_⟩
  cases outcome with
  | none => cases hfile
  | some stamp =>
    have hdb : settingsStampFile db = some file := hfile
    refine ⟨⟨stamp, s.commits.length⟩, ?_, ?_⟩ <;>
      simp only [touchSettingsStamp, hdb, ConfigCache.replace, Function.update_self]
    · exact List.mem_append_right _ List.mem_cons_self
    · exact le_refl _

theorem Inv.invalidate (h : s.Inv dbOf) (process : Nat) (project : Option Text) (outcome : Option FileStamp)
    (hclean : ConfigAction.Clean dbOf s (.invalidate process project outcome)) :
    (s.invalidate dbOf process project outcome).Inv dbOf := by
  cases project with
  | none =>
    refine h.calls ⟨rfl, rfl, rfl⟩ h.sound (fun i hi => ?_) (fun _ hl => .inl hl) (fun _ hb => .inl hb)
      (fun _ _ he => .inl he) (fun _ hr => .inl hr)
    rcases List.mem_cons.mp hi with rfl | hi
    · exact .inr ⟨le_refl _, fun _ hfile => nomatch hfile⟩
    · exact .inl hi
  | some p =>
    have htouch := h.touchSettingsStamp (hclean p rfl)
    refine htouch.calls ⟨rfl, rfl, rfl⟩ htouch.sound (fun i hi => ?_) (fun _ hl => .inl hl) (fun _ hb => .inl hb)
      (fun _ _ he => .inl he) (fun _ hr => .inl hr)
    rcases List.mem_cons.mp hi with rfl | hi
    · exact .inr (known_touchSettingsStamp s _ outcome process (some p))
    · exact .inl hi

/-- Under the lock, the generation of every key that is covered moves. -/
theorem drop_cases (s : ConfigCache) (i : Invalidation) : ∃ generation projectGeneration,
    s.drop i = { s with
      cache := fun key => if i.covers key then none else s.cache key
      invalidations := s.invalidations ++ [i]
      generation := generation
      projectGeneration := projectGeneration } ∧
    (∀ key, s.generationOf key ≤ (generation key.process, projectGeneration key)) ∧
    ∀ key, i.covers key → s.generationOf key < (generation key.process, projectGeneration key) := by
  cases hproject : i.project with
  | none =>
    refine ⟨Function.update s.generation i.process (s.generation i.process + 1), s.projectGeneration, ?_, ?_, ?_⟩
    · simp only [drop, hproject]
    · intro key
      refine Prod.mk_le_mk.mpr ⟨?_, le_refl _⟩
      by_cases hkey : key.process = i.process
      · rw [hkey, Function.update_self]
        exact Nat.le_succ _
      · rw [Function.update_of_ne hkey]
    · intro key hcovers
      refine Prod.mk_lt_mk_of_lt_of_le ?_ (le_refl _)
      rw [← hcovers.1, Function.update_self]
      exact Nat.lt_succ_self _
  | some p =>
    refine ⟨s.generation,
      Function.update s.projectGeneration ⟨i.process, p⟩ (s.projectGeneration ⟨i.process, p⟩ + 1), ?_, ?_, ?_⟩
    · simp only [drop, hproject]
    · intro key
      refine Prod.mk_le_mk.mpr ⟨le_refl _, ?_⟩
      by_cases hkey : key = ⟨i.process, p⟩
      · rw [hkey, Function.update_self]
        exact Nat.le_succ _
      · rw [Function.update_of_ne hkey]
    · intro key hcovers
      obtain ⟨hprocess, hcovers⟩ := hcovers
      have hp : p = key.project := by
        rw [hproject] at hcovers
        rcases hcovers with h | h
        · cases h
        · exact Option.some.inj h
      refine Prod.mk_lt_mk_of_le_of_lt (le_refl _) ?_
      rw [hprocess, hp, Function.update_self]
      exact Nat.lt_succ_self _

theorem Inv.drop (h : s.Inv dbOf) (hi : Known s i) : (s.drop i).Inv dbOf := by
  obtain ⟨generation, projectGeneration, heq, hle, hlt⟩ := drop_cases s i
  have hext : Extends s (s.drop i) := by
    rw [heq]
    exact ⟨le_refl _, fun _ => List.prefix_refl _, List.prefix_append _ _⟩
  rw [heq] at hext ⊢
  refine
    { sound := h.sound.invalidate hle (fun f _ => hlt f.key) fun k began hk => ?_
      nodup := h.nodup
      past := h.past
      known := fun j hj => ?_
      load := fun l hl => (h.load l hl).mono hext
      build := fun b hb => (h.build b hb).mono hext
      entry := fun key e he => ?_
      loaded := fun r hr => (h.loaded r hr).mono hext }
  · unfold beganOf at hk ⊢
    dsimp only at hk
    split at hk
    · cases hk
    next hcovers => exact ⟨hk, hcovers⟩
  · rcases hj with hj | hj
    · exact (h.known j (.inl hj)).mono hext
    · rcases List.mem_append.mp hj with hj | hj
      · exact (h.known j (.inr hj)).mono hext
      · rw [List.mem_singleton.mp hj]
        exact hi.mono hext
  · dsimp only at he
    split at he
    · cases he
    · exact (h.entry key e he).mono hext

theorem configFingerprint_stamp {db : Database} {file : Text} (hfile : settingsStampFile db = some file)
    (front : Front) (inode : Option Nat) :
    (s.configFingerprint db front inode).1.stamp = currentStamp (s.replacements file) := by
  cases db with
  | sqlite name =>
    unfold configFingerprint
    dsimp only
    rw [hfile, Option.bind_some]
  | remote url => cases hfile

theorem start_seen {db : Database} {file : Text} (hfile : settingsStampFile db = some file) (front : Front)
    (inode : Option Nat) : (s.start db key front inode).seen = (s.replacements file).length := by
  unfold ConfigCache.start
  dsimp only
  rw [hfile, Option.map_some, Option.getD_some]

/-- Everything that has happened is behind a load when it starts. -/
theorem Inv.start (h : s.Inv dbOf) (key : ConfigKey) (front : Front) (inode : Option Nat) :
    LoadOk dbOf s (s.start (dbOf key) key front inode) := by
  have hseen : ∀ file, settingsStampFile (dbOf key) = some file →
      (s.start (dbOf key) key front inode).seen = (s.replacements file).length :=
    fun file hfile => start_seen hfile front inode
  refine ⟨le_refl _, fun file hfile => ?_, fun i hi file hreplaced hfile => ?_⟩
  · rw [hseen file hfile, List.take_length]
    exact ⟨le_refl _, configFingerprint_stamp hfile front inode⟩
  · rw [hseen file hfile, List.take_length]
    exact (h.known i (.inr (List.mem_of_mem_take hi))).replaced file hreplaced

/-- A fresh entry serves a load: within the process by the generations, across processes by the triple. -/
theorem Inv.hit (h : s.Inv dbOf) (hload : LoadOk dbOf s load) (hentry : s.cache load.key = some e)
    (hfresh : e.isFresh load.fingerprint load.ttl now = true) :
    LoadedOk dbOf s ⟨load.key, load.started, e.settings⟩ := by
  have hok := h.entry load.key e hentry
  obtain ⟨n, hn, hread⟩ := hok.settings
  have hfingerprint : e.fingerprint = load.fingerprint := by
    unfold ConfigEntry.isFresh at hfresh
    rw [hok.backoffTtl] at hfresh
    exact of_decide_eq_true (Bool.and_eq_true_iff.mp hfresh).1
  refine ⟨hload.started, n, hn, fun i hi hreaches => ?_⟩
  rcases hreaches with hcovers | ⟨file, hreplaced, hfile⟩
  · have hbegan : s.beganOf load.key = some e.began := by
      unfold beganOf
      rw [hentry, Option.map_some]
    have hsince := h.sound.entry load.key e.began hbegan
    have hmem : i ∈ s.invalidations.take e.began ++ s.invalidations.drop e.began := by
      rw [List.take_append_drop]
      exact List.mem_of_mem_take hi
    rcases List.mem_append.mp hmem with hbefore | hafter
    · exact hread.invalidations i hbefore
    · exact absurd hcovers (hsince i hafter)
  · obtain ⟨r, hr, hle⟩ := hload.replaced i hi file hreplaced hfile
    obtain ⟨hseen, hstamp⟩ := hok.stamped file hfile
    obtain ⟨hseen', hstamp'⟩ := hload.stamped file hfile
    have hsame : e.seen = load.seen := by
      refine eq_of_currentStamp_take (h.nodup file) hseen hseen' ?_
      rw [← hstamp, ← hstamp', hfingerprint]
    rw [← hsame] at hr
    exact le_trans hle ((hread.replacements file hfile).2 r hr)

theorem Inv.miss (h : s.Inv dbOf) (hload : LoadOk dbOf s load) (entry : Option ConfigEntry) :
    Inv dbOf { s with builds :=
      ⟨load, entry, ⟨load.key, s.generationOf load.key, s.invalidations.length⟩, .pending⟩ :: s.builds } := by
  refine h.calls ⟨rfl, rfl, rfl⟩ (h.sound.start load.key) (fun _ hi => .inl hi) (fun _ hl => .inl hl)
    (fun b hb => ?_) (fun _ _ he => .inl he) (fun _ hr => .inl hr)
  rcases List.mem_cons.mp hb with rfl | hb
  · exact .inr ⟨hload, rfl, hload.started, le_refl _, DbRead.noConfusion, fun _ hn => nomatch hn⟩
  · exact .inl hb

theorem Inv.look (h : s.Inv dbOf) (hload : LoadOk dbOf s load) (now : Int) : (s.look load now).Inv dbOf := by
  unfold ConfigCache.look
  split
  next e hentry =>
    split
    next hfresh =>
      refine h.calls ⟨rfl, rfl, rfl⟩ h.sound (fun _ hi => .inl hi) (fun _ hl => .inl hl) (fun _ hb => .inl hb)
        (fun _ _ he => .inl he) (fun r hr => ?_)
      rcases List.mem_cons.mp hr with rfl | hr
      · exact .inr (h.hit hload hentry hfresh)
      · exact .inl hr
    next => exact h.miss hload (some e)
  next => exact h.miss hload none

/-- The database is read after everything that the load has seen. -/
theorem Inv.readAfter (h : s.Inv dbOf) (hb : BuildOk dbOf s b) :
    ReadAfter dbOf s b.load.key b.fetch.began b.load.seen s.commits.length where
  began_le := hb.began
  invalidations := fun i hi => (h.known i (.inr (List.mem_of_mem_take hi))).commits
  replacements := by
    intro file hfile
    exact ⟨(hb.load.stamped file hfile).1, fun r hr => h.past file r (List.mem_of_mem_take hr)⟩

theorem Inv.read (h : s.Inv dbOf) (hb : b ∈ s.builds) :
    Inv dbOf { s with builds := { b with read := .settings s.commits.length } :: s.builds.erase b } := by
  have hok := h.build b hb
  have hflights : (({ b with read := .settings s.commits.length } :: s.builds.erase b).map Build.fetch) ⊆
      s.flights := by
    intro f hf
    rcases List.mem_cons.mp hf with rfl | hf
    · exact List.mem_map.mpr ⟨b, hb, rfl⟩
    · exact List.map_subset _ List.erase_subset hf
  refine h.calls ⟨rfl, rfl, rfl⟩ (h.sound.land hflights) (fun _ hi => .inl hi) (fun _ hl => .inl hl)
    (fun c hc => ?_) (fun _ _ he => .inl he) (fun _ hr => .inl hr)
  rcases List.mem_cons.mp hc with rfl | hc
  · refine .inr ⟨hok.load, hok.key, hok.started, hok.began, DbRead.noConfusion, fun n hn => ?_⟩
    obtain rfl : s.commits.length = n := by injection hn
    have hread := h.readAfter hok
    exact hread
  · exact .inl (List.mem_of_mem_erase hc)

theorem store_cases (s : ConfigCache) (fetch : Fetch ConfigKey (Nat × Nat)) (entry : ConfigEntry) :
    s.store fetch entry = s ∨ s.generationOf fetch.key = fetch.generation ∧
      s.store fetch entry = { s with cache := Function.update s.cache fetch.key (some entry) } := by
  unfold store
  split
  next hcurrent => exact .inr ⟨hcurrent, rfl⟩
  next => exact .inl rfl

theorem extends_store (s : ConfigCache) (fetch : Fetch ConfigKey (Nat × Nat)) (entry : ConfigEntry) :
    Extends s (s.store fetch entry) := by
  rcases store_cases s fetch entry with heq | ⟨-, heq⟩
  · rw [heq]
    exact ⟨le_refl _, fun _ => List.prefix_refl _, List.prefix_refl _⟩
  · rw [heq]
    exact ⟨le_refl _, fun _ => List.prefix_refl _, List.prefix_refl _⟩

/-- A build that comes back may store, as long as its generation is the one of its key. -/
theorem Inv.store (h : s.Inv dbOf) {fetch : Fetch ConfigKey (Nat × Nat)} (hfetch : fetch ∈ s.flights)
    (hentry : EntryOk dbOf s fetch.key e) (hbegan : e.began = fetch.began) : (s.store fetch e).Inv dbOf := by
  rcases store_cases s fetch e with heq | ⟨hcurrent, heq⟩
  · rw [heq]
    exact h
  · rw [heq]
    refine h.calls ⟨rfl, rfl, rfl⟩ (h.sound.put hfetch hcurrent fun k began hk => ?_) (fun _ hi => .inl hi)
      (fun _ hl => .inl hl) (fun _ hb => .inl hb) (fun k e' he => ?_) (fun _ hr => .inl hr)
    · rw [← hbegan]
      exact began_put hk
    · dsimp only at he
      by_cases hkey : k = fetch.key
      · subst hkey
        rw [Function.update_self] at he
        exact .inr (Option.some.inj he ▸ hentry)
      · rw [Function.update_of_ne hkey] at he
        exact .inl he

/-- What was read serves the load that read it. -/
theorem BuildOk.loaded (h : BuildOk dbOf s b) (hread : b.read = .settings n) :
    LoadedOk dbOf s ⟨b.load.key, b.load.started, some n⟩ := by
  refine ⟨h.load.started, n, rfl, fun i hi _ => ?_⟩
  exact (h.read n hread).invalidations i (List.take_subset_take_left _ h.started hi)

theorem Inv.finish (h : s.Inv dbOf) (hb : b ∈ s.builds) (now : Int) : (s.finish b now).Inv dbOf := by
  have hok := h.build b hb
  unfold ConfigCache.finish
  split
  next => exact h
  next n hread =>
    have hflight : b.fetch ∈ s.flights := List.mem_map_of_mem hb
    have hentry : EntryOk dbOf s b.fetch.key
        { fingerprint := b.load.fingerprint, settings := some n, builtAt := now, began := b.fetch.began,
          seen := b.load.seen } := by
      rw [hok.key]
      exact ⟨rfl, hok.load.stamped, n, rfl, hok.read n hread⟩
    have hstore := h.store hflight hentry rfl
    refine hstore.calls ⟨rfl, rfl, rfl⟩ hstore.sound (fun _ hi => .inl hi) (fun _ hl => .inl hl)
      (fun _ hb => .inl hb) (fun _ _ he => .inl he) (fun r hr => ?_)
    rcases List.mem_cons.mp hr with rfl | hr
    · exact .inr ((hok.loaded hread).mono (extends_store s b.fetch _))
    · exact .inl hr
  next hread => exact absurd hread hok.readable

/-- Calls that have gone on, or returned. -/
theorem Inv.erase (h : s.Inv dbOf) {loads : List Load} {builds : List Build} {invalidating : List Invalidation}
    (hloads : loads ⊆ s.loads) (hbuilds : builds ⊆ s.builds) (hinvalidating : invalidating ⊆ s.invalidating) :
    Inv dbOf { s with loads := loads, builds := builds, invalidating := invalidating } :=
  h.calls ⟨rfl, rfl, rfl⟩ (h.sound.land (List.map_subset _ hbuilds)) (fun _ hi => .inl (hinvalidating hi))
    (fun _ hl => .inl (hloads hl)) (fun _ hb => .inl (hbuilds hb)) (fun _ _ he => .inl he) (fun _ hr => .inl hr)

theorem Inv.step (h : s.Inv dbOf) {a : ConfigAction} (hclean : a.Clean dbOf s)
    (hs : configStep dbOf s a = some s') : s'.Inv dbOf := by
  cases a with
  | commit db => exact Option.some.inj hs ▸ h.commit db
  | touch key outcome => exact Option.some.inj hs ▸ h.touchSettingsStamp hclean
  | invalidate process project outcome => exact Option.some.inj hs ▸ h.invalidate process project outcome hclean
  | drop i =>
    simp only [configStep, Option.ite_none_right_eq_some, Option.some.injEq] at hs
    obtain ⟨hi, rfl⟩ := hs
    exact (h.drop (h.known i (.inl hi))).erase (List.Subset.refl _) (List.Subset.refl _) List.erase_subset
  | start key front inode =>
    rw [← Option.some.inj hs]
    refine h.calls ⟨rfl, rfl, rfl⟩ h.sound (fun _ hi => .inl hi) (fun l hl => ?_) (fun _ hb => .inl hb)
      (fun _ _ he => .inl he) (fun _ hr => .inl hr)
    rcases List.mem_cons.mp hl with rfl | hl
    · exact .inr (h.start key front inode)
    · exact .inl hl
  | look load now =>
    simp only [configStep, Option.ite_none_right_eq_some, Option.some.injEq] at hs
    obtain ⟨hload, rfl⟩ := hs
    exact (h.look (h.load load hload) now).erase List.erase_subset (List.Subset.refl _) (List.Subset.refl _)
  | read b readable =>
    simp only [configStep, Option.ite_none_right_eq_some, Option.some.injEq] at hs
    obtain ⟨⟨hb, -⟩, rfl⟩ := hs
    have hreadable : readable = true := hclean
    rw [if_pos hreadable]
    exact h.read hb
  | finish b now =>
    simp only [configStep, Option.ite_none_right_eq_some, Option.some.injEq] at hs
    obtain ⟨⟨hb, -⟩, rfl⟩ := hs
    exact (h.finish hb now).erase (List.Subset.refl _) List.erase_subset (List.Subset.refl _)

theorem Inv.empty (dbOf : ConfigKey → Database) : Inv dbOf {} where
  sound := Sound.empty _ _ _
  nodup := fun _ => List.nodup_nil
  past := fun _ _ hr => nomatch hr
  known := fun _ hi => hi.elim (fun hi => nomatch hi) fun hi => nomatch hi
  load := fun _ hl => nomatch hl
  build := fun _ hb => nomatch hb
  entry := fun _ _ he => nomatch he
  loaded := fun _ hr => nomatch hr

end ConfigCache

/-- The settings that a load returns were read after every commit that an invalidation before its start
followed, when the invalidation reaches the load. -/
theorem loadConfig_current {actions : List ConfigAction}
    (hclean : Runs.Meets (configStep dbOf) (fun s a => a.Clean dbOf s) {} actions)
    (h : Runs.exec (configStep dbOf) {} actions = some s) {r : Loaded} (hr : r ∈ s.loaded)
    (hi : i ∈ s.invalidations.take r.started) (hreaches : i.Reaches dbOf r.key) :
    ∃ n, r.settings = some n ∧ i.commits ≤ n := by
  have hinv : s.Inv dbOf :=
    Runs.invariant_of_guard (fun _ _ _ hinv hg hstep => ConfigCache.Inv.step hinv hg hstep)
      (ConfigCache.Inv.empty dbOf) hclean h
  obtain ⟨-, n, hn, hall⟩ := hinv.loaded r hr
  exact ⟨n, hn, hall i hi hreaches⟩

/-- The write of one process reaches the cache of another through the stamp file. -/
theorem loadConfig_current_across_processes :
    let db : Database := .sqlite "sova.db".toList
    let key : ConfigKey := ⟨0, "shop".toList⟩
    let stamp : FileStamp := ⟨5, 19, 7⟩
    let load : Load := ⟨key, ⟨⟨0, none⟩, db, none, none⟩, some sqliteConfigCacheTtl, 0, 0⟩
    let build : Build := ⟨load, none, ⟨key, (0, 0), 0⟩, .pending⟩
    let entry : ConfigEntry :=
      { fingerprint := load.fingerprint, settings := some 0, builtAt := 1, began := 0, seen := 0 }
    let reload : Load := ⟨key, ⟨⟨0, none⟩, db, none, some stamp⟩, some sqliteConfigCacheTtl, 1, 1⟩
    let rebuild : Build := ⟨reload, some entry, ⟨key, (0, 0), 1⟩, .pending⟩
    let write : Invalidation := ⟨1, some "shop".toList, some "sova.db.settings-stamp".toList, 1⟩
    let actions : List ConfigAction :=
      [.start key ⟨0, none⟩ none, .look load 0, .read build true, .finish { build with read := .settings 0 } 1,
        .commit db, .invalidate 1 (some "shop".toList) (some stamp), .drop write,
        .start key ⟨0, none⟩ none, .look reload 2, .read rebuild true,
        .finish { rebuild with read := .settings 1 } 3]
    ∃ s, Runs.exec (configStep fun _ => db) {} actions = some s ∧ ∃ r ∈ s.loaded,
      write ∈ s.invalidations.take r.started ∧ ∃ n, r.settings = some n ∧ write.commits ≤ n := by
  intro db key stamp load build entry reload rebuild write actions
  have hreaches : write.Reaches (fun _ => db) key := .inr ⟨_, rfl, rfl⟩
  have hclean : Runs.Meets (configStep fun _ => db) (fun s a => a.Clean (fun _ => db) s) {} actions := by decide
  exact ⟨_, rfl, _, List.mem_cons_self, List.mem_cons_self,
    loadConfig_current hclean rfl List.mem_cons_self List.mem_cons_self hreaches⟩

/-- A load in one process, after a commit and an invalidation in another, may be served what was read before
the commit: when the invalidation names no project, when the database is remote, when the stamp file could not
be replaced, and when a later replacement leaves the triple that the entry was stored with. -/
theorem loadConfig_stale :
    let key : Nat → ConfigKey := fun process => ⟨process, "shop".toList⟩
    let sqlite : Database := .sqlite "sova.db".toList
    let remote : Database := .remote "postgresql+psycopg://db/sova".toList
    let load : Database → Option FileStamp → Nat → Nat → Load := fun db stamp started seen =>
      ⟨key 0, ⟨⟨0, none⟩, db, none, stamp⟩, some (if db = sqlite then sqliteConfigCacheTtl else pgConfigCacheTtl),
        started, seen⟩
    let build : Load → DbRead → Build := fun l read => ⟨l, none, ⟨key 0, (0, 0), 0⟩, read⟩
    let cached : Load → List ConfigAction := fun l =>
      [.start (key 0) ⟨0, none⟩ none, .look l 0, .read (build l .pending) true, .finish (build l (.settings 0)) 1]
    let again : Load → List ConfigAction := fun l => [.start (key 0) ⟨0, none⟩ none, .look l 2]
    let stale : Database → List ConfigAction → Prop := fun db actions =>
      ∃ s, Runs.exec (configStep fun _ => db) {} actions = some s ∧
        ∃ r ∈ s.loaded, ∃ i ∈ s.invalidations.take r.started, r.settings = some 0 ∧ i.commits = 1
    let first : FileStamp := ⟨5, 19, 7⟩
    let second : FileStamp := ⟨5, 19, 8⟩
    let file : Text := "sova.db.settings-stamp".toList
    let project : Text := "shop".toList
    stale sqlite (cached (load sqlite none 0 0) ++
      [.commit sqlite, .invalidate 1 none none, .drop ⟨1, none, none, 1⟩] ++ again (load sqlite none 1 0)) ∧
    stale remote (cached (load remote none 0 0) ++
      [.commit remote, .invalidate 1 (some project) none, .drop ⟨1, some project, none, 1⟩] ++
      again (load remote none 1 0)) ∧
    stale sqlite (cached (load sqlite none 0 0) ++
      [.commit sqlite, .invalidate 1 (some project) none, .drop ⟨1, some project, none, 1⟩] ++
      again (load sqlite none 1 0)) ∧
    stale sqlite ([.touch (key 1) (some first)] ++ cached (load sqlite (some first) 0 1) ++
      [.commit sqlite, .invalidate 1 (some project) (some second), .drop ⟨1, some project, some file, 1⟩,
        .touch (key 1) (some first)] ++ again (load sqlite (some first) 1 3)) := by
  refine ⟨⟨_, rfl, ?_⟩, ⟨_, rfl, ?_⟩, ⟨_, rfl, ?_⟩, ⟨_, rfl, ?_⟩⟩ <;>
    exact ⟨_, List.mem_cons_self, _, List.mem_cons_self, rfl, rfl⟩

end Config
