import SovaVerified.Core.PrDiffGuard
import SovaVerified.Regex.Proofs.SearchProofs

/-!
# Which pins the guard pairs

The pairs of a name are the removal and the addition at the same position among those of the name. They are
the moves of its occurrences as long as no deletion, insertion or reordering brings lines of two occurrences
to one position.
-/

namespace Core.PrDiffGuard

/-! ## The loop -/

/-- The versions of a name on the removed lines or on the added ones, in order. -/
def versions (pins : List PinLine) (removed : Bool) (name : Text) : List Text :=
  ((pins.filter fun pin => pin.removed == removed).filter fun pin => pin.name = name).map PinLine.version

/-- The entries that the loop makes of the removed or of the added lines. -/
def entries (pins : List PinLine) (removed : Bool) : List (Text × Text) :=
  (pins.filter fun pin => pin.removed == removed).map fun pin => (pin.name, pin.version)

variable {c : Collected} {pins : List PinLine} {name v w : Text}

theorem foldl_add_maps (pins : List PinLine) (c : Collected) :
    (pins.foldl Collected.add c).removedByName =
        (entries pins true).foldl (fun m e => Assoc.push m e.1 e.2) c.removedByName ∧
      (pins.foldl Collected.add c).addedByName =
        (entries pins false).foldl (fun m e => Assoc.push m e.1 e.2) c.addedByName := by
  induction pins generalizing c with
  | nil => exact ⟨rfl, rfl⟩
  | cons pin pins ih =>
    rw [List.foldl_cons]
    obtain ⟨hremoved, hadded⟩ := ih (c.add pin)
    rw [hremoved, hadded]
    unfold Collected.add entries
    cases hpin : pin.removed <;> simp [hpin]

theorem map_entries (pins : List PinLine) (removed : Bool) (name : Text) :
    ((entries pins removed).filter fun e => e.1 = name).map Prod.snd = versions pins removed name := by
  unfold entries versions
  rw [List.filter_map, List.map_map]
  rfl

theorem get_collected (pins : List PinLine) (name : Text) :
    (Assoc.get (pins.foldl Collected.add {}).removedByName name).getD [] = versions pins true name ∧
      (Assoc.get (pins.foldl Collected.add {}).addedByName name).getD [] = versions pins false name := by
  obtain ⟨hremoved, hadded⟩ := foldl_add_maps pins {}
  rw [hremoved, hadded, Assoc.getD_foldl_push, Assoc.getD_foldl_push, map_entries, map_entries]
  exact ⟨rfl, rfl⟩

/-- A name that has been seen is in the order. -/
def Collected.Ordered (c : Collected) : Prop :=
  ∀ name, (Assoc.get c.removedByName name).isSome ∨ (Assoc.get c.addedByName name).isSome →
    name ∈ c.nameOrder

theorem Collected.mem_nameOrder_add (h : c.Ordered) (pin : PinLine) :
    (∀ name ∈ c.nameOrder, name ∈ (c.add pin).nameOrder) ∧ pin.name ∈ (c.add pin).nameOrder := by
  have horder : (c.add pin).nameOrder =
      if (Assoc.get c.removedByName pin.name).isNone && (Assoc.get c.addedByName pin.name).isNone then
        c.nameOrder ++ [pin.name]
      else c.nameOrder := by
    unfold Collected.add
    cases pin.removed <;> rfl
  rw [horder]
  split_ifs with hnew
  · exact ⟨fun name hname => List.mem_append_left _ hname, List.mem_append_right _ List.mem_cons_self⟩
  · refine ⟨fun name hname => hname, h pin.name ?_⟩
    rw [Bool.and_eq_true, not_and_or, Option.isNone_iff_eq_none, Option.isNone_iff_eq_none] at hnew
    exact hnew.imp Option.isSome_iff_ne_none.mpr Option.isSome_iff_ne_none.mpr

theorem Collected.ordered_add (h : c.Ordered) (pin : PinLine) : (c.add pin).Ordered := by
  obtain ⟨hold, hnew⟩ := mem_nameOrder_add h pin
  intro name hname
  by_cases hpin : name = pin.name
  · exact hpin ▸ hnew
  · refine hold name (h name ?_)
    unfold Collected.add at hname
    cases hremoved : pin.removed <;> simp [hremoved, Assoc.push, Assoc.get_set, hpin] at hname <;>
      exact hname

theorem mem_nameOrder (pins : List PinLine) (h : c.Ordered) :
    (∀ name ∈ c.nameOrder, name ∈ (pins.foldl Collected.add c).nameOrder) ∧
      ∀ pin ∈ pins, pin.name ∈ (pins.foldl Collected.add c).nameOrder := by
  induction pins generalizing c with
  | nil => exact ⟨fun _ h => h, fun _ h => absurd h List.not_mem_nil⟩
  | cons pin pins ih =>
    obtain ⟨hold, hnew⟩ := Collected.mem_nameOrder_add h pin
    obtain ⟨hkeep, hmem⟩ := ih (Collected.ordered_add h pin)
    rw [List.foldl_cons]
    refine ⟨fun name hname => hkeep name (hold name hname), ?_⟩
    rw [List.forall_mem_cons]
    exact ⟨hkeep _ hnew, hmem⟩

theorem mem_of_mem_versions {removed : Bool} (h : v ∈ versions pins removed name) :
    ∃ pin ∈ pins, pin.name = name := by
  obtain ⟨pin, hpin, -⟩ := List.mem_map.mp h
  obtain ⟨hpin, hname⟩ := List.mem_filter.mp hpin
  exact ⟨pin, List.mem_of_mem_filter hpin, of_decide_eq_true hname⟩

theorem mem_zip_iff {l l' : List Text} :
    (v, w) ∈ l.zip l' ↔ ∃ n : Nat, l[n]? = some v ∧ l'[n]? = some w := by
  rw [List.mem_iff_getElem?]
  exact exists_congr fun n => by rw [List.getElem?_zip_eq_some]

/-- The versions stand at the same position, among the removals and among the additions of a name. -/
def Paired (pins : List PinLine) (name v w : Text) : Prop :=
  ∃ n : Nat, (versions pins true name)[n]? = some v ∧ (versions pins false name)[n]? = some w

theorem mem_parsePinLinesNamed_iff {diffText : Text} {pattern : PinPattern} {pin : Pin} :
    pin ∈ parsePinLinesNamed diffText pattern ↔
      ∃ name, pin.name = some name ∧ Paired (pinLines pattern diffText) name pin.removed pin.added := by
  unfold parsePinLinesNamed
  generalize pinLines pattern diffText = pins
  obtain ⟨pinName, v, w⟩ := pin
  dsimp only
  rw [List.mem_flatMap]
  have hmem : ∀ name, ({ name := pinName, removed := v, added := w } : Pin) ∈
      (pins.foldl Collected.add {}).pairsOf name ↔ pinName = some name ∧ Paired pins name v w := by
    intro name
    unfold Collected.pairsOf Paired
    obtain ⟨hremoved, hadded⟩ := get_collected pins name
    rw [hremoved, hadded, List.mem_map, ← mem_zip_iff]
    constructor
    · rintro ⟨⟨v', w'⟩, hzip, heq⟩
      cases heq
      exact ⟨rfl, hzip⟩
    · rintro ⟨rfl, hzip⟩
      exact ⟨(v, w), hzip, rfl⟩
  constructor
  · rintro ⟨name, -, h⟩
    exact ⟨name, (hmem name).mp h⟩
  · rintro ⟨name, hname, hpaired⟩
    refine ⟨name, ?_, (hmem name).mpr ⟨hname, hpaired⟩⟩
    obtain ⟨n, hv, -⟩ := hpaired
    obtain ⟨pin, hpin, rfl⟩ := mem_of_mem_versions (List.mem_of_getElem? hv)
    have hordered : ({} : Collected).Ordered := by
      rintro x (hx | hx) <;> cases hx
    exact (mem_nameOrder pins hordered).2 pin hpin

/-! ## The names -/

/-- What a match captures is matched by a group of that number. -/
theorem matchPrefix_captured {r : Regex} {t u : Text} {g : Regex.Groups} {i : Nat}
    (h : Regex.matchPrefix r t = some g) (hget : g.get i = some u) :
    ∃ s, (i, s) ∈ Regex.captures r ∧ Regex.Matches s u :=
  Regex.search_captured (Regex.search_of_matchPrefix h) hget

/-- The group for a name takes at least one character. -/
theorem captures_name {pattern : PinPattern} {s : Regex} (h : (2, s) ∈ Regex.captures pattern.re) :
    s.nullable = false := by
  have hall : (Regex.captures pattern.re).all (fun e => e.1 != 2 || !e.2.nullable) = true := by
    cases pattern <;> rfl
  simpa using List.all_eq_true.mp hall (2, s) h

/-- A name that is captured is not empty. -/
theorem name_ne_nil {pattern : PinPattern} (hpattern : pattern ≠ .npmLock) {line : Text} {pin : PinLine}
    (h : pinLine pattern line = some pin) : pin.name ≠ [] := by
  unfold pinLine at h
  simp only [Option.bind_eq_bind, Option.bind_eq_some_iff, if_neg hpattern] at h
  obtain ⟨groups, hgroups, marker, -, version, -, name, hname, heq⟩ := h
  cases heq
  obtain ⟨s, hs, hmatches⟩ := matchPrefix_captured hgroups hname
  intro hnil
  have hnullable := hmatches.nullable hnil
  rw [captures_name hs] at hnullable
  cases hnullable

/-! ## The report -/

variable {packaging : Option Before}

/-- A name that is a dependency in the file. -/
structure Dependency (path : Text) where
  name : Text
  name_ne : name ≠ []
  not_metadata : isMetadata path name = false

/-- The patterns that capture a name. -/
abbrev NamedPattern := { pattern : PinPattern // pattern ≠ .npmLock }

theorem parsePinLines_named (path diffText : Text) (pattern : NamedPattern) :
    parsePinLines path diffText pattern.1 =
      (parsePinLinesNamed diffText pattern.1).filter fun pin => !(pin.name.any (isMetadata path)) := by
  obtain ⟨pattern, hpattern⟩ := pattern
  cases pattern with
  | npmLock => exact absurd rfl hpattern
  | _ => rfl

/-- The guard reports a downgrade of the dependency. -/
def Reports (packaging : Option Before) (path diffText : Text) (pattern : PinPattern) (name v w : Text) :
    Prop :=
  { file := path, package := name, fromVersion := v, toVersion := w } ∈
    pinDowngradesForFile packaging path diffText pattern

theorem reports_iff_paired {path diffText : Text} {pattern : NamedPattern} {dep : Dependency path} :
    Reports packaging path diffText pattern dep.name v w ↔
      Paired (pinLines pattern diffText) dep.name v w ∧ isDowngrade packaging v w = true := by
  unfold Reports pinDowngradesForFile downgradesInPins
  rw [parsePinLines_named]
  constructor
  · intro h
    obtain ⟨pin, hpin, heq⟩ := List.mem_map.mp h
    obtain ⟨hparsed, hdowngrade⟩ := List.mem_filter.mp hpin
    obtain ⟨name, hname, hpaired⟩ := mem_parsePinLinesNamed_iff.mp (List.mem_of_mem_filter hparsed)
    injection heq with hfile hpackage hfrom hto
    have hne : name ≠ [] := by
      obtain ⟨n, hv, -⟩ := id hpaired
      obtain ⟨line, hline, rfl⟩ := mem_of_mem_versions (List.mem_of_getElem? hv)
      obtain ⟨text, -, htext⟩ := List.mem_filterMap.mp hline
      exact name_ne_nil pattern.2 htext
    have hdep : name = dep.name := by
      rw [← hpackage, hname]
      unfold packageOf
      rw [if_neg (by exact hne)]
      rfl
    subst hfrom hto
    exact ⟨hdep ▸ hpaired, hdowngrade⟩
  · rintro ⟨hpaired, hdowngrade⟩
    refine List.mem_map.mpr ⟨{ name := some dep.name, removed := v, added := w }, ?_, ?_⟩
    · refine List.mem_filter.mpr ⟨List.mem_filter.mpr ⟨?_, ?_⟩, hdowngrade⟩
      · exact mem_parsePinLinesNamed_iff.mpr ⟨dep.name, rfl, hpaired⟩
      · show (!(isMetadata path dep.name)) = true
        rw [dep.not_metadata]
        rfl
    · unfold packageOf
      rw [if_neg (by exact dep.name_ne)]
      rfl

/-! ## Occurrences -/

/-- A diff of a file in which a name is pinned any number of times. The occurrences are numbered, and an
occurrence that has changed has a removed line, an added one or both. -/
structure PinDiff (pattern : PinPattern) (name : Text) where
  text : Text
  removed : List Nat
  added : List Nat
  old : Nat → Text
  new : Nat → Text
  removed_nodup : removed.Nodup
  added_nodup : added.Nodup
  removed_eq : versions (pinLines pattern text) true name = removed.map old
  added_eq : versions (pinLines pattern text) false name = added.map new

/-- An occurrence has moved from one version to another. -/
def PinDiff.Moved {pattern : PinPattern} (d : PinDiff pattern name) (v w : Text) : Prop :=
  ∃ i ∈ d.removed, i ∈ d.added ∧ d.old i = v ∧ d.new i = w

/-- Where lines of two occurrences stand at one position, they are no downgrade, or one that an occurrence
has also made; and an occurrence that was downgraded has its two lines at one position, or its versions stand
at a position of their own. -/
structure PinDiff.InStep {pattern : PinPattern} (packaging : Option Before) (d : PinDiff pattern name) :
    Prop where
  crossed : ∀ n i j : Nat, d.removed[n]? = some i → d.added[n]? = some j → i ≠ j →
    isDowngrade packaging (d.old i) (d.new j) = true → d.Moved (d.old i) (d.new j)
  shifted : ∀ i ∈ d.removed, i ∈ d.added → isDowngrade packaging (d.old i) (d.new i) = true →
    d.removed.idxOf i ≠ d.added.idxOf i →
      ∃ n j k : Nat, d.removed[n]? = some j ∧ d.added[n]? = some k ∧ d.old j = d.old i ∧ d.new k = d.new i

variable {pattern : PinPattern} {d : PinDiff pattern name}

theorem PinDiff.paired_iff : Paired (pinLines pattern d.text) name v w ↔
    ∃ n i j : Nat, d.removed[n]? = some i ∧ d.added[n]? = some j ∧ d.old i = v ∧ d.new j = w := by
  unfold Paired
  rw [d.removed_eq, d.added_eq]
  simp only [List.getElem?_map, Option.map_eq_some_iff]
  constructor
  · rintro ⟨n, ⟨i, hi, hold⟩, j, hj, hnew⟩
    exact ⟨n, i, j, hi, hj, hold, hnew⟩
  · rintro ⟨n, i, j, hi, hj, hold, hnew⟩
    exact ⟨n, ⟨i, hi, hold⟩, j, hj, hnew⟩

theorem PinDiff.paired_of_moved (h : d.InStep packaging) (hmoved : d.Moved v w)
    (hdowngrade : isDowngrade packaging v w = true) : Paired (pinLines pattern d.text) name v w := by
  obtain ⟨i, hremoved, hadded, rfl, rfl⟩ := hmoved
  refine paired_iff.mpr ?_
  by_cases hidx : d.removed.idxOf i = d.added.idxOf i
  · refine ⟨d.removed.idxOf i, i, i, List.getElem?_idxOf hremoved, ?_, rfl, rfl⟩
    rw [hidx]
    exact List.getElem?_idxOf hadded
  · obtain ⟨n, j, k, hj, hk, hold, hnew⟩ := h.shifted i hremoved hadded hdowngrade hidx
    exact ⟨n, j, k, hj, hk, hold, hnew⟩

theorem PinDiff.moved_of_paired (h : d.InStep packaging)
    (hpaired : Paired (pinLines pattern d.text) name v w) (hdowngrade : isDowngrade packaging v w = true) :
    d.Moved v w := by
  obtain ⟨n, i, j, hi, hj, rfl, rfl⟩ := paired_iff.mp hpaired
  by_cases hij : i = j
  · subst hij
    exact ⟨i, List.mem_of_getElem? hi, List.mem_of_getElem? hj, rfl, rfl⟩
  · exact h.crossed n i j hi hj hij hdowngrade

theorem reports_moves_iff_inStep (packaging : Option Before) (path : Text) (pattern : NamedPattern)
    (dep : Dependency path) (d : PinDiff pattern dep.name) :
    (∀ v w, Reports packaging path d.text pattern dep.name v w ↔
      d.Moved v w ∧ isDowngrade packaging v w = true) ↔ d.InStep packaging := by
  constructor
  · intro h
    have hmoves : ∀ v w, isDowngrade packaging v w = true →
        (Paired (pinLines pattern d.text) dep.name v w ↔ d.Moved v w) := by
      intro v w hdowngrade
      have hpaired : Reports packaging path d.text pattern dep.name v w ↔ _ := reports_iff_paired
      have hreports := hpaired.symm.trans (h v w)
      simpa [hdowngrade] using hreports
    refine ⟨fun n i j hi hj _ hdowngrade => ?_, fun i hremoved hadded hdowngrade _ => ?_⟩
    · exact (hmoves _ _ hdowngrade).mp (PinDiff.paired_iff.mpr ⟨n, i, j, hi, hj, rfl, rfl⟩)
    · exact PinDiff.paired_iff.mp ((hmoves _ _ hdowngrade).mpr ⟨i, hremoved, hadded, rfl, rfl⟩)
  · intro h v w
    rw [reports_iff_paired]
    constructor
    · rintro ⟨hpaired, hdowngrade⟩
      exact ⟨PinDiff.moved_of_paired h hpaired hdowngrade, hdowngrade⟩
    · rintro ⟨hmoved, hdowngrade⟩
      exact ⟨PinDiff.paired_of_moved h hmoved hdowngrade, hdowngrade⟩

/-- Of two pins the first is deleted and the second one upgraded. -/
def deletedAndUpgraded : PinDiff .pythonRequirement "a".toList where
  text := "-a==2.0\n-a==1.0\n+a==1.5\n".toList
  removed := [0, 1]
  added := [1]
  old i := if i = 0 then "2.0".toList else "1.0".toList
  new _ := "1.5".toList
  removed_nodup := by decide
  added_nodup := by decide
  removed_eq := by decide +kernel
  added_eq := by decide +kernel

/-- The removal of the deleted pin is paired with the addition of the other one. -/
theorem reports_upgrade :
    ¬ ∀ (packaging : Option Before) (path : Text) (pattern : NamedPattern) (dep : Dependency path)
      (d : PinDiff pattern dep.name) (v w : Text),
      Reports packaging path d.text pattern dep.name v w ↔
        d.Moved v w ∧ isDowngrade packaging v w = true := by
  intro h
  let dep : Dependency "requirements.txt".toList := ⟨"a".toList, by decide, by decide⟩
  -- on versions of plain numbers `packaging` compares as the tuples do
  let before : Before := fun added removed => compareTuples removed added
  have hreports : Reports (some before) "requirements.txt".toList deletedAndUpgraded.text .pythonRequirement
      "a".toList "2.0".toList "1.5".toList := by
    unfold Reports
    decide +kernel
  obtain ⟨i, hremoved, hadded, hold, -⟩ := ((h (some before) "requirements.txt".toList
    ⟨.pythonRequirement, by decide⟩ dep deletedAndUpgraded _ _).mp hreports).1
  obtain rfl := List.mem_singleton.mp hadded
  exact absurd hold (by decide)

end Core.PrDiffGuard
