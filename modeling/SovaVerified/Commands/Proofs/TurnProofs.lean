import SovaVerified.Commands.Distribution

/-!
# The turns of the sync

What a turn of a loop does with a name depends on the entry of the name and on what its place looks like, and
it changes nothing else.
-/

namespace Commands

open Files

variable {π : Type*} {target : Target π} {ops : FileOps} {s s' : Sync π} {name newHash : Text}

/-! ## The manifest -/

theorem manifest_data (m : Manifest) : m.data.manifest = m := by
  have hcommands : (m.data.commands.map fun e => (e.1, e.2.entry)) = m.commands := by
    unfold Manifest.data EntryData.entry
    rw [List.map_map]
    exact List.map_id'' (fun _ => rfl) m.commands
  obtain ⟨version, commands, nodup⟩ := m
  unfold ManifestData.manifest
  simp only [hcommands, Manifest.mk.injEq]
  exact ⟨rfl, Assoc.ofEntries_of_nodup nodup⟩

theorem get_set (m : Manifest) (name other : Text) (entry : ManifestEntry) :
    (m.set name entry).get other = if other = name then some entry else m.get other :=
  Assoc.get_set m.commands name other entry

theorem get_del (m : Manifest) (name other : Text) :
    (m.del name).get other = if other = name then none else m.get other := by
  unfold Manifest.get Manifest.del
  split
  next h =>
    rw [h]
    exact Assoc.get_del_self m.commands name
  next h => exact Assoc.get_del_ne m.commands h

theorem mem_retired {working : Manifest} {sources : List (Text × Option Text)} :
    name ∈ retired working sources ↔ (working.get name).isSome = true ∧ name ∉ sources.map Prod.fst := by
  unfold retired Manifest.get Manifest.names
  rw [List.mem_filter, (List.perm_insertionSort _ _).mem_iff, Assoc.get_isSome_iff, decide_eq_true_eq]

/-! ## The decisions -/

section Decision

variable {entry : Option ManifestEntry} {isFile : Bool} {installedHash : Option Text}

/-- An entry with the canonical hash is left alone. -/
theorem decision_recorded (newHash : Text) (isFile : Bool) (installedHash : Option Text) :
    decision (some ⟨newHash, true⟩) newHash isFile installedHash false = .skip :=
  if_pos ⟨rfl, rfl⟩

/-- Without force only a file with the recorded hash is written over. -/
theorem decision_write (h : decision entry newHash isFile installedHash false = .write) (hfile : isFile = true) :
    ∃ e, entry = some e ∧ installedHash = some e.hash := by
  subst hfile
  cases entry with
  | none =>
    unfold decision at h
    dsimp only at h
    rw [if_pos rfl] at h
    by_cases hinstalled : installedHash = some newHash
    · rw [if_pos hinstalled] at h
      cases h
    · rw [if_neg hinstalled] at h
      exact absurd h (by decide)
  | some e =>
    refine ⟨e, rfl, ?_⟩
    unfold decision at h
    dsimp only at h
    split_ifs at h with hcanonical hinstalled hrecorded hother
    by_contra hne
    exact hother ⟨rfl, rfl, .inr hne⟩

/-- A file that is neither canonical nor recorded is a conflict. -/
theorem decision_conflict (hinstalled : installedHash ≠ some newHash)
    (hentry : entry = none ∨ ∃ e, entry = some e ∧ e.hash ≠ newHash ∧ installedHash ≠ some e.hash) :
    decision entry newHash true installedHash false = .conflict := by
  rcases hentry with rfl | ⟨e, rfl, hcanonical, hrecorded⟩
  · unfold decision
    dsimp only
    rw [if_pos rfl, if_neg hinstalled]
    rfl
  · unfold decision
    dsimp only
    rw [if_neg (fun h => hcanonical h.2), if_neg hinstalled, if_pos ⟨rfl, rfl, .inr hrecorded⟩]

theorem pruneDecision_unlink {e : ManifestEntry}
    (h : pruneDecision e isFile installedHash false = .unlink) :
    e.managed = true ∧ installedHash = some e.hash := by
  unfold pruneDecision at h
  split_ifs at h with hmanaged hfile hhash
  refine ⟨by simpa using hmanaged, ?_⟩
  by_contra hne
  exact hhash ⟨hne, rfl⟩

theorem pruneDecision_forget {e : ManifestEntry}
    (h : pruneDecision e isFile installedHash false = .forget) : e.managed = true := by
  unfold pruneDecision at h
  split_ifs at h with hmanaged hfile
  simpa using hmanaged

end Decision

/-! ## One turn of a loop -/

/-- What a turn reads of a name: its entry, and what its place looks like. -/
def localOf (target : Target π) (s : Sync π) (name : Text) : Option ManifestEntry × FileNode π :=
  (s.working.get name, follow s.tree (target.place name))

/-- The decision of the main loop, without force. -/
def verdict (target : Target π) (l : Option ManifestEntry × FileNode π) (text : Text) : Decision :=
  decision l.1 (target.fileHash text) l.2.isFile (l.2.readText.map target.fileHash) false

/-- The decision of the pruning loop, without force. -/
def pruneVerdict (target : Target π) (e : ManifestEntry) (node : FileNode π) : PruneDecision :=
  pruneDecision e node.isFile (node.readText.map target.fileHash) false

theorem decision_eq_verdict (target : Target π) (s : Sync π) (name text : Text) :
    decision (s.working.get name) (target.fileHash text) (follow s.tree (target.place name)).isFile
      ((follow s.tree (target.place name)).readText.map target.fileHash) false =
      verdict target (localOf target s name) text := rfl

theorem pruneDecision_eq_pruneVerdict (target : Target π) (e : ManifestEntry) (node : FileNode π) :
    pruneDecision e node.isFile (node.readText.map target.fileHash) false = pruneVerdict target e node := rfl

/-- What a turn for a name may change. -/
structure Turn (target : Target π) (s s' : Sync π) (name : Text) : Prop where
  tree : ∀ p, p ≠ target.place name → s'.tree p = s.tree p
  node : (∀ q, s'.tree (target.place name) ≠ .link q) ∨ s'.tree (target.place name) = s.tree (target.place name)
  get : ∀ other, other ≠ name → s'.working.get other = s.working.get other
  conflicts : s.result.conflicts ⊆ s'.result.conflicts
  dirty : s'.dirty = false → s.dirty = false ∧ s'.working = s.working

theorem turn_skip (target : Target π) (s : Sync π) (name : Text) : Turn target s s.skip name :=
  ⟨fun _ _ => rfl, .inr rfl, fun _ _ => rfl, List.Subset.refl _, fun h => ⟨h, rfl⟩⟩

theorem turn_conflict (target : Target π) (s : Sync π) (name : Text) : Turn target s (s.conflict name) name :=
  ⟨fun _ _ => rfl, .inr rfl, fun _ _ => rfl, List.subset_append_left _ _, fun h => ⟨h, rfl⟩⟩

theorem turn_record (target : Target π) (s : Sync π) (name newHash : Text) :
    Turn target s (s.record name newHash) name := by
  refine ⟨fun _ _ => rfl, .inr rfl, fun other hne => ?_, List.Subset.refl _, fun h => nomatch h⟩
  unfold Sync.record
  rw [get_set, if_neg hne]

theorem turn_remove (target : Target π) (s : Sync π) (name : Text) : Turn target s (s.remove name) name := by
  refine ⟨fun _ _ => rfl, .inr rfl, fun other hne => ?_, List.Subset.refl _, fun h => nomatch h⟩
  unfold Sync.remove
  rw [get_del, if_neg hne]

theorem get_record_self (s : Sync π) (name newHash : Text) :
    (s.record name newHash).working.get name = some ⟨newHash, true⟩ := by
  unfold Sync.record
  rw [get_set, if_pos rfl]

theorem get_remove_self (s : Sync π) (name : Text) : (s.remove name).working.get name = none := by
  unfold Sync.remove
  rw [get_del, if_pos rfl]

theorem mem_removed_remove {entry : ManifestEntry} {n : Text} (hmanaged : entry.managed = true)
    (hn : n ∈ (s.remove name).result.removed) :
    n ∈ s.result.removed ∨ n = name ∧ ∃ e, some entry = some e ∧ e.managed = true := by
  rcases List.mem_append.mp hn with hn | hn
  · exact .inl hn
  · exact .inr ⟨List.mem_singleton.mp hn, entry, rfl, hmanaged⟩

/-- A name whose entry has the canonical hash is skipped from then on. -/
theorem verdict_recorded {text : Text} (s : Sync π)
    (h : s.working.get name = some ⟨target.fileHash text, true⟩) :
    verdict target (localOf target s name) text = .skip := by
  unfold verdict localOf
  dsimp only
  rw [h]
  exact decision_recorded _ _ _

variable [DecidableEq π]

/-- A new node that is no link, at the place of the name. -/
theorem Turn.update (h : Turn target s s' name) {node : FileNode π} (hnode : ∀ q, node ≠ .link q)
    (tree : FileTree π) (htree : tree = Function.update s.tree (target.place name) node) :
    Turn target s { s' with tree := tree } name where
  tree := by
    intro p hp
    rw [htree]
    exact Function.update_of_ne hp _ _
  node := by
    left
    rw [htree]
    intro q
    dsimp only
    rw [Function.update_self]
    exact hnode q
  get := h.get
  conflicts := h.conflicts
  dirty := h.dirty

theorem writeRendered_ok {tree tree' : FileTree π} {place : π} {rendered : Text} {outcome : WriteOutcome}
    (h : writeRendered tree place rendered outcome = .ok tree') :
    tree' = Function.update tree place (.file (some rendered)) := by
  unfold writeRendered at h
  split at h
  all_goals first
    | exact (Except.ok.inj h).symm
    | cases h

/-- An error leaves the node as it was, or nothing, or some text. -/
theorem writeRendered_error {tree tree' : FileTree π} {place : π} {rendered : Text} {outcome : WriteOutcome}
    (h : writeRendered tree place rendered outcome = .error tree') : ∀ p, p ≠ place → tree' p = tree p := by
  intro p hp
  unfold writeRendered at h
  split at h
  all_goals first
    | (cases h; done)
    | (cases h; rfl)
    | (cases h; exact Function.update_of_ne hp _ _)

/-- A turn of the main loop that does not raise. -/
theorem syncFile_ok {rendered : Option Text} (h : syncFile target ops false s (name, rendered) = .ok s') :
    ∃ text, rendered = some text ∧ Turn target s s' name ∧ s'.result.removed = s.result.removed ∧
      (s'.tree (target.place name) ≠ s.tree (target.place name) →
        verdict target (localOf target s name) text = .write) ∧
      (verdict target (localOf target s name) text = .conflict → name ∈ s'.result.conflicts) ∧
      (verdict target (localOf target s' name) text = .skip ∨
        verdict target (localOf target s' name) text = .conflict) := by
  cases rendered with
  | none => cases h
  | some text =>
    refine ⟨text, rfl, ?_⟩
    unfold syncFile at h
    dsimp only at h
    rw [decision_eq_verdict] at h
    generalize hverdict : verdict target (localOf target s name) text = d at h ⊢
    cases d with
    | skip =>
      obtain rfl := Except.ok.inj h
      exact ⟨turn_skip target s name, rfl, fun hne => absurd rfl hne, fun hc => (nomatch hc), .inl hverdict⟩
    | adopt =>
      obtain rfl := Except.ok.inj h
      have hrecord := turn_record target s name (target.fileHash text)
      refine ⟨⟨hrecord.tree, hrecord.node, hrecord.get, hrecord.conflicts, hrecord.dirty⟩, rfl,
        fun hne => absurd rfl hne, fun hc => (nomatch hc), .inl ?_⟩
      exact verdict_recorded (s.record name (target.fileHash text)).skip (get_record_self s name _)
    | conflict =>
      obtain rfl := Except.ok.inj h
      exact ⟨turn_conflict target s name, rfl, fun hne => absurd rfl hne,
        fun _ => List.mem_append_right _ List.mem_cons_self, .inr hverdict⟩
    | write =>
      dsimp only at h
      split at h
      next => cases h
      next tree hwrite =>
        obtain rfl := Except.ok.inj h
        have hnode : ∀ q : π, (FileNode.file (some text) : FileNode π) ≠ .link q := fun _ hq => nomatch hq
        have hupdate := (turn_record target s name (target.fileHash text)).update hnode tree
          (writeRendered_ok hwrite)
        refine ⟨⟨hupdate.tree, hupdate.node, hupdate.get, hupdate.conflicts, hupdate.dirty⟩, rfl, fun _ => rfl,
          fun hc => (nomatch hc), .inl ?_⟩
        exact verdict_recorded _ (get_record_self s name _)

/-- A turn of the main loop that raises. -/
theorem syncFile_error {rendered : Option Text} {e : Sync π}
    (h : syncFile target ops false s (name, rendered) = .error e) :
    e.result = s.result ∧ (∀ p, p ≠ target.place name → e.tree p = s.tree p) ∧
      (e.tree (target.place name) ≠ s.tree (target.place name) →
        ∃ text, verdict target (localOf target s name) text = .write) := by
  cases rendered with
  | none =>
    obtain rfl := Except.error.inj h
    exact ⟨rfl, fun _ _ => rfl, fun hne => absurd rfl hne⟩
  | some text =>
    unfold syncFile at h
    dsimp only at h
    rw [decision_eq_verdict] at h
    generalize hverdict : verdict target (localOf target s name) text = d at h
    cases d with
    | skip => cases h
    | adopt => cases h
    | conflict => cases h
    | write =>
      dsimp only at h
      split at h
      next tree hwrite =>
        obtain rfl := Except.error.inj h
        exact ⟨rfl, writeRendered_error hwrite, fun _ => ⟨text, hverdict⟩⟩
      next => cases h

/-- A turn of the pruning loop that does not raise. -/
theorem pruneFile_ok (h : pruneFile target ops false s name = .ok s') :
    Turn target s s' name ∧
      (∀ n ∈ s'.result.removed, n ∈ s.result.removed ∨ n = name ∧ ∃ e, s.working.get name = some e ∧
        e.managed = true) ∧
      (s'.tree (target.place name) ≠ s.tree (target.place name) → ∃ e, s.working.get name = some e ∧
        pruneVerdict target e (follow s.tree (target.place name)) = .unlink) ∧
      ((∀ n, ops.unlink n ≠ .failed) → ∀ e, s'.working.get name = some e →
        pruneVerdict target e (follow s'.tree (target.place name)) = .keep ∨
          pruneVerdict target e (follow s'.tree (target.place name)) = .conflict) := by
  unfold pruneFile at h
  cases hentry : s.working.get name with
  | none =>
    rw [hentry] at h
    obtain rfl := Except.ok.inj h
    refine ⟨⟨fun _ _ => rfl, .inr rfl, fun _ _ => rfl, List.Subset.refl _, fun hd => ⟨hd, rfl⟩⟩,
      fun _ hn => .inl hn, fun hne => absurd rfl hne, fun _ e he => ?_⟩
    rw [hentry] at he
    cases he
  | some entry =>
    rw [hentry] at h
    dsimp only at h
    rw [pruneDecision_eq_pruneVerdict] at h
    generalize hverdict : pruneVerdict target entry (follow s.tree (target.place name)) = d at h
    cases d with
    | keep =>
      obtain rfl := Except.ok.inj h
      refine ⟨⟨fun _ _ => rfl, .inr rfl, fun _ _ => rfl, List.Subset.refl _, fun hd => ⟨hd, rfl⟩⟩,
        fun _ hn => .inl hn, fun hne => absurd rfl hne, fun _ e he => ?_⟩
      rw [hentry] at he
      exact .inl (Option.some.inj he ▸ hverdict)
    | forget =>
      obtain rfl := Except.ok.inj h
      refine ⟨turn_remove target s name, fun n hn => ?_, fun hne => absurd rfl hne, fun _ e he => ?_⟩
      · exact mem_removed_remove (pruneDecision_forget hverdict) hn
      · rw [get_remove_self] at he
        cases he
    | conflict =>
      obtain rfl := Except.ok.inj h
      refine ⟨turn_conflict target s name, fun _ hn => .inl hn, fun hne => absurd rfl hne, fun _ e he => ?_⟩
      have hsame : s.working.get name = some e := he
      rw [hentry] at hsame
      exact .inr (Option.some.inj hsame ▸ hverdict)
    | unlink =>
      dsimp only at h
      cases hunlink : ops.unlink name with
      | done =>
        rw [hunlink] at h
        obtain rfl := Except.ok.inj h
        have hnode : ∀ q : π, (FileNode.absent : FileNode π) ≠ .link q := fun _ hq => nomatch hq
        have hupdate := (turn_remove target s name).update hnode _ rfl
        refine ⟨⟨hupdate.tree, hupdate.node, hupdate.get, hupdate.conflicts, hupdate.dirty⟩, fun n hn => ?_,
          fun _ => ⟨entry, rfl, hverdict⟩, fun _ e he => ?_⟩
        · exact mem_removed_remove (pruneDecision_unlink hverdict).1 hn
        · rw [get_remove_self] at he
          cases he
      | failed =>
        rw [hunlink] at h
        obtain rfl := Except.ok.inj h
        exact ⟨turn_conflict target s name, fun _ hn => .inl hn, fun hne => absurd rfl hne,
          fun hall => absurd hunlink (hall name)⟩
      | raised =>
        rw [hunlink] at h
        cases h

/-- The pruning loop raises with the state that it has. -/
theorem pruneFile_error {e : Sync π} (h : pruneFile target ops false s name = .error e) : e = s := by
  unfold pruneFile at h
  split at h
  · cases h
  · dsimp only at h
    split at h
    · cases h
    · cases h
    · cases h
    · split at h
      · cases h
      · cases h
      · exact (Except.error.inj h).symm

end Commands
