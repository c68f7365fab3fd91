import SovaVerified.Commands.Proofs.TurnProofs
import SovaVerified.Loops.Loops

/-!
# The sync keeps local edits, and settles

As long as no name leads to the place of another one, a call treats every name as it was before the call.
-/

namespace Commands

open Files

variable {π : Type*} {s s' : Sync π} {name : Text}

/-- What a call starts with. `names` are the names that it may meet. -/
structure Call (π : Type*) where
  target : Target π
  ops : FileOps
  selected : List (Text × Option Text)
  names : Set Text
  working : Manifest
  tree : FileTree π

namespace Call

variable {c : Call π} {done : List Text} {n : Text} {rendered : Option Text}

def place (c : Call π) (n : Text) : π := c.target.place n

/-- The names of the sources that the call looks at. -/
def chosen (c : Call π) : List Text := c.selected.map Prod.fst

def before (c : Call π) (n : Text) : Option ManifestEntry × FileNode π := (c.working.get n, follow c.tree (c.place n))

/-- The recorded hash is the one of the file that is there. -/
def Recorded (c : Call π) (n : Text) : Prop :=
  ∃ e text, (c.before n).1 = some e ∧ (c.before n).2.readText = some text ∧ c.target.fileHash text = e.hash

/-- The place of the name may change: its source is selected or its entry managed, and a file at it is recorded. -/
structure May (c : Call π) (n : Text) : Prop where
  owned : n ∈ c.chosen ∨ ∃ e, (c.before n).1 = some e ∧ e.managed = true
  recorded : (c.before n).2.isFile = true → c.Recorded n

/-- A file that is not canonical, and that the manifest does not know or knows in yet another version. -/
def Diverged (c : Call π) (n : Text) (text : Text) : Prop :=
  (c.before n).2.isFile = true ∧ (c.before n).2.readText ≠ some text ∧
    ((c.before n).1 = none ∨ ∃ e, (c.before n).1 = some e ∧ e.hash ≠ c.target.fileHash text ∧
      ∀ found, (c.before n).2.readText = some found → c.target.fileHash found ≠ e.hash)

/-- Another call has nothing to do for the name. -/
structure Settled (c : Call π) (n : Text) (l : Option ManifestEntry × FileNode π) : Prop where
  source : ∀ rendered, (n, rendered) ∈ c.selected → ∃ text, rendered = some text ∧
    (verdict c.target l text = .skip ∨ verdict c.target l text = .conflict)
  retired : n ∉ c.chosen → (∀ m, c.ops.unlink m ≠ .failed) → ∀ e, l.1 = some e →
    pruneVerdict c.target e l.2 = .keep ∨ pruneVerdict c.target e l.2 = .conflict

/-- Every change of the tree is at a place that may change. -/
def Safe (c : Call π) (tree : FileTree π) : Prop :=
  ∀ p, tree p ≠ c.tree p → ∃ n ∈ c.names, c.place n = p ∧ c.May n

/-- Only managed entries without a source are removed. -/
def Pruned (c : Call π) (removed : List Text) : Prop :=
  ∀ n ∈ removed, n ∉ c.chosen ∧ ∃ e, c.working.get n = some e ∧ e.managed = true

/-- The state of a call after the turns for the names `done`. -/
structure Inv (c : Call π) (done : List Text) (s : Sync π) : Prop where
  apart : Apart s.tree c.place c.names
  known : ∀ n ∈ done, n ∈ c.names
  ahead : ∀ n ∈ c.names, n ∉ done → localOf c.target s n = c.before n
  unknown : ∀ n, n ∉ c.names → s.working.get n = none
  safe : c.Safe s.tree
  reported : ∀ n ∈ done, ∀ text, (n, some text) ∈ c.selected → c.Diverged n text → n ∈ s.result.conflicts
  settled : ∀ n ∈ done, c.Settled n (localOf c.target s n)
  pruned : c.Pruned s.result.removed
  removed : ∀ n ∈ s.result.removed, n ∈ done
  clean : s.dirty = false → s.working = c.working

/-- A change at the place of a name that may change. -/
theorem Safe.step {tree tree' : FileTree π} (h : c.Safe tree) (hname : name ∈ c.names)
    (hother : ∀ p, p ≠ c.place name → tree' p = tree p)
    (hmay : tree' (c.place name) ≠ tree (c.place name) → c.May name) : c.Safe tree' := by
  intro p hp
  by_cases hplace : p = c.place name
  · subst hplace
    by_cases hsame : tree' (c.place name) = tree (c.place name)
    · exact h _ (hsame ▸ hp)
    · exact ⟨name, hname, rfl, hmay hsame⟩
  · rw [hother p hplace] at hp
    exact h p hp

/-- A name in the manifest is one that the call may meet. -/
theorem Inv.mem_names (h : c.Inv done s) (hn : (s.working.get n).isSome = true) : n ∈ c.names := by
  by_contra hunknown
  rw [h.unknown n hunknown] at hn
  cases hn

/-- The turn for a name leaves the other names as they were. -/
theorem localOf_of_turn (hapart : Apart s.tree c.place c.names) (hturn : Turn c.target s s' name)
    (hname : name ∈ c.names) (hn : n ∈ c.names) (hne : n ≠ name) :
    localOf c.target s' n = localOf c.target s n := by
  unfold localOf
  rw [hturn.get n hne]
  exact congrArg _ (hapart.follow_other hname hn hne hturn.tree)

theorem Inv.turn (h : c.Inv done s) (hturn : Turn c.target s s' name) (hname : name ∈ c.names)
    (hnew : name ∉ done) (hmay : s'.tree (c.place name) ≠ s.tree (c.place name) → c.May name)
    (hreported : ∀ text, (name, some text) ∈ c.selected → c.Diverged name text → name ∈ s'.result.conflicts)
    (hsettled : c.Settled name (localOf c.target s' name)) (hpruned : c.Pruned s'.result.removed)
    (hremoved : ∀ n ∈ s'.result.removed, n ∈ s.result.removed ∨ n = name) : c.Inv (done ++ [name]) s' where
  apart := h.apart.of_change hturn.node hturn.tree
  known := by
    intro n hn
    rcases List.mem_append.mp hn with hn | hn
    · exact h.known n hn
    · exact List.mem_singleton.mp hn ▸ hname
  ahead := by
    intro n hn hmem
    rw [List.mem_append, List.mem_singleton, not_or] at hmem
    rw [localOf_of_turn h.apart hturn hname hn hmem.2]
    exact h.ahead n hn hmem.1
  unknown := by
    intro n hn
    have hne : n ≠ name := fun heq => hn (heq ▸ hname)
    rw [hturn.get n hne]
    exact h.unknown n hn
  safe := h.safe.step hname hturn.tree hmay
  reported := by
    intro n hn text hsource hdiverged
    rcases List.mem_append.mp hn with hn | hn
    · exact hturn.conflicts (h.reported n hn text hsource hdiverged)
    · obtain rfl := List.mem_singleton.mp hn
      exact hreported text hsource hdiverged
  settled := by
    intro n hn
    by_cases heq : n = name
    · exact heq ▸ hsettled
    · have hmem : n ∈ done := (List.mem_append.mp hn).resolve_right fun hlast => heq (List.mem_singleton.mp hlast)
      rw [localOf_of_turn h.apart hturn hname (h.known n hmem) heq]
      exact h.settled n hmem
  pruned := hpruned
  removed := by
    intro n hn
    rcases hremoved n hn with hold | rfl
    · exact List.mem_append_left _ (h.removed n hold)
    · exact List.mem_append_right _ List.mem_cons_self
  clean := by
    intro hdirty
    obtain ⟨hold, hworking⟩ := hturn.dirty hdirty
    rw [hworking]
    exact h.clean hold

/-- A selected name is the name of one source. -/
theorem selected_unique (hnodup : c.chosen.Nodup) {first second : Option Text} (h1 : (n, first) ∈ c.selected)
    (h2 : (n, second) ∈ c.selected) : first = second := by
  have hget := (Assoc.mem_iff_get hnodup).mp h1
  rw [(Assoc.mem_iff_get hnodup).mp h2] at hget
  exact (Option.some.inj hget).symm

theorem may_of_verdict_write {text : Text} (hchosen : n ∈ c.chosen)
    (h : verdict c.target (c.before n) text = .write) : c.May n := by
  refine ⟨.inl hchosen, fun hfile => ?_⟩
  obtain ⟨e, he, hhash⟩ := decision_write h hfile
  obtain ⟨found, hfound, heq⟩ := Option.map_eq_some_iff.mp hhash
  exact ⟨e, found, he, hfound, heq⟩

theorem may_of_pruneVerdict_unlink {e : ManifestEntry} (he : (c.before n).1 = some e)
    (h : pruneVerdict c.target e (c.before n).2 = .unlink) : c.May n := by
  obtain ⟨hmanaged, hhash⟩ := pruneDecision_unlink h
  obtain ⟨found, hfound, heq⟩ := Option.map_eq_some_iff.mp hhash
  exact ⟨.inr ⟨e, he, hmanaged⟩, fun _ => ⟨e, found, he, hfound, heq⟩⟩

theorem verdict_of_diverged (hinj : Function.Injective c.target.fileHash) {text : Text}
    (h : c.Diverged n text) : verdict c.target (c.before n) text = .conflict := by
  obtain ⟨hfile, htext, hentry⟩ := h
  unfold verdict
  rw [hfile]
  refine decision_conflict (fun hhash => ?_) ?_
  · obtain ⟨found, hfound, heq⟩ := Option.map_eq_some_iff.mp hhash
    exact htext (hinj heq ▸ hfound)
  · refine hentry.imp_right fun ⟨e, he, hcanonical, hrecorded⟩ => ⟨e, he, hcanonical, fun hhash => ?_⟩
    obtain ⟨found, hfound, heq⟩ := Option.map_eq_some_iff.mp hhash
    exact hrecorded found hfound heq

theorem notMem_done (hnodup : c.chosen.Nodup) {before rest : List (Text × Option Text)}
    (hl : c.selected = before ++ (n, rendered) :: rest) : n ∉ before.map Prod.fst := by
  have hchosen : c.chosen = before.map Prod.fst ++ n :: rest.map Prod.fst := by
    unfold Call.chosen
    rw [hl, List.map_append, List.map_cons]
  rw [hchosen, List.nodup_append] at hnodup
  exact fun hmem => hnodup.2.2 n hmem n List.mem_cons_self rfl

/-- The state before the first turn. -/
theorem Inv.start (c : Call π) (hapart : Apart c.tree c.place c.names)
    (hknown : ∀ n, n ∉ c.names → c.working.get n = none) :
    c.Inv [] { tree := c.tree, working := c.working } where
  apart := hapart
  known := fun _ hn => nomatch hn
  ahead := fun _ _ _ => rfl
  unknown := hknown
  safe := fun _ hp => absurd rfl hp
  reported := fun _ hn => nomatch hn
  settled := fun _ hn => nomatch hn
  pruned := fun _ hn => nomatch hn
  removed := fun _ hn => nomatch hn
  clean := fun _ => rfl

/-- In the main loop nothing is removed. -/
theorem Inv.removed_eq_nil (h : c.Inv done s) (hdone : ∀ n ∈ done, n ∈ c.chosen) : s.result.removed = [] := by
  refine List.eq_nil_iff_forall_not_mem.mpr fun n hn => ?_
  exact (h.pruned n hn).1 (hdone n (h.removed n hn))

variable [DecidableEq π]

/-- The main loop goes on. -/
theorem Inv.syncFile (h : c.Inv done s) (hinj : Function.Injective c.target.fileHash) (hnodup : c.chosen.Nodup)
    (hnames : ∀ n ∈ c.chosen, n ∈ c.names) (hsource : (name, rendered) ∈ c.selected) (hnew : name ∉ done)
    (hok : Commands.syncFile c.target c.ops false s (name, rendered) = .ok s') : c.Inv (done ++ [name]) s' := by
  obtain ⟨text, rfl, hturn, hremoved, htree, hconflict, hsettled⟩ := syncFile_ok hok
  have hchosen : name ∈ c.chosen := List.mem_map_of_mem hsource
  rw [h.ahead name (hnames name hchosen) hnew] at htree hconflict
  refine h.turn hturn (hnames name hchosen) hnew (fun hne => may_of_verdict_write hchosen (htree hne))
    (fun text' hsource' hdiverged => ?_) ⟨fun r hr => ?_, fun hretired => absurd hchosen hretired⟩
    (hremoved ▸ h.pruned) (fun n hn => .inl (hremoved ▸ hn))
  · have heq : text' = text := Option.some.inj (selected_unique hnodup hsource' hsource)
    subst heq
    exact hconflict (verdict_of_diverged hinj hdiverged)
  · exact ⟨text, selected_unique hnodup hr hsource, hsettled⟩

/-- The main loop raises. -/
theorem Inv.syncFile_error (h : c.Inv done s) (hnames : ∀ n ∈ c.chosen, n ∈ c.names)
    (hsource : (name, rendered) ∈ c.selected) (hnew : name ∉ done) {e : Sync π}
    (herror : Commands.syncFile c.target c.ops false s (name, rendered) = .error e) :
    c.Safe e.tree ∧ e.result = s.result := by
  obtain ⟨hresult, hother, htree⟩ := Commands.syncFile_error herror
  have hchosen : name ∈ c.chosen := List.mem_map_of_mem hsource
  rw [h.ahead name (hnames name hchosen) hnew] at htree
  refine ⟨h.safe.step (hnames name hchosen) hother fun hne => ?_, hresult⟩
  obtain ⟨text, hwrite⟩ := htree hne
  exact may_of_verdict_write hchosen hwrite

/-- The pruning loop goes on. -/
theorem Inv.pruneFile (h : c.Inv done s) (hname : name ∈ c.names) (hretired : name ∉ c.chosen) (hnew : name ∉ done)
    (hok : Commands.pruneFile c.target c.ops false s name = .ok s') : c.Inv (done ++ [name]) s' := by
  obtain ⟨hturn, hremoved, htree, hsettled⟩ := pruneFile_ok hok
  have hbefore := h.ahead name hname hnew
  have hget : s.working.get name = (c.before name).1 := congrArg Prod.fst hbefore
  have hnode : follow s.tree (c.target.place name) = (c.before name).2 := congrArg Prod.snd hbefore
  rw [hget] at hremoved htree
  rw [hnode] at htree
  refine h.turn hturn hname hnew (fun hne => ?_)
    (fun text hsource _ => absurd (List.mem_map_of_mem hsource) hretired)
    ⟨fun r hr => absurd (List.mem_map_of_mem hr) hretired, fun _ => hsettled⟩ (fun n hn => ?_)
    (fun n hn => (hremoved n hn).imp_right And.left)
  · obtain ⟨e, he, hunlink⟩ := htree hne
    exact may_of_pruneVerdict_unlink he hunlink
  · rcases hremoved n hn with hold | ⟨rfl, hmanaged⟩
    · exact h.pruned n hold
    · exact ⟨hretired, hmanaged⟩

/-- The main loop. -/
theorem foldlM_syncFile (c : Call π) (hinj : Function.Injective c.target.fileHash) (hnodup : c.chosen.Nodup)
    (hnames : ∀ n ∈ c.chosen, n ∈ c.names) (hapart : Apart c.tree c.place c.names)
    (hknown : ∀ n, n ∉ c.names → c.working.get n = none) :
    (∀ t, c.selected.foldlM (Commands.syncFile c.target c.ops false) { tree := c.tree, working := c.working } =
      .ok t → c.Inv c.chosen t) ∧
    ∀ e, c.selected.foldlM (Commands.syncFile c.target c.ops false) { tree := c.tree, working := c.working } =
      .error e → c.Safe e.tree ∧ e.result.removed = [] := by
  refine Loops.foldlM_rule (P := fun done t => c.Inv (done.map Prod.fst) t) (E := fun e : Sync π => c.Safe e.tree ∧
    e.result.removed = []) (Inv.start c hapart hknown) ?_ ?_
  · rintro done ⟨n, rendered⟩ rest t u hl hP hbody
    have hsource : (n, rendered) ∈ c.selected := by
      rw [hl]
      exact List.mem_append_right _ List.mem_cons_self
    have hnew := notMem_done hnodup hl
    rw [List.map_append, List.map_singleton]
    exact hP.syncFile hinj hnodup hnames hsource hnew hbody
  · rintro done ⟨n, rendered⟩ rest t e hl hP hbody
    have hsource : (n, rendered) ∈ c.selected := by
      rw [hl]
      exact List.mem_append_right _ List.mem_cons_self
    obtain ⟨hsafe, hresult⟩ := hP.syncFile_error hnames hsource (notMem_done hnodup hl) hbody
    refine ⟨hsafe, hresult ▸ hP.removed_eq_nil fun m hm => ?_⟩
    have hchosen : c.chosen = done.map Prod.fst ++ ((n, rendered) :: rest).map Prod.fst := by
      rw [← List.map_append, ← hl]
      rfl
    rw [hchosen]
    exact List.mem_append_left _ hm

/-- The pruning loop. -/
theorem foldlM_pruneFile {gone : List Text} (h : c.Inv c.chosen s) (hnodup : gone.Nodup)
    (hgone : ∀ n ∈ gone, n ∈ c.names ∧ n ∉ c.chosen) :
    (∀ t, gone.foldlM (Commands.pruneFile c.target c.ops false) s = .ok t → c.Inv (c.chosen ++ gone) t) ∧
    ∀ e, gone.foldlM (Commands.pruneFile c.target c.ops false) s = .error e →
      c.Safe e.tree ∧ c.Pruned e.result.removed := by
  refine Loops.foldlM_rule (P := fun done t => c.Inv (c.chosen ++ done) t)
    (E := fun e : Sync π => c.Safe e.tree ∧ c.Pruned e.result.removed) (by rwa [List.append_nil]) ?_ ?_
  · intro done n rest t u hl hP hbody
    have hmem : n ∈ gone := by
      rw [hl]
      exact List.mem_append_right _ List.mem_cons_self
    have hnew : n ∉ c.chosen ++ done := by
      rw [hl, List.nodup_append] at hnodup
      rw [List.mem_append, not_or]
      exact ⟨(hgone n hmem).2, fun hdone => hnodup.2.2 n hdone n List.mem_cons_self rfl⟩
    rw [← List.append_assoc]
    exact hP.pruneFile (hgone n hmem).1 (hgone n hmem).2 hnew hbody
  · intro done n rest t e hl hP hbody
    rw [pruneFile_error hbody]
    exact ⟨hP.safe, hP.pruned⟩

end Call

theorem nodup_retired (working : Manifest) (sources : List (Text × Option Text)) :
    (retired working sources).Nodup :=
  (((List.perm_insertionSort _ _).nodup_iff).mpr working.nodup).filter _

/-- How the two loops leave a call. -/
structure Looped (c : Call π) (pruneStale : Bool) (filenames : Option (List Text)) (s : Sync π) : Prop where
  inv : ∃ done, c.Inv done s ∧ (∀ n ∈ c.chosen, n ∈ done) ∧
    (pruneStale = true ∧ filenames = none → ∀ n, (s.working.get n).isSome = true → n ∈ done)
  subset : filenames.isSome = true → s.result.removed = []

/-- Nothing but the counts of what was skipped, and the conflicts, is different. -/
structure Same (s s' : Sync π) : Prop where
  tree : s'.tree = s.tree
  working : s'.working = s.working
  dirty : s'.dirty = s.dirty
  updated : s'.result.updated = s.result.updated
  updatedFiles : s'.result.updatedFiles = s.result.updatedFiles
  removed : s'.result.removed = s.result.removed

theorem Same.localOf {target : Target π} {n : Text} (h : Same s s') :
    Commands.localOf target s' n = Commands.localOf target s n := by
  unfold Commands.localOf
  rw [h.tree, h.working]

/-- The end of a call without an error: the manifest that it leaves is the one that it worked on. -/
theorem finishSync_manifest (c : Call π) {ops : FileOps} {pruneStale : Bool} {filenames : Option (List Text)}
    {manifest : Option ManifestData} (hworking : c.working = workingManifest manifest)
    (hlooped : Looped c pruneStale filenames s) (hraised : (finishSync ops manifest (.ok s)).raised = false) :
    workingManifest (finishSync ops manifest (.ok s)).manifest = s.working := by
  obtain ⟨done, hinv, -⟩ := hlooped.inv
  unfold finishSync at hraised ⊢
  dsimp only at hraised ⊢
  cases hdirty : s.dirty with
  | false =>
    rw [if_neg Bool.false_ne_true]
    exact (hinv.clean hdirty ▸ hworking).symm
  | true =>
    rw [hdirty, if_pos rfl] at hraised
    rw [if_pos rfl]
    cases hwrite : ops.writeManifest with
    | none =>
      unfold workingManifest
      exact manifest_data s.working
    | some left =>
      rw [hwrite] at hraised
      cases hraised

theorem finishSync_ok (ops : FileOps) (manifest : Option ManifestData) (s : Sync π) :
    (finishSync ops manifest (.ok s)).tree = s.tree ∧
      (finishSync ops manifest (.ok s)).result.conflicts = s.result.conflicts ∧
      (finishSync ops manifest (.ok s)).result.removed = s.result.removed := by
  unfold finishSync
  dsimp only
  split
  · split
    · exact ⟨rfl, rfl, rfl⟩
    · exact ⟨rfl, rfl, rfl⟩
  · exact ⟨rfl, rfl, rfl⟩

theorem chosen_of_all (c : Call π) {filenames : Option (List Text)} {sources : List (Text × Option Text)}
    (hselected : c.selected = selectSources filenames sources) (hall : filenames = none) :
    c.chosen = sources.map Prod.fst := by
  unfold Call.chosen
  rw [hselected, hall]
  rfl

/-- The two loops go through every entry. -/
theorem mem_done_of_pruned {c : Call π} {sources : List (Text × Option Text)} {t u : Sync π}
    (ht : c.Inv c.chosen t) (hchosen : c.chosen = sources.map Prod.fst)
    (hu : c.Inv (c.chosen ++ retired t.working sources) u) (hn : (u.working.get name).isSome = true) :
    name ∈ c.chosen ++ retired t.working sources := by
  have hname : name ∈ c.names := hu.mem_names hn
  by_contra hdone
  have hnot : name ∉ c.chosen := fun h => hdone (List.mem_append_left _ h)
  have hafter : u.working.get name = (c.before name).1 := congrArg Prod.fst (hu.ahead name hname hdone)
  have hbefore : t.working.get name = (c.before name).1 := congrArg Prod.fst (ht.ahead name hname hnot)
  rw [hafter, ← hbefore] at hn
  exact hdone (List.mem_append_right _ (mem_retired.mpr ⟨hn, hchosen ▸ hnot⟩))

section Loops

variable [DecidableEq π] {target : Target π} {ops : FileOps} {pruneStale : Bool} {filenames : Option (List Text)}
  {sources : List (Text × Option Text)} {start : Sync π}

theorem syncLoops_of_ok {t : Sync π}
    (h : (selectSources filenames sources).foldlM (syncFile target ops false) start = .ok t) :
    syncLoops target ops false pruneStale filenames sources start =
      if pruneStale = true ∧ filenames = none then
        (retired t.working sources).foldlM (pruneFile target ops false) t
      else .ok t := by
  unfold syncLoops
  rw [h]
  rfl

theorem syncLoops_of_error {e : Sync π}
    (h : (selectSources filenames sources).foldlM (syncFile target ops false) start = .error e) :
    syncLoops target ops false pruneStale filenames sources start = .error e := by
  unfold syncLoops
  rw [h]
  rfl

theorem syncLoops_spec (c : Call π) (hselected : c.selected = selectSources filenames sources)
    (hinj : Function.Injective c.target.fileHash) (hnodup : c.chosen.Nodup) (hnames : ∀ n ∈ c.chosen, n ∈ c.names)
    (hapart : Apart c.tree c.place c.names) (hknown : ∀ n, n ∉ c.names → c.working.get n = none) :
    (∀ t, syncLoops c.target c.ops false pruneStale filenames sources { tree := c.tree, working := c.working } =
      .ok t → Looped c pruneStale filenames t) ∧
    ∀ e, syncLoops c.target c.ops false pruneStale filenames sources { tree := c.tree, working := c.working } =
      .error e → c.Safe e.tree ∧ c.Pruned e.result.removed ∧ (filenames.isSome = true → e.result.removed = []) := by
  obtain ⟨hmain, hmainError⟩ := c.foldlM_syncFile hinj hnodup hnames hapart hknown
  rw [hselected] at hmain hmainError
  cases hloop : (selectSources filenames sources).foldlM (syncFile c.target c.ops false)
      { tree := c.tree, working := c.working } with
  | error e =>
    obtain ⟨hsafe, hremoved⟩ := hmainError e hloop
    rw [syncLoops_of_error hloop]
    refine ⟨fun t ht => (nomatch ht), fun e' he => ?_⟩
    obtain rfl : e = e' := Except.error.inj he
    refine ⟨hsafe, ?_, fun _ => hremoved⟩
    rw [hremoved]
    exact fun _ hn => nomatch hn
  | ok t =>
    have hinv := hmain t hloop
    rw [syncLoops_of_ok hloop]
    have hnothing : t.result.removed = [] := hinv.removed_eq_nil fun _ hn => hn
    by_cases hprune : pruneStale = true ∧ filenames = none
    · have hsources := chosen_of_all c hselected hprune.2
      have hgone : ∀ n ∈ retired t.working sources, n ∈ c.names ∧ n ∉ c.chosen := by
        intro n hn
        obtain ⟨hentry, hnot⟩ := mem_retired.mp hn
        exact ⟨hinv.mem_names hentry, hsources ▸ hnot⟩
      obtain ⟨hok, herror⟩ := Call.foldlM_pruneFile hinv (nodup_retired t.working sources) hgone
      rw [if_pos hprune]
      have hno : filenames.isSome = true → False := fun hsome => by rw [hprune.2] at hsome; cases hsome
      refine ⟨fun u hu => ⟨⟨_, hok u hu, fun n hn => List.mem_append_left _ hn, fun _ n hn => ?_⟩,
        fun hsome => (hno hsome).elim⟩, fun e he => ⟨(herror e he).1, (herror e he).2, fun hsome => (hno hsome).elim⟩⟩
      exact mem_done_of_pruned hinv hsources (hok u hu) hn
    · rw [if_neg hprune]
      refine ⟨fun u hu => ?_, fun e he => (nomatch he)⟩
      obtain rfl : t = u := Except.ok.inj hu
      exact ⟨⟨c.chosen, hinv, fun _ hn => hn, fun h => absurd h hprune⟩, fun _ => hnothing⟩

/-! ## A call that has nothing to do -/

theorem syncFile_idle {text : Text} (start : Sync π) (h : Same start s)
    (hverdict : verdict target (localOf target start name) text = .skip ∨
      verdict target (localOf target start name) text = .conflict) :
    ∃ t, syncFile target ops false s (name, some text) = .ok t ∧ Same start t := by
  rw [← h.localOf] at hverdict
  unfold syncFile
  dsimp only
  rw [decision_eq_verdict]
  rcases hverdict with hskip | hconflict
  · rw [hskip]
    exact ⟨_, rfl, h.tree, h.working, h.dirty, h.updated, h.updatedFiles, h.removed⟩
  · rw [hconflict]
    exact ⟨_, rfl, h.tree, h.working, h.dirty, h.updated, h.updatedFiles, h.removed⟩

theorem pruneFile_idle (start : Sync π) (h : Same start s)
    (hverdict : ∀ e, (localOf target start name).1 = some e →
      pruneVerdict target e (localOf target start name).2 = .keep ∨
        pruneVerdict target e (localOf target start name).2 = .conflict) :
    ∃ t, pruneFile target ops false s name = .ok t ∧ Same start t := by
  rw [← h.localOf] at hverdict
  unfold pruneFile
  cases hentry : s.working.get name with
  | none => exact ⟨s, rfl, h⟩
  | some e =>
    dsimp only
    rw [pruneDecision_eq_pruneVerdict]
    have hnode : (localOf target s name).2 = follow s.tree (target.place name) := rfl
    rw [hnode] at hverdict
    rcases hverdict e hentry with hkeep | hconflict
    · rw [hkeep]
      exact ⟨s, rfl, h⟩
    · rw [hconflict]
      exact ⟨_, rfl, h.tree, h.working, h.dirty, h.updated, h.updatedFiles, h.removed⟩

/-- After a call, the loops of another one change nothing. -/
theorem syncLoops_idle (c : Call π) (hselected : c.selected = selectSources filenames sources)
    (hlooped : Looped c pruneStale filenames s) (hunlink : ∀ n, c.ops.unlink n ≠ .failed) (again : FileOps)
    (htree : start.tree = s.tree) (hworking : start.working = s.working) :
    ∃ t, syncLoops c.target again false pruneStale filenames sources start = .ok t ∧ Same start t := by
  obtain ⟨done, hinv, hchosen, hpruned⟩ := hlooped.inv
  have hlocal : ∀ n, localOf c.target start n = localOf c.target s n := by
    intro n
    unfold localOf
    rw [htree, hworking]
  have hmain : ∃ t, c.selected.foldlM (syncFile c.target again false) start = .ok t ∧ Same start t := by
    refine Loops.foldlM_total ⟨rfl, rfl, rfl, rfl, rfl, rfl⟩ ?_
    rintro ⟨n, rendered⟩ hsource t hsame
    obtain ⟨text, rfl, hverdict⟩ :=
      (hinv.settled n (hchosen n (List.mem_map_of_mem hsource))).source rendered hsource
    rw [← hlocal] at hverdict
    exact syncFile_idle start hsame hverdict
  obtain ⟨t, ht, hsame⟩ := hmain
  rw [hselected] at ht
  rw [syncLoops_of_ok ht]
  by_cases hprune : pruneStale = true ∧ filenames = none
  · rw [if_pos hprune]
    refine Loops.foldlM_total hsame fun n hn u hu => pruneFile_idle start hu ?_
    obtain ⟨hentry, hnot⟩ := mem_retired.mp hn
    rw [hsame.working, hworking] at hentry
    rw [hlocal n]
    exact (hinv.settled n (hpruned hprune n hentry)).retired (chosen_of_all c hselected hprune.2 ▸ hnot) hunlink
  · rw [if_neg hprune]
    exact ⟨t, rfl, hsame⟩

end Loops

/-- A call that looks at some sources. -/
structure Started (c : Call π) (ops : FileOps) (filenames : Option (List Text)) (manifest : Option ManifestData)
    (call : SyncOutcome π) : Prop where
  safe : c.Safe call.tree
  pruned : c.Pruned call.result.removed
  subset : filenames.isSome = true → call.result.removed = []
  reported : call.raised = false → ∀ n text, (n, some text) ∈ c.selected → c.Diverged n text →
    n ∈ call.result.conflicts

theorem selectSources_sublist (filenames : Option (List Text)) (sources : List (Text × Option Text)) :
    (selectSources filenames sources).Sublist sources := by
  unfold selectSources
  split
  · exact List.Sublist.refl _
  · exact List.filter_sublist

section UpdateFiles

variable [DecidableEq π] {pruneStale : Bool} {filenames : Option (List Text)} {sources : List (Text × Option Text)}
  {manifest : Option ManifestData} {c : Call π}

theorem started_of_loops
    (hloops : (∀ t, syncLoops c.target c.ops false pruneStale filenames sources
        { tree := c.tree, working := c.working } = .ok t → Looped c pruneStale filenames t) ∧
      ∀ e, syncLoops c.target c.ops false pruneStale filenames sources { tree := c.tree, working := c.working } =
        .error e → c.Safe e.tree ∧ c.Pruned e.result.removed ∧ (filenames.isSome = true → e.result.removed = [])) :
    Started c c.ops filenames manifest (finishSync c.ops manifest
      (syncLoops c.target c.ops false pruneStale filenames sources { tree := c.tree, working := c.working })) := by
  obtain ⟨hok, herror⟩ := hloops
  cases hrun : syncLoops c.target c.ops false pruneStale filenames sources
      { tree := c.tree, working := c.working } with
  | error e =>
    obtain ⟨hsafe, hpruned, hsubset⟩ := herror e hrun
    exact ⟨hsafe, hpruned, hsubset, fun hraised => nomatch hraised⟩
  | ok s =>
    obtain ⟨⟨done, hinv, hchosen, -⟩, hsubset⟩ := hok s hrun
    obtain ⟨htree, hconflicts, hremoved⟩ := finishSync_ok c.ops manifest s
    refine ⟨htree ▸ hinv.safe, hremoved ▸ hinv.pruned, hremoved ▸ hsubset, fun _ n text hsource hdiverged => ?_⟩
    rw [hconflicts]
    exact hinv.reported n (hchosen n (List.mem_map_of_mem hsource)) text hsource hdiverged

/-- Another call, after one without an error, comes to its end with nothing changed. -/
theorem finishSync_again (hselected : c.selected = selectSources filenames sources)
    (hworking : c.working = workingManifest manifest) (hlooped : Looped c pruneStale filenames s)
    (hraised : (finishSync c.ops manifest (.ok s)).raised = false) (hunlink : ∀ n, c.ops.unlink n ≠ .failed)
    (again : FileOps) :
    let call := finishSync c.ops manifest (.ok s)
    let second := finishSync again call.manifest (syncLoops c.target again false pruneStale filenames sources
      { tree := call.tree, working := workingManifest call.manifest })
    second.raised = false ∧ second.result.updated = 0 ∧ second.result.updatedFiles = [] ∧
      second.result.removed = [] ∧ second.tree = call.tree ∧ second.manifest = call.manifest := by
  intro call second
  have htree : call.tree = s.tree := (finishSync_ok c.ops manifest s).1
  have hmanifest : workingManifest call.manifest = s.working := finishSync_manifest c hworking hlooped hraised
  have hidle : ∃ t, syncLoops c.target again false pruneStale filenames sources
      { tree := call.tree, working := workingManifest call.manifest } = .ok t ∧ Same _ t :=
    syncLoops_idle c hselected hlooped hunlink again htree hmanifest
  obtain ⟨t, ht, hsame⟩ := hidle
  have hsecond : second = ⟨t.tree, call.manifest, t.result, false⟩ := by
    have hclean : t.dirty = false := hsame.dirty
    show finishSync again call.manifest (syncLoops c.target again false pruneStale filenames sources _) = _
    rw [ht]
    unfold finishSync
    dsimp only
    rw [hclean, if_neg Bool.false_ne_true]
  rw [hsecond]
  exact ⟨rfl, hsame.updated, hsame.updatedFiles, hsame.removed, hsame.tree, rfl⟩

/-- What a call of `_update_files` starts with. -/
def Call.ofUpdate (target : Target π) (ops : FileOps) (filenames : Option (List Text))
    (sources : List (Text × Option Text)) (tree : FileTree π) (manifest : Option ManifestData) : Call π where
  target := target
  ops := ops
  selected := selectSources filenames sources
  names := {n | n ∈ sources.map Prod.fst ∨ ((workingManifest manifest).get n).isSome = true}
  working := workingManifest manifest
  tree := tree

variable {target : Target π} {ops : FileOps} {tree : FileTree π}

theorem updateFiles_of_nothing (h : filenames.isSome = true ∧ selectSources filenames sources = []) (ops : FileOps)
    (tree : FileTree π) (manifest : Option ManifestData) :
    updateFiles target ops false pruneStale filenames sources tree manifest = ⟨tree, manifest, {}, false⟩ :=
  if_pos h

theorem updateFiles_of_something (h : ¬ (filenames.isSome = true ∧ selectSources filenames sources = []))
    (ops : FileOps) (tree : FileTree π) (manifest : Option ManifestData) :
    updateFiles target ops false pruneStale filenames sources tree manifest =
      finishSync ops manifest (syncLoops target ops false pruneStale filenames sources
        { tree := tree, working := workingManifest manifest }) :=
  if_neg h

/-- What the loops of a call of `_update_files` come to. -/
theorem syncLoops_updateFiles (ops : FileOps) (pruneStale : Bool) (filenames : Option (List Text))
    (hinj : Function.Injective target.fileHash) (hnodup : (sources.map Prod.fst).Nodup)
    (hapart : Apart tree target.place
      {n | n ∈ sources.map Prod.fst ∨ ((workingManifest manifest).get n).isSome = true}) :
    let c := Call.ofUpdate target ops filenames sources tree manifest
    (∀ t, syncLoops target ops false pruneStale filenames sources
        { tree := tree, working := workingManifest manifest } = .ok t → Looped c pruneStale filenames t) ∧
    ∀ e, syncLoops target ops false pruneStale filenames sources
        { tree := tree, working := workingManifest manifest } = .error e →
      c.Safe e.tree ∧ c.Pruned e.result.removed ∧ (filenames.isSome = true → e.result.removed = []) := by
  intro c
  have hsub : (c.selected.map Prod.fst).Sublist (sources.map Prod.fst) :=
    (selectSources_sublist filenames sources).map Prod.fst
  have hknown : ∀ n, n ∉ c.names → c.working.get n = none := by
    intro n hn
    cases hget : c.working.get n with
    | none => rfl
    | some e =>
      have hsome : (c.working.get n).isSome = true := by rw [hget]; rfl
      exact absurd (.inr hsome) hn
  exact syncLoops_spec c rfl hinj (hnodup.sublist hsub) (fun n hn => .inl (hsub.subset hn)) hapart hknown

/-- What the manifest does not manage stays in it, and its place stays as it is unless its source is selected. -/
theorem Started.unmanaged {call : SyncOutcome π} (h : Started c ops filenames manifest call)
    (hapart : Apart c.tree c.place c.names) {n : Text} {e : ManifestEntry} (hn : n ∈ c.names)
    (he : c.working.get n = some e) (hmanaged : e.managed = false) :
    n ∉ call.result.removed ∧ (n ∉ c.chosen → call.tree (c.place n) = c.tree (c.place n)) := by
  have hnot : ¬ ∃ e', c.working.get n = some e' ∧ e'.managed = true := by
    rintro ⟨e', he', hmanaged'⟩
    obtain rfl : e = e' := Option.some.inj (he.symm.trans he')
    rw [hmanaged] at hmanaged'
    cases hmanaged'
  refine ⟨fun hremoved => hnot (h.pruned n hremoved).2, fun hunchosen => ?_⟩
  by_contra hchanged
  obtain ⟨m, hm, hplace, hmay⟩ := h.safe _ hchanged
  have hleads : Leads c.tree (c.place m) (c.place n) := hplace ▸ .refl
  obtain rfl : m = n := hapart m hm n hn hleads
  rcases hmay.owned with hchosen | hmanaged'
  · exact hunchosen hchosen
  · exact hnot hmanaged'

end UpdateFiles

/-- Without force, and where no name leads to the place of another one, a call writes over a file or deletes it
only if the manifest records its hash, and leaves the others alone; it reports every file that is neither
canonical nor recorded; it prunes no unmanaged entry, and nothing when a subset is given; and when its
operations succeed, another call changes nothing. -/
theorem updateFiles_safe [DecidableEq π] (target : Target π) (ops : FileOps) (pruneStale : Bool)
    (filenames : Option (List Text)) (sources : List (Text × Option Text)) (tree : FileTree π)
    (manifest : Option ManifestData) (hinj : Function.Injective target.fileHash)
    (hnodup : (sources.map Prod.fst).Nodup)
    (hapart : Apart tree target.place
      {n | n ∈ sources.map Prod.fst ∨ ((workingManifest manifest).get n).isSome = true}) :
    let call := updateFiles target ops false pruneStale filenames sources tree manifest
    let recorded := (workingManifest manifest).get
    let found := fun n => (follow tree (target.place n)).readText
    (∀ p, (follow tree p).isFile = true → call.tree p ≠ tree p → ∃ n e text, target.place n = p ∧
      recorded n = some e ∧ found n = some text ∧ target.fileHash text = e.hash) ∧
    (call.raised = false → ∀ n text, (n, some text) ∈ selectSources filenames sources →
      (follow tree (target.place n)).isFile = true → found n ≠ some text →
      (recorded n = none ∨ ∃ e, recorded n = some e ∧ e.hash ≠ target.fileHash text ∧
        ∀ old, found n = some old → target.fileHash old ≠ e.hash) → n ∈ call.result.conflicts) ∧
    (∀ n e, recorded n = some e → e.managed = false → n ∉ call.result.removed ∧
      (n ∉ (selectSources filenames sources).map Prod.fst →
        call.tree (target.place n) = tree (target.place n))) ∧
    (filenames.isSome = true → call.result.removed = []) ∧
    (call.raised = false → (∀ n, ops.unlink n ≠ .failed) → ∀ again : FileOps,
      let second := updateFiles target again false pruneStale filenames sources call.tree call.manifest
      second.raised = false ∧ second.result.updated = 0 ∧ second.result.updatedFiles = [] ∧
        second.result.removed = [] ∧ second.tree = call.tree ∧ second.manifest = call.manifest) := by
  intro call recorded found
  by_cases hempty : filenames.isSome = true ∧ selectSources filenames sources = []
  · have hcall : call = ⟨tree, manifest, {}, false⟩ := updateFiles_of_nothing hempty ops tree manifest
    rw [hcall]
    refine ⟨fun p _ hp => absurd rfl hp, fun _ n text hsource => ?_,
      fun n e _ _ => ⟨fun hn => (nomatch hn), fun _ => rfl⟩, fun _ => rfl, fun _ _ again => ?_⟩
    · rw [hempty.2] at hsource
      cases hsource
    · intro second
      have hsecond : second = ⟨tree, manifest, {}, false⟩ := updateFiles_of_nothing hempty again tree manifest
      rw [hsecond]
      exact ⟨rfl, rfl, rfl, rfl, rfl, rfl⟩
  · let c : Call π := Call.ofUpdate target ops filenames sources tree manifest
    have hloops := syncLoops_updateFiles ops pruneStale filenames hinj hnodup hapart
    have hcall : call = _ := updateFiles_of_something hempty ops tree manifest
    have hstarted : Started c ops filenames manifest call := by
      rw [hcall]
      exact started_of_loops hloops
    refine ⟨fun p hfile hp => ?_, fun hraised n text hsource hfile htext hentry => ?_, fun n e he hmanaged => ?_,
      hstarted.subset, fun hraised hunlink again => ?_⟩
    · obtain ⟨n, -, rfl, hmay⟩ := hstarted.safe p hp
      obtain ⟨e, text, he, htext, hhash⟩ := hmay.recorded hfile
      exact ⟨n, e, text, rfl, he, htext, hhash⟩
    · exact hstarted.reported hraised n text hsource ⟨hfile, htext, hentry⟩
    · have hsome : ((workingManifest manifest).get n).isSome = true := Option.isSome_of_mem he
      exact hstarted.unmanaged hapart (.inr hsome) he hmanaged
    · intro second
      have hsecond : second = _ := updateFiles_of_something hempty again call.tree call.manifest
      cases hrun : syncLoops target ops false pruneStale filenames sources
          { tree := tree, working := workingManifest manifest } with
      | error e =>
        rw [hcall, hrun] at hraised
        cases hraised
      | ok s =>
        rw [hrun] at hcall
        rw [hsecond]
        rw [hcall] at hraised ⊢
        exact finishSync_again (c := c) rfl rfl (hloops.1 s hrun) hraised hunlink again

/-- A file as it was installed is replaced by its new version, and is up to date from then on. -/
theorem updateFiles_safe_replaced :
    let target : Target Text := ⟨id, id⟩
    let tree : FileTree Text := fun p => if p = "a.md".toList then .file (some "old".toList) else .absent
    let manifest : ManifestData := ⟨none, [("a.md".toList, ⟨some "old".toList, none⟩)]⟩
    let sources : List (Text × Option Text) := [("a.md".toList, some "new".toList)]
    let call := updateFiles target .allDone false true none sources tree (some manifest)
    call.result.updatedFiles = ["a.md".toList] ∧ ∀ again : FileOps,
      (updateFiles target again false true none sources call.tree call.manifest).result.updated = 0 := by
  intro target tree manifest sources call
  have hlinks : ∀ p q, tree p ≠ .link q := by
    intro p q hlink
    by_cases hp : p = "a.md".toList
    · have hfile : tree p = .file (some "old".toList) := if_pos hp
      rw [hfile] at hlink
      cases hlink
    · have habsent : tree p = .absent := if_neg hp
      rw [habsent] at hlink
      cases hlink
  have hapart : Apart tree target.place {n | n ∈ sources.map Prod.fst ∨
      ((workingManifest (some manifest)).get n).isSome = true} :=
    apart_of_no_link hlinks fun _ _ _ _ h => h
  have hsafe := updateFiles_safe target .allDone true none sources tree (some manifest) (fun _ _ h => h)
    (by decide) hapart
  exact ⟨by decide, fun again => (hsafe.2.2.2.2 (by decide) (fun _ h => nomatch h) again).2.1⟩

/-- A retired entry that is a link to another one is reported by a first call, which deletes the other; a second
call removes it. And a call that raises does not report the files that it did not come to. -/
theorem updateFiles_unsettled :
    let target : Target Text := ⟨id, id⟩
    let linked : FileTree Text := fun p =>
      if p = "a.md".toList then .link "b.md".toList
      else if p = "b.md".toList then .file (some "b".toList) else .absent
    let retired : ManifestData :=
      ⟨none, [("a.md".toList, ⟨some "a".toList, none⟩), ("b.md".toList, ⟨some "b".toList, none⟩)]⟩
    let first := updateFiles target .allDone false true none [] linked (some retired)
    let second := updateFiles target .allDone false true none [] first.tree first.manifest
    let edited : FileTree Text := fun p => if p = "b.md".toList then .file (some "mine".toList) else .absent
    let sources : List (Text × Option Text) :=
      [("a.md".toList, some "a".toList), ("b.md".toList, some "b".toList)]
    let full : FileOps := { FileOps.allDone with write := fun _ => .untouched }
    let failed := updateFiles target full false true none sources edited none
    (first.raised = false ∧ first.result.conflicts = ["a.md".toList] ∧ first.result.removed = ["b.md".toList] ∧
      second.result.removed = ["a.md".toList] ∧ second.manifest ≠ first.manifest) ∧
    failed.raised = true ∧ failed.result.conflicts = [] := by
  decide

end Commands
