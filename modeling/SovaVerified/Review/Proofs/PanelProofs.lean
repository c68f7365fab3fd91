import SovaVerified.Review.Panel

/-!
# The turns of a review

What a stretch of a review does is said once, by `Took`: the turns it adds, that each is what the
outcome of its call was, that its findings are those of the turns it adds, and that it had a turn for
everything it was to review unless a critical finding stopped it. Stretches compose, so each loop of the
panel inherits the statement from its body.
-/

namespace Review

open Loops

/-- What a review has gathered so far. -/
structure Log where
  turns : List Turn
  findings : List ReviewFinding
  stopped : Bool

/-- The turns `new`, each as `P` says, lead from one log to the next, and `due` was to be reviewed. -/
structure TookTurns (P : Turn → Prop) (due : List (Nat × Option Text)) (a b : Log) (new : List Turn) :
    Prop where
  turns : b.turns = a.turns ++ new
  stands : ∀ t ∈ new, P t
  findings : ∀ f, f ∈ b.findings ↔ f ∈ a.findings ∨ ∃ t ∈ new, f ∈ t.findings
  isDue : ∀ t ∈ new, (t.chunk, t.dimension) ∈ due
  stays : a.stopped = true → b.stopped = true
  critical : b.stopped = true →
    a.stopped = true ∨ ∃ t ∈ new, ∃ f ∈ t.findings, criticalSeverity ≤ f.severity
  covers : b.stopped = true ∨ ∀ p ∈ due, ∃ t ∈ new, (t.chunk, t.dimension) = p

def Took (P : Turn → Prop) (due : List (Nat × Option Text)) (a b : Log) : Prop :=
  ∃ new, TookTurns P due a b new

variable {P : Turn → Prop}

theorem Took.refl (a : Log) : Took P [] a a :=
  ⟨[], by simp, by simp, by simp, by simp, id, .inl, .inr (by simp)⟩

/-- After a critical finding nothing more is reviewed. -/
theorem Took.of_stopped (due : List (Nat × Option Text)) {a : Log} (h : a.stopped = true) :
    Took P due a a :=
  ⟨[], by simp, by simp, by simp, by simp, id, .inl, .inl h⟩

theorem Took.trans {due due' : List (Nat × Option Text)} {a b c : Log} (h : Took P due a b)
    (h' : Took P due' b c) : Took P (due ++ due') a c := by
  obtain ⟨new, h⟩ := h
  obtain ⟨new', h'⟩ := h'
  refine ⟨new ++ new', ?_, ?_, ?_, ?_, fun hs => h'.stays (h.stays hs), ?_, ?_⟩
  · rw [h'.turns, h.turns, List.append_assoc]
  · intro t ht
    exact (List.mem_append.mp ht).elim (h.stands t) (h'.stands t)
  · intro f
    rw [h'.findings, h.findings]
    simp only [List.mem_append, or_and_right, exists_or, or_assoc]
  · intro t ht
    rcases List.mem_append.mp ht with ht | ht
    · exact List.mem_append_left _ (h.isDue t ht)
    · exact List.mem_append_right _ (h'.isDue t ht)
  · intro hs
    rcases h'.critical hs with hs | ⟨t, ht, hf⟩
    · rcases h.critical hs with hs | ⟨t, ht, hf⟩
      · exact .inl hs
      · exact .inr ⟨t, List.mem_append_left _ ht, hf⟩
    · exact .inr ⟨t, List.mem_append_right _ ht, hf⟩
  · rcases h'.covers with hs | hcov'
    · exact .inl hs
    · rcases h.covers with hs | hcov
      · exact .inl (h'.stays hs)
      · refine .inr fun p hp => ?_
        rcases List.mem_append.mp hp with hp | hp
        · obtain ⟨t, ht, htp⟩ := hcov p hp
          exact ⟨t, List.mem_append_left _ ht, htp⟩
        · obtain ⟨t, ht, htp⟩ := hcov' p hp
          exact ⟨t, List.mem_append_right _ ht, htp⟩

/-- Only what was to be reviewed counts, not in which order. -/
theorem Took.congr {due due' : List (Nat × Option Text)} {a b : Log}
    (hdue : ∀ p, p ∈ due ↔ p ∈ due') (h : Took P due a b) : Took P due' a b := by
  obtain ⟨new, h⟩ := h
  refine ⟨new, h.turns, h.stands, h.findings, fun t ht => (hdue _).mp (h.isDue t ht), h.stays,
    h.critical, ?_⟩
  exact h.covers.imp_right fun hcov p hp => hcov p ((hdue p).mpr hp)

/-! ## The steps of the panel -/

def PanelState.log (st : PanelState) : Log := ⟨st.turns, st.findings, st.criticalExit⟩

/-- A stretch of the panel, for some dimensions of a chunk. -/
def Reviews (P : Turn → Prop) (chunk : Nat) (dims : List Text) (st st' : PanelState) : Prop :=
  Took P (dims.map fun dim => (chunk, some dim)) st.log st'.log

theorem Reviews.refl (chunk : Nat) (st : PanelState) : Reviews P chunk [] st st := Took.refl _

theorem Reviews.trans {chunk : Nat} {dims dims' : List Text} {st st' st'' : PanelState}
    (h : Reviews P chunk dims st st') (h' : Reviews P chunk dims' st' st'') :
    Reviews P chunk (dims ++ dims') st st'' := by
  unfold Reviews
  rw [List.map_append]
  exact Took.trans h h'

theorem Reviews.of_stopped (chunk : Nat) (dims : List Text) {st : PanelState}
    (h : st.criticalExit = true) : Reviews P chunk dims st st :=
  Took.of_stopped _ h

theorem Reviews.congr {chunk : Nat} {dims dims' : List Text} {st st' : PanelState}
    (hdims : ∀ d, d ∈ dims ↔ d ∈ dims') (h : Reviews P chunk dims st st') :
    Reviews P chunk dims' st st' := by
  refine Took.congr (fun p => ?_) h
  simp only [List.mem_map, hdims]

/-- One turn for some dimensions: `found` are its findings, and a critical one stops the review. -/
theorem reviews_of_turn {chunk : Nat} {dims : List Text} {st st' : PanelState} (fate : Fate)
    (found : List ReviewFinding) (hstands : ∀ d, P ⟨chunk, d, st.made, fate⟩)
    (hdims : dims ≠ [] ∨ found = []) (hfound : ∀ d call, (⟨chunk, d, call, fate⟩ : Turn).findings = found)
    (hturns : st'.turns = st.turns ++ dims.map fun dim => ⟨chunk, some dim, st.made, fate⟩)
    (hfindings : st'.findings = st.findings ++ found)
    (hexit : st'.criticalExit =
      (st.criticalExit || found.any fun f => decide (criticalSeverity ≤ f.severity))) :
    Reviews P chunk dims st st' := by
  have hmem : ∀ f, f ∈ found ↔
      ∃ t ∈ dims.map fun dim => (⟨chunk, some dim, st.made, fate⟩ : Turn), f ∈ t.findings := by
    intro f
    simp only [List.mem_map, exists_exists_and_eq_and, hfound]
    rcases hdims with hdims | hdims
    · obtain ⟨d, hd⟩ := List.exists_mem_of_ne_nil dims hdims
      exact ⟨fun hf => ⟨d, hd, hf⟩, fun ⟨_, _, hf⟩ => hf⟩
    · simp [hdims]
  refine ⟨_, hturns, ?_, ?_, ?_, ?_, ?_, .inr ?_⟩
  · intro t ht
    obtain ⟨dim, -, rfl⟩ := List.mem_map.mp ht
    exact hstands _
  · intro f
    show f ∈ st'.findings ↔ _
    rw [hfindings, List.mem_append, hmem]
    rfl
  · intro t ht
    obtain ⟨dim, hdim, rfl⟩ := List.mem_map.mp ht
    exact List.mem_map.mpr ⟨dim, hdim, rfl⟩
  · intro hs
    show st'.criticalExit = true
    rw [hexit, show st.criticalExit = true from hs, Bool.true_or]
  · intro hs
    have hs' : st'.criticalExit = true := hs
    rw [hexit, Bool.or_eq_true, List.any_eq_true] at hs'
    rcases hs' with hs' | ⟨f, hf, hsev⟩
    · exact .inl hs'
    · obtain ⟨t, ht, hft⟩ := (hmem f).mp hf
      exact .inr ⟨t, ht, f, hft, by simpa using hsev⟩
  · intro p hp
    obtain ⟨dim, hdim, rfl⟩ := List.mem_map.mp hp
    exact ⟨_, List.mem_map.mpr ⟨dim, hdim, rfl⟩, rfl⟩

/-- A turn without findings, beside which only the counters of the state change. -/
theorem reviews_of_idle {chunk : Nat} {dims : List Text} {st st' : PanelState} {fate : Fate}
    (hstands : ∀ d, P ⟨chunk, d, st.made, fate⟩) (hfate : ∀ found, fate ≠ .read found)
    (hturns : st'.turns = st.turns ++ dims.map fun dim => ⟨chunk, some dim, st.made, fate⟩)
    (hfindings : st'.findings = st.findings) (hexit : st'.criticalExit = st.criticalExit) :
    Reviews P chunk dims st st' := by
  refine reviews_of_turn fate [] hstands (.inr rfl) ?_ hturns (by simp [hfindings]) (by simp [hexit])
  intro d call
  cases fate with
  | read found => exact absurd rfl (hfate found)
  | skipped => rfl
  | raised => rfl
  | unread => rfl

/-- `affordableDimensions` skips the dimensions that it does not return. -/
theorem affordableDimensions_spec (reader : Reader) (llm : Nat → Outcome) (st : PanelState)
    (chunk : Nat) (dims : List Text) (model : Text) :
    ∃ idle, (∀ d, d ∈ dims ↔ d ∈ idle ∨ d ∈ (affordableDimensions st chunk dims model).2) ∧
      Reviews (Turn.Stands reader llm) chunk idle st (affordableDimensions st chunk dims model).1 := by
  have hskip : ∀ d, Turn.Stands reader llm ⟨chunk, d, st.made, .skipped⟩ := fun _ => trivial
  unfold affordableDimensions
  dsimp only
  by_cases hactive : (dims.filter fun dim => dim ∉ st.skippedDimensions) = []
  · rw [if_pos hactive]
    exact ⟨dims, by simp, reviews_of_idle hskip (by simp) rfl rfl rfl⟩
  · rw [if_neg hactive]
    split
    · exact ⟨dims, by simp, reviews_of_idle hskip (by simp) rfl rfl rfl⟩
    · refine ⟨_, fun d => ?_, reviews_of_idle hskip (by simp) rfl rfl rfl⟩
      by_cases hd : d ∈ st.skippedDimensions <;> simp [hd]

/-- An object that is not a review has no findings. -/
theorem findingsFromData_of_not_isReview {data : Payload} (h : data.isReview = false) :
    findingsFromData data = [] := by
  unfold findingsFromData
  cases hf : data.findings with
  | none => rfl
  | some raw => simp [Payload.isReview, hf] at h

/-- The findings that `_parse_findings` returns are those of the turn. -/
theorem findings_fateOf (reader : Reader) (text : Text) (chunk : Nat) (d : Option Text) (call : Nat) :
    (⟨chunk, d, call, fateOf reader text⟩ : Turn).findings = (parseFindings reader text).1 := by
  unfold fateOf parseFindings Turn.findings
  cases reader.loadFindingsJson text with
  | none => rfl
  | some data =>
    cases hr : data.isReview with
    | true => simp [Option.filter, hr]
    | false => simp [Option.filter, hr, findingsFromData_of_not_isReview hr]

/-- Summaries touch nothing but the result. -/
theorem foldl_addSummary (fragments : List Text) (st : PanelState) :
    ∃ result, fragments.foldl PanelState.addSummary st = { st with result := result } := by
  induction fragments generalizing st with
  | nil => exact ⟨st.result, rfl⟩
  | cons fragment fragments ih => exact ih (st.addSummary fragment)

theorem stands_raised {reader : Reader} {llm : Nat → Outcome} {call : Nat}
    (hcall : llm call = .raised) (chunk : Nat) (d : Option Text) :
    Turn.Stands reader llm ⟨chunk, d, call, .raised⟩ := hcall

/-- An answer stands for what it is read as. -/
theorem stands_fateOf {reader : Reader} {llm : Nat → Outcome} {r : LlmResult} {call : Nat}
    (hcall : llm call = .returned r) (chunk : Nat) (d : Option Text) :
    Turn.Stands reader llm ⟨chunk, d, call, fateOf reader r.text⟩ := by
  have hcases : fateOf reader r.text = .unread ∨
      ∃ findings, fateOf reader r.text = .read findings := by
    unfold fateOf
    cases (reader.loadFindingsJson r.text).filter Payload.isReview with
    | none => exact .inl rfl
    | some data => exact .inr ⟨_, rfl⟩
  rcases hcases with hfate | ⟨findings, hfate⟩
  · rw [hfate]
    exact ⟨r, hcall, .inr hfate⟩
  · rw [hfate]
    exact ⟨r, hcall, .inl hfate⟩

section Loops

variable (reader : Reader) (llm : Nat → Outcome) (cfg : PanelConfig) (defaultModel : Text)
  (chunk : Nat)

theorem reviews_reviewDimension (st : PanelState) (dim : Text) :
    Reviews (Turn.Stands reader llm) chunk [dim] st
      (reviewDimension reader llm cfg defaultModel chunk st dim) := by
  obtain ⟨idle, hidle, hskip⟩ :=
    affordableDimensions_spec reader llm st chunk [dim] (cfg.modelOf defaultModel dim)
  unfold reviewDimension
  generalize affordableDimensions st chunk [dim] (cfg.modelOf defaultModel dim) = r at hidle hskip
  obtain ⟨st₁, active⟩ := r
  cases active with
  | nil => exact hskip.congr fun d => by simpa using (hidle d).symm
  | cons d ds =>
    -- what is left of the dimension is its own turn
    have hall : ∀ x, x ∈ idle ++ [dim] ↔ x ∈ [dim] := by
      intro x
      rw [List.mem_append]
      exact ⟨fun hx => hx.elim (fun hx => (hidle x).mpr (.inl hx)) id, .inr⟩
    have hturn : ∀ st₂, Reviews (Turn.Stands reader llm) chunk [dim] st₁ st₂ →
        Reviews (Turn.Stands reader llm) chunk [dim] st st₂ :=
      fun st₂ h => (hskip.trans h).congr hall
    dsimp only
    cases hcall : llm st₁.made with
    | raised => exact hturn _ (reviews_of_idle (stands_raised hcall chunk) (by simp) rfl rfl rfl)
    | returned r =>
      refine hturn _ (reviews_of_turn (fateOf reader r.text) (parseFindings reader r.text).1
        (stands_fateOf hcall chunk) (.inl (by simp)) (findings_fateOf reader r.text chunk) ?_ ?_ ?_)
      all_goals
        dsimp only
        split_ifs <;> rfl

theorem reviews_reviewDimensions (st : PanelState) (dims : List Text) :
    Reviews (Turn.Stands reader llm) chunk dims st
      (reviewDimensions reader llm cfg defaultModel chunk st dims) := by
  have h := untilStop_rel (R := Reviews (Turn.Stands reader llm) chunk) (fun dim => [dim])
    (Reviews.refl chunk) Reviews.trans (fun dims st hs => Reviews.of_stopped chunk dims hs)
    (fun dim _ st => reviews_reviewDimension reader llm cfg defaultModel chunk st dim) st (l := dims)
  exact h.congr fun d => by simp

theorem reviews_reviewGroup (st : PanelState) (group : Text × List Text) :
    Reviews (Turn.Stands reader llm) chunk group.2 st
      (reviewGroup reader llm cfg defaultModel chunk st group) := by
  obtain ⟨idle, hidle, hskip⟩ := affordableDimensions_spec reader llm st chunk group.2 group.1
  unfold reviewGroup
  generalize affordableDimensions st chunk group.2 group.1 = r at hidle hskip
  obtain ⟨st₁, active⟩ := r
  have hturn : ∀ st₂, Reviews (Turn.Stands reader llm) chunk active st₁ st₂ →
      Reviews (Turn.Stands reader llm) chunk group.2 st st₂ := by
    intro st₂ h
    refine (hskip.trans h).congr fun d => ?_
    rw [List.mem_append]
    exact (hidle d).symm
  match active with
  | [] => exact hturn _ (Reviews.refl ..)
  | [dim] => exact hturn _ (reviews_reviewDimensions reader llm cfg defaultModel chunk _ _)
  | d :: d' :: ds =>
    dsimp only
    cases hcall : llm st₁.made with
    | raised => exact hturn _ (reviews_of_idle (stands_raised hcall chunk) (by simp) rfl rfl rfl)
    | returned r =>
      have hstands := fun x => @stands_fateOf reader llm r st₁.made hcall chunk x
      unfold fateOf at hstands
      dsimp only
      cases hdata : (reader.loadFindingsJson r.text).filter Payload.isReview with
      | none =>
        rw [hdata] at hstands
        have hunread : Reviews (Turn.Stands reader llm) chunk (d :: d' :: ds) st₁
            ((st₁.note chunk (d :: d' :: ds) .unread).recordCall r) :=
          reviews_of_idle hstands (by simp) rfl rfl rfl
        have hagain := reviews_reviewDimensions reader llm cfg defaultModel chunk
          ((st₁.note chunk (d :: d' :: ds) .unread).recordCall r) (d :: d' :: ds)
        exact hturn _ ((hunread.trans hagain).congr fun x => by rw [List.mem_append, or_self])
      | some data =>
        rw [hdata] at hstands
        refine hturn _ (reviews_of_turn (.read (findingsFromData data)) (findingsFromData data)
          hstands (.inl (by simp)) (fun _ _ => rfl) ?_ ?_ ?_)
        all_goals
          dsimp only
          split_ifs
          · obtain ⟨result, hresult⟩ := foldl_addSummary (summaryFragments (d :: d' :: ds) data)
              (((st₁.note chunk (d :: d' :: ds) (.read (findingsFromData data))).recordCall r).extend
                (findingsFromData data))
            rw [hresult]
            rfl
          · rfl

theorem reviews_reviewGroups (st : PanelState) (groups : List (Text × List Text)) :
    Reviews (Turn.Stands reader llm) chunk (groups.flatMap Prod.snd) st
      (reviewGroups reader llm cfg defaultModel chunk st groups) :=
  untilStop_rel (R := Reviews (Turn.Stands reader llm) chunk) Prod.snd (Reviews.refl chunk)
    Reviews.trans (fun dims _ hs => Reviews.of_stopped chunk dims hs)
    (fun group _ st => reviews_reviewGroup reader llm cfg defaultModel chunk st group) st

end Loops

/-! ## The whole panel -/

theorem mem_addToGroup {model dim d : Text} (groups : List (Text × List Text)) :
    d ∈ (addToGroup model dim groups).flatMap Prod.snd ↔ d ∈ groups.flatMap Prod.snd ∨ d = dim := by
  induction groups with
  | nil => simp [addToGroup]
  | cons group groups ih =>
    obtain ⟨m, dims⟩ := group
    unfold addToGroup
    by_cases hm : m = model
    · rw [if_pos hm]
      simp only [List.flatMap_cons, List.mem_append, List.mem_singleton]
      tauto
    · rw [if_neg hm, List.flatMap_cons, List.mem_append, ih, List.flatMap_cons, List.mem_append,
        or_assoc]

/-- Grouping by model loses no dimension and adds none. -/
theorem mem_groupDimensionsByModel (cfg : PanelConfig) (defaultModel : Text) (dims : List Text)
    (d : Text) :
    d ∈ (groupDimensionsByModel cfg defaultModel dims).flatMap Prod.snd ↔ d ∈ dims := by
  have hfold : ∀ groups : List (Text × List Text),
      d ∈ (dims.foldl (fun groups dim => addToGroup (cfg.modelOf defaultModel dim) dim groups)
        groups).flatMap Prod.snd ↔ d ∈ groups.flatMap Prod.snd ∨ d ∈ dims := by
    induction dims with
    | nil => simp
    | cons dim dims ih =>
      intro groups
      rw [List.foldl_cons, ih, mem_addToGroup, List.mem_cons, or_assoc]
  simpa [groupDimensionsByModel] using hfold []

theorem reviews_reviewChunk (reader : Reader) (llm : Nat → Outcome) (cfg : PanelConfig)
    (defaultModel : Text) (st : PanelState) (chunk : Nat) :
    Reviews (Turn.Stands reader llm) chunk cfg.dimensions st
      (reviewChunk reader llm cfg defaultModel st chunk) := by
  have hsort : ∀ d, d ∈ sortDimensions cfg.dimensions ↔ d ∈ cfg.dimensions :=
    fun d => (List.perm_insertionSort _ cfg.dimensions).mem_iff
  unfold reviewChunk
  dsimp only
  split
  · refine (reviews_reviewGroups reader llm cfg defaultModel chunk st _).congr fun d => ?_
    rw [mem_groupDimensionsByModel, hsort]
  · exact (reviews_reviewDimensions reader llm cfg defaultModel chunk st _).congr hsort

/-- The panel has a turn for every dimension of every chunk, unless a critical finding stops it. -/
theorem took_reviewChunks (reader : Reader) (llm : Nat → Outcome) (cfg : PanelConfig)
    (defaultModel : Text) (st : PanelState) (chunks : List Nat) :
    Took (Turn.Stands reader llm)
      (chunks.flatMap fun chunk => cfg.dimensions.map fun dim => (chunk, some dim)) st.log
      (untilStop PanelState.criticalExit (reviewChunk reader llm cfg defaultModel) st chunks).log :=
  untilStop_rel
    (R := fun due (st st' : PanelState) => Took (Turn.Stands reader llm) due st.log st'.log) _
    (fun st => Took.refl st.log) Took.trans (fun due _ hs => Took.of_stopped due hs)
    (fun chunk _ st => reviews_reviewChunk reader llm cfg defaultModel st chunk) st

end Review
