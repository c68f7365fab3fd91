import SovaVerified.Llm.ModelAliases

/-!
# Resolving a name twice

A name that was resolved is resolved to itself when the alias map does not move it, or the correction to its
tier brings it back. The correction itself never needs a second one; the map may have an entry for what
another entry holds.
-/

namespace Llm

variable {print : Printing} {cfg : LLMConfig} {env : Environment} {backend : Backend}
  {model resolved tier name : Text}

/-! ## The correction to a tier -/

theorem mem_tierNames_of_known (h : tierForKnownCandidate name = some tier) : tier ∈ tierNames := by
  have hmem : (name, tier) ∈ candidateToTier := Assoc.mem_of_get h
  have hall : ∀ entry ∈ candidateToTier, entry.2 ∈ tierNames := by decide
  exact hall _ hmem

theorem mem_tierNames (h : tierOf model resolved = some tier) : tier ∈ tierNames := by
  unfold tierOf at h
  split_ifs at h with hmem
  · rw [← Option.some.inj h]
    exact hmem
  · exact mem_tierNames_of_known h

/-- The tier that a resolved name is corrected to, where it is corrected. -/
def correctedTier (cfg : LLMConfig) (backend : Backend) (model resolved : Text) : Option Text :=
  if cfg.resolveTierAliases = true ∧ backend ≠ .litellm ∧ needsFix backend model resolved = true then
    tierOf model resolved
  else none

theorem mem_tierNames_of_corrected (h : correctedTier cfg backend model resolved = some tier) :
    tier ∈ tierNames := by
  unfold correctedTier at h
  split_ifs at h
  exact mem_tierNames h

theorem backend_ne_of_corrected (h : correctedTier cfg backend model resolved = some tier) :
    backend ≠ .litellm := by
  unfold correctedTier at h
  split_ifs at h with hif
  exact hif.2.1

theorem resolveAlias_eq (model : Text) :
    resolveAlias print cfg env model =
      match correctedTier cfg (backendOf cfg env) model (aliasOf cfg (backendOf cfg env) model) with
      | none => .ok (aliasOf cfg (backendOf cfg env) model)
      | some tier => corrected print cfg (backendOf cfg env) tier (aliasOf cfg (backendOf cfg env) model) := by
  unfold resolveAlias correctedTier
  dsimp only
  generalize backendOf cfg env = backend
  generalize aliasOf cfg backend model = resolved
  by_cases htiers : cfg.resolveTierAliases = true
  · rw [if_pos htiers]
    by_cases hlitellm : backend = .litellm
    · subst hlitellm
      rw [if_neg (fun h => h.2.1 rfl)]
      cases tierOf model resolved with
      | none => rfl
      | some tier =>
        dsimp only
        split_ifs <;> rfl
    · by_cases hfix : needsFix backend model resolved = true
      · rw [if_pos ⟨htiers, hlitellm, hfix⟩]
        cases tierOf model resolved with
        | none => rfl
        | some tier => exact if_pos hfix
      · rw [if_neg (fun h => hfix h.2.2)]
        cases tierOf model resolved with
        | none => rfl
        | some tier => exact if_neg hfix
  · rw [if_neg htiers, if_neg (fun h => htiers h.1)]

/-- A current model is no tier and no known candidate of another backend. -/
theorem tierOf_resolveModelAlias (h : tier ∈ tierNames) :
    resolveModelAlias tier ≠ tier ∧
      tierOf (resolveModelAlias tier) (resolveModelAlias tier) = none := by
  have hall : ∀ t ∈ tierNames,
      resolveModelAlias t ≠ t ∧ tierOf (resolveModelAlias t) (resolveModelAlias t) = none := by
    decide
  exact hall tier h

theorem not_isBedrockId_prefixed (name : Text) : isBedrockId (vertexPrefix ++ name) = false := by
  unfold isBedrockId
  rw [List.any_eq_false]
  intro front hmem hprefix
  have hheads : ∀ front ∈ ["anthropic.", "us.anthropic.", "eu.anthropic.", "apac.anthropic."],
      front.toList.head? ≠ some 'v' ∧ front.toList ≠ [] := by
    decide
  obtain ⟨hne, hnil⟩ := hheads front hmem
  obtain ⟨rest, hrest⟩ := List.isPrefixOf_iff_prefix.mp hprefix
  have hhead : (vertexPrefix ++ name).head? = some 'v' := by
    have : vertexPrefix.head? = some 'v' := by decide
    rw [List.head?_append, this]
    rfl
  rw [← hrest, List.head?_append_of_ne_nil _ hnil] at hhead
  exact hne hhead

theorem notMem_tierNames_prefixed (name : Text) : vertexPrefix ++ name ∉ tierNames := by
  intro hmem
  have hall : ∀ t ∈ tierNames, '/' ∉ t := by decide
  have hslash : '/' ∈ vertexPrefix := by decide
  exact hall _ hmem (List.mem_append_left _ hslash)

theorem canServe_prefixed (hbackend : backend = .vertex ∨ backend = .bedrock) (name : Text) :
    backendCanServe backend (vertexPrefix ++ name) = true := by
  unfold backendCanServe
  rw [if_neg (fun h => notMem_tierNames_prefixed name h.2), if_neg, if_neg]
  · rw [not_isBedrockId_prefixed]
    simp
  · rcases hbackend with rfl | rfl
    · simp
    · simp

theorem canServe_of_mem_candidates {candidates : List Text}
    (h : tierCandidatesFor print backend tier cfg.tierCandidates = .ok candidates)
    (hmem : name ∈ candidates) : backendCanServe backend name = true := by
  unfold tierCandidatesFor at h
  obtain ⟨parsed, -, h⟩ := Exceptions.bind_eq_ok_iff.mp h
  dsimp only at h
  split_ifs at h
  · rw [← Except.ok.inj h] at hmem
    exact (List.mem_filter.mp hmem).2
  · rw [← Except.ok.inj h] at hmem
    exact (List.mem_filter.mp hmem).2

theorem builtin_candidates (htier : tier ∈ tierNames) (hbackend : backend = .vertex ∨ backend = .bedrock) :
    ((Assoc.get (builtinTierCandidates backend) tier).getD []).filter (backendCanServe backend) ≠ [] := by
  have hall : ∀ t ∈ tierNames, ∀ b ∈ [Backend.vertex, Backend.bedrock],
      ((Assoc.get (builtinTierCandidates b) t).getD []).filter (backendCanServe b) ≠ [] := by
    decide
  exact hall tier htier backend (by simpa using hbackend)

theorem candidates_ne_nil {candidates : List Text} (htier : tier ∈ tierNames)
    (hbackend : backend = .vertex ∨ backend = .bedrock)
    (h : tierCandidatesFor print backend tier cfg.tierCandidates = .ok candidates) : candidates ≠ [] := by
  unfold tierCandidatesFor at h
  obtain ⟨parsed, -, h⟩ := Exceptions.bind_eq_ok_iff.mp h
  dsimp only at h
  split_ifs at h with hoverride
  · rw [← Except.ok.inj h]
    exact hoverride
  · rw [← Except.ok.inj h]
    exact builtin_candidates htier hbackend

/-- On Vertex and Bedrock the correction is a name that the backend can serve. -/
theorem canServe_of_corrected_cloud (htier : tier ∈ tierNames)
    (hbackend : backend = .vertex ∨ backend = .bedrock) {c : Text}
    (h : corrected print cfg backend tier resolved = .ok c) : backendCanServe backend c = true := by
  obtain ⟨candidate, rest, hcandidates, h⟩ : ∃ candidate rest,
      tierCandidatesFor print backend tier cfg.tierCandidates = .ok (candidate :: rest) ∧
        (if cfg.provider = .vertex ∧ ¬ vertexPrefix.isPrefixOf candidate then
          Except.ok (vertexPrefix ++ candidate)
        else .ok candidate) = (.ok c : Except PyException Text) := by
    rcases hbackend with rfl | rfl
    all_goals
      obtain ⟨candidates, hcandidates, h⟩ := Exceptions.bind_eq_ok_iff.mp h
      cases candidates with
      | nil => exact absurd rfl (candidates_ne_nil htier (by simp) hcandidates)
      | cons candidate rest => exact ⟨candidate, rest, hcandidates, h⟩
  have hserved := canServe_of_mem_candidates hcandidates List.mem_cons_self
  split_ifs at h
  · rw [← Except.ok.inj h]
    exact canServe_prefixed hbackend candidate
  · rw [← Except.ok.inj h]
    exact hserved

/-- What a name was corrected to needs no correction. -/
theorem correctedTier_of_corrected {c : Text} (htier : tier ∈ tierNames) (hbackend : backend ≠ .litellm)
    (h : corrected print cfg backend tier resolved = .ok c) : correctedTier cfg backend c c = none := by
  obtain ⟨hne, hnone⟩ := tierOf_resolveModelAlias htier
  have hcloud : backend = .vertex ∨ backend = .bedrock → correctedTier cfg backend c c = none := by
    intro hcloud
    have hserved := canServe_of_corrected_cloud htier hcloud h
    have hfirst : (backend == .firstparty) = false := by
      rcases hcloud with rfl | rfl
      · rfl
      · rfl
    unfold correctedTier needsFix
    rw [if_neg]
    simp [hserved, hfirst]
  cases backend with
  | litellm => exact absurd rfl hbackend
  | vertex => exact hcloud (.inl rfl)
  | bedrock => exact hcloud (.inr rfl)
  | firstparty =>
    have hc : resolveModelAlias tier = c := by
      have h' := Except.ok.inj h
      rw [if_pos hne] at h'
      exact h'
    unfold correctedTier
    rw [← hc, hnone, ite_self]

/-! ## Names at rest -/

/-- The map has another name for this one, and the correction to its tier brings this one back. -/
def BroughtBack (print : Printing) (cfg : LLMConfig) (backend : Backend) (name : Text) : Prop :=
  ∃ tier, correctedTier cfg backend name (aliasOf cfg backend name) = some tier ∧
    corrected print cfg backend tier (aliasOf cfg backend name) = .ok name

/-- The map leaves the name alone. -/
def Unmapped (cfg : LLMConfig) (backend : Backend) (name : Text) : Prop := aliasOf cfg backend name = name

/-- Resolving the name that `model` ends at changes nothing: where the map's entry for `model` is taken as it
is, neither the map nor a correction moves that entry; where the entry is corrected to a tier, the map does not
move what it was corrected to. -/
def Settled (print : Printing) (cfg : LLMConfig) (backend : Backend) (model : Text) : Prop :=
  match correctedTier cfg backend model (aliasOf cfg backend model) with
  | none =>
    let name := aliasOf cfg backend model
    (Unmapped cfg backend name ∧ correctedTier cfg backend name name = none) ∨
      BroughtBack print cfg backend name
  | some tier =>
    ∀ name, corrected print cfg backend tier (aliasOf cfg backend model) = .ok name →
      Unmapped cfg backend name ∨ BroughtBack print cfg backend name

theorem resolveAlias_eq_self_iff :
    resolveAlias print cfg env name = .ok name ↔
      (Unmapped cfg (backendOf cfg env) name ∧ correctedTier cfg (backendOf cfg env) name name = none) ∨
        BroughtBack print cfg (backendOf cfg env) name := by
  rw [resolveAlias_eq]
  unfold BroughtBack Unmapped
  generalize backendOf cfg env = backend
  cases htier : correctedTier cfg backend name (aliasOf cfg backend name) with
  | none =>
    dsimp only
    rw [Except.ok.injEq]
    constructor
    · intro h
      rw [h] at htier
      exact .inl ⟨h, htier⟩
    · rintro (h | ⟨tier, h, -⟩)
      · exact h.1
      · cases h
  | some tier =>
    dsimp only
    constructor
    · intro h
      exact .inr ⟨tier, rfl, h⟩
    · rintro (⟨h, hnone⟩ | ⟨tier', h, hback⟩)
      · rw [h, hnone] at htier
        cases htier
      · rw [Option.some.inj h]
        exact hback

theorem resolveAlias_idem_iff :
    (resolveAlias print cfg env model >>= resolveAlias print cfg env) = resolveAlias print cfg env model ↔
      Settled print cfg (backendOf cfg env) model := by
  unfold Settled
  rw [resolveAlias_eq model]
  cases htier : correctedTier cfg (backendOf cfg env) model (aliasOf cfg (backendOf cfg env) model) with
  | none => exact resolveAlias_eq_self_iff
  | some tier =>
    dsimp only
    cases hcorrected : corrected print cfg (backendOf cfg env) tier (aliasOf cfg (backendOf cfg env) model) with
    | error e =>
      constructor
      · intro _ _ h
        cases h
      · intro _
        rfl
    | ok c =>
      have hkept := correctedTier_of_corrected (mem_tierNames_of_corrected htier)
        (backend_ne_of_corrected htier) hcorrected
      have hself : resolveAlias print cfg env c = .ok c ↔
          Unmapped cfg (backendOf cfg env) c ∨ BroughtBack print cfg (backendOf cfg env) c := by
        rw [resolveAlias_eq_self_iff, and_iff_left hkept]
      constructor
      · intro h name hname
        rw [← Except.ok.inj hname]
        exact hself.mp h
      · intro h
        exact hself.mpr (h c rfl)

/-- Resolving a model that is resolved already changes nothing exactly where the name is settled. -/
theorem selectModel_idem_iff (print : Printing) (env : Environment) (cfg : Option LLMConfig)
    (model : Option Text) :
    (selectModel print env cfg model >>= selectModel print env cfg) = selectModel print env cfg model ↔
      ∀ c name, cfg = some c → model = some name → Settled print c (backendOf c env) name := by
  cases cfg with
  | none => cases model <;> simp [selectModel] <;> rfl
  | some c =>
    cases model with
    | none =>
      constructor
      · intro _ _ _ _ h
        cases h
      · intro _
        rfl
    | some name =>
      have hbind : (selectModel print env (some c) (some name) >>= selectModel print env (some c)) =
          (resolveAlias print c env name >>= resolveAlias print c env).map some := by
        show (resolveAlias print c env name).map some >>= selectModel print env (some c) = _
        cases resolveAlias print c env name with
        | error e => rfl
        | ok resolved => rfl
      have hmap : Function.Injective (Except.map some : Except PyException Text → _) := by
        intro a b hab
        cases a with
        | error e =>
          cases b with
          | error e' => exact congrArg _ (Except.error.inj hab)
          | ok b => cases hab
        | ok a =>
          cases b with
          | error e' => cases hab
          | ok b => exact congrArg _ (Option.some.inj (Except.ok.inj hab))
      rw [hbind]
      show (resolveAlias print c env name >>= resolveAlias print c env).map some =
          (resolveAlias print c env name).map some ↔ _
      rw [hmap.eq_iff, resolveAlias_idem_iff]
      constructor
      · rintro h c' name' hc hname
        cases hc
        cases hname
        exact h
      · intro h
        exact h c name rfl rfl

/-- An entry whose value is a tier is resolved once more. -/
theorem selectModel_moves_on :
    ¬ ∀ (print : Printing) (env : Environment) (cfg : Option LLMConfig) (model : Option Text),
      (selectModel print env cfg model >>= selectModel print env cfg) = selectModel print env cfg model := by
  intro h
  have hsecond := h (fun _ => []) {} (some { modelAliases := [("dev".toList, "opus".toList)] })
    (some "dev".toList)
  have hne : (selectModel (fun _ => []) {} (some { modelAliases := [("dev".toList, "opus".toList)] })
      (some "dev".toList) >>=
        selectModel (fun _ => []) {} (some { modelAliases := [("dev".toList, "opus".toList)] })) =
      .ok (some "claude-opus-5-5".toList) := by
    decide
  have hfirst : selectModel (fun _ => []) {} (some { modelAliases := [("dev".toList, "opus".toList)] })
      (some "dev".toList) = .ok (some "opus".toList) := by
    decide
  rw [hne, hfirst] at hsecond
  revert hsecond
  decide

end Llm
