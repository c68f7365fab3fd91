import SovaVerified.Assoc.Assoc
import SovaVerified.Json.Decoding

/-!
# Model names

`sova/llm/backends.py`, and `resolve_alias` and `select_model` of `sova/llm/client.py`: which name of a model is
sent for the one that a configuration or a caller gives. Log lines are left out.
-/

namespace Llm

/-! ## The configuration and the environment -/

/-- `llm.provider`. -/
inductive Provider where
  | claudeCode
  | litellm
  | hybrid
  | anthropic
  | openai
  | ollama
  | vertex
  deriving DecidableEq, Repr

def Provider.value : Provider → Text
  | .claudeCode => "claude-code".toList
  | .litellm => "litellm".toList
  | .hybrid => "hybrid".toList
  | .anthropic => "anthropic".toList
  | .openai => "openai".toList
  | .ollama => "ollama".toList
  | .vertex => "vertex".toList

/-- The fields of `LLMConfig` that a model name is resolved by. -/
structure LLMConfig where
  provider : Provider := .claudeCode
  modelAliases : Assoc Text Text := []
  resolveTierAliases : Bool := true
  tierCandidates : Assoc Text Text := []

/-- `os.environ`, and what `configured_passthrough` returns. -/
structure Environment where
  environ : Assoc Text Text := []
  passthrough : List Text := []

/-- `PROVIDER_ROUTING_VARS`. -/
def providerRoutingVars : List Text :=
  ["ANTHROPIC_BASE_URL", "ANTHROPIC_BEDROCK_BASE_URL", "ANTHROPIC_MODEL", "ANTHROPIC_SMALL_FAST_MODEL",
    "ANTHROPIC_VERTEX_BASE_URL", "ANTHROPIC_VERTEX_PROJECT_ID", "AWS_BEARER_TOKEN_BEDROCK",
    "CLAUDE_CODE_SKIP_BEDROCK_AUTH", "CLAUDE_CODE_SKIP_VERTEX_AUTH", "CLAUDE_CODE_USE_BEDROCK",
    "CLAUDE_CODE_USE_VERTEX", "CLOUD_ML_REGION"].map (·.toList)

/-- `PARENT_SESSION_VARS`. -/
def parentSessionVars : List Text :=
  ["CLAUDECODE", "CLAUDE_AGENT_SDK_VERSION", "CLAUDE_CODE_CHILD_SESSION", "CLAUDE_CODE_ENTRYPOINT",
    "CLAUDE_CODE_EXECPATH", "CLAUDE_CODE_MESSAGING_SOCKET", "CLAUDE_CODE_MESSAGING_TOKEN",
    "CLAUDE_CODE_SESSION_ID", "CLAUDE_CODE_SSE_PORT"].map (·.toList)

/-- `CODEX_CREDENTIAL_VARS | OPENAI_CREDENTIAL_VARS`, which are `_PASSTHROUGH_INELIGIBLE`. -/
def passthroughIneligible : List Text := ["CODEX_API_KEY", "OPENAI_API_KEY"].map (·.toList)

/-- `SCRUBBED_VARS`. -/
def scrubbedVars : List Text := providerRoutingVars ++ parentSessionVars ++ passthroughIneligible

/-- `scrub_agent_env`, without `extra_scrub`. -/
def scrubAgentEnv (source : Assoc Text Text) (passthrough : List Text) : Assoc Text Text :=
  let keep := (passthrough.map Text.strip).filter fun name => name ≠ [] ∧ name ∉ passthroughIneligible
  source.filter fun entry => ¬ (entry.1 ∈ scrubbedVars ∧ entry.1 ∉ keep)

/-! ## Backends -/

inductive Backend where
  | firstparty
  | vertex
  | bedrock
  | litellm
  deriving DecidableEq, Repr

def Backend.value : Backend → Text
  | .firstparty => "firstparty".toList
  | .vertex => "vertex".toList
  | .bedrock => "bedrock".toList
  | .litellm => "litellm".toList

/-- `TIER_NAMES`. -/
def tierNames : List Text := ["opus", "sonnet", "haiku", "fast", "smart", "cheap"].map (·.toList)

def candidateTable (entries : List (String × List String)) : Assoc Text (List Text) :=
  entries.map fun entry => (entry.1.toList, entry.2.map (·.toList))

/-- `_VERTEX_TIER_CANDIDATES`. -/
def vertexTierCandidates : Assoc Text (List Text) := candidateTable
  [("opus", ["claude-opus-4-6@20260401", "claude-opus-4-1@20250805"]),
   ("smart", ["claude-opus-4-6@20260401", "claude-opus-4-1@20250805"]),
   ("sonnet", ["claude-sonnet-4-5@20250929"]),
   ("fast", ["claude-sonnet-4-5@20250929"]),
   ("haiku", ["claude-haiku-4-5@20251001"]),
   ("cheap", ["claude-haiku-4-5@20251001"])]

/-- `_BEDROCK_TIER_CANDIDATES`. -/
def bedrockTierCandidates : Assoc Text (List Text) := candidateTable
  [("opus", ["us.anthropic.claude-opus-4-1-20250805-v1:0"]),
   ("smart", ["us.anthropic.claude-opus-4-1-20250805-v1:0"]),
   ("sonnet", ["us.anthropic.claude-sonnet-4-5-20250929-v1:0"]),
   ("fast", ["us.anthropic.claude-sonnet-4-5-20250929-v1:0"]),
   ("haiku", ["us.anthropic.claude-haiku-4-5-20251001-v1:0"]),
   ("cheap", ["us.anthropic.claude-haiku-4-5-20251001-v1:0"])]

/-- `_BUILTIN_TIER_CANDIDATES`. -/
def builtinTierCandidates : Backend → Assoc Text (List Text)
  | .vertex => vertexTierCandidates
  | .bedrock => bedrockTierCandidates
  | _ => []

/-- `_CANDIDATE_TO_TIER`. A candidate of several tiers has the last one. -/
def candidateToTier : Assoc Text Text :=
  Assoc.ofEntries ((vertexTierCandidates ++ bedrockTierCandidates).flatMap fun entry =>
    entry.2.map fun candidate => (candidate, entry.1))

/-- `tier_for_known_candidate`. -/
def tierForKnownCandidate (modelId : Text) : Option Text := Assoc.get candidateToTier modelId

/-- `model_id.startswith(_BEDROCK_ID_PREFIXES)`. -/
def isBedrockId (modelId : Text) : Bool :=
  ["anthropic.", "us.anthropic.", "eu.anthropic.", "apac.anthropic."].any fun front =>
    front.toList.isPrefixOf modelId

/-- `_env_flag`. -/
def envFlag (source : Assoc Text Text) (name : Text) : Bool :=
  let value := Text.lower (Text.strip ((Assoc.get source name).getD []))
  ¬ (value = [] ∨ value = "0".toList ∨ value = "false".toList)

def useVertex : Text := "CLAUDE_CODE_USE_VERTEX".toList

def useBedrock : Text := "CLAUDE_CODE_USE_BEDROCK".toList

/-- `routing_env_vars_present`. -/
def routingEnvVarsPresent (environ : Assoc Text Text) : Bool :=
  envFlag environ useVertex || envFlag environ useBedrock

def detectBackend (cfg : LLMConfig) (source : Assoc Text Text) : Backend :=
  match cfg.provider with
  | .claudeCode =>
    if envFlag source useVertex then .vertex
    else if envFlag source useBedrock then .bedrock
    else .firstparty
  | .anthropic => .firstparty
  | .vertex => .vertex
  | _ => .litellm

def backendCanServe (backend : Backend) (modelId : Text) : Bool :=
  if (backend = .vertex ∨ backend = .bedrock) ∧ modelId ∈ tierNames then false
  else if backend = .firstparty ∧ '@' ∈ modelId then false
  else if backend ≠ .bedrock ∧ isBedrockId modelId then false
  else true

/-! ## Candidates for a tier -/

/-- Python's `str` of a value that is no string. -/
abbrev Printing := Json → Text

/-- `str(item).strip()`. -/
def itemText (print : Printing) : Json → Text
  | .str t => Text.strip t
  | item => Text.strip (print item)

/-- `_parse_candidate_list`. A numeral that `int` refuses raises. -/
def parseCandidateList (print : Printing) (raw : Text) : Except PyException (List Text) :=
  let stripped := Text.strip raw
  let pieces := ((stripped.splitOn ',').map Text.strip).filter (· ≠ [])
  if stripped = [] then .ok []
  else if stripped.head? = some '[' then
    match Json.loads stripped with
    | .ok (.arr items) => .ok ((items.map (itemText print)).filter (· ≠ []))
    | .ok _ => .ok pieces
    | .error e => if e = Json.decodeError then .ok pieces else .error e
  else .ok pieces

/-- The key `"{backend}:{name}"`. -/
def scopedKey (backend : Backend) (name : Text) : Text := backend.value ++ ':' :: name

def tierCandidatesFor (print : Printing) (backend : Backend) (tier : Text) (overrides : Assoc Text Text) :
    Except PyException (List Text) := do
  let raw := (Assoc.get overrides (scopedKey backend tier)).getD []
  let parsed ← parseCandidateList print raw
  let overrideCandidates := parsed.filter (backendCanServe backend)
  if overrideCandidates ≠ [] then .ok overrideCandidates
  else .ok (((Assoc.get (builtinTierCandidates backend) tier).getD []).filter (backendCanServe backend))

/-! ## Resolution -/

/-- `_ALIAS_TO_CURRENT_MODEL`. -/
def aliasToCurrentModel : Assoc Text Text :=
  [("opus", "claude-opus-5-5"), ("sonnet", "claude-sonnet-5-5"), ("haiku", "claude-haiku-5-5"),
    ("smart", "claude-opus-5-5"), ("fast", "claude-sonnet-5-5"), ("cheap", "claude-haiku-5-5")].map
    fun entry => (entry.1.toList, entry.2.toList)

/-- `resolve_model_alias`. -/
def resolveModelAlias (model : Text) : Text := (Assoc.get aliasToCurrentModel model).getD model

/-- The prefix that litellm wants in front of the name of a Vertex model. -/
def vertexPrefix : Text := "vertex_ai/".toList

/-- What a configuration is resolved against. -/
def backendOf (cfg : LLMConfig) (env : Environment) : Backend :=
  if cfg.provider = .claudeCode ∧ routingEnvVarsPresent env.environ then
    detectBackend cfg (scrubAgentEnv env.environ env.passthrough)
  else detectBackend cfg env.environ

/-- What the alias map has for a name: an entry for the backend comes first. -/
def aliasOf (cfg : LLMConfig) (backend : Backend) (model : Text) : Text :=
  match Assoc.get cfg.modelAliases (scopedKey backend model) with
  | some resolved => resolved
  | none => (Assoc.get cfg.modelAliases model).getD model

/-- `tier`: of the name itself, or of the known candidate that the map has for it. -/
def tierOf (model resolved : Text) : Option Text :=
  if model ∈ tierNames then some model else tierForKnownCandidate (Text.withoutFront vertexPrefix resolved)

/-- `needs_fix`, for a name that has a tier. -/
def needsFix (backend : Backend) (model resolved : Text) : Bool :=
  !backendCanServe backend resolved || (backend == .firstparty && resolved == model)

/-- `resolved` after the correction to the tier. -/
def corrected (print : Printing) (cfg : LLMConfig) (backend : Backend) (tier resolved : Text) :
    Except PyException Text :=
  match backend with
  | .firstparty =>
    let candidate := resolveModelAlias tier
    .ok (if candidate ≠ tier then candidate else resolved)
  | .litellm => .ok resolved
  | _ => do
    let candidates ← tierCandidatesFor print backend tier cfg.tierCandidates
    match candidates with
    | [] => .ok resolved
    | candidate :: _ =>
      if cfg.provider = .vertex ∧ ¬ vertexPrefix.isPrefixOf candidate then .ok (vertexPrefix ++ candidate)
      else .ok candidate

def resolveAlias (print : Printing) (cfg : LLMConfig) (env : Environment) (model : Text) :
    Except PyException Text :=
  let backend := backendOf cfg env
  let resolved := aliasOf cfg backend model
  if cfg.resolveTierAliases then
    match tierOf model resolved with
    | none => .ok resolved
    | some tier =>
      if needsFix backend model resolved then corrected print cfg backend tier resolved
      else .ok resolved
  else .ok resolved

/-- `cfg` is the `llm` section of the project's configuration. -/
def selectModel (print : Printing) (env : Environment) (cfg : Option LLMConfig) (model : Option Text) :
    Except PyException (Option Text) :=
  match model, cfg with
  | some model, some cfg => (resolveAlias print cfg env model).map some
  | _, _ => .ok model

end Llm
