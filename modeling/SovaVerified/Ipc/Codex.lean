import SovaVerified.Json.Access
import SovaVerified.Llm.Egress
import SovaVerified.Llm.Models

/-!
# The stream of a Codex process

`sova/ipc/codex.py`: what the lines of `codex exec --json` are mapped to. Log lines are left out.

`str` is the text of a value that is no text itself.
-/

namespace Ipc.Codex

open Json
open Core (CostSource)
open Llm (LLMResult)

/-! ## Rendering -/

/-- `_BOUNDARY_MARGIN_CHARS`. -/
def boundaryMarginChars : Nat := 256

/-- `_MAX_CONTENT_CHARS`. -/
def maxContentCharsDefault : Nat := 2000

/-- `_MAX_COMMAND_CHARS`. -/
def maxCommandChars : Nat := 200

/-- `_MAX_OUTPUT_HEAD_CHARS`. -/
def maxOutputHeadChars : Nat := 500

/-- `_MAX_FILE_CHANGE_PATHS`. -/
def maxFileChangePaths : Nat := 10

/-- `_last_whitespace_in`. -/
def lastWhitespaceIn (text : Text) (start stop : Nat) : Option Nat :=
  let segment := (text.take stop).drop start
  (segment.reverse.findIdx? Text.isSpace).map fun i => start + (segment.length - 1 - i)

section

variable (A : Text.Alphabet)

def redacted (text : Text) : Text := (Llm.Egress.scanAndRedact A text).redactedText

/-- `_redact_and_truncate`. -/
def redactAndTruncate (text : Text) (maxChars : Nat) : Text :=
  let window := maxChars + boundaryMarginChars
  if text.length ≤ window then (redacted A text).take maxChars
  else
    match lastWhitespaceIn text maxChars window with
    | some boundary => (redacted A (text.take boundary)).take maxChars
    | none =>
      let scanned := redacted A (text.take window)
      let trimmed := (scanned.take (scanned.length - boundaryMarginChars)).take maxChars
      if trimmed ≠ [] then trimmed
      else
        match lastWhitespaceIn text 0 maxChars with
        | some early => (redacted A (text.take early)).take maxChars
        | none => []

end

/-! ## Fields of an event -/

/-- `_coerce_usage_int`: the key of an object that holds an integer which is not negative, and else `0`. -/
def coerceUsageInt (usage : Json) (key : Text) : Nat :=
  match usage.item key .null with
  | .int n => n.toNat
  | _ => 0

def hasKey (v : Json) (key : Text) : Bool :=
  match v with
  | .obj members => (Assoc.get members key).isSome
  | _ => false

/-- `_coerce_reasoning_tokens`. -/
def coerceReasoningTokens (usage : Json) : Option Nat :=
  if hasKey usage "reasoning_output_tokens".toList then
    some (coerceUsageInt usage "reasoning_output_tokens".toList)
  else if hasKey usage "output_tokens_details".toList then
    some (coerceUsageInt (usage.item "output_tokens_details".toList .null) "reasoning_tokens".toList)
  else none

/-- `_str_field`. -/
def strField (v : Json) (key : Text) : Text :=
  match v.item key .null with
  | .str t => t
  | _ => []

/-- The types of events that the parser reacts to. -/
inductive EventType where
  | threadStarted
  | turnStarted
  | itemStarted
  | itemCompleted
  | turnCompleted
  | turnFailed
  | error
  | unknown
  deriving DecidableEq

def eventType (data : Json) : EventType :=
  let type := strField data "type".toList
  if type = "thread.started".toList then .threadStarted
  else if type = "turn.started".toList then .turnStarted
  else if type = "item.started".toList then .itemStarted
  else if type = "item.completed".toList then .itemCompleted
  else if type = "turn.completed".toList then .turnCompleted
  else if type = "turn.failed".toList then .turnFailed
  else if type = "error".toList then .error
  else .unknown

/-! ## The parser -/

inductive StreamEvent where
  | content (text : Text)
  | result (r : LLMResult)

def StreamEvent.text : StreamEvent → Text
  | .content text => text
  | .result r => r.text

def StreamEvent.result? : StreamEvent → Option LLMResult
  | .content _ => none
  | .result r => some r

structure CodexStreamParser where
  threadId : Text := []
  model : Text := []
  configuredModel : Text
  lastMessageText : Text := []
  lastMessageTruncated : Bool := false
  terminalEmitted : Bool := false
  maxContentChars : Nat
  costSource : CostSource

/-- `__init__`. -/
def newParser (maxContentChars : Nat) (costSource : CostSource) (model : Text) : CodexStreamParser where
  configuredModel := model
  maxContentChars
  costSource

/-- `_reset_for_turn`. -/
def CodexStreamParser.resetForTurn (p : CodexStreamParser) : CodexStreamParser :=
  { p with terminalEmitted := false, lastMessageText := [], lastMessageTruncated := false }

variable (A : Text.Alphabet) (str : Json → Text)

/-- `str(value)`. -/
def textOf : Json → Text
  | .str t => t
  | v => str v

def threadIdOf (data : Json) : Text :=
  match data.item "thread_id".toList .null with
  | .null => []
  | raw => textOf str raw

/-- `_reset_for_thread`. -/
def CodexStreamParser.resetForThread (p : CodexStreamParser) (data : Json) : CodexStreamParser :=
  { p with
    threadId := threadIdOf str data
    model := strField data "model".toList }.resetForTurn

/-- `_item_payload`. -/
def itemPayload (data : Json) : Json × Text :=
  match data.item "item".toList .null with
  | .obj members =>
    let item := Json.obj members
    let itemType := item.item "item_type".toList .null
    let type := item.item "type".toList .null
    (item, if itemType.truthy then textOf str itemType else if type.truthy then textOf str type else [])
  | _ => (.obj [], [])

/-- `_on_item_started`. -/
def onItemStarted (data : Json) : Option StreamEvent :=
  let (item, itemType) := itemPayload str data
  if itemType ≠ "command_execution".toList then none
  else
    let command := redactAndTruncate A (strField item "command".toList) maxCommandChars
    if command = [] then none else some (.content ("$ ".toList ++ command))

/-- `_render_command_completed`. -/
def renderCommandCompleted (item : Json) : StreamEvent :=
  let command := redactAndTruncate A (strField item "command".toList) maxCommandChars
  let output := redactAndTruncate A (strField item "aggregated_output".toList) maxOutputHeadChars
  let exitCode :=
    match item.item "exit_code".toList .null with
    | .int n => ["exit ".toList ++ Text.ofInt n]
    | _ => []
  .content (Text.join " | ".toList
    (("$ ".toList ++ if command = [] then "(command)".toList else command) ::
      (exitCode ++ if output = [] then [] else [output])))

/-- `_render_file_change`. -/
def renderFileChange (item : Json) : Option StreamEvent :=
  match item.item "changes".toList .null with
  | .arr changes =>
    let paths := changes.filterMap fun c =>
      let path := c.item "path".toList .null
      if path.truthy then some (textOf str path) else none
    if paths = [] then none
    else
      let summary := Text.ofInt paths.length ++ " file(s) changed: ".toList ++
        Text.join ", ".toList (paths.take maxFileChangePaths)
      let more := if maxFileChangePaths < paths.length then
        " (+".toList ++ Text.ofInt (paths.length - maxFileChangePaths : Nat) ++ " more)".toList else []
      some (.content (redactAndTruncate A (summary ++ more) maxContentCharsDefault))
  | _ => none

/-- The cause that a failure names. -/
def failureMessage (data : Json) : Text :=
  let error := data.item "error".toList .null
  match error with
  | .obj _ => strField error "message".toList
  | _ => if error.truthy then textOf str error else strField data "message".toList

namespace CodexStreamParser

/-- `_render_agent_message`. -/
def renderAgentMessage (p : CodexStreamParser) (item : Json) : Option StreamEvent × CodexStreamParser :=
  let rawText := strField item "text".toList
  let rendered := redactAndTruncate A rawText p.maxContentChars
  if rendered = [] then (none, p)
  else
    (some (.content rendered),
      { p with
        lastMessageText := rendered
        lastMessageTruncated := decide (p.maxContentChars < rawText.length) })

/-- `_on_item_completed`. -/
def onItemCompleted (p : CodexStreamParser) (data : Json) : Option StreamEvent × CodexStreamParser :=
  let (item, itemType) := itemPayload str data
  if itemType = "agent_message".toList then p.renderAgentMessage A item
  else if itemType = "command_execution".toList then (some (renderCommandCompleted A item), p)
  else if itemType = "file_change".toList then (renderFileChange A str item, p)
  else (none, p)

/-- A terminal event names no cost. -/
theorem noCost : (0 : ℚ) ≤ 0 := le_refl 0

/-- The usage of a terminal event, with what the parser knows itself. -/
def resultOf (p : CodexStreamParser) (data : Json) : LLMResult :=
  let usage := data.item "usage".toList .null
  let model := strField data "model".toList
  { text := []
    cost_nonneg := noCost
    model := if model ≠ [] then model else if p.model ≠ [] then p.model else p.configuredModel
    costSource := p.costSource
    inputTokens := coerceUsageInt usage "input_tokens".toList
    outputTokens := coerceUsageInt usage "output_tokens".toList
    cacheReadTokens := coerceUsageInt usage "cached_input_tokens".toList
    reasoningOutputTokens := coerceReasoningTokens usage
    sessionId := p.threadId }

/-- `_on_turn_completed`, when no terminal event came before. -/
def completed (p : CodexStreamParser) (data : Json) : LLMResult :=
  { p.resultOf data with
    text := p.lastMessageText
    stopReason := "end_turn".toList
    truncated := p.lastMessageTruncated }

/-- `_on_terminal_failure`, when no terminal event came before. -/
def failed (p : CodexStreamParser) (data : Json) : LLMResult :=
  let message := redactAndTruncate A (failureMessage str data) maxContentCharsDefault
  { p.resultOf data with
    text := if message ≠ [] then message else p.lastMessageText
    stopReason := "error".toList }

/-- A terminal event counts once for a turn. -/
def emit (p : CodexStreamParser) (result : LLMResult) : Option StreamEvent × CodexStreamParser :=
  if p.terminalEmitted then (none, p) else (some (.result result), { p with terminalEmitted := true })

/-- The object of a line, by its type. -/
def onEvent (p : CodexStreamParser) (data : Json) : Option StreamEvent × CodexStreamParser :=
  match eventType data with
  | .threadStarted => (none, p.resetForThread str data)
  | .turnStarted => (none, p.resetForTurn)
  | .itemStarted => (onItemStarted A str data, p)
  | .itemCompleted => p.onItemCompleted A str data
  | .turnCompleted => p.emit (p.completed data)
  | .turnFailed | .error => p.emit (p.failed A str data)
  | .unknown => (none, p)

end CodexStreamParser

/-- The object that a line holds. -/
def objectOf (line : Text) : Option Json :=
  match loads (Text.strip line) with
  | .ok (.obj members) => some (.obj members)
  | _ => none

/-- `parse_line`. -/
def CodexStreamParser.parseLine (p : CodexStreamParser) (line : Text) :
    Option StreamEvent × CodexStreamParser :=
  if Text.strip line = [] then (none, p)
  else
    match objectOf line with
    | some data => p.onEvent A str data
    | none => (some (.content (redactAndTruncate A (Text.strip line) maxContentCharsDefault)), p)

/-- The results that come out of some lines. -/
def CodexStreamParser.results (p : CodexStreamParser) : List Text → List LLMResult
  | [] => []
  | line :: lines =>
    let parsed := p.parseLine A str line
    (parsed.1.bind StreamEvent.result?).toList ++ results parsed.2 lines

/-- The parser behind some lines. -/
def CodexStreamParser.behind (p : CodexStreamParser) (lines : List Text) : CodexStreamParser :=
  lines.foldl (fun p line => (p.parseLine A str line).2) p

/-! ## What a stream says as a whole -/

def opensThread (data : Json) : Bool := eventType data == .threadStarted

def opensTurn (data : Json) : Bool := opensThread data || eventType data == .turnStarted

def isFailure (data : Json) : Bool := eventType data == .turnFailed || eventType data == .error

def isTerminal (data : Json) : Bool := eventType data == .turnCompleted || isFailure data

/-- The objects of a stream. -/
def eventsOf (lines : List Text) : List Json := lines.filterMap objectOf

/-- The events that end the turns: the first terminal one of each. -/
def endings (events : List Json) : List Json :=
  (events.splitOnP opensTurn).filterMap fun turn => turn.find? isTerminal

/-- The events since a turn was last opened. -/
def currentTurn (events : List Json) : List Json := events.rtakeWhile fun data => !opensTurn data

/-- The last event that started a thread. -/
def currentThread (events : List Json) : Option Json := (events.filter opensThread).getLast?

/-- The agent message of an event, as it is shown, and whether it is cut. -/
def messageOf (cap : Nat) (data : Json) : Option (Text × Bool) :=
  let rawText := strField (itemPayload str data).1 "text".toList
  let rendered := redactAndTruncate A rawText cap
  if eventType data = .itemCompleted ∧ (itemPayload str data).2 = "agent_message".toList ∧ rendered ≠ [] then
    some (rendered, decide (cap < rawText.length))
  else none

/-- The last message of a turn. -/
def lastMessage (cap : Nat) (turn : List Json) : Text × Bool :=
  ((turn.filterMap (messageOf A str cap)).getLast?).getD ([], false)

/-- The first model that has a name. -/
def firstModel (models : List Text) : Text := (models.find? fun model => model ≠ []).getD []

/-- What a terminal event reports after the events in front of it. -/
def resultAfter (cap : Nat) (costSource : CostSource) (configuredModel : Text) (events : List Json) (data : Json) :
    LLMResult :=
  let usage := data.item "usage".toList .null
  let thread := currentThread events
  let message := lastMessage A str cap (currentTurn events)
  let failure := redactAndTruncate A (failureMessage str data) maxContentCharsDefault
  { text := if isFailure data = true ∧ failure ≠ [] then failure else message.1
    cost_nonneg := CodexStreamParser.noCost
    model := firstModel [strField data "model".toList,
      thread.elim [] fun started => strField started "model".toList, configuredModel]
    costSource
    inputTokens := coerceUsageInt usage "input_tokens".toList
    outputTokens := coerceUsageInt usage "output_tokens".toList
    cacheReadTokens := coerceUsageInt usage "cached_input_tokens".toList
    reasoningOutputTokens := coerceReasoningTokens usage
    sessionId := thread.elim [] (threadIdOf str)
    stopReason := if isFailure data then "error".toList else "end_turn".toList
    truncated := !isFailure data && message.2 }

end Ipc.Codex
