import SovaVerified.Ipc.Codex

/-!
# The output of a Codex agent

`_read_output`, `_parse_stream_line` and `_parse_runtime_stream_line` of
`sova/dashboard/services/agent_output.py`, for an agent that has a stream parser of its own: which lines the agent
shows, and what its stream reports. A cost is an exact sum; a result of Codex costs nothing.
-/

namespace Dashboard

open Core (CostSource)
open Ipc.Codex
open Llm (LLMResult)

/-- The fields of `AgentState` that the terminal results of the stream set. -/
structure StreamReport where
  streamFailure : Option Text := none
  runtimeSessionId : Option Text := none
  runtimeModel : Option Text := none
  lastResultCost : Option ℚ := none
  lastResultCostSource : Option CostSource := none
  lastResultInputTokens : Option Nat := none
  lastResultOutputTokens : Option Nat := none
  lastResultCacheReadTokens : Option Nat := none
  lastResultCacheWriteTokens : Option Nat := none
  lastResultReasoningTokens : Option Nat := none

/-- `value + (total or 0)`, when the value is reported. -/
def addReported {M : Type} [Add M] [Zero M] (total value : Option M) : Option M :=
  match value with
  | none => total
  | some n => some (n + total.getD 0)

def nonempty (t : Text) : Option Text := if t = [] then none else some t

/-- The failure that a result stands for. -/
def failureOf (result : LLMResult) : Option Text :=
  if result.stopReason = "error".toList then
    some ((nonempty result.text).getD "runtime reported a terminal failure".toList)
  else none

def StreamReport.add (report : StreamReport) (result : LLMResult) : StreamReport where
  streamFailure := (failureOf result).or report.streamFailure
  runtimeSessionId := (nonempty result.sessionId).or report.runtimeSessionId
  runtimeModel := (nonempty result.model).or report.runtimeModel
  lastResultCost := addReported report.lastResultCost (some result.costUsd)
  lastResultCostSource := some result.costSource
  lastResultInputTokens := addReported report.lastResultInputTokens (some result.inputTokens)
  lastResultOutputTokens := addReported report.lastResultOutputTokens (some result.outputTokens)
  lastResultCacheReadTokens := addReported report.lastResultCacheReadTokens (some result.cacheReadTokens)
  lastResultCacheWriteTokens := addReported report.lastResultCacheWriteTokens result.cacheCreationTokens
  lastResultReasoningTokens := addReported report.lastResultReasoningTokens result.reasoningOutputTokens

/-- The line that marks the end of a turn. -/
def resultLine (result : LLMResult) : Text :=
  match failureOf result with
  | some failure => "\n--- Result [error]: ".toList ++ failure ++ " ---".toList
  | none =>
    "\n--- Result [tokens: ".toList ++ Text.ofInt result.inputTokens ++ " in / ".toList ++
      Text.ofInt result.outputTokens ++ " out] ---".toList

/-- The reader of one process. -/
structure OutputReader where
  parser : CodexStreamParser
  report : StreamReport := {}
  buffered : List Text := []

/-- The reader that a spawn begins with. -/
def newReader (costSource : CostSource) (model : Text) : OutputReader where
  parser := newParser maxContentCharsDefault costSource model

variable (A : Text.Alphabet) (str : Json → Text)

/-- `_parse_runtime_stream_line`. -/
def parseRuntimeStreamLine (reader : OutputReader) (line : Text) : Text × OutputReader :=
  let parsed := reader.parser.parseLine A str line
  let reader := { reader with parser := parsed.2 }
  match parsed.1 with
  | none => ([], reader)
  | some (.content text) => (text, reader)
  | some (.result result) => (resultLine result, { reader with report := reader.report.add result })

/-- `_parse_stream_line`. -/
def parseStreamLine (reader : OutputReader) (line : Text) : Text × OutputReader :=
  if Text.strip line = [] then ([], reader) else parseRuntimeStreamLine A str reader line

/-- One line of `_read_output`. -/
def readStreamLine (reader : OutputReader) (line : Text) : OutputReader :=
  let (text, reader) := parseStreamLine A str reader line
  if text = [] then reader else { reader with buffered := reader.buffered ++ [text] }

/-- `_read_output`. -/
def readOutput (reader : OutputReader) (lines : List Text) : OutputReader := lines.foldl (readStreamLine A str) reader

/-- The sum of what is reported, if anything is. -/
def total {M : Type} [Add M] [Zero M] (values : List M) : Option M :=
  if values.isEmpty then none else some values.sum

end Dashboard
