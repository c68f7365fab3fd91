import Mathlib.Algebra.Order.Ring.Rat
import SovaVerified.Dashboard.AgentOutput
import SovaVerified.Dashboard.Finalize
import SovaVerified.Ipc.Proofs.CodexProofs
import SovaVerified.Ipc.Proofs.ControlProofs

/-!
# What the stream of an agent reports

The report of an agent whose output file is read to its end is told by the file alone: of each turn of the stream
the first terminal event counts, and no other.
-/

namespace Dashboard

open Core (CostSource)
open Ipc.Codex
open Llm (LLMResult)

variable {A : Text.Alphabet} {str : Json → Text}

/-! ## The ends of the turns -/

/-- What a result takes from its terminal event. -/
structure Reports (costSource : CostSource) (data : Json) (result : LLMResult) : Prop where
  cost : result.costUsd = 0
  costSource : result.costSource = costSource
  input : result.inputTokens = coerceUsageInt (data.item "usage".toList .null) "input_tokens".toList
  output : result.outputTokens = coerceUsageInt (data.item "usage".toList .null) "output_tokens".toList
  cacheRead : result.cacheReadTokens = coerceUsageInt (data.item "usage".toList .null) "cached_input_tokens".toList
  cacheWrite : result.cacheCreationTokens = none
  reasoning : result.reasoningOutputTokens = coerceReasoningTokens (data.item "usage".toList .null)
  failure : (failureOf result).isSome = isFailure data

theorem reports_ended (p : CodexStreamParser) (data : Json) : Reports p.costSource data (p.ended A str data) := by
  unfold CodexStreamParser.ended
  split
  · next hfailure =>
    refine ⟨rfl, rfl, rfl, rfl, rfl, rfl, rfl, ?_⟩
    rw [hfailure]
    rfl
  · next hfailure =>
    refine ⟨rfl, rfl, rfl, rfl, rfl, rfl, rfl, ?_⟩
    rw [Bool.not_eq_true] at hfailure
    rw [hfailure]
    rfl

theorem endings_of_opens {data : Json} {events : List Json} (h : opensTurn data = true) :
    endings (data :: events) = endings events := by
  rw [endings, List.splitOnP_cons_eq_if_modifyHead, if_pos h]
  rfl

/-- The turns behind the current one. -/
theorem endings_dropWhile (events : List Json) :
    endings (events.dropWhile fun data => !opensTurn data) =
      (events.splitOnP opensTurn).tail.filterMap fun turn => turn.find? isTerminal := by
  induction events with
  | nil => rfl
  | cons data events ih =>
    rw [List.splitOnP_cons_eq_if_modifyHead]
    cases hopens : opensTurn data with
    | true =>
      rw [List.dropWhile_cons_of_neg (by simp [hopens]), endings_of_opens hopens]
      rfl
    | false =>
      rw [List.dropWhile_cons_of_pos (by simp [hopens]), ih, if_neg Bool.false_ne_true, List.tail_modifyHead]

theorem endings_of_terminal {data : Json} {events : List Json} (hopens : opensTurn data = false)
    (hterminal : isTerminal data = true) :
    endings (data :: events) = data :: endings (events.dropWhile fun data => !opensTurn data) := by
  rw [endings_dropWhile, endings, List.splitOnP_cons_eq_if_modifyHead,
    if_neg (by rw [hopens]; exact Bool.false_ne_true)]
  obtain ⟨turn, turns, hturns⟩ := List.exists_cons_of_ne_nil (List.splitOnP_ne_nil opensTurn events)
  rw [hturns, List.modifyHead_cons, List.filterMap_cons, List.find?_cons_of_pos hterminal]
  rfl

theorem endings_of_not_terminal {data : Json} {events : List Json} (hopens : opensTurn data = false)
    (hterminal : isTerminal data = false) : endings (data :: events) = endings events := by
  rw [endings, List.splitOnP_cons_eq_if_modifyHead, if_neg (by rw [hopens]; exact Bool.false_ne_true), endings]
  obtain ⟨turn, turns, hturns⟩ := List.exists_cons_of_ne_nil (List.splitOnP_ne_nil opensTurn events)
  rw [hturns, List.modifyHead_cons, List.filterMap_cons, List.filterMap_cons,
    List.find?_cons_of_neg (by rw [hterminal]; exact Bool.false_ne_true)]

/-- The ends of the turns, when the first turn may have ended already. -/
def endingsFrom (emitted : Bool) (events : List Json) : List Json :=
  endings (if emitted then events.dropWhile fun data => !opensTurn data else events)

theorem endingsFrom_of_opens {data : Json} {events : List Json} (emitted : Bool) (h : opensTurn data = true) :
    endingsFrom emitted (data :: events) = endingsFrom false events := by
  unfold endingsFrom
  cases emitted with
  | false => exact endings_of_opens h
  | true =>
    rw [if_pos rfl, List.dropWhile_cons_of_neg (by simp [h])]
    exact endings_of_opens h

theorem endingsFrom_of_not_opens {data : Json} {events : List Json} (emitted : Bool)
    (h : opensTurn data = false) :
    endingsFrom emitted (data :: events) =
      (if isTerminal data = true ∧ emitted = false then [data] else []) ++
        endingsFrom (emitted || isTerminal data) events := by
  unfold endingsFrom
  cases emitted with
  | true =>
    rw [if_pos rfl, List.dropWhile_cons_of_pos (by simp [h])]
    simp
  | false =>
    cases hterminal : isTerminal data with
    | true => exact endings_of_terminal h hterminal
    | false => exact endings_of_not_terminal h hterminal

theorem isTerminal_of_opens {data : Json} (h : opensTurn data = true) : isTerminal data = false := by
  unfold opensTurn opensThread at h
  unfold isTerminal isFailure
  cases htype : eventType data <;> simp_all

theorem emitted_emit (p : CodexStreamParser) (result : LLMResult) :
    (p.emit result).2.terminalEmitted = (p.terminalEmitted || true) := by
  unfold CodexStreamParser.emit
  cases hemitted : p.terminalEmitted with
  | false => rfl
  | true => exact hemitted

theorem emitted_onEvent (p : CodexStreamParser) (data : Json) :
    (p.onEvent A str data).2.terminalEmitted =
      if opensTurn data then false else p.terminalEmitted || isTerminal data := by
  unfold CodexStreamParser.onEvent opensTurn opensThread isTerminal isFailure
  cases htype : eventType data with
  | threadStarted => rfl
  | turnStarted => rfl
  | itemStarted => exact (Bool.or_false _).symm
  | itemCompleted =>
    dsimp only
    rw [(onItemCompleted_spec htype).2]
    exact (Bool.or_false _).symm
  | turnCompleted | turnFailed | error => exact emitted_emit p _
  | unknown => exact (Bool.or_false _).symm

/-- The results of a stream are the ones of the events that end its turns. -/
theorem reports_results (A : Text.Alphabet) (str : Json → Text) (p : CodexStreamParser) (lines : List Text) :
    List.Forall₂ (Reports p.costSource) (endingsFrom p.terminalEmitted (eventsOf lines)) (p.results A str lines) := by
  induction lines generalizing p with
  | nil =>
    cases hemitted : p.terminalEmitted <;> exact .nil
  | cons line lines ih =>
    rw [CodexStreamParser.results]
    cases hobject : objectOf line with
    | none =>
      obtain ⟨hresult, hparser⟩ : (p.parseLine A str line).1.bind StreamEvent.result? = none ∧
        (p.parseLine A str line).2 = p := parseLine_of_none hobject
      rw [hresult, hparser, eventsOf, List.filterMap_cons, hobject]
      exact ih p
    | some data =>
      have hsource : (p.onEvent A str data).2.costSource = p.costSource :=
        (configured_onEvent ⟨rfl, rfl, rfl⟩ data).costSource
      have hrest := ih (p.onEvent A str data).2
      rw [hsource, emitted_onEvent] at hrest
      rw [parseLine_of_object hobject, eventsOf, List.filterMap_cons, hobject, onEvent_result]
      cases hopens : opensTurn data with
      | true =>
        have hterminal : isTerminal data = false := isTerminal_of_opens hopens
        rw [hopens] at hrest
        rw [endingsFrom_of_opens _ hopens, hterminal]
        exact hrest
      | false =>
        rw [hopens] at hrest
        rw [endingsFrom_of_not_opens _ hopens]
        refine List.rel_append ?_ hrest
        split
        · exact .cons (reports_ended p data) .nil
        · exact .nil

/-! ## The report -/

theorem readStreamLine_spec (A : Text.Alphabet) (str : Json → Text) (reader : OutputReader) (line : Text) :
    (readStreamLine A str reader line).parser = (reader.parser.parseLine A str line).2 ∧
      (readStreamLine A str reader line).report =
        (((reader.parser.parseLine A str line).1.bind StreamEvent.result?).toList).foldl StreamReport.add
          reader.report := by
  unfold readStreamLine parseStreamLine
  by_cases hblank : Text.strip line = []
  · rw [if_pos hblank, CodexStreamParser.parseLine, if_pos hblank]
    exact ⟨rfl, rfl⟩
  · rw [if_neg hblank, parseRuntimeStreamLine]
    dsimp only
    cases (reader.parser.parseLine A str line).1 with
    | none => exact ⟨rfl, rfl⟩
    | some event =>
      cases event with
      | content text =>
        dsimp only
        split_ifs <;> exact ⟨rfl, rfl⟩
      | result result =>
        dsimp only
        split_ifs <;> exact ⟨rfl, rfl⟩

/-- The reader adds the results up, one after the other. -/
theorem report_readOutput (reader : OutputReader) (lines : List Text) :
    (readOutput A str reader lines).report =
      (reader.parser.results A str lines).foldl StreamReport.add reader.report := by
  induction lines generalizing reader with
  | nil => rfl
  | cons line lines ih =>
    obtain ⟨hparser, hreport⟩ := readStreamLine_spec A str reader line
    show (readOutput A str (readStreamLine A str reader line) lines).report = _
    rw [ih, hparser, hreport, CodexStreamParser.results, List.foldl_append]

section

variable {M : Type} [AddCommMonoid M] {α : Type}

theorem foldl_addReported_some (values : List α) (f : α → Option M) (sum : M) :
    values.foldl (fun sum value => addReported sum (f value)) (some sum) =
      some (sum + (values.filterMap f).sum) := by
  induction values generalizing sum with
  | nil => rw [List.foldl_nil, List.filterMap_nil, List.sum_nil, add_zero]
  | cons value values ih =>
    rw [List.foldl_cons]
    cases hvalue : f value with
    | none => rw [List.filterMap_cons_none hvalue, addReported, ih]
    | some n =>
      rw [List.filterMap_cons_some hvalue, addReported, Option.getD_some, ih, List.sum_cons, add_comm n sum,
        add_assoc]

/-- A sum that starts with nothing. -/
theorem foldl_addReported (values : List α) (f : α → Option M) :
    values.foldl (fun sum value => addReported sum (f value)) none = total (values.filterMap f) := by
  induction values with
  | nil => rfl
  | cons value values ih =>
    rw [List.foldl_cons]
    cases hvalue : f value with
    | none => rw [List.filterMap_cons_none hvalue, addReported, ih]
    | some n =>
      rw [List.filterMap_cons_some hvalue, addReported, foldl_addReported_some, Option.getD_none, add_zero, total,
        List.sum_cons]
      rfl

end

theorem filterMap_of_forall₂ {α β M : Type} {R : α → β → Prop} {f : α → Option M} {g : β → Option M}
    {as : List α} {bs : List β} (h : List.Forall₂ R as bs) (hfg : ∀ a b, R a b → f a = g b) :
    as.filterMap f = bs.filterMap g := by
  induction h with
  | nil => rfl
  | cons hab _ ih => rw [List.filterMap_cons, List.filterMap_cons, hfg _ _ hab, ih]

/-- A field that adds up what the results report. -/
theorem field_report {M : Type} [AddCommMonoid M] (field : StreamReport → Option M) (f : LLMResult → Option M)
    (g : Json → Option M) {costSource : CostSource} {ends : List Json} {results : List LLMResult}
    (hreports : List.Forall₂ (Reports costSource) ends results)
    (hadd : ∀ report result, field (report.add result) = addReported (field report) (f result))
    (hfield : field {} = none) (hfg : ∀ data result, Reports costSource data result → g data = f result) :
    field (results.foldl StreamReport.add {}) = total (ends.filterMap g) := by
  rw [filterMap_of_forall₂ hreports hfg, ← foldl_addReported, ← hfield]
  exact (List.foldl_hom field fun report result => (hadd report result).symm).symm

theorem failure_report {costSource : CostSource} {ends : List Json} {results : List LLMResult}
    (hreports : List.Forall₂ (Reports costSource) ends results) (report : StreamReport) :
    (results.foldl StreamReport.add report).streamFailure.isSome =
      (report.streamFailure.isSome || ends.any isFailure) := by
  induction hreports generalizing report with
  | nil => exact (Bool.or_false _).symm
  | cons hdata _ ih =>
    rw [List.foldl_cons, ih, List.any_cons, ← hdata.failure, StreamReport.add, Option.isSome_or]
    rw [Bool.or_comm (failureOf _).isSome, Bool.or_assoc]

theorem costSource_report {costSource : CostSource} {ends : List Json} {results : List LLMResult}
    (hreports : List.Forall₂ (Reports costSource) ends results) (report : StreamReport) :
    (results.foldl StreamReport.add report).lastResultCostSource =
      (ends.head?.map fun _ => costSource).or report.lastResultCostSource := by
  induction hreports generalizing report with
  | nil => rfl
  | cons hdata hrest ih =>
    rw [List.foldl_cons, ih, StreamReport.add, hdata.costSource]
    cases hrest <;> rfl

theorem failureOf_ne_nil {result : LLMResult} {failure : Text} (h : failureOf result = some failure) :
    failure ≠ [] := by
  unfold failureOf nonempty at h
  split_ifs at h with herror htext
  · rw [← Option.some.inj h]
    exact List.cons_ne_nil _ _
  · rw [← Option.some.inj h]
    exact htext

/-- A failure that is reported has a text. -/
theorem truthy_report (results : List LLMResult) (report : StreamReport)
    (h : ∀ failure, report.streamFailure = some failure → failure ≠ []) :
    truthyReason (results.foldl StreamReport.add report).streamFailure =
      (results.foldl StreamReport.add report).streamFailure := by
  induction results generalizing report with
  | nil =>
    cases hfailure : report.streamFailure with
    | none =>
      rw [List.foldl_nil, hfailure]
      rfl
    | some failure =>
      rw [List.foldl_nil, hfailure, truthyReason, Option.filter, if_pos]
      simpa using h failure hfailure
  | cons result results ih =>
    refine ih (report.add result) fun failure hfailure => ?_
    rcases Option.or_eq_some_iff.mp hfailure with hnew | ⟨-, hold⟩
    · exact failureOf_ne_nil hnew
    · exact h failure hold

theorem total_zero {α : Type} (values : List α) :
    total (values.filterMap fun _ => some (0 : ℚ)) = values.head?.map fun _ => 0 := by
  cases values with
  | nil => rfl
  | cons value values => simp [total, List.filterMap_eq_map']

/-- The count that an event reports. -/
def tokens (key : String) (data : Json) : Nat := coerceUsageInt (data.item "usage".toList .null) key.toList

/-- A turn that fails and is reported twice. -/
def failedTwice : List Ipc.TailAction :=
  [.write "\x7b\"type\":\"error\"".toList, .poll, .write "\x7d\n\x7b\"type\":\"error\"\x7d".toList, .exit, .poll,
    .poll]

end Dashboard
