import Mathlib.Data.List.DropRight
import SovaVerified.Ipc.Codex

/-!
# What the parser of a Codex stream knows

The state of the parser is told by the events that it has seen: the thread by the last event that started one, the
message and the latch by the events of the current turn. So a terminal event gives a result if and only if it is
the first one of its turn.
-/

namespace Ipc.Codex

open Json
open Llm (LLMResult)

variable {A : Text.Alphabet} {str : Json → Text} {p : CodexStreamParser} {data : Json}

/-! ## One event -/

/-- The result of a terminal event. -/
def CodexStreamParser.ended (A : Text.Alphabet) (str : Json → Text) (p : CodexStreamParser) (data : Json) :
    LLMResult :=
  if isFailure data then p.failed A str data else p.completed data

/-- An item changes no more than the last message. -/
theorem onItemCompleted_spec (htype : eventType data = .itemCompleted) :
    (p.onItemCompleted A str data).1.bind StreamEvent.result? = none ∧
      (p.onItemCompleted A str data).2 =
        { p with
          lastMessageText :=
            ((messageOf A str p.maxContentChars data).getD (p.lastMessageText, p.lastMessageTruncated)).1
          lastMessageTruncated :=
            ((messageOf A str p.maxContentChars data).getD (p.lastMessageText, p.lastMessageTruncated)).2 } := by
  unfold CodexStreamParser.onItemCompleted
  dsimp only
  split_ifs with hmessage hcommand hchange
  · by_cases hrendered : redactAndTruncate A (strField (itemPayload str data).1 "text".toList)
        p.maxContentChars = []
    · simp only [CodexStreamParser.renderAgentMessage, messageOf, hrendered, if_true, ne_eq, not_true_eq_false,
        and_false, if_false]
      exact ⟨rfl, rfl⟩
    · simp only [CodexStreamParser.renderAgentMessage, messageOf, hrendered, htype, hmessage, if_false, ne_eq,
        not_false_eq_true, and_self, if_true]
      exact ⟨rfl, rfl⟩
  · refine ⟨rfl, ?_⟩
    simp only [messageOf, hmessage, false_and, and_false, if_false]
    rfl
  · refine ⟨?_, ?_⟩
    · unfold renderFileChange
      split
      · dsimp only
        split_ifs <;> rfl
      · rfl
    · simp only [messageOf, hmessage, false_and, and_false, if_false]
      rfl
  · refine ⟨rfl, ?_⟩
    simp only [messageOf, hmessage, false_and, and_false, if_false]
    rfl

theorem onItemStarted_result (A : Text.Alphabet) (str : Json → Text) (data : Json) :
    (onItemStarted A str data).bind StreamEvent.result? = none := by
  unfold onItemStarted
  dsimp only
  split_ifs <;> rfl

theorem emit_result (p : CodexStreamParser) (result : LLMResult) :
    (p.emit result).1.bind StreamEvent.result? = if p.terminalEmitted = false then some result else none := by
  unfold CodexStreamParser.emit
  cases p.terminalEmitted <;> rfl

/-- A terminal event gives a result unless one came before in its turn. -/
theorem onEvent_result (A : Text.Alphabet) (str : Json → Text) (p : CodexStreamParser) (data : Json) :
    (p.onEvent A str data).1.bind StreamEvent.result? =
      if isTerminal data = true ∧ p.terminalEmitted = false then some (p.ended A str data) else none := by
  unfold CodexStreamParser.onEvent CodexStreamParser.ended isTerminal isFailure
  cases htype : eventType data with
  | threadStarted => rfl
  | turnStarted => rfl
  | itemStarted => exact onItemStarted_result A str data
  | itemCompleted => exact (onItemCompleted_spec htype).1
  | turnCompleted | turnFailed | error =>
    rw [emit_result]
    cases p.terminalEmitted <;> rfl
  | unknown => rfl

/-! ## The state after some events -/

theorem currentTurn_of_opens {events : List Json} (h : opensTurn data = true) :
    currentTurn (events ++ [data]) = [] := by
  rw [currentTurn, List.rtakeWhile_concat, h]
  rfl

theorem currentTurn_of_not_opens {events : List Json} (h : opensTurn data = false) :
    currentTurn (events ++ [data]) = currentTurn events ++ [data] := by
  rw [currentTurn, List.rtakeWhile_concat, h]
  rfl

theorem currentThread_of_opens {events : List Json} (h : opensThread data = true) :
    currentThread (events ++ [data]) = some data := by
  rw [currentThread, List.filter_append, List.filter_cons_of_pos h, List.filter_nil, List.getLast?_concat]

theorem currentThread_of_not_opens {events : List Json} (h : opensThread data = false) :
    currentThread (events ++ [data]) = currentThread events := by
  rw [currentThread, List.filter_append, List.filter_cons_of_neg (by rw [h]; exact Bool.false_ne_true),
    List.filter_nil, List.append_nil]
  rfl

theorem lastMessage_concat (cap : Nat) (turn : List Json) (data : Json) :
    lastMessage A str cap (turn ++ [data]) = (messageOf A str cap data).getD (lastMessage A str cap turn) := by
  unfold lastMessage
  rw [List.filterMap_append]
  cases hmessage : messageOf A str cap data with
  | none => simp [hmessage]
  | some message => simp [hmessage]

variable {cap : Nat} {costSource : Core.CostSource} {configuredModel : Text}

/-- What the events so far say about the parser. -/
structure Knows (A : Text.Alphabet) (str : Json → Text) (cap : Nat) (events : List Json)
    (p : CodexStreamParser) : Prop where
  threadId : p.threadId = (currentThread events).elim [] (threadIdOf str)
  model : p.model = (currentThread events).elim [] fun data => strField data "model".toList
  emitted : p.terminalEmitted = (currentTurn events).any isTerminal
  message : (p.lastMessageText, p.lastMessageTruncated) = lastMessage A str cap (currentTurn events)

/-- What no event changes. -/
structure Configured (cap : Nat) (costSource : Core.CostSource) (configuredModel : Text)
    (p : CodexStreamParser) : Prop where
  configuredModel : p.configuredModel = configuredModel
  maxContentChars : p.maxContentChars = cap
  costSource : p.costSource = costSource

theorem configured_onEvent (h : Configured cap costSource configuredModel p) (data : Json) :
    Configured cap costSource configuredModel (p.onEvent A str data).2 := by
  obtain ⟨hmodel, hcap, hsource⟩ := h
  unfold CodexStreamParser.onEvent
  cases htype : eventType data with
  | itemCompleted =>
    dsimp only
    rw [(onItemCompleted_spec htype).2]
    exact ⟨hmodel, hcap, hsource⟩
  | turnCompleted | turnFailed | error =>
    unfold CodexStreamParser.emit
    cases p.terminalEmitted <;> exact ⟨hmodel, hcap, hsource⟩
  | _ => exact ⟨hmodel, hcap, hsource⟩

/-- An event that opens no turn. -/
theorem Knows.within {events : List Json} (h : Knows A str cap events p) (hopens : opensTurn data = false)
    {latch truncated : Bool} {text : Text} (hlatch : latch = (p.terminalEmitted || isTerminal data))
    (hmessage : (text, truncated) =
      (messageOf A str cap data).getD (p.lastMessageText, p.lastMessageTruncated)) :
    Knows A str cap (events ++ [data])
      { p with terminalEmitted := latch, lastMessageText := text, lastMessageTruncated := truncated } := by
  have hthread : opensThread data = false := (Bool.or_eq_false_iff.mp hopens).1
  refine ⟨?_, ?_, ?_, ?_⟩
  · rw [currentThread_of_not_opens hthread]
    exact h.threadId
  · rw [currentThread_of_not_opens hthread]
    exact h.model
  · rw [currentTurn_of_not_opens hopens, List.any_append, ← h.emitted]
    simp [hlatch]
  · rw [currentTurn_of_not_opens hopens, lastMessage_concat, ← h.message]
    exact hmessage

theorem messageOf_of_not_item (hitem : eventType data ≠ .itemCompleted) : messageOf A str cap data = none := by
  rw [messageOf, if_neg fun hmessage => hitem hmessage.1]

theorem Knows.emit {events : List Json} (h : Knows A str cap events p) (hopens : opensTurn data = false)
    (hitem : eventType data ≠ .itemCompleted) (hterminal : isTerminal data = true) (result : LLMResult) :
    Knows A str cap (events ++ [data]) (p.emit result).2 := by
  have hwithin : Knows A str cap (events ++ [data]) { p with terminalEmitted := true } :=
    h.within hopens (by rw [hterminal, Bool.or_true]) (by rw [messageOf_of_not_item hitem]; rfl)
  unfold CodexStreamParser.emit
  cases hlatch : p.terminalEmitted with
  | false => exact hwithin
  | true =>
    rw [← hlatch] at hwithin
    exact hwithin

theorem Knows.step {events : List Json} (h : Knows A str cap events p) (hcap : p.maxContentChars = cap) :
    Knows A str cap (events ++ [data]) (p.onEvent A str data).2 := by
  unfold CodexStreamParser.onEvent
  cases htype : eventType data with
  | threadStarted =>
    have hthread : opensThread data = true := by rw [opensThread, htype]; rfl
    have hopens : opensTurn data = true := by rw [opensTurn, hthread]; rfl
    constructor
    case threadId | model => rw [currentThread_of_opens hthread]; rfl
    case emitted | message => rw [currentTurn_of_opens hopens]; rfl
  | turnStarted =>
    have hthread : opensThread data = false := by rw [opensThread, htype]; rfl
    have hopens : opensTurn data = true := by rw [opensTurn, htype, Bool.or_eq_true]; exact .inr rfl
    constructor
    case threadId => rw [currentThread_of_not_opens hthread]; exact h.threadId
    case model => rw [currentThread_of_not_opens hthread]; exact h.model
    case emitted | message => rw [currentTurn_of_opens hopens]; rfl
  | itemCompleted =>
    subst hcap
    dsimp only
    rw [(onItemCompleted_spec htype).2]
    refine h.within ?_ ?_ ?_
    · rw [opensTurn, opensThread, htype]
      rfl
    · rw [isTerminal, isFailure, htype]
      exact (Bool.or_false _).symm
    · rfl
  | turnCompleted | turnFailed | error =>
    refine h.emit ?_ (by rw [htype]; exact EventType.noConfusion) ?_ _
    · rw [opensTurn, opensThread, htype]
      rfl
    · simp [isTerminal, isFailure, htype]
  | itemStarted | unknown =>
    refine h.within ?_ ?_ (by rw [messageOf_of_not_item (by rw [htype]; exact EventType.noConfusion)]; rfl)
    · rw [opensTurn, opensThread, htype]
      rfl
    · rw [isTerminal, isFailure, htype]
      exact (Bool.or_false _).symm

/-! ## Lines -/

theorem strip_of_objectOf {line : Text} (h : objectOf line = some data) : Text.strip line ≠ [] := by
  intro hstrip
  rw [objectOf, hstrip] at h
  cases h

theorem parseLine_of_object {line : Text} (h : objectOf line = some data) :
    p.parseLine A str line = p.onEvent A str data := by
  rw [CodexStreamParser.parseLine, if_neg (strip_of_objectOf h), h]

/-- A line without an object is shown as it is, and the parser forgets it. -/
theorem parseLine_of_none {line : Text} (h : objectOf line = none) :
    (p.parseLine A str line).1.bind StreamEvent.result? = none ∧ (p.parseLine A str line).2 = p := by
  unfold CodexStreamParser.parseLine
  split_ifs
  · exact ⟨rfl, rfl⟩
  · rw [h]
    exact ⟨rfl, rfl⟩

theorem eventsOf_concat (lines : List Text) (line : Text) :
    eventsOf (lines ++ [line]) = eventsOf lines ++ (objectOf line).toList := by
  rw [eventsOf, List.filterMap_append]
  cases h : objectOf line <;> simp [eventsOf, h]

/-- The parser of a process after some of its lines. -/
theorem behind_spec (A : Text.Alphabet) (str : Json → Text) (cap : Nat) (costSource : Core.CostSource)
    (configuredModel : Text) (lines : List Text) :
    Configured cap costSource configuredModel ((newParser cap costSource configuredModel).behind A str lines) ∧
      Knows A str cap (eventsOf lines) ((newParser cap costSource configuredModel).behind A str lines) := by
  induction lines using List.reverseRecOn with
  | nil => exact ⟨⟨rfl, rfl, rfl⟩, rfl, rfl, rfl, rfl⟩
  | append_singleton lines line ih =>
    obtain ⟨hconfigured, hknows⟩ := ih
    rw [eventsOf_concat, CodexStreamParser.behind, List.foldl_append, List.foldl_cons, List.foldl_nil]
    cases hobject : objectOf line with
    | none =>
      rw [(parseLine_of_none hobject).2, Option.toList_none, List.append_nil]
      exact ⟨hconfigured, hknows⟩
    | some data =>
      rw [parseLine_of_object hobject]
      exact ⟨configured_onEvent hconfigured data, hknows.step hconfigured.maxContentChars⟩

theorem firstModel_three (a b c : Text) :
    firstModel [a, b, c] = if a ≠ [] then a else if b ≠ [] then b else c := by
  unfold firstModel
  by_cases ha : a = []
  · by_cases hb : b = []
    · by_cases hc : c = [] <;> simp [ha, hb, hc]
    · simp [ha, hb]
  · simp [ha]

theorem ended_eq_resultAfter {events : List Json} (hconfigured : Configured cap costSource configuredModel p)
    (hknows : Knows A str cap events p) :
    p.ended A str data = resultAfter A str cap costSource configuredModel events data := by
  obtain ⟨htext, htruncated⟩ := Prod.ext_iff.mp hknows.message
  unfold CodexStreamParser.ended resultAfter
  dsimp only at htext htruncated ⊢
  rw [← hknows.threadId, ← hknows.model, ← htext, ← htruncated, ← hconfigured.configuredModel,
    ← hconfigured.costSource, firstModel_three]
  cases isFailure data with
  | false => rfl
  | true =>
    rw [if_pos rfl, CodexStreamParser.failed]
    simp only [true_and]
    rfl

/-- Whatever lines came before, a line gives a result if and only if it holds a terminal event and none stands
before it in its turn. The result has the usage of this event, the thread that was started last, the model that
is named nearest, and the message of the failure or else the last message of the turn. -/
theorem result_iff_first_of_turn (A : Text.Alphabet) (str : Json → Text) (cap : Nat) (costSource : Core.CostSource)
    (configuredModel : Text) (lines : List Text) (line : Text) :
    (((newParser cap costSource configuredModel).behind A str lines).parseLine A str line).1.bind
        StreamEvent.result? =
      ((objectOf line).filter fun data => isTerminal data && !(currentTurn (eventsOf lines)).any isTerminal).map
        (resultAfter A str cap costSource configuredModel (eventsOf lines)) := by
  obtain ⟨hconfigured, hknows⟩ := behind_spec A str cap costSource configuredModel lines
  cases hobject : objectOf line with
  | none => exact (parseLine_of_none hobject).1
  | some data =>
    rw [parseLine_of_object hobject, onEvent_result, hknows.emitted, ended_eq_resultAfter hconfigured hknows]
    cases hterminal : isTerminal data <;> cases hbefore : (currentTurn (eventsOf lines)).any isTerminal <;>
      simp [Option.filter, hterminal]

end Ipc.Codex
