import SovaVerified.Runs.Runs
import SovaVerified.Text.Text

/-!
# The log viewer

A log viewer of the dashboard and the output of one agent, which stays in memory: the buffer of the agent
(`_buffer_line` and `get_output` of `sova/dashboard/services/agent_output.py`), the queue of the subscriber
(`sova/dashboard/services/output_stream_service.py`), the stream and the request for the output
(`stream_agent_output` and `get_agent_output` of `sova/dashboard/routers/agents.py`), and the viewer
(`log-viewer.js`). The events of a stream arrive in the order in which they are sent; the answer to a request
comes on a way of its own. A stream that the viewer has closed has no further effect, and is gone.

Left out are the persistence of the lines, the keep-alive comments, the times, and how a line is shown.
-/

namespace Dashboard.LogViewer

/-- `maxlen` of `output_lines`. -/
def maxOutputLines : Nat := 5000

/-- `_QUEUE_MAX`. -/
def queueMax : Nat := 200

/-! ## Lines in events -/

/-- `t.replace(c, w)` for one character. -/
def replaceChar (c : Char) (w t : Text) : Text := t.flatMap fun d => if d = c then w else [d]

/-- What the data of an output event is for a line. -/
def escaped (line : Text) : Text :=
  replaceChar '\r' ['\\', 'r'] (replaceChar '\n' ['\\', 'n'] (replaceChar '\\' ['\\', '\\'] line))

/-- What the viewer reads in the data. -/
def unescaped : Text → Text
  | '\\' :: 'n' :: t => '\n' :: unescaped t
  | '\\' :: 'r' :: t => '\r' :: unescaped t
  | '\\' :: '\\' :: t => '\\' :: unescaped t
  | c :: t => c :: unescaped t
  | [] => []

/-! ## The state -/

inductive StreamEvent where
  | connected (seq : Nat)
  | output (data : Text)
  | gap
  | done
  deriving DecidableEq

/-- A stream, from the subscription to the viewer. -/
structure LogStream where
  /-- The server sends, and has not come to the end of the run. -/
  subscribed : Bool := true
  queue : List Text := []
  overflowed : Bool := false
  /-- The queue was empty for so long that the server looks up whether the run has ended. -/
  checking : Bool := false
  /-- The events on their way. -/
  sent : List StreamEvent
  holding : Bool := true
  held : List Text := []
  connectedSeq : Option Nat := none
  done : Bool := false
  /-- The answer to the request for the whole output, on its way: the lines and `seq`. -/
  snapshot : Option (List Text × Nat) := none

/-- What the viewer of the run is at. -/
inductive Transport where
  | closed
  | sse (stream : LogStream)
  -- the answer on its way: the lines and `total`
  | poll (response : Option (List Text × Nat))
  | hiddenSse
  | hiddenPoll
  -- the stream has come to the end of the run
  | ended

structure LogSystem where
  outputLines : List Text := []
  outputSeq : Nat := 0
  content : List Text := []
  logCursor : Nat := 0
  transport : Transport := .closed

inductive LogAction where
  | bufferLine (line : Text)
  | viewLogs (finished : Bool)
  | closeLogViewer
  | hide
  | show
  -- the server
  | sendLine
  | waitTimeout
  | checkRunTerminal (terminal : Bool)
  | answerSnapshot
  | answerPoll
  -- the viewer
  | receiveEvent
  | connectTimeout
  | streamError
  | reconcile
  | snapshotFails
  | receivePoll
  | pollFails
  deriving DecidableEq

/-! ## The server -/

/-- `publish`, to the one subscriber. -/
def LogStream.publish (s : LogStream) (line : Text) : LogStream :=
  if !s.subscribed then s
  else if s.queue.length < queueMax then { s with queue := s.queue ++ [line] }
  else { s with overflowed := true }

/-- `_buffer_line`. -/
def LogSystem.bufferLine (s : LogSystem) (line : Text) : LogSystem :=
  { s with
    outputLines :=
      (if s.outputLines.length < maxOutputLines then s.outputLines else s.outputLines.tail) ++ [line]
    outputSeq := s.outputSeq + 1
    transport :=
      match s.transport with
      | .sse stream => .sse (stream.publish line)
      | transport => transport }

/-- A line of the queue goes to the viewer, behind a gap event when one was dropped. -/
def LogStream.sendLine (s : LogStream) : Option LogStream :=
  match s.queue with
  | [] => none
  | line :: queue =>
    if !s.subscribed || s.checking then none
    else some
      { s with
        queue
        overflowed := false
        sent := s.sent ++ ((if s.overflowed then [.gap] else []) ++ [.output (escaped line)]) }

def LogStream.waitTimeout (s : LogStream) : Option LogStream :=
  if s.subscribed && !s.checking && s.queue.isEmpty then some { s with checking := true } else none

/-- `_check_run_terminal`, with its answer. -/
def LogStream.checkRunTerminal (s : LogStream) (terminal : Bool) : Option LogStream :=
  if !s.checking then none
  else if terminal then some { s with checking := false, subscribed := false, sent := s.sent ++ [.done] }
  else some { s with checking := false }

/-! ## The viewer -/

/-- `_resumeLogStream`: the stream that a subscription at the moment begins. -/
def LogSystem.resumeLogStream (s : LogSystem) : LogSystem :=
  { s with transport := .sse { sent := [.connected s.outputSeq] } }

/-- `_startLogPolling`. -/
def LogSystem.startLogPolling (s : LogSystem) : LogSystem := { s with transport := .poll none }

def LogSystem.viewLogs (s : LogSystem) (finished : Bool) : LogSystem :=
  let s := { s with content := [], logCursor := 0 }
  if finished then s.startLogPolling else s.resumeLogStream

/-- `_fallBackToLogPolling`. -/
def LogSystem.fallBackToLogPolling (s : LogSystem) : LogSystem :=
  { s with content := [], logCursor := 0 }.startLogPolling

/-- `_logOverlap`. -/
def logOverlap (snapshot held : List Text) (connectedSeq snapshotSeq : Option Nat) : Nat :=
  match connectedSeq, snapshotSeq with
  | some connectedSeq, some snapshotSeq => min (snapshotSeq - connectedSeq) held.length
  | _, _ =>
    let same := fun m => held.take m == snapshot.drop (snapshot.length - m)
    ((List.range (min snapshot.length held.length + 1)).reverse.find? same).getD 0

/-- `_reconcileLogStream`, once the answer is there. -/
def LogSystem.reconcileLogStream (s : LogSystem) (stream : LogStream) (snapshot : List Text) (seq : Nat) :
    LogSystem :=
  let held := stream.held.drop (logOverlap snapshot stream.held stream.connectedSeq (some seq))
  { s with
    content := snapshot ++ held
    transport := if stream.done then .ended else .sse { stream with holding := false, held := [], snapshot := none } }

/-- The handlers of the events. -/
def LogSystem.receiveEvent (s : LogSystem) (stream : LogStream) : Option LogSystem :=
  match stream.sent with
  | [] => none
  | event :: sent =>
    let stream := { stream with sent }
    some <|
      match event with
      | .output data =>
        if stream.holding then { s with transport := .sse { stream with held := stream.held ++ [unescaped data] } }
        else { s with content := s.content ++ [unescaped data], transport := .sse stream }
      | .connected seq =>
        { s with
          transport := .sse (if stream.holding then { stream with connectedSeq := some seq } else stream) }
      | .gap => s.fallBackToLogPolling
      | .done =>
        if stream.holding then { s with transport := .sse { stream with done := true, sent := [], subscribed := false } }
        else { s with transport := .ended }

/-- The answer of a poll. -/
def LogSystem.receivePoll (s : LogSystem) (lines : List Text) (total : Nat) : LogSystem :=
  if lines = [] then { s with transport := .poll none }
  else { s with content := s.content ++ lines, logCursor := total, transport := .poll none }

/-! ## The system -/

def logStep (s : LogSystem) : LogAction → Option LogSystem
  | .bufferLine line => some (s.bufferLine line)
  | .viewLogs finished =>
    match s.transport with
    | .closed => some (s.viewLogs finished)
    | _ => none
  | .closeLogViewer =>
    match s.transport with
    | .closed => none
    | _ => some { s with logCursor := 0, transport := .closed }
  | .hide =>
    match s.transport with
    | .sse _ => some { s with transport := .hiddenSse }
    | .poll _ => some { s with transport := .hiddenPoll }
    | _ => none
  | .show =>
    match s.transport with
    | .hiddenSse => some s.resumeLogStream
    | .hiddenPoll => some s.startLogPolling
    | _ => none
  | .answerPoll =>
    match s.transport with
    | .poll none =>
      let lines := s.outputLines.drop s.logCursor
      some { s with transport := .poll (some (lines, s.logCursor + lines.length)) }
    | _ => none
  | .receivePoll =>
    match s.transport with
    | .poll (some (lines, total)) => some (s.receivePoll lines total)
    | _ => none
  | .pollFails =>
    match s.transport with
    | .poll _ => some { s with transport := .poll none }
    | _ => none
  | action =>
    match s.transport with
    | .sse stream => streamStep s stream action
    | _ => none
where
  /-- The actions on a stream. -/
  streamStep (s : LogSystem) (stream : LogStream) : LogAction → Option LogSystem
    | .sendLine => stream.sendLine.map fun stream => { s with transport := .sse stream }
    | .waitTimeout => stream.waitTimeout.map fun stream => { s with transport := .sse stream }
    | .checkRunTerminal terminal =>
      (stream.checkRunTerminal terminal).map fun stream => { s with transport := .sse stream }
    | .receiveEvent => s.receiveEvent stream
    | .connectTimeout =>
      if stream.holding && stream.connectedSeq.isNone then some s.fallBackToLogPolling else none
    | .streamError => if stream.done then none else some s.fallBackToLogPolling
    | .answerSnapshot =>
      if stream.holding && stream.connectedSeq.isSome && stream.snapshot.isNone then
        some { s with transport := .sse { stream with snapshot := some (s.outputLines, s.outputSeq) } }
      else none
    | .reconcile => stream.snapshot.map fun (lines, seq) => s.reconcileLogStream stream lines seq
    | .snapshotFails =>
      if stream.holding && stream.connectedSeq.isSome then some s.fallBackToLogPolling else none
    | _ => none

/-- The viewer is at polling. -/
def Transport.polls : Transport → Bool
  | .poll _ => true
  | .hiddenPoll => true
  | _ => false

/-- The viewer is at a stream, or at the end of one. -/
def Transport.streams : Transport → Bool
  | .sse _ => true
  | .hiddenSse => true
  | .ended => true
  | _ => false

/-- A stream or the polling begins. -/
def LogAction.opens : LogAction → Bool
  | .viewLogs _ => true
  | .show => true
  | _ => false

/-- The lines that the agent writes in a run. -/
def writtenLines (actions : List LogAction) : List Text :=
  actions.filterMap fun action =>
    match action with
    | .bufferLine line => some line
    | _ => none

end Dashboard.LogViewer
