import Mathlib.Algebra.Order.Ring.Rat
import SovaVerified.Assoc.Assoc
import SovaVerified.Json.Access
import SovaVerified.Regex.Regex

/-!
# What each phase of a command run has used

`sova/llm/phase_usage.py`: the tally of model calls, context tokens and time, and the marker by which a shell
command switches the phase. Times are exact: the clock is not rounded.
-/

namespace Llm.PhaseUsage

open Json

/-- `UNMARKED_PHASE`. -/
def unmarkedPhase : Text := "unmarked".toList

/-! ## Markers -/

/-- The part of `_MARKER_LINE` from the white space in front of `echo` to the name. -/
def markerRe : Regex :=
  Regex.cat [Regex.spaces, Regex.exact "echo", Regex.spaces1,
    .cap 1 (.rep 0 (some 1) fun c => c == '"' || c == '\''), Regex.exact "::sova-phase::",
    .cap 2 (.seq (.chr Char.isLower) (.rep 0 none fun c => c.isLower || c.isDigit || c == '-'))]

/-- `(?=$|;|&&|\|\|)`. -/
def endsCommand (rest : Text) : Bool :=
  Regex.endsLine rest || [";".toList, "&&".toList, "||".toList].any (·.isPrefixOf rest)

/-- The rest of `_MARKER_LINE` behind the name: the quote in front of the marker once more, and white space. -/
def runMarker {α : Type} (front : Regex) (t : Text) (k : Text → Regex.Groups → Option α) : Option α :=
  Regex.run (.seq front markerRe) t [] fun rest g =>
    let quote := (g.get 1).getD []
    if quote.isPrefixOf rest then
      Regex.run Regex.spaces (rest.drop quote.length) g fun rest g => if endsCommand rest then k rest g else none
    else none

/-- `_MARKER_LINE`: the name, and how many characters the match takes. -/
def markerLine : Regex.Matcher Text := fun prev t =>
  let found := fun rest (g : Regex.Groups) => some ((g.get 2).getD [], t.length - rest.length)
  let atStart := if prev.all (· == '\n') then runMarker .eps t found else none
  atStart.or (runMarker (.alt (.chr (· == ';')) (Regex.exact "&&")) t found)

def findPhaseMarker (command : Text) : Option Text := (Regex.findAll markerLine none 0 command).getLast?

/-! ## The tally -/

structure PhaseBucket where
  modelCalls : Nat := 0
  inputTokens : Nat := 0
  cacheReadTokens : Nat := 0
  cacheWriteTokens : Nat := 0
  closedSeconds : ℚ := 0

structure PhaseTally where
  current : Text := unmarkedPhase
  phaseStartedAt : ℚ
  buckets : Assoc Text PhaseBucket := [(unmarkedPhase, {})]
  seenMessageIds : List Text := []
  reportedUsage : Bool := false

/-- `__init__`. -/
def init (startedAt : ℚ) : PhaseTally where
  phaseStartedAt := startedAt

/-- `_token_count`. -/
def tokenCount (usage : Json) (key : Text) : Nat :=
  match usage.item key .null with
  | .int n => n.toNat
  | _ => 0

def isObject : Json → Bool
  | .obj _ => true
  | _ => false

namespace PhaseTally

/-- `self._buckets[self._current]`, changed in place. -/
def update (tally : PhaseTally) (f : PhaseBucket → PhaseBucket) : PhaseTally :=
  match Assoc.get tally.buckets tally.current with
  | some bucket => { tally with buckets := Assoc.set tally.buckets tally.current (f bucket) }
  | none => tally

/-- `_count_call`. -/
def countCall (tally : PhaseTally) (usage : Json) : PhaseTally :=
  let tally := tally.update fun bucket => { bucket with modelCalls := bucket.modelCalls + 1 }
  if !isObject usage then tally
  else
    let tally := { tally with reportedUsage := true }
    tally.update fun bucket =>
      { bucket with
        inputTokens := bucket.inputTokens + tokenCount usage "input_tokens".toList
        cacheReadTokens := bucket.cacheReadTokens + tokenCount usage "cache_read_input_tokens".toList
        cacheWriteTokens := bucket.cacheWriteTokens + tokenCount usage "cache_creation_input_tokens".toList }

/-- `_switch_to`, at the time `now`. -/
def switchTo (tally : PhaseTally) (phase : Text) (now : ℚ) : PhaseTally :=
  let tally := tally.update fun bucket =>
    { bucket with closedSeconds := bucket.closedSeconds + max (now - tally.phaseStartedAt) 0 }
  { tally with
    current := phase
    phaseStartedAt := now
    buckets :=
      if (Assoc.get tally.buckets phase).isSome then tally.buckets else Assoc.set tally.buckets phase {} }

end PhaseTally

/-- The message of an assistant event. -/
def messageOf (event : Json) : Option Json :=
  match event.item "type".toList .null, event.item "message".toList .null with
  | .str kind, .obj members => if kind = "assistant".toList then some (.obj members) else none
  | _, _ => none

/-- The id of the message and its usage, where the event counts. -/
def callOf (event : Json) : Option (Text × Json) :=
  (messageOf event).bind fun message =>
    match message.item "id".toList .null with
    | .str id => some (id, message.item "usage".toList .null)
    | _ => none

/-- What `for block in message.get("content") or []` goes through. -/
def blocksOf (message : Json) : Except PyException (List Json) :=
  match message.item "content".toList .null with
  | .arr items => .ok items
  | .str t => .ok (t.map fun c => .str [c])
  | .obj members => .ok (members.map fun m => .str m.1)
  | content => if truthy content then .error (.other "TypeError".toList) else .ok []

/-- The phase that a block of a message switches to. -/
def blockPhase (block : Json) : Option Text :=
  match block.item "type".toList .null, block.item "name".toList .null with
  | .str kind, .str name =>
    if kind = "tool_use".toList ∧ name = "Bash".toList then
      match (block.item "input".toList .null).item "command".toList .null with
      | .str command => findPhaseMarker command
      | _ => none
    else none
  | _, _ => none

namespace PhaseTally

/-- The call of an event, which is counted when its id is new. -/
def countEvent (tally : PhaseTally) (event : Json) : PhaseTally :=
  match callOf event with
  | some (id, usage) =>
    if id ∈ tally.seenMessageIds then tally
    else
      let tally := { tally with seenMessageIds := tally.seenMessageIds ++ [id] }
      tally.countCall usage
  | none => tally

/-- The loop over the blocks. Block number `i` is read at the time `now i`. -/
def readBlocks : PhaseTally → (Nat → ℚ) → List Json → PhaseTally
  | tally, _, [] => tally
  | tally, now, block :: blocks =>
    let tally :=
      match blockPhase block with
      | some phase => tally.switchTo phase (now 0)
      | none => tally
    readBlocks tally (fun i => now (i + 1)) blocks

/-- `observe`: the tally, and what is raised on a content that is no list. -/
def observe (tally : PhaseTally) (event : Json) (now : Nat → ℚ) : PhaseTally × Option PyException :=
  match messageOf event with
  | none => (tally, none)
  | some message =>
    let tally := tally.countEvent event
    match blocksOf message with
    | .ok blocks => (tally.readBlocks now blocks, none)
    | .error e => (tally, some e)

end PhaseTally

/-! ## Snapshots -/

structure PhaseRow where
  phase : Text
  modelCalls : Nat
  inputTokens : Nat
  cacheReadTokens : Nat
  cacheWriteTokens : Nat
  contextTokens : Nat
  durationMs : Int

/-- `round`, which takes the even one of two integers that are as near. -/
def roundHalfEven (x : ℚ) : Int :=
  let floor := x.floor
  if x - floor < 1 / 2 then floor
  else if 1 / 2 < x - floor then floor + 1
  else floor + floor % 2

namespace PhaseTally

/-- The time of a phase before it is rounded. -/
def seconds (tally : PhaseTally) (now : ℚ) (phase : Text) (bucket : PhaseBucket) : ℚ :=
  bucket.closedSeconds + if phase = tally.current then max (now - tally.phaseStartedAt) 0 else 0

def row (tally : PhaseTally) (now : ℚ) (phase : Text) (bucket : PhaseBucket) : PhaseRow where
  phase := phase
  modelCalls := bucket.modelCalls
  inputTokens := bucket.inputTokens
  cacheReadTokens := bucket.cacheReadTokens
  cacheWriteTokens := bucket.cacheWriteTokens
  contextTokens := bucket.inputTokens + bucket.cacheReadTokens + bucket.cacheWriteTokens
  durationMs := roundHalfEven (tally.seconds now phase bucket * 1000)

def snapshot (tally : PhaseTally) (now : ℚ) : Option (List PhaseRow) :=
  if !tally.reportedUsage then none
  else some (tally.buckets.map fun entry => tally.row now entry.1 entry.2)

end PhaseTally

end Llm.PhaseUsage
