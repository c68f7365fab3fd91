import SovaVerified.Runs.Runs
import SovaVerified.Text.Text

/-!
# The output file of an agent

`FileAgentProcess._tail_file` of `sova/ipc/control.py`, once the file is open, while the process writes to it. The
file is the sequence of its characters, as they are decoded.

A step of the system is what one party does without interruption: the process writes or ends, or the reader goes
once through its loop. There is no `await` between the read and the look at `returncode`.
-/

namespace Ipc

/-- The complete lines in front of a text, which `split("\n", 1)` cuts off one by one, and the rest. -/
def takeLines : Text → List Text × Text
  | [] => ([], [])
  | c :: t =>
    let (lines, rest) := takeLines t
    if c = '\n' then ([] :: lines, rest)
    else
      match lines with
      | [] => ([], c :: rest)
      | line :: lines => ((c :: line) :: lines, rest)

/-- The argument of `fh.read`. -/
def chunkSize : Nat := 8192

/-- The file and the two parties. -/
structure Tail where
  /-- What the process has written behind the place of the reader. -/
  unread : Text := []
  /-- `self._proc.returncode is not None` -/
  exited : Bool := false
  remainder : Text := []
  yielded : List Text := []
  /-- The reader has returned. -/
  closed : Bool := false
  deriving DecidableEq

/-- The loop of `_tail_file`, once. -/
def Tail.poll (s : Tail) : Tail :=
  match s.unread.take chunkSize with
  | [] =>
    if s.exited then
      { s with yielded := s.yielded ++ if s.remainder = [] then [] else [s.remainder], closed := true }
    else s
  | chunk =>
    let (lines, rest) := takeLines (s.remainder ++ chunk)
    { s with unread := s.unread.drop chunkSize, remainder := rest, yielded := s.yielded ++ lines }

inductive TailAction where
  | write (t : Text)
  | exit
  | poll
  deriving DecidableEq

def tailStep (s : Tail) : TailAction → Option Tail
  | .write t => if s.exited then none else some { s with unread := s.unread ++ t }
  | .exit => if s.exited then none else some { s with exited := true }
  | .poll => if s.closed then none else some s.poll

/-- What the process writes in a run. -/
def written : List TailAction → Text
  | [] => []
  | .write t :: as => t ++ written as
  | _ :: as => written as

/-- The lines of a file; the last one may have no line feed. -/
def fileLines (t : Text) : List Text :=
  (takeLines t).1 ++ if (takeLines t).2 = [] then [] else [(takeLines t).2]

end Ipc
