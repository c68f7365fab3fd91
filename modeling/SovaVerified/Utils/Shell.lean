import SovaVerified.Text.Text

/-!
# Commands of a shell

`sova/utils/shell.py`: what `run` returns.
-/

namespace Utils.Shell

/-- `ShellResult`. -/
structure ShellResult where
  returncode : Int := 0
  stdout : Text := []
  stderr : Text := []
  timedOut : Bool := false
  deriving DecidableEq

def ShellResult.success (result : ShellResult) : Bool := result.returncode == 0

end Utils.Shell
