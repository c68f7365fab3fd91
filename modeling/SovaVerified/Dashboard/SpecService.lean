import SovaVerified.Assoc.Assoc
import SovaVerified.Core.SpecText

/-!
# Changing a spec

`approve_spec`, `reject_spec` and `write_answers` of `sova/dashboard/services/spec_service.py`, on the text of a
spec file that is found and that can be read and written. Log lines are left out.
-/

namespace Dashboard.SpecService

open Core.SpecText

variable (A : Text.Alphabet)

/-- `re.sub(r"\*\*Status\*\*:\s*\w+", "**Status**: " + status, text, count=1)`. -/
def writeStatus (status text : Text) : Text :=
  Regex.replaceFirst (statusRe A false) ("**Status**: ".toList ++ status) text

/-- `approve_spec`: what is returned, and the text of the file. -/
def approveSpec (fileName issueNumber text : Text) : Except Text SpecInfo × Text :=
  let currentStatus := statusOf A text
  if currentStatus ≠ "draft".toList then
    (.error ("Spec is already '".toList ++ currentStatus ++ "', cannot approve".toList), text)
  else
    let text := writeStatus A "approved".toList text
    (.ok (parseSpec A text fileName issueNumber), text)

/-- What `reject_spec` returns. -/
structure Rejection where
  status : Text := "rejected".toList
  issueNumber : Text

/-- `reject_spec`. -/
def rejectSpec (issueNumber text : Text) : Except Text Rejection × Text :=
  let currentStatus := statusOf A text
  if currentStatus ∉ ["draft".toList, "rejected".toList] then
    (.error ("Spec is '".toList ++ currentStatus ++ "', cannot reject".toList), text)
  else (.ok { issueNumber }, writeStatus A "rejected".toList text)

/-! ## Answers -/

/-- `text.replace(old, new)`. -/
def replaceAll (old new text : Text) : Text :=
  if old = [] then new ++ text.flatMap fun c => c :: new
  else Regex.subAll (fun _ t => if old.isPrefixOf t then some (new, old.length) else none) none 0 text

/-- `f"Q: {question} A: {answer}"`. -/
def entry (question answer : Text) : Text := "Q: ".toList ++ (question ++ (" A: ".toList ++ answer))

/-- `answers.get(str(q["id"]), "")`. -/
def answerTo (answers : Assoc Text Text) (id : Nat) : Text := (Assoc.get answers (Text.ofInt id)).getD []

/-- What is replaced when a question is answered: the question alone, or its whole entry. -/
def oldEntry (q : Question) : Text := if q.answer = [] then q.text else entry q.text q.answer

/-- The loop of `write_answers`. -/
def writeEach (answers : Assoc Text Text) (questions : List Question) (text : Text) : Text :=
  questions.foldl (fun text q =>
    let answer := answerTo answers q.id
    if answer = [] then text else replaceAll (oldEntry q) (entry q.text answer) text) text

/-- `write_answers`: the text of the file. -/
def writeAnswers (answers : Assoc Text Text) (text : Text) : Text :=
  if answers = [] then text else writeEach answers (extractOpenQuestions text) text

end Dashboard.SpecService
