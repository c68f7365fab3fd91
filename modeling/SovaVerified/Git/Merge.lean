import SovaVerified.Adapters.Task
import SovaVerified.Json.Access
import SovaVerified.Outside.Outside
import SovaVerified.Utils.Gh
import SovaVerified.Utils.Shell

/-!
# The issues of a merged pull request

`handle_merged_pr_issues` of `sova/git/merge.py`: what is done to each issue that the body of a merged pull
request links to. An issue that it closes is moved on; an issue that it is a part of gets a comment, and loses
the labels of the review unless another open pull request still links to it.

`gh` and the adapter are outside. Every call is written down with its outcome, the newest first. The
environment that carries the token is left out.
-/

namespace Git.Merge

open Adapters (TaskState)
open Outside
open Utils Utils.Shell

/-- The calls of `gh`, but for the one that posts a comment. -/
inductive Command where
  /-- `gh auth token --user <user>` -/
  | authToken (user : Text)
  /-- `gh pr view <pr> --json body` -/
  | viewPr (pr : Int)
  /-- `gh pr list --state open --limit 200 --json number,body` -/
  | listOpenPrs
  /-- `gh issue close <issue>` -/
  | closeIssue (issue : Text)
  /-- `gh issue edit <issue> --add-label agent:on-qa` -/
  | addOnQaLabel (issue : Text)
  /-- `gh issue view <issue> --json body,comments,labels` -/
  | viewIssue (issue : Text)
  /-- `gh issue edit <issue>` with a `--remove-label` for each of the labels. -/
  | removeLabels (issue : Text) (labels : List Text)

/-- What a run writes down. -/
inductive Event where
  | ran (command : Command) (outcome : Except PyException Utils.Shell.ShellResult)
  /-- `gh issue comment <issue> --body <body>`, and whether GitHub has the comment after it. -/
  | commented (issue body : Text) (landed : Bool) (outcome : Except PyException Utils.Shell.ShellResult)
  /-- `adapter.transition_state`. -/
  | transitioned (issue : Text) (state : TaskState) (outcome : Except PyException Unit)

/-- What is called. -/
structure Services (ω : Type) where
  run : Command → ω → Except PyException Utils.Shell.ShellResult × ω
  comment : Text → Text → ω → Except PyException Utils.Shell.ShellResult × ω
  /-- A comment that is posted now gets to GitHub, whatever `gh` says of it. -/
  lands : Text → Text → ω → Bool
  transitionState : Text → TaskState → ω → Except PyException Unit × ω

abbrev Run (ω α : Type) := Prog ω Event PyException α

variable {ω : Type}

def run (svc : Services ω) (command : Command) : Run ω Utils.Shell.ShellResult :=
  perform (svc.run command) (.ran command)

def postComment (svc : Services ω) (issue body : Text) : Run ω Utils.Shell.ShellResult := fun s =>
  perform (svc.comment issue body) (.commented issue body (svc.lands issue body s.world)) s

/-- `resolve_gh_env`, without what it makes of the token. -/
def resolveGhEnv (svc : Services ω) (githubUser : Text) : Run ω Unit :=
  if githubUser = [] then return ()
  else do
    let _ ← run svc (.authToken githubUser)
    return ()

/-! ## The state after a merge -/

/-- The arguments of `handle_merged_pr_issues`, but for the number of the pull request. -/
structure Request where
  postMergeState : Text
  githubUser : Text := []
  /-- An adapter is given. -/
  hasAdapter : Bool := false

/-- `TaskState(post_merge_state)`, where it is one of `_VALID_POST_MERGE`. -/
def targetState (postMergeState : Text) : Option TaskState :=
  if postMergeState = "done".toList then some .done
  else if postMergeState = "on_qa".toList then some .onQa
  else none

def handlePostMergeState (svc : Services ω) (request : Request) (issue : Text) : Run ω Bool :=
  if issue = [] then return false
  else if request.hasAdapter then
    match targetState request.postMergeState with
    | none => return false
    | some state => do
      perform (svc.transitionState issue state) (.transitioned issue state)
      return true
  else do
    resolveGhEnv svc request.githubUser
    if request.postMergeState = "done".toList then
      let result ← run svc (.closeIssue issue)
      return result.success
    else if request.postMergeState = "on_qa".toList then
      let result ← run svc (.addOnQaLabel issue)
      return result.success
    else return false

/-! ## What `gh` prints -/

/-- `except (json.JSONDecodeError, AttributeError)`. -/
def isUnreadable (e : PyException) : Bool := e == Json.decodeError || e == Json.attributeError

/-- `except (json.JSONDecodeError, AttributeError, TypeError)`. -/
def isUnparseable (e : PyException) : Bool := isUnreadable e || e == .typeError

/-- `value.get(key) or ""`. -/
def getOrEmpty (value : Json) (key : String) : Except PyException Json := do
  let found ← value.getItem key.toList .null
  return if found.truthy then found else .str []

/-- `for item in value`. -/
def iterate : Json → Except PyException (List Json)
  | .arr items => .ok items
  | .obj members => .ok (members.map fun m => .str m.1)
  | .str t => .ok (t.map fun c => .str [c])
  | _ => .error .typeError

/-- `for item in value.get(key) or []`. -/
def getItems (value : Json) (key : String) : Except PyException (List Json) := do
  let found ← value.getItem key.toList .null
  if found.truthy then iterate found else return []

/-- The body of a pull request in what `gh pr view` prints. -/
def readBody (stdout : Text) : Except PyException Json := do
  getOrEmpty (← Json.loads stdout) "body"

/-- `marker in body`. -/
def hasMarker (marker : Text) : Json → Except PyException Bool
  | .str t => .ok (Text.isIn marker t)
  | .arr items => .ok (items.any fun item => Json.eq item (.str marker))
  | .obj members => .ok (members.any fun m => m.1 == marker)
  | _ => .error .typeError

/-- `any(marker in (comment.get("body") or "") for comment in comments)`. -/
def anyHasMarker (marker : Text) : List Json → Except PyException Bool
  | [] => .ok false
  | comment :: comments => do
    if ← hasMarker marker (← getOrEmpty comment "body") then return true else anyHasMarker marker comments

/-- A name that is a text; the text of any other name is none of the labels of a review. -/
def labelName : Json → Option Text
  | .str t => some t
  | _ => none

/-- What is read of an issue. -/
structure ViewedIssue where
  body : Json
  alreadyPosted : Bool
  labels : List Text

/-- The issue in what `gh issue view` prints. -/
def readIssue (marker stdout : Text) : Except PyException ViewedIssue := do
  let data ← Json.loads stdout
  let body ← getOrEmpty data "body"
  let alreadyPosted ← anyHasMarker marker (← getItems data "comments")
  let names ← (← getItems data "labels").mapM fun label => label.getItem "name".toList .null
  return { body, alreadyPosted, labels := names.filterMap labelName }

/-! ## The other open pull requests -/

/-- `_OPEN_PR_LIMIT`. -/
def openPrLimit : Nat := 200

variable (A : Text.Alphabet)

/-- An open pull request: its number, and the issues that its body links to. -/
abbrev OpenPr := Json × Gh.IssueLinks

def readOpenPr (other : Json) : Except PyException OpenPr := do
  let number ← other.getItem "number".toList .null
  let body ← getOrEmpty other "body"
  return (number, Gh.parseIssueLinks A (← body.asText))

/-- The pull requests in what `gh pr list` prints. -/
def readOpenPrs (stdout : Text) : Except PyException (List OpenPr) := do
  (← iterate (← Json.loads stdout)).mapM (readOpenPr A)

/-- `_OpenPrLinks`. -/
structure OpenPrLinks where
  loaded : Bool := false
  prs : Option (List OpenPr) := none
  truncated : Bool := false

/-- `_load`: what is kept of the listing, and how the call ends. -/
def load (svc : Services ω) : Run ω (OpenPrLinks × Except PyException Unit) := do
  match ← caught (run svc .listOpenPrs) with
  | .error e => return ({ loaded := true }, .error e)
  | .ok listed =>
    if listed.success then
      match readOpenPrs A listed.stdout with
      | .error e => return ({ loaded := true }, if isUnparseable e then .ok () else .error e)
      | .ok prs => return ({ loaded := true, prs := some prs, truncated := openPrLimit ≤ prs.length }, .ok ())
    else return ({ loaded := true }, .ok ())

/-- Another pull request that closes the issue or is a part of it. -/
def linksIssue (issue : Text) (pr : Int) (other : OpenPr) : Bool :=
  !Json.eq other.1 (.int pr) && (other.2.closes.contains issue || other.2.partOf.contains issue)

/-- `another_links`, once the listing has been loaded. -/
def OpenPrLinks.answer (openPrs : OpenPrLinks) (issue : Text) (pr : Int) : Option Bool :=
  match openPrs.prs with
  | none => none
  | some prs =>
    if prs.any (linksIssue issue pr) then some true else if openPrs.truncated then none else some false

/-- `another_links`: what is kept of the listing, and how the call ends. -/
def anotherLinks (svc : Services ω) (openPrs : OpenPrLinks) (issue : Text) (pr : Int) :
    Run ω (OpenPrLinks × Except PyException (Option Bool)) := do
  if openPrs.loaded then return (openPrs, .ok (openPrs.answer issue pr))
  else
    let loaded ← load A svc
    return (loaded.1, loaded.2.map fun _ => loaded.1.answer issue pr)

/-! ## The issues that a pull request is a part of -/

/-- `_PART_OF_STRIP_LABELS`, in the order of `sorted`. -/
def partOfStripLabels : List Text :=
  ["agent:in-progress".toList, "agent:in-review".toList, "sova:block".toList, "sova:revise".toList]

inductive PartOfResult where
  | stripped
  | noLabels
  | kept
  | failed
  deriving DecidableEq

/-- `_strip_workflow_labels`: what is kept of the listing, and how the call ends. -/
def stripWorkflowLabels (svc : Services ω) (issue : Text) (present : List Text) (pr : Int)
    (openPrs : OpenPrLinks) : Run ω (OpenPrLinks × Except PyException PartOfResult) := do
  let toRemove := partOfStripLabels.filter fun label => present.contains label
  if toRemove = [] then return (openPrs, .ok .noLabels)
  else
    let (openPrs, otherOpen) ← anotherLinks A svc openPrs issue pr
    match otherOpen with
    | .error e => return (openPrs, .error e)
    | .ok none => return (openPrs, .ok .failed)
    | .ok (some true) => return (openPrs, .ok .kept)
    | .ok (some false) =>
      match ← caught (run svc (.removeLabels issue toRemove)) with
      | .error e => return (openPrs, .error e)
      | .ok edited => return (openPrs, .ok (if edited.success then .stripped else .failed))

/-- `_PART_OF_MARKER.format(pr=pr_number)`. -/
def partOfMarker (pr : Int) : Text := "<!-- sova-part-of: pr=".toList ++ Text.ofInt pr ++ " -->".toList

/-- `_UNCHECKED_ITEM_RE` between `^` and `$`. -/
def uncheckedItemRe : Regex :=
  .seq (.chr Gh.isMarker)
    (.seq (.rep 1 none Markdown.isBlank)
      (.seq (Regex.exact "[ ]") (.seq (.rep 0 none Markdown.isBlank) Gh.restOfLineRe)))

/-- The unchecked boxes among the acceptance criteria of an issue. -/
def uncheckedItems (issueBody : Text) : List Text :=
  let criteria := Markdown.extractSection issueBody "Acceptance Criteria".toList true
  (Text.lines (Markdown.maskFencedBlocks criteria)).filterMap fun line =>
    ((Regex.matchLine uncheckedItemRe line).bind (·.get 1)).map Text.strip

/-- A bullet. -/
def listItem (item : Text) : Text := '-' :: ' ' :: item

/-- `_render_part_of_comment`. -/
def renderPartOfComment (pr : Int) (issueBody : Json) (notDone : Option (List Text)) :
    Except PyException Text := do
  let front : List Text :=
    [partOfMarker pr,
      "PR #".toList ++ Text.ofInt pr ++ " was merged as part of this issue, so the issue stays open. ".toList ++
        "The PR description says what it left undone.".toList,
      []]
  match notDone with
  | some (item :: items) => return Text.join ['\n'] (front ++ Gh.notDoneLabel :: (item :: items).map listItem)
  | _ =>
    let unchecked := uncheckedItems (← issueBody.asText)
    if unchecked = [] then
      return Text.join ['\n'] (front ++
        ["This issue has no unchecked acceptance criteria: ".toList ++
          "confirm the rest is done before closing it.".toList])
    else
      return Text.join ['\n']
        (front ++ "Acceptance criteria still unchecked in this issue:".toList :: unchecked.map listItem)

/-- `_update_part_of_issue` up to the labels: those of the issue once its comment is in place, or a failure. -/
def leaveComment (svc : Services ω) (issue : Text) (pr : Int) (notDone : Option (List Text)) :
    Run ω (Option (List Text)) := do
  let view ← run svc (.viewIssue issue)
  if view.success then
    match readIssue (partOfMarker pr) view.stdout with
    | .error e => if isUnreadable e then return none else raise e
    | .ok viewed =>
      if viewed.alreadyPosted then return some viewed.labels
      else
        match renderPartOfComment pr viewed.body notDone with
        | .error e => raise e
        | .ok comment =>
          let posted ← postComment svc issue comment
          return if posted.success then some viewed.labels else none
  else return none

/-- `_update_part_of_issue`: what is kept of the listing, and how the call ends. -/
def updatePartOfIssue (svc : Services ω) (issue : Text) (pr : Int) (notDone : Option (List Text))
    (openPrs : OpenPrLinks) : Run ω (OpenPrLinks × Except PyException PartOfResult) := do
  match ← caught (leaveComment svc issue pr notDone) with
  | .error e => return (openPrs, .error e)
  | .ok none => return (openPrs, .ok .failed)
  | .ok (some labels) => stripWorkflowLabels A svc issue labels pr openPrs

/-! ## The call -/

structure MergedIssues where
  transitioned : List Text := []
  commented : List Text := []
  failed : List Text := []
  unlabeled : List Text := []
  kept : List Text := []

/-- The bucket of a result. -/
def MergedIssues.put (outcome : MergedIssues) (issue : Text) : PartOfResult → MergedIssues
  | .stripped => { outcome with commented := outcome.commented ++ [issue] }
  | .noLabels => { outcome with unlabeled := outcome.unlabeled ++ [issue] }
  | .kept => { outcome with kept := outcome.kept ++ [issue] }
  | .failed => { outcome with failed := outcome.failed ++ [issue] }

/-- The loop over `links.closes`. -/
def moveIssues (svc : Services ω) (request : Request) : List Text → MergedIssues → Run ω MergedIssues
  | [], outcome => return outcome
  | issue :: issues, outcome => do
    match ← caught (handlePostMergeState svc request issue) with
    | .ok true =>
      moveIssues svc request issues { outcome with transitioned := outcome.transitioned ++ [issue] }
    | _ => moveIssues svc request issues { outcome with failed := outcome.failed ++ [issue] }

/-- The loop over `links.part_of`. -/
def updateIssues (svc : Services ω) (pr : Int) (notDone : Option (List Text)) :
    List Text → OpenPrLinks → MergedIssues → Run ω MergedIssues
  | [], _, outcome => return outcome
  | issue :: issues, openPrs, outcome => do
    let updated ← updatePartOfIssue A svc issue pr notDone openPrs
    let result := match updated.2 with
      | .ok result => result
      | .error _ => .failed
    updateIssues svc pr notDone issues updated.1 (outcome.put issue result)

/-- `read_pr_body`. A body that is no text is only found to be none when its links are read. -/
def readPrBody (svc : Services ω) (pr : Int) : Run ω (Option Json) := do
  let result ← run svc (.viewPr pr)
  if result.success then
    match readBody result.stdout with
    | .ok body => return some body
    | .error e => if isUnreadable e then return none else raise e
  else return none

def handleMergedPrIssues (svc : Services ω) (pr : Int) (request : Request) : Run ω (Option MergedIssues) := do
  resolveGhEnv svc request.githubUser
  match ← readPrBody svc pr with
  | none => return none
  | some body =>
    match body.asText with
    | .error e => raise e
    | .ok body =>
      let links := Gh.parseIssueLinks A body
      let moved ← moveIssues svc request links.closes {}
      return some (← updateIssues A svc pr (Gh.parseNotDoneItems body) links.partOf {} moved)

/-- A call of `handle_merged_pr_issues`: how it ends, and what it has done. -/
structure Call where
  outcome : Except PyException (Option MergedIssues)
  events : List Event

/-- The calls for a pull request, one after the other. -/
def calls (svc : Services ω) (pr : Int) : List Request → ω → List Call
  | [], _ => []
  | request :: requests, world =>
    let ended := handleMergedPrIssues A svc pr request { world }
    { outcome := ended.1, events := ended.2.reads } :: calls svc pr requests ended.2.world

/-- What all of the calls have done, the newest first. -/
def record (calls : List Call) : List Event := (calls.map Call.events).reverse.flatten

end Git.Merge
