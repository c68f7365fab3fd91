import SovaVerified.Exceptions.Exceptions
import SovaVerified.Utils.Gh

/-!
# The pull request of an issue

`_match_pr_results` of `sova/git/pr.py`: which of the pull requests that a search finds is taken for the one of
the issue.
-/

namespace Git

open Utils

/-- A pull request as `gh pr list` gives it. -/
structure GhPr where
  number : Option Int
  url : Text
  body : Option Text
  headRefName : Option Text
  /-- The login of the author, where the author is an object. -/
  author : Option Text

/-- `PRInfo`. -/
structure PrInfo where
  number : Int
  url : Text
  branch : Text
  authorLogin : Text

/-- `PRInfo.from_gh_json`. -/
def PrInfo.fromGhJson (pr : GhPr) : Except PyException PrInfo :=
  match pr.number with
  | none => .error .valueError
  | some number =>
    .ok { number, url := pr.url, branch := pr.headRefName.getD [], authorLogin := pr.author.getD [] }

/-- What a search says. -/
inductive Lookup where
  /-- `_SEARCH_FAILED`. -/
  | failed
  | absent
  | found (info : PrInfo)

variable (A : Text.Alphabet)

/-- The body closes the issue, or its number is in the name of the branch. -/
def closesOrNames (issueNum : Text) (pr : GhPr) : Bool :=
  Gh.closesIssue A issueNum (pr.body.getD []) ||
    Text.isIn ("issue-".toList ++ issueNum) (pr.headRefName.getD [])

/-- `part_of_pattern.search` in the section of the issue. -/
def isPartOf (issueNum : Text) (pr : GhPr) : Bool :=
  let pattern : Regex := .seq Gh.partOfPrefix (.seq (.rep 0 (some 1) (· == '#')) (Regex.escape true issueNum))
  Regex.anyPlace (fun _ t => Gh.matchesWord A pattern t) none
    (Markdown.extractSection (pr.body.getD []) "Issue".toList false)

/-- The loop over the results, with `part_of_match`. -/
def matchedPr (issueNum : Text) : Option GhPr → List GhPr → Option GhPr
  | partOfMatch, [] => partOfMatch
  | partOfMatch, pr :: prs =>
    if closesOrNames A issueNum pr then some pr
    else if partOfMatch.isNone && isPartOf A issueNum pr then matchedPr issueNum (some pr) prs
    else matchedPr issueNum partOfMatch prs

/-- `_match_pr_results`, given what `json.loads` makes of the output. -/
def matchPrResults (prs : Option (List GhPr)) (issueNum : Text) : Except PyException Lookup :=
  match prs with
  | none => .ok .failed
  | some prs =>
    match matchedPr A issueNum none prs with
    | none => .ok .absent
    | some pr => (PrInfo.fromGhJson pr).map .found

end Git
