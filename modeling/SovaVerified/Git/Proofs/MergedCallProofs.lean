import SovaVerified.Git.Proofs.MergeProofs
import SovaVerified.Selection.Selection

/-!
# The calls for a merged pull request

Each issue that the body links to ends in one list, an issue is moved on only where the body closes it, and
labels come off only after a full listing without another pull request for the issue. No answer at all is given
exactly when the body cannot be read, unless the attempt to read it raises (`accounted_iff`).
-/

namespace Git.Merge

open Exceptions Outside
open Utils Utils.Shell

variable {ω : Type} {svc : Services ω} {A : Text.Alphabet} {pr : Int} {es xs ys : List Event}

/-! ## The lists -/

/-- Each issue that the links name is in one of its lists, once, and no other issue is in any. -/
structure Sorted (links : Gh.IssueLinks) (merged : MergedIssues) : Prop where
  closes : ∀ n ∈ links.closes, merged.transitioned.count n + merged.failed.count n = 1 ∧
    n ∉ merged.commented ++ merged.unlabeled ++ merged.kept
  partOf : ∀ n ∈ links.partOf, merged.countOpen n = 1 ∧ n ∉ merged.transitioned
  others : ∀ n, n ∉ links.closes → n ∉ links.partOf → merged.countOpen n = 0 ∧ n ∉ merged.transitioned

theorem nodup_closes (body : Text) : (Gh.parseIssueLinks A body).closes.Nodup := Selection.nodup_eraseDups _

theorem nodup_partOf (body : Text) : (Gh.parseIssueLinks A body).partOf.Nodup :=
  (Selection.nodup_eraseDups _).filter _

theorem not_mem_closes {body n : Text} (h : n ∈ (Gh.parseIssueLinks A body).partOf) :
    n ∉ (Gh.parseIssueLinks A body).closes :=
  of_decide_eq_true (List.mem_filter.mp h).2

theorem sorted_of_updated {body : Text} {middle after : MergedIssues}
    (hmoved : Moved (Gh.parseIssueLinks A body).closes {} middle)
    (hupdated : Updated (Gh.parseIssueLinks A body).partOf middle after) :
    Sorted (Gh.parseIssueLinks A body) after := by
  have hcounts : ∀ n, middle.transitioned.count n + middle.failed.count n =
      (Gh.parseIssueLinks A body).closes.count n := by
    intro n
    have hn : _ = 0 + 0 + (Gh.parseIssueLinks A body).closes.count n := hmoved.counts n
    omega
  have hmiddle : ∀ n, middle.countOpen n = middle.failed.count n := by
    intro n
    unfold MergedIssues.countOpen
    rw [hmoved.commented, hmoved.unlabeled, hmoved.kept]
    show 0 + 0 + 0 + middle.failed.count n = _
    omega
  refine ⟨fun n hn => ?_, fun n hn => ?_, fun n hcloses hpart => ?_⟩
  · have hpart : n ∉ (Gh.parseIssueLinks A body).partOf := fun h => not_mem_closes h hn
    have hone := List.count_eq_one_of_mem (nodup_closes body) hn
    have hzero := List.count_eq_zero.mpr hpart
    have hfailed := hupdated.failed n hpart
    have hopen := hupdated.countOpen n
    have hmoves := hcounts n
    rw [hmiddle n, hzero, Nat.add_zero, MergedIssues.countOpen] at hopen
    rw [hupdated.transitioned]
    refine ⟨by omega, fun hmem => ?_⟩
    have hpositive := List.count_pos_iff.mpr hmem
    rw [List.count_append, List.count_append] at hpositive
    omega
  · have hnot := not_mem_closes hn
    have hone := List.count_eq_one_of_mem (nodup_partOf body) hn
    have hzero := List.count_eq_zero.mpr hnot
    have hopen := hupdated.countOpen n
    have hmoves := hcounts n
    rw [hmiddle n] at hopen
    refine ⟨by omega, fun hmem => ?_⟩
    rw [hupdated.transitioned] at hmem
    have hpositive := List.count_pos_iff.mpr hmem
    omega
  · have hzero := List.count_eq_zero.mpr hcloses
    have hzero' := List.count_eq_zero.mpr hpart
    have hopen := hupdated.countOpen n
    have hmoves := hcounts n
    rw [hmiddle n] at hopen
    refine ⟨by omega, fun hmem => ?_⟩
    rw [hupdated.transitioned] at hmem
    have hpositive := List.count_pos_iff.mpr hmem
    omega

/-! ## The body -/

/-- The text that `gh pr view` prints for the body. -/
def prBody (stdout : Text) : Except PyException Text := do (← readBody stdout).asText

/-- What `gh pr view` prints can be read, or is found to be unreadable: it is JSON or no JSON at all, and the
body of an object is a text or nothing. -/
def Legible (stdout : Text) : Prop :=
  (∀ e, Json.loads stdout = .error e → isUnreadable e = true) ∧
    ∀ data, Json.loads stdout = .ok data → (data.item "body".toList .null).truthy = true →
      (data.item "body".toList .null).IsText

/-- The body of the pull request is on record. -/
def HasBody (pr : Int) (es : List Event) (body : Text) : Prop :=
  ∃ result, .ran (.viewPr pr) (.ok result) ∈ es ∧ result.success = true ∧ prBody result.stdout = .ok body

theorem readBody_of_object {stdout : Text} {data : Json} (hdata : Json.loads stdout = .ok data)
    (hobject : data.IsObject) : readBody stdout =
      .ok (if (data.item "body".toList .null).truthy = true then data.item "body".toList .null
        else .str []) := by
  unfold readBody
  rw [hdata]
  show getOrEmpty data "body" = _
  unfold getOrEmpty
  rw [Json.getItem_of_isObject hobject]
  rfl

/-- How reading the body ends. -/
theorem readBody_cases (stdout : Text) :
    (∃ e, readBody stdout = .error e ∧ (isUnreadable e = true ↔ Legible stdout)) ∨
      ∃ body, readBody stdout = .ok body ∧ (body.IsText ↔ Legible stdout) := by
  cases hdata : Json.loads stdout with
  | error e =>
    refine .inl ⟨e, ?_, ?_, ?_⟩
    · unfold readBody
      rw [hdata]
      rfl
    · refine fun h => ⟨fun e' he' => ?_, fun data hdata' => ?_⟩
      · cases hdata.symm.trans he'
        exact h
      · cases hdata.symm.trans hdata'
    · exact fun h => h.1 e hdata
  | ok data =>
    by_cases hobject : data.IsObject
    · refine .inr ⟨_, readBody_of_object hdata hobject, ?_, ?_⟩
      · refine fun h => ⟨fun e he => ?_, fun data' hdata' htruthy => ?_⟩
        · cases hdata.symm.trans he
        · cases hdata.symm.trans hdata'
          rwa [if_pos htruthy] at h
      · intro h
        split_ifs with htruthy
        · exact h.2 data hdata htruthy
        · exact ⟨[], rfl⟩
    · refine .inl ⟨Json.attributeError, ?_, ?_, ?_⟩
      · unfold readBody
        rw [hdata]
        show getOrEmpty data "body" = _
        unfold getOrEmpty
        cases data with
        | obj members => exact absurd ⟨members, rfl⟩ hobject
        | _ => rfl
      · refine fun _ => ⟨fun e he => ?_, fun data' hdata' htruthy => ?_⟩
        · cases hdata.symm.trans he
        · cases hdata.symm.trans hdata'
          cases data with
          | obj members => exact absurd ⟨members, rfl⟩ hobject
          | _ => cases htruthy
      · exact fun _ => rfl

theorem legible_of_prBody {stdout body : Text} (h : prBody stdout = .ok body) : Legible stdout := by
  obtain ⟨value, hvalue, htext⟩ := bind_eq_ok_iff.mp h
  rcases readBody_cases stdout with ⟨e, he, -⟩ | ⟨value', hvalue', hlegible⟩
  · cases hvalue.symm.trans he
  · obtain rfl := Except.ok.inj (hvalue.symm.trans hvalue')
    exact hlegible.mp ⟨body, Json.asText_eq_ok_iff.mp htext⟩

/-! ## A call -/

/-- What is on record before the body is read. -/
def Front (es : List Event) : Prop := es = [] ∨ ∃ user result, es = [.ran (.authToken user) (.ok result)]

/-- How a call ends, with what it has done. -/
inductive Handled (A : Text.Alphabet) (pr : Int) : Except PyException (Option MergedIssues) → List Event → Prop
  | unresolved {user : Text} {e : PyException} : Handled A pr (.error e) [.ran (.authToken user) (.error e)]
  | raised {e : PyException} {front : List Event} (hfront : Front front) :
      Handled A pr (.error e) (.ran (.viewPr pr) (.error e) :: front)
  | unread {result : Utils.Shell.ShellResult} {front : List Event} (hfront : Front front)
      (hnone : result.success = true → ∀ body, prBody result.stdout ≠ .ok body)
      (hlegible : result.success = true → Legible result.stdout) :
      Handled A pr (.ok none) (.ran (.viewPr pr) (.ok result) :: front)
  | illegible {result : Utils.Shell.ShellResult} {e : PyException} {front : List Event} (hfront : Front front)
      (hsuccess : result.success = true) (hlegible : ¬ Legible result.stdout) :
      Handled A pr (.error e) (.ran (.viewPr pr) (.ok result) :: front)
  | handled {result : Utils.Shell.ShellResult} {body : Text} {merged : MergedIssues} {rest front : List Event}
      (hfront : Front front) (hsuccess : result.success = true) (hbody : prBody result.stdout = .ok body)
      (hrest : Orderly A pr (Gh.parseIssueLinks A body).closes rest)
      (hsorted : Sorted (Gh.parseIssueLinks A body) merged) :
      Handled A pr (.ok (some merged)) (rest ++ .ran (.viewPr pr) (.ok result) :: front)

theorem yields_resolveGhEnv (githubUser : Text) : Yields (resolveGhEnv svc githubUser) fun outcome es =>
    match outcome with
    | .ok _ => Front es
    | .error e => ∃ user, es = [.ran (.authToken user) (.error e)] := by
  unfold resolveGhEnv
  split_ifs
  · exact yields_pure (.inl rfl)
  · have hrun : Yields (run svc (.authToken githubUser)) fun outcome es =>
        es = [.ran (.authToken githubUser) outcome] :=
      yields_perform fun _ => rfl
    refine Yields.bind hrun (fun e xs h => ⟨githubUser, h⟩) fun result xs h => ?_
    exact yields_pure (.inr ⟨githubUser, result, h⟩)

/-- What the loops do, once the body is known. -/
theorem yields_loops {request : Request} (body : Text) (notDone : Option (List Text)) :
    Yields (do
      let moved ← moveIssues svc request (Gh.parseIssueLinks A body).closes {}
      return some (← updateIssues A svc pr notDone (Gh.parseIssueLinks A body).partOf {} moved))
      fun outcome es => Orderly A pr (Gh.parseIssueLinks A body).closes es ∧
        ∃ merged, outcome = .ok (some merged) ∧ Sorted (Gh.parseIssueLinks A body) merged := by
  have hkeeps : Keeps A pr (Gh.parseIssueLinks A body).closes [] (do
      let moved ← moveIssues svc request (Gh.parseIssueLinks A body).closes {}
      return some (← updateIssues A svc pr notDone (Gh.parseIssueLinks A body).partOf {} moved))
      fun outcome _ => ∃ merged, outcome = .ok (some merged) ∧ Sorted (Gh.parseIssueLinks A body) merged := by
    refine (keeps_moveIssues (fun _ h => h) {} []).bind ?_ fun moved behind' hmoved => ?_
    · rintro e es ⟨after, h, -⟩
      cases h
    obtain ⟨middle, hmiddle, hmoves⟩ := hmoved
    obtain rfl := Except.ok.inj hmiddle
    refine (keeps_updateIssues moved knows_nothing).bind ?_ fun merged behind'' hupdated => ?_
    · rintro e es ⟨after, h, -⟩
      cases h
    obtain ⟨after, hafter, hupdates⟩ := hupdated
    obtain rfl := Except.ok.inj hafter
    exact keeps_pure ⟨merged, rfl, sorted_of_updated hmoves hupdates⟩
  refine (hkeeps .nil).mono fun outcome es h => ?_
  rwa [List.append_nil] at h

theorem handleMergedPrIssues_handled (request : Request) :
    Yields (handleMergedPrIssues A svc pr request) (Handled A pr) := by
  refine Yields.bind (yields_resolveGhEnv request.githubUser) ?_ fun _ front hfront => ?_
  · rintro e xs ⟨user, rfl⟩
    exact .unresolved
  have hfront : Front front := hfront
  have hrun : Yields (run svc (.viewPr pr)) fun outcome es => es = [.ran (.viewPr pr) outcome] :=
    yields_perform fun _ => rfl
  have hbody : Yields (readPrBody svc pr) fun outcome es => ∃ answer, es = [.ran (.viewPr pr) answer] ∧
      match answer, outcome with
      | .error e, .error e' => e = e'
      | .error _, .ok _ => False
      | .ok result, .ok none => (result.success = true → ∀ body, prBody result.stdout ≠ .ok body) ∧
          (result.success = true → Legible result.stdout)
      | .ok result, .ok (some body) => result.success = true ∧ readBody result.stdout = .ok body ∧
          (body.IsText ↔ Legible result.stdout)
      | .ok result, .error _ => result.success = true ∧ ¬ Legible result.stdout := by
    refine Yields.bind hrun (fun e xs h => ⟨_, h, rfl⟩) fun result xs hxs => ?_
    subst hxs
    split_ifs with hsuccess
    · rcases readBody_cases result.stdout with ⟨e, he, hlegible⟩ | ⟨body, hbody, htext⟩
      · rw [he]
        dsimp only
        have hnone : ∀ body, prBody result.stdout ≠ .ok body := by
          intro body hbody
          obtain ⟨value, hvalue, -⟩ := bind_eq_ok_iff.mp hbody
          cases he.symm.trans hvalue
        split_ifs with hunreadable
        · exact yields_pure ⟨_, rfl, fun _ => hnone, fun _ => hlegible.mp hunreadable⟩
        · exact yields_raise ⟨_, rfl, hsuccess, fun h => hunreadable (hlegible.mpr h)⟩
      · rw [hbody]
        exact yields_pure ⟨_, rfl, hsuccess, hbody, htext⟩
    · exact yields_pure ⟨_, rfl, fun h => absurd h hsuccess, fun h => absurd h hsuccess⟩
  refine Yields.bind hbody ?_ fun read xs hxs => ?_
  · rintro e xs ⟨answer, rfl, hanswer⟩
    cases answer with
    | error e' =>
      obtain rfl : e' = e := hanswer
      exact .raised hfront
    | ok result => exact .illegible hfront hanswer.1 hanswer.2
  obtain ⟨answer, rfl, hanswer⟩ := hxs
  cases answer with
  | error e => exact absurd hanswer not_false
  | ok result =>
    cases read with
    | none => exact yields_pure (.unread hfront hanswer.1 hanswer.2)
    | some body =>
      obtain ⟨hsuccess, hread, htext⟩ := hanswer
      dsimp only
      cases hasText : body.asText with
      | error e =>
        refine yields_raise (.illegible hfront hsuccess fun hlegible => ?_)
        obtain ⟨t, rfl⟩ := htext.mpr hlegible
        cases hasText
      | ok text =>
        have hprBody : prBody result.stdout = .ok text := bind_eq_ok_iff.mpr ⟨body, hread, hasText⟩
        refine (yields_loops text (Gh.parseNotDoneItems text)).mono ?_
        rintro outcome es ⟨horderly, merged, rfl, hsorted⟩
        rw [List.append_assoc]
        exact .handled hfront hsuccess hprBody horderly hsorted

/-! ## All of the calls -/

/-- A call does what it is for: it answers with nothing exactly when the body is not known, and else accounts
for each issue that the body links to; issues are moved only where the body closes them, and labels come off
only behind a full listing that shows no other pull request for the issue. -/
structure Accounted (A : Text.Alphabet) (pr : Int) (call : Call) : Prop where
  unread : call.outcome = .ok none ↔ ¬ ∃ body, HasBody pr call.events body
  accounted : ∀ body, HasBody pr call.events body →
    ∃ merged, call.outcome = .ok (some merged) ∧ Sorted (Gh.parseIssueLinks A body) merged
  moved : ∀ x ∈ call.events, ∀ issue, movedIssue x = some issue →
    ∃ body, HasBody pr call.events body ∧ issue ∈ (Gh.parseIssueLinks A body).closes
  backed : Backed A pr call.events

/-- Nothing raises before the body is known: the token is asked for and the pull request is viewed without an
exception, and what is printed is legible. -/
def Readable (pr : Int) (es : List Event) : Prop :=
  (∀ newer user e, es ≠ newer ++ [.ran (.authToken user) (.error e)]) ∧
    (∀ e, .ran (.viewPr pr) (.error e) ∉ es) ∧
    ∀ result, .ran (.viewPr pr) (.ok result) ∈ es → result.success = true → Legible result.stdout

theorem Front.not_viewPr {front : List Event} (h : Front front) {x : Event} (hx : x ∈ front) :
    isBodyRead x = false ∧ movedIssue x = none := by
  rcases h with rfl | ⟨user, result, rfl⟩
  · cases hx
  · obtain rfl := List.mem_singleton.mp hx
    exact ⟨rfl, rfl⟩

theorem Front.backed {front : List Event} (h : Front front) (answer : Except PyException Utils.Shell.ShellResult) :
    Backed A pr (.ran (.viewPr pr) answer :: front) := by
  intro newer older issue labels outcome heq
  have hmem : Event.ran (.removeLabels issue labels) outcome ∈ Event.ran (.viewPr pr) answer :: front := by
    rw [heq]
    exact List.mem_append_right _ List.mem_cons_self
  rcases List.mem_cons.mp hmem with hview | hmem
  · cases hview
  · rcases h with rfl | ⟨user, result, rfl⟩
    · cases hmem
    · cases List.mem_singleton.mp hmem

theorem Front.guarded {front : List Event} (h : Front front) (answer : Except PyException Utils.Shell.ShellResult) :
    Guarded pr (.ran (.viewPr pr) answer :: front) := by
  refine guarded_of_none fun issue body landed outcome hmem => ?_
  rcases List.mem_cons.mp hmem with hview | hmem
  · cases hview
  · rcases h with rfl | ⟨user, result, rfl⟩
    · cases hmem
    · cases List.mem_singleton.mp hmem

/-- The record does not begin with a token that could not be asked for. -/
theorem Front.resolved {front : List Event} (h : Front front) (rest : List Event)
    {answer : Except PyException Utils.Shell.ShellResult} {newer : List Event} {user : Text} {e : PyException} :
    rest ++ .ran (.viewPr pr) answer :: front ≠ newer ++ [.ran (.authToken user) (.error e)] := by
  intro heq
  have hlast := congrArg List.getLast? heq
  rcases h with rfl | ⟨user', result, rfl⟩
  · simp at hlast
  · simp at hlast

theorem backed_append (hx : Backed A pr xs) (hy : Backed A pr ys) : Backed A pr (ys ++ xs) := by
  intro newer older issue labels outcome h
  rcases List.append_eq_append_iff.mp h with ⟨mid, hnewer, hxs⟩ | ⟨mid, hys, hmid⟩
  · exact hx mid older issue labels outcome hxs
  · cases mid with
    | nil => exact hx [] older issue labels outcome hmid.symm
    | cons x mid =>
      obtain ⟨rfl, hrest⟩ := List.cons.inj hmid
      obtain ⟨result, hmem, hshown⟩ := hy newer mid issue labels outcome hys
      rw [hrest]
      exact ⟨result, List.mem_append_left _ hmem, hshown⟩

/-- The body on record is the one that was read. -/
theorem viewPr_mem_iff (rest : List Event) {front : List Event}
    {answer answer' : Except PyException Utils.Shell.ShellResult} (hfront : Front front)
    (hrest : ∀ x ∈ rest, isBodyRead x = false) :
    Event.ran (.viewPr pr) answer' ∈ rest ++ .ran (.viewPr pr) answer :: front ↔ answer' = answer := by
  constructor
  · intro hmem
    rcases List.mem_append.mp hmem with hmem | hmem
    · cases hrest _ hmem
    · rcases List.mem_cons.mp hmem with heq | hmem
      · cases heq
        rfl
      · cases (hfront.not_viewPr hmem).1
  · rintro rfl
    exact List.mem_append_right _ List.mem_cons_self

theorem accounted_iff {outcome : Except PyException (Option MergedIssues)} (h : Handled A pr outcome es) :
    Accounted A pr { outcome, events := es } ↔ Readable pr es := by
  cases h with
  | @unresolved user e =>
    refine iff_of_false (fun h => ?_) fun h => h.1 [] user e rfl
    have hnone : ¬ ∃ body, HasBody pr [.ran (.authToken user) (.error e)] body := by
      rintro ⟨body, result, hmem, -⟩
      cases List.mem_singleton.mp hmem
    cases h.unread.mpr hnone
  | @raised e front hfront =>
    have hview : ∀ answer, Event.ran (.viewPr pr) answer ∈ Event.ran (.viewPr pr) (.error e) :: front ↔
        answer = .error e :=
      fun answer => viewPr_mem_iff [] hfront fun x hx => by cases hx
    refine iff_of_false (fun h => ?_) fun h => h.2.1 e ((hview _).mpr rfl)
    have hnone : ¬ ∃ body, HasBody pr (.ran (.viewPr pr) (.error e) :: front) body := by
      rintro ⟨body, result, hmem, -⟩
      cases (hview _).mp hmem
    cases h.unread.mpr hnone
  | @unread result front hfront hnone hlegible =>
    have hview : ∀ answer, Event.ran (.viewPr pr) answer ∈ Event.ran (.viewPr pr) (.ok result) :: front ↔
        answer = .ok result :=
      fun answer => viewPr_mem_iff [] hfront fun x hx => by cases hx
    have hbody : ∀ body, ¬ HasBody pr (.ran (.viewPr pr) (.ok result) :: front) body := by
      rintro body ⟨result', hmem, hsuccess, hread⟩
      obtain rfl := Except.ok.inj ((hview _).mp hmem)
      exact hnone hsuccess body hread
    refine iff_of_true ⟨?_, fun body hread => absurd hread (hbody body), ?_, hfront.backed _⟩ ⟨?_, ?_, ?_⟩
    · exact iff_of_true rfl fun ⟨body, h⟩ => hbody body h
    · rintro x hx issue hissue
      rcases List.mem_cons.mp hx with rfl | hx
      · cases hissue
      · cases (hfront.not_viewPr hx).2.symm.trans hissue
    · exact fun newer user e => hfront.resolved []
    · rintro e hmem
      cases (hview _).mp hmem
    · rintro result' hmem hsuccess
      obtain rfl := Except.ok.inj ((hview _).mp hmem)
      exact hlegible hsuccess
  | @illegible result e front hfront hsuccess hlegible =>
    have hview : ∀ answer, Event.ran (.viewPr pr) answer ∈ Event.ran (.viewPr pr) (.ok result) :: front ↔
        answer = .ok result :=
      fun answer => viewPr_mem_iff [] hfront fun x hx => by cases hx
    refine iff_of_false (fun h => ?_) fun h => hlegible (h.2.2 result ((hview _).mpr rfl) hsuccess)
    have hnone : ¬ ∃ body, HasBody pr (.ran (.viewPr pr) (.ok result) :: front) body := by
      rintro ⟨body, result', hmem, -, hread⟩
      obtain rfl := Except.ok.inj ((hview _).mp hmem)
      exact hlegible (legible_of_prBody hread)
    cases h.unread.mpr hnone
  | @handled result body merged rest front hfront hsuccess hbody hrest hsorted =>
    have hview : ∀ answer,
        Event.ran (.viewPr pr) answer ∈ rest ++ Event.ran (.viewPr pr) (.ok result) :: front ↔
          answer = .ok result :=
      fun answer => viewPr_mem_iff rest hfront fun x hx => hrest.not_isBodyRead hx
    have hhas : HasBody pr (rest ++ .ran (.viewPr pr) (.ok result) :: front) body :=
      ⟨result, (hview _).mpr rfl, hsuccess, hbody⟩
    refine iff_of_true ⟨?_, ?_, ?_, backed_append (hfront.backed _) hrest.backed⟩ ⟨?_, ?_, ?_⟩
    · exact iff_of_false (fun h => by cases h) fun h => h ⟨body, hhas⟩
    · rintro body' ⟨result', hmem, -, hbody'⟩
      obtain rfl := Except.ok.inj ((hview _).mp hmem)
      obtain rfl := Except.ok.inj (hbody.symm.trans hbody')
      exact ⟨merged, rfl, hsorted⟩
    · rintro x hx issue hissue
      refine ⟨body, hhas, ?_⟩
      rcases List.mem_append.mp hx with hx | hx
      · exact hrest.moved hx hissue
      · rcases List.mem_cons.mp hx with rfl | hx
        · cases hissue
        · cases (hfront.not_viewPr hx).2.symm.trans hissue
    · exact fun newer user e => hfront.resolved rest
    · rintro e hmem
      cases (hview _).mp hmem
    · rintro result' hmem -
      obtain rfl := Except.ok.inj ((hview _).mp hmem)
      exact legible_of_prBody hbody

theorem Handled.guarded {outcome : Except PyException (Option MergedIssues)} (h : Handled A pr outcome es) :
    Guarded pr es := by
  cases h with
  | unresolved =>
    refine guarded_of_none fun issue body landed outcome hmem => ?_
    cases List.mem_singleton.mp hmem
  | raised hfront => exact hfront.guarded _
  | unread hfront => exact hfront.guarded _
  | illegible hfront => exact hfront.guarded _
  | handled hfront _ _ hrest => exact guarded_append (hfront.guarded _) hrest.guarded

/-- Every call ends as one does. -/
theorem handled_of_mem_calls {requests : List Request} {world : ω} {call : Call}
    (h : call ∈ calls A svc pr requests world) : Handled A pr call.outcome call.events := by
  induction requests generalizing world with
  | nil => cases h
  | cons request requests ih =>
    rcases List.mem_cons.mp h with rfl | h
    · have hyields : Yields (handleMergedPrIssues A svc pr request) (Handled A pr) :=
        handleMergedPrIssues_handled request
      obtain ⟨es, hreads, hhandled⟩ := hyields { world }
      rw [List.append_nil] at hreads
      rw [← hreads] at hhandled
      exact hhandled
    · exact ih h

theorem guarded_record {l : List Call} (h : ∀ call ∈ l, Guarded pr call.events) : Guarded pr (record l) := by
  induction l with
  | nil => exact guarded_of_none fun issue body landed outcome hmem => by cases hmem
  | cons call l ih =>
    obtain ⟨hcall, hl⟩ := List.forall_mem_cons.mp h
    have hrecord : record (call :: l) = record l ++ call.events := by
      unfold record
      rw [List.map_cons, List.reverse_cons, List.flatten_append, List.flatten_singleton]
    rw [hrecord]
    exact guarded_append hcall (ih hl)

/-- Whatever `gh` and the adapter do, in any number of calls for a pull request: a call does what it is for if
and only if nothing raises before the body is known, and no issue gets a second comment as long as the comments
that are there are seen. -/
theorem calls_accounted_iff (svc : Services ω) (A : Text.Alphabet) (pr : Int) (requests : List Request)
    (world : ω) :
    (∀ call ∈ calls A svc pr requests world, Accounted A pr call ↔ Readable pr call.events) ∧
      (Visible pr (record (calls A svc pr requests world)) →
        ∀ issue, (record (calls A svc pr requests world)).countP (isPosted issue) ≤ 1) := by
  constructor
  · intro call hcall
    exact accounted_iff (handled_of_mem_calls hcall)
  · intro hvisible issue
    have hguarded : Guarded pr (record (calls A svc pr requests world)) :=
      guarded_record fun call hcall => (handled_of_mem_calls hcall).guarded
    exact countP_isPosted_le_one hguarded hvisible issue

/-- A host without `gh`. -/
def withoutGh : Services Unit where
  run _ world := (.error .osError, world)
  comment _ _ world := (.error .osError, world)
  lands _ _ _ := false
  transitionState _ _ world := (.error .osError, world)

/-- Where `gh` is missing the body cannot be read, and the call raises. -/
theorem calls_withoutGh :
    ∃ call ∈ calls Text.Alphabet.asciiOnly withoutGh 884 [{ postMergeState := "done".toList }] (),
    call.outcome = .error .osError ∧ ¬ Accounted Text.Alphabet.asciiOnly 884 call := by
  refine ⟨_, List.mem_cons_self, rfl, fun h => ?_⟩
  have hnone : ¬ ∃ body, HasBody 884 [.ran (.viewPr 884) (.error .osError)] body := by
    rintro ⟨body, result, hmem, -⟩
    cases List.mem_singleton.mp hmem
  cases h.unread.mpr hnone

end Git.Merge
