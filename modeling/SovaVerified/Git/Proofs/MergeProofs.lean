import SovaVerified.Git.Merge

/-!
# What a merge does to the issues of a pull request

Behind every comment its issue has been viewed, and no comment of the pull request was seen there: so an issue
gets one comment, as long as a comment that is there is seen. The loops over the issues keep their record
orderly (`Orderly`), and put each issue into one list.
-/

namespace Git.Merge

open Exceptions Outside
open Utils Utils.Shell

variable {ω α β : Type} {svc : Services ω} {A : Text.Alphabet} {pr : Int} {es xs ys behind : List Event}

/-! ## What the calls of a run are about -/

/-- The issue that is moved on, or asked to be. -/
def movedIssue : Event → Option Text
  | .ran (.closeIssue issue) _ => some issue
  | .ran (.addOnQaLabel issue) _ => some issue
  | .transitioned issue _ _ => some issue
  | _ => none

/-- A comment that got to GitHub. -/
def isPosted (issue : Text) : Event → Bool
  | .commented issue' _ true _ => issue' == issue
  | _ => false

/-- The body of a pull request is read. -/
def isBodyRead : Event → Bool
  | .ran (.viewPr _) _ => true
  | _ => false

/-- A listing has less pull requests than are asked for, and no other one links to the issue. -/
def ShowsNoOther (A : Text.Alphabet) (pr : Int) (issue stdout : Text) : Prop :=
  ∃ prs, readOpenPrs A stdout = .ok prs ∧ prs.length < openPrLimit ∧
    ∀ other ∈ prs, linksIssue issue pr other = false

/-- Such a listing is on record. -/
def ShownAlone (A : Text.Alphabet) (pr : Int) (issue : Text) (es : List Event) : Prop :=
  ∃ result, .ran .listOpenPrs (.ok result) ∈ es ∧ result.success = true ∧ ShowsNoOther A pr issue result.stdout

/-- Labels are taken off only behind such a listing. -/
def Backed (A : Text.Alphabet) (pr : Int) (es : List Event) : Prop :=
  ∀ newer older issue labels outcome, es = newer ++ .ran (.removeLabels issue labels) outcome :: older →
    ShownAlone A pr issue older

/-- An issue has a comment with the marker in what `gh issue view` prints. -/
def Shows (marker stdout : Text) : Prop :=
  ∃ data, Json.loads stdout = .ok data ∧ ∃ comments, data.item "comments".toList .null = .arr comments ∧
    ∃ comment ∈ comments, ∃ body, comment.item "body".toList .null = .str body ∧ Text.isIn marker body = true

/-- A comment that got to GitHub is seen whenever its issue is viewed after it. -/
def Visible (pr : Int) (es : List Event) : Prop :=
  ∀ newer older issue result, es = newer ++ .ran (.viewIssue issue) (.ok result) :: older →
    result.success = true → ∀ body outcome, .commented issue body true outcome ∈ older →
      Text.isIn (partOfMarker pr) body = true → Shows (partOfMarker pr) result.stdout

/-- Behind every comment, its issue has been viewed, and no comment with the marker was read. -/
def Guarded (pr : Int) (es : List Event) : Prop :=
  ∀ newer rest issue body landed outcome, es = newer ++ .commented issue body landed outcome :: rest →
    Text.isIn (partOfMarker pr) body = true ∧
      ∃ result older viewed, rest = .ran (.viewIssue issue) (.ok result) :: older ∧ result.success = true ∧
        readIssue (partOfMarker pr) result.stdout = .ok viewed ∧ viewed.alreadyPosted = false

/-! ## Comments -/

theorem guarded_append (hx : Guarded pr xs) (hy : Guarded pr ys) : Guarded pr (ys ++ xs) := by
  intro newer rest issue body landed outcome h
  rcases List.append_eq_append_iff.mp h with ⟨mid, hnewer, hxs⟩ | ⟨mid, hys, hmid⟩
  · exact hx mid rest issue body landed outcome hxs
  · cases mid with
    | nil => exact hx [] rest issue body landed outcome hmid.symm
    | cons x mid =>
      obtain ⟨rfl, hrest⟩ := List.cons.inj hmid
      obtain ⟨hmarker, result, older, viewed, hview, hread⟩ := hy newer mid issue body landed outcome hys
      exact ⟨hmarker, result, older ++ xs, viewed, by rw [hrest, hview]; rfl, hread⟩

/-- Without a comment there is nothing to guard. -/
theorem guarded_of_none (h : ∀ issue body landed outcome, .commented issue body landed outcome ∉ es) :
    Guarded pr es := by
  intro newer rest issue body landed outcome heq
  refine absurd ?_ (h issue body landed outcome)
  rw [heq]
  exact List.mem_append_right _ List.mem_cons_self

theorem hasMarker_str {marker body : Text} (h : Text.isIn marker body = true) :
    hasMarker marker (.str body) = .ok true := congrArg Except.ok h

/-- A comment with the marker is found, unless the reading stops before it. -/
theorem anyHasMarker_of_mem {marker body : Text} {comment : Json} {comments : List Json} {found : Bool}
    (hmem : comment ∈ comments) (hbody : comment.item "body".toList .null = .str body)
    (hmarker : Text.isIn marker body = true) (hne : body ≠ []) (h : anyHasMarker marker comments = .ok found) :
    found = true := by
  induction comments with
  | nil => cases hmem
  | cons c comments ih =>
    obtain ⟨text, htext, hrest⟩ := bind_eq_ok_iff.mp h
    obtain ⟨there, hthere, hrest⟩ := bind_eq_ok_iff.mp hrest
    cases there with
    | true => exact (Except.ok.inj hrest).symm
    | false =>
      rcases List.mem_cons.mp hmem with rfl | hmem
      · obtain ⟨value, hvalue, hor⟩ := bind_eq_ok_iff.mp htext
        have hobject := (Json.getItem_eq_ok_iff.mp hvalue).2
        rw [hbody] at hobject
        subst hobject
        rw [if_pos (Json.truthy_str hne)] at hor
        obtain rfl := Except.ok.inj hor
        rw [hasMarker_str hmarker] at hthere
        cases hthere
      · exact ih hmem hrest

theorem partOfMarker_ne_nil : partOfMarker pr ≠ [] := List.cons_ne_nil _ _

theorem alreadyPosted_of_shows {stdout : Text} {viewed : ViewedIssue} (h : Shows (partOfMarker pr) stdout)
    (hread : readIssue (partOfMarker pr) stdout = .ok viewed) : viewed.alreadyPosted = true := by
  obtain ⟨data, hdata, comments, hcomments, comment, hmem, body, hbody, hmarker⟩ := h
  obtain ⟨data', hdata', hread⟩ := bind_eq_ok_iff.mp hread
  obtain rfl := Except.ok.inj (hdata.symm.trans hdata')
  obtain ⟨issueBody, -, hread⟩ := bind_eq_ok_iff.mp hread
  obtain ⟨items, hitems, hread⟩ := bind_eq_ok_iff.mp hread
  obtain ⟨found, hfound, hread⟩ := bind_eq_ok_iff.mp hread
  obtain ⟨labels, -, hread⟩ := bind_eq_ok_iff.mp hread
  obtain ⟨names, -, hread⟩ := bind_eq_ok_iff.mp hread
  obtain rfl := Except.ok.inj hread
  obtain ⟨value, hvalue, hor⟩ := bind_eq_ok_iff.mp hitems
  have hvalue := (Json.getItem_eq_ok_iff.mp hvalue).2
  rw [hcomments] at hvalue
  subst hvalue
  have htruthy : Json.truthy (.arr comments) = true := by
    cases comments with
    | nil => cases hmem
    | cons c comments => rfl
  rw [if_pos htruthy] at hor
  obtain rfl := Except.ok.inj hor
  have hne : body ≠ [] := by
    rintro rfl
    have hinfix := Text.isIn_iff.mp hmarker
    exact partOfMarker_ne_nil (List.eq_nil_of_infix_nil hinfix)
  exact anyHasMarker_of_mem hmem hbody hmarker hne hfound

/-- By induction on the record: the comment posted last was posted after a view that showed none before it. -/
theorem countP_isPosted_le_one (hguarded : Guarded pr es) (hvisible : Visible pr es) (issue : Text) :
    es.countP (isPosted issue) ≤ 1 := by
  induction es with
  | nil => exact Nat.zero_le 1
  | cons x es ih =>
    have hguarded' : Guarded pr es := fun newer rest issue body landed outcome h =>
      hguarded (x :: newer) rest issue body landed outcome (congrArg (x :: ·) h)
    have hvisible' : Visible pr es := fun newer older issue result h =>
      hvisible (x :: newer) older issue result (congrArg (x :: ·) h)
    rw [List.countP_cons]
    split_ifs with hx
    · have hnone : es.countP (isPosted issue) = 0 := by
        refine List.countP_eq_zero.mpr fun y hy hposted => ?_
        unfold isPosted at hx hposted
        split at hx
        · next issue₁ body₁ outcome₁ =>
          obtain rfl := beq_iff_eq.mp hx
          split at hposted
          · next issue₂ body₂ outcome₂ =>
            obtain rfl := beq_iff_eq.mp hposted
            obtain ⟨-, result, older, viewed, hview, hsuccess, hread, hunposted⟩ :=
              hguarded [] es _ body₁ true outcome₁ rfl
            obtain ⟨newer, rest, hsplit⟩ := List.append_of_mem hy
            have hmarker := (hguarded' newer rest _ body₂ true outcome₂ hsplit).1
            have holder : Event.commented issue₂ body₂ true outcome₂ ∈ older := by
              rw [hview] at hy
              rcases List.mem_cons.mp hy with heq | hmem
              · cases heq
              · exact hmem
            have hshows := hvisible [.commented issue₂ body₁ true outcome₁] older issue₂ result
              (by rw [hview]; rfl) hsuccess body₂ outcome₂ holder hmarker
            have hposted := alreadyPosted_of_shows hshows hread
            rw [hunposted] at hposted
            cases hposted
          · cases hposted
        · cases hx
      omega
    · exact ih hguarded' hvisible'

/-- A comment carries its marker. -/
theorem isIn_renderPartOfComment {issueBody : Json} {notDone : Option (List Text)} {comment : Text}
    (h : renderPartOfComment pr issueBody notDone = .ok comment) :
    Text.isIn (partOfMarker pr) comment = true := by
  have hfront : ∀ (second : Text) (rest : List Text),
      Text.isIn (partOfMarker pr) (Text.join ['\n'] (partOfMarker pr :: second :: rest)) = true := by
    intro second rest
    refine Text.isIn_iff.mpr ⟨[], ['\n'] ++ Text.join ['\n'] (second :: rest), ?_⟩
    unfold Text.join
    rw [List.intercalate_cons_of_ne_nil (List.cons_ne_nil _ _), List.nil_append, List.append_assoc]
  unfold renderPartOfComment at h
  split at h
  · cases h
    exact hfront _ _
  · obtain ⟨text, -, hrest⟩ := bind_eq_ok_iff.mp h
    dsimp only at hrest
    split at hrest
    · cases hrest
      exact hfront _ _
    · cases hrest
      exact hfront _ _

/-! ## What is written down once the body is known -/

/-- A record of what is done to the issues, where `closes` are those that the body closes. -/
inductive Orderly (A : Text.Alphabet) (pr : Int) (closes : List Text) : List Event → Prop
  | nil : Orderly A pr closes []
  /-- Neither a comment nor the removal of labels. -/
  | plain {x : Event} {es : List Event} (hmoved : ∀ issue, movedIssue x = some issue → issue ∈ closes)
      (hbody : isBodyRead x = false)
      (hremoval : ∀ issue labels outcome, x ≠ .ran (.removeLabels issue labels) outcome)
      (hcomment : ∀ issue body landed outcome, x ≠ .commented issue body landed outcome)
      (h : Orderly A pr closes es) : Orderly A pr closes (x :: es)
  | comment {issue body : Text} {landed : Bool} {outcome : Except PyException Utils.Shell.ShellResult}
      {result : Utils.Shell.ShellResult} {viewed : ViewedIssue} {es : List Event}
      (hmarker : Text.isIn (partOfMarker pr) body = true)
      (hsuccess : result.success = true) (hread : readIssue (partOfMarker pr) result.stdout = .ok viewed)
      (hunposted : viewed.alreadyPosted = false)
      (h : Orderly A pr closes (.ran (.viewIssue issue) (.ok result) :: es)) :
      Orderly A pr closes
        (.commented issue body landed outcome :: .ran (.viewIssue issue) (.ok result) :: es)
  | removal {issue : Text} {labels : List Text} {outcome : Except PyException Utils.Shell.ShellResult} {es : List Event}
      (hshown : ShownAlone A pr issue es) (h : Orderly A pr closes es) :
      Orderly A pr closes (.ran (.removeLabels issue labels) outcome :: es)

variable {closes : List Text}

theorem Orderly.moved (h : Orderly A pr closes es) {x : Event} (hx : x ∈ es) {issue : Text}
    (hissue : movedIssue x = some issue) : issue ∈ closes := by
  induction h with
  | nil => cases hx
  | plain hmoved _ _ _ _ ih =>
    rcases List.mem_cons.mp hx with rfl | hx
    · exact hmoved issue hissue
    · exact ih hx
  | comment _ _ _ _ _ ih =>
    rcases List.mem_cons.mp hx with rfl | hx
    · cases hissue
    · exact ih hx
  | removal _ _ ih =>
    rcases List.mem_cons.mp hx with rfl | hx
    · cases hissue
    · exact ih hx

theorem Orderly.not_isBodyRead (h : Orderly A pr closes es) {x : Event} (hx : x ∈ es) :
    isBodyRead x = false := by
  induction h with
  | nil => cases hx
  | plain _ hbody _ _ _ ih =>
    rcases List.mem_cons.mp hx with rfl | hx
    · exact hbody
    · exact ih hx
  | comment _ _ _ _ _ ih =>
    rcases List.mem_cons.mp hx with rfl | hx
    · rfl
    · exact ih hx
  | removal _ _ ih =>
    rcases List.mem_cons.mp hx with rfl | hx
    · rfl
    · exact ih hx

theorem Orderly.guarded (h : Orderly A pr closes es) : Guarded pr es := by
  induction h with
  | nil =>
    intro newer rest issue body landed outcome heq
    cases newer <;> cases heq
  | plain _ _ _ hcomment _ ih =>
    intro newer rest issue body landed outcome heq
    cases newer with
    | nil => exact absurd (List.cons.inj heq).1 (hcomment issue body landed outcome)
    | cons y newer => exact ih newer rest issue body landed outcome (List.cons.inj heq).2
  | comment hmarker hsuccess hread hunposted _ ih =>
    intro newer rest issue body landed outcome heq
    cases newer with
    | nil =>
      cases heq
      exact ⟨hmarker, _, _, _, rfl, hsuccess, hread, hunposted⟩
    | cons y newer => exact ih newer rest issue body landed outcome (List.cons.inj heq).2
  | removal _ _ ih =>
    intro newer rest issue body landed outcome heq
    cases newer with
    | nil => cases heq
    | cons y newer => exact ih newer rest issue body landed outcome (List.cons.inj heq).2

theorem Orderly.backed (h : Orderly A pr closes es) : Backed A pr es := by
  induction h with
  | nil =>
    intro newer older issue labels outcome heq
    cases newer <;> cases heq
  | plain _ _ hremoval _ _ ih =>
    intro newer older issue labels outcome heq
    cases newer with
    | nil => exact absurd (List.cons.inj heq).1 (hremoval issue labels outcome)
    | cons y newer => exact ih newer older issue labels outcome (List.cons.inj heq).2
  | comment _ _ _ _ _ ih =>
    intro newer older issue labels outcome heq
    cases newer with
    | nil => cases heq
    | cons y newer => exact ih newer older issue labels outcome (List.cons.inj heq).2
  | removal hshown _ ih =>
    intro newer older issue labels outcome heq
    cases newer with
    | nil =>
      cases heq
      exact hshown
    | cons y newer => exact ih newer older issue labels outcome (List.cons.inj heq).2

/-- A program behind an orderly record. -/
def Keeps (A : Text.Alphabet) (pr : Int) (closes : List Text) (behind : List Event) (p : Run ω α)
    (Q : Except PyException α → List Event → Prop) : Prop :=
  Orderly A pr closes behind →
    Yields p fun outcome es => Orderly A pr closes (es ++ behind) ∧ Q outcome (es ++ behind)

variable {Q : Except PyException α → List Event → Prop} {T : Except PyException β → List Event → Prop}

theorem keeps_pure {a : α} (h : Q (.ok a) behind) : Keeps A pr closes behind (pure a : Run ω α) Q :=
  fun hbehind => yields_pure ⟨hbehind, h⟩

theorem keeps_raise {e : PyException} (h : Q (.error e) behind) :
    Keeps A pr closes behind (raise e : Run ω α) Q :=
  fun hbehind => yields_raise ⟨hbehind, h⟩

theorem Keeps.bind {p : Run ω α} {f : α → Run ω β} (hp : Keeps A pr closes behind p Q)
    (hraise : ∀ e es, Q (.error e) es → T (.error e) es)
    (hf : ∀ a behind', Q (.ok a) behind' → Keeps A pr closes behind' (f a) T) :
    Keeps A pr closes behind (p >>= f) T := by
  intro hbehind
  refine Yields.bind (hp hbehind) (fun e xs h => ⟨h.1, hraise e _ h.2⟩) fun a xs hxs => ?_
  refine (hf a (xs ++ behind) hxs.2 hxs.1).mono fun outcome ys hys => ?_
  rwa [← List.append_assoc] at hys

theorem Keeps.caught {p : Run ω α} (hp : Keeps A pr closes behind p Q) :
    Keeps A pr closes behind (Outside.caught p) fun outcome es =>
      ∃ answer, outcome = .ok answer ∧ Q answer es := by
  intro hbehind
  refine (yields_caught (hp hbehind)).mono ?_
  rintro outcome es ⟨answer, rfl, horderly, hQ⟩
  exact ⟨horderly, answer, rfl, hQ⟩

theorem keeps_run {command : Command} {Q : Except PyException Utils.Shell.ShellResult → List Event → Prop}
    (hmoved : ∀ issue, movedIssue (.ran command (.error .osError)) = some issue → issue ∈ closes)
    (hbody : ∀ pr, command ≠ .viewPr pr) (hremoval : ∀ issue labels, command ≠ .removeLabels issue labels)
    (h : ∀ answer, Q answer (.ran command answer :: behind)) :
    Keeps A pr closes behind (run svc command) Q := by
  intro hbehind
  refine yields_perform fun answer => ⟨?_, h answer⟩
  refine .plain (fun issue hissue => hmoved issue ?_) ?_ ?_ ?_ hbehind
  · rw [← hissue]
    cases command <;> rfl
  · cases command with
    | viewPr pr' => exact absurd rfl (hbody pr')
    | _ => rfl
  · rintro issue labels outcome heq
    cases heq
    exact hremoval issue labels rfl
  · rintro issue body landed outcome heq
    cases heq

/-! ## The issues that are closed -/

theorem keeps_resolveGhEnv (githubUser : Text) :
    Keeps A pr closes behind (resolveGhEnv svc githubUser) fun _ _ => True := by
  unfold resolveGhEnv
  split_ifs
  · exact keeps_pure trivial
  · refine Keeps.bind (Q := fun _ _ => True) (keeps_run ?_ ?_ ?_ fun _ => trivial) (fun _ _ h => h) fun _ _ _ =>
      keeps_pure trivial
    · exact fun _ h => by cases h
    · exact fun _ h => by cases h
    · exact fun _ _ h => by cases h

theorem keeps_handlePostMergeState {request : Request} {issue : Text} (hissue : issue ∈ closes) :
    Keeps A pr closes behind (handlePostMergeState svc request issue) fun _ _ => True := by
  have hmove : ∀ (command : Command) (behind : List Event),
      command = .closeIssue issue ∨ command = .addOnQaLabel issue →
      Keeps A pr closes behind (do return (← run svc command).success) fun _ _ => True := by
    intro command behind hcommand
    refine Keeps.bind (Q := fun _ _ => True) (keeps_run ?_ ?_ ?_ fun _ => trivial) (fun _ _ h => h) fun _ _ _ =>
      keeps_pure trivial
    · rintro issue' hissue'
      rcases hcommand with rfl | rfl
      · cases hissue'
        exact hissue
      · cases hissue'
        exact hissue
    · rintro pr' rfl
      rcases hcommand with h | h <;> cases h
    · rintro issue' labels rfl
      rcases hcommand with h | h <;> cases h
  unfold handlePostMergeState
  split_ifs
  · exact keeps_pure trivial
  · cases targetState request.postMergeState with
    | none => exact keeps_pure trivial
    | some state =>
      have htransition : Keeps A pr closes behind
          (perform (svc.transitionState issue state) (.transitioned issue state)) fun _ _ => True := by
        intro hbehind
        refine yields_perform fun answer => ⟨.plain ?_ rfl ?_ ?_ hbehind, trivial⟩
        · rintro issue' hissue'
          cases hissue'
          exact hissue
        · exact fun _ _ _ h => by cases h
        · exact fun _ _ _ _ h => by cases h
      exact htransition.bind (fun _ _ h => h) fun _ _ _ => keeps_pure trivial
  · exact (keeps_resolveGhEnv _).bind (fun _ _ h => h) fun _ behind' _ => hmove _ behind' (.inl rfl)
  · exact (keeps_resolveGhEnv _).bind (fun _ _ h => h) fun _ behind' _ => hmove _ behind' (.inr rfl)
  · exact (keeps_resolveGhEnv _).bind (fun _ _ h => h) fun _ _ _ => keeps_pure trivial

/-- What the first loop does to the lists. -/
structure Moved (issues : List Text) (before after : MergedIssues) : Prop where
  counts : ∀ n, after.transitioned.count n + after.failed.count n =
    before.transitioned.count n + before.failed.count n + issues.count n
  commented : after.commented = before.commented
  unlabeled : after.unlabeled = before.unlabeled
  kept : after.kept = before.kept

theorem keeps_moveIssues {request : Request} {issues : List Text} (hissues : ∀ issue ∈ issues, issue ∈ closes)
    (before : MergedIssues) (behind : List Event) :
    Keeps A pr closes behind (moveIssues svc request issues before) fun outcome _ =>
      ∃ after, outcome = .ok after ∧ Moved issues before after := by
  induction issues generalizing before behind with
  | nil => exact keeps_pure ⟨before, rfl, fun n => rfl, rfl, rfl, rfl⟩
  | cons issue issues ih =>
    obtain ⟨hissue, hrest⟩ := List.forall_mem_cons.mp hissues
    refine (keeps_handlePostMergeState hissue).caught.bind ?_ fun moved behind' _ => ?_
    · rintro e es ⟨answer, h, -⟩
      cases h
    have hput : ∀ middle : MergedIssues, Moved [issue] before middle →
        Keeps A pr closes behind' (moveIssues svc request issues middle) fun outcome _ =>
          ∃ after, outcome = .ok after ∧ Moved (issue :: issues) before after := by
      intro middle hmiddle hbehind
      refine (ih hrest middle behind' hbehind).mono ?_
      rintro outcome es ⟨horderly, after, rfl, hafter⟩
      refine ⟨horderly, after, rfl, fun n => ?_, ?_, ?_, ?_⟩
      · have hfirst := hmiddle.counts n
        have hthen := hafter.counts n
        rw [List.count_cons] at hfirst ⊢
        rw [List.count_nil] at hfirst
        omega
      · rw [hafter.commented, hmiddle.commented]
      · rw [hafter.unlabeled, hmiddle.unlabeled]
      · rw [hafter.kept, hmiddle.kept]
    have hmoved : Moved [issue] before { before with transitioned := before.transitioned ++ [issue] } := by
      refine ⟨fun n => ?_, rfl, rfl, rfl⟩
      show (before.transitioned ++ [issue]).count n + before.failed.count n = _
      rw [List.count_append]
      omega
    have hfailed : Moved [issue] before { before with failed := before.failed ++ [issue] } := by
      refine ⟨fun n => ?_, rfl, rfl, rfl⟩
      show before.transitioned.count n + (before.failed ++ [issue]).count n = _
      rw [List.count_append]
      omega
    cases moved with
    | error e => exact hput _ hfailed
    | ok moved =>
      cases moved with
      | true => exact hput _ hmoved
      | false => exact hput _ hfailed

/-! ## The issues that are left open -/

/-- What is kept of the listing is on record. -/
def Knows (A : Text.Alphabet) (es : List Event) (openPrs : OpenPrLinks) : Prop :=
  ∀ prs, openPrs.prs = some prs → ∃ result, .ran .listOpenPrs (.ok result) ∈ es ∧ result.success = true ∧
    readOpenPrs A result.stdout = .ok prs ∧ (openPrs.truncated = false → prs.length < openPrLimit)

theorem knows_nothing {loaded truncated : Bool} : Knows A es { loaded, prs := none, truncated } :=
  fun prs h => by cases h

theorem Knows.cons {openPrs : OpenPrLinks} (h : Knows A es openPrs) (x : Event) :
    Knows A (x :: es) openPrs := by
  intro prs hprs
  obtain ⟨result, hmem, hrest⟩ := h prs hprs
  exact ⟨result, List.mem_cons_of_mem x hmem, hrest⟩

/-- The answer that no other pull request links to the issue rests on a full listing. -/
theorem Knows.shownAlone {openPrs : OpenPrLinks} {issue : Text} (h : Knows A es openPrs)
    (hanswer : openPrs.answer issue pr = some false) : ShownAlone A pr issue es := by
  unfold OpenPrLinks.answer at hanswer
  cases hprs : openPrs.prs with
  | none =>
    rw [hprs] at hanswer
    cases hanswer
  | some prs =>
    rw [hprs] at hanswer
    dsimp only at hanswer
    by_cases hany : prs.any (linksIssue issue pr) = true
    · rw [if_pos hany] at hanswer
      cases hanswer
    rw [if_neg hany] at hanswer
    by_cases htruncated : openPrs.truncated = true
    · rw [if_pos htruncated] at hanswer
      cases hanswer
    obtain ⟨result, hmem, hsuccess, hread, hfull⟩ := h prs hprs
    have hlength := hfull (Bool.eq_false_iff.mpr htruncated)
    refine ⟨result, hmem, hsuccess, prs, hread, hlength, fun other hother => ?_⟩
    refine Bool.eq_false_iff.mpr fun hlinks => hany ?_
    exact List.any_eq_true.mpr ⟨other, hother, hlinks⟩

theorem keeps_load : Keeps A pr closes behind (load A svc) fun outcome es =>
    ∃ kept, outcome = .ok kept ∧ Knows A es kept.1 := by
  have hrun : Keeps A pr closes behind (run svc .listOpenPrs) fun answer es =>
      es = .ran .listOpenPrs answer :: behind :=
    keeps_run (fun _ h => by cases h) (fun _ h => by cases h) (fun _ _ h => by cases h) fun _ => rfl
  refine hrun.caught.bind ?_ fun answer behind' hanswer => ?_
  · rintro e es ⟨answer, h, -⟩
    cases h
  obtain ⟨answer', hanswer', rfl⟩ := hanswer
  obtain rfl := Except.ok.inj hanswer'
  cases answer with
  | error e => exact keeps_pure ⟨_, rfl, knows_nothing⟩
  | ok listed =>
    dsimp only
    split_ifs with hsuccess
    · cases hread : readOpenPrs A listed.stdout with
      | error e => exact keeps_pure ⟨_, rfl, knows_nothing⟩
      | ok prs =>
        refine keeps_pure ⟨_, rfl, fun prs' hprs => ⟨listed, List.mem_cons_self, hsuccess, ?_⟩⟩
        obtain rfl := Option.some.inj hprs
        exact ⟨hread, fun hfull => Nat.lt_of_not_le (of_decide_eq_false hfull)⟩
    · exact keeps_pure ⟨_, rfl, knows_nothing⟩

theorem keeps_anotherLinks {openPrs : OpenPrLinks} {issue : Text} (hknows : Knows A behind openPrs) :
    Keeps A pr closes behind (anotherLinks A svc openPrs issue pr) fun outcome es =>
      ∃ kept, outcome = .ok kept ∧ Knows A es kept.1 ∧
        (kept.2 = .ok (some false) → ShownAlone A pr issue es) := by
  unfold anotherLinks
  split_ifs
  · exact keeps_pure ⟨_, rfl, hknows, fun h => hknows.shownAlone (Except.ok.inj h)⟩
  · refine keeps_load.bind ?_ fun loaded behind' hloaded => ?_
    · rintro e es ⟨kept, h, -⟩
      cases h
    obtain ⟨kept, hkept, hknows'⟩ := hloaded
    obtain rfl := Except.ok.inj hkept
    refine keeps_pure ⟨_, rfl, hknows', fun h => ?_⟩
    obtain ⟨_, -, hanswer⟩ := map_eq_ok_iff.mp h
    exact hknows'.shownAlone hanswer

theorem keeps_stripWorkflowLabels {openPrs : OpenPrLinks} {issue : Text} {present : List Text}
    (hknows : Knows A behind openPrs) :
    Keeps A pr closes behind (stripWorkflowLabels A svc issue present pr openPrs) fun outcome es =>
      ∃ kept, outcome = .ok kept ∧ Knows A es kept.1 := by
  unfold stripWorkflowLabels
  dsimp only
  split_ifs
  · exact keeps_pure ⟨_, rfl, hknows⟩
  · refine (keeps_anotherLinks hknows).bind ?_ fun answered behind' hanswered => ?_
    · rintro e es ⟨kept, h, -⟩
      cases h
    obtain ⟨kept, hkept, hknows', hshown⟩ := hanswered
    obtain rfl := Except.ok.inj hkept
    obtain ⟨openPrs', otherOpen⟩ := answered
    cases otherOpen with
    | error e => exact keeps_pure ⟨_, rfl, hknows'⟩
    | ok otherOpen =>
      cases otherOpen with
      | none => exact keeps_pure ⟨_, rfl, hknows'⟩
      | some otherOpen =>
        cases otherOpen with
        | true => exact keeps_pure ⟨_, rfl, hknows'⟩
        | false =>
          have hremove : Keeps A pr closes behind'
              (run svc (.removeLabels issue (partOfStripLabels.filter fun label => present.contains label)))
              fun _ es => Knows A es openPrs' :=
            fun hbehind => yields_perform fun answer => ⟨.removal (hshown rfl) hbehind, hknows'.cons _⟩
          refine hremove.caught.bind ?_ fun edited behind'' hedited => ?_
          · rintro e es ⟨answer, h, -⟩
            cases h
          obtain ⟨_, -, hknows''⟩ := hedited
          cases edited with
          | error e => exact keeps_pure ⟨_, rfl, hknows''⟩
          | ok edited => exact keeps_pure ⟨_, rfl, hknows''⟩

theorem keeps_leaveComment {openPrs : OpenPrLinks} {issue : Text} {notDone : Option (List Text)}
    (hknows : Knows A behind openPrs) :
    Keeps A pr closes behind (leaveComment svc issue pr notDone) fun _ es => Knows A es openPrs := by
  have hrun : Keeps A pr closes behind (run svc (.viewIssue issue)) fun answer es =>
      es = .ran (.viewIssue issue) answer :: behind :=
    keeps_run (fun _ h => by cases h) (fun _ h => by cases h) (fun _ _ h => by cases h) fun _ => rfl
  refine hrun.bind ?_ fun view behind' hview => ?_
  · rintro e es rfl
    exact hknows.cons _
  subst hview
  have hknows' : Knows A (.ran (.viewIssue issue) (.ok view) :: behind) openPrs := hknows.cons _
  split_ifs with hsuccess
  · cases hread : readIssue (partOfMarker pr) view.stdout with
    | error e =>
      dsimp only
      split_ifs
      · exact keeps_pure hknows'
      · exact keeps_raise hknows'
    | ok viewed =>
      dsimp only
      split_ifs with hposted
      · exact keeps_pure hknows'
      · cases hrender : renderPartOfComment pr viewed.body notDone with
        | error e => exact keeps_raise hknows'
        | ok comment =>
          have hpost : Keeps A pr closes (.ran (.viewIssue issue) (.ok view) :: behind)
              (postComment svc issue comment) fun _ es => Knows A es openPrs := by
            have hmarker := isIn_renderPartOfComment hrender
            refine fun hbehind s => ⟨[_], rfl, ?_, hknows'.cons _⟩
            exact .comment hmarker hsuccess hread (Bool.eq_false_iff.mpr hposted) hbehind
          exact hpost.bind (fun _ _ h => h) fun _ _ h => keeps_pure h
  · exact keeps_pure hknows'

theorem keeps_updatePartOfIssue {openPrs : OpenPrLinks} {issue : Text} {notDone : Option (List Text)}
    (hknows : Knows A behind openPrs) :
    Keeps A pr closes behind (updatePartOfIssue A svc issue pr notDone openPrs) fun outcome es =>
      ∃ kept, outcome = .ok kept ∧ Knows A es kept.1 := by
  refine (keeps_leaveComment hknows).caught.bind ?_ fun left behind' hleft => ?_
  · rintro e es ⟨answer, h, -⟩
    cases h
  obtain ⟨_, -, hknows'⟩ := hleft
  cases left with
  | error e => exact keeps_pure ⟨_, rfl, hknows'⟩
  | ok left =>
    cases left with
    | none => exact keeps_pure ⟨_, rfl, hknows'⟩
    | some labels => exact keeps_stripWorkflowLabels hknows'

/-- In how many of the lists for an issue that stays open an issue is. -/
def MergedIssues.countOpen (outcome : MergedIssues) (n : Text) : Nat :=
  outcome.commented.count n + outcome.unlabeled.count n + outcome.kept.count n + outcome.failed.count n

theorem MergedIssues.countOpen_put (outcome : MergedIssues) (issue n : Text) (result : PartOfResult) :
    (outcome.put issue result).countOpen n = outcome.countOpen n + [issue].count n := by
  cases result with
  | stripped =>
    dsimp only [MergedIssues.countOpen, MergedIssues.put]
    rw [List.count_append]
    omega
  | noLabels =>
    dsimp only [MergedIssues.countOpen, MergedIssues.put]
    rw [List.count_append]
    omega
  | kept =>
    dsimp only [MergedIssues.countOpen, MergedIssues.put]
    rw [List.count_append]
    omega
  | failed =>
    dsimp only [MergedIssues.countOpen, MergedIssues.put]
    rw [List.count_append]
    omega

/-- What the second loop does to the lists. -/
structure Updated (issues : List Text) (before after : MergedIssues) : Prop where
  transitioned : after.transitioned = before.transitioned
  countOpen : ∀ n, after.countOpen n = before.countOpen n + issues.count n
  failed : ∀ n, n ∉ issues → after.failed.count n = before.failed.count n

theorem updated_put (before : MergedIssues) (issue : Text) (result : PartOfResult) :
    Updated [issue] before (before.put issue result) where
  transitioned := by cases result <;> rfl
  countOpen n := before.countOpen_put issue n result
  failed n hn := by
    have hzero : [issue].count n = 0 := List.count_eq_zero.mpr hn
    cases result with
    | failed =>
      show (before.failed ++ [issue]).count n = _
      rw [List.count_append, hzero, Nat.add_zero]
    | _ => rfl

theorem Updated.trans {first rest : List Text} {before middle after : MergedIssues}
    (hfirst : Updated first before middle) (hrest : Updated rest middle after) :
    Updated (first ++ rest) before after where
  transitioned := hrest.transitioned.trans hfirst.transitioned
  countOpen n := by
    rw [hrest.countOpen, hfirst.countOpen, List.count_append, Nat.add_assoc]
  failed n hn := by
    rw [List.mem_append, not_or] at hn
    rw [hrest.failed n hn.2, hfirst.failed n hn.1]

theorem keeps_updateIssues {notDone : Option (List Text)} {issues : List Text} {openPrs : OpenPrLinks}
    (before : MergedIssues) (hknows : Knows A behind openPrs) :
    Keeps A pr closes behind (updateIssues A svc pr notDone issues openPrs before) fun outcome _ =>
      ∃ after, outcome = .ok after ∧ Updated issues before after := by
  induction issues generalizing before behind openPrs with
  | nil => exact keeps_pure ⟨before, rfl, rfl, fun n => rfl, fun n _ => rfl⟩
  | cons issue issues ih =>
    refine (keeps_updatePartOfIssue hknows).bind ?_ fun updated behind' hupdated => ?_
    · rintro e es ⟨kept, h, -⟩
      cases h
    obtain ⟨kept, hkept, hknows'⟩ := hupdated
    obtain rfl := Except.ok.inj hkept
    intro hbehind
    refine (ih _ hknows' hbehind).mono ?_
    rintro outcome es ⟨horderly, after, rfl, hafter⟩
    exact ⟨horderly, after, rfl, (updated_put before issue _).trans hafter⟩

end Git.Merge
