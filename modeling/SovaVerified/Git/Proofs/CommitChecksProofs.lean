import SovaVerified.Git.CommitChecks

/-!
# No truncated check list

A server that holds the check runs and the statuses of a commit answers a request with the page that it
names, fails, or answers with what is not JSON. The items that have been read are always the first pages,
and the loop ends only when they are all of them, or with nothing: at the cap and when a request fails.
-/

namespace Git.CommitChecks

open Json Outside

/-- What is registered on a commit. -/
structure Commit where
  runs : List Json
  statuses : List Json

def Commit.items (commit : Commit) : Endpoint → List Json
  | .checkRuns => commit.runs
  | .status => commit.statuses

def pageOf (items : List Json) (page : Nat) : List Json := (items.drop (100 * (page - 1))).take 100

/-- The body of an answer: the items of the page, with the true total or none. -/
structure IsPage (items : List Json) (key : Text) (page : Nat) (body : Json) : Prop where
  isObject : body.IsObject
  items_eq : body.item key (.arr []) = .arr (pageOf items page)
  total : body.item "total_count".toList .null = .null ∨
    body.item "total_count".toList .null = .int items.length

/-- What the server may answer when it is asked for a page. -/
inductive Served (items : List Json) (key : Text) (page : Nat) : Command → Prop where
  | raised (e : PyException) : Served items key page (.error e)
  | failed (result : ShellResult) (h : result.success = false) : Served items key page (.ok result)
  | unreadable (result : ShellResult) (h : loads result.stdout = .error decodeError) :
      Served items key page (.ok result)
  | page (result : ShellResult) (body : Json) (h : loads result.stdout = .ok body)
      (hpage : IsPage items key page body) : Served items key page (.ok result)

/-- A server that serves the pages of a commit. It need not answer a request in the same way twice. -/
structure Server (ω : Type) (repo sha : Text) (commit : Commit) where
  run : Run ω
  serves : ∀ endpoint page w, Served (commit.items endpoint) endpoint.itemsKey (page.getD 1)
    (run { repo, sha, endpoint, page } w).1

/-- What a call may raise: what `run` raised, that both endpoints do not know the commit, or that an entry
has a field that cannot be read. -/
inductive Raised (run : Run ω) (repo sha : Text) (commit : Commit) : PyException → Prop where
  | ofRun (request : Request) (w : ω) (e : PyException) (h : (run request w).1 = .error e) :
      Raised run repo sha commit e
  | unknownCommit (h : ∀ endpoint, ∃ w result,
      (run { repo, sha, endpoint } w).1 = .ok result ∧ isUnknownCommitError result = true) :
      Raised run repo sha commit unknownCommitError
  | ofRunEntry (item : Json) (e : PyException) (hitem : item ∈ commit.runs)
      (h : checkOfRun item = .error e) : Raised run repo sha commit e
  | ofStatusEntry (item : Json) (e : PyException) (hitem : item ∈ commit.statuses)
      (h : checkOfStatus item = .error e) : Raised run repo sha commit e

/-- Why a call may return nothing: a request failed or was answered with what is not JSON, or an endpoint has
more items than the pages that are read can hold. -/
inductive Withheld (run : Run ω) (commit : Commit) : Prop where
  | failed (request : Request) (w : ω) (result : ShellResult) (h : (run request w).1 = .ok result)
      (hfailed : result.success = false)
  | unreadable (request : Request) (w : ω) (result : ShellResult) (h : (run request w).1 = .ok result)
      (hbad : loads result.stdout = .error decodeError)
  | atCap (endpoint : Endpoint) (h : 100 * maxCheckPages ≤ (commit.items endpoint).length)

/-- The list has the entry of every check run and then the entry of every status, in order. -/
def IsComplete (commit : Commit) (checks : List CICheck) : Prop :=
  ∃ ofRuns ofStatuses, checks = ofRuns ++ ofStatuses ∧
    List.Forall₂ (fun item check => checkOfRun item = .ok check) commit.runs ofRuns ∧
    List.Forall₂ (fun item check => checkOfStatus item = .ok check) commit.statuses ofStatuses

variable {repo sha : Text} {commit : Commit} {items : List Json}

/-- The first pages with the next one. -/
theorem take_append_pageOf (items : List Json) (page : Nat) :
    items.take (100 * page) ++ pageOf items (page + 1) = items.take (100 * (page + 1)) := by
  unfold pageOf
  rw [Nat.add_sub_cancel, Nat.mul_add, List.take_add]

theorem le_length_of_full {page : Nat} (h : ¬ (pageOf items (page + 1)).length < 100) :
    100 * (page + 1) ≤ items.length := by
  unfold pageOf at h
  rw [List.length_take, List.length_drop] at h
  omega

/-- A page that is not full is the last one. -/
theorem take_of_short {page : Nat} (h : (pageOf items (page + 1)).length < 100) :
    items.take (100 * (page + 1)) = items := by
  unfold pageOf at h
  rw [List.length_take, List.length_drop] at h
  exact List.take_of_length_le (by omega)

/-! ## The loop -/

/-- Without a total the length of the pages decides, and with the true one whether all has been read. -/
theorem hasMorePages_spec {total : Json} {page : Nat} (hpage : 0 < page)
    (htotal : total = .null ∨ total = .int items.length) :
    hasMorePages (items.take (100 * page)) total = .ok true ∨
      hasMorePages (items.take (100 * page)) total = .ok false ∧ items.take (100 * page) = items := by
  unfold hasMorePages
  have hlength : (items.take (100 * page)).length = min (100 * page) items.length := List.length_take
  split_ifs with h
  · rcases htotal with rfl | rfl
    · exact .inl rfl
    · have hlt : lessThan (items.take (100 * page)).length (.int items.length) =
          .ok (decide (((items.take (100 * page)).length : Int) < items.length)) := rfl
      show lessThan _ _ = _ ∨ lessThan _ _ = _ ∧ _
      rw [hlt]
      by_cases hmore : (items.take (100 * page)).length < items.length
      · have hcast : ((items.take (100 * page)).length : Int) < items.length := by omega
        exact .inl (by rw [decide_eq_true hcast])
      · have hcast : ¬ ((items.take (100 * page)).length : Int) < items.length := by omega
        refine .inr ⟨by rw [decide_eq_false hcast], List.take_of_length_le ?_⟩
        omega
  · refine .inr ⟨rfl, List.take_of_length_le ?_⟩
    by_cases hnil : items.take (100 * page) = []
    · rw [hnil, List.length_nil] at hlength
      omega
    · have hmod : ¬ (items.take (100 * page)).length % 100 = 0 := fun h' => h ⟨hnil, h'⟩
      rw [hlength] at hmod
      omega

/-- An answer that has succeeded is not JSON, or it is the page. -/
theorem loaded_served {key : Text} {page : Nat} {result : ShellResult}
    (hserved : Served items key page (.ok result)) (hsuccess : result.success = true) :
    (loads result.stdout = .error decodeError ∧ loaded result.stdout = .ok none) ∨
      ∃ body, loaded result.stdout = .ok (some body) ∧ IsPage items key page body := by
  unfold loaded
  cases hserved with
  | failed _ hfailed => exact absurd (hsuccess.symm.trans hfailed) Bool.noConfusion
  | unreadable _ hbad =>
    rw [hbad]
    exact .inl ⟨rfl, rfl⟩
  | page _ body hbody hpage =>
    rw [hbody]
    exact .inr ⟨body, rfl, hpage⟩

theorem ends_lift {α : Type} {call : Except PyException α} {Q : Except PyException α → Prop}
    (h : Q call) : Ends (lift call : Gh ω α) Q :=
  ends_act fun _ => h

/-- A step that is known to return. -/
theorem ends_lift_bind {α β : Type} {call : Except PyException α} {f : α → Gh ω β} (a : α)
    {Q : Except PyException β → Prop} (hcall : call = .ok a) (h : Ends (f a) Q) :
    Ends (lift call >>= f) Q := by
  subst hcall
  exact h

/-- The items of an endpoint are all of them, or there is a reason for none. -/
def AllOrNone (run : Run ω) (commit : Commit) (items : List Json) :
    Except PyException (Option (List Json)) → Prop
  | .ok none => Withheld run commit
  | .ok (some found) => found = items
  | .error e => ∃ request w, (run request w).1 = .error e

theorem ends_fetchPages (server : Server ω repo sha commit) (endpoint : Endpoint) (total : Json)
    (htotal : total = .null ∨ total = .int (commit.items endpoint).length) (rounds page : Nat)
    (hpage : 0 < page) (hrounds : rounds + page = maxCheckPages)
    (hfull : 1 < page → 100 * page ≤ (commit.items endpoint).length) :
    Ends (fetchPages server.run repo sha endpoint total rounds (page + 1)
        ((commit.items endpoint).take (100 * page)))
      (AllOrNone server.run commit (commit.items endpoint)) := by
  -- the invariant: what has been read are the first `page` pages, and those behind the first were full
  induction rounds generalizing page with
  | zero =>
    unfold fetchPages
    rcases hasMorePages_spec hpage htotal with hmore | ⟨hmore, hall⟩
    · have hcap : page = maxCheckPages := by omega
      have hlt : 1 < page := by rw [hcap]; decide
      exact ends_lift_bind true hmore (ends_pure (.atCap endpoint (hcap ▸ hfull hlt)))
    · exact ends_lift_bind false hmore (ends_pure hall)
  | succ rounds ih =>
    unfold fetchPages
    rcases hasMorePages_spec hpage htotal with hmore | ⟨hmore, hall⟩
    · refine ends_lift_bind true hmore ?_
      refine ends_bind (Q := fun answer =>
        Served (commit.items endpoint) endpoint.itemsKey (page + 1) answer ∧
          ∃ request w, (server.run request w).1 = answer) ?_ ?_ ?_
      · exact ends_act fun w => ⟨server.serves endpoint (some (page + 1)) w, _, w, rfl⟩
      · rintro e ⟨-, hraised⟩
        exact hraised
      · rintro result ⟨hserved, request, w, hresult⟩
        by_cases hsuccess : result.success = true
        · rw [hsuccess]
          show Ends (lift (loaded result.stdout) >>= _) _
          rcases loaded_served hserved hsuccess with ⟨hbad, hloaded⟩ | ⟨body, hloaded, hbody⟩
          · exact ends_lift_bind none hloaded (ends_pure (.unreadable request w result hresult hbad))
          · refine ends_lift_bind (some body) hloaded ?_
            refine ends_lift_bind _ (getItem_of_isObject hbody.isObject) ?_
            rw [hbody.items_eq]
            refine ends_lift_bind _ rfl ?_
            rw [take_append_pageOf]
            split_ifs with hshort
            · exact ends_pure (take_of_short hshort)
            · have hnext := le_length_of_full hshort
              exact ih (page + 1) (by omega) (by omega) fun _ => hnext
        · rw [Bool.eq_false_iff.mpr hsuccess]
          exact ends_pure (.failed request w result hresult (Bool.eq_false_iff.mpr hsuccess))
    · exact ends_lift_bind false hmore (ends_pure hall)

theorem ends_allItems (server : Server ω repo sha commit) (endpoint : Endpoint) {data : Json}
    (hdata : IsPage (commit.items endpoint) endpoint.itemsKey 1 data) :
    Ends (allItems server.run repo sha endpoint data)
      (AllOrNone server.run commit (commit.items endpoint)) := by
  unfold allItems
  refine ends_lift_bind _ (getItem_of_isObject hdata.isObject) ?_
  rw [hdata.items_eq]
  refine ends_lift_bind _ rfl ?_
  refine ends_lift_bind _ (getItem_of_isObject hdata.isObject) ?_
  exact ends_fetchPages server endpoint _ hdata.total (maxCheckPages - 1) 1 Nat.one_pos rfl
    fun h => absurd h (lt_irrefl 1)

/-! ## The list -/

theorem entries_spec (run : Run ω) (repo sha : Text) (commit : Commit) :
    (∃ checks, entries commit.runs commit.statuses = .ok checks ∧ IsComplete commit checks) ∨
      ∃ e, entries commit.runs commit.statuses = .error e ∧ Raised run repo sha commit e := by
  unfold entries
  cases hruns : commit.runs.mapM checkOfRun with
  | error e =>
    obtain ⟨item, hitem, he⟩ := Exceptions.exists_of_mapM_eq_error hruns
    exact .inr ⟨e, rfl, .ofRunEntry item e hitem he⟩
  | ok ofRuns =>
    cases hstatuses : commit.statuses.mapM checkOfStatus with
    | error e =>
      obtain ⟨item, hitem, he⟩ := Exceptions.exists_of_mapM_eq_error hstatuses
      exact .inr ⟨e, rfl, .ofStatusEntry item e hitem he⟩
    | ok ofStatuses =>
      exact .inl ⟨ofRuns ++ ofStatuses, rfl, ofRuns, ofStatuses, rfl,
        Exceptions.mapM_eq_ok_iff.mp hruns, Exceptions.mapM_eq_ok_iff.mp hstatuses⟩

/-- How a call may end: with nothing, with the complete list, or with an error. Nothing and an error have a
cause. -/
def Sound (run : Run ω) (repo sha : Text) (commit : Commit) :
    Except PyException (Option (List CICheck)) → Prop
  | .ok none => Withheld run commit
  | .ok (some checks) => IsComplete commit checks
  | .error e => Raised run repo sha commit e

theorem ends_checksOf (server : Server ω repo sha commit) {checkRunsData statusData : Json}
    (hruns : IsPage commit.runs Endpoint.checkRuns.itemsKey 1 checkRunsData)
    (hstatuses : IsPage commit.statuses Endpoint.status.itemsKey 1 statusData) :
    Ends (checksOf server.run repo sha checkRunsData statusData)
      (Sound server.run repo sha commit) := by
  unfold checksOf
  refine ends_bind (ends_allItems server .checkRuns hruns) ?_ ?_
  · rintro e ⟨request, w, he⟩
    exact .ofRun request w e he
  · intro found hfound
    cases found with
    | none => exact ends_pure hfound
    | some runs =>
      obtain rfl : runs = commit.runs := hfound
      refine ends_bind (ends_allItems server .status hstatuses) ?_ ?_
      · rintro e ⟨request, w, he⟩
        exact .ofRun request w e he
      · intro found hfound
        cases found with
        | none => exact ends_pure hfound
        | some statuses =>
          obtain rfl : statuses = commit.statuses := hfound
          rcases entries_spec server.run repo sha commit with
            ⟨checks, hchecks, hcomplete⟩ | ⟨e, he, hraised⟩
          · exact ends_lift_bind checks hchecks (ends_pure hcomplete)
          · refine ends_bind (ends_lift (Q := fun outcome => outcome = .error e) he) ?_ ?_
            · rintro e' heq
              cases heq
              exact hraised
            · rintro checks heq
              cases heq

/-- The branch in which one of the first two requests has failed. -/
theorem ends_failed {run : Run ω} {checkRunsResult statusResult : ShellResult} {w₁ w₂ : ω}
    (hruns : (run { repo, sha, endpoint := .checkRuns } w₁).1 = .ok checkRunsResult)
    (hstatus : (run { repo, sha, endpoint := .status } w₂).1 = .ok statusResult)
    (hwithheld : Withheld run commit) :
    Ends (if isUnknownCommitError checkRunsResult && isUnknownCommitError statusResult then
        raise unknownCommitError
      else pure none : Gh ω (Option (List CICheck))) (Sound run repo sha commit) := by
  split_ifs with hunknown
  · rw [Bool.and_eq_true] at hunknown
    refine ends_raise (.unknownCommit fun endpoint => ?_)
    cases endpoint with
    | checkRuns => exact ⟨w₁, checkRunsResult, hruns, hunknown.1⟩
    | status => exact ⟨w₂, statusResult, hstatus, hunknown.2⟩
  · exact ends_pure hwithheld

end Git.CommitChecks
