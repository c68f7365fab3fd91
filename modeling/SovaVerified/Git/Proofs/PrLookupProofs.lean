import SovaVerified.Git.PrLookup
import SovaVerified.Text.Reading
import SovaVerified.Utils.Proofs.GhProofs

/-!
# Which pull request is taken for an issue's own

The results are gone through once: the first one whose body closes the issue, or whose branch has its number
somewhere in it, and without such a one the first that is part of it. The tests read the body as it is written
and the branch as a text, so that the pull request links to the issue only where the same words stand outside of
code, or where the number is the one of the branch.
-/

namespace Git

open Utils

variable {A : Text.Alphabet} {issueNum branch : Text} {pr : GhPr} {prs : List GhPr}

/-! ## The loop -/

theorem matchedPr_eq (partOfMatch : Option GhPr) (prs : List GhPr) :
    matchedPr A issueNum partOfMatch prs =
      (prs.find? (closesOrNames A issueNum)).or (partOfMatch.or (prs.find? (isPartOf A issueNum))) := by
  induction prs generalizing partOfMatch with
  | nil => simp [matchedPr]
  | cons pr prs ih =>
    rw [matchedPr, List.find?_cons, List.find?_cons]
    cases hcloses : closesOrNames A issueNum pr with
    | true => rfl
    | false =>
      rw [if_neg Bool.false_ne_true]
      cases hpart : isPartOf A issueNum pr with
      | true =>
        cases partOfMatch with
        | none =>
          rw [Option.isNone_none, Bool.and_true, if_pos rfl, ih]
          rfl
        | some first =>
          rw [Option.isNone_some, Bool.false_and, if_neg Bool.false_ne_true, ih]
          rfl
      | false =>
        rw [Bool.and_false, if_neg Bool.false_ne_true, ih]

/-- What is found is the pull request of the loop. -/
theorem matchPrResults_found_iff (info : PrInfo) :
    matchPrResults A (some prs) issueNum = .ok (.found info) ↔
      ∃ pr, matchedPr A issueNum none prs = some pr ∧ PrInfo.fromGhJson pr = .ok info := by
  unfold matchPrResults
  dsimp only
  cases hmatched : matchedPr A issueNum none prs with
  | none =>
    refine iff_of_false ?_ ?_
    · intro h
      cases h
    · rintro ⟨pr, h, -⟩
      cases h
  | some pr =>
    dsimp only
    constructor
    · intro h
      cases hinfo : PrInfo.fromGhJson pr with
      | error e =>
        rw [hinfo] at h
        cases h
      | ok info' =>
        rw [hinfo] at h
        cases h
        exact ⟨pr, rfl, hinfo⟩
    · rintro ⟨pr', h, hinfo⟩
      obtain rfl := Option.some.inj h
      rw [hinfo]
      rfl

/-! ## The number of a branch -/

theorem prefix_of_run {t : Text} {g : Regex.Groups} {accept : Text → Bool}
    (h : Regex.run Gh.branchIssueRe t g (fun rest g => if accept rest then g.get 1 else none) = some issueNum) :
    "issue-".toList ++ issueNum <+: t := by
  unfold Gh.branchIssueRe at h
  rw [Regex.run_seq] at h
  obtain ⟨u, v, g', rfl, hu, hnumber, -⟩ := Regex.run_eq_some h
  rw [Regex.matches_exact] at hu
  subst hu
  rw [Regex.run_cap] at hnumber
  obtain ⟨m, -, -, hm⟩ := Regex.backoff_eq_some hnumber
  dsimp only at hm
  split_ifs at hm
  obtain rfl : v.take (v.length - (v.drop m).length) = issueNum := Option.some.inj hm
  exact (List.prefix_append_right_inj _).mpr (List.take_prefix _ v)

/-- The number stands in the branch, so that the test of the branch takes it. -/
theorem isIn_of_branchIssue (h : Gh.branchIssue branch = some issueNum) :
    Text.isIn ("issue-".toList ++ issueNum) branch = true := by
  rw [Text.isIn_iff]
  unfold Gh.branchIssue at h
  rcases Option.or_eq_some_iff.mp h with hstart | ⟨-, hsearch⟩
  · exact (prefix_of_run hstart).isInfix
  · obtain ⟨s, hs, hrun⟩ := Regex.searchWith_eq_some hsearch
    rw [Regex.run_seq] at hrun
    cases s with
    | nil => cases hrun
    | cons c s =>
      rw [Regex.run] at hrun
      split_ifs at hrun
      exact (prefix_of_run hrun).isInfix.trans ((List.suffix_cons c s).trans hs).isInfix

/-! ## The pull request that is taken -/

/-- The body of the pull request links to the issue. -/
def LinksTo (A : Text.Alphabet) (issueNum : Text) (pr : GhPr) : Prop :=
  Gh.LinksTo A issueNum (pr.body.getD [])

/-- The pull request is the issue's own. -/
def IsOwn (A : Text.Alphabet) (issueNum : Text) (pr : GhPr) : Prop :=
  (issueNum ∈ (Gh.parseIssueLinks A (pr.body.getD [])).closes ∨
      issueNum ∈ (Gh.parseIssueLinks A (pr.body.getD [])).partOf) ∨
    Gh.branchIssue (pr.headRefName.getD []) = some issueNum

/-- The pull request is the first one that passes the test. -/
def IsFirst (test : GhPr → Bool) (prs : List GhPr) (pr : GhPr) : Prop :=
  ∃ front back, prs = front ++ pr :: back ∧ (∀ q ∈ front, test q = false) ∧ test pr = true

theorem find_eq_some_iff {test : GhPr → Bool} : prs.find? test = some pr ↔ IsFirst test prs pr := by
  rw [List.find?_eq_some_iff_append]
  unfold IsFirst
  constructor
  · rintro ⟨hpr, front, back, rfl, hfront⟩
    exact ⟨front, back, rfl, fun q hq => by simpa using hfront q hq, hpr⟩
  · rintro ⟨front, back, rfl, hfront, hpr⟩
    exact ⟨hpr, front, back, rfl, fun q hq => by rw [hfront q hq]; rfl⟩

theorem matched_own_iff (A : Text.Alphabet) (issueNum : Text) (prs : List GhPr) :
    (∀ pr, matchedPr A issueNum none prs = some pr → IsOwn A issueNum pr) ↔
      (∀ pr, IsFirst (closesOrNames A issueNum) prs pr →
          LinksTo A issueNum pr ∨ Gh.branchIssue (pr.headRefName.getD []) = some issueNum) ∧
        ((∀ pr ∈ prs, closesOrNames A issueNum pr = false) →
          ∀ pr, IsFirst (isPartOf A issueNum) prs pr → LinksTo A issueNum pr) := by
  have hown : ∀ pr, IsOwn A issueNum pr ↔
      LinksTo A issueNum pr ∨ Gh.branchIssue (pr.headRefName.getD []) = some issueNum := fun pr =>
    or_congr_left (Gh.mem_links_iff issueNum (pr.body.getD []))
  rw [matchedPr_eq, Option.none_or]
  simp only [hown]
  cases hfirst : prs.find? (closesOrNames A issueNum) with
  | some first =>
    rw [Option.some_or]
    have hfound := find_eq_some_iff.mp hfirst
    constructor
    · intro htaken
      refine ⟨fun pr hpr => ?_, fun hnone => ?_⟩
      · have hsame := find_eq_some_iff.mpr hpr
        rw [hfirst] at hsame
        exact htaken pr hsame
      · have htest := List.find?_some hfirst
        rw [hnone first (List.mem_of_find?_eq_some hfirst)] at htest
        cases htest
    · rintro ⟨hstrong, -⟩ pr hpr
      obtain rfl := Option.some.inj hpr
      exact hstrong first hfound
  | none =>
    have hnone : ∀ pr ∈ prs, closesOrNames A issueNum pr = false := by
      simpa using hfirst
    rw [Option.none_or]
    constructor
    · intro htaken
      refine ⟨fun pr hpr => ?_, fun _ pr hpr => ?_⟩
      · have hsame := find_eq_some_iff.mpr hpr
        rw [hfirst] at hsame
        cases hsame
      · have hpr' := find_eq_some_iff.mpr hpr
        refine (htaken pr hpr').resolve_right fun hbranch => ?_
        -- the number of the branch stands in it
        have htest := hnone pr (List.mem_of_find?_eq_some hpr')
        unfold closesOrNames at htest
        rw [isIn_of_branchIssue hbranch, Bool.or_true] at htest
        cases htest
    · rintro ⟨-, hweak⟩ pr hpr
      exact .inl (hweak hnone pr (find_eq_some_iff.mp hpr))

/-- The number of the branch goes on behind the number of the issue. -/
theorem takes_longer_number :
    ¬ ∀ (A : Text.Alphabet) (issueNum : Text) (prs : List GhPr), Gh.isNumeric issueNum = true →
      ∀ pr, matchedPr A issueNum none prs = some pr → IsOwn A issueNum pr := by
  intro hclaim
  have hown := hclaim Text.Alphabet.asciiOnly "12".toList
    [{ number := some 40, url := [], body := some "Related to #12.\n\nCloses #123".toList,
       headRefName := some "feat/issue-123".toList, author := none }] (by decide)
    { number := some 40, url := [], body := some "Related to #12.\n\nCloses #123".toList,
      headRefName := some "feat/issue-123".toList, author := none } ?_
  · unfold IsOwn at hown
    exact absurd hown (by decide +kernel)
  · have hbranch : closesOrNames Text.Alphabet.asciiOnly "12".toList
        { number := some 40, url := [], body := some "Related to #12.\n\nCloses #123".toList,
          headRefName := some "feat/issue-123".toList, author := none } = true := by decide +kernel
    rw [matchedPr, if_pos hbranch]

end Git
