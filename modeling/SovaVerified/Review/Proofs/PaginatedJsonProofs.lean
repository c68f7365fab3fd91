import SovaVerified.Adapters.Proofs.GitHubProofs
import SovaVerified.Json.Access
import SovaVerified.Json.Proofs.DecodingProofs
import SovaVerified.Review.PaginatedJson
import SovaVerified.Supervisor.Proofs.QuotaProofs

/-!
# Paginated answers are read whole

What the loop sees of the pages that are left is their text up to the last bracket (`readPages_rstrip`). So
nothing is lost, however many pages there are and whatever white space is around them
(`parsePaginatedGhJson_pages`).
-/

namespace Review

open Json

/-- A page of an answer: the text of an array. -/
structure Page where
  text : Text
  items : List Json
  denotes : Denotes text (.arr items)

/-- A text of white space. -/
abbrev Gap := { t : Text // ∀ c ∈ t, Text.isSpace c = true }

/-- The answer, as it is written out: the pages, each one with the white space behind it. -/
def written (pages : List (Page × Gap)) : Text := pages.flatMap fun p => p.1.text ++ p.2

theorem Page.bracket (p : Page) : ∃ mid, p.text = '[' :: (mid ++ [']']) := p.denotes.enclosed rfl

theorem Page.rstrip_text (p : Page) : Text.rstrip p.text = p.text := by
  obtain ⟨mid, h⟩ := p.bracket
  rw [h, ← List.cons_append]
  exact Text.rstrip_snoc (by decide) _

variable {pages : List (Page × Gap)}

/-- The pages that are left, without the white space at the end. -/
theorem rstrip_written_cons (p : Page) (gap : Gap) :
    Text.rstrip (written ((p, gap) :: pages)) =
      p.text ++ if Text.rstrip (written pages) = [] then [] else gap.val ++ Text.rstrip (written pages) := by
  have hcons : written ((p, gap) :: pages) = p.text ++ (gap.val ++ written pages) := by
    unfold written
    rw [List.flatMap_cons, List.append_assoc]
  have hgap : Text.rstrip gap.val = [] := Text.rstrip_eq_nil gap.property
  rw [hcons, Text.rstrip_append, Text.rstrip_append, hgap]
  by_cases hnil : Text.rstrip (written pages) = []
  · rw [if_pos hnil, if_pos rfl, p.rstrip_text, List.append_nil]
  · have hne : gap.val ++ Text.rstrip (written pages) ≠ [] := fun h => hnil (List.append_eq_nil_iff.mp h).2
    rw [if_neg hnil, if_neg hne]

theorem head_rstrip_written (pages : List (Page × Gap)) :
    ∀ c ∈ (Text.rstrip (written pages)).head?, Text.isSpace c = false := by
  cases pages with
  | nil => exact fun c hc => nomatch hc
  | cons p pages =>
    obtain ⟨p, gap⟩ := p
    intro c hc
    obtain ⟨mid, hmid⟩ := p.bracket
    rw [rstrip_written_cons, hmid] at hc
    obtain rfl : '[' = c := Option.some.inj hc
    decide

theorem dropWhile_gap (gap : Gap) (pages : List (Page × Gap)) :
    (gap.val ++ Text.rstrip (written pages)).dropWhile Text.isSpace = Text.rstrip (written pages) :=
  Text.lstrip_append gap.property (head_rstrip_written pages)

/-- The loop reads every page that is left. -/
theorem readPages_rstrip (pages : List (Page × Gap)) (rounds : Nat)
    (hrounds : (Text.rstrip (written pages)).length ≤ rounds) :
    readPages rounds (Text.rstrip (written pages)) = .ok (pages.map fun p => .arr p.1.items) := by
  induction pages generalizing rounds with
  | nil => cases rounds <;> rfl
  | cons p pages ih =>
    obtain ⟨p, gap⟩ := p
    obtain ⟨mid, hmid⟩ := p.bracket
    rw [rstrip_written_cons] at hrounds ⊢
    generalize hrest : (if Text.rstrip (written pages) = [] then []
      else gap.val ++ Text.rstrip (written pages)) = rest at hrounds ⊢
    have hread : rawDecode (p.text ++ rest) = .ok (.arr p.items, rest) :=
      rawDecode_complete p.denotes fun h => nomatch h
    have hdrop : rest.dropWhile Text.isSpace = Text.rstrip (written pages) := by
      rw [← hrest]
      split_ifs with hnil
      · rw [hnil]
        rfl
      · exact dropWhile_gap gap pages
    have hshorter : (Text.rstrip (written pages)).length ≤ rest.length := by
      rw [← hdrop]
      exact List.length_dropWhile_le _ _
    rw [hmid, List.length_append, List.length_cons] at hrounds
    obtain ⟨rounds, rfl⟩ : ∃ n, rounds = n + 1 := ⟨rounds - 1, by omega⟩
    rw [hmid, List.cons_append] at hread ⊢
    rw [readPages, hread]
    dsimp only
    rw [hdrop, ih rounds (by omega)]
    rfl

/-- The pages of an answer, with any white space around them, are read into one list. -/
theorem parsePaginatedGhJson_pages (front : Gap) (pages : List (Page × Gap)) :
    parsePaginatedGhJson (front.val ++ written pages) = .ok (pages.flatMap fun p => p.1.items) := by
  have hstrip : Text.strip (front.val ++ written pages) = Text.rstrip (written pages) := by
    rw [← Text.lstrip_rstrip, Text.rstrip_append]
    split_ifs with hnil
    · rw [hnil, Text.rstrip_eq_nil front.property]
      rfl
    · exact Text.lstrip_append front.property (head_rstrip_written pages)
  unfold parsePaginatedGhJson
  dsimp only
  rw [hstrip, readPages_rstrip pages _ (le_refl _)]
  exact congrArg Except.ok (List.flatMap_map _ _ _)

/-! ## Readers of a single list -/

/-- The pages of an answer, one behind the other. -/
def joined (pages : List Page) : Text := pages.flatMap Page.text

theorem loads_page (p : Page) : loads p.text = .ok (.arr p.items) := p.denotes.loads_eq

/-- Behind a first page there is more than a reader of one value accepts. -/
theorem loads_pages (p q : Page) (pages : List Page) :
    loads (joined (p :: q :: pages)) = .error decodeError := by
  obtain ⟨mid, hmid⟩ := q.bracket
  have htext : joined (p :: q :: pages) = [] ++ (p.text ++ ('[' :: (mid ++ [']']) ++ joined pages)) := by
    unfold joined
    rw [List.flatMap_cons, List.flatMap_cons, hmid]
    rfl
  rw [htext, loads, skip_value blanks_nil p.denotes, rawDecode_complete p.denotes fun h => nomatch h]
  rfl

theorem loadsList_page (p : Page) : loadsList (joined [p]) = .ok p.items := by
  have hjoined : joined [p] = p.text := List.append_nil p.text
  rw [hjoined, loadsList, loads_page]

theorem loadsList_pages (p q : Page) (pages : List Page) :
    loadsList (joined (p :: q :: pages)) = .ok [] := by
  rw [loadsList, loads_pages]
  exact if_pos rfl

section

variable {ρ : Type} {entry : Json → Except PyException (Option ρ)} {WellFormed : Json → ρ → Prop}
  {Readable : Json → Prop}

/-- A reader of a single list sees every entry that is well formed exactly when there is one page at most and
no entry raises, or when there is nothing to be seen. -/
theorem seen_iff (hentry : ∀ r x, WellFormed r x → entry r = .ok (some x))
    (hreadable : ∀ r, Exceptions.Returns (entry r) ↔ Readable r) (pages : List Page) :
    (∀ p ∈ pages, ∀ r ∈ p.items, ∀ x, WellFormed r x →
      ∃ xs, (loadsList (joined pages) >>= collect entry) = .ok xs ∧ x ∈ xs) ↔
    (pages.length ≤ 1 ∧ ∀ p ∈ pages, ∀ r ∈ p.items, Readable r) ∨
      ∀ p ∈ pages, ∀ r ∈ p.items, ∀ x, ¬WellFormed r x := by
  constructor
  · intro hseen
    rw [or_iff_not_imp_right]
    intro hsome
    push Not at hsome
    obtain ⟨p, hp, r, hr, x, hx⟩ := hsome
    obtain ⟨xs, hread, hmem⟩ := hseen p hp r hr x hx
    match pages with
    | [] => exact absurd hp List.not_mem_nil
    | [q] =>
      refine ⟨le_refl _, fun q' hq' r' hr' => ?_⟩
      obtain rfl := List.mem_singleton.mp hq'
      rw [loadsList_page] at hread
      exact (hreadable r').mp (returns_collect_iff.mp ⟨xs, hread⟩ r' hr')
    | q :: q' :: rest =>
      rw [loadsList_pages] at hread
      obtain rfl : [] = xs := Except.ok.inj hread
      exact absurd hmem List.not_mem_nil
  · rintro (⟨hone, hall⟩ | hnone) p hp r hr x hx
    · match pages with
      | [] => exact absurd hp List.not_mem_nil
      | [q] =>
        obtain rfl := List.mem_singleton.mp hp
        rw [loadsList_page]
        obtain ⟨xs, hxs⟩ := returns_collect_iff.mpr fun r' hr' => (hreadable r').mpr (hall p hp r' hr')
        exact ⟨xs, hxs, mem_of_collect hxs hr (hentry r x hx)⟩
      | q :: q' :: rest =>
        simp only [List.length_cons] at hone
        omega
    · exact absurd hx (hnone p hp r hr x)

end

end Review

/-!
# Reviews on every page

Two readers of reviews take a paginated answer for a single list: the sync of the CodeRabbit quota and
`get_pr_reviews`. They see every review exactly when there is a single page on which nothing raises, or when
there is no review at all (`sees_every_page_iff`).
-/

namespace Review

open Json Git

section

variable {ρ : Type}

/-- The reader sees every well formed review on every page. -/
def Sees (pages : List Page) (IsWellFormed : Json → ρ → Prop) (read : Except PyException (List ρ)) : Prop :=
  ∀ p ∈ pages, ∀ r ∈ p.items, ∀ x, IsWellFormed r x → ∃ xs, read = .ok xs ∧ x ∈ xs

/-- There is one page at most, with no entry on which the reader raises. -/
def SingleReadable (pages : List Page) (IsReadable : Json → Prop) : Prop :=
  pages.length ≤ 1 ∧ ∀ p ∈ pages, ∀ r ∈ p.items, IsReadable r

def NoReview (pages : List Page) (IsWellFormed : Json → ρ → Prop) : Prop :=
  ∀ p ∈ pages, ∀ r ∈ p.items, ∀ x, ¬IsWellFormed r x

end

/-- What `gh api --paginate` answers. -/
def paginated (pages : List Page) : ShellResult := { stdout := joined pages }

/-- Both readers, on any number of pages. -/
theorem sees_every_page_iff {δ : Type} (fromisoformat : Text → Option δ) (prNumber : Int) (pages : List Page) :
    (Sees pages (Supervisor.CodeRabbitQuota.IsQuotaReview fromisoformat prNumber)
        (Supervisor.CodeRabbitQuota.fetchReviewsForPr fromisoformat prNumber (paginated pages)) ↔
      SingleReadable pages Supervisor.CodeRabbitQuota.IsReadable ∨
        NoReview pages (Supervisor.CodeRabbitQuota.IsQuotaReview fromisoformat prNumber)) ∧
    (Sees pages Adapters.IsReview (Adapters.getPrReviews (paginated pages)) ↔
      SingleReadable pages Adapters.IsReadable ∨ NoReview pages Adapters.IsReview) := by
  constructor
  · exact seen_iff (fun _ _ h => Supervisor.CodeRabbitQuota.quotaReview_of_isQuotaReview h)
      (fun _ => Supervisor.CodeRabbitQuota.returns_quotaReview_iff) pages
  · exact seen_iff (fun _ _ h => Adapters.prReview_of_isReview h) (fun _ => Adapters.returns_prReview_iff) pages

/-- A review of CodeRabbit. -/
def approval : Json :=
  .obj [("user".toList, .obj [("login".toList, .str "coderabbitai".toList)]),
    ("state".toList, .str "APPROVED".toList), ("submitted_at".toList, .str "2026-01-01T00:00:00Z".toList),
    ("id".toList, .int 1)]

def approvalText : Text :=
  ("\x7b\"user\":\x7b\"login\":\"coderabbitai\"\x7d,\"state\":\"APPROVED\"," ++
    "\"submitted_at\":\"2026-01-01T00:00:00Z\",\"id\":1\x7d").toList

theorem denotes_approval : Denotes approvalText approval := by
  have huser : Denotes "\x7b\"login\":\"coderabbitai\"\x7d".toList
      (.obj [("login".toList, .str "coderabbitai".toList)]) :=
    .members blanks_nil (denotesMembers_last "login".toList (by decide)
      (denotes_str "coderabbitai".toList (by decide)))
  exact .members blanks_nil
    (denotesMembers_cons "user".toList (by decide) huser
      (denotesMembers_cons "state".toList (by decide)
        (denotes_str "APPROVED".toList (by decide))
        (denotesMembers_cons "submitted_at".toList (by decide)
          (denotes_str "2026-01-01T00:00:00Z".toList (by decide))
          (denotesMembers_last "id".toList (by decide) denotes_one))))

/-- A page with the review. -/
def approvalPage : Page where
  text := '[' :: (approvalText ++ [']'])
  items := [approval]
  denotes := by
    have h : Denotes ('[' :: ([] ++ (approvalText ++ ([] ++ [']'])))) (.arr [approval]) :=
      .items blanks_nil (.last denotes_approval blanks_nil)
    exact h

/-- On two pages, neither reader sees the review that is on both of them. -/
theorem two_pages_unseen :
    Supervisor.CodeRabbitQuota.IsQuotaReview some 7 approval
        { prNumber := 7, reviewId := .int 1, submittedAt := "2026-01-01T00:00:00+00:00".toList } ∧
      Adapters.IsReview approval
        { reviewer := .str "coderabbitai".toList, state := .str "APPROVED".toList, body := .str []
          submittedAt := .str "2026-01-01T00:00:00Z".toList, isBot := false } ∧
      Supervisor.CodeRabbitQuota.fetchReviewsForPr some 7 (paginated [approvalPage, approvalPage]) = .ok [] ∧
      Adapters.getPrReviews (paginated [approvalPage, approvalPage]) = .ok [] := by
  refine ⟨?_, ?_, ?_, ?_⟩
  · exact
      { login := ⟨"coderabbitai".toList, rfl, by decide⟩
        state := ⟨"APPROVED".toList, rfl, by decide, by decide⟩
        submittedAt := ⟨"2026-01-01T00:00:00Z".toList, rfl, by decide, by decide⟩
        reviewId := ⟨rfl, nofun, rfl⟩
        prNumber := rfl }
  · exact
      { reviewer := ⟨rfl, "coderabbitai".toList, by decide, rfl⟩
        state := ⟨rfl, "APPROVED".toList, by decide, rfl⟩
        submittedAt := ⟨rfl, "2026-01-01T00:00:00Z".toList, by decide, rfl⟩
        body := ⟨[], rfl, .inr ⟨rfl, rfl⟩⟩
        isBot := by decide +kernel }
  · show (loadsList (joined [approvalPage, approvalPage]) >>= _) = _
    rw [loadsList_pages]
    rfl
  · show (loadsList (joined [approvalPage, approvalPage]) >>= _) = _
    rw [loadsList_pages]
    rfl

end Review
