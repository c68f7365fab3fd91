import SovaVerified.Core.SpecFiles

/-!
# When the latest spec is the one that is found

A spec is found in every order of the directory exactly if it is the only file that is taken for the spec of its
issue. A title that changes leaves the old file beside the new one.
-/

namespace Core.SpecFiles

open Utils.Formatting

variable {nfkd : Text → Text} {issueNumber title content name t : Text} {specs : SpecsDir}

/-! ## Slugs -/

/-- A character of a slug. -/
def isSlugged (c : Char) : Bool := isSlugChar c || c == '-'

theorem dashed_slugged (inRun : Bool) (t : Text) : ∀ c ∈ dashed inRun t, isSlugged c = true := by
  induction t generalizing inRun with
  | nil => exact fun c hc => absurd hc List.not_mem_nil
  | cons d t ih =>
    unfold dashed
    split
    next hd =>
      rw [List.forall_mem_cons]
      exact ⟨by rw [isSlugged, hd, Bool.true_or], ih false⟩
    next =>
      split
      · exact ih true
      · rw [List.forall_mem_cons]
        exact ⟨by decide, ih true⟩

theorem mem_stripDashes {c : Char} (h : c ∈ stripDashes t) : c ∈ t := by
  unfold stripDashes at h
  rw [List.mem_reverse] at h
  have hleft := (List.dropWhile_sublist _).subset h
  rw [List.mem_reverse] at hleft
  exact (List.dropWhile_sublist _).subset hleft

theorem mem_beforeLastDash {c : Char} (h : c ∈ beforeLastDash t) : c ∈ t := by
  unfold beforeLastDash at h
  split at h
  · rw [List.mem_reverse] at h
    have hback := (List.dropWhile_sublist _).subset (List.mem_of_mem_drop h)
    exact List.mem_reverse.mp hback
  · exact h

theorem slugify_slugged (nfkd : Text → Text) (text : Text) (maxLength : Nat) :
    ∀ c ∈ slugify nfkd text maxLength, isSlugged c = true := by
  intro c hc
  unfold slugify at hc
  dsimp only at hc
  split at hc
  · exact dashed_slugged _ _ c (mem_stripDashes (List.mem_of_mem_take (mem_beforeLastDash hc)))
  · exact dashed_slugged _ _ c (mem_stripDashes hc)

theorem makeSlug_slugged (nfkd : Text → Text) (title : Text) :
    ∀ c ∈ makeSlug nfkd title, isSlugged c = true := by
  unfold makeSlug
  dsimp only
  split
  · exact Text.forall_mem_of_all (by decide)
  · exact slugify_slugged nfkd title 40

theorem notMem_makeSlug {c : Char} (hc : isSlugged c = false) : c ∉ makeSlug nfkd title := by
  intro hmem
  have hyes := makeSlug_slugged nfkd title c hmem
  rw [hc] at hyes
  cases hyes

/-! ## Names -/

theorem takeWhile_ne_append {c : Char} {a b : Text} (h : c ∉ a) : (a ++ c :: b).takeWhile (· != c) = a := by
  rw [List.takeWhile_append_of_pos (fun d hd => by
    rw [bne_iff_ne]
    rintro rfl
    exact h hd)]
  simp

theorem dropWhile_ne_append {c : Char} {a b : Text} (h : c ∉ a) :
    (a ++ c :: b).dropWhile (· != c) = c :: b := by
  rw [List.dropWhile_append_of_pos (fun d hd => by
    rw [bne_iff_ne]
    rintro rfl
    exact h hd)]
  simp

theorem suffix_append (hname : name ≠ []) : suffix (name ++ ".md".toList) = ".md".toList := by
  have hext : behindLastDot (name ++ ".md".toList) = "md".toList := by
    unfold behindLastDot
    have hreverse : (name ++ ".md".toList).reverse = "dm".toList ++ '.' :: name.reverse := by simp
    rw [hreverse, takeWhile_ne_append (by decide)]
    rfl
  have hlong : "md".toList ≠ [] ∧ "md".toList.length + 1 < (name ++ ".md".toList).length := by
    have hpos := List.length_pos_iff.mpr hname
    refine ⟨by decide, ?_⟩
    rw [List.length_append]
    show 3 < name.length + 3
    omega
  unfold suffix
  dsimp only
  rw [hext, if_pos hlong]
  rfl

theorem stem_append (hname : name ≠ []) : stem (name ++ ".md".toList) = name := by
  unfold stem
  rw [suffix_append hname, List.length_append, Nat.add_sub_cancel]
  exact List.take_left

theorem specFileName_eq (nfkd : Text → Text) (issueNumber title : Text) :
    specFileName nfkd issueNumber title =
      (sanitizeIssueNumber issueNumber ++ '-' :: makeSlug nfkd title) ++ ".md".toList := by
  unfold specFileName
  rw [List.append_assoc, List.cons_append]

/-- An id that can stand in the name of a file is not changed. -/
def IsFileId (issueNumber : Text) : Prop :=
  '/' ∉ issueNumber ∧ '\\' ∉ issueNumber ∧ issueNumber.head? ≠ some '.'

theorem notMem_sanitize {c : Char} (h : c = '/' ∨ c = '\\') : c ∉ sanitizeIssueNumber issueNumber := by
  intro hmem
  have hkept := (List.dropWhile_sublist _).subset hmem
  have htest := (List.mem_filter.mp hkept).2
  rcases h with rfl | rfl <;> exact absurd htest (by decide)

theorem head_sanitize : (sanitizeIssueNumber issueNumber).head? ≠ some '.' := by
  intro hhead
  have hnot := List.head?_dropWhile_not (· == '.') (issueNumber.filter fun c => c != '/' && c != '\\')
  unfold sanitizeIssueNumber at hhead
  rw [hhead] at hnot
  exact absurd hnot (by decide)

theorem sanitize_eq_self (h : IsFileId issueNumber) : sanitizeIssueNumber issueNumber = issueNumber := by
  obtain ⟨hslash, hback, hhead⟩ := h
  have hfilter : (issueNumber.filter fun c => c != '/' && c != '\\') = issueNumber := by
    rw [List.filter_eq_self]
    intro c hc
    rw [Bool.and_eq_true, bne_iff_ne, bne_iff_ne]
    constructor
    · rintro rfl
      exact hslash hc
    · rintro rfl
      exact hback hc
  unfold sanitizeIssueNumber
  rw [hfilter]
  cases issueNumber with
  | nil => rfl
  | cons c t =>
    have hc : (c == '.') = false := by
      rw [beq_eq_false_iff_ne]
      rintro rfl
      exact hhead rfl
    rw [List.dropWhile_cons, hc]
    rfl

theorem mem_sanitize {c : Char} (h : c ∈ sanitizeIssueNumber issueNumber) : c ∈ issueNumber :=
  (List.mem_filter.mp ((List.dropWhile_sublist _).subset h)).1

theorem mem_specFileName_front {c : Char} (h : c = '/' ∨ c = '\\') :
    c ∉ (sanitizeIssueNumber issueNumber ++ '-' :: makeSlug nfkd title) ++ ".md".toList := by
  have hslug : c ∉ makeSlug nfkd title := notMem_makeSlug (by rcases h with rfl | rfl <;> rfl)
  have hsafe : c ∉ sanitizeIssueNumber issueNumber := notMem_sanitize h
  have hdash : c ≠ '-' := by rcases h with rfl | rfl <;> decide
  have hmd : c ∉ ".md".toList := by rcases h with rfl | rfl <;> decide
  rw [List.mem_append, List.mem_append, List.mem_cons]
  rintro ((hin | hin | hin) | hin)
  · exact hsafe hin
  · exact hdash hin
  · exact hslug hin
  · exact hmd hin

theorem isFileId_of_front {rest : Text}
    (h : issueNumber ++ ['-'] ++ rest =
      (sanitizeIssueNumber issueNumber ++ '-' :: makeSlug nfkd title) ++ ".md".toList) :
    IsFileId issueNumber := by
  have hin : ∀ c ∈ issueNumber,
      c ∈ (sanitizeIssueNumber issueNumber ++ '-' :: makeSlug nfkd title) ++ ".md".toList := by
    intro c hc
    rw [← h, List.append_assoc]
    exact List.mem_append_left _ hc
  refine ⟨fun hc => mem_specFileName_front (.inl rfl) (hin _ hc),
    fun hc => mem_specFileName_front (.inr rfl) (hin _ hc), fun hhead => ?_⟩
  have hheads := congrArg List.head? h
  cases issueNumber with
  | nil => cases hhead
  | cons c t =>
    obtain rfl : c = '.' := Option.some.inj hhead
    have hsafe := @head_sanitize ('.' :: t)
    cases hsanitized : sanitizeIssueNumber ('.' :: t) with
    | nil =>
      rw [hsanitized] at hheads
      exact absurd (Option.some.inj hheads) (by decide)
    | cons d u =>
      rw [hsanitized] at hheads hsafe
      obtain rfl : '.' = d := Option.some.inj hheads
      exact hsafe rfl

theorem notMem_takeWhile_ne (c : Char) (t : Text) : c ∉ t.takeWhile (· != c) := by
  intro hmem
  have hall := List.all_takeWhile (p := (· != c)) (l := t)
  have htest := List.all_eq_true.mp hall c hmem
  exact absurd htest (by simp)

/-- Where the number behind a key is the id, the id is the beginning of the slug. -/
theorem isFileId_of_key {key : Text}
    (h : firstTwoParts (sanitizeIssueNumber issueNumber ++ '-' :: makeSlug nfkd title) =
      some (key, issueNumber)) :
    IsFileId issueNumber := by
  have hdash : '-' ∉ issueNumber := by
    unfold firstTwoParts at h
    split at h
    · cases h
    · obtain ⟨-, hnumber⟩ := Prod.mk.inj (Option.some.inj h)
      rw [← hnumber]
      exact notMem_takeWhile_ne '-' _
  have hsafe : '-' ∉ sanitizeIssueNumber issueNumber := fun hmem => hdash (mem_sanitize hmem)
  unfold firstTwoParts at h
  rw [dropWhile_ne_append hsafe] at h
  obtain ⟨-, hnumber⟩ := Prod.mk.inj (Option.some.inj h)
  have hin : ∀ c ∈ issueNumber, isSlugged c = true := by
    intro c hc
    rw [← hnumber] at hc
    exact makeSlug_slugged nfkd title c ((List.takeWhile_sublist _).subset hc)
  refine ⟨fun hc => ?_, fun hc => ?_, fun hhead => ?_⟩
  · exact absurd (hin _ hc) (by decide)
  · exact absurd (hin _ hc) (by decide)
  · exact absurd (hin _ (List.mem_of_head? hhead)) (by decide)

/-- The file that is written is taken for the spec of its issue if the id of the issue can stand in its name. -/
theorem isSpecOf_written_iff :
    isSpecOf issueNumber (specFileName nfkd issueNumber title) = true ↔ IsFileId issueNumber := by
  have hne : sanitizeIssueNumber issueNumber ++ '-' :: makeSlug nfkd title ≠ [] := by simp
  unfold isSpecOf
  rw [specFileName_eq, suffix_append hne, stem_append hne, beq_self_eq_true, Bool.true_and, Bool.or_eq_true]
  constructor
  · rintro (hfront | hkey)
    · obtain ⟨rest, hrest⟩ := List.isPrefixOf_iff_prefix.mp hfront
      exact isFileId_of_front hrest
    · split at hkey
      next key number hparts =>
        obtain ⟨hnumber, -⟩ := Bool.and_eq_true_iff.mp hkey
        rw [beq_iff_eq.mp hnumber] at hparts
        exact isFileId_of_key hparts
      next => cases hkey
  · intro h
    left
    rw [sanitize_eq_self h]
    refine List.isPrefixOf_iff_prefix.mpr ⟨makeSlug nfkd title ++ ".md".toList, ?_⟩
    simp

/-! ## What is found -/

theorem find_spec {listing : List (Text × Text)} {f : Text × Text}
    (h : findSpecFile issueNumber listing = some f) :
    isSpecOf issueNumber f.1 = true := by
  unfold findSpecFile at h
  exact @List.find?_some _ (fun g : Text × Text => isSpecOf issueNumber g.1) _ _ h

/-- A file is found in every order of a directory exactly if it is the only one that is taken for the spec. -/
theorem found_in_every_order_iff {files : List (Text × Text)} {w : Text × Text} :
    (∀ listing, listing.Perm files → findSpecFile issueNumber listing = some w) ↔
      w ∈ files ∧ isSpecOf issueNumber w.1 = true ∧ ∀ f ∈ files, isSpecOf issueNumber f.1 = true → f = w := by
  constructor
  · intro h
    have hfound := h files (.refl files)
    refine ⟨List.mem_of_find?_eq_some hfound, find_spec hfound, fun f hf hspec => ?_⟩
    -- The file can be listed first.
    have hfirst := h (f :: files.erase f) (List.perm_cons_erase hf).symm
    unfold findSpecFile at hfirst
    rw [List.find?_cons, hspec] at hfirst
    exact Option.some.inj hfirst
  · rintro ⟨hw, hspec, hall⟩ listing hperm
    have hsome : (findSpecFile issueNumber listing).isSome = true :=
      List.find?_isSome.mpr ⟨w, hperm.mem_iff.mpr hw, hspec⟩
    obtain ⟨f, hf⟩ := Option.isSome_iff_exists.mp hsome
    have hmem : f ∈ files := hperm.mem_iff.mp (List.mem_of_find?_eq_some hf)
    have hfspec : isSpecOf issueNumber f.1 = true := find_spec hf
    rw [hf, hall f hmem hfspec]

/-- The title and the text of a spec that is generated. -/
abbrev Generated := Text × Text

/-- After each generation, the file that was just written is found, whatever the order of the directory. -/
def LatestIsFound (nfkd : Text → Text) (issueNumber : Text) : List Generated → SpecsDir → Prop
  | [], _ => True
  | (title, content) :: later, specs =>
    let specs := writeSpecFile nfkd issueNumber title content specs
    (∀ listing, listing.Perm specs →
      findSpecFile issueNumber listing = some (specFileName nfkd issueNumber title, content)) ∧
      LatestIsFound nfkd issueNumber later specs

/-- What the generations have to be: the id can stand in a name, no other file is taken for the spec of the
issue, and the title keeps its slug. -/
def OneSpecFile (nfkd : Text → Text) (issueNumber : Text) (specs : SpecsDir) : List Generated → Prop
  | [] => True
  | (title, _) :: later =>
    IsFileId issueNumber ∧
      (∀ f ∈ specs, isSpecOf issueNumber f.1 = true → f.1 = specFileName nfkd issueNumber title) ∧
      ∀ next ∈ later, makeSlug nfkd next.1 = makeSlug nfkd title

theorem specFileName_inj {title' : Text} :
    specFileName nfkd issueNumber title = specFileName nfkd issueNumber title' ↔
      makeSlug nfkd title = makeSlug nfkd title' := by
  unfold specFileName
  constructor
  · intro h
    have hrest := (List.cons.inj (List.append_cancel_left h)).2
    exact List.append_cancel_right hrest
  · intro h
    rw [h]

/-- One generation. -/
theorem found_after_write_iff :
    (∀ listing, listing.Perm (writeSpecFile nfkd issueNumber title content specs) →
      findSpecFile issueNumber listing = some (specFileName nfkd issueNumber title, content)) ↔
      IsFileId issueNumber ∧
        ∀ f ∈ specs, isSpecOf issueNumber f.1 = true → f.1 = specFileName nfkd issueNumber title := by
  rw [found_in_every_order_iff]
  unfold writeSpecFile
  simp only [Assoc.mem_put, isSpecOf_written_iff, true_or, true_and]
  refine and_congr_right fun _ => ?_
  constructor
  · intro h f hf hspec
    by_contra hne
    exact hne (congrArg Prod.fst (h f (.inr ⟨hf, hne⟩) hspec))
  · rintro h f (rfl | ⟨hf, hne⟩) hspec
    · rfl
    · exact absurd (h f hf hspec) hne

/-- The latest spec is found after each of the generations for an issue exactly if no other file is taken for
the spec of the issue and the title keeps its slug. -/
theorem latestIsFound_iff (nfkd : Text → Text) (issueNumber : Text) (specs : SpecsDir)
    (generations : List Generated) :
    LatestIsFound nfkd issueNumber generations specs ↔ OneSpecFile nfkd issueNumber specs generations := by
  induction generations generalizing specs with
  | nil => rfl
  | cons generated later ih =>
    obtain ⟨title, content⟩ := generated
    have hlater := ih (writeSpecFile nfkd issueNumber title content specs)
    unfold LatestIsFound OneSpecFile
    dsimp only
    rw [found_after_write_iff, hlater, and_assoc]
    refine and_congr_right fun hid => and_congr_right fun hone => ?_
    have hwritten : ∀ f ∈ writeSpecFile nfkd issueNumber title content specs,
        isSpecOf issueNumber f.1 = true → f.1 = specFileName nfkd issueNumber title := by
      intro f hf hspec
      rcases Assoc.mem_put.mp hf with rfl | ⟨hold, -⟩
      · rfl
      · exact hone f hold hspec
    have hmem : (specFileName nfkd issueNumber title, content) ∈
        writeSpecFile nfkd issueNumber title content specs := Assoc.mem_put.mpr (.inl rfl)
    cases later with
    | nil => exact iff_of_true trivial fun next hnext => absurd hnext List.not_mem_nil
    | cons next later =>
      obtain ⟨title', content'⟩ := next
      rw [List.forall_mem_cons]
      constructor
      · rintro ⟨-, hall, hkeep⟩
        have hname := hall _ hmem (isSpecOf_written_iff.mpr hid)
        have hslug : makeSlug nfkd title' = makeSlug nfkd title := (specFileName_inj.mp hname).symm
        exact ⟨hslug, fun after hafter => (hkeep after hafter).trans hslug⟩
      · rintro ⟨hslug, hkeep⟩
        refine ⟨hid, fun f hf hspec => ?_, fun after hafter => ?_⟩
        · rw [hwritten f hf hspec]
          exact specFileName_inj.mpr hslug.symm
        · exact (hkeep after hafter).trans hslug.symm

/-- The issue is renamed between two generations. -/
theorem renamed_issue_finds_old :
    ¬ LatestIsFound id "7".toList
      [("Add cache".toList, "# Spec: Add cache".toList),
        ("Add fast cache".toList, "# Spec: Add fast cache".toList)]
      [] := by
  rintro ⟨-, hsecond, -⟩
  have hfound := hsecond
    [("7-add-cache.md".toList, "# Spec: Add cache".toList),
      ("7-add-fast-cache.md".toList, "# Spec: Add fast cache".toList)] (by decide +kernel)
  revert hfound
  decide +kernel

end Core.SpecFiles
