import Mathlib.Data.List.Pairwise
import SovaVerified.Review.Findings

/-!
# Merging untyped findings

One finding whose line is a text is harmless as long as no other finding of any dimension is about the
same file and category. When two findings meet, the line of every finding of their group has to be a
number, as the first one that has a line is kept, and the others are compared with it.
-/

namespace Review.Untyped

open Exceptions

/-! ## Decoding -/

theorem returns_extractJson_iff {decoder : Decoder} {firstValid : Option Dict} {skip : Nat} {text : Text} :
    Returns (extractJson decoder firstValid skip text) ↔
      ∀ s ∈ decodedAt decoder skip text, ∀ e, decoder.rawDecode s = .error e → e = jsonDecodeError := by
  induction text generalizing firstValid skip with
  | nil => simpa [extractJson, decodedAt] using returns_ok firstValid
  | cons c text ih =>
    cases skip with
    | succ skip => exact ih
    | zero =>
      unfold extractJson decodedAt
      by_cases hc : c ≠ '{'
      · rw [if_pos hc, if_pos hc]
        exact ih
      · rw [if_neg hc, if_neg hc, List.forall_mem_cons]
        cases hdecode : decoder.rawDecode (c :: text) with
        | error e =>
          simp only
          by_cases he : e = jsonDecodeError
          · rw [if_pos he, ih]
            have hhead : ∀ e', (.error e : Except PyException (Dict × Nat)) = .error e' →
                e' = jsonDecodeError := by
              intro e' he'
              cases he'
              exact he
            exact (and_iff_right hhead).symm
          · rw [if_neg he]
            exact ⟨fun h => absurd h (not_returns_error e), fun h => absurd (h.1 e rfl) he⟩
        | ok found =>
          obtain ⟨obj, length⟩ := found
          have hhead : ∀ e, (.ok (obj, length) : Except PyException (Dict × Nat)) = .error e →
              e = jsonDecodeError := by
            intro e he
            cases he
          simp only
          rw [and_iff_right hhead]
          split_ifs with hobj
          · exact ⟨fun _ s hs => absurd hs List.not_mem_nil, fun _ => returns_ok (some obj)⟩
          · exact ih

theorem returns_loadFindingsJson_iff {decoder : Decoder} {text : Text} :
    Returns (loadFindingsJson decoder text) ↔ Decodes decoder text := by
  unfold loadFindingsJson Decodes
  simp only
  cases hloads : decoder.loads (decoder.stripCodeFences text) with
  | error e =>
    by_cases he : e = jsonDecodeError
    · simp [he, returns_extractJson_iff]
    · simp only [if_neg he]
      exact ⟨fun h => absurd h (not_returns_error e), fun h => absurd (h.1 e rfl) he⟩
  | ok value =>
    cases value with
    | obj data => simpa using returns_ok (some data)
    | _ => simp [returns_extractJson_iff]

/-! ## Reading a finding -/

theorem returns_safeSeverity_iff {value : Json} {default : Int} :
    Returns (safeSeverity value default) ↔ value.isInfinite = false := by
  cases value with
  | null => simpa [safeSeverity, Json.isInfinite] using returns_ok default
  | _ =>
    unfold safeSeverity
    rw [returns_handling_iff, Json.escapes_toInt_iff, Bool.not_eq_true]

theorem returns_findingOf_iff {item : Dict} :
    Returns (findingOf item) ↔ (getItem item "severity".toList (.int 5)).isInfinite = false := by
  unfold findingOf
  rw [returns_map_iff, returns_safeSeverity_iff]

theorem toPlace_of_findingOf {item : Dict} {f : ReviewFinding} (h : findingOf item = .ok f) :
    f.toPlace = placeOf item := by
  unfold findingOf at h
  cases hseverity : safeSeverity (getItem item "severity".toList (.int 5)) with
  | error e =>
    rw [hseverity] at h
    cases h
  | ok severity =>
    rw [hseverity] at h
    cases h
    rfl

theorem map_toPlace_of_mapM {items : List Dict} {fs : List ReviewFinding}
    (h : items.mapM findingOf = .ok fs) : fs.map ReviewFinding.toPlace = items.map placeOf := by
  have hpairs := mapM_eq_ok_iff.mp h
  clear h
  induction hpairs with
  | nil => rfl
  | cons hf _ ih => rw [List.map_cons, List.map_cons, toPlace_of_findingOf hf, ih]

/-- The finding objects of one answer. -/
theorem reported_cons {decoder : Decoder} {text : Text} {texts : List Text} :
    reported decoder (text :: texts) = reported decoder [text] ++ reported decoder texts := by
  unfold reported
  rw [List.flatMap_cons, List.flatMap_cons, List.flatMap_nil, List.append_nil]

theorem parseFindings_eq {decoder : Decoder} {text : Text} (h : Decodes decoder text) :
    parseFindings decoder text = (reported decoder [text]).mapM findingOf := by
  obtain ⟨data, hdata⟩ := returns_loadFindingsJson_iff.mpr h
  unfold parseFindings reported
  rw [List.flatMap_cons, List.flatMap_nil, List.append_nil, hdata]
  cases data with
  | none => rfl
  | some data => rfl

theorem returns_parseFindings_iff {decoder : Decoder} {text : Text} :
    Returns (parseFindings decoder text) ↔ Decodes decoder text ∧
      ∀ item ∈ reported decoder [text],
        (getItem item "severity".toList (.int 5)).isInfinite = false := by
  constructor
  · intro h
    have hdecodes : Decodes decoder text := by
      obtain ⟨data, hdata, -⟩ := returns_bind_iff.mp h
      exact returns_loadFindingsJson_iff.mp ⟨data, hdata⟩
    rw [parseFindings_eq hdecodes, returns_mapM_iff] at h
    exact ⟨hdecodes, fun item hitem => returns_findingOf_iff.mp (h item hitem)⟩
  · rintro ⟨hdecodes, hseverity⟩
    rw [parseFindings_eq hdecodes, returns_mapM_iff]
    exact fun item hitem => returns_findingOf_iff.mpr (hseverity item hitem)

/-- The answers are all read exactly when each one can be decoded and no severity is infinite. -/
theorem returns_mapM_parseFindings_iff {decoder : Decoder} {texts : List Text} :
    Returns (texts.mapM (parseFindings decoder)) ↔ (∀ text ∈ texts, Decodes decoder text) ∧
      ∀ item ∈ reported decoder texts,
        (getItem item "severity".toList (.int 5)).isInfinite = false := by
  rw [returns_mapM_iff]
  have hreported : ∀ item, item ∈ reported decoder texts ↔
      ∃ text ∈ texts, item ∈ reported decoder [text] := by
    intro item
    simp [reported]
  constructor
  · intro h
    refine ⟨fun text htext => (returns_parseFindings_iff.mp (h text htext)).1, ?_⟩
    intro item hitem
    obtain ⟨text, htext, hitem⟩ := (hreported item).mp hitem
    exact (returns_parseFindings_iff.mp (h text htext)).2 item hitem
  · rintro ⟨hdecodes, hseverity⟩ text htext
    refine returns_parseFindings_iff.mpr ⟨hdecodes text htext, ?_⟩
    exact fun item hitem => hseverity item ((hreported item).mpr ⟨text, htext, hitem⟩)

/-- What is compared of the findings that are read. -/
theorem map_toPlace_flatten {decoder : Decoder} {texts : List Text} {found : List (List ReviewFinding)}
    (h : texts.mapM (parseFindings decoder) = .ok found) :
    found.flatten.map ReviewFinding.toPlace = (reported decoder texts).map placeOf := by
  have hpairs := mapM_eq_ok_iff.mp h
  clear h
  induction hpairs with
  | nil => rfl
  | @cons text fs texts found hfs _ ih =>
    have hdecodes := (returns_parseFindings_iff.mp ⟨fs, hfs⟩).1
    rw [parseFindings_eq hdecodes] at hfs
    rw [reported_cons, List.flatten_cons, List.map_append, List.map_append, ih,
      map_toPlace_of_mapM hfs]

/-! ## Findings that meet -/

namespace Place

variable {p q r : Place}

theorem Meets.symm (h : p.Meets q) : q.Meets p :=
  ⟨Json.eq_symm h.1, Json.eq_symm h.2.1, h.2.2.2, h.2.2.1⟩

theorem Meets.trans (h : p.Meets q) (h' : q.Meets r) : p.Meets r :=
  ⟨Json.eq_trans h.1 h'.1, Json.eq_trans h.2.1 h'.2.1, h.2.2.1, h'.2.2.2⟩

theorem Compatible.symm (h : p.Compatible q) : q.Compatible p :=
  fun hmeets => (h hmeets.symm).symm

end Place

/-- One turn of the loop of `_is_duplicate`. -/
theorem isDuplicate_cons_cases (candidate existing : ReviewFinding) (proximity : Nat)
    (kept : List ReviewFinding) :
    (existing.Meets candidate.toPlace ∧
      isDuplicate candidate proximity (existing :: kept) =
        (existing.line.sub candidate.line >>= fun difference =>
          if difference.absLe proximity then .ok true else isDuplicate candidate proximity kept)) ∨
    (¬existing.Meets candidate.toPlace ∧
      isDuplicate candidate proximity (existing :: kept) = isDuplicate candidate proximity kept) := by
  unfold Place.Meets
  rw [isDuplicate]
  by_cases hfile : existing.file.eq candidate.file = true
  · by_cases hcategory : existing.category.eq candidate.category = true
    · cases hexisting : existing.line <;> cases hcandidate : candidate.line <;>
        simp [hfile, hcategory]
    · simp [hfile, hcategory]
  · simp [hfile]

/-- A search that returns has met only lines that can be subtracted, until it has found a duplicate. -/
theorem isDuplicate_cases {candidate : ReviewFinding} {proximity : Nat} {kept : List ReviewFinding}
    {b : Bool} (h : isDuplicate candidate proximity kept = .ok b) :
    (b = true ∧ ∃ existing ∈ kept, existing.Meets candidate.toPlace ∧
      existing.line.Subtractable candidate.line) ∨
    (b = false ∧ ∀ existing ∈ kept, existing.Compatible candidate.toPlace) := by
  induction kept with
  | nil =>
    cases h
    exact .inr ⟨rfl, by simp⟩
  | cons existing kept ih =>
    rcases isDuplicate_cons_cases candidate existing proximity kept with ⟨hmeets, heq⟩ | ⟨hmeets, heq⟩
    · rw [heq] at h
      obtain ⟨difference, hsub, hrest⟩ := bind_eq_ok_iff.mp h
      have hsubtractable := Json.returns_sub_iff.mp ⟨difference, hsub⟩
      split_ifs at hrest with hnear
      · cases hrest
        exact .inl ⟨rfl, existing, List.mem_cons_self .., hmeets, hsubtractable⟩
      · rcases ih hrest with ⟨hb, k, hk, hkept⟩ | ⟨hb, hkept⟩
        · exact .inl ⟨hb, k, List.mem_cons_of_mem _ hk, hkept⟩
        · exact .inr ⟨hb, List.forall_mem_cons.mpr ⟨fun _ => hsubtractable, hkept⟩⟩
    · rw [heq] at h
      rcases ih h with ⟨hb, k, hk, hkept⟩ | ⟨hb, hkept⟩
      · exact .inl ⟨hb, k, List.mem_cons_of_mem _ hk, hkept⟩
      · exact .inr ⟨hb, List.forall_mem_cons.mpr ⟨fun h => absurd h hmeets, hkept⟩⟩

theorem returns_isDuplicate {candidate : ReviewFinding} (proximity : Nat) {kept : List ReviewFinding}
    (h : ∀ existing ∈ kept, existing.Compatible candidate.toPlace) :
    Returns (isDuplicate candidate proximity kept) := by
  induction kept with
  | nil => exact returns_ok false
  | cons existing kept ih =>
    obtain ⟨hexisting, hkept⟩ := List.forall_mem_cons.mp h
    rcases isDuplicate_cons_cases candidate existing proximity kept with ⟨hmeets, heq⟩ | ⟨-, heq⟩
    · obtain ⟨difference, hsub⟩ := Json.returns_sub_iff.mpr (hexisting hmeets)
      rw [heq, returns_bind_iff]
      refine ⟨difference, hsub, ?_⟩
      split_ifs
      · exact returns_ok true
      · exact ih hkept
    · rw [heq]
      exact ih hkept

/-! ## The scan -/

theorem returns_keepNew {proximity : Nat} {kept rest : List ReviewFinding}
    (h : (kept ++ rest).Pairwise fun f g => f.Compatible g.toPlace) :
    Returns (keepNew proximity kept rest) := by
  induction rest generalizing kept with
  | nil => exact returns_ok kept
  | cons candidate rest ih =>
    have hcandidate : ∀ existing ∈ kept, existing.Compatible candidate.toPlace :=
      fun existing hexisting =>
        (List.pairwise_append.mp h).2.2 existing hexisting candidate (List.mem_cons_self ..)
    obtain ⟨b, hb⟩ := returns_isDuplicate proximity hcandidate
    unfold keepNew
    rw [hb]
    cases b with
    | true =>
      refine ih (h.sublist ?_)
      exact List.Sublist.append_left (List.sublist_cons_self candidate rest) kept
    | false =>
      refine ih ?_
      rwa [List.append_assoc]

/-- While the scan goes on, a finding that has a line is kept, or it is left out for a kept finding that
it meets; then its line is a number. -/
def Settled (kept seen : List ReviewFinding) : Prop :=
  ∀ f ∈ seen, f ∈ kept ∨
    (f.line.IsNumber ∧ ∃ k ∈ kept, k.Meets f.toPlace ∧ k.line.IsNumber)

/-- The findings that meet have lines that are numbers. -/
def Numeric (f g : ReviewFinding) : Prop :=
  f.Meets g.toPlace → f.line.IsNumber ∧ g.line.IsNumber

theorem Numeric.symm {f g : ReviewFinding} (h : Numeric f g) : Numeric g f :=
  fun hmeets => (h hmeets.symm).symm

instance : Std.Symm Numeric := ⟨fun _ _ => Numeric.symm⟩

theorem numeric_of_compatible {f g : ReviewFinding} (h : f.Compatible g.toPlace) : Numeric f g := by
  intro hmeets
  obtain ⟨m, n, hm, hn, -⟩ := h hmeets
  exact ⟨⟨m, hm⟩, ⟨n, hn⟩⟩

/-- A search that returns shows that the line of the candidate is a number, if there is a kept finding
that it meets. -/
theorem isNumber_of_isDuplicate {candidate k : ReviewFinding} {proximity : Nat}
    {kept : List ReviewFinding} {b : Bool} (h : isDuplicate candidate proximity kept = .ok b)
    (hk : k ∈ kept) (hmeets : k.Meets candidate.toPlace) : candidate.line.IsNumber := by
  rcases isDuplicate_cases h with ⟨-, existing, -, -, m, n, -, hn, -⟩ | ⟨-, hkept⟩
  · exact ⟨n, hn⟩
  · exact (numeric_of_compatible (hkept k hk) hmeets).2

/-- What a search that returns shows about the findings that were seen before. -/
theorem numeric_of_isDuplicate {candidate f : ReviewFinding} {proximity : Nat}
    {kept seen : List ReviewFinding} {b : Bool} (hkept : kept.Pairwise Numeric)
    (hsettled : Settled kept seen) (h : isDuplicate candidate proximity kept = .ok b) (hf : f ∈ seen) :
    Numeric f candidate := by
  intro hmeets
  rcases hsettled f hf with hmem | ⟨hnumber, k, hk, hkf, -⟩
  · refine ⟨?_, isNumber_of_isDuplicate h hmem hmeets⟩
    rcases isDuplicate_cases h with ⟨-, k, hk, hkmeets, m, n, hm, -, -⟩ | ⟨-, hall⟩
    · by_cases heq : f = k
      · exact ⟨m, heq ▸ hm⟩
      · have hfk := hkept.forall hmem hk heq
        exact (hfk (hmeets.trans hkmeets.symm)).1
    · exact (numeric_of_compatible (hall f hmem) hmeets).1
  · exact ⟨hnumber, isNumber_of_isDuplicate h hk (hkf.trans hmeets)⟩

/-- A scan that comes to its end has seen only findings whose lines are numbers where they meet. -/
theorem numeric_of_keepNew {proximity : Nat} {kept rest out : List ReviewFinding}
    (seen : List ReviewFinding) (hkept : kept.Pairwise Numeric) (hsettled : Settled kept seen)
    (hseen : seen.Pairwise Numeric) (h : keepNew proximity kept rest = .ok out) : (seen ++ rest).Pairwise Numeric := by
  induction rest generalizing kept seen with
  | nil => rwa [List.append_nil]
  | cons candidate rest ih =>
    unfold keepNew at h
    obtain ⟨b, hb, hrest⟩ := bind_eq_ok_iff.mp h
    have hbefore : ∀ f ∈ seen, Numeric f candidate := fun f hf =>
      numeric_of_isDuplicate hkept hsettled hb hf
    have hseen' : (seen ++ [candidate]).Pairwise Numeric := by
      refine List.pairwise_append.mpr ⟨hseen, List.pairwise_singleton .., ?_⟩
      intro f hf g hg
      obtain rfl := List.mem_singleton.mp hg
      exact hbefore f hf
    have hsplit : seen ++ candidate :: rest = seen ++ [candidate] ++ rest := by simp
    rw [hsplit]
    rcases isDuplicate_cases hb with ⟨rfl, k, hk, hmeets, m, n, hm, hn, -⟩ | ⟨rfl, hall⟩
    · refine ih _ hkept ?_ hseen' hrest
      intro f hf
      rcases List.mem_append.mp hf with hf | hf
      · exact hsettled f hf
      · obtain rfl := List.mem_singleton.mp hf
        exact .inr ⟨⟨n, hn⟩, k, hk, hmeets, ⟨m, hm⟩⟩
    · refine ih _ ?_ ?_ hseen' hrest
      · refine List.pairwise_append.mpr ⟨hkept, List.pairwise_singleton .., ?_⟩
        intro f hf g hg
        obtain rfl := List.mem_singleton.mp hg
        exact numeric_of_compatible (hall f hf)
      · intro f hf
        rcases List.mem_append.mp hf with hf | hf
        · rcases hsettled f hf with hmem | ⟨hnumber, k, hk, hkept⟩
          · exact .inl (List.mem_append_left _ hmem)
          · exact .inr ⟨hnumber, k, List.mem_append_left _ hk, hkept⟩
        · exact .inl (List.mem_append_right _ hf)

/-! ## The merged list -/

theorem returns_deduplicateFindings {findings : List ReviewFinding} {proximity : Nat}
    (h : (findings.map ReviewFinding.toPlace).Pairwise Place.Compatible) :
    Returns (deduplicateFindings findings proximity) := by
  apply returns_keepNew
  rw [List.nil_append]
  refine ((List.perm_insertionSort _ findings).pairwise_iff ?_).mpr (List.pairwise_map.mp h)
  exact fun hfg => hfg.symm

theorem numeric_of_returns {findings : List ReviewFinding} {proximity : Nat}
    (h : Returns (deduplicateFindings findings proximity)) : findings.Pairwise Numeric := by
  obtain ⟨out, hout⟩ := h
  have hsorted := numeric_of_keepNew [] List.Pairwise.nil (by simp [Settled])
    List.Pairwise.nil hout
  rw [List.nil_append] at hsorted
  exact ((List.perm_insertionSort _ findings).pairwise_iff Numeric.symm).mp hsorted

theorem subtractable_of_moderate {a b : Json} (ha : a.IsNumber) (hb : b.IsNumber)
    (hma : ∀ n, a.asNumber = some n → n.isHuge = false)
    (hmb : ∀ n, b.asNumber = some n → n.isHuge = false) : a.Subtractable b := by
  obtain ⟨m, hm⟩ := ha
  obtain ⟨n, hn⟩ := hb
  refine ⟨m, n, hm, hn, ?_⟩
  rintro (⟨hhuge, -⟩ | ⟨-, hhuge⟩)
  · rw [hma m hm] at hhuge
    cases hhuge
  · rw [hmb n hn] at hhuge
    cases hhuge

/-- Where no line is an integer too large for a float, lines that are numbers can be subtracted. -/
theorem compatible_of_numeric {findings : List ReviewFinding}
    (hmoderate : ∀ f ∈ findings, ∀ n, f.line.asNumber = some n → n.isHuge = false)
    (h : findings.Pairwise Numeric) :
    (findings.map ReviewFinding.toPlace).Pairwise Place.Compatible := by
  refine List.pairwise_map.mpr (h.imp_of_mem ?_)
  intro f g hf hg hnumeric hmeets
  obtain ⟨hfline, hgline⟩ := hnumeric hmeets
  exact subtractable_of_moderate hfline hgline (hmoderate f hf) (hmoderate g hg)

theorem returns_panelFindings {decoder : Decoder} {texts : List Text} (h : Mergeable decoder texts)
    (proximity : Nat) : Returns (panelFindings decoder texts proximity) := by
  obtain ⟨found, hfound⟩ := returns_mapM_parseFindings_iff.mpr ⟨h.decodes, h.severity⟩
  refine returns_bind_iff.mpr ⟨found, hfound, returns_deduplicateFindings ?_⟩
  rw [map_toPlace_flatten hfound]
  exact h.lines

theorem mergeable_of_returns {decoder : Decoder} {texts : List Text} {proximity : Nat}
    (hmoderate : ∀ item ∈ reported decoder texts, Moderate item)
    (h : Returns (panelFindings decoder texts proximity)) : Mergeable decoder texts := by
  obtain ⟨found, hfound, hmerge⟩ := returns_bind_iff.mp h
  obtain ⟨hdecodes, hseverity⟩ := returns_mapM_parseFindings_iff.mp ⟨found, hfound⟩
  refine ⟨hdecodes, hseverity, ?_⟩
  have hplaces := map_toPlace_flatten hfound
  rw [← hplaces]
  refine compatible_of_numeric ?_ (numeric_of_returns hmerge)
  intro f hf
  have hplace : f.toPlace ∈ (reported decoder texts).map placeOf := by
    rw [← hplaces]
    exact List.mem_map_of_mem hf
  obtain ⟨item, hitem, heq⟩ := List.mem_map.mp hplace
  rw [← heq]
  exact hmoderate item hitem

/-- A panel merges its answers without an exception if they are `Mergeable`, and, unless an answer
holds a line that is an integer too large for a float, only then. -/
theorem panelFindings_returns_iff (decoder : Decoder) (texts : List Text) (proximity : Nat) :
    (Mergeable decoder texts → Returns (panelFindings decoder texts proximity)) ∧
      ((∀ item ∈ reported decoder texts, Moderate item) →
        (Returns (panelFindings decoder texts proximity) ↔ Mergeable decoder texts)) :=
  ⟨fun h => returns_panelFindings h proximity,
    fun hmoderate =>
      ⟨mergeable_of_returns hmoderate, fun h => returns_panelFindings h proximity⟩⟩

/-! ## An answer with a line that is a text -/

/-- The decoder on a few texts without code fences. -/
def decoderOf (table : Assoc Text Json) : Decoder where
  stripCodeFences := id
  loads := fun text =>
    match table.get text with
    | some value => .ok value
    | none => .error jsonDecodeError
  rawDecode := fun _ => .error jsonDecodeError

/-- The answer of the first dimension gives the line as a text. -/
def textLineAnswer : Text :=
  "\x7b\"findings\": [\x7b\"file\": \"a.py\", \"severity\": 7, \"category\": \"bug\", \"line\": \"12\"\x7d]\x7d".toList

/-- The answer of the second dimension. -/
def numberLineAnswer : Text :=
  "\x7b\"findings\": [\x7b\"file\": \"a.py\", \"severity\": 9, \"category\": \"bug\", \"line\": 12\x7d]\x7d".toList

/-- An answer about another file. -/
def otherFileAnswer : Text :=
  "\x7b\"findings\": [\x7b\"file\": \"b.py\", \"severity\": 4, \"category\": \"bug\", \"line\": 3\x7d]\x7d".toList

/-- A finding as its answer has it. -/
def answerItem (file : String) (severity : Int) (line : Json) : Dict :=
  [("file".toList, .str file.toList), ("severity".toList, .int severity),
    ("category".toList, .str "bug".toList), ("line".toList, line)]

/-- What the three answers are decoded to. -/
def answersDecoder : Decoder :=
  let answer := fun item : Dict => Json.obj [("findings".toList, .arr [.obj item])]
  decoderOf
    [(textLineAnswer, answer (answerItem "a.py" 7 (.str "12".toList))),
      (numberLineAnswer, answer (answerItem "a.py" 9 (.int 12))),
      (otherFileAnswer, answer (answerItem "b.py" 4 (.int 3)))]

/-- A text is no line that a number can be subtracted from: one answer takes the other one with it. -/
theorem textLine_raises :
    ¬Returns (panelFindings answersDecoder [textLineAnswer, numberLineAnswer] 3) := by
  have h : panelFindings answersDecoder [textLineAnswer, numberLineAnswer] 3 = .error .typeError := by
    rfl
  rw [h]
  exact not_returns_error .typeError

/-- A line that is a text does no harm where no other finding is about the same file. -/
theorem textLine_merges :
    Returns (panelFindings answersDecoder [textLineAnswer, otherFileAnswer] 3) := by
  refine (panelFindings_returns_iff answersDecoder [textLineAnswer, otherFileAnswer] 3).1 ?_
  have hreported : reported answersDecoder [textLineAnswer, otherFileAnswer] =
      [answerItem "a.py" 7 (.str "12".toList), answerItem "b.py" 4 (.int 3)] := by rfl
  constructor
  · intro text htext
    simp only [List.mem_cons, List.not_mem_nil, or_false] at htext
    rcases htext with rfl | rfl
    · exact returns_loadFindingsJson_iff.mp ⟨_, rfl⟩
    · exact returns_loadFindingsJson_iff.mp ⟨_, rfl⟩
  · rw [hreported]
    intro item hitem
    simp only [List.mem_cons, List.not_mem_nil, or_false] at hitem
    rcases hitem with rfl | rfl
    · rfl
    · rfl
  · rw [hreported]
    refine List.pairwise_pair.mpr ?_
    intro hmeets
    have hfile : (placeOf (answerItem "a.py" 7 (.str "12".toList))).file.eq
        (placeOf (answerItem "b.py" 4 (.int 3))).file = false := by rfl
    exact absurd hmeets.1 (Bool.eq_false_iff.mp hfile)

end Review.Untyped
