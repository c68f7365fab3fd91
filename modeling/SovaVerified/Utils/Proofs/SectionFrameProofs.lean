import SovaVerified.Utils.Proofs.UpsertProofs

/-!
# What a new section leaves as it is

Between the titles nothing is lost: the section that was written reads as its content, and every other one as it
did. What goes wrong is done by the white space that is taken away around the text. In front it makes a title of
an indented line, behind it takes the title away from a last line that is nothing but marks and blanks.
-/

namespace Utils.Markdown

open Text (unlines AreLines ended stripFront stripBack stripLines)

variable {st : Option Fence} {p : Text → Bool} {line content text : Text} {lines a b behind : List Text}
  {x h : Heading}

/-! ## Reading on -/

theorem bodyOf_congr {st' : Option Fence} {h : Text} (heq : onward (titles h) st a = onward (titles h) st' b) :
    bodyOf h st a = bodyOf h st' b := by
  unfold bodyOf
  rw [heq]

theorem free_cons_iff : Free p st (line :: lines) ↔
    ¬ (st = none ∧ p line = true) ∧ Free p (fenceAfter st line) lines := by
  have happend : Free p st (line :: lines) ↔ Free p st [line] ∧ Free p (fencesAfter st [line]) lines :=
    free_append_iff (a := [line])
  rw [happend]
  refine and_congr ?_ Iff.rfl
  constructor
  · intro hfree hhit
    obtain ⟨rfl, hline⟩ := hhit
    unfold Free at hfree
    rw [onward_hit hline] at hfree
    cases hfree
  · intro hnot
    have hpass : outside p st line = false := by
      rw [Bool.eq_false_iff, Ne, outside_iff]
      exact hnot
    exact Scanning.onward_of_pass hpass []

theorem free_of_forall (h : ∀ l ∈ lines, p l = false) : Free p st lines := by
  induction lines generalizing st with
  | nil => rfl
  | cons line lines ih =>
    obtain ⟨hline, hlines⟩ := List.forall_mem_cons.mp h
    refine free_cons_iff.mpr ⟨?_, ih hlines⟩
    rintro ⟨-, hhit⟩
    rw [hline] at hhit
    cases hhit

theorem Free.mono {q : Text → Bool} (hpq : ∀ l, q l = true → p l = true) (h : Free p st lines) : Free q st lines := by
  refine Scanning.onward_mono ?_ h
  intro st' l hl
  obtain ⟨hnone, hq⟩ := outside_iff.mp hl
  exact outside_iff.mpr ⟨hnone, hpq l hq⟩

theorem Free.titles (h : Free boundary st lines) (x : Text) : Free (titles x) st lines :=
  h.mono fun _ hl => boundary_of_titles hl

/-- White space behind makes no title. -/
theorem Free.stripBack (h : Free boundary st lines) : Free boundary st (stripBack lines) := by
  induction lines generalizing st with
  | nil => exact h
  | cons line lines ih =>
    obtain ⟨hline, hlines⟩ := free_cons_iff.mp h
    have hrest := ih hlines
    rw [Text.stripBack]
    cases hback : Text.stripBack lines with
    | nil =>
      dsimp only
      split_ifs
      · exact rfl
      · refine free_cons_iff.mpr ⟨?_, rfl⟩
        rintro ⟨hnone, hbound⟩
        exact hline ⟨hnone, boundary_of_rstrip hbound⟩
    | cons l ls =>
      rw [hback] at hrest
      exact free_cons_iff.mpr ⟨hline, hrest⟩

/-- A section ends at the next title. -/
theorem before_append_boundary (hline : boundary line = true) (hst : fencesAfter st a = none) (b : List Text) :
    before boundary st (a ++ line :: b) = before boundary st a := by
  by_cases ha : Free boundary st a
  · rw [before_append_of_free ha, hst, before_hit hline, List.append_nil, before_of_free ha]
  · rw [before_append_of_hit ha]

/-- A section that begins in front of a title is the same whatever is behind the title. -/
theorem bodyOf_append_boundary (ha : ¬ Free (titles x.text) none a) (hst : fencesAfter none a = none)
    (hline : boundary line = true) (b : List Text) : bodyOf x.text none (a ++ line :: b) = bodyOf x.text none a := by
  obtain ⟨l, behind, hcons⟩ := List.exists_cons_of_ne_nil ha
  obtain ⟨hsplit, hfront, htitle⟩ := onward_eq_cons hcons
  have hbound := boundary_of_titles htitle
  have hbehind : fencesAfter none behind = none := by
    rw [hsplit, fencesAfter_append, hfront, fencesAfter_cons, fenceAfter_none,
      hashed_boundary.openFence hbound] at hst
    exact hst
  have hmore : onward (titles x.text) none (a ++ line :: b) = l :: (behind ++ line :: b) := by
    rw [onward_append_of_hit ha, hcons, List.cons_append]
  rw [bodyOf_cons hmore, bodyOf_cons hcons, before_append_boundary hline hbehind]

/-- An empty line at the end is no part of any section. -/
theorem bodyOf_snoc_nil (h : Text) (lines : List Text) :
    Text.SameLines (bodyOf h none (lines ++ [[]])) (bodyOf h none lines) := by
  have hnil : ∀ (q : Text → Bool) (st : Option Fence), Hashed q → onward q st [[]] = [] ∧ before q st [[]] = [[]] :=
    fun q st hq => onward_cons_nil hq st []
  by_cases hfree : Free (titles h) none lines
  · have hmore : onward (titles h) none (lines ++ [[]]) = [] := by
      rw [onward_append_of_free hfree]
      exact (hnil _ _ (hashed_titles h)).1
    rw [bodyOf_nil hmore, bodyOf_nil hfree]
    exact Text.SameLines.refl _
  · obtain ⟨l, behind, hcons⟩ := List.exists_cons_of_ne_nil hfree
    have hmore : onward (titles h) none (lines ++ [[]]) = l :: (behind ++ [[]]) := by
      rw [onward_append_of_hit hfree, hcons, List.cons_append]
    rw [bodyOf_cons hmore, bodyOf_cons hcons]
    by_cases hbehind : Free boundary none behind
    · rw [before_append_of_free hbehind, (hnil _ _ hashed_boundary).2, before_of_free hbehind]
      exact Text.sameLines_append behind 1
    · rw [before_append_of_hit hbehind]
      exact Text.SameLines.refl _

theorem bodyOf_append_replicate (h : Text) (lines : List Text) (k : Nat) :
    Text.SameLines (bodyOf h none (lines ++ List.replicate k [])) (bodyOf h none lines) := by
  induction k with
  | zero =>
    rw [List.replicate_zero, List.append_nil]
    exact Text.SameLines.refl _
  | succ k ih =>
    rw [List.replicate_succ', ← List.append_assoc]
    exact (bodyOf_snoc_nil h _).trans ih

/-! ## White space behind -/

/-- The first line that is not blank stays the first one. -/
theorem stripBack_cons_of_ne (hline : Text.rstrip line ≠ []) (behind : List Text) :
    ∃ l, stripBack (line :: behind) = l :: stripBack behind ∧
      (l = line ∨ l = Text.rstrip line ∧ stripBack behind = []) := by
  rw [Text.stripBack]
  cases hback : stripBack behind with
  | nil =>
    dsimp only
    rw [if_neg hline]
    exact ⟨_, rfl, .inr ⟨rfl, rfl⟩⟩
  | cons l ls => exact ⟨_, rfl, .inl rfl⟩

theorem rstrip_ne_nil_of_boundary (hline : boundary line = true) : Text.rstrip line ≠ [] := by
  rcases boundary_rstrip hline with hbound | hmarks
  · obtain ⟨rest, hrest⟩ := hashed_boundary _ hbound
    rw [hrest]
    exact List.cons_ne_nil _ _
  · rw [hmarks]
    exact List.cons_ne_nil _ _

/-- The next title is lost with the white space behind it. -/
def Swallowed (x : Heading) (lines : List Text) : Prop := stripBack (behindOf x.text none lines) = [marks]

/-- A section up to a rest that begins with a title. -/
theorem before_stripBack (hfree : Free boundary st a) (hb : ∀ l ∈ b.head?, boundary l = true)
    (hst : b ≠ [] → fencesAfter st a = none) :
    before boundary st (a ++ stripBack b) = if stripBack b = [marks] then a ++ [marks] else a := by
  cases b with
  | nil =>
    show before boundary st (a ++ []) = a
    rw [List.append_nil, before_of_free hfree]
  | cons line behind =>
    have hline : boundary line = true := hb line rfl
    have hopen := hst (List.cons_ne_nil _ _)
    have hplain : boundary marks = false := by decide
    obtain ⟨l, hback, hl⟩ := stripBack_cons_of_ne (rstrip_ne_nil_of_boundary hline) behind
    have hcases : boundary l = true ∨ l = marks ∧ stripBack behind = [] := by
      rcases hl with rfl | ⟨rfl, hnil⟩
      · exact .inl hline
      · rcases boundary_rstrip hline with hbound | hmarks
        · exact .inl hbound
        · exact .inr ⟨hmarks, hnil⟩
    rw [hback]
    rcases hcases with hbound | ⟨rfl, hnil⟩
    · rw [before_append_boundary hbound hopen, before_of_free hfree, if_neg]
      intro heq
      obtain ⟨rfl, -⟩ := List.cons_eq_cons.mp heq
      rw [hplain] at hbound
      cases hbound
    · rw [hnil, if_pos rfl]
      refine before_of_free (free_append_iff.mpr ⟨hfree, free_cons_iff.mpr ⟨?_, rfl⟩⟩)
      rintro ⟨-, hbound⟩
      rw [hplain] at hbound
      cases hbound

theorem boundary_head_behindOf (h : Text) (lines : List Text) :
    ∀ l ∈ (behindOf h none lines).head?, boundary l = true := by
  intro l hl
  cases honward : onward (titles h) none lines with
  | nil =>
    rw [behindOf_nil honward] at hl
    cases hl
  | cons line behind =>
    rw [behindOf_cons honward] at hl
    cases hnext : onward boundary none behind with
    | nil =>
      rw [hnext] at hl
      cases hl
    | cons l' behind' =>
      rw [hnext] at hl
      cases hl
      exact (onward_eq_cons hnext).2.2

/-- The marks are more than what was there. -/
theorem strip_snoc_marks_ne (lines : List Text) :
    Text.strip (unlines (lines ++ [marks])) ≠ Text.strip (unlines lines) := by
  intro heq
  have hink := congrArg Text.ink heq
  rw [Text.ink_strip, Text.ink_strip, Text.ink_unlines, Text.ink_unlines, List.map_append, List.sum_append] at hink
  have hmarks : ([marks].map Text.ink).sum = 2 := by decide
  omega

/-- A section that ends at a title is less than the lines that go on with it. -/
theorem strip_before_ne (hends : ¬ Free boundary st lines) :
    Text.strip (unlines (before boundary st lines)) ≠ Text.strip (unlines lines) := by
  intro heq
  obtain ⟨line, behind, hcons⟩ := List.exists_cons_of_ne_nil hends
  obtain ⟨hsplit, -, hline⟩ := onward_eq_cons hcons
  obtain ⟨c, rest, -, rfl⟩ := boundary_iff.mp hline
  have hink := congrArg Text.ink heq
  rw [Text.ink_strip, Text.ink_strip, Text.ink_unlines, Text.ink_unlines] at hink
  conv_rhs at hink => rw [hsplit]
  have hmarks : Text.ink ('#' :: '#' :: c :: rest) = 2 + Text.ink (c :: rest) := Text.ink_append ['#', '#'] _
  rw [List.map_append, List.sum_append, List.map_cons, List.sum_cons, hmarks] at hink
  omega

theorem strip_before_stripBack (hfree : Free boundary st a) (hb : ∀ l ∈ b.head?, boundary l = true)
    (hst : b ≠ [] → fencesAfter st a = none) :
    Text.strip (unlines (before boundary st (a ++ stripBack b))) = Text.strip (unlines a) ↔
      stripBack b ≠ [marks] := by
  rw [before_stripBack hfree hb hst]
  split_ifs with hmarks
  · exact iff_of_false (strip_snoc_marks_ne a) (not_not_intro hmarks)
  · exact iff_of_true rfl hmarks

/-! ## The parts of a text -/

/-- The parts of a text that has the section. -/
theorem parts_of_section (hcons : onward (titles h.text) none lines = line :: behind) :
    lines = before (titles h.text) none lines ++
        line :: (bodyOf h.text none lines ++ behindOf h.text none lines) ∧
      Free boundary none (bodyOf h.text none lines) ∧
      (behindOf h.text none lines ≠ [] → fencesAfter none (bodyOf h.text none lines) = none) := by
  obtain ⟨hsplit, -, -⟩ := onward_eq_cons hcons
  rw [bodyOf_cons hcons, behindOf_cons hcons]
  refine ⟨?_, free_before boundary none behind, ?_⟩
  · rw [before_append_onward]
    exact hsplit
  · intro hne
    obtain ⟨l, ls, hnext⟩ := List.exists_cons_of_ne_nil hne
    exact (onward_eq_cons hnext).2.1

theorem frontOf_of_hit (hcons : onward (titles h.text) none lines = line :: behind) :
    frontOf h.text lines = stripFront (before (titles h.text) none lines) := by
  unfold frontOf
  rw [hcons, if_neg (List.cons_ne_nil _ _)]

theorem frontOf_of_free (hfree : Free (titles h.text) none lines) :
    frontOf h.text lines = if stripLines lines = [] then [] else stripLines lines ++ [[]] := by
  have hnil : onward (titles h.text) none lines = [] := hfree
  unfold frontOf
  rw [if_pos hnil]

/-- The text without the white space around it, cut where the section begins. -/
theorem stripLines_of_hit (hls : AreLines lines) (hcons : onward (titles h.text) none lines = line :: behind) :
    ∃ l, stripLines lines = frontOf h.text lines ++
        l :: stripBack (bodyOf h.text none lines ++ behindOf h.text none lines) ∧
      titles h.text l = true ∧ '\n' ∉ l := by
  obtain ⟨hparts, -, -⟩ := parts_of_section hcons
  obtain ⟨hsplit, -, htitle⟩ := onward_eq_cons hcons
  obtain ⟨hline, -⟩ := Text.areLines_cons (hsplit ▸ hls).right
  have hbound := boundary_of_titles htitle
  have hne := rstrip_ne_nil_of_boundary hbound
  obtain ⟨l, hback, hl⟩ := stripBack_cons_of_ne hne (bodyOf h.text none lines ++ behindOf h.text none lines)
  have hfront : stripFront lines = frontOf h.text lines ++
      line :: (bodyOf h.text none lines ++ behindOf h.text none lines) := by
    rw [frontOf_of_hit hcons]
    conv_lhs => rw [hparts]
    refine stripFront_append_line (hashed_boundary.lstrip hbound) ?_ _ _
    rintro rfl
    exact hne rfl
  refine ⟨l, ?_, ?_⟩
  · unfold stripLines
    rw [hfront, stripBack_append_line hne, hback]
  · rcases hl with rfl | ⟨rfl, -⟩
    · exact ⟨htitle, hline⟩
    · exact ⟨titles_rstrip hline htitle, fun hmem => hline (Text.mem_rstrip hmem)⟩

theorem fencesAfter_snoc_nil (st : Option Fence) (lines : List Text) :
    fencesAfter st (lines ++ [[]]) = fencesAfter st lines := by
  rw [fencesAfter_append]
  exact fenceAfter_of_blank rfl _

/-- In front of the section that is written all fences are closed. -/
theorem fencesAfter_frontOf (h : Heading) (hlines : fencesAfter none lines = none) :
    fencesAfter none (frontOf h.text lines) = none := by
  cases honward : onward (titles h.text) none lines with
  | nil =>
    rw [frontOf_of_free honward]
    split_ifs
    · rfl
    · rw [fencesAfter_snoc_nil]
      unfold stripLines
      rw [fencesAfter_stripBack, fencesAfter_stripFront, hlines]
  | cons line behind =>
    rw [frontOf_of_hit honward, fencesAfter_stripFront]
    exact (onward_eq_cons honward).2.1

/-! ## Reading what was written -/

/-- The lines of the text that is written, but for empty ones at its end. -/
def rewritten (h content : Text) (lines : List Text) : List Text :=
  frontOf h lines ++ (written h content ++ [] :: stripBack (behindOf h none lines))

theorem areLines_frontOf (h : Text) (hls : AreLines lines) : AreLines (frontOf h lines) := by
  have hstrip : AreLines (stripLines lines) := hls.stripFront.stripBack
  have hbefore : AreLines (before (titles h) none lines) := by
    rw [← before_append_onward (titles h) none lines] at hls
    exact hls.left
  unfold frontOf
  split_ifs
  · exact fun _ hl => absurd hl List.not_mem_nil
  · exact AreLines.append hstrip (AreLines.cons (by simp) fun _ hl => absurd hl List.not_mem_nil)
  · exact hbefore.stripFront

theorem areLines_behindOf (h : Text) (hls : AreLines lines) : AreLines (behindOf h none lines) := by
  cases honward : onward (titles h) none lines with
  | nil =>
    rw [behindOf_nil honward]
    exact fun _ hl => absurd hl List.not_mem_nil
  | cons line behind =>
    obtain ⟨hsplit, -, -⟩ := onward_eq_cons honward
    have hbehind := (Text.areLines_cons (hsplit ▸ hls).right).2
    rw [behindOf_cons honward]
    rw [← before_append_onward boundary none behind] at hbehind
    exact hbehind.right

theorem areLines_bodyOf (h : Text) (hls : AreLines lines) : AreLines (bodyOf h none lines) := by
  cases honward : onward (titles h) none lines with
  | nil =>
    rw [bodyOf_nil honward]
    exact fun _ hl => absurd hl List.not_mem_nil
  | cons line behind =>
    obtain ⟨hsplit, -, -⟩ := onward_eq_cons honward
    have hbehind := (Text.areLines_cons (hsplit ▸ hls).right).2
    rw [bodyOf_cons honward]
    rw [← before_append_onward boundary none behind] at hbehind
    exact hbehind.left

/-- A text without white space around it has lines without white space behind them. -/
theorem stripBack_splitOn_strip (hne : Text.strip text ≠ []) :
    stripBack ((Text.strip text).splitOn '\n') = (Text.strip text).splitOn '\n' := by
  have hlines := Text.areLines_splitOn (Text.strip text)
  have hsame : unlines (stripBack ((Text.strip text).splitOn '\n')) = unlines ((Text.strip text).splitOn '\n') := by
    rw [← Text.rstrip_unlines, Text.unlines_splitOn, Text.rstrip_strip]
  refine Text.unlines_injective ?_ (List.splitOn_ne_nil '\n' _) hlines.stripBack hlines hsame
  intro hnil
  rw [hnil, Text.unlines_splitOn] at hsame
  exact hne hsame.symm

/-- White space behind the lines that are written is that of an empty content. -/
theorem stripBack_written (h : Heading) (content : Text) :
    ∃ k, written h.text content = stripBack (written h.text content) ++ List.replicate k [] := by
  have hline := rstrip_headLine h
  have hne : Text.rstrip (headLine h.text) ≠ [] := by
    rw [hline]
    exact headLine_ne_nil h.text
  obtain ⟨l, hback, hl⟩ := stripBack_cons_of_ne hne ([] :: (Text.strip content).splitOn '\n')
  have hl' : l = headLine h.text := by
    rcases hl with rfl | ⟨rfl, -⟩
    · rfl
    · exact hline
  subst hl'
  unfold written
  rw [hback]
  by_cases hnil : Text.strip content = []
  · refine ⟨2, ?_⟩
    rw [hnil]
    rfl
  · have hkept := stripBack_splitOn_strip hnil
    have hmore : stripBack ([] :: (Text.strip content).splitOn '\n') = [] :: (Text.strip content).splitOn '\n' := by
      have hcons : stripBack ([[]] ++ (Text.strip content).splitOn '\n') =
          [[]] ++ stripBack ((Text.strip content).splitOn '\n') :=
        Text.stripBack_append (by rw [hkept]; exact List.splitOn_ne_nil '\n' _) [[]]
      rw [hkept] at hcons
      exact hcons
    refine ⟨0, ?_⟩
    rw [hmore, List.replicate_zero, List.append_nil]

theorem splitOn_ended (hls : AreLines lines) : (ended lines).splitOn '\n' = lines ++ [[]] := by
  rw [← Text.unlines_snoc_nil]
  refine Text.splitOn_unlines (by simp) (AreLines.append hls ?_)
  exact AreLines.cons (by simp) fun _ hl => absurd hl List.not_mem_nil

/-- The section is read on the lines that were written. -/
theorem bodyOf_upsert (x h : Heading) (text content : Text) :
    Text.SameLines (bodyOf x.text none ((upsertSection text h.text content).splitOn '\n'))
      (bodyOf x.text none (rewritten h.text content (text.splitOn '\n'))) := by
  have hls := Text.areLines_splitOn text
  have hlines : AreLines (frontOf h.text (text.splitOn '\n') ++
      stripBack (written h.text content ++ [] :: behindOf h.text none (text.splitOn '\n'))) := by
    refine AreLines.append (areLines_frontOf h.text hls) (AreLines.append (areLines_written h content) ?_).stripBack
    exact AreLines.cons (by simp) (areLines_behindOf h.text hls)
  rw [upsertSection_eq, splitOn_ended hlines]
  refine (bodyOf_snoc_nil x.text _).trans ?_
  unfold rewritten
  by_cases hnil : stripBack (behindOf h.text none (text.splitOn '\n')) = []
  · have hblank : stripBack ([] :: behindOf h.text none (text.splitOn '\n')) = [] := by
      rw [Text.stripBack, hnil]
      rfl
    obtain ⟨k, hk⟩ := stripBack_written h content
    have hall : frontOf h.text (text.splitOn '\n') ++ (written h.text content ++ [[]]) =
        (frontOf h.text (text.splitOn '\n') ++ stripBack (written h.text content)) ++
          List.replicate (k + 1) [] := by
      conv_lhs => rw [hk]
      rw [List.replicate_succ', List.append_assoc, List.append_assoc]
    rw [Text.stripBack_append_of_eq_nil hblank, hnil, hall]
    exact (bodyOf_append_replicate x.text _ _).symm
  · have hcons : stripBack ([] :: behindOf h.text none (text.splitOn '\n')) =
        [] :: stripBack (behindOf h.text none (text.splitOn '\n')) := Text.stripBack_append hnil [[]]
    rw [Text.stripBack_append (by rw [hcons]; exact List.cons_ne_nil _ _), hcons]
    exact Text.SameLines.refl _

theorem extractSection_upsert (x h : Heading) (text content : Text) :
    extractSection (upsertSection text h.text content) x.text false =
      sectionOf x.text (rewritten h.text content (text.splitOn '\n')) := by
  rw [extractSection_eq x.oneLine]
  exact (bodyOf_upsert x h text content).strip_unlines

/-- Without the white space around the text, a line in front of the first title of the section is a title of it
too. -/
def Moved (x : Heading) (lines : List Text) : Prop := ¬ Free (titles x.text) none (frontOf x.text lines)

/-- The empty lines around a content. -/
theorem fencesAfter_around (lines : List Text) : fencesAfter none ([] :: lines ++ [[]]) = fencesAfter none lines := by
  rw [fencesAfter_snoc_nil, fencesAfter_cons, fenceAfter_of_blank rfl]

theorem free_around (lines : List Text) : Free boundary none ([] :: lines ++ [[]]) ↔ Free boundary none lines := by
  have hcons := (onward_cons_nil hashed_boundary none lines).1
  rw [free_append_iff]
  unfold Free
  rw [hcons]
  exact and_iff_left (onward_cons_nil hashed_boundary _ []).1

section Written

variable (hls : AreLines lines) (hlines : fencesAfter none lines = none)

include hls hlines

/-- A section that begins in front of the one that is written is the one of the text without the white space
around it. -/
theorem bodyOf_in_front (hx : ¬ Free (titles x.text) none (frontOf h.text lines)) :
    Text.SameLines (bodyOf x.text none (rewritten h.text content lines)) (bodyOf x.text none (stripLines lines)) := by
  have hclosed := fencesAfter_frontOf h hlines
  have hwritten : bodyOf x.text none (rewritten h.text content lines) = bodyOf x.text none (frontOf h.text lines) :=
    bodyOf_append_boundary hx hclosed (boundary_headLine h) _
  rw [hwritten]
  cases honward : onward (titles h.text) none lines with
  | nil =>
    rw [frontOf_of_free honward]
    split_ifs with hnil
    · rw [hnil]
      exact Text.SameLines.refl _
    · exact bodyOf_snoc_nil x.text _
  | cons line behind =>
    obtain ⟨l, hstrip, htitle, -⟩ := stripLines_of_hit hls honward
    rw [hstrip, bodyOf_append_boundary hx hclosed (boundary_of_titles htitle)]
    exact Text.SameLines.refl _

theorem sectionOf_in_front (hx : ¬ Free (titles x.text) none (frontOf h.text lines)) :
    sectionOf x.text (rewritten h.text content lines) = sectionOf x.text (stripLines lines) :=
  (bodyOf_in_front hls hlines hx).strip_unlines

/-- A section that begins nowhere in front is read behind the one of the heading, where it has one. -/
theorem sectionOf_stripLines_behind (hne : x ≠ h) (hx : Free (titles x.text) none (frontOf h.text lines)) :
    sectionOf x.text (stripLines lines) = sectionOf x.text (stripBack (behindOf h.text none lines)) := by
  have hclosed := fencesAfter_frontOf h hlines
  unfold sectionOf
  congr 2
  cases honward : onward (titles h.text) none lines with
  | nil =>
    have hstrip : Free (titles x.text) none (stripLines lines) := by
      rw [frontOf_of_free honward] at hx
      split_ifs at hx with hnil
      · rw [hnil]
        exact hx
      · exact (free_append_iff.mp hx).1
    rw [behindOf_nil honward]
    exact bodyOf_nil hstrip
  | cons line behind =>
    obtain ⟨l, hstrip, htitle, hline⟩ := stripLines_of_hit hls honward
    obtain ⟨-, hbody, hopen⟩ := parts_of_section honward
    have hbound := boundary_of_titles htitle
    have hl : ∀ ls, Free (titles x.text) none ls → Free (titles x.text) none (l :: ls) := by
      intro ls hfree
      refine free_cons_iff.mpr ⟨?_, ?_⟩
      · rintro ⟨-, hx'⟩
        exact hne (titles_unique hline hx' htitle)
      · rw [fenceAfter_none, hashed_boundary.openFence hbound]
        exact hfree
    refine bodyOf_congr ?_
    rw [hstrip, onward_append_of_free hx, hclosed]
    by_cases hbehind : behindOf h.text none lines = []
    · rw [hbehind, List.append_nil]
      exact hl _ (hbody.stripBack.titles x.text)
    · obtain ⟨next, ls, hcons⟩ := List.exists_cons_of_ne_nil hbehind
      have hbound' := boundary_head_behindOf h.text lines next (by rw [hcons]; rfl)
      rw [hcons, stripBack_append_line (rstrip_ne_nil_of_boundary hbound'), ← List.cons_append,
        onward_append_of_free (hl _ (hbody.titles x.text)), fencesAfter_cons, fenceAfter_none,
        hashed_boundary.openFence hbound, hopen hbehind]

/-- Without a moved title the section is the same in the text without the white space around it, unless the
title behind it is swallowed. -/
theorem sectionOf_stripLines_iff (hx : ¬ Moved x lines) :
    sectionOf x.text (stripLines lines) = sectionOf x.text lines ↔ ¬ Swallowed x lines := by
  have hfree : Free (titles x.text) none (frontOf x.text lines) := not_not.mp hx
  have hclosed := fencesAfter_frontOf x hlines
  cases honward : onward (titles x.text) none lines with
  | nil =>
    have hstrip : Free (titles x.text) none (stripLines lines) := by
      rw [frontOf_of_free honward] at hfree
      split_ifs at hfree with hnil
      · rw [hnil]
        exact hfree
      · exact (free_append_iff.mp hfree).1
    have hsame : sectionOf x.text (stripLines lines) = sectionOf x.text lines := by
      unfold sectionOf
      rw [bodyOf_nil honward, bodyOf_nil hstrip]
    refine iff_of_true hsame ?_
    unfold Swallowed
    rw [behindOf_nil honward]
    simp [stripBack]
  | cons line behind =>
    obtain ⟨l, hstrip, htitle, -⟩ := stripLines_of_hit hls honward
    obtain ⟨-, hbody, hopen⟩ := parts_of_section honward
    have hstripped : onward (titles x.text) none (stripLines lines) =
        l :: stripBack (bodyOf x.text none lines ++ behindOf x.text none lines) := by
      rw [hstrip, onward_append_of_free hfree, hclosed, onward_hit htitle]
    have hleft : sectionOf x.text (stripLines lines) = Text.strip (unlines (before boundary none
        (stripBack (bodyOf x.text none lines ++ behindOf x.text none lines)))) := by
      unfold sectionOf
      rw [bodyOf_cons hstripped]
    have hright : sectionOf x.text lines = Text.strip (unlines (bodyOf x.text none lines)) := rfl
    rw [hleft, hright]
    by_cases hbehind : behindOf x.text none lines = []
    · -- the section goes on to the end of the text
      have hkept : ¬ Swallowed x lines := by
        unfold Swallowed
        rw [hbehind]
        simp [stripBack]
      refine iff_of_true ?_ hkept
      rw [hbehind, List.append_nil, before_of_free hbody.stripBack, ← Text.rstrip_unlines, Text.strip_rstrip]
    · obtain ⟨next, ls, hcons⟩ := List.exists_cons_of_ne_nil hbehind
      have hbound := boundary_head_behindOf x.text lines next (by rw [hcons]; rfl)
      have hback : stripBack (bodyOf x.text none lines ++ behindOf x.text none lines) =
          bodyOf x.text none lines ++ stripBack (behindOf x.text none lines) := by
        rw [hcons]
        exact stripBack_append_line (rstrip_ne_nil_of_boundary hbound) _ _
      rw [hback]
      exact strip_before_stripBack hbody (boundary_head_behindOf x.text lines) hopen

omit hls in
/-- Any other section that begins nowhere in front is read from the content on. -/
theorem sectionOf_below (hne : x ≠ h) (hx : Free (titles x.text) none (frontOf h.text lines)) :
    sectionOf x.text (rewritten h.text content lines) = sectionOf x.text
      ((Text.strip content).splitOn '\n' ++ [] :: stripBack (behindOf h.text none lines)) := by
  have htitle : ¬ titles x.text (headLine h.text) = true := fun hx' =>
    hne (titles_unique (newline_notMem_headLine h) hx' (titles_headLine h))
  have hlist : rewritten h.text content lines = frontOf h.text lines ++ ([headLine h.text] ++
      ([] :: ((Text.strip content).splitOn '\n' ++ [] :: stripBack (behindOf h.text none lines)))) := by
    unfold rewritten written
    simp
  have hhead : Free (titles x.text) none [headLine h.text] :=
    free_cons_iff.mpr ⟨fun hhit => htitle hhit.2, rfl⟩
  unfold sectionOf
  congr 2
  refine bodyOf_congr ?_
  rw [hlist, onward_append_of_free hx, fencesAfter_frontOf h hlines, onward_append_of_free hhead,
    fencesAfter_cons, fenceAfter_none, hashed_boundary.openFence (boundary_headLine h),
    (onward_cons_nil (hashed_titles x.text) _ _).1]
  rfl

omit hls in
/-- Without a moved title the section begins where it is written. -/
theorem onward_rewritten (content : Text) (hh : ¬ Moved h lines) :
    onward (titles h.text) none (rewritten h.text content lines) = headLine h.text ::
      ([] :: (Text.strip content).splitOn '\n' ++ [[]] ++ stripBack (behindOf h.text none lines)) := by
  have hfront : Free (titles h.text) none (frontOf h.text lines) := not_not.mp hh
  have hlist : rewritten h.text content lines = frontOf h.text lines ++ headLine h.text ::
      ([] :: (Text.strip content).splitOn '\n' ++ [[]] ++ stripBack (behindOf h.text none lines)) := by
    unfold rewritten written
    simp
  rw [hlist, onward_append_of_free hfront, fencesAfter_frontOf h hlines, onward_hit (titles_headLine h)]

variable (hcontent : fencesAfter none ((Text.strip content).splitOn '\n') = none)

include hcontent

omit hls in
/-- The lines of a section without a title in its content. -/
theorem bodyOf_written (hh : ¬ Moved h lines) (hplain : Free boundary none ((Text.strip content).splitOn '\n')) :
    bodyOf h.text none (rewritten h.text content lines) =
      if stripBack (behindOf h.text none lines) = [marks] then
        [] :: (Text.strip content).splitOn '\n' ++ [[]] ++ [marks]
      else [] :: (Text.strip content).splitOn '\n' ++ [[]] := by
  have hclosed := fencesAfter_around ((Text.strip content).splitOn '\n')
  rw [hcontent] at hclosed
  rw [bodyOf_cons (onward_rewritten hlines content hh)]
  exact before_stripBack ((free_around _).mpr hplain) (boundary_head_behindOf h.text lines) fun _ => hclosed

/-- A section that neither begins in front nor in the content is the one of the text without the white space
around it. -/
theorem sectionOf_rewritten (hne : x ≠ h) (hx : Free (titles x.text) none (frontOf h.text lines))
    (hc : Free (titles x.text) none ((Text.strip content).splitOn '\n')) :
    sectionOf x.text (rewritten h.text content lines) = sectionOf x.text (stripLines lines) := by
  rw [sectionOf_below hlines hne hx, sectionOf_stripLines_behind hls hlines hne hx]
  unfold sectionOf
  congr 2
  refine bodyOf_congr ?_
  rw [onward_append_of_free hc, hcontent, (onward_cons_nil (hashed_titles x.text) none _).1]

omit hls in
/-- The section that is written, where no title was moved in front of it. -/
theorem sectionOf_written_iff (hh : ¬ Moved h lines) :
    sectionOf h.text (rewritten h.text content lines) = Text.strip content ↔
      Free boundary none ((Text.strip content).splitOn '\n') ∧ ¬ Swallowed h lines := by
  have honward := onward_rewritten hlines content hh
  have hread : Text.strip (unlines ([] :: (Text.strip content).splitOn '\n' ++ [[]])) = Text.strip content := by
    rw [Text.strip_unlines_snoc_nil, Text.strip_unlines_nil_cons, Text.unlines_splitOn, Text.strip_strip]
  have hclosed := fencesAfter_around ((Text.strip content).splitOn '\n')
  rw [hcontent] at hclosed
  have hfree := free_around ((Text.strip content).splitOn '\n')
  unfold sectionOf
  rw [bodyOf_cons honward]
  by_cases hplain : Free boundary none ((Text.strip content).splitOn '\n')
  · have hiff := strip_before_stripBack (hfree.mpr hplain) (boundary_head_behindOf h.text lines) fun _ => hclosed
    rw [hread] at hiff
    rw [and_iff_right hplain]
    exact hiff
  · -- the section ends at a title in the content
    have hends := mt hfree.mp hplain
    refine iff_of_false ?_ fun hboth => hplain hboth.1
    have hne := strip_before_ne hends
    rw [hread] at hne
    rw [before_append_of_hit hends]
    exact hne

end Written

/-! ## The claim of a put and a get -/

/-- The content begins a section of its own, and nothing in front of it does. -/
def Brought (x h : Heading) (content : Text) (lines : List Text) : Prop :=
  Free (titles x.text) none (frontOf h.text lines) ∧ ¬ Free (titles x.text) none ((Text.strip content).splitOn '\n')

/-- The section that is written reads as its content. -/
structure OwnKept (h : Heading) (content : Text) (lines : List Text) : Prop where
  /-- A line that was moved in front of it begins a section with the same content. -/
  moved : Moved h lines → sectionOf h.text (stripLines lines) = Text.strip content
  /-- Without such a line the content has no title, and none is swallowed behind it. -/
  plain : ¬ Moved h lines → Free boundary none ((Text.strip content).splitOn '\n') ∧ ¬ Swallowed h lines

/-- Another section reads as it did. -/
structure OtherKept (x h : Heading) (content : Text) (lines : List Text) : Prop where
  /-- A section that the content begins reads as the one that was there. -/
  brought : Brought x h content lines → sectionOf x.text
    ((Text.strip content).splitOn '\n' ++ [] :: stripBack (behindOf h.text none lines)) = sectionOf x.text lines
  /-- A line that was moved in front of the section begins one that reads as that. -/
  moved : ¬ Brought x h content lines → Moved x lines →
    sectionOf x.text (stripLines lines) = sectionOf x.text lines
  /-- No title behind the section is swallowed. -/
  plain : ¬ Brought x h content lines → ¬ Moved x lines → ¬ Swallowed x lines

/-- White space around a text neither opens nor closes a fence. -/
theorem fencesAfter_strip (text : Text) :
    fencesAfter none ((Text.strip text).splitOn '\n') = fencesAfter none (text.splitOn '\n') := by
  have hstrip : fencesAfter none (stripLines (text.splitOn '\n')) = fencesAfter none (text.splitOn '\n') := by
    unfold stripLines
    rw [fencesAfter_stripBack, fencesAfter_stripFront]
  rw [Text.splitOn_strip]
  split_ifs with hnil
  · rw [← hstrip, hnil]
    rfl
  · exact hstrip

/-- The heading of the closing decision. -/
def issueHeading : Heading where
  text := "Issue".toList
  oneLine := by decide
  stripped := by decide
  ne := by decide

section Kept

variable (htext : fencesAfter none (text.splitOn '\n') = none)
  (hcontent : fencesAfter none (content.splitOn '\n') = none)

include htext hcontent

theorem extractSection_own_iff (h : Heading) :
    extractSection (upsertSection text h.text content) h.text false = Text.strip content ↔
      OwnKept h content (text.splitOn '\n') := by
  have hls := Text.areLines_splitOn text
  rw [← fencesAfter_strip] at hcontent
  rw [extractSection_upsert]
  by_cases hh : Moved h (text.splitOn '\n')
  · rw [sectionOf_in_front hls htext hh]
    exact ⟨fun heq => ⟨fun _ => heq, fun hnot => absurd hh hnot⟩, fun hown => hown.moved hh⟩
  · rw [sectionOf_written_iff htext hcontent hh]
    exact ⟨fun hboth => ⟨fun hyes => absurd hyes hh, fun _ => hboth⟩, fun hown => hown.plain hh⟩

theorem extractSection_other_iff (hne : x ≠ h) :
    extractSection (upsertSection text h.text content) x.text false = extractSection text x.text false ↔
      OtherKept x h content (text.splitOn '\n') := by
  have hls := Text.areLines_splitOn text
  rw [← fencesAfter_strip] at hcontent
  rw [extractSection_upsert, extractSection_eq x.oneLine]
  by_cases hb : Brought x h content (text.splitOn '\n')
  · rw [sectionOf_below htext hne hb.1]
    exact ⟨fun heq => ⟨fun _ => heq, fun hnot => absurd hb hnot, fun hnot => absurd hb hnot⟩,
      fun hkept => hkept.brought hb⟩
  · have hstay : sectionOf x.text (rewritten h.text content (text.splitOn '\n')) =
        sectionOf x.text (stripLines (text.splitOn '\n')) := by
      by_cases hx : Free (titles x.text) none (frontOf h.text (text.splitOn '\n'))
      · exact sectionOf_rewritten hls htext hcontent hne hx (not_not.mp fun hc => hb ⟨hx, hc⟩)
      · exact sectionOf_in_front hls htext hx
    rw [hstay]
    by_cases hx : Moved x (text.splitOn '\n')
    · exact ⟨fun heq => ⟨fun hyes => absurd hyes hb, fun _ _ => heq, fun _ hnot => absurd hx hnot⟩,
        fun hkept => hkept.moved hb hx⟩
    · rw [sectionOf_stripLines_iff hls htext hx]
      exact ⟨fun hswallow => ⟨fun hyes => absurd hyes hb, fun _ hyes => absurd hyes hx, fun _ _ => hswallow⟩,
        fun hkept => hkept.plain hb hx⟩

end Kept

theorem put_get_iff (h : Heading) (text content : Text) (htext : fencesAfter none (text.splitOn '\n') = none)
    (hcontent : fencesAfter none (content.splitOn '\n') = none) :
    (extractSection (upsertSection text h.text content) h.text false = Text.strip content ∧
        ∀ x : Heading, x ≠ h → extractSection (upsertSection text h.text content) x.text false =
          extractSection text x.text false) ↔
      OwnKept h content (text.splitOn '\n') ∧ ∀ x, x ≠ h → OtherKept x h content (text.splitOn '\n') := by
  rw [extractSection_own_iff htext hcontent]
  refine and_congr_right fun _ => forall_congr' fun x => ?_
  exact forall_congr' fun hne => extractSection_other_iff htext hcontent hne

theorem put_get_at_issue :
    (extractSection (upsertSection "## Summary\nText".toList issueHeading.text "Part of #1".toList)
          issueHeading.text false = Text.strip "Part of #1".toList ∧
        ∀ x : Heading, x ≠ issueHeading →
          extractSection (upsertSection "## Summary\nText".toList issueHeading.text "Part of #1".toList)
              x.text false = extractSection "## Summary\nText".toList x.text false) ↔
      OwnKept issueHeading "Part of #1".toList ("## Summary\nText".toList.splitOn '\n') ∧
        ∀ x, x ≠ issueHeading →
          OtherKept x issueHeading "Part of #1".toList ("## Summary\nText".toList.splitOn '\n') :=
  put_get_iff issueHeading "## Summary\nText".toList "Part of #1".toList (by decide +kernel) (by decide +kernel)

/-- The last line is a title without a text. -/
theorem swallows_title :
    ¬ ∀ (h : Heading) (text content : Text), fencesAfter none (text.splitOn '\n') = none →
      fencesAfter none (content.splitOn '\n') = none → Free boundary none (content.splitOn '\n') →
      extractSection (upsertSection text h.text content) h.text false = Text.strip content ∧
        ∀ x : Heading, x ≠ h → extractSection (upsertSection text h.text content) x.text false =
          extractSection text x.text false := by
  intro hclaim
  have hput := (hclaim issueHeading "## Issue\nCloses #1\n## ".toList "Part of #1".toList (by decide +kernel)
    (by decide +kernel) (by unfold Free; decide +kernel)).1
  exact absurd hput (by decide +kernel)

end Utils.Markdown
