import SovaVerified.Utils.Proofs.SectionProofs

/-!
# Sections that are written, line by line

`upsert_section` writes the title, a blank line and the content. In front of them stands what was above the
first title of the section, or the whole text, and behind them what began with the next title. White space is
taken away around the whole.
-/

namespace Utils.Markdown

open Text (unlines AreLines ended stripFront stripBack stripLines)

/-- The heading of a section: one line without white space around it. -/
@[ext]
structure Heading where
  text : Text
  oneLine : '\n' ∉ text
  stripped : Text.strip text = text
  ne : text ≠ []

variable {st : Option Fence} {p : Text → Bool} {line content text : Text} {lines a b behind : List Text}
  {x h : Heading}

/-! ## Titles -/

theorem isSpace_of_isTail {c : Char} (h : isTail c = true) : Text.isSpace c = true := by
  unfold isTail isBlank at h
  simp only [Bool.or_eq_true, beq_iff_eq] at h
  rcases h with (rfl | rfl) | rfl <;> decide

theorem isSpace_of_isBlank {c : Char} (h : isBlank c = true) : Text.isSpace c = true :=
  isSpace_of_isTail (by unfold isTail; rw [h]; rfl)

theorem Heading.rstrip_text (h : Heading) : Text.rstrip h.text = h.text := by
  have hstrip := Text.rstrip_strip h.text
  rwa [h.stripped] at hstrip

theorem Heading.head_text (h : Heading) : ∀ c ∈ h.text.head?, Text.isSpace c = false := by
  have hhead := Text.head_strip h.text
  rwa [h.stripped] at hhead

/-- Behind the heading white space is taken away, and no more. -/
theorem Heading.rstrip_append (h : Heading) (front : Text) {tail : Text}
    (htail : ∀ c ∈ tail, Text.isSpace c = true) : Text.rstrip (front ++ h.text ++ tail) = front ++ h.text := by
  rw [Text.rstrip_append, if_pos (Text.rstrip_eq_nil htail), Text.rstrip_append, h.rstrip_text, if_neg h.ne]

/-- A title line tells its heading. -/
theorem Heading.eq_of_titles (h : Heading) (hline : '\n' ∉ line) (htitle : titles h.text line = true) :
    Text.strip (line.drop 2) = h.text := by
  obtain ⟨blanks, tail, rfl, -, hblanks, htail⟩ := (titles_iff hline).mp htitle
  show Text.strip (blanks ++ h.text ++ tail) = h.text
  rw [Text.strip_append fun c hc => isSpace_of_isTail (htail c hc), Text.strip_eq,
    Text.lstrip_append (fun c hc => isSpace_of_isBlank (hblanks c hc)) h.head_text, h.rstrip_text]

theorem titles_unique (hline : '\n' ∉ line) (hx : titles x.text line = true) (hh : titles h.text line = true) :
    x = h := by
  ext1
  rw [← x.eq_of_titles hline hx, h.eq_of_titles hline hh]

theorem titles_rstrip (hline : '\n' ∉ line) (hx : titles x.text line = true) :
    titles x.text (Text.rstrip line) = true := by
  have hline' : '\n' ∉ Text.rstrip line := fun hmem => hline (Text.mem_rstrip hmem)
  obtain ⟨blanks, tail, rfl, hne, hblanks, htail⟩ := (titles_iff hline).mp hx
  have hstrip := x.rstrip_append ('#' :: '#' :: blanks) fun c hc => isSpace_of_isTail (htail c hc)
  rw [List.cons_append, List.cons_append, List.cons_append, List.cons_append] at hstrip
  refine (titles_iff hline').mpr ⟨blanks, [], ?_, hne, hblanks, by simp⟩
  rw [hstrip, List.append_nil]

theorem boundary_of_rstrip (hline : boundary (Text.rstrip line) = true) : boundary line = true := by
  obtain ⟨s, hs, -⟩ := Text.exists_rstrip line
  obtain ⟨c, rest, hc, hrest⟩ := boundary_iff.mp hline
  refine boundary_iff.mpr ⟨c, rest ++ s, hc, ?_⟩
  rw [hs, hrest]
  rfl

/-- The marks of a title whose text is blank. -/
def marks : Text := "##".toList

/-- A title of any section stays one when white space behind it is taken away, unless nothing but its marks is
left of it. -/
theorem boundary_rstrip (hline : boundary line = true) :
    boundary (Text.rstrip line) = true ∨ Text.rstrip line = marks := by
  obtain ⟨c, rest, hc, rfl⟩ := boundary_iff.mp hline
  have hsplit : '#' :: '#' :: c :: rest = ['#', '#'] ++ ([c] ++ rest) := rfl
  have hmarks : Text.rstrip ['#', '#'] = ['#', '#'] := by decide
  rw [hsplit, Text.rstrip_append, Text.rstrip_append]
  by_cases hrest : Text.rstrip rest = []
  · rw [if_pos hrest]
    have hblank : Text.rstrip [c] = [] := Text.rstrip_eq_nil (by simpa using isSpace_of_isBlank hc)
    rw [hblank, if_pos rfl, hmarks]
    exact .inr rfl
  · rw [if_neg hrest, if_neg (by simp)]
    exact .inl (boundary_iff.mpr ⟨c, Text.rstrip rest, hc, rfl⟩)

/-! ## The lines of a new section -/

/-- The title that is written. -/
def headLine (h : Text) : Text := "## ".toList ++ h

/-- The lines of `new_section`. -/
def written (h content : Text) : List Text := headLine h :: [] :: (Text.strip content).splitOn '\n'

theorem newline_notMem_headLine (h : Heading) : '\n' ∉ headLine h.text := by
  intro hmem
  rcases List.mem_append.mp hmem with hmem | hmem
  · exact absurd hmem (by decide)
  · exact h.oneLine hmem

theorem titles_headLine (h : Heading) : titles h.text (headLine h.text) = true := by
  refine (titles_iff (newline_notMem_headLine h)).mpr ⟨[' '], [], ?_, List.cons_ne_nil _ _,
    Text.forall_mem_of_all rfl, by simp⟩
  rw [List.append_nil]
  rfl

theorem boundary_headLine (h : Heading) : boundary (headLine h.text) = true :=
  boundary_of_titles (titles_headLine h)

theorem rstrip_headLine (h : Heading) : Text.rstrip (headLine h.text) = headLine h.text := by
  have hstrip := h.rstrip_append "## ".toList (List.forall_mem_nil _)
  rwa [List.append_nil] at hstrip

theorem lstrip_headLine (h : Heading) : Text.lstrip (headLine h.text) = headLine h.text :=
  hashed_boundary.lstrip (boundary_headLine h)

theorem headLine_ne_nil (h : Text) : headLine h ≠ [] := List.cons_ne_nil _ _

theorem areLines_written (h : Heading) (content : Text) : AreLines (written h.text content) :=
  AreLines.cons (newline_notMem_headLine h) (AreLines.cons (by simp) (Text.areLines_splitOn _))

theorem newSection_eq (h content : Text) : newSection h content = ended (written h content) := by
  unfold newSection written
  rw [Text.ended_cons, Text.ended_cons, Text.ended_eq (List.splitOn_ne_nil '\n' _), Text.unlines_splitOn]
  unfold headLine
  simp

/-- White space in front goes no further than to a line that has none in front of it. -/
theorem stripFront_append_line (hline : Text.lstrip line = line) (hne : line ≠ []) (a b : List Text) :
    stripFront (a ++ line :: b) = stripFront a ++ line :: b := by
  have hcons : stripFront (line :: b) = line :: b := by
    rw [Text.stripFront_cons_of_ne (by rwa [hline]), hline]
  by_cases ha : stripFront a = []
  · rw [Text.stripFront_append_of_eq_nil ha, hcons, ha, List.nil_append]
  · rw [Text.stripFront_append ha]

/-- White space behind goes no further than to a line that is not blank. -/
theorem stripBack_append_line (hne : Text.rstrip line ≠ []) (a b : List Text) :
    stripBack (a ++ line :: b) = a ++ stripBack (line :: b) := by
  refine Text.stripBack_append ?_ a
  intro hnil
  exact hne (Text.stripBack_eq_nil_iff.mp hnil line List.mem_cons_self)

/-- White space around a text with a new section in it. -/
theorem strip_written (h : Heading) (content : Text) (a b : List Text) :
    Text.strip (unlines (a ++ (written h.text content ++ b))) ++ ['\n'] =
      ended (stripFront a ++ stripBack (written h.text content ++ b)) := by
  have hline := lstrip_headLine h
  have hne : Text.rstrip (headLine h.text) ≠ [] := by
    rw [rstrip_headLine]
    exact headLine_ne_nil h.text
  unfold written
  rw [Text.strip_unlines, List.cons_append, stripFront_append_line hline (headLine_ne_nil h.text),
    stripBack_append_line hne, Text.ended_eq]
  rw [Ne, List.append_eq_nil_iff]
  rintro ⟨-, hnil⟩
  exact hne (Text.stripBack_eq_nil_iff.mp hnil _ List.mem_cons_self)

/-! ## The lines that are written -/

/-- What stands in front of the new section: without the white space at its beginning, the lines above the
first title of the section, or the whole text and a blank line. -/
def frontOf (h : Text) (lines : List Text) : List Text :=
  if onward (titles h) none lines = [] then
    if stripLines lines = [] then [] else stripLines lines ++ [[]]
  else stripFront (before (titles h) none lines)

theorem stripLines_eq_nil_iff (lines : List Text) : stripLines lines = [] ↔ Text.strip (unlines lines) = [] := by
  rw [← Text.unlines_stripLines]
  constructor
  · intro h
    rw [h]
    rfl
  · intro h
    cases hlines : stripLines lines with
    | nil => rfl
    | cons l ls =>
      rw [hlines] at h
      exact absurd h (Text.unlines_ne_nil_of_stripBack hlines)

/-- White space in front of a text with something behind it. -/
theorem strip_rstrip_append (hne : Text.strip text ≠ []) (t : Text) :
    Text.strip (Text.rstrip text ++ t) = Text.strip (Text.strip text ++ t) := by
  have hfront : Text.lstrip (Text.rstrip text) ≠ [] := by rwa [Text.lstrip_rstrip]
  have hidem : Text.lstrip (Text.strip text) = Text.strip text := Text.lstrip_of_head (Text.head_strip text)
  rw [Text.strip_eq (Text.rstrip text ++ t), Text.lstrip_append_of_ne hfront, Text.lstrip_rstrip,
    Text.strip_eq (Text.strip text ++ t), Text.lstrip_append_of_ne (by rwa [hidem]), hidem]

theorem rstrip_eq_nil_of_strip (h : Text.strip text = []) : Text.rstrip text = [] := by
  obtain ⟨s, hs, hspace⟩ := Text.rstrip_eq_append_strip text
  rw [h, List.append_nil] at hs
  have hall := Text.rstrip_eq_nil hspace
  rwa [← hs, Text.rstrip_rstrip] at hall

/-- A section that is not in the text is appended. -/
theorem append_written (h : Heading) (text content : Text) :
    Text.strip (Text.rstrip text ++ (if Text.strip text = [] then [] else "\n\n".toList) ++
        newSection h.text content) ++ ['\n'] =
      ended ((if stripLines (text.splitOn '\n') = [] then [] else stripLines (text.splitOn '\n') ++ [[]]) ++
        stripBack (written h.text content ++ [[]])) := by
  have hblank := stripLines_eq_nil_iff (text.splitOn '\n')
  rw [Text.unlines_splitOn] at hblank
  by_cases hnil : Text.strip text = []
  · rw [if_pos hnil, if_pos (hblank.mpr hnil), rstrip_eq_nil_of_strip hnil, newSection_eq,
      ← Text.unlines_snoc_nil]
    exact strip_written h content [] [[]]
  · rw [if_neg hnil, if_neg (mt hblank.mp hnil), List.append_assoc, strip_rstrip_append hnil, newSection_eq,
      ← Text.unlines_snoc_nil (written h.text content)]
    have hne : stripLines (text.splitOn '\n') ≠ [] := mt hblank.mp hnil
    have hlines : Text.strip text ++ ("\n\n".toList ++ unlines (written h.text content ++ [[]])) =
        unlines ((stripLines (text.splitOn '\n') ++ [[]]) ++ (written h.text content ++ [[]])) := by
      rw [Text.unlines_append (stripLines (text.splitOn '\n') ++ [[]]) (by simp), Text.ended_append,
        Text.ended_eq hne, Text.unlines_stripLines, Text.unlines_splitOn]
      simp [ended]
    have hfront : stripFront (stripLines (text.splitOn '\n') ++ [[]]) = stripLines (text.splitOn '\n') ++ [[]] := by
      have hidem := Text.stripFront_stripLines (text.splitOn '\n')
      rw [Text.stripFront_append (by rwa [hidem]), hidem]
    rw [hlines, strip_written, hfront]

/-- The search for the title, on the masked text. -/
theorem searchLineSpan_masked (h : Heading) (text : Text) :
    Regex.searchLineSpan (headingRe h.text false) (maskFencedBlocks text) =
      match onward (titles h.text) none (text.splitOn '\n') with
      | [] => none
      | line :: behind => some (unlines (maskLines none (line :: behind)), unlines (maskLines none ([] :: behind))) := by
  have hfirst := firstLine_masked h.oneLine text
  rw [Regex.searchLineSpan_eq (uses_headingRe_of_line h.oneLine), hfirst]
  cases honward : onward (titles h.text) none (text.splitOn '\n') with
  | nil => rfl
  | cons line behind =>
    obtain ⟨hsplit, -, htitle⟩ := onward_eq_cons honward
    obtain ⟨hline, -⟩ := Text.areLines_cons (hsplit ▸ Text.areLines_splitOn text).right
    have hmask := maskLines_title (boundary_of_titles htitle) behind
    dsimp only
    rw [if_neg (List.cons_ne_nil _ _), Option.map_some, hmask, Regex.dropWhile_unlines hline, maskLines_rest]

/-- Nothing is taken away from the front of a title. -/
theorem dropWhile_boundary (hline : boundary line = true) (behind : List Text) :
    (unlines (line :: behind)).dropWhile (· == '\n') = unlines (line :: behind) := by
  obtain ⟨rest, rfl⟩ := hashed_boundary line hline
  rw [Text.unlines_head, List.cons_append, List.dropWhile_cons_of_neg (by decide)]

/-- `upsert_section` on the lines of the text. -/
theorem upsertSection_eq (h : Heading) (text content : Text) :
    upsertSection text h.text content =
      ended (frontOf h.text (text.splitOn '\n') ++
        stripBack (written h.text content ++ [] :: behindOf h.text none (text.splitOn '\n'))) := by
  unfold upsertSection frontOf
  dsimp only
  rw [searchLineSpan_masked]
  cases honward : onward (titles h.text) none (text.splitOn '\n') with
  | nil =>
    rw [behindOf_nil honward, if_pos rfl]
    exact append_written h text content
  | cons line behind =>
    obtain ⟨hsplit, -, -⟩ := onward_eq_cons honward
    have hbehind := (Text.areLines_cons (hsplit ▸ Text.areLines_splitOn text).right).2
    have hmasked : maskFencedBlocks text = unlines (maskLines none (text.splitOn '\n')) := rfl
    have hcut := cut_masked none none (List.cons_ne_nil line behind)
      (before (titles h.text) none (text.splitOn '\n'))
    rw [← hsplit, Text.unlines_splitOn] at hcut
    rw [behindOf_cons honward, if_neg (List.cons_ne_nil _ _)]
    dsimp only
    rw [searchLineStart_masked hbehind, hmasked, hcut.1]
    by_cases hnext : onward boundary none behind = []
    · rw [if_pos hnext, hnext]
      dsimp only
      rw [newSection_eq, ← Text.unlines_snoc_nil (written h.text content),
        ← Text.unlines_append _ (by simp)]
      exact strip_written h content _ _
    · rw [if_neg hnext]
      dsimp only
      have hparts : text.splitOn '\n' = (before (titles h.text) none (text.splitOn '\n') ++
          line :: before boundary none behind) ++ onward boundary none behind := by
        rw [List.append_assoc, List.cons_append, before_append_onward]
        exact hsplit
      have hcut' := cut_masked none none hnext
        (before (titles h.text) none (text.splitOn '\n') ++ line :: before boundary none behind)
      rw [← hparts, Text.unlines_splitOn] at hcut'
      obtain ⟨next, behind', hcons⟩ := List.exists_cons_of_ne_nil hnext
      obtain ⟨-, -, hbound⟩ := onward_eq_cons hcons
      rw [hcut'.2, hcons, dropWhile_boundary hbound, newSection_eq]
      have hlines : ended (before (titles h.text) none (text.splitOn '\n')) ++ ended (written h.text content) ++
          ['\n'] ++ unlines (next :: behind') =
            unlines (before (titles h.text) none (text.splitOn '\n') ++
              (written h.text content ++ [] :: next :: behind')) := by
        rw [Text.unlines_append _ (by simp [written]), Text.unlines_append _ (List.cons_ne_nil _ _),
          Text.unlines_cons [] (List.cons_ne_nil _ _)]
        simp
      rw [hlines]
      exact strip_written h content _ _

end Utils.Markdown
