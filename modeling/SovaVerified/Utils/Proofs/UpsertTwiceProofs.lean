import SovaVerified.Utils.Proofs.SectionFrameProofs

/-!
# Writing a section twice

The second run has to find the lines that the first one wrote, and no others. Both runs write the same text
exactly when the first section of the text that was written is, line by line, the one that was written.
-/

namespace Utils.Markdown

open Text (unlines AreLines ended stripFront stripBack stripLines)

variable {st : Option Fence} {line content text : Text} {lines a b behind : List Text} {h : Heading}

/-! ## White space that is gone -/

theorem stripFront_left (hab : stripFront (a ++ b) = a ++ b) : stripFront a = a := by
  by_cases ha : stripFront a = []
  · rw [Text.stripFront_append_of_eq_nil ha] at hab
    have hlength := congrArg List.length hab
    have hle := Text.length_stripFront_le b
    rw [List.length_append] at hlength
    have hnil : a = [] := List.length_eq_zero_iff.mp (by omega)
    rw [ha, hnil]
  · rw [Text.stripFront_append ha] at hab
    exact List.append_cancel_right hab

theorem length_stripBack_le (ls : List Text) : (stripBack ls).length ≤ ls.length := by
  induction ls with
  | nil => exact Nat.le_refl 0
  | cons l ls ih =>
    rw [Text.stripBack]
    cases hback : stripBack ls with
    | nil =>
      dsimp only
      split_ifs
      · exact Nat.zero_le _
      · exact Nat.succ_le_succ (Nat.zero_le _)
    | cons l' ls' =>
      rw [hback] at ih
      exact Nat.succ_le_succ ih

theorem stripBack_right (hab : stripBack (a ++ b) = a ++ b) (hb : b ≠ []) : stripBack b = b := by
  by_cases hnil : stripBack b = []
  · rw [Text.stripBack_append_of_eq_nil hnil] at hab
    have hlength := congrArg List.length hab
    have hle := length_stripBack_le a
    rw [List.length_append] at hlength
    have hb' : b = [] := List.length_eq_zero_iff.mp (by omega)
    exact absurd hb' hb
  · rw [Text.stripBack_append hnil] at hab
    exact List.append_cancel_left hab

theorem stripBack_snoc_nil (ls : List Text) : stripBack (ls ++ [[]]) = stripBack ls :=
  Text.stripBack_append_of_eq_nil rfl ls

theorem stripFront_frontOf (h : Text) (lines : List Text) : stripFront (frontOf h lines) = frontOf h lines := by
  have hidem := Text.stripFront_stripLines lines
  unfold frontOf
  split_ifs with hfree hnil
  · rfl
  · rw [Text.stripFront_append (by rwa [hidem]), hidem]
  · exact Text.stripFront_idem _

/-! ## The lines of the first run -/

/-- The lines that a run writes, but for the empty one at the end. -/
def upserted (h content : Text) (lines : List Text) : List Text :=
  frontOf h lines ++ stripBack (written h content ++ [] :: behindOf h none lines)

theorem areLines_upserted (h : Heading) (content : Text) (hls : AreLines lines) :
    AreLines (upserted h.text content lines) := by
  refine AreLines.append (areLines_frontOf h.text hls) (AreLines.append (areLines_written h content) ?_).stripBack
  exact AreLines.cons (by simp) (areLines_behindOf h.text hls)

/-- The title that is written comes first, and white space is gone from the lines below it only. -/
theorem stripBack_written_append (h : Heading) (content : Text) (b : List Text) :
    stripBack (written h.text content ++ b) =
      headLine h.text :: stripBack ([] :: (Text.strip content).splitOn '\n' ++ b) := by
  have hline := rstrip_headLine h
  have hne : Text.rstrip (headLine h.text) ≠ [] := by
    rw [hline]
    exact headLine_ne_nil h.text
  obtain ⟨l, hback, hl⟩ := stripBack_cons_of_ne hne ([] :: (Text.strip content).splitOn '\n' ++ b)
  have hl' : l = headLine h.text := by
    rcases hl with rfl | ⟨rfl, -⟩
    · rfl
    · exact hline
  rw [← hl']
  exact hback

theorem strip_upserted (h : Heading) (content : Text) (lines : List Text) :
    stripFront (upserted h.text content lines) = upserted h.text content lines ∧
      stripBack (upserted h.text content lines) = upserted h.text content lines ∧
      upserted h.text content lines ≠ [] := by
  have hhead := stripBack_written_append h content ([] :: behindOf h.text none lines)
  have hidem := Text.stripBack_idem (written h.text content ++ [] :: behindOf h.text none lines)
  unfold upserted
  refine ⟨?_, ?_, ?_⟩
  · rw [hhead, stripFront_append_line (lstrip_headLine h) (headLine_ne_nil h.text), stripFront_frontOf]
  · rw [Text.stripBack_append (by rw [hidem, hhead]; exact List.cons_ne_nil _ _), hidem]
  · rw [hhead]
    simp

/-- The second run writes the same text when it writes the same lines. -/
theorem upsert_twice_iff (h : Heading) (text content : Text) :
    upsertSection (upsertSection text h.text content) h.text content = upsertSection text h.text content ↔
      upserted h.text content (upserted h.text content (text.splitOn '\n') ++ [[]]) =
        upserted h.text content (text.splitOn '\n') := by
  have hls := areLines_upserted h content (Text.areLines_splitOn text)
  have hagain : AreLines (upserted h.text content (text.splitOn '\n') ++ [[]]) := by
    rw [← splitOn_ended hls]
    exact Text.areLines_splitOn _
  have hfirst : upsertSection text h.text content = ended (upserted h.text content (text.splitOn '\n')) :=
    upsertSection_eq h text content
  have hsecond : upsertSection (ended (upserted h.text content (text.splitOn '\n'))) h.text content =
      ended (upserted h.text content (upserted h.text content (text.splitOn '\n') ++ [[]])) := by
    have heq := upsertSection_eq h (ended (upserted h.text content (text.splitOn '\n'))) content
    rw [splitOn_ended hls] at heq
    exact heq
  rw [hfirst, hsecond]
  constructor
  · intro heq
    have hlines := congrArg (List.splitOn '\n') heq
    rw [splitOn_ended (areLines_upserted h content hagain), splitOn_ended hls] at hlines
    exact List.append_cancel_right hlines
  · intro heq
    rw [heq]

/-! ## The section that the second run finds -/

/-- The first section with its title, line by line. -/
def firstSection (h : Text) (lines : List Text) : List Text :=
  match onward (titles h) none lines with
  | [] => []
  | line :: behind => line :: before boundary none behind

theorem firstSection_cons {h : Text} (hcons : onward (titles h) none lines = line :: behind) :
    firstSection h lines = line :: before boundary none behind := by
  unfold firstSection
  rw [hcons]

/-- A run that finds no section writes more. -/
theorem upserted_ne_of_free (h : Heading) (content : Text) (hfront : stripFront lines = lines)
    (hback : stripBack lines = lines) (hne : lines ≠ []) (hfree : Free (titles h.text) none (lines ++ [[]])) :
    upserted h.text content (lines ++ [[]]) ≠ lines := by
  have hstrip : stripLines (lines ++ [[]]) = lines := by
    unfold stripLines
    rw [Text.stripFront_append (by rwa [hfront]), hfront, stripBack_snoc_nil, hback]
  intro heq
  have hlength := congrArg List.length heq
  unfold upserted at hlength
  rw [frontOf_of_free hfree, hstrip, if_neg hne, List.length_append, List.length_append, List.length_cons] at hlength
  omega

/-- A run that finds a section writes the same lines when the section is the one that it writes. -/
theorem upserted_eq_iff (h : Heading) (content : Text) (hfront : stripFront lines = lines)
    (hback : stripBack lines = lines) (hne : lines ≠ [])
    (hcons : onward (titles h.text) none (lines ++ [[]]) = line :: behind) :
    upserted h.text content (lines ++ [[]]) = lines ↔
      firstSection h.text (lines ++ [[]]) =
        if behindOf h.text none (lines ++ [[]]) = [] then stripBack (written h.text content) ++ [[]]
        else written h.text content ++ [[]] := by
  obtain ⟨hparts, -, -⟩ := parts_of_section hcons
  have hbound := boundary_head_behindOf h.text (lines ++ [[]])
  have hfirst : firstSection h.text (lines ++ [[]]) = line :: bodyOf h.text none (lines ++ [[]]) := by
    rw [firstSection_cons hcons, bodyOf_cons hcons]
  have hstart : frontOf h.text (lines ++ [[]]) = before (titles h.text) none (lines ++ [[]]) := by
    have hall : stripFront (lines ++ [[]]) = lines ++ [[]] := by
      rw [Text.stripFront_append (by rwa [hfront]), hfront]
    rw [frontOf_of_hit hcons]
    rw [hparts] at hall
    exact stripFront_left hall
  rw [hfirst]
  unfold upserted
  rw [hstart]
  generalize before (titles h.text) none (lines ++ [[]]) = front at *
  generalize bodyOf h.text none (lines ++ [[]]) = body at *
  generalize behindOf h.text none (lines ++ [[]]) = rest at *
  -- the same lines, with the empty one at the end
  have hsame : front ++ stripBack (written h.text content ++ [] :: rest) = lines ↔
      stripBack (written h.text content ++ [] :: rest) ++ [[]] = line :: (body ++ rest) := by
    constructor
    · intro heq
      rw [← heq, List.append_assoc] at hparts
      exact List.append_cancel_left hparts
    · intro heq
      rw [← heq, ← List.append_assoc] at hparts
      exact (List.append_cancel_right hparts).symm
  rw [hsame]
  rcases List.eq_nil_or_concat' rest with rfl | ⟨D, d, rfl⟩
  · rw [if_pos rfl, stripBack_snoc_nil, List.append_nil, eq_comm]
  · rw [if_neg (by simp)]
    have hlast : lines = front ++ line :: body ++ D ∧ [] = d := by
      have hsplit : lines ++ [[]] = (front ++ line :: body ++ D) ++ [d] := by
        rw [hparts]
        simp
      obtain ⟨hlines, hd⟩ := List.append_inj' hsplit rfl
      exact ⟨hlines, (List.cons_eq_cons.mp hd).1⟩
    obtain ⟨hlines, rfl⟩ := hlast
    have hD : D ≠ [] := by
      rintro rfl
      exact absurd (hbound [] rfl) (by decide)
    have hkept : stripBack D = D := stripBack_right (by rw [← hlines, hback]) hD
    have hwritten : stripBack (written h.text content ++ [] :: (D ++ [[]])) = written h.text content ++ [] :: D := by
      have hlist : written h.text content ++ [] :: (D ++ [[]]) = (written h.text content ++ [[]] ++ D) ++ [[]] := by
        simp
      rw [hlist, stripBack_snoc_nil, Text.stripBack_append (by rwa [hkept]), hkept]
      simp
    rw [hwritten]
    constructor
    · intro heq
      have hlist : written h.text content ++ [[]] ++ (D ++ [[]]) = line :: body ++ (D ++ [[]]) := by
        rw [List.cons_append, ← heq]
        simp
      exact (List.append_cancel_right hlist).symm
    · intro heq
      rw [← List.cons_append, heq]
      simp

/-! ## Where the section that was written is found -/

theorem free_replicate (st : Option Fence) (k : Nat) : Free boundary st (List.replicate k []) := by
  induction k generalizing st with
  | zero => rfl
  | succ k ih =>
    unfold Free at ih ⊢
    rw [List.replicate_succ, (onward_cons_nil hashed_boundary st _).1]
    exact ih st

theorem free_snoc_nil_iff : Free boundary st (lines ++ [[]]) ↔ Free boundary st lines := by
  rw [free_append_iff]
  exact and_iff_left (free_replicate _ 1)

theorem not_free_of_boundary (hline : boundary line = true) (behind : List Text) :
    ¬ Free boundary none (line :: behind) := by
  intro hfree
  unfold Free at hfree
  rw [onward_hit hline] at hfree
  cases hfree

/-- The lines below the title that is written, where nothing comes behind them. -/
theorem exists_written_eq (h : Heading) (content : Text) :
    ∃ k, [] :: (Text.strip content).splitOn '\n' =
      stripBack ([] :: (Text.strip content).splitOn '\n') ++ List.replicate k [] := by
  obtain ⟨k, hk⟩ := stripBack_written h content
  have hhead := stripBack_written_append h content []
  rw [List.append_nil, List.append_nil] at hhead
  rw [hhead, List.cons_append] at hk
  exact ⟨k, (List.cons_eq_cons.mp hk).2⟩

/-- The end of the section, where nothing comes behind it. -/
theorem settled_at_end (h : Heading) (content : Text) :
    (headLine h.text :: before boundary none (stripBack ([] :: (Text.strip content).splitOn '\n') ++ [[]]) =
        if onward boundary none (stripBack ([] :: (Text.strip content).splitOn '\n') ++ [[]]) = [] then
          stripBack (written h.text content) ++ [[]]
        else written h.text content ++ [[]]) ↔
      Free boundary none ((Text.strip content).splitOn '\n') := by
  obtain ⟨k, hk⟩ := exists_written_eq h content
  have hhead := stripBack_written_append h content []
  rw [List.append_nil, List.append_nil] at hhead
  have hfree : Free boundary none ((Text.strip content).splitOn '\n') ↔
      Free boundary none (stripBack ([] :: (Text.strip content).splitOn '\n') ++ [[]]) := by
    have hcons : Free boundary none ((Text.strip content).splitOn '\n') ↔
        Free boundary none ([] :: (Text.strip content).splitOn '\n') := by
      unfold Free
      rw [(onward_cons_nil hashed_boundary none _).1]
    rw [hcons, free_snoc_nil_iff]
    conv_lhs => rw [hk, free_append_iff]
    exact and_iff_left (free_replicate _ k)
  rw [hfree, hhead]
  split_ifs with hnil
  · refine iff_of_true ?_ hnil
    rw [before_of_free hnil]
    rfl
  · refine iff_of_false ?_ hnil
    intro heq
    have hlength := congrArg List.length heq
    have hsplit := congrArg List.length (before_append_onward boundary none
      (stripBack ([] :: (Text.strip content).splitOn '\n') ++ [[]]))
    have hpos := List.length_pos_iff.mpr hnil
    have hle := length_stripBack_le ([] :: (Text.strip content).splitOn '\n')
    unfold written at hlength
    simp only [List.length_append, List.length_cons, List.length_nil] at hlength hsplit hle
    omega

/-- The end of the section, where another one comes behind it. -/
theorem settled_in_front (h : Heading) (content : Text) (hne : behind ≠ [])
    (hbehind : ∀ l ∈ behind.head?, boundary l = true) :
    (headLine h.text :: before boundary none
          ([] :: (Text.strip content).splitOn '\n' ++ [] :: stripBack behind ++ [[]]) =
        if onward boundary none ([] :: (Text.strip content).splitOn '\n' ++ [] :: stripBack behind ++ [[]]) = [] then
          stripBack (written h.text content) ++ [[]]
        else written h.text content ++ [[]]) ↔
      Free boundary none ((Text.strip content).splitOn '\n') ∧
        fencesAfter none ((Text.strip content).splitOn '\n') = none ∧ stripBack behind ≠ [marks] := by
  obtain ⟨next, more, rfl⟩ := List.exists_cons_of_ne_nil hne
  have hnext : boundary next = true := hbehind next rfl
  obtain ⟨l, hback, hl⟩ := stripBack_cons_of_ne (rstrip_ne_nil_of_boundary hnext) more
  have hlist : [] :: (Text.strip content).splitOn '\n' ++ [] :: stripBack (next :: more) ++ [[]] =
      ([] :: (Text.strip content).splitOn '\n' ++ [[]]) ++ (l :: (stripBack more ++ [[]])) := by
    rw [hback]
    simp
  have hfree : Free boundary none ([] :: (Text.strip content).splitOn '\n' ++ [[]]) ↔
      Free boundary none ((Text.strip content).splitOn '\n') := by
    rw [free_snoc_nil_iff]
    unfold Free
    rw [(onward_cons_nil hashed_boundary none _).1]
  have hclosed : fencesAfter none ([] :: (Text.strip content).splitOn '\n' ++ [[]]) =
      fencesAfter none ((Text.strip content).splitOn '\n') := by
    rw [fencesAfter_snoc_nil]
    rfl
  have hwritten : written h.text content ++ [[]] =
      headLine h.text :: ([] :: (Text.strip content).splitOn '\n' ++ [[]]) := rfl
  rw [hlist, ← hfree, ← hclosed, hwritten]
  constructor
  · intro heq
    split_ifs at heq with hnil
    · -- nothing is left out, so that the section is longer than what was written
      have hlength := congrArg List.length heq
      have hle := length_stripBack_le (written h.text content)
      rw [before_of_free hnil] at hlength
      unfold written at hlength hle
      simp only [List.length_append, List.length_cons, List.length_nil] at hlength hle
      omega
    · have hbefore := (List.cons_eq_cons.mp heq).2
      have hsplit := before_append_onward boundary none
        (([] :: (Text.strip content).splitOn '\n' ++ [[]]) ++ (l :: (stripBack more ++ [[]])))
      have hends := free_before boundary none
        (([] :: (Text.strip content).splitOn '\n' ++ [[]]) ++ (l :: (stripBack more ++ [[]])))
      rw [hbefore] at hsplit hends
      have honward := List.append_cancel_left hsplit
      obtain ⟨-, hst, hbound⟩ := onward_eq_cons honward
      rw [hbefore] at hst
      refine ⟨hends, hst, ?_⟩
      rw [hback]
      intro hmarks
      obtain ⟨rfl, -⟩ := List.cons_eq_cons.mp hmarks
      exact absurd hbound (by decide)
  · rintro ⟨hends, hst, hmarks⟩
    have hbound : boundary l = true := by
      rcases hl with rfl | ⟨rfl, hnil⟩
      · exact hnext
      · rcases boundary_rstrip hnext with hbound | hline
        · exact hbound
        · exact absurd (by rw [hback, hline, hnil]) hmarks
    have honward : onward boundary none (([] :: (Text.strip content).splitOn '\n' ++ [[]]) ++
        (l :: (stripBack more ++ [[]]))) = l :: (stripBack more ++ [[]]) := by
      rw [onward_append_of_free hends, hst, onward_hit hbound]
    rw [honward, if_neg (List.cons_ne_nil _ _), before_append_boundary hbound hst, before_of_free hends]

/-- The lines of the first run, from the title that is written on. -/
theorem upserted_eq (h : Heading) (content : Text) (lines : List Text) :
    upserted h.text content lines ++ [[]] = frontOf h.text lines ++ (headLine h.text ::
      (stripBack ([] :: (Text.strip content).splitOn '\n' ++ [] :: behindOf h.text none lines) ++ [[]])) := by
  unfold upserted
  rw [stripBack_written_append]
  simp

/-- The second run, where the title that is written is the first one outside of fences. -/
theorem twice_of_plain (h : Heading) (content : Text) (hmoved : ¬ Moved h lines)
    (hopen : fencesAfter none (frontOf h.text lines) = none) :
    upserted h.text content (upserted h.text content lines ++ [[]]) = upserted h.text content lines ↔
      Free boundary none ((Text.strip content).splitOn '\n') ∧ (behindOf h.text none lines ≠ [] →
        fencesAfter none ((Text.strip content).splitOn '\n') = none ∧ ¬ Swallowed h lines) := by
  obtain ⟨hfront, hback, hne⟩ := strip_upserted h content lines
  have hfree : Free (titles h.text) none (frontOf h.text lines) := not_not.mp hmoved
  have honward : onward (titles h.text) none (upserted h.text content lines ++ [[]]) = headLine h.text ::
      (stripBack ([] :: (Text.strip content).splitOn '\n' ++ [] :: behindOf h.text none lines) ++ [[]]) := by
    rw [upserted_eq, onward_append_of_free hfree, hopen, onward_hit (titles_headLine h)]
  rw [upserted_eq_iff h content hfront hback hne honward, firstSection_cons honward, behindOf_cons honward]
  have hbound := boundary_head_behindOf h.text lines
  by_cases hnil : behindOf h.text none lines = []
  · rw [hnil, stripBack_snoc_nil]
    rw [settled_at_end]
    exact (and_iff_left fun hnot => absurd rfl hnot).symm
  · obtain ⟨next, more, hcons⟩ := List.exists_cons_of_ne_nil hnil
    have hnext := hbound next (by rw [hcons]; rfl)
    have hkept : stripBack ([] :: (Text.strip content).splitOn '\n' ++ [] :: behindOf h.text none lines) =
        [] :: (Text.strip content).splitOn '\n' ++ [] :: stripBack (behindOf h.text none lines) := by
      have happend : [] :: (Text.strip content).splitOn '\n' ++ [] :: behindOf h.text none lines =
          ([] :: (Text.strip content).splitOn '\n' ++ [[]]) ++ next :: more := by
        rw [hcons]
        simp
      rw [happend, stripBack_append_line (rstrip_ne_nil_of_boundary hnext), hcons]
      simp
    rw [hkept, settled_in_front h content hnil hbound]
    unfold Swallowed
    exact and_congr_right fun _ => ⟨fun hboth _ => hboth, fun himp => himp hnil⟩

theorem behindOf_of_open (hopen : fencesAfter none (frontOf h.text lines) ≠ none) :
    behindOf h.text none lines = [] := by
  cases honward : onward (titles h.text) none lines with
  | nil => exact behindOf_nil honward
  | cons line behind =>
    rw [frontOf_of_hit honward, fencesAfter_stripFront] at hopen
    exact absurd (onward_eq_cons honward).2.1 hopen

/-- The second run, where a fence hides the title that is written. -/
theorem not_twice_of_open (h : Heading) (content : Text) (hmoved : ¬ Moved h lines)
    (hopen : fencesAfter none (frontOf h.text lines) ≠ none) :
    upserted h.text content (upserted h.text content lines ++ [[]]) ≠ upserted h.text content lines := by
  obtain ⟨hfront, hback, hne⟩ := strip_upserted h content lines
  have hfree : Free (titles h.text) none (frontOf h.text lines) := not_not.mp hmoved
  obtain ⟨fence, hfence⟩ := Option.ne_none_iff_exists'.mp hopen
  have hpass : outside (titles h.text) (some fence) (headLine h.text) = false := rfl
  cases honward : onward (titles h.text) none (upserted h.text content lines ++ [[]]) with
  | nil => exact upserted_ne_of_free h content hfront hback hne honward
  | cons line behind =>
    rw [Ne, upserted_eq_iff h content hfront hback hne honward, firstSection_cons honward, behindOf_cons honward]
    -- the section begins below the title that is written, and is shorter
    have hsuffix : onward (titles h.text) (fenceAfter (some fence) (headLine h.text))
        (stripBack ([] :: (Text.strip content).splitOn '\n') ++ [[]]) = line :: behind := by
      have hsame := honward
      rw [upserted_eq, behindOf_of_open hopen, stripBack_snoc_nil, onward_append_of_free hfree, hfence] at hsame
      rw [← hsame]
      exact (Scanning.onward_of_pass hpass _).symm
    have hlength := congrArg List.length (before_append_onward (titles h.text)
      (fenceAfter (some fence) (headLine h.text)) (stripBack ([] :: (Text.strip content).splitOn '\n') ++ [[]]))
    have hshort := congrArg List.length (before_append_onward boundary none behind)
    have hhead := stripBack_written_append h content []
    have hle := length_stripBack_le ([] :: (Text.strip content).splitOn '\n')
    rw [List.append_nil, List.append_nil] at hhead
    rw [hsuffix] at hlength
    intro heq
    have hboth := congrArg List.length heq
    rw [hhead] at hboth
    unfold written at hboth
    split_ifs at hboth <;> simp only [List.length_append, List.length_cons, List.length_nil] at * <;> omega

/-- Whatever comes behind, the lines that are written stay, but for empty ones at their end. -/
theorem exists_stripBack_append (h : Heading) (content : Text) (b : List Text) :
    ∃ rest, stripBack (written h.text content ++ [] :: b) = stripBack (written h.text content) ++ rest := by
  by_cases hnil : stripBack b = []
  · have hblank : stripBack ([] :: b) = [] := by
      rw [Text.stripBack, hnil]
      rfl
    exact ⟨[], by rw [Text.stripBack_append_of_eq_nil hblank, List.append_nil]⟩
  · have hcons : stripBack ([] :: b) = [] :: stripBack b := Text.stripBack_append hnil [[]]
    obtain ⟨k, hk⟩ := stripBack_written h content
    refine ⟨List.replicate k [] ++ [] :: stripBack b, ?_⟩
    rw [Text.stripBack_append (by rw [hcons]; exact List.cons_ne_nil _ _), hcons, ← List.append_assoc, ← hk]

/-- A section in front that no title ends is left open by a fence. -/
theorem open_of_free (hcons : onward (titles h.text) none a = line :: behind)
    (hfree : Free boundary none (behind ++ stripBack (written h.text content))) : fencesAfter none a ≠ none := by
  intro hclosed
  obtain ⟨hsplit, hst, htitle⟩ := onward_eq_cons hcons
  have hbehind : fencesAfter none behind = none := by
    rw [hsplit, fencesAfter_append, hst, fencesAfter_cons, fenceAfter_none,
      hashed_boundary.openFence (boundary_of_titles htitle)] at hclosed
    exact hclosed
  have hwritten := (free_append_iff.mp hfree).2
  have hhead := stripBack_written_append h content []
  rw [List.append_nil, List.append_nil] at hhead
  rw [hbehind, hhead] at hwritten
  exact not_free_of_boundary (boundary_headLine h) _ hwritten

/-- The second run, where a title was moved in front of the section that is written. -/
theorem twice_of_moved (h : Heading) (content : Text) (hmoved : Moved h lines) :
    upserted h.text content (upserted h.text content lines ++ [[]]) = upserted h.text content lines ↔
      firstSection h.text (frontOf h.text lines ++ (written h.text content ++ [[]])) =
        written h.text content ++ [[]] := by
  obtain ⟨hfront, hback, hne⟩ := strip_upserted h content lines
  obtain ⟨line, behind, hcons⟩ := List.exists_cons_of_ne_nil hmoved
  obtain ⟨rest, hrest⟩ := exists_stripBack_append h content (behindOf h.text none lines)
  obtain ⟨k, hk⟩ := stripBack_written h content
  have hsecond : onward (titles h.text) none (upserted h.text content lines ++ [[]]) =
      line :: (behind ++ stripBack (written h.text content) ++ (rest ++ [[]])) := by
    unfold upserted
    rw [List.append_assoc, onward_append_of_hit hmoved, hcons, hrest]
    simp
  have hwritten : onward (titles h.text) none (frontOf h.text lines ++ (written h.text content ++ [[]])) =
      line :: (behind ++ stripBack (written h.text content) ++ (List.replicate k [] ++ [[]])) := by
    conv_lhs => rw [hk]
    rw [onward_append_of_hit hmoved, hcons]
    simp
  rw [upserted_eq_iff h content hfront hback hne hsecond, firstSection_cons hsecond, behindOf_cons hsecond,
    firstSection_cons hwritten]
  by_cases hend : Free boundary none (behind ++ stripBack (written h.text content))
  · -- the section goes on to the end of the text, and is longer than what is written
    have hnone : behindOf h.text none lines = [] := behindOf_of_open (open_of_free hcons hend)
    have hnil : rest = [] := by
      rw [hnone, stripBack_snoc_nil] at hrest
      exact (List.append_cancel_left ((List.append_nil _).trans hrest)).symm
    have hfree : Free boundary none (behind ++ stripBack (written h.text content) ++ (rest ++ [[]])) := by
      rw [hnil]
      exact free_snoc_nil_iff.mpr hend
    have hfree' : Free boundary none
        (behind ++ stripBack (written h.text content) ++ (List.replicate k [] ++ [[]])) := by
      rw [← List.replicate_succ']
      exact free_append_iff.mpr ⟨hend, free_replicate _ (k + 1)⟩
    have hall : onward boundary none (behind ++ stripBack (written h.text content) ++ (rest ++ [[]])) = [] := hfree
    rw [if_pos hall, before_of_free hfree, before_of_free hfree']
    refine iff_of_false ?_ ?_
    · intro heq
      have hlength := congrArg List.length heq
      simp only [List.length_append, List.length_cons, List.length_nil] at hlength
      omega
    · intro heq
      have hlength := congrArg List.length heq
      conv_rhs at hlength => rw [hk]
      simp only [List.length_append, List.length_cons, List.length_nil] at hlength
      omega
  · have hmore : onward boundary none (behind ++ stripBack (written h.text content) ++ (rest ++ [[]])) ≠ [] := by
      rw [onward_append_of_hit hend]
      exact fun hnil => hend (List.append_eq_nil_iff.mp hnil).1
    rw [if_neg hmore, before_append_of_hit hend, before_append_of_hit hend]

/-! ## The claim of two runs -/

/-- When a second run leaves the text as it is. -/
structure Settled (h : Heading) (content : Text) (lines : List Text) : Prop where
  /-- A title that was moved in front begins, line by line, the section that is written. -/
  moved : Moved h lines → firstSection h.text (frontOf h.text lines ++ (written h.text content ++ [[]])) =
    written h.text content ++ [[]]
  /-- Otherwise no fence of the text hides the title that is written. -/
  visible : ¬ Moved h lines → Free (titles h.text) none lines → fencesAfter none lines = none
  /-- No line of the content is a title. -/
  plain : ¬ Moved h lines → Free boundary none ((Text.strip content).splitOn '\n')
  /-- And neither a fence of the content nor white space hides the title behind it. -/
  kept : ¬ Moved h lines → behindOf h.text none lines ≠ [] →
    fencesAfter none ((Text.strip content).splitOn '\n') = none ∧ ¬ Swallowed h lines

theorem frontOf_closed_iff (h : Heading) (lines : List Text) :
    fencesAfter none (frontOf h.text lines) = none ↔
      (Free (titles h.text) none lines → fencesAfter none lines = none) := by
  have hstrip : fencesAfter none (stripLines lines) = fencesAfter none lines := by
    unfold stripLines
    rw [fencesAfter_stripBack, fencesAfter_stripFront]
  cases honward : onward (titles h.text) none lines with
  | nil =>
    have hfree : Free (titles h.text) none lines := honward
    rw [frontOf_of_free hfree]
    have hiff : (Free (titles h.text) none lines → fencesAfter none lines = none) ↔ fencesAfter none lines = none :=
      ⟨fun himp => himp hfree, fun hnone _ => hnone⟩
    rw [hiff, ← hstrip]
    split_ifs with hnil
    · rw [hnil]
    · rw [fencesAfter_snoc_nil]
  | cons line behind =>
    have hnot : ¬ Free (titles h.text) none lines := by
      unfold Free
      rw [honward]
      exact List.cons_ne_nil _ _
    rw [frontOf_of_hit honward, fencesAfter_stripFront]
    exact iff_of_true (onward_eq_cons honward).2.1 fun hfree => absurd hfree hnot

theorem upsertSection_twice_iff (h : Heading) (text content : Text) :
    upsertSection (upsertSection text h.text content) h.text content = upsertSection text h.text content ↔
      Settled h content (text.splitOn '\n') := by
  rw [upsert_twice_iff]
  by_cases hmoved : Moved h (text.splitOn '\n')
  · rw [twice_of_moved h content hmoved]
    constructor
    · intro heq
      exact ⟨fun _ => heq, fun hnot => absurd hmoved hnot, fun hnot => absurd hmoved hnot,
        fun hnot => absurd hmoved hnot⟩
    · intro hsettled
      exact hsettled.moved hmoved
  · by_cases hopen : fencesAfter none (frontOf h.text (text.splitOn '\n')) = none
    · rw [twice_of_plain h content hmoved hopen]
      constructor
      · rintro ⟨hplain, hkept⟩
        exact ⟨fun hyes => absurd hyes hmoved, fun _ => (frontOf_closed_iff h _).mp hopen, fun _ => hplain,
          fun _ => hkept⟩
      · intro hsettled
        exact ⟨hsettled.plain hmoved, hsettled.kept hmoved⟩
    · refine iff_of_false (not_twice_of_open h content hmoved hopen) ?_
      intro hsettled
      exact hopen ((frontOf_closed_iff h _).mpr (hsettled.visible hmoved))

/-- The second run finds no title behind the section, and takes its marks away. -/
theorem takes_marks_away :
    ¬ ∀ (h : Heading) (text content : Text),
      upsertSection (upsertSection text h.text content) h.text content = upsertSection text h.text content := by
  intro hclaim
  exact absurd (hclaim issueHeading "## Issue\nCloses #1\n## ".toList "Part of #1".toList) (by decide +kernel)

end Utils.Markdown

/-!
# Writing several sections

A text that was written has no white space around it, but for the line feed at its end. Writing on in such a
text moves no title and swallows none, so that only the content that is written decides how it reads.
-/

namespace Utils.Markdown

open Text (unlines AreLines ended stripFront stripBack stripLines)

variable {line content text : Text} {lines a b behind : List Text} {x h : Heading}

/-! ## Texts that were written -/

/-- The lines have no white space around them, and an empty one at the end. -/
structure TidyLines (lines : List Text) : Prop where
  closed : fencesAfter none lines = none
  ends : ∃ front, lines = front ++ [[]] ∧ stripFront front = front ∧ stripBack front = front ∧ front ≠ []

/-- A text that was written, with its fences closed. -/
def Tidy (text : Text) : Prop := TidyLines (text.splitOn '\n')

theorem fencesAfter_behindOf (h : Heading) (hlines : fencesAfter none lines = none) :
    fencesAfter none (behindOf h.text none lines) = none := by
  cases honward : onward (titles h.text) none lines with
  | nil =>
    rw [behindOf_nil honward]
    rfl
  | cons line behind =>
    obtain ⟨hparts, -, hopen⟩ := parts_of_section honward
    obtain ⟨-, hst, htitle⟩ := onward_eq_cons honward
    by_cases hnil : behindOf h.text none lines = []
    · rw [hnil]
      rfl
    · have hall := hlines
      rw [hparts, fencesAfter_append, hst, fencesAfter_cons, fenceAfter_none,
        hashed_boundary.openFence (boundary_of_titles htitle), fencesAfter_append, hopen hnil] at hall
      exact hall

theorem fencesAfter_upserted (h : Heading) (hlines : fencesAfter none lines = none)
    (hcontent : fencesAfter none (content.splitOn '\n') = none) :
    fencesAfter none (upserted h.text content lines) = none := by
  have hwritten : fencesAfter none (written h.text content) = none := by
    unfold written
    rw [fencesAfter_cons, fenceAfter_none, hashed_boundary.openFence (boundary_headLine h), fencesAfter_cons,
      fenceAfter_of_blank rfl, fencesAfter_strip]
    exact hcontent
  unfold upserted
  rw [fencesAfter_append, fencesAfter_frontOf h hlines, fencesAfter_stripBack, fencesAfter_append, hwritten,
    fencesAfter_cons, fenceAfter_of_blank rfl]
  exact fencesAfter_behindOf h hlines

theorem tidy_upsert (h : Heading) (htext : fencesAfter none (text.splitOn '\n') = none)
    (hcontent : fencesAfter none (content.splitOn '\n') = none) : Tidy (upsertSection text h.text content) := by
  have hsplit : (upsertSection text h.text content).splitOn '\n' =
      upserted h.text content (text.splitOn '\n') ++ [[]] := by
    rw [← splitOn_ended (areLines_upserted h content (Text.areLines_splitOn text))]
    exact congrArg (List.splitOn '\n') (upsertSection_eq h text content)
  refine ⟨?_, upserted h.text content (text.splitOn '\n'), hsplit, strip_upserted h content _⟩
  rw [hsplit, fencesAfter_snoc_nil]
  exact fencesAfter_upserted h htext hcontent

theorem TidyLines.stripLines (hlines : TidyLines lines) : stripLines lines ++ [[]] = lines := by
  obtain ⟨front, rfl, hfront, hback, hne⟩ := hlines.ends
  unfold Text.stripLines
  rw [Text.stripFront_append (by rwa [hfront]), hfront, stripBack_snoc_nil, hback]

/-- No title is moved in a text that was written. -/
theorem TidyLines.not_moved (hlines : TidyLines lines) (x : Heading) : ¬ Moved x lines := by
  intro hmoved
  apply hmoved
  cases honward : onward (titles x.text) none lines with
  | nil =>
    rw [frontOf_of_free honward]
    split_ifs
    · rfl
    · rw [hlines.stripLines]
      exact honward
  | cons line behind =>
    obtain ⟨front, hsplit, hfront, -, hne⟩ := hlines.ends
    have hall : stripFront lines = lines := by
      rw [hsplit, Text.stripFront_append (by rwa [hfront]), hfront]
    rw [frontOf_of_hit honward]
    have hbefore : stripFront (before (titles x.text) none lines) = before (titles x.text) none lines := by
      refine stripFront_left (b := onward (titles x.text) none lines) ?_
      rw [before_append_onward]
      exact hall
    rw [hbefore]
    exact free_before _ _ _

/-- No title is swallowed in a text that was written. -/
theorem TidyLines.not_swallowed (hlines : TidyLines lines) (x : Heading) : ¬ Swallowed x lines := by
  intro hswallowed
  have hbound := boundary_head_behindOf x.text lines
  unfold Swallowed at hswallowed
  cases honward : onward (titles x.text) none lines with
  | nil =>
    rw [behindOf_nil honward] at hswallowed
    cases hswallowed
  | cons line behind =>
    obtain ⟨hparts, -, -⟩ := parts_of_section honward
    obtain ⟨front, hsplit, -, hback, -⟩ := hlines.ends
    rcases List.eq_nil_or_concat' (behindOf x.text none lines) with hnil | ⟨D, d, hrest⟩
    · rw [hnil] at hswallowed
      cases hswallowed
    · rw [hrest] at hbound hswallowed hparts
      have hlast : front = before (titles x.text) none lines ++ line :: bodyOf x.text none lines ++ D ∧ [] = d := by
        have hboth : front ++ [[]] = (before (titles x.text) none lines ++ line :: bodyOf x.text none lines ++ D) ++
            [d] := by
          rw [← hsplit]
          conv_lhs => rw [hparts]
          simp
        obtain ⟨hfront, hd⟩ := List.append_inj' hboth rfl
        exact ⟨hfront, (List.cons_eq_cons.mp hd).1⟩
      obtain ⟨hfront, rfl⟩ := hlast
      have hD : D ≠ [] := by
        rintro rfl
        exact absurd (hbound [] rfl) (by decide)
      have hkept : stripBack D = D := stripBack_right (by rw [← hfront, hback]) hD
      rw [stripBack_snoc_nil, hkept] at hswallowed
      subst hswallowed
      exact absurd (hbound marks rfl) (by decide)

section Tidy

variable (htext : Tidy text) (hcontent : fencesAfter none (content.splitOn '\n') = none)

include htext hcontent

/-- In a text that was written a section reads as its content when that has no title. -/
theorem Tidy.own_iff (h : Heading) :
    extractSection (upsertSection text h.text content) h.text false = Text.strip content ↔
      Free boundary none ((Text.strip content).splitOn '\n') := by
  rw [extractSection_own_iff htext.closed hcontent]
  constructor
  · exact fun hown => (hown.plain (htext.not_moved h)).1
  · exact fun hplain => ⟨fun hyes => absurd hyes (htext.not_moved h), fun _ => ⟨hplain, htext.not_swallowed h⟩⟩

theorem Tidy.other (hplain : Free boundary none ((Text.strip content).splitOn '\n')) (hne : x ≠ h) :
    extractSection (upsertSection text h.text content) x.text false = extractSection text x.text false := by
  have hb : ¬ Brought x h content (text.splitOn '\n') := fun hbrought => hbrought.2 (hplain.titles x.text)
  rw [extractSection_other_iff htext.closed hcontent hne]
  exact ⟨fun hyes => absurd hyes hb, fun _ hyes => absurd hyes (htext.not_moved x), fun _ _ => htext.not_swallowed x⟩

end Tidy

/-! ## One section after the other -/

/-- The sections are written in order. -/
def upsertAll (text : Text) (sections : List (Heading × Text)) : Text :=
  sections.foldl (fun t e => upsertSection t e.1.text e.2) text

theorem upsertAll_snoc (text : Text) (sections : List (Heading × Text)) (e : Heading × Text) :
    upsertAll text (sections ++ [e]) = upsertSection (upsertAll text sections) e.1.text e.2 := by
  unfold upsertAll
  rw [List.foldl_append]
  rfl

/-- A content as it is written: without white space around it, and with its fences closed. -/
def IsContent (content : Text) : Prop :=
  Text.strip content = content ∧ fencesAfter none (content.splitOn '\n') = none

/-- No line of the contents is a title. -/
def Plain (sections : List (Heading × Text)) : Prop := ∀ e ∈ sections, Free boundary none (e.2.splitOn '\n')

theorem plain_snoc_iff {sections : List (Heading × Text)} {e : Heading × Text} :
    Plain (sections ++ [e]) ↔ Plain sections ∧ Free boundary none (e.2.splitOn '\n') := by
  unfold Plain
  simp only [List.mem_append, List.mem_singleton, or_imp, forall_and, forall_eq]

variable {sections : List (Heading × Text)}

theorem tidy_upsertAll (htext : Tidy text) (hcontents : ∀ e ∈ sections, IsContent e.2) :
    Tidy (upsertAll text sections) := by
  induction sections using List.reverseRecOn with
  | nil => exact htext
  | append_singleton sections e ih =>
    rw [upsertAll_snoc]
    refine tidy_upsert e.1 (ih fun e' he' => hcontents e' (List.mem_append_left _ he')).closed ?_
    exact (hcontents e (by simp)).2

/-- Sections that are not written stay as they were. -/
theorem upsertAll_other (htext : Tidy text) (hcontents : ∀ e ∈ sections, IsContent e.2) (hplain : Plain sections)
    (hx : x ∉ sections.map Prod.fst) :
    extractSection (upsertAll text sections) x.text false = extractSection text x.text false := by
  induction sections using List.reverseRecOn with
  | nil => rfl
  | append_singleton sections e ih =>
    obtain ⟨hrest, hlast⟩ := plain_snoc_iff.mp hplain
    have hfront := fun e' he' => hcontents e' (List.mem_append_left [e] he')
    obtain ⟨hstrip, hclosed⟩ := hcontents e (by simp)
    rw [List.map_append, List.mem_append, not_or] at hx
    have hne : x ≠ e.1 := fun heq => hx.2 (by rw [heq]; simp)
    rw [upsertAll_snoc, (tidy_upsertAll htext hfront).other hclosed (by rwa [hstrip]) hne]
    exact ih hfront hrest hx.1

/-- All sections read as their contents exactly when no content has a title. -/
theorem upsertAll_own_iff (htext : Tidy text) (hcontents : ∀ e ∈ sections, IsContent e.2)
    (hnodup : (sections.map Prod.fst).Nodup) :
    (∀ e ∈ sections, extractSection (upsertAll text sections) e.1.text false = e.2) ↔ Plain sections := by
  induction sections using List.reverseRecOn with
  | nil => exact iff_of_true (fun _ he => absurd he List.not_mem_nil) fun _ he => absurd he List.not_mem_nil
  | append_singleton sections e ih =>
    have hfront := fun e' he' => hcontents e' (List.mem_append_left [e] he')
    obtain ⟨hstrip, hclosed⟩ := hcontents e (by simp)
    have htidy := tidy_upsertAll htext hfront
    rw [List.map_append, List.nodup_append] at hnodup
    obtain ⟨hfirst, -, hdisjoint⟩ := hnodup
    have hown := htidy.own_iff hclosed e.1
    rw [hstrip] at hown
    rw [upsertAll_snoc, plain_snoc_iff, ← ih hfront hfirst]
    have hothers : Free boundary none (e.2.splitOn '\n') → ∀ e' ∈ sections,
        extractSection (upsertSection (upsertAll text sections) e.1.text e.2) e'.1.text false =
          extractSection (upsertAll text sections) e'.1.text false := by
      intro hlast e' he'
      refine htidy.other hclosed (by rwa [hstrip]) ?_
      exact hdisjoint e'.1 (List.mem_map_of_mem he') e.1 (by simp)
    constructor
    · intro hall
      have hlast := hown.mp (hall e (by simp))
      refine ⟨fun e' he' => ?_, hlast⟩
      rw [← hothers hlast e' he', hall e' (List.mem_append_left _ he')]
    · rintro ⟨hall, hlast⟩ e' he'
      rcases List.mem_append.mp he' with he' | he'
      · rw [hothers hlast e' he', hall e' he']
      · rw [List.mem_singleton.mp he']
        exact hown.mpr hlast

/-- The first section is written into a text that may have any white space around it, the others into one that
was written. -/
theorem upsertAll_cons_iff {e : Heading × Text} (htext : fencesAfter none (text.splitOn '\n') = none)
    (hcontents : ∀ e' ∈ e :: sections, IsContent e'.2) (hnodup : ((e :: sections).map Prod.fst).Nodup) :
    ((∀ e' ∈ e :: sections, extractSection (upsertAll text (e :: sections)) e'.1.text false = e'.2) ∧
        ∀ x ∉ (e :: sections).map Prod.fst, extractSection (upsertAll text (e :: sections)) x.text false =
          extractSection text x.text false) ↔
      OwnKept e.1 e.2 (text.splitOn '\n') ∧
        (∀ x ∉ (e :: sections).map Prod.fst, OtherKept x e.1 e.2 (text.splitOn '\n')) ∧ Plain sections := by
  obtain ⟨hstrip, hclosed⟩ := hcontents e List.mem_cons_self
  have hrest := fun e' he' => hcontents e' (List.mem_cons_of_mem e he')
  obtain ⟨hfirst, hdistinct⟩ := List.nodup_cons.mp hnodup
  have htidy := tidy_upsert e.1 htext hclosed
  have hall : upsertAll text (e :: sections) = upsertAll (upsertSection text e.1.text e.2) sections := rfl
  have hplain := upsertAll_own_iff htidy hrest hdistinct
  have hown := extractSection_own_iff htext hclosed e.1
  rw [hstrip] at hown
  rw [hall]
  constructor
  · rintro ⟨hmine, hothers⟩
    have hfree : Plain sections := hplain.mp fun e' he' => hmine e' (List.mem_cons_of_mem e he')
    refine ⟨?_, fun x hx => ?_, hfree⟩
    · rw [← hown, ← upsertAll_other htidy hrest hfree hfirst]
      exact hmine e List.mem_cons_self
    · obtain ⟨hne, hnotin⟩ := not_or.mp (mt List.mem_cons.mpr hx)
      rw [← extractSection_other_iff htext hclosed hne, ← upsertAll_other htidy hrest hfree hnotin]
      exact hothers x hx
  · rintro ⟨hkept, hothers, hfree⟩
    refine ⟨fun e' he' => ?_, fun x hx => ?_⟩
    · rcases List.mem_cons.mp he' with rfl | he'
      · rw [upsertAll_other htidy hrest hfree hfirst, hown]
        exact hkept
      · exact hplain.mpr hfree e' he'
    · obtain ⟨hne, hnotin⟩ := not_or.mp (mt List.mem_cons.mpr hx)
      rw [upsertAll_other htidy hrest hfree hnotin, extractSection_other_iff htext hclosed hne]
      exact hothers x hx

end Utils.Markdown
