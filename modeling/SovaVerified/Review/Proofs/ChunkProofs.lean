import SovaVerified.Git.Diff
import SovaVerified.Review.Findings

/-!
# The chunks of a diff

A diff is cut in front of a file once enough of it has been gathered. The loop looks for the line of a file behind
every character that `str.splitlines` takes for the end of a line, and so it can find one within a file.
-/

namespace Review

variable {diff : Text} {chunkSize : Nat} {cuts : Text × Text → Bool} {current ls chunk : List (Text × Text)}
  {l : Text × Text}

/-! ## Lines with the text in front of them -/

def isHeader (l : Text × Text) : Bool := "diff --git ".toList.isPrefixOf l.2

/-- The line is the first one of a file: it stands behind a line feed or at the beginning. -/
def opensFile (l : Text × Text) : Bool := isHeader l && l.1.getLast?.all (· == '\n')

/-- Each line with the text in front of it. -/
def placed : Text → List Text → List (Text × Text)
  | _, [] => []
  | front, line :: lines => (front, line) :: placed (front ++ line) lines

def textOf (ls : List (Text × Text)) : Text := (ls.map Prod.snd).flatten

/-- The lines of a diff as the loop sees them. -/
def diffLines (diff : Text) : List (Text × Text) := placed [] (Text.splitLines diff)

/-- The lines are gathered, and cut in front of some of them once there are enough. -/
def gather (cuts : Text × Text → Bool) (chunkSize : Nat) :
    List (Text × Text) → List (Text × Text) → List (List (Text × Text))
  | current, [] => if current = [] then [] else [current]
  | current, l :: ls =>
    if cuts l && chunkSize ≤ (textOf current).length then current :: gather cuts chunkSize [l] ls
    else gather cuts chunkSize (current ++ [l]) ls

/-- The diff cut in front of files. -/
def fileChunks (diff : Text) (chunkSize : Nat) : List (List (Text × Text)) :=
  gather opensFile chunkSize [] (diffLines diff)

/-- In what was gathered in front of each line that looks like a header the chunk size was not reached. -/
def Short (looks : Text × Text → Bool) (chunkSize : Nat) (chunk : List (Text × Text)) : Prop :=
  ∀ front l behind, chunk = front ++ l :: behind → looks l = true → (textOf front).length < chunkSize

/-- Nothing in a chunk of files looks like the header of a file where the chunk is long enough for a cut. -/
def NoFalseHeader (diff : Text) (chunkSize : Nat) : Prop :=
  ∀ chunk ∈ fileChunks diff chunkSize, Short (fun l => isHeader l && !opensFile l) chunkSize chunk

/-- A file of the diff begins behind `front`. -/
def BeginsFile (front behind : Text) : Prop :=
  (∀ c ∈ front.getLast?, c = '\n') ∧ "diff --git ".toList <+: behind

/-- The chunks make up the diff, none is empty, and each but the first begins with a file. -/
structure WellCut (diff : Text) (chunks : List Text) : Prop where
  nonempty : diff ≠ [] → chunks ≠ [] ∧ ∀ chunk ∈ chunks, chunk ≠ []
  whole : chunks.flatten = diff
  begins : ∀ before chunk after, chunks = before ++ chunk :: after → before ≠ [] → BeginsFile before.flatten chunk

theorem flatten_splitLines (t : Text) : (Text.splitLines t).flatten = t := by
  induction t with
  | nil => rfl
  | cons c t ih =>
    rw [Text.splitLines]
    split_ifs
    · rw [List.flatten_cons, ih, List.singleton_append]
    · cases hsplit : Text.splitLines t with
      | nil =>
        rw [hsplit] at ih
        rw [← ih]
        rfl
      | cons l ls =>
        rw [hsplit] at ih
        dsimp only
        rw [← ih, List.flatten_cons, List.flatten_cons, List.cons_append]

theorem map_snd_placed (front : Text) (lines : List Text) : (placed front lines).map Prod.snd = lines := by
  induction lines generalizing front with
  | nil => rfl
  | cons line lines ih => rw [placed, List.map_cons, ih]

/-- The text in front of a line is what the lines before it make up. -/
theorem front_of_placed {front : Text} {lines : List Text} {before after : List (Text × Text)}
    (h : placed front lines = before ++ l :: after) : l.1 = front ++ textOf before := by
  induction before generalizing front lines with
  | nil =>
    cases lines with
    | nil => cases h
    | cons line lines =>
      obtain ⟨rfl, -⟩ := List.cons.inj h
      exact (List.append_nil front).symm
  | cons b before ih =>
    cases lines with
    | nil => cases h
    | cons line lines =>
      obtain ⟨rfl, hrest⟩ := List.cons.inj h
      rw [ih hrest, List.append_assoc]
      rfl

theorem textOf_append (a b : List (Text × Text)) : textOf (a ++ b) = textOf a ++ textOf b := by
  unfold textOf
  rw [List.map_append, List.flatten_append]

theorem textOf_diffLines (diff : Text) : textOf (diffLines diff) = diff := by
  unfold textOf diffLines
  rw [map_snd_placed, flatten_splitLines]

/-! ## What is gathered -/

theorem flatten_gather (cuts : Text × Text → Bool) (chunkSize : Nat) (current ls : List (Text × Text)) :
    (gather cuts chunkSize current ls).flatten = current ++ ls := by
  induction ls generalizing current with
  | nil =>
    rw [gather]
    split_ifs with hnil
    · rw [hnil]
      rfl
    · simp
  | cons l ls ih =>
    rw [gather]
    split_ifs
    · rw [List.flatten_cons, ih, List.singleton_append]
    · rw [ih, List.append_assoc, List.singleton_append]

/-- What has been gathered is the beginning of the first chunk. -/
theorem gather_head (cuts : Text × Text → Bool) (chunkSize : Nat) (ls : List (Text × Text)) (hne : current ≠ []) :
    ∃ rest chunks, gather cuts chunkSize current ls = (current ++ rest) :: chunks := by
  induction ls generalizing current with
  | nil =>
    rw [gather, if_neg hne]
    exact ⟨[], [], by rw [List.append_nil]⟩
  | cons l ls ih =>
    rw [gather]
    split_ifs
    · exact ⟨[], gather cuts chunkSize [l] ls, by rw [List.append_nil]⟩
    · obtain ⟨rest, chunks, heq⟩ := ih (List.append_ne_nil_of_right_ne_nil current (List.cons_ne_nil l []))
      exact ⟨l :: rest, chunks, by rw [heq, List.append_assoc, List.singleton_append]⟩

/-- No chunk is empty. -/
theorem gather_ne_nil (hpos : 0 < chunkSize) (ls : List (Text × Text)) :
    ∀ chunk ∈ gather cuts chunkSize current ls, chunk ≠ [] := by
  induction ls generalizing current with
  | nil =>
    rw [gather]
    split_ifs with hnil
    · intro chunk h
      cases h
    · intro chunk h
      rwa [List.mem_singleton.mp h]
  | cons l ls ih =>
    rw [gather]
    split_ifs with hcut
    · refine List.forall_mem_cons.mpr ⟨?_, ih⟩
      rintro rfl
      simp only [Bool.and_eq_true, decide_eq_true_eq] at hcut
      have hle : chunkSize ≤ 0 := hcut.2
      omega
    · exact ih

/-- Each chunk but the first begins with a line that is cut at. -/
theorem gather_begins (ls : List (Text × Text)) {before after : List (List (Text × Text))}
    (h : gather cuts chunkSize current ls = before ++ chunk :: after) (hne : before ≠ []) :
    ∃ l rest, chunk = l :: rest ∧ cuts l = true := by
  induction ls generalizing current before with
  | nil =>
    rw [gather] at h
    obtain ⟨b, before, rfl⟩ := List.exists_cons_of_ne_nil hne
    split_ifs at h
    · cases h
    · cases before <;> cases h
  | cons l ls ih =>
    rw [gather] at h
    split_ifs at h with hcut
    · obtain ⟨b, before, rfl⟩ := List.exists_cons_of_ne_nil hne
      obtain ⟨-, hrest⟩ := List.cons.inj h
      cases before with
      | nil =>
        obtain ⟨rest, chunks, heq⟩ := gather_head cuts chunkSize ls (List.cons_ne_nil l [])
        rw [heq] at hrest
        obtain ⟨rfl, -⟩ := List.cons.inj hrest
        exact ⟨l, rest, rfl, (Bool.and_eq_true_iff.mp hcut).1⟩
      | cons b before => exact ih hrest (List.cons_ne_nil b before)
    · exact ih h hne

theorem Short.snoc {looks : Text × Text → Bool} (h : Short looks chunkSize chunk)
    (hl : looks l = true → (textOf chunk).length < chunkSize) : Short looks chunkSize (chunk ++ [l]) := by
  intro front l' behind hsplit hlooks
  rcases List.append_eq_append_iff.mp hsplit with ⟨e, rfl, he⟩ | ⟨e, rfl, he⟩
  · cases e with
    | nil =>
      obtain ⟨rfl, -⟩ := List.cons.inj he
      rw [List.append_nil]
      exact hl hlooks
    | cons d e =>
      have hlength := congrArg List.length he
      simp only [List.length_cons, List.length_nil, List.length_append] at hlength
      omega
  · cases e with
    | nil =>
      obtain ⟨rfl, -⟩ := List.cons.inj he
      rw [List.append_nil] at hl
      exact hl hlooks
    | cons d e =>
      obtain ⟨rfl, -⟩ := List.cons.inj he
      exact h front l' e rfl hlooks

theorem short_nil (looks : Text × Text → Bool) (chunkSize : Nat) : Short looks chunkSize [] := by
  intro front l behind h
  cases front <;> cases h

/-- Where the chunk size was reached, the lines were cut. -/
theorem gather_short (hpos : 0 < chunkSize) (ls : List (Text × Text)) (hcurrent : Short cuts chunkSize current) :
    ∀ chunk ∈ gather cuts chunkSize current ls, Short cuts chunkSize chunk := by
  induction ls generalizing current with
  | nil =>
    rw [gather]
    split_ifs
    · intro chunk h
      cases h
    · intro chunk h
      rwa [List.mem_singleton.mp h]
  | cons l ls ih =>
    rw [gather]
    split_ifs with hcut
    · exact List.forall_mem_cons.mpr ⟨hcurrent, ih ((short_nil cuts chunkSize).snoc fun _ => hpos)⟩
    · refine ih (hcurrent.snoc fun hl => ?_)
      rw [hl, Bool.true_and, decide_eq_true_eq] at hcut
      omega

/-- Two ways to cut agree when in the chunks of the one there is no line that only the other cuts at. -/
theorem gather_agree {fewer : Text × Text → Bool} (hfewer : ∀ l, fewer l = true → cuts l = true)
    (ls : List (Text × Text))
    (h : ∀ chunk ∈ gather fewer chunkSize current ls, Short (fun l => cuts l && !fewer l) chunkSize chunk) :
    gather cuts chunkSize current ls = gather fewer chunkSize current ls := by
  induction ls generalizing current with
  | nil => rfl
  | cons l ls ih =>
    rw [gather] at h ⊢
    rw [gather]
    by_cases hcut : (fewer l && decide (chunkSize ≤ (textOf current).length)) = true
    · have hboth := Bool.and_eq_true_iff.mp hcut
      rw [if_pos hcut] at h ⊢
      rw [if_pos (by rw [hfewer l hboth.1, hboth.2]; rfl)]
      rw [ih (List.forall_mem_cons.mp h).2]
    · rw [if_neg hcut] at h ⊢
      have hnot : ¬ (cuts l && decide (chunkSize ≤ (textOf current).length)) = true := by
        intro hcuts
        obtain ⟨hl, hle⟩ := Bool.and_eq_true_iff.mp hcuts
        have hless : fewer l = false := by
          rw [hle, Bool.and_true] at hcut
          exact Bool.of_not_eq_true hcut
        obtain ⟨rest, chunks, heq⟩ := gather_head fewer chunkSize ls
          (List.append_ne_nil_of_right_ne_nil current (List.cons_ne_nil l []))
        have hshort := h _ (heq ▸ List.mem_cons_self) current l rest (by simp) (by simp [hl, hless])
        rw [decide_eq_true_eq] at hle
        omega
      rw [if_neg hnot]
      exact ih h

/-- And when the other cuts only where the one does. -/
theorem gather_agree_of_begins {fewer : Text × Text → Bool} (hfewer : ∀ l, fewer l = true → cuts l = true)
    (ls : List (Text × Text))
    (h : ∀ before chunk after, gather cuts chunkSize current ls = before ++ chunk :: after → before ≠ [] →
      ∀ l ∈ chunk.head?, fewer l = true) :
    gather cuts chunkSize current ls = gather fewer chunkSize current ls := by
  induction ls generalizing current with
  | nil => rfl
  | cons l ls ih =>
    rw [gather] at h ⊢
    rw [gather]
    by_cases hcut : (cuts l && decide (chunkSize ≤ (textOf current).length)) = true
    · rw [if_pos hcut] at h ⊢
      obtain ⟨rest, chunks, heq⟩ := gather_head cuts chunkSize ls (List.cons_ne_nil l [])
      have hfirst : fewer l = true := by
        rw [heq] at h
        exact h [current] ([l] ++ rest) chunks rfl (List.cons_ne_nil _ _) l rfl
      rw [if_pos (by rw [hfirst, (Bool.and_eq_true_iff.mp hcut).2]; rfl)]
      rw [ih fun before chunk after heq' hne =>
        h (current :: before) chunk after (by rw [heq']; rfl) (List.cons_ne_nil _ _)]
    · rw [if_neg hcut] at h ⊢
      have hnot : ¬ (fewer l && decide (chunkSize ≤ (textOf current).length)) = true := by
        intro hboth
        obtain ⟨hl, hle⟩ := Bool.and_eq_true_iff.mp hboth
        rw [hfewer l hl, hle] at hcut
        exact hcut rfl
      rw [if_neg hnot]
      exact ih h

/-! ## The loop -/

/-- The loop gathers the lines and cuts them at every line that looks like a header. -/
theorem foldl_addLine (chunkSize : Nat) (current ls : List (Text × Text)) (c : Chunking)
    (hcurrent : c.current = current.map Prod.snd) (hsize : c.currentSize = (textOf current).length) :
    let c' := (ls.map Prod.snd).foldl (Chunking.addLine chunkSize) c
    (if c'.current = [] then c'.chunks else c'.chunks ++ [c'.current.flatten]) =
      c.chunks ++ (gather isHeader chunkSize current ls).map textOf := by
  induction ls generalizing current c with
  | nil =>
    rw [gather]
    show (if c.current = [] then c.chunks else c.chunks ++ [c.current.flatten]) = _
    by_cases hnil : current = []
    · have hempty : c.current = [] := by rw [hcurrent, hnil, List.map_nil]
      rw [if_pos hempty, if_pos hnil, List.map_nil, List.append_nil]
    · rw [hcurrent, if_neg hnil, if_neg (by simpa using hnil)]
      rfl
  | cons l ls ih =>
    rw [gather, List.map_cons, List.foldl_cons]
    by_cases hcut : (isHeader l && decide (chunkSize ≤ (textOf current).length)) = true
    · have hstep : c.addLine chunkSize l.2 =
          { chunks := c.chunks ++ [c.current.flatten], current := [l.2], currentSize := l.2.length } := by
        unfold Chunking.addLine
        rw [hsize]
        exact if_pos hcut
      rw [if_pos hcut, hstep, List.map_cons]
      have hrest := ih [l]
        { chunks := c.chunks ++ [c.current.flatten], current := [l.2], currentSize := l.2.length } rfl
        (by simp [textOf])
      dsimp only at hrest ⊢
      rw [hrest, List.append_assoc, List.singleton_append, hcurrent]
      rfl
    · have hstep : c.addLine chunkSize l.2 =
          { c with current := c.current ++ [l.2], currentSize := c.currentSize + l.2.length } := by
        unfold Chunking.addLine
        rw [hsize]
        exact if_neg hcut
      rw [if_neg hcut, hstep]
      exact ih (current ++ [l]) _ (by simp [hcurrent]) (by simp [hsize, textOf])

/-- The chunks of a diff that is longer than one chunk. -/
theorem chunkDiff_eq (hlong : chunkSize < diff.length) :
    chunkDiff diff chunkSize = (gather isHeader chunkSize [] (diffLines diff)).map textOf := by
  have hloop := foldl_addLine chunkSize [] (diffLines diff) {} rfl rfl
  have hlines : (diffLines diff).map Prod.snd = Text.splitLines diff := map_snd_placed [] _
  rw [hlines, List.nil_append] at hloop
  have hne : (gather isHeader chunkSize [] (diffLines diff)).map textOf ≠ [] := by
    intro hnil
    have hflatten := flatten_gather isHeader chunkSize [] (diffLines diff)
    rw [List.map_eq_nil_iff.mp hnil, List.flatten_nil, List.nil_append] at hflatten
    have hdiff := textOf_diffLines diff
    rw [← hflatten] at hdiff
    rw [← hdiff] at hlong
    exact Nat.not_lt_zero _ hlong
  unfold chunkDiff
  dsimp only at hloop ⊢
  rw [if_neg (by omega), hloop, if_neg hne]

theorem flatten_map_textOf (gs : List (List (Text × Text))) : (gs.map textOf).flatten = textOf gs.flatten := by
  induction gs with
  | nil => rfl
  | cons g gs ih => rw [List.map_cons, List.flatten_cons, ih, List.flatten_cons, textOf_append]

theorem ne_nil_of_mem_splitLines {t line : Text} (h : line ∈ Text.splitLines t) : line ≠ [] := by
  induction t generalizing line with
  | nil => cases h
  | cons c t ih =>
    rw [Text.splitLines] at h
    split_ifs at h
    · rcases List.mem_cons.mp h with rfl | h
      · exact List.cons_ne_nil c []
      · exact ih h
    · cases hsplit : Text.splitLines t with
      | nil =>
        rw [hsplit] at h
        rw [List.mem_singleton.mp h]
        exact List.cons_ne_nil c []
      | cons first rest =>
        rw [hsplit] at h ih
        rcases List.mem_cons.mp h with rfl | h
        · exact List.cons_ne_nil c first
        · exact ih (List.mem_cons_of_mem first h)

theorem textOf_ne_nil (hne : chunk ≠ []) (h : ∀ l ∈ chunk, l ∈ diffLines diff) : textOf chunk ≠ [] := by
  obtain ⟨l, rest, rfl⟩ := List.exists_cons_of_ne_nil hne
  have hline : l.2 ∈ Text.splitLines diff := by
    have hmem := List.mem_map_of_mem (f := Prod.snd) (h l List.mem_cons_self)
    rwa [diffLines, map_snd_placed] at hmem
  exact List.append_ne_nil_of_left_ne_nil (ne_nil_of_mem_splitLines hline) _

/-- The text in front of a chunk is the one in front of its first line. -/
theorem front_of_chunk {gs before after : List (List (Text × Text))} {rest : List (Text × Text)}
    (hgs : gs.flatten = diffLines diff) (h : gs = before ++ (l :: rest) :: after) :
    l.1 = (before.map textOf).flatten := by
  have hlines : diffLines diff = before.flatten ++ l :: (rest ++ after.flatten) := by
    rw [← hgs, h]
    simp
  have hfront := front_of_placed hlines
  rwa [List.nil_append, ← flatten_map_textOf] at hfront

theorem opensFile_iff : opensFile l = true ↔ isHeader l = true ∧ ∀ c ∈ l.1.getLast?, c = '\n' := by
  unfold opensFile
  rw [Bool.and_eq_true, Option.all_eq_true]
  simp only [beq_iff_eq, Option.mem_def]

theorem header_prefix (h : isHeader l = true) (rest : List (Text × Text)) :
    "diff --git ".toList <+: textOf (l :: rest) :=
  (List.isPrefixOf_iff_prefix.mp h).trans (List.prefix_append l.2 _)

theorem noFalseHeader_of_short (h : diff.length ≤ chunkSize) : NoFalseHeader diff chunkSize := by
  intro chunk hchunk front l behind hsplit hlooks
  have hheader : isHeader l = true := (Bool.and_eq_true_iff.mp hlooks).1
  have hpos : 0 < l.2.length := (List.isPrefixOf_iff_prefix.mp hheader).length_le.trans_lt' (by decide)
  have hle : (textOf chunk).length ≤ diff.length := by
    have hsub := List.sublist_flatten_of_mem (List.mem_map_of_mem (f := textOf) hchunk)
    have hwhole : (fileChunks diff chunkSize).flatten = diffLines diff := flatten_gather _ _ [] _
    rw [flatten_map_textOf, hwhole, textOf_diffLines] at hsub
    exact hsub.length_le
  have hlength : (textOf chunk).length = (textOf front).length + (l.2.length + (textOf behind).length) := by
    rw [hsplit, textOf_append, List.length_append]
    simp [textOf]
  omega

/-- The chunks of a diff are made of whole files just when no chunk of files goes on, behind its chunk size,
with something that looks like the header of a file. -/
theorem wellCut_iff (hpos : 0 < chunkSize) :
    WellCut diff (chunkDiff diff chunkSize) ↔ NoFalseHeader diff chunkSize := by
  by_cases hshort : diff.length ≤ chunkSize
  · have hone : chunkDiff diff chunkSize = [diff] := if_pos hshort
    rw [hone]
    refine iff_of_true ⟨fun hne => ?_, ?_, ?_⟩ (noFalseHeader_of_short hshort)
    · exact ⟨List.cons_ne_nil _ _, fun chunk h => by rwa [List.mem_singleton.mp h]⟩
    · exact List.append_nil diff
    · intro before chunk after h hne
      obtain ⟨b, before, rfl⟩ := List.exists_cons_of_ne_nil hne
      cases before <;> cases h
  · rw [chunkDiff_eq (by omega)]
    have hwhole : (gather isHeader chunkSize [] (diffLines diff)).flatten = diffLines diff :=
      flatten_gather _ _ [] _
    have hopens : ∀ l, opensFile l = true → isHeader l = true := fun l h => (opensFile_iff.mp h).1
    constructor
    · intro hcut
      have hagree : gather isHeader chunkSize [] (diffLines diff) = fileChunks diff chunkSize := by
        refine gather_agree_of_begins hopens _ fun before chunk after h hne l hl => ?_
        obtain ⟨l', rest, rfl, hheader⟩ := gather_begins _ h hne
        obtain rfl : l' = l := Option.some.inj hl
        have hbegins := hcut.begins (before.map textOf) (textOf (l' :: rest)) (after.map textOf)
          (by rw [h, List.map_append, List.map_cons]) (by simpa using hne)
        rw [← front_of_chunk hwhole h] at hbegins
        exact opensFile_iff.mpr ⟨hheader, hbegins.1⟩
      intro chunk hchunk front l behind hsplit hlooks
      rw [← hagree] at hchunk
      exact gather_short hpos _ (short_nil _ _) chunk hchunk front l behind hsplit
        (Bool.and_eq_true_iff.mp hlooks).1
    · intro hfalse
      refine ⟨fun hne => ⟨?_, ?_⟩, ?_, ?_⟩
      · intro hnil
        rw [List.map_eq_nil_iff.mp hnil] at hwhole
        have hdiff := textOf_diffLines diff
        rw [← hwhole] at hdiff
        exact hne hdiff.symm
      · intro chunk hchunk
        obtain ⟨g, hg, rfl⟩ := List.mem_map.mp hchunk
        have hlines : ∀ l ∈ g, l ∈ diffLines diff := by
          intro l hl
          rw [← hwhole]
          exact List.mem_flatten_of_mem hg hl
        exact textOf_ne_nil (gather_ne_nil hpos _ g hg) hlines
      · rw [flatten_map_textOf, hwhole, textOf_diffLines]
      · intro before chunk after h hne
        rw [gather_agree hopens _ hfalse] at h hwhole
        obtain ⟨before, gs, hgs, rfl, hrest⟩ := List.map_eq_append_iff.mp h
        obtain ⟨g, after, rfl, rfl, rfl⟩ := List.map_eq_cons_iff.mp hrest
        have hne' : before ≠ [] := by
          rintro rfl
          exact hne rfl
        obtain ⟨l, rest, rfl, hopen⟩ := gather_begins _ hgs hne'
        rw [← front_of_chunk hwhole hgs]
        exact ⟨(opensFile_iff.mp hopen).2, header_prefix (hopens l hopen) rest⟩

theorem wellCut_iff_twoFiles : 0 < 5 ∧
    (WellCut "diff --git a/a b/a\ndiff --git a/b b/b\n".toList
        (chunkDiff "diff --git a/a b/a\ndiff --git a/b b/b\n".toList 5) ↔
      NoFalseHeader "diff --git a/a b/a\ndiff --git a/b b/b\n".toList 5) :=
  ⟨by decide, wellCut_iff (by decide)⟩

theorem nil_unbroken : '\n' ∉ ([] : Text) := List.not_mem_nil

/-- A new file with one line, in which a form feed stands in front of words that look like a header. -/
def formFeedFile : Git.Diff.FileDiff where
  oldName := none
  newName := some "f".toList
  extended := [.newFileMode 100644, .index 0 0xe69de29 none]
  hunks := [
    { oldStart := 0
      newStart := 1
      heading := ⟨[], nil_unbroken⟩
      lines := [.added ⟨'\x0c' :: "diff --git a/x b/x".toList, by decide⟩] }]
  deleted := fun h => by cases h

set_option maxRecDepth 4000 in
/-- The diff of one file is cut in two. -/
theorem wellCut_formFeedFile :
    ¬ WellCut (Git.Diff.render [formFeedFile]) (chunkDiff (Git.Diff.render [formFeedFile]) 90) := by
  intro h
  have hchunks : ∃ front, chunkDiff (Git.Diff.render [formFeedFile]) 90 =
      [front ++ ['\x0c'], "diff --git a/x b/x\n".toList] :=
    ⟨"diff --git a/f b/f\nnew file mode 100644\nindex 0..e69de29\n--- /dev/null\n+++ b/f\n@@ -0,0 +1 @@\n+".toList,
      by decide⟩
  obtain ⟨front, hchunks⟩ := hchunks
  have hbegins := (h.begins [front ++ ['\x0c']] _ [] hchunks (List.cons_ne_nil _ _)).1 '\x0c' (by simp)
  cases hbegins

end Review
