import SovaVerified.Ipc.Control

/-!
# What the reader of an output file yields

However the process writes the file and whenever the reader polls, the reader yields the lines of the file, each
one once and as a whole, and it comes to the end after the process has.
-/

namespace Ipc

/-! ## Lines -/

theorem takeLines_newline (t : Text) : takeLines ('\n' :: t) = ([] :: (takeLines t).1, (takeLines t).2) := rfl

theorem takeLines_of_nil {c : Char} {t : Text} (hc : c ≠ '\n') (h : (takeLines t).1 = []) :
    takeLines (c :: t) = ([], c :: (takeLines t).2) := by
  simp [takeLines, hc, h]

theorem takeLines_of_cons {c : Char} {t line : Text} {lines : List Text} (hc : c ≠ '\n')
    (h : (takeLines t).1 = line :: lines) : takeLines (c :: t) = ((c :: line) :: lines, (takeLines t).2) := by
  simp [takeLines, hc, h]

theorem takeLines_append (a b : Text) :
    takeLines (a ++ b) = ((takeLines a).1 ++ (takeLines ((takeLines a).2 ++ b)).1,
      (takeLines ((takeLines a).2 ++ b)).2) := by
  induction a with
  | nil => rfl
  | cons c a ih =>
    rw [List.cons_append]
    by_cases hc : c = '\n'
    · rw [hc, takeLines_newline, takeLines_newline, ih]
      rfl
    · cases hlines : (takeLines a).1 with
      | nil =>
        rw [hlines, List.nil_append] at ih
        rw [takeLines_of_nil hc hlines]
        simp only [List.nil_append, List.cons_append, takeLines, ih]
      | cons line lines =>
        rw [hlines] at ih
        rw [takeLines_of_cons hc hlines, takeLines_of_cons hc (congrArg Prod.fst ih), ih]
        rfl

/-- There is no complete line in the rest. -/
theorem takeLines_rest (t : Text) : takeLines (takeLines t).2 = ([], (takeLines t).2) := by
  induction t with
  | nil => rfl
  | cons c t ih =>
    by_cases hc : c = '\n'
    · rw [hc, takeLines_newline]
      exact ih
    · cases hlines : (takeLines t).1 with
      | nil =>
        rw [takeLines_of_nil hc hlines]
        dsimp only
        rw [takeLines_of_nil hc (congrArg Prod.fst ih), ih]
      | cons line lines =>
        rw [takeLines_of_cons hc hlines]
        exact ih

theorem written_append (as bs : List TailAction) : written (as ++ bs) = written as ++ written bs := by
  induction as with
  | nil => rfl
  | cons a as ih =>
    cases a with
    | write t => simp [written, ih]
    | exit => exact ih
    | poll => exact ih

/-! ## Runs -/

theorem chunkSize_pos : 0 < chunkSize := by
  simp [chunkSize]

theorem Tail.poll_of_nil {s : Tail} (h : s.unread = []) : s.poll = if s.exited then
    { s with yielded := s.yielded ++ if s.remainder = [] then [] else [s.remainder], closed := true } else s := by
  unfold Tail.poll
  rw [h, List.take_nil]

theorem Tail.poll_of_ne {s : Tail} (h : s.unread ≠ []) : s.poll =
    { s with
      unread := s.unread.drop chunkSize
      remainder := (takeLines (s.remainder ++ s.unread.take chunkSize)).2
      yielded := s.yielded ++ (takeLines (s.remainder ++ s.unread.take chunkSize)).1 } := by
  unfold Tail.poll
  split
  · next hempty =>
    rcases List.take_eq_nil_iff.mp hempty with hzero | hnil
    · exact absurd hzero (Nat.ne_of_gt chunkSize_pos)
    · exact absurd hnil h
  · rfl

/-- The reader after the actions. -/
structure Tails (as : List TailAction) (s : Tail) : Prop where
  rest : takeLines s.remainder = ([], s.remainder)
  lines : s.closed = false → takeLines (written as) =
    (s.yielded ++ (takeLines (s.remainder ++ s.unread)).1, (takeLines (s.remainder ++ s.unread)).2)
  done : s.closed = true → s.exited = true ∧ s.yielded = fileLines (written as)

theorem Tails.write {as : List TailAction} {s : Tail} (h : Tails as s) (hexited : s.exited = false) (t : Text) :
    Tails (as ++ [.write t]) { s with unread := s.unread ++ t } where
  rest := h.rest
  lines hclosed := by
    have hbefore := h.lines hclosed
    rw [written_append, written, written, List.append_nil, takeLines_append, hbefore]
    dsimp only
    rw [← List.append_assoc s.remainder, takeLines_append (s.remainder ++ s.unread), List.append_assoc]
  done hclosed := by
    have hended := (h.done hclosed).1
    rw [hexited] at hended
    cases hended

theorem Tails.poll {as : List TailAction} {s : Tail} (h : Tails as s) (hclosed : s.closed = false) :
    Tails (as ++ [.poll]) s.poll := by
  have hbefore := h.lines hclosed
  have hwritten : written (as ++ [.poll]) = written as := (written_append as _).trans (List.append_nil _)
  by_cases hunread : s.unread = []
  · rw [Tail.poll_of_nil hunread]
    rw [hunread, List.append_nil, h.rest, List.append_nil] at hbefore
    split
    · next hexited =>
      refine ⟨h.rest, fun hopen => (by cases hopen), fun _ => ⟨hexited, ?_⟩⟩
      rw [hwritten, fileLines, hbefore]
    · refine ⟨h.rest, fun _ => ?_, fun hdone => ?_⟩
      · rw [hwritten, hunread, List.append_nil, h.rest, List.append_nil]
        exact hbefore
      · rw [hclosed] at hdone
        cases hdone
  · rw [Tail.poll_of_ne hunread]
    refine ⟨takeLines_rest _, fun _ => ?_, fun hdone => ?_⟩
    · rw [hwritten, hbefore]
      conv_lhs => rw [← List.take_append_drop chunkSize s.unread, ← List.append_assoc, takeLines_append]
      dsimp only
      rw [List.append_assoc]
    · rw [hclosed] at hdone
      cases hdone

theorem tails_run {as : List TailAction} {s : Tail} (h : Runs.exec tailStep {} as = some s) : Tails as s := by
  refine Runs.history_invariant (P := Tails) ⟨rfl, fun _ => rfl, fun hclosed => by cases hclosed⟩ ?_ h
  intro as s a s' _ hs hstep
  cases a with
  | write t =>
    simp only [tailStep] at hstep
    split at hstep
    · cases hstep
    · next hexited =>
      cases hstep
      exact hs.write (by simpa using hexited) t
  | exit =>
    simp only [tailStep] at hstep
    split at hstep
    · cases hstep
    · next hexited =>
      cases hstep
      have hwritten : written (as ++ [.exit]) = written as :=
        (written_append as _).trans (List.append_nil _)
      refine ⟨hs.rest, fun hclosed => ?_, fun hclosed => ⟨rfl, ?_⟩⟩
      · rw [hwritten]
        exact hs.lines hclosed
      · rw [hwritten]
        exact (hs.done hclosed).2
  | poll =>
    simp only [tailStep] at hstep
    split at hstep
    · cases hstep
    · next hclosed =>
      cases hstep
      exact hs.poll (by simpa using hclosed)

/-! ## The end -/

/-- The number of polls that come to the end of a file of `n` characters. -/
def pollsFor (n : Nat) : Nat := (n + (chunkSize - 1)) / chunkSize + 1

theorem pollsFor_zero : pollsFor 0 = 1 := rfl

theorem pollsFor_sub {n : Nat} (h : 0 < n) : pollsFor (n - chunkSize) + 1 = pollsFor n := by
  unfold pollsFor chunkSize
  omega

/-- Once the process has ended, the reader reads the rest of the file and returns. -/
theorem poll_closes {s : Tail} (hexited : s.exited = true) (hclosed : s.closed = false) :
    ∃ t, Runs.exec tailStep s (List.replicate (pollsFor s.unread.length) .poll) = some t ∧ t.closed = true := by
  induction hlength : s.unread.length using Nat.strongRecOn generalizing s with
  | _ size ih =>
    have hstep : tailStep s .poll = some s.poll := by simp [tailStep, hclosed]
    by_cases hunread : s.unread = []
    · have hsize : size = 0 := by rw [← hlength, hunread, List.length_nil]
      have hpoll : s.poll.closed = true := by rw [Tail.poll_of_nil hunread, if_pos hexited]
      rw [hsize, pollsFor_zero]
      exact ⟨s.poll, by simp [Runs.exec, hstep], hpoll⟩
    · have hpos : 0 < size := by
        rw [← hlength]
        exact List.length_pos_iff.mpr hunread
      have hsize : s.poll.unread.length = size - chunkSize := by
        rw [Tail.poll_of_ne hunread, List.length_drop, hlength]
      obtain ⟨t, hrun, ht⟩ := ih (size - chunkSize) (Nat.sub_lt hpos chunkSize_pos)
        (by rw [Tail.poll_of_ne hunread]; exact hexited) (by rw [Tail.poll_of_ne hunread]; exact hclosed) hsize
      refine ⟨t, ?_, ht⟩
      rw [← pollsFor_sub hpos, List.replicate_succ, Runs.exec, hstep, Option.bind_some]
      exact hrun

/-- A process that writes a line in two pieces. -/
def twoPieces : List TailAction :=
  [.write "a\nb".toList, .poll, .write "c\nd".toList, .poll, .exit, .poll]

end Ipc
