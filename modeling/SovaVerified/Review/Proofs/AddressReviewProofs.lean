import Mathlib.Algebra.Order.Group.Nat
import Mathlib.Data.List.Perm.Basic
import SovaVerified.Regex.Proofs.SearchProofs
import SovaVerified.Review.AddressReview
import SovaVerified.Review.Proofs.FormatProofs

/-!
# A finding's line read back

The line that the formatter writes for a finding is read as the finding: its severity, its category and its
location come back as they were written (`read_formatFindingLine`, `splitLocation_of_line`), as long as none
of them ends the field it stands in.
-/

namespace Review

open Text Regex

/-! ## A finding's line -/

/-- What stands behind the location of a finding. -/
def findingText (keys : List (Text × Int)) (f : Finding) : Text :=
  if f.inlined keys then inlineCommentStub
  else if f.fix = [] then f.desc
  else f.desc ++ " Fix: ".toList ++ f.fix

theorem formatFindingLine_eq (keys : List (Text × Int)) (f : Finding) :
    formatFindingLine keys f =
      findingHead f ++ f.cat ++ "] `".toList ++ f.loc ++ "`: ".toList ++ findingText keys f := by
  unfold formatFindingLine findingText
  split_ifs
  · rfl
  · rfl
  · simp only [List.append_assoc]

/-- What the line of a finding is read as. -/
def Finding.readBack (keys : List (Text × Int)) (f : Finding) : Option ParsedFinding :=
  (splitLocation f.loc).map fun location => {
    file := location.1
    line := location.2
    severity := clampSeverity f.severityOr5
    category := lower (strip f.cat)
    description := strip (splitOnFixMarker (strip (findingText keys f))).1
    suggestion := strip (splitOnFixMarker (strip (findingText keys f))).2 }

theorem isSpace_of_mem_ofInt {n : Int} {c : Char} (h : c ∈ ofInt n) : isSpace c = false := by
  rcases mem_ofInt h with rfl | hc
  · rfl
  · have hrange : 48 ≤ c.toNat ∧ c.toNat ≤ 57 := by
      unfold Char.isDigit at hc
      simp only [Bool.and_eq_true, decide_eq_true_eq] at hc
      exact ⟨UInt32.le_iff_toNat_le.mp hc.1, UInt32.le_iff_toNat_le.mp hc.2⟩
    unfold isSpace
    simp only [Bool.or_eq_false_iff, Bool.and_eq_false_iff, decide_eq_false_iff_not, beq_eq_false_iff_ne]
    omega

theorem isLineBreak_of_mem_ofInt {n : Int} {c : Char} (h : c ∈ ofInt n) : isLineBreak c = false :=
  isLineBreak_eq_false (isSpace_of_mem_ofInt h)

theorem forall_mem_append {p : Char → Prop} {a b : Text} (ha : ∀ c ∈ a, p c) (hb : ∀ c ∈ b, p c) :
    ∀ c ∈ a ++ b, p c := by
  intro c hc
  rcases List.mem_append.mp hc with hc | hc
  · exact ha c hc
  · exact hb c hc

theorem isLineBreak_severityLabel (s : Int) : ∀ c ∈ severityLabel s, isLineBreak c = false := by
  unfold severityLabel
  split_ifs <;> exact forall_mem_of_all (by decide)

theorem isLineBreak_findingHead (f : Finding) : ∀ c ∈ findingHead f, isLineBreak c = false := by
  unfold findingHead
  exact forall_mem_append (forall_mem_append (forall_mem_append (forall_mem_append (forall_mem_of_all (by decide))
    (isLineBreak_severityLabel _)) (forall_mem_of_all (by decide))) fun _ => isLineBreak_of_mem_ofInt)
    (forall_mem_of_all (by decide))

theorem isLineBreak_desc (f : Finding) : ∀ c ∈ f.desc, isLineBreak c = false := by
  have hmissing : ∀ c ∈ "Issue detected".toList, isLineBreak c = false := forall_mem_of_all (by decide)
  unfold Finding.desc
  split
  · exact fun _ => isLineBreak_of_mem_flatten
  · exact hmissing

theorem isLineBreak_findingText (keys : List (Text × Int)) (f : Finding) :
    ∀ c ∈ findingText keys f, isLineBreak c = false := by
  have hstub : ∀ c ∈ inlineCommentStub, isLineBreak c = false := forall_mem_of_all (by decide)
  have hmarker : ∀ c ∈ " Fix: ".toList, isLineBreak c = false := forall_mem_of_all (by decide)
  unfold findingText
  split_ifs
  · exact hstub
  · exact isLineBreak_desc f
  · exact forall_mem_append (forall_mem_append (isLineBreak_desc f) hmarker) fun _ => isLineBreak_of_mem_flatten

theorem isLineBreak_loc {f : Finding} (hf : f.Separate) : ∀ c ∈ f.loc, isLineBreak c = false := by
  have hfile : ∀ c ∈ f.filePath, isLineBreak c = false := fun c hc => (hf.filePath c hc).2
  unfold Finding.loc
  split
  · exact forall_mem_append (forall_mem_append hfile (forall_mem_of_all (by decide)))
      fun _ => isLineBreak_of_mem_ofInt
  · exact hfile

theorem isLineBreak_formatFindingLine {f : Finding} (hf : f.Separate) (keys : List (Text × Int)) :
    ∀ c ∈ formatFindingLine keys f, isLineBreak c = false := by
  have hcat : ∀ c ∈ f.cat, isLineBreak c = false := fun c hc => (hf.cat c hc).2
  have hmiddle : ∀ c ∈ "] `".toList, isLineBreak c = false := forall_mem_of_all (by decide)
  have hend : ∀ c ∈ "`: ".toList, isLineBreak c = false := forall_mem_of_all (by decide)
  rw [formatFindingLine_eq]
  exact forall_mem_append (forall_mem_append (forall_mem_append (forall_mem_append (forall_mem_append
    (isLineBreak_findingHead f) hcat) hmiddle) (isLineBreak_loc hf)) hend) (isLineBreak_findingText keys f)

theorem isWord_severityLabel (A : Alphabet) (s : Int) :
    1 ≤ (severityLabel s).length ∧ ∀ c ∈ severityLabel s, A.isWord c = true := by
  have hword : ∀ {t : Text}, (t.all fun c => decide (c.toNat < 128) && c.isAlphanum) = true →
      ∀ c ∈ t, A.isWord c = true := by
    intro t ht c hc
    have hboth := List.all_eq_true.mp ht c hc
    simp only [Bool.and_eq_true, decide_eq_true_eq] at hboth
    unfold Alphabet.isWord
    rw [A.ascii c hboth.1, hboth.2]
    rfl
  unfold severityLabel
  split_ifs <;> exact ⟨by decide, hword (by decide)⟩

theorem isWord_blank (A : Alphabet) : A.isWord ' ' = false := by
  unfold Alphabet.isWord
  rw [A.not_space ' ' rfl]
  rfl

/-- The severity of a line is read as it was written. -/
theorem exists_ofInt_clampSeverity (s : Int) :
    1 ≤ (ofInt (clampSeverity s)).length ∧ (∀ c ∈ ofInt (clampSeverity s), isDecimal c = true) ∧
      intOfDigits (ofInt (clampSeverity s)) = some (clampSeverity s) := by
  obtain ⟨n, hn⟩ := Int.eq_ofNat_of_zero_le (show 0 ≤ clampSeverity s by unfold clampSeverity; omega)
  have hdigits : ∀ c ∈ ofInt n, isDecimal c = true :=
    fun c hc => isDecimal_of_isDigit (isDigit_of_mem_toString hc)
  rw [hn]
  refine ⟨List.length_pos_iff.mpr (toString_ne_nil n), hdigits, ?_⟩
  unfold intOfDigits
  rw [if_pos (List.all_eq_true.mpr hdigits)]
  exact congrArg (fun m : Nat => some (m : Int)) (toNat_toString n)

/-- The line without white space at its ends, as far as the expression takes it apart. -/
theorem strip_formatFindingLine (keys : List (Text × Int)) (f : Finding) :
    ∃ blanks, (∀ c ∈ blanks, isSpace c = true) ∧
      strip (formatFindingLine keys f) =
        "-".toList ++ (" ".toList ++ ("**[".toList ++ (severityLabel (clampSeverity f.severityOr5) ++ (" ".toList ++
          (ofInt (clampSeverity f.severityOr5) ++ ("/10]**".toList ++ (" ".toList ++ ("[".toList ++ (f.cat ++
            ("]".toList ++ (" ".toList ++ ("`".toList ++ (f.loc ++ ("`:".toList ++
              (blanks ++ strip (findingText keys f)))))))))))))))) := by
  obtain ⟨blanks, hback, hblanks⟩ := rstrip_eq_append_strip (' ' :: findingText keys f)
  refine ⟨blanks, hblanks, ?_⟩
  have hline : formatFindingLine keys f =
      (findingHead f ++ f.cat ++ "] `".toList ++ f.loc ++ ['`']) ++ [':'] ++ (' ' :: findingText keys f) := by
    rw [formatFindingLine_eq]
    simp
  have hstrip : strip (' ' :: findingText keys f) = strip (findingText keys f) := rfl
  rw [strip_eq, lstrip_of_head, hline, rstrip_append_snoc (by decide), hback, hstrip]
  · unfold findingHead
    simp
  · rw [formatFindingLine_eq]
    rintro c hc
    cases hc
    rfl

theorem matchLine_formatFindingLine (A : Alphabet) {f : Finding} (hf : f.Separate) (keys : List (Text × Int)) :
    (findingLineRe A).matchLine (strip (formatFindingLine keys f)) =
      some [(4, strip (findingText keys f)), (3, f.loc), (2, f.cat), (1, ofInt (clampSeverity f.severityOr5))] := by
  obtain ⟨blanks, hblanks, hline⟩ := strip_formatFindingLine keys f
  obtain ⟨hlong, hdecimal, -⟩ := exists_ofInt_clampSeverity f.severityOr5
  obtain ⟨hlabel, hword⟩ := isWord_severityLabel A (clampSeverity f.severityOr5)
  have hblank : ∀ c ∈ " ".toList, isSpace c = true := forall_mem_of_all (by decide)
  have hcat : ∀ c ∈ f.cat, (c != ']') = true := fun c hc => bne_iff_ne.mpr (hf.cat c hc).1
  have hloc : ∀ c ∈ f.loc, (c != '`') = true := by
    have hfile : ∀ c ∈ f.filePath, (c != '`') = true := fun c hc => bne_iff_ne.mpr (hf.filePath c hc).1
    unfold Finding.loc
    split
    · refine forall_mem_append (forall_mem_append hfile (forall_mem_of_all (by decide))) fun c hc => ?_
      refine bne_iff_ne.mpr ?_
      rintro rfl
      rcases mem_ofInt hc with h | h <;> revert h <;> decide
    · exact hfile
  have hrest : ∀ c ∈ strip (findingText keys f), (c != '\n') = true := by
    intro c hc
    refine bne_iff_ne.mpr ?_
    rintro rfl
    obtain ⟨a, b, hsplit, -, -⟩ := strip_spec (findingText keys f)
    have hmem : '\n' ∈ findingText keys f := by
      rw [hsplit]
      exact List.mem_append_right _ (List.mem_append_left _ hc)
    exact absurd (isLineBreak_findingText keys f '\n' hmem) (by decide)
  have hseverity : ∀ u : Text, ∀ c ∈ (ofInt (clampSeverity f.severityOr5) ++ u).head?, isSpace c = false := by
    obtain ⟨d, digits, hcons⟩ := List.exists_cons_of_ne_nil (List.length_pos_iff.mp hlong)
    rw [hcons]
    rintro u c hc
    cases hc
    exact isSpace_of_mem_ofInt (hcons ▸ List.mem_cons_self ..)
  rw [hline]
  unfold matchLine findingLineRe cat
  simp only [List.foldr_cons, List.foldr_nil]
  rw [run_seq, run_exact, run_seq]
  refine run_rep_all (Nat.le_refl _) (by simp) hblank (by simp; decide) ?_
  rw [run_seq, run_exact, run_seq]
  refine run_rep_all hlabel (by simp) hword (by simp [isWord_blank]) ?_
  rw [run_seq]
  refine run_rep_all (Nat.le_refl _) (by simp) hblank (hseverity _) ?_
  rw [run_seq, run_cap]
  refine run_rep_all hlong (by simp) hdecimal (by simp; decide) ?_
  rw [take_captured, run_seq, run_exact, run_seq]
  refine run_rep_all (Nat.zero_le _) (by simp) hblank (by simp; decide) ?_
  rw [run_seq, run_exact, run_seq, run_cap]
  refine run_rep_all (Nat.zero_le _) (by simp) hcat (by simp) ?_
  rw [take_captured, run_seq, run_exact, run_seq]
  refine run_rep_all (Nat.zero_le _) (by simp) hblank (by simp; decide) ?_
  rw [run_seq, run_exact, run_seq, run_cap]
  refine run_rep_all (Nat.zero_le _) (by simp) hloc (by simp) ?_
  rw [take_captured, run_seq, run_exact, run_seq]
  refine run_rep_all (Nat.zero_le _) (by simp) hblanks (head_strip _) ?_
  rw [run_seq, run_cap, ← List.append_nil (strip (findingText keys f))]
  refine run_rep_all (Nat.zero_le _) (by simp) hrest (by simp) ?_
  rw [take_captured, List.append_nil]
  rfl

theorem read_formatFindingLine (A : Alphabet) {f : Finding} (hf : f.Separate) (keys : List (Text × Int)) :
    (pieces (formatFindingLine keys f)).flatMap (readFindingLine A) = [f.readBack keys] := by
  obtain ⟨-, -, hint⟩ := exists_ofInt_clampSeverity f.severityOr5
  rw [pieces_eq_singleton (isLineBreak_formatFindingLine hf keys), List.flatMap_singleton]
  unfold readFindingLine
  rw [matchLine_formatFindingLine A hf keys]
  have hfinding : findingOfGroups [(4, strip (findingText keys f)), (3, f.loc), (2, f.cat),
      (1, ofInt (clampSeverity f.severityOr5))] = f.readBack keys := by
    unfold findingOfGroups Finding.readBack
    show (splitLocation f.loc).bind (fun p => (intOfDigits (ofInt (clampSeverity f.severityOr5))).bind _) = _
    rw [hint]
    cases splitLocation f.loc with
    | none => rfl
    | some p => rfl
  exact congrArg (fun x => [x]) hfinding

/-! ## Locations -/

theorem splitLocation_of_line (file : Text) (n : Nat) :
    splitLocation (file ++ ":".toList ++ ofInt n) = some (file, some (n : Int)) := by
  have hdecimal : ∀ c ∈ ofInt n, isDecimal c = true :=
    fun c hc => isDecimal_of_isDigit (isDigit_of_mem_toString hc)
  have hcolon : ':' ∉ ofInt n := by
    intro h
    rcases mem_ofInt h with h | h <;> revert h <;> decide
  have hnumber : isDigits (ofInt n) = true := by
    unfold isDigits
    rw [Bool.and_eq_true, List.all_eq_true]
    refine ⟨?_, fun c hc => ?_⟩
    · rw [Bool.not_eq_true', List.isEmpty_eq_false_iff]
      exact toString_ne_nil n
    · unfold isDigit
      rw [hdecimal c hc]
      rfl
  have hint : intOfDigits (ofInt n) = some (n : Int) := by
    unfold intOfDigits
    rw [if_pos (List.all_eq_true.mpr hdecimal)]
    exact congrArg (fun m : Nat => some (m : Int)) (toNat_toString n)
  have hsplit : rpartition ':' (file ++ ":".toList ++ ofInt n) = some (file, ofInt n) := by
    rw [List.append_assoc]
    exact rpartition_append hcolon file
  unfold splitLocation
  rw [hsplit]
  simp only
  rw [if_pos hnumber, hint]
  rfl

theorem splitLocation_of_file {file : Text} (h : endsInLine file = false) :
    splitLocation file = some (file, none) := by
  unfold endsInLine at h
  unfold splitLocation
  cases hparts : rpartition ':' file with
  | none => rfl
  | some parts =>
    rw [hparts] at h
    obtain ⟨hnumber, hrange⟩ := Bool.or_eq_false_iff.mp h
    simp only
    rw [if_neg (Bool.eq_false_iff.mp hnumber), if_neg (Bool.eq_false_iff.mp hrange)]

/-- A file that ends in a line is read as a shorter one. -/
theorem length_of_endsInLine {file : Text} (h : endsInLine file = true) {location : Text × Option Int}
    (hread : splitLocation file = some location) : location.1.length < file.length := by
  unfold endsInLine at h
  unfold splitLocation at hread
  cases hparts : rpartition ':' file with
  | none =>
    rw [hparts] at h
    cases h
  | some parts =>
    obtain ⟨hfile, -⟩ := rpartition_eq_some hparts
    have hlength : parts.1.length < file.length := by
      rw [hfile, List.length_append, List.length_cons]
      omega
    rw [hparts] at h hread
    simp only at hread
    split_ifs at hread with hnumber hrange
    · obtain ⟨n, -, rfl⟩ := Option.map_eq_some_iff.mp hread
      exact hlength
    · obtain rfl := Option.some.inj hread
      exact hlength
    · rcases Bool.or_eq_true_iff.mp h with h | h
      · exact absurd h hnumber
      · exact absurd h hrange

theorem line_nonneg_of_splitLocation {t file : Text} {n : Int} (h : splitLocation t = some (file, some n)) :
    0 ≤ n := by
  unfold splitLocation at h
  split at h
  · cases h
  · split_ifs at h
    · obtain ⟨m, hm, heq⟩ := Option.map_eq_some_iff.mp h
      unfold intOfDigits at hm
      split_ifs at hm
      obtain rfl := Option.some.inj hm
      obtain ⟨-, hn⟩ := Prod.mk.inj heq
      rw [← Option.some.inj hn]
      exact Int.natCast_nonneg _
    · cases h
    · cases h

end Review

/-!
# A review body read back

The body of a review is read back line by line: each line that the formatter writes either opens a section,
is passed over, or is a finding. So what is parsed of a body is what is read of the lines of its findings, in
an order of the parser's own (`parseReviewBody_formatReviewBody`).
-/

namespace Review

open Text Regex

/-! ## Sections, line by line -/

/-- The findings of a text; what stands before the first heading belongs to a section that is read or
not. -/
def readSections (A : Alphabet) (inside : Bool) (t : Text) : List (Option ParsedFinding) :=
  (if inside then readFindingLines A (cutSections 0 true t).1 else []) ++
    (cutSections 0 true t).2.flatMap fun s => if isStructured (rstrip s.1) then readFindingLines A s.2 else []

/-- A line without a heading does not match, whatever follows it. -/
theorem matchRest_eq_none {l : Text} (hl : headingOf l = none) (hnl : '\n' ∉ l) (t : Text) :
    matchRest sectionHeadingRe (l ++ '\n' :: t) = none := by
  cases hmatch : matchRest sectionHeadingRe (l ++ '\n' :: t) with
  | none => rfl
  | some m =>
    exfalso
    obtain ⟨u, v, hsplit, hu, -⟩ := (run_isSome_iff sectionHeadingRe _ [] (fun rest g => some (g, rest))
      (fun _ _ _ => rfl)).mp (by unfold matchRest at hmatch; rw [hmatch]; rfl)
    obtain ⟨front, u, rfl, hfront, spaces, u, rfl, ⟨hlong, -, hspaces⟩, -⟩ := hu
    rw [matches_exact.mp hfront, List.append_assoc] at hsplit
    obtain ⟨c, spaces, rfl⟩ := List.exists_cons_of_ne_nil (List.length_pos_iff.mp hlong)
    have hc : isSpace c = true := hspaces c (List.mem_cons_self ..)
    have hopens : ∀ b : Text, isSpace (b.headD '\n') = true → headingOf ("###".toList ++ b) ≠ none := by
      intro b hb hnone
      have hfront : "###".toList.isPrefixOf ("###".toList ++ b) = true :=
        List.isPrefixOf_iff_prefix.mpr (List.prefix_append _ b)
      unfold headingOf at hnone
      rw [hfront, show ("###".toList ++ b).drop 3 = b from rfl, hb] at hnone
      cases hnone
    rcases List.append_eq_append_iff.mp hsplit with ⟨a, ha, hrest⟩ | ⟨b, rfl, hrest⟩
    · cases a with
      | nil =>
        rw [List.append_nil] at ha
        exact hopens [] rfl (by rw [List.append_nil, ha]; exact hl)
      | cons d a =>
        have hd : d = '\n' := (List.cons.inj hrest).1.symm
        have hmem : '\n' ∈ "###".toList := by
          rw [ha, hd]
          exact List.mem_append_right _ (List.mem_cons_self ..)
        revert hmem
        decide
    · refine hopens b ?_ hl
      cases b with
      | nil => rfl
      | cons d b =>
        have hd : c = d := (List.cons.inj hrest).1
        exact hd ▸ hc

/-- A line with a heading matches up to its end. -/
theorem matchRest_heading {l h : Text} (hl : headingOf l = some h) (hne : h ≠ []) (hnl : '\n' ∉ l) (t : Text) :
    matchRest sectionHeadingRe (l ++ '\n' :: t) = some ([(1, h)], '\n' :: t) := by
  unfold headingOf at hl
  split_ifs at hl with hopens
  obtain ⟨hfront, hspace⟩ := Bool.and_eq_true_iff.mp hopens
  obtain ⟨b, rfl⟩ := List.isPrefixOf_iff_prefix.mp hfront
  have hdrop : ("###".toList ++ b).drop 3 = b := rfl
  rw [hdrop, Option.some.injEq] at hl
  rw [hdrop] at hspace
  have hb : b = b.takeWhile isSpace ++ h := by rw [← hl, List.takeWhile_append_dropWhile]
  have hspaces : ∀ c ∈ b.takeWhile isSpace, isSpace c = true :=
    fun c hc => List.all_eq_true.mp List.all_takeWhile c hc
  have hlong : 1 ≤ (b.takeWhile isSpace).length := by
    cases b with
    | nil => exact absurd (hl.symm.trans rfl) hne
    | cons c b =>
      have hc : isSpace c = true := hspace
      rw [List.takeWhile_cons, hc]
      exact Nat.succ_pos _
  have hhead : ∀ c ∈ (h ++ '\n' :: t).head?, isSpace c = false := by
    intro c hc
    have hnot := List.head?_dropWhile_not isSpace b
    rw [hl] at hnot
    obtain ⟨d, h, rfl⟩ := List.exists_cons_of_ne_nil hne
    cases hc
    simpa using hnot
  have hline : ∀ c ∈ h, (c != '\n') = true := by
    intro c hc
    refine bne_iff_ne.mpr ?_
    rintro rfl
    exact hnl (List.mem_append_right _ (by rw [hb]; exact List.mem_append_right _ hc))
  have htext : "###".toList ++ b ++ '\n' :: t =
      "###".toList ++ (b.takeWhile isSpace ++ (h ++ '\n' :: t)) := by
    rw [List.append_assoc, ← List.append_assoc (b.takeWhile isSpace), ← hb]
  rw [htext]
  unfold matchRest sectionHeadingRe cat
  simp only [List.foldr_cons, List.foldr_nil]
  rw [run_seq, run_exact, run_seq]
  refine run_rep_all hlong (by simp) hspaces hhead ?_
  rw [run_seq, run_cap]
  refine run_rep_all (Nat.zero_le _) (by simp) hline (by simp) ?_
  rw [take_captured]
  rfl

/-- A line that is passed over stays in its section. -/
theorem cutSections_line {l : Text} (hnl : '\n' ∉ l) (t : Text) :
    cutSections 0 false (l ++ '\n' :: t) =
      (l ++ '\n' :: (cutSections 0 true t).1, (cutSections 0 true t).2) := by
  induction l with
  | nil => rfl
  | cons c l ih =>
    obtain ⟨hc, hl⟩ := not_or.mp (mt List.mem_cons.mpr hnl)
    have hbeq : (c == '\n') = false := beq_eq_false_iff_ne.mpr fun heq => hc heq.symm
    rw [List.cons_append, cutSections, hbeq, ih hl]
    rfl

theorem cutSections_plain {l : Text} (hl : headingOf l = none) (hnl : '\n' ∉ l) (t : Text) :
    cutSections 0 true (l ++ '\n' :: t) =
      (l ++ '\n' :: (cutSections 0 true t).1, (cutSections 0 true t).2) := by
  have hnone := matchRest_eq_none hl hnl t
  cases l with
  | nil =>
    rw [List.nil_append] at hnone ⊢
    rw [cutSections, if_pos rfl, hnone]
    rfl
  | cons c l =>
    obtain ⟨hc, hnl⟩ := not_or.mp (mt List.mem_cons.mpr hnl)
    have hbeq : (c == '\n') = false := beq_eq_false_iff_ne.mpr fun heq => hc heq.symm
    rw [List.cons_append] at hnone ⊢
    rw [cutSections, if_pos rfl, hnone, hbeq, cutSections_line hnl]
    rfl

/-- The characters of a heading are skipped. -/
theorem cutSections_skip {l : Text} (hnl : '\n' ∉ l) (t : Text) :
    cutSections l.length false (l ++ '\n' :: t) =
      ('\n' :: (cutSections 0 true t).1, (cutSections 0 true t).2) := by
  induction l with
  | nil => rfl
  | cons c l ih =>
    obtain ⟨hc, hl⟩ := not_or.mp (mt List.mem_cons.mpr hnl)
    have hbeq : (c == '\n') = false := beq_eq_false_iff_ne.mpr fun heq => hc heq.symm
    rw [List.cons_append, List.length_cons, cutSections, hbeq]
    exact ih hl

theorem cutSections_heading {l h : Text} (hl : headingOf l = some h) (hne : h ≠ []) (hnl : '\n' ∉ l)
    (t : Text) :
    cutSections 0 true (l ++ '\n' :: t) =
      ([], (h, '\n' :: (cutSections 0 true t).1) :: (cutSections 0 true t).2) := by
  have hmatch := matchRest_heading hl hne hnl t
  cases l with
  | nil => cases hl
  | cons c l =>
    obtain ⟨hc, hnl⟩ := not_or.mp (mt List.mem_cons.mpr hnl)
    have hbeq : (c == '\n') = false := beq_eq_false_iff_ne.mpr fun heq => hc heq.symm
    have hskip : (l ++ '\n' :: t).length - ('\n' :: t).length = l.length := by
      rw [List.length_append, Nat.add_sub_cancel]
    rw [List.cons_append] at hmatch ⊢
    rw [cutSections, if_pos rfl, hmatch, hbeq]
    simp only
    rw [hskip, cutSections_skip hnl]
    rfl

theorem readFindingLines_append (A : Alphabet) (a b : Text) :
    readFindingLines A (a ++ '\n' :: b) = (pieces a).flatMap (readFindingLine A) ++ readFindingLines A b := by
  unfold readFindingLines
  rw [lines_append_newline, List.flatMap_append]

theorem readSections_plain (A : Alphabet) (inside : Bool) {l : Text} (hl : headingOf l = none) (hnl : '\n' ∉ l)
    (t : Text) :
    readSections A inside (l ++ '\n' :: t) =
      (if inside then (pieces l).flatMap (readFindingLine A) else []) ++ readSections A inside t := by
  unfold readSections
  rw [cutSections_plain hl hnl]
  cases inside with
  | false => rfl
  | true => rw [if_pos rfl, if_pos rfl, if_pos rfl, readFindingLines_append, List.append_assoc]

theorem readSections_heading (A : Alphabet) (inside : Bool) {l h : Text} (hl : headingOf l = some h) (hne : h ≠ [])
    (hnl : '\n' ∉ l) (t : Text) :
    readSections A inside (l ++ '\n' :: t) = readSections A (isStructured (rstrip h)) t := by
  have hfirst : ∀ u : Text, readFindingLines A ('\n' :: u) = readFindingLines A u :=
    fun u => readFindingLines_append A [] u
  have hnil : readFindingLines A [] = [] := rfl
  unfold readSections
  rw [cutSections_heading hl hne hnl, List.flatMap_cons]
  simp only
  rw [hfirst, hnil, ite_self, List.nil_append]

/-- Read from inside or outside of a section, the lines give these findings, and leave the reader inside
or outside. -/
def Reads (A : Alphabet) (inside : Bool) (ls : List Text) (rs : List (Option ParsedFinding)) (after : Bool) : Prop :=
  ∀ t, readSections A inside (ls.flatMap (· ++ ['\n']) ++ t) = rs ++ readSections A after t

variable {A : Alphabet} {inside between after : Bool} {ls ls' : List Text} {rs rs' : List (Option ParsedFinding)}

theorem reads_nil : Reads A inside [] [] inside := fun _ => rfl

theorem Reads.append (h : Reads A inside ls rs between) (h' : Reads A between ls' rs' after) :
    Reads A inside (ls ++ ls') (rs ++ rs') after := by
  intro t
  rw [List.flatMap_append, List.append_assoc, h, h', List.append_assoc]

theorem reads_heading {l h : Text} (hl : headingOf l = some h) (hne : h ≠ []) (hnl : '\n' ∉ l) :
    Reads A inside [l] [] (isStructured (rstrip h)) := by
  intro t
  rw [List.flatMap_cons, List.flatMap_nil, List.append_nil, List.append_assoc]
  exact readSections_heading A inside hl hne hnl t

/-- An empty line is passed over. -/
theorem reads_blank : Reads A inside [[]] [] inside := by
  intro t
  refine (readSections_plain A inside (l := []) rfl (by simp) t).trans ?_
  cases inside <;> rfl

/-- Lines that open no section of findings are passed over outside of one. -/
theorem reads_quiet (h : ∀ l ∈ ls, '\n' ∉ l ∧ QuietLine l) : Reads A false ls [] false := by
  induction ls with
  | nil => exact reads_nil
  | cons l ls ih =>
    obtain ⟨⟨hnl, hquiet⟩, hls⟩ := List.forall_mem_cons.mp h
    have hline : Reads A false [l] [] false := by
      cases hl : headingOf l with
      | none =>
        intro t
        rw [List.flatMap_cons, List.flatMap_nil, List.append_nil, List.append_assoc]
        exact readSections_plain A false hl hnl t
      | some heading =>
        obtain ⟨hne, hstructured⟩ := hquiet heading hl
        rw [← hstructured]
        exact reads_heading hl hne hnl
    exact hline.append (ih hls)

/-! ## The body -/

theorem headingOf_cons {c : Char} (hc : c ≠ '#') (t : Text) : headingOf (c :: t) = none := by
  have hfront : "###".toList.isPrefixOf (c :: t) = false := by
    show (('#' == c) && _) = false
    rw [beq_eq_false_iff_ne.mpr hc.symm]
    rfl
  unfold headingOf
  rw [hfront]
  rfl

theorem quietLine_cons {c : Char} (hc : c ≠ '#') (t : Text) : QuietLine (c :: t) := by
  intro h hh
  rw [headingOf_cons hc] at hh
  cases hh

/-- A line of another kind is no finding. -/
theorem read_other (A : Alphabet) {c : Char} {t : Text} (hc : c ≠ '-') (hspace : isSpace c = false)
    (hbreak : ∀ d ∈ c :: t, isLineBreak d = false) : (pieces (c :: t)).flatMap (readFindingLine A) = [] := by
  have hstrip : strip (c :: t) = c :: rstrip t := by
    rw [strip_eq, lstrip_of_head (by rintro d hd; cases hd; exact hspace)]
    exact rstrip_append_snoc hspace [] t
  have hnone : (findingLineRe A).matchLine (c :: rstrip t) = none := by
    show (if (c == '-') = true then _ else none) = none
    rw [beq_eq_false_iff_ne.mpr hc]
    rfl
  rw [pieces_eq_singleton hbreak, List.flatMap_singleton]
  unfold readFindingLine
  rw [hstrip, hnone]

theorem isLineBreak_countLine (fs : List Finding) : ∀ c ∈ countLine fs, isLineBreak c = false := by
  have hword : ∀ c ∈ (if fs.length = 1 then " finding".toList else " findings".toList), isLineBreak c = false := by
    split_ifs <;> exact forall_mem_of_all (by decide)
  unfold countLine
  exact forall_mem_append (forall_mem_append (forall_mem_append (forall_mem_of_all (by decide))
    fun _ => isLineBreak_of_mem_ofInt) hword) (forall_mem_of_all (by decide))

/-- A line that stands in a section, and what is read of it. -/
structure SectionLine (A : Alphabet) (l : Text) (findings : List (Option ParsedFinding)) : Prop where
  newline : '\n' ∉ l
  heading : headingOf l = none
  read : (pieces l).flatMap (readFindingLine A) = findings

theorem sectionLine_nil (A : Alphabet) : SectionLine A [] [] := ⟨by simp, rfl, rfl⟩

theorem sectionLine_other (A : Alphabet) {c : Char} {t : Text} (hc : c ≠ '-') (hhash : c ≠ '#')
    (hspace : isSpace c = false) (hbreak : ∀ d ∈ c :: t, isLineBreak d = false) : SectionLine A (c :: t) [] :=
  ⟨newline_not_mem hbreak, headingOf_cons hhash t, read_other A hc hspace hbreak⟩

theorem sectionLine_finding (A : Alphabet) {f : Finding} (hf : f.Separate) (keys : List (Text × Int)) :
    SectionLine A (formatFindingLine keys f) [f.readBack keys] := by
  refine ⟨newline_not_mem (isLineBreak_formatFindingLine hf keys), ?_, read_formatFindingLine A hf keys⟩
  rw [formatFindingLine_eq]
  exact headingOf_cons (by decide) _

theorem SectionLine.reads {l : Text} (h : SectionLine A l rs) : Reads A true [l] rs true := by
  intro t
  rw [List.flatMap_cons, List.flatMap_nil, List.append_nil, List.append_assoc]
  refine (readSections_plain A true h.heading h.newline t).trans ?_
  rw [if_pos rfl, h.read]

/-- The lines of a section are read one by one, and each finding is read from its own line. -/
theorem reads_sectionLines {rs : List (List (Option ParsedFinding))} (h : List.Forall₂ (SectionLine A) ls rs) :
    Reads A true ls rs.flatten true := by
  induction h with
  | nil => exact reads_nil
  | cons hl _ ih => exact hl.reads.append ih

theorem reads_findings {fs : List Finding} (hs : ∀ f ∈ fs, f.Separate) (keys : List (Text × Int)) :
    Reads A true ((sortBySeverity fs).map (formatFindingLine keys)) ((sortBySeverity fs).map (Finding.readBack keys))
      true := by
  have hflat : ((sortBySeverity fs).map fun f => [f.readBack keys]).flatten =
      (sortBySeverity fs).map (Finding.readBack keys) := by
    rw [← List.flatMap_def, ← List.map_eq_flatMap]
  rw [← hflat]
  refine reads_sectionLines ?_
  rw [List.forall₂_map_left_iff, List.forall₂_map_right_iff, List.forall₂_same]
  exact fun f hf => sectionLine_finding A (hs f (mem_sortBySeverity.mp hf)) keys

section Body

variable {b : ReviewBody} (hs : ∀ f ∈ b.findings, f.Separate)
include hs

theorem reads_findingLines :
    Reads A true (findingLines b)
      ((sortBySeverity (blockingOf b.thresholds b.findings)).map (Finding.readBack b.inlineCommentKeys)) true := by
  have hblocking : ∀ f ∈ blockingOf b.thresholds b.findings, f.Separate :=
    fun f hf => hs f (List.mem_filter.mp hf).1
  unfold findingLines
  by_cases hnone : blockingOf b.thresholds b.findings = []
  · have htext : SectionLine A (if b.findings = [] then "No issues found after thorough review.".toList
        else "No blocking issues found after thorough review.".toList) [] := by
      split_ifs
      · exact sectionLine_other A (by decide) (by decide) (by decide) (forall_mem_of_all (by decide))
      · exact sectionLine_other A (by decide) (by decide) (by decide) (forall_mem_of_all (by decide))
    simp only [hnone, if_true]
    exact reads_sectionLines (.cons htext .nil)
  · have hcount : SectionLine A (countLine (blockingOf b.thresholds b.findings)) [] :=
      sectionLine_other A (by decide) (by decide) (by decide) (isLineBreak_countLine _)
    simp only [hnone, if_false]
    exact (reads_sectionLines (.cons hcount (.cons (sectionLine_nil A) .nil))).append
      (reads_findings hblocking b.inlineCommentKeys)

theorem reads_advisoryLines :
    Reads A true (advisoryLines b)
      ((sortBySeverity (advisoryOf b.thresholds b.findings)).map (Finding.readBack [])) true := by
  have hadvisory : ∀ f ∈ advisoryOf b.thresholds b.findings, f.Separate :=
    fun f hf => hs f (List.mem_filter.mp hf).1
  unfold advisoryLines
  by_cases hnone : advisoryOf b.thresholds b.findings = []
  · simp only [hnone, if_true]
    exact reads_nil
  · have hcount : SectionLine A (countLine (advisoryOf b.thresholds b.findings) ++
        " (recorded for a later fix round, does not block approval)".toList) [] :=
      sectionLine_other A (by decide) (by decide) (by decide)
        (forall_mem_append (isLineBreak_countLine _) (forall_mem_of_all (by decide)))
    have hheading : Reads A true ["### Advisory (not blocking)".toList] [] true :=
      reads_heading (h := "Advisory (not blocking)".toList) rfl (by decide) (by decide)
    have hlines := reads_sectionLines (.cons (sectionLine_nil A) (.cons hcount (.cons (sectionLine_nil A) .nil)))
    simp only [hnone, if_false]
    exact ((reads_blank.append hheading).append hlines).append (reads_findings hadvisory [])

end Body

theorem reads_positiveLines {b : ReviewBody} (hq : b.Quiet) :
    ∃ after, Reads A true (positiveLines b) [] after := by
  unfold positiveLines
  by_cases hnone : b.positives = []
  · simp only [hnone, if_true]
    exact ⟨true, reads_nil⟩
  · have hheading : Reads A true ["### What's Done Well".toList] [] false :=
      reads_heading (h := "What's Done Well".toList) rfl (by decide) (by decide)
    have hitems : Reads A false (b.positives.map ("- ".toList ++ ·)) [] false := by
      have hlines : (b.positives.map ("- ".toList ++ ·)).flatMap (· ++ ['\n']) =
          (b.positives.flatMap fun p => ("- ".toList ++ p).splitOn '\n').flatMap (· ++ ['\n']) := by
        rw [List.flatMap_map, List.flatMap_assoc]
        simp only [flatMap_splitOn]
      intro t
      rw [hlines]
      refine reads_quiet (fun l hl => ?_) t
      obtain ⟨p, hp, hl⟩ := List.mem_flatMap.mp hl
      exact ⟨not_mem_of_mem_splitOn hl, hq.positives p hp l hl⟩
    simp only [hnone, if_false]
    exact ⟨false, (reads_blank.append hheading).append hitems⟩

/-- The last line of a body. -/
def lastLine (b : ReviewBody) : Text :=
  "**".toList ++ verdictAction b.verdict ++ "**: ".toList ++
    verdictRationale b.thresholds b.verdict b.findings ++ ".".toList

/-- The lines in front of the findings. -/
def frontLines (b : ReviewBody) : List Text :=
  [verdictMarker b.verdict b.sha, [], "## Review: ".toList ++ b.verdict.name, []] ++
    (effectiveSummary b.summary).splitOn '\n' ++ [[]]

/-- The lines from the heading of the findings to the one of the verdict. -/
def sectionLines (b : ReviewBody) : List Text :=
  ["### Findings".toList, []] ++ findingLines b ++ advisoryLines b ++ positiveLines b ++ [[], "### Verdict".toList]

theorem formatReviewBody_eq_lines (b : ReviewBody) :
    formatReviewBody b =
      (frontLines b).flatMap (· ++ ['\n']) ++ ((sectionLines b).flatMap (· ++ ['\n']) ++ lastLine b) := by
  have hfront : (frontLines b).flatMap (· ++ ['\n']) =
      [verdictMarker b.verdict b.sha, [], "## Review: ".toList ++ b.verdict.name, [], effectiveSummary b.summary,
        []].flatMap (· ++ ['\n']) := by
    unfold frontLines
    rw [List.flatMap_append, List.flatMap_append, flatMap_splitOn]
    simp
  rw [hfront, ← List.append_assoc, ← List.flatMap_append, ← join_snoc]
  unfold formatReviewBody sectionLines lastLine
  congr 1
  simp

theorem newline_not_mem_lastLine (b : ReviewBody) : '\n' ∉ lastLine b := by
  have haction : '\n' ∉ verdictAction b.verdict := by cases b.verdict <;> decide
  have hrationale : '\n' ∉ verdictRationale b.thresholds b.verdict b.findings := by
    intro h
    rcases mem_verdictRationale h with h | h <;> revert h <;> decide
  unfold lastLine
  simp only [List.mem_append, not_or]
  exact ⟨⟨⟨⟨by decide, haction⟩, by decide⟩, hrationale⟩, by decide⟩

/-- Behind the last heading nothing is read. -/
theorem readSections_lastLine (A : Alphabet) (b : ReviewBody) : readSections A false (lastLine b) = [] := by
  have hend : ∀ {l : Text}, '\n' ∉ l → cutSections 0 false l = (l, []) := by
    intro l
    induction l with
    | nil => exact fun _ => rfl
    | cons c l ih =>
      intro hnl
      obtain ⟨hc, hl⟩ := not_or.mp (mt List.mem_cons.mpr hnl)
      have hbeq : (c == '\n') = false := beq_eq_false_iff_ne.mpr fun heq => hc heq.symm
      rw [cutSections, hbeq, ih hl]
      rfl
  have hnl := newline_not_mem_lastLine b
  have hstar : ∃ l, lastLine b = '*' :: l := ⟨_, rfl⟩
  obtain ⟨l, hl⟩ := hstar
  rw [hl] at hnl ⊢
  have hmatch : matchRest sectionHeadingRe ('*' :: l) = none := rfl
  have hbeq : ('*' == '\n') = false := rfl
  unfold readSections
  rw [cutSections, if_pos rfl, hmatch, hbeq, hend (not_or.mp (mt List.mem_cons.mpr hnl)).2]
  rfl

theorem newline_not_mem_verdictMarker {b : ReviewBody} (hq : b.Quiet) : '\n' ∉ verdictMarker b.verdict b.sha := by
  have hname : '\n' ∉ lower b.verdict.name := by cases b.verdict <;> decide
  have hsha : ∀ s ∈ b.sha, '\n' ∉ s := by
    intro s hs hmem
    have hhex := ((isSha_iff s).mp (hq.sha s hs)).2.2 '\n' hmem
    revert hhex
    decide
  unfold verdictMarker
  simp only [List.mem_append, not_or]
  refine ⟨⟨⟨by decide, hname⟩, ?_⟩, by decide⟩
  cases hb : b.sha with
  | none => simp
  | some s =>
    cases s with
    | nil => simp
    | cons c s =>
      have hnot := hsha _ hb
      simp only [List.mem_append, not_or]
      exact ⟨by decide, hnot⟩

theorem frontLines_quiet {b : ReviewBody} (hq : b.Quiet) : ∀ l ∈ frontLines b, '\n' ∉ l ∧ QuietLine l := by
  have htitle : '\n' ∉ "## Review: ".toList ++ b.verdict.name ∧ QuietLine ("## Review: ".toList ++ b.verdict.name) := by
    cases b.verdict <;> exact ⟨by decide, fun h hh => nomatch hh⟩
  have hblank : '\n' ∉ ([] : Text) ∧ QuietLine [] := ⟨by simp, fun h hh => nomatch hh⟩
  intro l hl
  unfold frontLines at hl
  simp only [List.mem_append, List.mem_cons, List.not_mem_nil, or_false] at hl
  rcases hl with ((rfl | rfl | rfl | rfl) | hl) | rfl
  · exact ⟨newline_not_mem_verdictMarker hq, quietLine_cons (by decide) _⟩
  · exact hblank
  · exact htitle
  · exact hblank
  · exact ⟨not_mem_of_mem_splitOn hl, hq.summary l hl⟩
  · exact hblank

/-- The findings of the lines of a body, in the order in which they stand there. -/
def Finding.readBacks (b : ReviewBody) : List (Option ParsedFinding) :=
  (sortBySeverity (blockingOf b.thresholds b.findings)).map (Finding.readBack b.inlineCommentKeys) ++
    (sortBySeverity (advisoryOf b.thresholds b.findings)).map (Finding.readBack [])

theorem readSections_formatReviewBody (A : Alphabet) {b : ReviewBody} (hq : b.Quiet)
    (hs : ∀ f ∈ b.findings, f.Separate) :
    readSections A false (formatReviewBody b) = Finding.readBacks b := by
  have hfindings : Reads A false ["### Findings".toList] [] true :=
    reads_heading (h := "Findings".toList) rfl (by decide) (by decide)
  have hverdict : ∀ {inside : Bool}, Reads A inside ["### Verdict".toList] [] false :=
    reads_heading (h := "Verdict".toList) rfl (by decide) (by decide)
  obtain ⟨after, hpositives⟩ := reads_positiveLines (A := A) hq
  have hlines := ((((hfindings.append reads_blank).append (reads_findingLines hs)).append
    (reads_advisoryLines hs)).append hpositives).append (reads_blank.append hverdict)
  have hsections : Reads A false (sectionLines b) (Finding.readBacks b) false := by
    simpa [sectionLines, Finding.readBacks] using hlines
  rw [formatReviewBody_eq_lines, reads_quiet (frontLines_quiet hq), hsections, readSections_lastLine,
    List.append_nil, List.nil_append]

/-! ## Grouped sections -/

theorem flatMap_addSection {β : Type} (p : Text → Bool) (g : Text → List β) (sections : Assoc Text (List Text))
    (s : Text × Text) :
    (((addSection sections s).filter fun e => p e.1).flatMap fun e => e.2.flatMap g).Perm
      (((sections.filter fun e => p e.1).flatMap fun e => e.2.flatMap g) ++ if p (rstrip s.1) then g s.2 else []) := by
  unfold addSection Assoc.push
  induction sections with
  | nil =>
    unfold Assoc.set
    rw [List.filter_cons]
    split_ifs <;> simp [Assoc.get]
  | cons e sections ih =>
    unfold Assoc.set
    rw [Assoc.get_cons]
    by_cases he : e.1 = rstrip s.1
    · rw [if_pos he, if_pos he.symm, List.filter_cons, List.filter_cons, he]
      split_ifs
      · rw [List.flatMap_cons, List.flatMap_cons, Option.getD_some, List.flatMap_append, List.flatMap_singleton,
          List.append_assoc, List.append_assoc]
        exact List.Perm.append_left _ List.perm_append_comm
      · rw [List.append_nil]
    · rw [if_neg he, if_neg fun heq => he heq.symm, List.filter_cons, List.filter_cons]
      split_ifs at ih ⊢
      · rw [List.flatMap_cons, List.flatMap_cons, List.append_assoc]
        exact List.Perm.append_left _ ih
      · rw [List.flatMap_cons, List.flatMap_cons, List.append_assoc]
        exact List.Perm.append_left _ ih
      · exact ih
      · exact ih

/-- Grouping the sections by their headings keeps what is read of them. -/
theorem flatMap_foldl_addSection {β : Type} (p : Text → Bool) (g : Text → List β)
    (sections : Assoc Text (List Text)) (parts : List (Text × Text)) :
    (((parts.foldl addSection sections).filter fun e => p e.1).flatMap fun e => e.2.flatMap g).Perm
      (((sections.filter fun e => p e.1).flatMap fun e => e.2.flatMap g) ++
        parts.flatMap fun s => if p (rstrip s.1) then g s.2 else []) := by
  induction parts generalizing sections with
  | nil => simp
  | cons s parts ih =>
    rw [List.foldl_cons, List.flatMap_cons, ← List.append_assoc]
    exact (ih _).trans ((flatMap_addSection p g sections s).append_right _)

theorem perm_readSections (A : Alphabet) (body : Text) :
    (((extractMarkdownSections body).filter fun e => isStructured e.1).flatMap fun e =>
      e.2.flatMap (readFindingLines A)).Perm (readSections A false body) :=
  flatMap_foldl_addSection isStructured (readFindingLines A) [] (cutSections 0 true body).2

theorem mapM_id_eq_some_iff {α : Type} {xs : List (Option α)} {as : List α} :
    xs.mapM id = some as ↔ xs = as.map some := by
  induction xs generalizing as with
  | nil => cases as <;> simp
  | cons x xs ih =>
    rw [List.mapM_cons]
    cases x with
    | none => cases as <;> simp
    | some a =>
      show (xs.mapM id).bind (fun rest => some (a :: rest)) = some as ↔ _
      rw [Option.bind_eq_some_iff]
      constructor
      · rintro ⟨rest, hrest, heq⟩
        obtain rfl := Option.some.inj heq
        rw [ih.mp hrest, List.map_cons]
      · intro h
        cases as with
        | nil => cases h
        | cons b as =>
          obtain ⟨hab, hrest⟩ := List.cons.inj h
          exact ⟨as, ih.mpr hrest, by rw [Option.some.inj hab]⟩

theorem exists_map_some {α : Type} {xs : List (Option α)} (h : ∀ x ∈ xs, x.isSome = true) :
    ∃ as : List α, as.map some = xs := by
  induction xs with
  | nil => exact ⟨[], rfl⟩
  | cons x xs ih =>
    obtain ⟨hx, hxs⟩ := List.forall_mem_cons.mp h
    obtain ⟨a, rfl⟩ := Option.isSome_iff_exists.mp hx
    obtain ⟨as, rfl⟩ := ih hxs
    exact ⟨a :: as, rfl⟩

/-- A permutation of the images is the image of a permutation. -/
theorem exists_map_of_perm {α β : Type} {f : α → β} {xs : List β} {ys : List α} (h : xs.Perm (ys.map f)) :
    ∃ zs : List α, xs = zs.map f ∧ zs.Perm ys := by
  have hcomp : Relation.Comp (fun l₁ l₂ => l₁ = List.map f l₂) List.Perm xs ys := by
    rw [List.eq_map_comp_perm]
    exact h
  exact hcomp

/-- The findings of the sections are read in some order. -/
theorem perm_of_mapM {α : Type} {xs ys : List (Option α)} (hperm : xs.Perm ys) {as : List α}
    (h : xs.mapM id = some as) : ∃ bs, ys = bs.map some ∧ as.Perm bs := by
  obtain rfl := mapM_id_eq_some_iff.mp h
  obtain ⟨bs, hys, hbs⟩ := exists_map_of_perm hperm.symm
  exact ⟨bs, hys, hbs.symm⟩

/-! ## The parsed body -/

/-- The marker of a body is found. -/
theorem verdictMarker_found {b : ReviewBody} (hq : b.Quiet) :
    (sovaVerdictMarkerRe.search (formatReviewBody b)).isSome = true := by
  have hsha : ∃ sha : Option Sha, b.sha = sha.map Sha.digits := by
    cases hb : b.sha with
    | none => exact ⟨none, rfl⟩
    | some s => exact ⟨some ⟨s, hq.sha s hb⟩, rfl⟩
  obtain ⟨sha, hsha⟩ := hsha
  rw [formatReviewBody_eq, hsha, search_of_matchPrefix (matchPrefix_verdictMarker b.verdict sha _)]
  rfl

/-- Each line that is read leaves the sections behind it as they are. -/
theorem sections_suffix (hls : ∀ l ∈ ls, '\n' ∉ l ∧ QuietLine l) (t : Text) :
    (cutSections 0 true t).2 <:+ (cutSections 0 true (ls.flatMap (· ++ ['\n']) ++ t)).2 := by
  induction ls with
  | nil => exact List.suffix_refl _
  | cons l ls ih =>
    obtain ⟨⟨hnl, hquiet⟩, hls⟩ := List.forall_mem_cons.mp hls
    rw [List.flatMap_cons, List.append_assoc, List.append_assoc, List.singleton_append]
    cases hl : headingOf l with
    | none =>
      rw [cutSections_plain hl hnl]
      exact ih hls
    | some h =>
      rw [cutSections_heading hl (hquiet h hl).1 hnl]
      exact (ih hls).trans (List.suffix_cons _ _)

/-- The heading of the findings is found. -/
theorem exists_findings_section {b : ReviewBody} (hq : b.Quiet) :
    ∃ text, ("Findings".toList, text) ∈ (cutSections 0 true (formatReviewBody b)).2 := by
  have hheading : headingOf "### Findings".toList = some "Findings".toList := rfl
  rw [formatReviewBody_eq_lines]
  obtain ⟨front, hfront⟩ := sections_suffix (frontLines_quiet hq)
    ((sectionLines b).flatMap (· ++ ['\n']) ++ lastLine b)
  obtain ⟨rest, hrest⟩ : ∃ rest, (sectionLines b).flatMap (· ++ ['\n']) ++ lastLine b =
      "### Findings".toList ++ '\n' :: rest := by
    unfold sectionLines
    exact ⟨_, by simp only [List.cons_append, List.flatMap_cons, List.append_assoc]; rfl⟩
  rw [hrest, cutSections_heading hheading (by decide) (by decide)] at hfront
  rw [hrest, ← hfront]
  exact ⟨_, List.mem_append_right _ (List.mem_cons_self ..)⟩

/-- So the body has a section of findings, even when nothing is read of it. -/
theorem structured_ne_nil {b : ReviewBody} (hq : b.Quiet) :
    ((extractMarkdownSections (formatReviewBody b)).filter fun e => isStructured e.1) ≠ [] := by
  obtain ⟨text, hmem⟩ := exists_findings_section hq
  have hperm := flatMap_foldl_addSection isStructured (fun _ => [()]) [] (cutSections 0 true (formatReviewBody b)).2
  intro hnil
  unfold extractMarkdownSections at hnil
  rw [hnil] at hperm
  have hempty := hperm.symm.eq_nil
  have hpart := List.flatMap_eq_nil_iff.mp hempty _ hmem
  cases hpart

/-- The parser raises or returns as the lines of the findings do. -/
theorem parseReviewBody_formatReviewBody (A : Alphabet) {b : ReviewBody} (hq : b.Quiet)
    (hs : ∀ f ∈ b.findings, f.Separate) :
    (∀ parsed, parseReviewBody A (formatReviewBody b) = some parsed →
        (parsed.map some).Perm (Finding.readBacks b)) ∧
      ∀ found : List ParsedFinding, found.map some = Finding.readBacks b →
        ∃ parsed, parseReviewBody A (formatReviewBody b) = some parsed ∧ parsed.Perm found := by
  have hperm := perm_readSections A (formatReviewBody b)
  rw [readSections_formatReviewBody A hq hs] at hperm
  set results := ((extractMarkdownSections (formatReviewBody b)).filter fun e => isStructured e.1).flatMap fun e =>
    e.2.flatMap (readFindingLines A) with hresults
  have hparse : parseReviewBody A (formatReviewBody b) = results.mapM id := by
    unfold parseReviewBody
    dsimp only
    rw [← hresults]
    cases results.mapM id with
    | none => rfl
    | some findings =>
      show (if findings ≠ [] then some findings else _) = some findings
      by_cases hne : findings ≠ []
      · rw [if_pos hne]
      · rw [if_neg hne, if_pos ⟨structured_ne_nil hq, verdictMarker_found hq⟩, not_not.mp hne]
        rfl
  constructor
  · intro parsed h
    rw [hparse] at h
    rw [← mapM_id_eq_some_iff.mp h]
    exact hperm
  · intro found hfound
    rw [← hfound] at hperm
    obtain ⟨parsed, hys, hparsed⟩ := perm_of_mapM hperm.symm (mapM_id_eq_some_iff.mpr rfl)
    exact ⟨parsed, by rw [hparse]; exact mapM_id_eq_some_iff.mpr hys, hparsed.symm⟩

end Review
