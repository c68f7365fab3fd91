import SovaVerified.Core.SpecStamp
import SovaVerified.Utils.Proofs.RemoveSectionProofs

/-!
# The stamp that is read back

The writer puts the stamp below a line of the frontmatter, and the reader takes the first marker of the stamped
frontmatter. The lines above the stamp are the same as before, so the stamp is what is read unless a marker
stands among them.
-/

namespace Core.SpecStamp

open Utils
open Utils.Markdown (Free Fence maskLines fencesAfter onward before removedBoundary openFence)
open Text (unlines AreLines ended)

variable {st : Option Fence} {r : Regex} {content title body hash line : Text} {lines a b ins : List Text}
  {stop : Nat}

/-! ## The lines of the frontmatter -/

/-- The lines up to the first heading of a section. -/
def frontLines (st : Option Fence) (lines : List Text) : List Text :=
  if onward removedBoundary st lines = [] then lines else before removedBoundary st lines ++ [[]]

theorem frontLines_ne_nil (hne : lines ≠ []) (st : Option Fence) : frontLines st lines ≠ [] := by
  unfold frontLines
  split_ifs
  · exact hne
  · simp

theorem areLines_frontLines (h : AreLines lines) (st : Option Fence) : AreLines (frontLines st lines) := by
  unfold frontLines
  split_ifs
  · exact h
  · have hsplit := Markdown.before_append_onward removedBoundary st lines
    have hbefore : AreLines (before removedBoundary st lines) := (hsplit ▸ h).left
    exact hbefore.append (AreLines.cons (by simp) fun l hl => by cases hl)

theorem frontLines_append (hfree : Free removedBoundary st a) (b : List Text) :
    frontLines st (a ++ b) = a ++ frontLines (fencesAfter st a) b := by
  unfold frontLines
  rw [Markdown.onward_append_of_free hfree, Markdown.before_append_of_free hfree]
  split_ifs
  · rfl
  · exact List.append_assoc ..

/-- `_frontmatter_span` on the lines of the text. -/
theorem frontmatterSpan_eq (text : Text) :
    frontmatterSpan text = unlines (maskLines none (frontLines none (text.splitOn '\n'))) := by
  have hfind := Markdown.find_masked Markdown.seesLine_removedBoundary Markdown.hashed_removedBoundary
    (List.splitOn_ne_nil '\n' text) (Text.areLines_splitOn text) none
  have hsearch : Regex.searchLineStart (Regex.exact "## ") (Markdown.maskFencedBlocks text) =
      (Regex.lineStarts (unlines (maskLines none (text.splitOn '\n')))).find? _ := rfl
  unfold frontmatterSpan frontLines
  dsimp only
  rw [hsearch, hfind]
  split_ifs with hnil
  · rfl
  · dsimp only
    obtain ⟨next, behind, hcons⟩ := List.exists_cons_of_ne_nil hnil
    obtain ⟨hsplit, hstate, -⟩ := Markdown.onward_eq_cons hcons
    have hmasked : Markdown.maskFencedBlocks text =
        ended (maskLines none (before removedBoundary none (text.splitOn '\n'))) ++
          unlines (maskLines none (next :: behind)) := by
      have hlines : maskLines none (text.splitOn '\n') =
          maskLines none (before removedBoundary none (text.splitOn '\n')) ++
            maskLines none (next :: behind) := by
        conv_lhs => rw [hsplit, Markdown.maskLines_append, hstate]
      unfold Markdown.maskFencedBlocks
      rw [hlines]
      exact Text.unlines_append _ (Markdown.maskLines_ne_nil (List.cons_ne_nil _ _) none)
    rw [hcons, hmasked, List.length_append, Nat.add_sub_cancel, List.take_left, Markdown.maskLines_append,
      ← Text.unlines_snoc_nil]
    congr 2
    generalize fencesAfter none _ = state
    cases state <;> rfl

/-! ## Anchors -/

/-- A pattern for a line that has something on it. -/
structure Anchor (r : Regex) : Prop where
  oneLine : r.uses '\n' = false
  inked : ∀ u, r.Matches u → ∃ c ∈ u, c ≠ ' '

theorem anchor_complexityLineRe : Anchor complexityLineRe where
  oneLine := by decide
  inked := by
    rintro _ ⟨mark, rest, rfl, hmark, -⟩
    rw [Regex.matches_exact] at hmark
    subst hmark
    exact ⟨'*', by simp, by decide⟩

theorem anchor_titleHeadingRe : Anchor titleHeadingRe where
  oneLine := by decide
  inked := by
    rintro _ ⟨mark, rest, rfl, hmark, -⟩
    rw [Regex.matches_exact] at hmark
    subst hmark
    exact ⟨'#', by simp, by decide⟩

/-- A line that the mask has left as it is stands outside of fences. -/
theorem mask_split {x y : List Text} (h : maskLines st lines = x ++ line :: y) (hline : ∃ c ∈ line, c ≠ ' ') :
    ∃ a b, lines = a ++ line :: b ∧ x = maskLines st a ∧ fencesAfter st (a ++ [line]) = none ∧
      y = maskLines none b ∧ maskLines (fencesAfter st a) [line] = [line] := by
  induction x generalizing st lines with
  | nil =>
    cases lines with
    | nil =>
      rw [Markdown.maskLines_nil] at h
      cases h
    | cons l lines =>
      rw [Markdown.maskLines_cons, List.nil_append] at h
      obtain ⟨hl, hrest⟩ := List.cons_eq_cons.mp h
      have hvisible : Markdown.isVisible st l = true := by
        by_contra hnot
        rw [if_neg hnot] at hl
        obtain ⟨c, hc, hne⟩ := hline
        rw [← hl] at hc
        exact hne (List.eq_of_mem_replicate hc)
      rw [if_pos hvisible] at hl
      subst hl
      have hafter := Markdown.fenceAfter_of_isVisible hvisible
      rw [hafter] at hrest
      refine ⟨[], lines, rfl, (Markdown.maskLines_nil st).symm, hafter, hrest.symm, ?_⟩
      show maskLines st [l] = [l]
      rw [Markdown.maskLines_cons, if_pos hvisible, Markdown.maskLines_nil]
  | cons l' x ih =>
    cases lines with
    | nil =>
      rw [Markdown.maskLines_nil] at h
      cases h
    | cons l lines =>
      rw [Markdown.maskLines_cons, List.cons_append] at h
      obtain ⟨hl, hrest⟩ := List.cons_eq_cons.mp h
      obtain ⟨a, b, rfl, hx, hafter, hy, hmask⟩ := ih hrest
      refine ⟨l :: a, b, rfl, ?_, hafter, hy, hmask⟩
      rw [Markdown.maskLines_cons, hl, hx]

theorem length_ended_maskLines (st : Option Fence) (a : List Text) :
    (ended (maskLines st a)).length = (ended a).length := by
  have hblank : maskLines (fencesAfter st a) [[]] = [[]] := Markdown.maskLines_replicate _ 1
  have hlen := Markdown.length_unlines_maskLines st (a ++ [[]])
  rwa [Markdown.maskLines_append, hblank, Text.unlines_snoc_nil, Text.unlines_snoc_nil] at hlen

theorem unlines_snoc (a : List Text) (line : Text) : unlines (a ++ [line]) = ended a ++ line := by
  rw [Text.unlines_append a (List.cons_ne_nil _ _), Text.unlines_singleton]

theorem unlines_snoc_append (a : List Text) (line : Text) (b : List Text) :
    unlines (a ++ line :: b) = unlines (a ++ [line]) ++ unlines ([] :: b) := by
  rw [Text.unlines_append a (List.cons_ne_nil _ _), Text.unlines_head, unlines_snoc, List.append_assoc]

/-- The anchor of a text: its lines, and the text cut below the line. -/
structure Anchored (content : Text) (a : List Text) (line : Text) (b : List Text) (stop : Nat) : Prop where
  lines : content.splitOn '\n' = a ++ line :: b
  front : content.take stop = unlines (a ++ [line])
  back : content.drop stop = unlines ([] :: b)
  free : Free removedBoundary none (a ++ [line])
  closed : fencesAfter none (a ++ [line]) = none
  head : (frontmatterSpan content).take stop = unlines (maskLines none (a ++ [line]))

/-- The frontmatter goes on with the lines of the text below a line that is in it. -/
theorem frontLines_split (hfront : frontLines st lines = a ++ line :: b) (hline : line ≠ []) :
    (∃ b', lines = a ++ line :: b') ∧ Free removedBoundary st (a ++ [line]) := by
  unfold frontLines at hfront
  split_ifs at hfront with hnil
  · refine ⟨⟨b, hfront⟩, ?_⟩
    have hfree : Free removedBoundary st ((a ++ [line]) ++ b) := by
      rw [List.append_assoc]
      exact hfront ▸ hnil
    exact (Markdown.free_append_iff.mp hfree).1
  · have hsplit := Markdown.before_append_onward removedBoundary st lines
    have hfree := Markdown.free_before removedBoundary st lines
    rcases List.eq_nil_or_concat b with rfl | ⟨b', last, rfl⟩
    · have hlast := congrArg List.getLast? hfront
      rw [List.getLast?_append, List.getLast?_append] at hlast
      exact absurd (Option.some.inj hlast).symm hline
    · have hbefore : before removedBoundary st lines = a ++ line :: b' := by
        have heq : before removedBoundary st lines ++ [[]] = (a ++ line :: b') ++ [last] := by
          rw [hfront]
          simp
        exact (List.append_inj' heq rfl).1
      rw [hbefore] at hsplit hfree
      refine ⟨⟨b' ++ onward removedBoundary st lines, ?_⟩, ?_⟩
      · rw [← List.cons_append, ← List.append_assoc]
        exact hsplit.symm
      · have hfree' : Free removedBoundary st ((a ++ [line]) ++ b') := by
          rw [List.append_assoc]
          exact hfree
        exact (Markdown.free_append_iff.mp hfree').1

/-- What a search for an anchor finds. -/
theorem anchored_of_lineEnd (hr : Anchor r) (h : lineEnd r (frontmatterSpan content) = some stop) :
    ∃ a line b, Anchored content a line b stop := by
  have hls := Text.areLines_splitOn content
  have hne := frontLines_ne_nil (List.splitOn_ne_nil '\n' content) none
  have hmls := Markdown.areLines_maskLines (areLines_frontLines hls none) none
  unfold lineEnd at h
  rw [frontmatterSpan_eq] at h
  obtain ⟨⟨s, rest⟩, hfound, hstop⟩ := Option.map_eq_some_iff.mp h
  rw [Regex.searchLineSpan_eq hr.oneLine] at hfound
  obtain ⟨s', hfirst, heq⟩ := Option.map_eq_some_iff.mp hfound
  cases heq
  unfold Regex.firstLine at hfirst
  rw [Regex.find_lineStarts (Regex.seesLine_matchToLineEnd hr.oneLine)
    (Markdown.maskLines_ne_nil hne none) hmls] at hfirst
  split_ifs at hfirst with hnil
  obtain ⟨line, y, hcons⟩ := List.exists_cons_of_ne_nil hnil
  have hmasked := (List.takeWhile_append_dropWhile (p := fun l => !(Regex.matchToLineEnd r l).isSome)
    (l := maskLines none (frontLines none (content.splitOn '\n')))).symm
  rw [hcons] at hmasked hfirst
  have hhit : (Regex.matchToLineEnd r line).isSome = true := by
    have hnot := List.head?_dropWhile_not (fun l => !(Regex.matchToLineEnd r l).isSome)
      (maskLines none (frontLines none (content.splitOn '\n')))
    rw [hcons] at hnot
    simpa using hnot
  have hinked : ∃ c ∈ line, c ≠ ' ' := by
    obtain ⟨u, v, rfl, hu, -⟩ := (Regex.matchToLineEnd_isSome_iff r line).mp hhit
    obtain ⟨c, hc, hne⟩ := hr.inked u hu
    exact ⟨c, List.mem_append_left v hc, hne⟩
  have hline : line ≠ [] := by
    rintro rfl
    obtain ⟨c, hc, -⟩ := hinked
    cases hc
  obtain ⟨a, b', hfront, hx, hclosed, hy, hmask⟩ := mask_split hmasked hinked
  obtain ⟨⟨b, hlines⟩, hfree⟩ := frontLines_split hfront hline
  have hhead : maskLines none (a ++ [line]) = maskLines none a ++ [line] := by
    rw [Markdown.maskLines_append, hmask]
  -- where the text is cut
  have hnl : '\n' ∉ line := (Text.areLines_cons (hlines ▸ hls).right).1
  obtain rfl : s = unlines (line :: y) := (Option.some.inj hfirst).symm
  have hspan : unlines (maskLines none (frontLines none (content.splitOn '\n'))) =
      unlines (maskLines none a ++ [line]) ++ unlines ([] :: y) := by
    rw [hmasked, hx]
    exact unlines_snoc_append _ _ _
  have hstop' : stop = (unlines (maskLines none a ++ [line])).length := by
    rw [← hstop]
    dsimp only
    rw [Regex.dropWhile_unlines hnl, hspan, List.length_append, Nat.add_sub_cancel]
  have hlength : stop = (unlines (a ++ [line])).length := by
    rw [hstop', unlines_snoc, unlines_snoc, List.length_append, List.length_append, length_ended_maskLines]
  have hcontent : content = unlines (a ++ [line]) ++ unlines ([] :: b) := by
    rw [← unlines_snoc_append, ← hlines]
    exact (Text.unlines_splitOn content).symm
  refine ⟨a, line, b, hlines, ?_, ?_, hfree, hclosed, ?_⟩
  · rw [hlength]
    conv_lhs => rw [hcontent]
    exact List.take_left
  · rw [hlength]
    conv_lhs => rw [hcontent]
    exact List.drop_left
  · rw [frontmatterSpan_eq, hspan, hstop', hhead]
    exact List.take_left

/-! ## The stamp -/

/-- The lines that are put below an anchor, with the text that they are. -/
theorem stamped_eq (h : Anchored content a line b stop) (hins : ins ≠ []) :
    content.take stop ++ '\n' :: unlines ins ++ content.drop stop = unlines ((a ++ [line]) ++ (ins ++ b)) := by
  have hbehind : unlines ([] :: (ins ++ b)) = '\n' :: unlines ins ++ unlines ([] :: b) := by
    obtain ⟨front, last, rfl⟩ := (List.eq_nil_or_concat ins).resolve_left hins
    rw [List.concat_eq_append, List.append_assoc, List.singleton_append, Text.unlines_cons [] (by simp),
      unlines_snoc_append]
    rfl
  have hwhole : unlines ((a ++ [line]) ++ (ins ++ b)) =
      unlines (a ++ [line]) ++ unlines ([] :: (ins ++ b)) := by
    rw [List.append_assoc]
    exact unlines_snoc_append a line (ins ++ b)
  rw [h.front, h.back, hwhole, hbehind, List.append_assoc]

/-- The lines of a stamp: they stand outside of fences, title nothing, and hold the marker with its value. -/
structure Stamp (hash : Text) (ins : List Text) : Prop where
  marks : (ins.findSome? (Regex.search issueRevisionMarkerRe)).bind (·.get 1) = some hash
  areLines : AreLines ins
  visible : ∀ l ∈ ins, openFence l = none
  untitled : ∀ l ∈ ins, removedBoundary l = false

theorem Stamp.ne_nil (h : Stamp hash ins) : ins ≠ [] := by
  rintro rfl
  exact absurd h.marks (by simp)

theorem Stamp.free (h : Stamp hash ins) : Free removedBoundary none ins := by
  have honward := (Markdown.onward_of_visible (p := removedBoundary) h.visible).1
  refine honward.trans (List.dropWhile_eq_nil_iff.mpr fun l hl => ?_)
  rw [h.untitled l hl]
  rfl

/-- The frontmatter of a stamped text. -/
theorem frontmatterSpan_stamped (hstamp : Stamp hash ins) (hb : AreLines b) (ha : AreLines a)
    (hfree : Free removedBoundary none a) (hclosed : fencesAfter none a = none) :
    frontmatterSpan (unlines (a ++ (ins ++ b))) =
      unlines (maskLines none a ++ (ins ++ maskLines none (frontLines none b))) := by
  have hne : a ++ (ins ++ b) ≠ [] := by
    have hins := hstamp.ne_nil
    simp [hins]
  rw [frontmatterSpan_eq, Text.splitOn_unlines hne (ha.append (hstamp.areLines.append hb)),
    frontLines_append hfree, hclosed, frontLines_append hstamp.free,
    Markdown.fencesAfter_of_visible hstamp.visible, Markdown.maskLines_append, hclosed,
    Markdown.maskLines_append, Markdown.fencesAfter_of_visible hstamp.visible, Markdown.maskLines_of_visible hstamp.visible]

/-! ## The fingerprint -/

theorem length_computeIssueRevisionHash (title body : Text) :
    (computeIssueRevisionHash title body).length = issueRevisionHashLen := by
  unfold computeIssueRevisionHash
  rw [List.length_take, Sha256.length_hexdigest]
  rfl

theorem isHex_of_mem_hash {c : Char} (h : c ∈ computeIssueRevisionHash title body) : Sha256.isHex c = true :=
  Sha256.isHex_of_mem_hexdigest (List.mem_of_mem_take h)

theorem isHex_cases {c : Char} (h : Sha256.isHex c = true) :
    (48 ≤ c.toNat ∧ c.toNat ≤ 57) ∨ (97 ≤ c.toNat ∧ c.toNat ≤ 102) := by
  unfold Sha256.isHex at h
  rcases Bool.or_eq_true_iff.mp h with h | h
  · obtain ⟨hlow, hhigh⟩ := Bool.and_eq_true_iff.mp h
    have hlow' : 48 ≤ c.toNat := UInt32.le_iff_toNat_le.mp (of_decide_eq_true hlow)
    have hhigh' : c.toNat ≤ 57 := UInt32.le_iff_toNat_le.mp (of_decide_eq_true hhigh)
    exact .inl ⟨hlow', hhigh'⟩
  · obtain ⟨hlow, hhigh⟩ := Bool.and_eq_true_iff.mp h
    have hlow' : 97 ≤ c.toNat := UInt32.le_iff_toNat_le.mp (of_decide_eq_true hlow)
    have hhigh' : c.toNat ≤ 102 := UInt32.le_iff_toNat_le.mp (of_decide_eq_true hhigh)
    exact .inr ⟨hlow', hhigh'⟩

theorem isSpace_of_isHex {c : Char} (h : Sha256.isHex c = true) : Text.isSpace c = false := by
  have hc := isHex_cases h
  unfold Text.isSpace
  simp only [Bool.or_eq_false_iff, Bool.and_eq_false_iff, decide_eq_false_iff_not, beq_eq_false_iff_ne]
  omega

theorem lowerChar_of_isHex {c : Char} (h : Sha256.isHex c = true) : Text.lowerChar c = [c] := by
  have hc := isHex_cases h
  unfold Text.lowerChar
  rw [if_neg, if_neg (by omega), if_neg (by omega)]
  rintro ⟨hlow, hhigh⟩
  have hlow' : 65 ≤ c.toNat := UInt32.le_iff_toNat_le.mp hlow
  have hhigh' : c.toNat ≤ 90 := UInt32.le_iff_toNat_le.mp hhigh
  omega

/-- The fingerprint of a revision stands for that revision. -/
theorem stands_self (title body : Text) :
    stands (computeIssueRevisionHash title body) (computeIssueRevisionHash title body) = true := by
  have hlower : Text.lower (computeIssueRevisionHash title body) = computeIssueRevisionHash title body := by
    have hall : ∀ t : Text, (∀ c ∈ t, Sha256.isHex c = true) → Text.lower t = t := by
      intro t
      induction t with
      | nil => intro _; rfl
      | cons c t ih =>
        intro ht
        show Text.lowerChar c ++ Text.lower t = c :: t
        rw [lowerChar_of_isHex (ht c (by simp)), ih fun d hd => ht d (by simp [hd])]
        rfl
    exact hall _ fun c hc => isHex_of_mem_hash hc
  have hlen := length_computeIssueRevisionHash title body
  have hhex : Regex.fullMatch hexRe (computeIssueRevisionHash title body) = true := by
    refine (Regex.fullMatch_iff _ _).mpr ⟨hlen.ge, ?_, fun c hc => ?_⟩
    · intro most hmost
      cases hmost
      exact hlen.le
    · have hc := isHex_of_mem_hash hc
      unfold Sha256.isHex at hc
      simp [hc]
  unfold stands
  rw [hhex, hlower, Bool.true_and, beq_self_eq_true]

/-- A value stands for one fingerprint only. -/
theorem stands_unique {raw other : Text} (h : stands raw hash = true) (hother : stands raw other = true) :
    other = hash := by
  unfold stands at h hother
  rw [Bool.and_eq_true, beq_iff_eq] at h hother
  exact hother.2.symm.trans h.2

/-! ## The marker -/

/-- A marker that is found has a value. -/
theorem value_of_search {text : Text} {g : Regex.Groups}
    (h : Regex.search issueRevisionMarkerRe text = some g) : ∃ raw, g.get 1 = some raw := by
  have hprefix : ∀ t : Text, Regex.matchPrefix issueRevisionMarkerRe t = some g →
      ∃ raw, g.get 1 = some raw := by
    intro t ht
    unfold Regex.matchPrefix issueRevisionMarkerRe at ht
    rw [Regex.run_seq] at ht
    obtain ⟨-, behind, g1, -, -, hblanks, -⟩ := Regex.run_eq_some ht
    rw [Regex.run_seq] at hblanks
    obtain ⟨-, value, g2, -, -, hvalue, -⟩ := Regex.run_eq_some hblanks
    rw [Regex.run_cap] at hvalue
    obtain ⟨_, _, g3, _, _, hlast, _⟩ := Regex.run_eq_some hvalue
    obtain rfl := Option.some.inj hlast
    exact ⟨_, rfl⟩
  induction text with
  | nil => exact hprefix [] h
  | cons c text ih =>
    rcases Option.or_eq_some_iff.mp h with hfirst | ⟨-, hrest⟩
    · exact hprefix _ hfirst
    · exact ih hrest

/-- The first marker of the text, or else the one of the stamp. -/
theorem markerValue_stamped (hstamp : Stamp hash ins) (x y : List Text) :
    markerValue (unlines (x ++ (ins ++ y))) = some ((markerValue (unlines x)).getD hash) := by
  have hne : x ++ (ins ++ y) ≠ [] := by
    have hins := hstamp.ne_nil
    simp [hins]
  have hfront : Regex.search issueRevisionMarkerRe (unlines x) =
      x.findSome? (Regex.search issueRevisionMarkerRe) := by
    by_cases hx : x = []
    · subst hx
      rfl
    · exact Regex.search_unlines (by decide) hx
  obtain ⟨g, hg, hhash⟩ := Option.bind_eq_some_iff.mp hstamp.marks
  unfold markerValue
  rw [Regex.search_unlines (by decide) hne, List.findSome?_append, List.findSome?_append, hg, hfront]
  cases hx : x.findSome? (Regex.search issueRevisionMarkerRe) with
  | none => exact hhash
  | some g' =>
    obtain ⟨raw, hraw⟩ := value_of_search (hfront.trans hx)
    show g'.get 1 = some ((g'.get 1).getD hash)
    rw [hraw]
    rfl

/-- The marker on the line of the stamp. -/
theorem search_revisionLine (title body : Text) :
    Regex.search issueRevisionMarkerRe (revisionLine title body) =
      some [(1, computeIssueRevisionHash title body)] := by
  have hvisible : ∀ c ∈ computeIssueRevisionHash title body, Gh.isVisible c = true := by
    intro c hc
    unfold Gh.isVisible
    rw [isSpace_of_isHex (isHex_of_mem_hash hc)]
    rfl
  have hhead : ∀ c ∈ (computeIssueRevisionHash title body).head?, Markdown.isBlank c = false := by
    intro c hc
    have hspace := isSpace_of_isHex (isHex_of_mem_hash (List.mem_of_mem_head? hc))
    rw [Bool.eq_false_iff]
    intro hblank
    unfold Markdown.isBlank at hblank
    rw [Bool.or_eq_true, beq_iff_eq, beq_iff_eq] at hblank
    rcases hblank with rfl | rfl
    · exact absurd hspace (by decide)
    · exact absurd hspace (by decide)
  have hline : revisionLine title body =
      "**Issue revision**:".toList ++ ([' '] ++ (computeIssueRevisionHash title body ++ [])) := by
    rw [List.append_nil]
    rfl
  refine Regex.search_of_matchPrefix ?_
  rw [hline]
  show Regex.run issueRevisionMarkerRe _ [] _ = _
  unfold issueRevisionMarkerRe
  rw [Regex.run_seq, Regex.run_exact, Regex.run_seq]
  refine Regex.run_rep_all (Nat.zero_le _) (by simp) (Text.forall_mem_of_all rfl) (by rwa [List.append_nil]) ?_
  rw [Regex.run_cap]
  refine Regex.run_rep_all (Nat.zero_le _) (by simp) hvisible (by simp) ?_
  rw [Regex.take_captured]

/-! ## Reading the stamp -/

theorem newline_notMem_revisionLine (title body : Text) : '\n' ∉ revisionLine title body := by
  intro h
  rcases List.mem_append.mp h with h | h
  · exact absurd h (by decide)
  · exact absurd (isSpace_of_isHex (isHex_of_mem_hash h)) (by decide)

/-- The line of the stamp, with or without an empty line at its side. -/
theorem stamp_revisionLine (title body : Text) (hins : ∀ l ∈ ins, l = [] ∨ l = revisionLine title body)
    (hmem : ins.findSome? (Regex.search issueRevisionMarkerRe) =
      Regex.search issueRevisionMarkerRe (revisionLine title body)) :
    Stamp (computeIssueRevisionHash title body) ins where
  marks := by
    rw [hmem, search_revisionLine]
    rfl
  areLines := by
    intro l hl
    rcases hins l hl with rfl | rfl
    · simp
    · exact newline_notMem_revisionLine title body
  visible := by
    intro l hl
    rcases hins l hl with rfl | rfl <;> rfl
  untitled := by
    intro l hl
    rcases hins l hl with rfl | rfl <;> rfl

/-- What of the text is above the stamp, as the reader sees it. -/
def stampHead (content : Text) : Text :=
  let frontmatter := frontmatterSpan content
  match lineEnd complexityLineRe frontmatter with
  | some stop => frontmatter.take stop
  | none =>
    match lineEnd titleHeadingRe frontmatter with
    | some stop => frontmatter.take stop
    | none => []

/-- What is read from a text that is stamped below an anchor. -/
theorem markerValue_below (h : Anchored content a line b stop) (hstamp : Stamp hash ins) :
    markerValue (frontmatterSpan (content.take stop ++ '\n' :: unlines ins ++ content.drop stop)) =
      some ((markerValue ((frontmatterSpan content).take stop)).getD hash) := by
  have hls := h.lines ▸ Text.areLines_splitOn content
  have hfront : AreLines (a ++ [line]) := by
    refine AreLines.left (b := b) ?_
    rwa [List.append_assoc]
  rw [stamped_eq h hstamp.ne_nil,
    frontmatterSpan_stamped hstamp (Text.areLines_cons hls.right).2 hfront h.free h.closed,
    markerValue_stamped hstamp, h.head]

/-- The reader takes the first marker above the stamp, or else the stamp. -/
theorem markerValue_stampIssueRevision (content title body : Text) :
    markerValue (frontmatterSpan (stampIssueRevision content title body)) =
      some ((markerValue (stampHead content)).getD (computeIssueRevisionHash title body)) := by
  have hone : Stamp (computeIssueRevisionHash title body) [revisionLine title body] := by
    refine stamp_revisionLine title body (by simp) ?_
    rw [List.findSome?_singleton]
  have htwo : Stamp (computeIssueRevisionHash title body) [[], revisionLine title body] := by
    refine stamp_revisionLine title body (by simp) ?_
    rw [List.findSome?_cons, List.findSome?_singleton]
    rfl
  have hfirst : Stamp (computeIssueRevisionHash title body) [revisionLine title body, []] := by
    refine stamp_revisionLine title body (by simp) ?_
    rw [List.findSome?_cons, search_revisionLine]
  unfold stampIssueRevision stampHead
  dsimp only
  cases hcomplexity : lineEnd complexityLineRe (frontmatterSpan content) with
  | some stop =>
    obtain ⟨a, line, b, hanchor⟩ := anchored_of_lineEnd anchor_complexityLineRe hcomplexity
    have hbelow := markerValue_below hanchor hone
    rwa [Text.unlines_singleton] at hbelow
  | none =>
    dsimp only
    cases htitle : lineEnd titleHeadingRe (frontmatterSpan content) with
    | some stop =>
      obtain ⟨a, line, b, hanchor⟩ := anchored_of_lineEnd anchor_titleHeadingRe htitle
      have hbelow := markerValue_below hanchor htwo
      rwa [Text.unlines_cons [] (List.cons_ne_nil _ _), Text.unlines_singleton, List.nil_append] at hbelow
    | none =>
      dsimp only
      have hstamped : revisionLine title body ++ '\n' :: '\n' :: content =
          unlines ([] ++ ([revisionLine title body, []] ++ content.splitOn '\n')) := by
        have hne := List.splitOn_ne_nil '\n' content
        show _ = unlines (revisionLine title body :: [] :: content.splitOn '\n')
        rw [Text.unlines_cons _ (List.cons_ne_nil _ _), Text.unlines_cons [] hne, Text.unlines_splitOn]
        rfl
      have hnone : AreLines [] := fun l hl => by cases hl
      have hspan := frontmatterSpan_stamped (a := []) hfirst (Text.areLines_splitOn content) hnone rfl rfl
      rw [hstamped, hspan]
      exact markerValue_stamped hfirst [] _

/-- The stamp is read back: the revision that it was made for is current, and any other one stale. -/
structure RoundTrips (content title body : Text) : Prop where
  current : checkSpecFreshness (stampIssueRevision content title body) (some { title, body }) = .current
  stale : ∀ task : Task, computeIssueRevisionHash task.title task.body ≠ computeIssueRevisionHash title body →
    checkSpecFreshness (stampIssueRevision content title body) (some task) = .stale

/-- No marker stands in the frontmatter up to the end of the line that the stamp is put below, or the first one
there stands for the same revision. -/
def Unmarked (content hash : Text) : Prop :=
  ∀ raw, markerValue (stampHead content) = some raw → stands raw hash = true

theorem roundTrips_iff (content title body : Text) :
    RoundTrips content title body ↔ Unmarked content (computeIssueRevisionHash title body) := by
  have hread := markerValue_stampIssueRevision content title body
  have hcheck : ∀ task : Task, checkSpecFreshness (stampIssueRevision content title body) (some task) =
      if stands ((markerValue (stampHead content)).getD (computeIssueRevisionHash title body))
        (computeIssueRevisionHash task.title task.body) then .current else .stale := by
    intro task
    unfold checkSpecFreshness
    dsimp only
    rw [hread]
  have hvalue : Unmarked content (computeIssueRevisionHash title body) ↔
      stands ((markerValue (stampHead content)).getD (computeIssueRevisionHash title body))
        (computeIssueRevisionHash title body) = true := by
    unfold Unmarked
    cases markerValue (stampHead content) with
    | none => exact ⟨fun _ => stands_self title body, fun _ raw hraw => by cases hraw⟩
    | some raw =>
      refine ⟨fun h => h raw rfl, fun h raw' hraw' => ?_⟩
      cases hraw'
      exact h
  rw [hvalue]
  constructor
  · intro h
    have hcurrent := h.current
    rw [hcheck] at hcurrent
    by_contra hnot
    rw [if_neg hnot] at hcurrent
    cases hcurrent
  · intro h
    refine ⟨?_, fun task hother => ?_⟩
    · rw [hcheck]
      exact if_pos h
    · rw [hcheck]
      exact if_neg fun hstands => hother (stands_unique h hstands)

/-- A stamp of an older revision between the title and the line of the complexity is read instead. -/
theorem roundTrips_shadowed : ¬ RoundTrips
    "# Spec: Add cache\n\n**Issue revision**: 0123456789ab\n**Complexity**: low\n".toList
    "Add cache".toList "".toList := by
  intro h
  exact absurd h.current (by decide +kernel)

end Core.SpecStamp
