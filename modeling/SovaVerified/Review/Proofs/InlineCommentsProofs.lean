import Mathlib.Data.List.Infix
import SovaVerified.Review.InlineComments
import SovaVerified.Review.Proofs.RoundTripProofs

/-!
# What comes back from the inline comments

The comment of a finding is read back as its description and its suggestion, and a stub is filled from the
only comment of SOVA's shape at its location. Where there are several, the stub stays.
-/

namespace Review

open Regex Text

/-! ## The line that opens the suggestion -/

def suggestionMark : Text := "**Suggestion**:".toList

/-- A match is some line feeds and the mark. -/
theorem opens_of_matchRest {c : Char} {t : Text} (h : (inlineSuggestionRe.matchRest (c :: t)).isSome = true) :
    c = '\n' ∧ suggestionMark <+: t.dropWhile (· == '\n') := by
  obtain ⟨u, v, hsplit, hu, -⟩ := (run_isSome_iff inlineSuggestionRe _ [] (fun rest g => some (g, rest))
    (fun _ _ _ => rfl)).mp h
  obtain ⟨feeds, rest, rfl, ⟨hlong, -, hfeeds⟩, mark, rest', rfl, hmark, -⟩ := hu
  rw [matches_exact] at hmark
  cases feeds with
  | nil => exact absurd hlong (by decide)
  | cons d feeds =>
    obtain ⟨hd, htail⟩ := List.forall_mem_cons.mp hfeeds
    rw [List.append_assoc, List.cons_append, List.append_assoc] at hsplit
    obtain ⟨rfl, rfl⟩ := List.cons.inj hsplit
    refine ⟨beq_iff_eq.mp hd, ?_⟩
    rw [List.dropWhile_append_of_pos htail, hmark]
    exact List.prefix_append _ _

/-- Behind the mark the white space belongs to the match. -/
theorem matchRest_mark (n : Nat) (t : Text) :
    inlineSuggestionRe.matchRest (List.replicate (n + 1) '\n' ++ (suggestionMark ++ t)) = some ([], lstrip t) := by
  have hfeeds : ∀ c ∈ List.replicate (n + 1) '\n', (c == '\n') = true := by
    intro c hc
    rw [List.eq_of_mem_replicate hc]
    rfl
  have hspaces : ∀ c ∈ t.takeWhile isSpace, isSpace c = true :=
    fun c hc => List.all_eq_true.mp List.all_takeWhile c hc
  have hstar : ∀ c ∈ (suggestionMark ++ t).head?, (c == '\n') = false := by
    intro c hc
    have hfirst : (suggestionMark ++ t).head? = some '*' := rfl
    rw [hfirst] at hc
    rw [← Option.some.inj hc]
    rfl
  unfold matchRest inlineSuggestionRe cat
  simp only [List.foldr_cons, List.foldr_nil]
  rw [run_seq]
  refine run_rep_all (by simp) (by simp) hfeeds hstar ?_
  rw [run_seq]
  refine (run_exact "**Suggestion**:" t _ _).trans ?_
  rw [run_seq, ← List.takeWhile_append_dropWhile (p := isSpace) (l := t)]
  refine run_rep_all (Nat.zero_le _) (by simp) hspaces (head_lstrip t) ?_
  rw [List.takeWhile_append_dropWhile]
  rfl

/-- The front is passed over when nothing in it opens a suggestion. -/
theorem cutSuggestion_append {a b : Text}
    (h : ∀ c s, c :: s <:+ a → inlineSuggestionRe.matchRest (c :: (s ++ b)) = none) :
    cutSuggestion (a ++ b) = (a ++ (cutSuggestion b).1, (cutSuggestion b).2) := by
  induction a with
  | nil => rfl
  | cons c a ih =>
    have hrest := ih fun d s hs => h d s (hs.trans (List.suffix_cons c a))
    rw [List.cons_append, cutSuggestion, h c a (List.suffix_refl _)]
    dsimp only
    rw [hrest]
    rfl

theorem matchRest_none {c : Char} {t : Text} (h : c = '\n' → ¬ suggestionMark <+: t.dropWhile (· == '\n')) :
    inlineSuggestionRe.matchRest (c :: t) = none := by
  cases hmatch : inlineSuggestionRe.matchRest (c :: t) with
  | none => rfl
  | some m =>
    obtain ⟨hc, hmark⟩ := opens_of_matchRest (c := c) (t := t) (by rw [hmatch]; rfl)
    exact absurd hmark (h hc)

theorem cutSuggestion_plain {a : Text} (h : '\n' ∉ a) (b : Text) :
    cutSuggestion (a ++ b) = (a ++ (cutSuggestion b).1, (cutSuggestion b).2) := by
  apply cutSuggestion_append
  intro c s hs
  apply matchRest_none
  rintro rfl
  exact absurd (hs.subset (List.mem_cons_self ..)) h

/-- Line feeds in front of a text, which itself starts with none. -/
theorem exists_feeds (t : Text) : ∃ n rest, t = List.replicate n '\n' ++ rest ∧ rest.head? ≠ some '\n' := by
  induction t with
  | nil => exact ⟨0, [], rfl, by simp⟩
  | cons c t ih =>
    by_cases hc : c = '\n'
    · obtain ⟨n, rest, ht, hrest⟩ := ih
      exact ⟨n + 1, rest, by rw [hc, ht, List.replicate_succ, List.cons_append], hrest⟩
    · exact ⟨0, c :: t, rfl, by simpa using hc⟩

theorem dropWhile_feeds (n : Nat) {t : Text} (h : t.head? ≠ some '\n') :
    (List.replicate n '\n' ++ t).dropWhile (· == '\n') = t := by
  rw [List.dropWhile_append_of_pos (by intro c hc; rw [List.eq_of_mem_replicate hc]; rfl)]
  cases t with
  | nil => rfl
  | cons c t =>
    have hc : ¬ c = '\n' := fun heq => h (by rw [heq]; rfl)
    rw [List.dropWhile_cons, beq_eq_false_iff_ne.mpr hc]
    rfl

/-- A category without stars ends in front of two that open no suggestion. -/
theorem cutSuggestion_category {category : Text} (h : '*' ∉ category) (t : Text) :
    cutSuggestion (category ++ ("**:".toList ++ t)) =
      (category ++ (cutSuggestion ("**:".toList ++ t)).1, (cutSuggestion ("**:".toList ++ t)).2) := by
  apply cutSuggestion_append
  intro c s hs
  apply matchRest_none
  rintro - hmark
  obtain ⟨n, rest, rfl, hrest⟩ := exists_feeds s
  have hstar : '*' ∉ rest := fun hmem => h (hs.subset (List.mem_cons_of_mem _ (List.mem_append_right _ hmem)))
  have hhead : (rest ++ ("**:".toList ++ t)).head? ≠ some '\n' := by
    cases rest with
    | nil => exact fun hfirst => nomatch hfirst
    | cons d rest => exact hrest
  rw [List.append_assoc, dropWhile_feeds n hhead] at hmark
  obtain ⟨after, hafter⟩ := hmark
  cases rest with
  | nil => cases hafter
  | cons d rest =>
    have hd : '*' = d := (List.cons.inj hafter).1
    exact hstar (hd ▸ List.mem_cons_self ..)

/-- What has no line feed stands in front of the next one. -/
theorem prefix_of_prefix_append {a b p : Text} (hp : '\n' ∉ p) (h : p <+: a ++ '\n' :: b) : p <+: a := by
  rcases Nat.lt_or_ge a.length p.length with hlt | hge
  · exfalso
    have hsnoc : a ++ ['\n'] <+: p := by
      refine List.prefix_of_prefix_length_le ⟨b, ?_⟩ h ?_
      · rw [List.append_assoc]
        rfl
      · rw [List.length_append, List.length_singleton]
        exact hlt
    exact hp (hsnoc.subset (List.mem_append_right _ (List.mem_singleton_self _)))
  · exact List.prefix_of_prefix_length_le h (List.prefix_append a _) hge

/-- The text holds no line that opens a suggestion. -/
def Unopened (t : Text) : Prop := ¬ '\n' :: suggestionMark <:+: t

theorem unopened_of_isIn {t : Text} (h : isIn "\n**Suggestion**:".toList t = false) : Unopened t := by
  rintro ⟨a, b, rfl⟩
  unfold isIn at h
  have hno := List.any_eq_false.mp h ("\n**Suggestion**:".toList ++ b) ?_
  · exact hno (List.isPrefixOf_iff_prefix.mpr (List.prefix_append _ b))
  · refine (List.mem_tails _ _).mpr ⟨a, ?_⟩
    rw [List.append_assoc]
    rfl

theorem Unopened.cons {t : Text} (h : Unopened t) {c : Char} (hc : c ≠ '\n') : Unopened (c :: t) := by
  intro hpart
  rcases List.infix_cons_iff.mp hpart with hprefix | hpart
  · exact hc (List.cons_prefix_cons.mp hprefix).1.symm
  · exact h hpart

theorem Unopened.not_prefix {t rest : Text} (h : Unopened t) {n : Nat}
    (hpart : '\n' :: (List.replicate n '\n' ++ rest) <:+: t) : ¬ suggestionMark <+: rest := by
  rintro ⟨after, rfl⟩
  apply h
  obtain ⟨before, behind, rfl⟩ := hpart
  refine ⟨before ++ List.replicate n '\n', after ++ behind, ?_⟩
  have hfeeds : '\n' :: (List.replicate n '\n' ++ (suggestionMark ++ after)) =
      List.replicate n '\n' ++ ('\n' :: (suggestionMark ++ after)) := by
    rw [← List.cons_append, ← List.replicate_succ, List.replicate_succ', List.append_assoc]
    rfl
  rw [hfeeds]
  simp

/-- A text that opens no suggestion is all description. -/
theorem Unopened.cutSuggestion {t : Text} (h : Unopened t) : cutSuggestion t = (t, none) := by
  have hcut := cutSuggestion_append (a := t) (b := []) ?_
  · rw [List.append_nil] at hcut
    rw [hcut]
    show (t ++ [], none) = _
    rw [List.append_nil]
  · intro c s hs
    apply matchRest_none
    rintro rfl
    obtain ⟨n, rest, rfl, hrest⟩ := exists_feeds s
    rw [List.append_nil, dropWhile_feeds n hrest]
    exact h.not_prefix hs.isInfix

/-- In front of the mark, the description loses its line feeds at the end at most. -/
theorem Unopened.cutSuggestion_append {d : Text} (h : Unopened d) (t : Text) :
    ∃ n front, d = front ++ List.replicate n '\n' ∧
      Review.cutSuggestion (d ++ ("\n\n".toList ++ (suggestionMark ++ t))) = (front, some (lstrip t)) := by
  obtain ⟨n, back, hback, hlast⟩ := exists_feeds d.reverse
  have hd : d = back.reverse ++ List.replicate n '\n' := by
    rw [← List.reverse_reverse d, hback, List.reverse_append, List.reverse_replicate]
  refine ⟨n, back.reverse, hd, ?_⟩
  have hfeeds : d ++ ("\n\n".toList ++ (suggestionMark ++ t)) =
      back.reverse ++ (List.replicate (n + 1 + 1) '\n' ++ (suggestionMark ++ t)) := by
    have htwo : "\n\n".toList = List.replicate 2 '\n' := rfl
    rw [hd, htwo, List.append_assoc, ← List.append_assoc (List.replicate n '\n'), List.replicate_append_replicate]
  have hmark : Review.cutSuggestion (List.replicate (n + 1 + 1) '\n' ++ (suggestionMark ++ t)) =
      ([], some (lstrip t)) := by
    have hmatch := matchRest_mark (n + 1) t
    rw [List.replicate_succ, List.cons_append] at hmatch ⊢
    rw [Review.cutSuggestion, hmatch]
  rw [hfeeds, Review.cutSuggestion_append, hmark, List.append_nil]
  intro c s hs
  apply matchRest_none
  rintro rfl
  obtain ⟨m, rest, rfl, hrest⟩ := exists_feeds s
  have hrestNe : rest ≠ [] := by
    -- the front does not end in a line feed
    rintro rfl
    apply hlast
    rw [← List.getLast?_reverse]
    obtain ⟨before, hbefore⟩ := hs
    rw [← hbefore, List.append_nil, ← List.replicate_succ, List.replicate_succ', ← List.append_assoc]
    exact List.getLast?_concat
  have hhead : (rest ++ (List.replicate (n + 1 + 1) '\n' ++ (suggestionMark ++ t))).head? ≠ some '\n' := by
    cases rest with
    | nil => exact absurd rfl hrestNe
    | cons c rest => exact hrest
  rw [List.append_assoc, dropWhile_feeds m hhead, List.replicate_succ, List.cons_append]
  intro hprefix
  have hpart : '\n' :: (List.replicate m '\n' ++ rest) <:+: d := by
    rw [hd]
    exact hs.isInfix.trans (List.prefix_append _ _).isInfix
  exact h.not_prefix hpart (prefix_of_prefix_append (by decide) hprefix)

/-! ## The comment of a finding -/

/-- The head of a finding's comment. -/
def commentHead (f : ReviewFinding) : Text :=
  "**[".toList ++ (severityLabel f.severity ++ ("] ".toList ++ (f.category ++ "**:".toList)))

/-- What stands behind the description. -/
def suggestionPart (suggestion : Text) : Text :=
  if suggestion = [] then [] else "\n\n".toList ++ (suggestionMark ++ (' ' :: suggestion))

theorem formatInlineComment_eq (f : ReviewFinding) :
    formatInlineComment f = commentHead f ++ ((' ' :: f.description) ++ suggestionPart f.suggestion) := by
  unfold formatInlineComment commentHead suggestionPart
  dsimp only
  split_ifs with hs
  · simp [join]
  · have hmark : "\n**Suggestion**: ".toList = '\n' :: (suggestionMark ++ [' ']) := rfl
    have hfeed : "\n".toList = ['\n'] := rfl
    have hfeeds : "\n\n".toList = ['\n', '\n'] := rfl
    rw [join_cons, List.flatMap_singleton, hmark, hfeed, hfeeds]
    simp

variable {A : Alphabet} {f : ReviewFinding}

theorem matchRest_commentHead (A : Alphabet) (hcat : '*' ∉ f.category) (t : Text) :
    (inlineCommentHeadRe A).matchRest (commentHead f ++ t) = some ([], lstrip t) := by
  obtain ⟨hlabel, hword⟩ := isWord_severityLabel A f.severity
  have hstars : ∀ c ∈ ' ' :: f.category, (c != '*') = true := by
    refine List.forall_mem_cons.mpr ⟨rfl, fun c hc => bne_iff_ne.mpr ?_⟩
    rintro rfl
    exact hcat hc
  have hspaces : ∀ c ∈ t.takeWhile isSpace, isSpace c = true :=
    fun c hc => List.all_eq_true.mp List.all_takeWhile c hc
  have hbracket : A.isWord ']' = false := by
    unfold Alphabet.isWord
    rw [A.ascii ']' (by decide)]
    rfl
  have htext : commentHead f ++ t = "**[".toList ++ (severityLabel f.severity ++ ("]".toList ++
      ((' ' :: f.category) ++ ("**:".toList ++ (t.takeWhile isSpace ++ lstrip t))))) := by
    unfold commentHead lstrip
    rw [List.takeWhile_append_dropWhile]
    simp
  unfold matchRest inlineCommentHeadRe cat
  simp only [List.foldr_cons, List.foldr_nil]
  rw [htext, run_seq, run_exact, run_seq]
  refine run_rep_all hlabel (by simp) hword (by simp [hbracket]) ?_
  rw [run_seq, run_exact, run_seq]
  refine run_rep_all (Nat.zero_le _) (by simp) hstars (by simp) ?_
  rw [run_seq, run_exact, run_seq]
  refine run_rep_all (Nat.zero_le _) (by simp) hspaces (head_lstrip t) ?_
  rfl

theorem strip_commentHead (f : ReviewFinding) (t : Text) : strip (commentHead f ++ t) = commentHead f ++ rstrip t := by
  have hsnoc : ∃ front, commentHead f = front ++ [':'] :=
    ⟨"**[".toList ++ (severityLabel f.severity ++ ("] ".toList ++ (f.category ++ "**".toList))), by
      unfold commentHead
      simp⟩
  obtain ⟨front, hfront⟩ := hsnoc
  rw [strip_eq, lstrip_of_head, hfront, rstrip_append_snoc (by decide)]
  rintro c hc
  cases hc
  rfl

theorem strip_withoutHead (A : Alphabet) (hcat : '*' ∉ f.category) (t : Text) :
    strip (withoutHead A (strip (commentHead f ++ t))) = strip t := by
  unfold withoutHead
  rw [strip_commentHead, matchRest_commentHead A hcat]
  dsimp only
  rw [lstrip_rstrip, strip_strip]

theorem cutSuggestion_commentHead (hcat : '*' ∉ f.category) (t : Text) :
    cutSuggestion (commentHead f ++ t) = (commentHead f ++ (cutSuggestion t).1, (cutSuggestion t).2) := by
  have hlabel : '\n' ∉ severityLabel f.severity :=
    fun h => absurd (isLineBreak_severityLabel f.severity '\n' h) (by decide)
  unfold commentHead
  simp only [List.append_assoc]
  rw [cutSuggestion_plain (by decide), cutSuggestion_plain hlabel, cutSuggestion_plain (by decide),
    cutSuggestion_category hcat, cutSuggestion_plain (by decide)]

/-- The comment of a finding is read back as its description and its suggestion. -/
theorem parseInlineCommentBody_format (A : Alphabet) (hcat : '*' ∉ f.category)
    (hsep : isIn "\n**Suggestion**:".toList f.description = false) :
    parseInlineCommentBody A (strip (formatInlineComment f)) = (strip f.description, strip f.suggestion) := by
  have hopen : Unopened (' ' :: f.description) := (unopened_of_isIn hsep).cons (by decide)
  have hblank : ∀ t : Text, strip (' ' :: t) = strip t := fun _ => rfl
  unfold parseInlineCommentBody
  rw [formatInlineComment_eq, strip_commentHead, cutSuggestion_commentHead hcat]
  dsimp only
  rw [strip_withoutHead A hcat]
  unfold suggestionPart
  split_ifs with hs
  · have hrest : Unopened (rstrip (' ' :: f.description)) :=
      fun hpart => hopen (hpart.trans (rstrip_isPrefix _).isInfix)
    rw [List.append_nil, hrest.cutSuggestion, strip_rstrip, hblank, hs]
    rfl
  · have hmark : ∀ t : Text, (' ' :: f.description) ++ ("\n\n".toList ++ (suggestionMark ++ t)) =
        ((' ' :: f.description) ++ ("\n\n".toList ++ "**Suggestion**".toList)) ++ [':'] ++ t := by
      intro t
      have hcolon : suggestionMark = "**Suggestion**".toList ++ [':'] := rfl
      rw [hcolon]
      simp only [List.append_assoc]
    obtain ⟨n, front, hfront, hcut⟩ := hopen.cutSuggestion_append (rstrip (' ' :: f.suggestion))
    have hfeeds : ∀ c ∈ List.replicate n '\n', isSpace c = true := by
      intro c hc
      rw [List.eq_of_mem_replicate hc]
      rfl
    have hdescription : strip front = strip f.description := by
      rw [← hblank f.description, hfront, strip_append hfeeds]
    rw [hmark, rstrip_append_snoc (by decide), ← hmark, hcut, hdescription]
    show (_, strip (lstrip (rstrip (' ' :: f.suggestion)))) = _
    rw [lstrip_rstrip, strip_strip, hblank]

/-! ## The comments at a location -/

/-- What is kept of a comment. -/
def candidateOf (A : Alphabet) (c : InlineComment) : Candidate where
  description := (parseInlineCommentBody A (strip c.body)).1
  suggestion := (parseInlineCommentBody A (strip c.body)).2
  isSovaShaped := c.isSovaShaped A

theorem readComment_eq (A : Alphabet) (c : Comment) :
    readComment A c = c.inline.bind fun i =>
      if i.path = [] ∨ strip i.body = [] then none else some ((i.path, i.line), candidateOf A i) := by
  unfold readComment Comment.inline
  split_ifs
  · rfl
  · cases c.anchor with
    | none => rfl
    | some line => rfl

theorem strip_ne_nil_of_isSovaShaped {c : InlineComment} (h : c.isSovaShaped A = true) : strip c.body ≠ [] := by
  intro hnil
  unfold InlineComment.isSovaShaped at h
  rw [hnil] at h
  cases h

/-- The comments of SOVA's shape that are kept under a location. -/
theorem filter_isSovaShaped (A : Alphabet) (comments : List Comment) {file : Text} (hfile : file ≠ []) (line : Int) :
    (((loadInlineReviewComments A comments).get (file, line)).getD []).filter Candidate.isSovaShaped =
      ((comments.filterMap Comment.inline).filter fun c =>
        decide ((c.path, c.line) = (file, line)) && c.isSovaShaped A).map (candidateOf A) := by
  unfold loadInlineReviewComments
  rw [Assoc.getD_foldl_push, Assoc.get_nil, Option.getD_none, List.nil_append]
  induction comments with
  | nil => rfl
  | cons c comments ih =>
    rw [List.filterMap_cons, List.filterMap_cons, readComment_eq]
    cases hc : c.inline with
    | none => exact ih
    | some i =>
      rw [Option.bind_some]
      by_cases hat : (i.path, i.line) = (file, line)
      · obtain ⟨hpath, -⟩ := Prod.mk.inj hat
        by_cases hshape : i.isSovaShaped A = true
        · have hkept : ¬ (i.path = [] ∨ strip i.body = []) := by
            rintro (hnil | hnil)
            · exact hfile (hpath.symm.trans hnil)
            · exact strip_ne_nil_of_isSovaShaped hshape hnil
          have hcandidate : (candidateOf A i).isSovaShaped = true := hshape
          rw [if_neg hkept]
          simp only [List.filter_cons, hat, decide_true, if_true, List.map_cons, hcandidate, hshape,
            Bool.and_self, ih]
        · have hcandidate : (candidateOf A i).isSovaShaped = false := Bool.eq_false_iff.mpr hshape
          have hshapeFalse : i.isSovaShaped A = false := Bool.eq_false_iff.mpr hshape
          split_ifs
          · simp only [List.filter_cons, hshapeFalse, Bool.and_false, Bool.false_eq_true, if_false, ih]
          · simp only [List.filter_cons, hat, decide_true, if_true, List.map_cons, hcandidate, hshapeFalse,
              Bool.and_false, Bool.false_eq_true, if_false, ih]
      · split_ifs
        · simp only [List.filter_cons, hat, decide_false, Bool.false_and, Bool.false_eq_true, if_false, ih]
        · simp only [List.filter_cons, hat, decide_false, Bool.false_and, Bool.false_eq_true, if_false, ih]

/-! ## One stub -/

variable {inline : Assoc (Text × Int) (List Candidate)} {p : ParsedFinding} {line : Int}

/-- Only the text of a finding is replaced. -/
theorem hydrateFinding_place (inline : Assoc (Text × Int) (List Candidate)) (p : ParsedFinding) :
    ((hydrateFinding inline p).file = p.file ∧ (hydrateFinding inline p).line = p.line) ∧
      (hydrateFinding inline p).severity = p.severity ∧ (hydrateFinding inline p).category = p.category := by
  unfold hydrateFinding
  split
  · exact ⟨⟨rfl, rfl⟩, rfl, rfl⟩
  · split
    · by_cases hne : ‹Candidate›.description = []
      · rw [if_pos hne]
        exact ⟨⟨rfl, rfl⟩, rfl, rfl⟩
      · rw [if_neg hne]
        exact ⟨⟨rfl, rfl⟩, rfl, rfl⟩
    · exact ⟨⟨rfl, rfl⟩, rfl, rfl⟩

theorem hydrateFinding_of_alone (hline : p.line = some line) {m : Candidate}
    (hm : ((inline.get (p.file, line)).getD []).filter Candidate.isSovaShaped = [m]) (hne : m.description ≠ []) :
    hydrateFinding inline p =
      { p with
        description := m.description
        suggestion := if m.suggestion = [] then p.suggestion else m.suggestion } := by
  have hcandidates : candidatesOf ((inline.get (p.file, line)).getD []) = [m] := by
    unfold candidatesOf
    dsimp only
    rw [hm, if_neg (List.cons_ne_nil m [])]
  unfold hydrateFinding
  rw [hline]
  dsimp only
  rw [hcandidates]
  exact if_neg hne

theorem hydrateFinding_of_ambiguous (hline : p.line = some line)
    (hmany : 1 < (((inline.get (p.file, line)).getD []).filter Candidate.isSovaShaped).length) :
    hydrateFinding inline p = p := by
  have hcandidates : candidatesOf ((inline.get (p.file, line)).getD []) =
      ((inline.get (p.file, line)).getD []).filter Candidate.isSovaShaped := by
    unfold candidatesOf
    refine if_neg fun hnil => ?_
    rw [hnil] at hmany
    exact absurd hmany (by decide)
  unfold hydrateFinding
  rw [hline]
  dsimp only
  rw [hcandidates]
  split
  · rename_i m hm
    rw [hm] at hmany
    exact absurd hmany (by simp)
  · rfl

/-! ## The findings of a review -/

variable {review : ReviewResult} {th : Thresholds} {sha : Option Sha} {diffLines : Text → List Int}
  {posted : List InlineComment} {keys : List (Text × Int)}

/-- A finding that shares its location with a posted comment has a comment of its own. -/
theorem posted_of_collapsed (hposted : posted = buildReviewComments (review.blocking th.reviseAt) diffLines)
    (hf : f ∈ review.findings) (hcollapsed : f.Collapsed th posted) (hcat : f.category ≠ protectedPath) :
    ∃ line, f.line = some line ∧ ⟨f.file, line, formatInlineComment f⟩ ∈ posted := by
  obtain ⟨hsevere, line, hline, hkey⟩ := hcollapsed
  refine ⟨line, hline, ?_⟩
  have hblocking : f ∈ review.blocking th.reviseAt :=
    List.mem_filter.mpr ⟨List.mem_filter.mpr ⟨hf, decide_eq_true hcat⟩, decide_eq_true hsevere⟩
  obtain ⟨c, hc, hloc⟩ := List.mem_map.mp hkey
  obtain ⟨hpath, hat⟩ := Prod.mk.inj hloc
  rw [hposted] at hc ⊢
  unfold buildReviewComments at hc ⊢
  obtain ⟨g, -, hg⟩ := List.mem_filterMap.mp hc
  refine List.mem_filterMap.mpr ⟨f, hblocking, ?_⟩
  cases hgline : g.line with
  | none =>
    rw [hgline] at hg
    cases hg
  | some n =>
    rw [hgline] at hg
    dsimp only at hg
    split_ifs at hg with hdiff
    obtain rfl := Option.some.inj hg
    rw [hline]
    dsimp only at hpath hat ⊢
    rw [← hpath, ← hat, if_pos hdiff]

theorem file_of_located {f : ReviewFinding} (h : f.toDict.Located) : f.toDict.filePath = f.file :=
  (Option.some.inj h.1).symm

theorem file_ne_nil {f : ReviewFinding} (h : f.toDict.Located) : f.file ≠ [] := by
  rw [← file_of_located h]
  exact filePath_ne_nil f.toDict

/-- The stub stands in the body exactly for the collapsed findings. -/
theorem inlined_iff_collapsed (hl : f.toDict.Located) :
    f.toDict.inlined (if th.reviseAt ≤ clampSeverity f.severity then posted.map fun c => (c.path, c.line) else []) =
      true ↔ f.Collapsed th posted := by
  have hdict : f.toDict.line = f.line := rfl
  unfold Finding.inlined ReviewFinding.Collapsed
  rw [file_of_located hl, hdict]
  cases f.line with
  | none => simp
  | some n =>
    split_ifs with hsevere
    · simp [hsevere]
    · simp [hsevere]

theorem stub_read : strip (splitOnFixMarker (strip inlineCommentStub)).1 = inlineCommentStub ∧
    strip (splitOnFixMarker (strip inlineCommentStub)).2 = [] := by decide

/-- What a line of the body gives of its finding. -/
theorem readBack_eq_some (hl : f.toDict.Located) {p : ParsedFinding} (h : f.toDict.readBack keys = some p) :
    p.file = f.file ∧ p.line = f.line ∧ p.severity = clampSeverity f.severity ∧
      p.category = lower (strip f.category) ∧ (f.toDict.inlined keys = true → p.IsStub) := by
  have hkey : some p.key = some f.toDict.key := by
    rw [← readKey_of_located hl, ← map_key_readBack keys, h]
    rfl
  obtain ⟨hfile, hrest⟩ := Prod.mk.inj (Option.some.inj hkey)
  obtain ⟨hline, hseverity⟩ := Prod.mk.inj hrest
  refine ⟨Option.some.inj hfile, hline, hseverity, ?_, ?_⟩
  · obtain ⟨-, -, rfl⟩ := Option.map_eq_some_iff.mp h
    rfl
  · intro hinlined
    obtain ⟨-, -, rfl⟩ := Option.map_eq_some_iff.mp h
    unfold ParsedFinding.IsStub findingText
    rw [if_pos hinlined]
    exact stub_read

theorem isSovaShaped_format (A : Alphabet) (hcat : '*' ∉ f.category) (line : Int) :
    (⟨f.file, line, formatInlineComment f⟩ : InlineComment).isSovaShaped A = true := by
  unfold InlineComment.isSovaShaped
  rw [formatInlineComment_eq, strip_commentHead, matchRest_commentHead A hcat]
  rfl

/-- A comment that no other one of SOVA's shape stands beside. -/
theorem filter_eq_singleton {found : List InlineComment} {c : InlineComment} (hc : c ∈ found)
    (hshape : c.isSovaShaped A = true) (hone : sovaShapedAt A found (c.path, c.line) ≤ 1) :
    (found.filter fun d => decide ((d.path, d.line) = (c.path, c.line)) && d.isSovaShaped A) = [c] := by
  have hmem : c ∈ found.filter fun d => decide ((d.path, d.line) = (c.path, c.line)) && d.isSovaShaped A :=
    List.mem_filter.mpr ⟨hc, by rw [hshape, decide_eq_true rfl]; rfl⟩
  unfold sovaShapedAt at hone
  rw [List.countP_eq_length_filter] at hone
  obtain ⟨d, hd⟩ := List.length_eq_one_iff.mp (Nat.le_antisymm hone (List.length_pos_of_mem hmem))
  rw [hd] at hmem ⊢
  rw [List.mem_singleton.mp hmem]

/-- What the only comment of a finding is kept as. -/
theorem candidateOf_format (hquotable : f.Quotable) (line : Int) :
    (candidateOf A ⟨f.file, line, formatInlineComment f⟩).description = strip f.description ∧
      (candidateOf A ⟨f.file, line, formatInlineComment f⟩).suggestion = strip f.suggestion := by
  unfold candidateOf
  rw [parseInlineCommentBody_format A hquotable.category.2 hquotable.separate]
  exact ⟨rfl, rfl⟩

theorem readBack_of_not_inlined {f : Finding} (h : ¬ f.inlined keys = true) : f.readBack keys = f.readBack [] := by
  have hnone : ¬ f.inlined [] = true := by
    unfold Finding.inlined
    cases f.line with
    | none => simp
    | some n => simp
  unfold Finding.readBack findingText
  rw [if_neg h, if_neg hnone]

theorem readFindingLine_eq {f : Finding} (hs : f.Separate) :
    readFindingLine A (formatFindingLine [] f) = [f.readBack []] := by
  have hread := read_formatFindingLine A hs []
  rwa [pieces_eq_singleton (isLineBreak_formatFindingLine hs []), List.flatMap_singleton] at hread

/-- The stub of a collapsed finding, after the comments were read. -/
theorem restored_of_stubOf {comments : List Comment}
    (hposted : posted = buildReviewComments (review.blocking th.reviseAt) diffLines)
    (hfound : posted ⊆ comments.filterMap Comment.inline) (hf : f ∈ review.findings)
    (hcollapsed : f.Collapsed th posted) (h : StubOf f p) :
    Restored A (comments.filterMap Comment.inline) f
      (hydrateFinding (loadInlineReviewComments A comments) p) := by
  obtain ⟨hne, ⟨hfile, hline⟩, hstub⟩ := h
  have hplace := (hydrateFinding_place (loadInlineReviewComments A comments) p).1
  have hshaped : ∀ line : Int, (((loadInlineReviewComments A comments).get (p.file, line)).getD []).filter
      Candidate.isSovaShaped = ((comments.filterMap Comment.inline).filter fun c =>
        decide ((c.path, c.line) = (f.file, line)) && c.isSovaShaped A).map (candidateOf A) := by
    intro line
    rw [hfile]
    exact filter_isSovaShaped A comments hne line
  refine ⟨⟨hplace.1.trans hfile, hplace.2.trans hline⟩, ?_, ?_⟩
  · -- its own comment is the one at the location
    intro hquotable line hat hone
    obtain ⟨line', hline', hown⟩ := posted_of_collapsed hposted hf hcollapsed hquotable.category.1
    obtain rfl : line' = line := Option.some.inj (hline'.symm.trans hat)
    have honly := filter_eq_singleton (hfound hown) (isSovaShaped_format A hquotable.category.2 line') hone
    obtain ⟨hfullDescription, hfullSuggestion⟩ := candidateOf_format (A := A) hquotable line'
    have hm := hshaped line'
    rw [honly, List.map_singleton] at hm
    rw [hydrateFinding_of_alone (hline.trans hline') hm (by
      rw [hfullDescription]
      exact hquotable.description)]
    dsimp only
    rw [hfullDescription, hfullSuggestion, hstub.2]
    refine ⟨rfl, ?_⟩
    split_ifs with hempty
    · exact hempty.symm
    · rfl
  · intro line hat hmany
    have hlong : 1 < ((((loadInlineReviewComments A comments).get (p.file, line)).getD []).filter
        Candidate.isSovaShaped).length := by
      rw [hshaped line, List.length_map, ← List.countP_eq_length_filter]
      exact hmany
    rw [hydrateFinding_of_ambiguous (hline.trans hat) hlong]
    exact hstub

/-- One finding on its way through the body and the comments. -/
theorem handedOver_of_readBack {comments : List Comment}
    (hposted : posted = buildReviewComments (review.blocking th.reviseAt) diffLines)
    (hfound : posted ⊆ comments.filterMap Comment.inline) (hf : f ∈ review.findings) (hs : f.toDict.Separate)
    (hl : f.toDict.Located) {p : ParsedFinding}
    (hread : (bodyBeside review th sha posted).readBack f.toDict = some p) :
    HandedOver A th posted (comments.filterMap Comment.inline) f
      (if p.description = inlineCommentStub then hydrateFinding (loadInlineReviewComments A comments) p else p) := by
  have hread' : f.toDict.readBack (if th.reviseAt ≤ clampSeverity f.severity then
      posted.map fun c => (c.path, c.line) else []) = some p := hread
  obtain ⟨hfile, hline, hseverity, hcategory, hstub⟩ := readBack_eq_some hl hread'
  rw [inlined_iff_collapsed hl] at hstub
  set q := if p.description = inlineCommentStub then hydrateFinding (loadInlineReviewComments A comments) p else p
    with hq
  have hplace : (q.file = p.file ∧ q.line = p.line) ∧ q.severity = p.severity ∧ q.category = p.category := by
    rw [hq]
    split_ifs
    · exact hydrateFinding_place _ p
    · exact ⟨⟨rfl, rfl⟩, rfl, rfl⟩
  obtain ⟨⟨hqFile, hqLine⟩, hqSeverity, hqCategory⟩ := hplace
  refine ⟨⟨hqFile.trans hfile, hqLine.trans hline⟩, hqSeverity.trans hseverity, hqCategory.trans hcategory, ?_, ?_⟩
  · intro hcollapsed
    have hp := hstub hcollapsed
    rw [hq, if_pos hp.1]
    exact restored_of_stubOf hposted hfound hf hcollapsed ⟨file_ne_nil hl, ⟨hfile, hline⟩, hp⟩
  · intro hwhole q' hq' hstubFree
    rw [readBack_of_not_inlined (mt (inlined_iff_collapsed hl).mp hwhole)] at hread'
    rw [readFindingLine_eq hs, hread', List.cons.injEq] at hq'
    obtain rfl : p = q' := Option.some.inj hq'.1
    rw [hq, if_neg hstubFree]

/-- Stubs are hydrated one by one. -/
theorem forall₂_restored {comments : List Comment}
    (hposted : posted = buildReviewComments (review.blocking th.reviseAt) diffLines)
    (hfound : posted ⊆ comments.filterMap Comment.inline) {fs : List ReviewFinding} {stubs : List ParsedFinding}
    (hfs : ∀ f ∈ fs, f ∈ review.findings ∧ f.Collapsed th posted) (hstubs : List.Forall₂ StubOf fs stubs) :
    List.Forall₂ (Restored A (comments.filterMap Comment.inline)) fs
      (hydrateCollapsedFindings A comments stubs) := by
  unfold hydrateCollapsedFindings
  refine List.forall₂_map_right_iff.mpr (((List.forall₂_and_left fs stubs).mpr ⟨hfs, hstubs⟩).imp ?_)
  rintro f p ⟨⟨hf, hcollapsed⟩, hp⟩
  rw [if_pos hp.stub.1]
  exact restored_of_stubOf hposted hfound hf hcollapsed hp

/-- A review with its body and its parsed findings. -/
theorem exists_handedOver (A : Alphabet) {comments : List Comment}
    (hposted : posted = buildReviewComments (review.blocking th.reviseAt) diffLines)
    (hfound : posted ⊆ comments.filterMap Comment.inline) (hquiet : (bodyBeside review th sha posted).Quiet)
    (hread : ∀ f ∈ review.findings, f.toDict.Separate ∧ f.toDict.Located) :
    ∃ parsed fs, parseReviewBody A (formatReviewBody (bodyBeside review th sha posted)) = some parsed ∧
      fs.Perm review.findings ∧
      List.Forall₂ (HandedOver A th posted (comments.filterMap Comment.inline)) fs
        (hydrateCollapsedFindings A comments parsed) := by
  set b := bodyBeside review th sha posted with hb
  have hseparate : ∀ f ∈ b.findings, f.Separate := by
    intro g hg
    obtain ⟨f, hf, rfl⟩ := List.mem_map.mp hg
    exact (hread f hf).1
  have hsome : ∀ f ∈ b.findings, (b.readBack f).isSome = true := by
    intro g hg
    obtain ⟨f, hf, rfl⟩ := List.mem_map.mp hg
    have hkey : (b.readBack f.toDict).map ParsedFinding.key = some f.toDict.key :=
      (map_key_readBack _ f.toDict).trans (readKey_of_located (hread f hf).2)
    rw [← Option.isSome_map, hkey]
    rfl
  obtain ⟨parsed, dicts, hparse, hdicts, hpairs⟩ := exists_parsed A hquiet hseparate hsome
  obtain ⟨fs, rfl, hfs⟩ := exists_map_of_perm hdicts
  have hmem : ∀ f ∈ fs, f ∈ review.findings := fun f hf => hfs.mem_iff.mp hf
  refine ⟨parsed, fs, hparse, hfs, ?_⟩
  unfold hydrateCollapsedFindings
  refine List.forall₂_map_right_iff.mpr ?_
  refine ((List.forall₂_and_left fs parsed).mpr ⟨hmem, List.forall₂_map_left_iff.mp hpairs⟩).imp ?_
  rintro f p ⟨hf, hp⟩
  obtain ⟨hs, hl⟩ := hread f hf
  exact handedOver_of_readBack hposted hfound hf hs hl hp

/-- The stub of a finding is filled with the finding's own text, unless its inline comment is not the only one
of SOVA's shape at the location: then it stays. So every finding of a posted review is handed over, as long as
the body itself can be read back. -/
theorem hydrateCollapsedFindings_handedOver (A : Alphabet) (review : ReviewResult) (th : Thresholds)
    (sha : Option Sha) (diffLines : Text → List Int) (outcomes : PostOutcomes) (hreview : outcomes.review = .posted)
    (comments : List Comment) (posted : List InlineComment)
    (hposted : posted = buildReviewComments (review.blocking th.reviseAt) diffLines)
    (hfound : posted.Subperm (comments.filterMap Comment.inline)) :
    (∀ location, sovaShapedAt A posted location ≤ sovaShapedAt A (comments.filterMap Comment.inline) location) ∧
    (∀ (fs : List ReviewFinding) (stubs : List ParsedFinding),
      (∀ f ∈ fs, f ∈ review.findings ∧ f.Collapsed th posted) → List.Forall₂ StubOf fs stubs →
        List.Forall₂ (Restored A (comments.filterMap Comment.inline)) fs
          (hydrateCollapsedFindings A comments stubs)) ∧
    ((bodyBeside review th sha posted).Quiet →
      (∀ f ∈ review.findings, f.toDict.Separate ∧ f.toDict.Located) →
        ∃ body parsed fs, postReview review th sha diffLines outcomes = some body ∧
          parseReviewBody A body = some parsed ∧ fs.Perm review.findings ∧
          List.Forall₂ (HandedOver A th posted (comments.filterMap Comment.inline)) fs
            (hydrateCollapsedFindings A comments parsed)) := by
  refine ⟨fun location => hfound.countP_le _, ?_, ?_⟩
  · intro fs stubs hfs hstubs
    exact forall₂_restored hposted hfound.subset hfs hstubs
  · intro hquiet hread
    have hpost : postReview review th sha diffLines outcomes =
        some (formatReviewBody (bodyBeside review th sha posted)) := by
      unfold postReview
      rw [hreview, hposted]
      rfl
    obtain ⟨parsed, fs, hparse, hfs, hpairs⟩ := exists_handedOver A hposted hfound.subset hquiet hread
    exact ⟨_, parsed, fs, hpost, hparse, hfs, hpairs⟩

/-- Two findings on one line, and one that is alone on its line. -/
def sharedLine : ReviewResult where
  findings :=
    [{ file := "src/app.py".toList, line := some 42, severity := 8, category := "bug".toList,
       description := "The lock is\nnever released.".toList, suggestion := "Release it.".toList },
     { file := "src/app.py".toList, line := some 7, severity := 6, category := "style".toList,
       description := "The name is taken.".toList },
     { file := "src/app.py".toList, line := some 7, severity := 9, category := "bug".toList,
       description := "The list is shared.".toList, suggestion := "Copy it.".toList }]
  summary := "Three findings.".toList

/-- The comments posted with the review. -/
def sharedPosted : List InlineComment :=
  buildReviewComments (sharedLine.blocking ({} : Thresholds).reviseAt) fun _ => [7, 8, 42]

/-- The posted comments, a note on the line of one of them, and a reply to it. -/
def sharedComments : List Comment :=
  (sharedPosted.map fun c => { path := c.path, line := some c.line, body := c.body }) ++
    [{ path := "src/app.py".toList, line := some 42, body := "Good catch.".toList },
     { path := "src/app.py".toList, line := some 42, isReply := true, body := "**[LOW] style**: Renamed.".toList }]

def allPosted : PostOutcomes where
  review := .posted
  bodyOnly := true
  comment := true

theorem sharedLine_quiet : (bodyBeside sharedLine {} none sharedPosted).Quiet where
  sha := fun s hs => nomatch hs
  summary := by decide
  positives := fun p hp => nomatch hp

theorem sharedLine_read : ∀ f ∈ sharedLine.findings, f.toDict.Separate ∧ f.toDict.Located := by
  decide

theorem sharedLine_handedOver :
    (∀ location, sovaShapedAt .asciiOnly sharedPosted location ≤
      sovaShapedAt .asciiOnly (sharedComments.filterMap Comment.inline) location) ∧
    (∀ (fs : List ReviewFinding) (stubs : List ParsedFinding),
      (∀ f ∈ fs, f ∈ sharedLine.findings ∧ f.Collapsed {} sharedPosted) → List.Forall₂ StubOf fs stubs →
        List.Forall₂ (Restored .asciiOnly (sharedComments.filterMap Comment.inline)) fs
          (hydrateCollapsedFindings .asciiOnly sharedComments stubs)) ∧
    ∃ body parsed fs, postReview sharedLine {} none (fun _ => [7, 8, 42]) allPosted = some body ∧
      parseReviewBody .asciiOnly body = some parsed ∧ fs.Perm sharedLine.findings ∧
      List.Forall₂ (HandedOver .asciiOnly {} sharedPosted (sharedComments.filterMap Comment.inline)) fs
        (hydrateCollapsedFindings .asciiOnly sharedComments parsed) := by
  have hfound : sharedPosted <+: sharedComments.filterMap Comment.inline := by decide
  obtain ⟨hcounts, hstubs, hbody⟩ := hydrateCollapsedFindings_handedOver .asciiOnly sharedLine {} none
    (fun _ => [7, 8, 42]) allPosted rfl sharedComments sharedPosted rfl hfound.sublist.subperm
  exact ⟨hcounts, hstubs, hbody sharedLine_quiet sharedLine_read⟩

set_option maxRecDepth 4000 in
/-- The texts of the two findings on one line do not come back: both stay stubs. -/
theorem sharedLine_keeps_stubs :
    ¬ ∃ hydrated, ((postReview sharedLine {} none (fun _ => [7, 8, 42]) allPosted).bind
        (parseReviewBody .asciiOnly)).map (hydrateCollapsedFindings .asciiOnly sharedComments) = some hydrated ∧
      ∀ f ∈ sharedLine.findings, ∃ p ∈ hydrated, p.description = strip f.description := by
  have htexts : (((postReview sharedLine {} none (fun _ => [7, 8, 42]) allPosted).bind
      (parseReviewBody .asciiOnly)).map (hydrateCollapsedFindings .asciiOnly sharedComments)).map
        (fun hydrated => hydrated.map ParsedFinding.description) =
      some [inlineCommentStub, "The lock is\nnever released.".toList, inlineCommentStub] := by decide
  rintro ⟨hydrated, hresult, hall⟩
  rw [hresult, Option.map_some, Option.some.injEq] at htexts
  obtain ⟨p, hp, hdescription⟩ := hall _ (List.mem_cons_of_mem _ (List.mem_cons_self ..))
  have hmem := List.mem_map_of_mem (f := ParsedFinding.description) hp
  rw [htexts, hdescription] at hmem
  revert hmem
  decide

end Review
