import SovaVerified.Core.Proofs.RevisionHashProofs
import SovaVerified.Regex.Proofs.SubProofs

/-!
# When the write-back of a spec leaves the revision of an issue alone

The body that is written back stands in a section of its own, in front of a separator. The section is read up to
the next heading, so the body must not have one, but for a section that is cut off anyway.
-/

namespace Core.SpecStamp

open Utils
open Utils.Markdown (Free Fence Heading Hashed before onward boundary titles headLine fencesAfter closesFence
  extractSection bodyOf sectionOf)
open Text (unlines AreLines ended ink)

variable {title body t u x y s : Text} {lines : List Text} {line : Text} {prev : Option Char}

/-! ## The separator -/

/-- A text that the separator takes away: line feeds, three dashes or more, and white space. -/
structure IsSeparator (feeds dashes : Text) : Prop where
  enough : 3 ≤ dashes.length
  feeds : ∀ c ∈ feeds, c = '\n'
  dashes : ∀ c ∈ dashes, c = '-'

theorem IsSeparator.exists_last {feeds dashes : Text} (h : IsSeparator feeds dashes) :
    ∃ init, dashes = init ++ ['-'] := by
  obtain ⟨init, d, rfl⟩ : ∃ init d, dashes = init ++ [d] := by
    refine (List.eq_nil_or_concat' dashes).resolve_left ?_
    rintro rfl
    exact absurd h.enough (by decide)
  exact ⟨init, by rw [h.dashes d (by simp)]⟩

theorem separator_isSome (h : (separator prev t).isSome = true) :
    ∃ feeds dashes blank, t = feeds ++ (dashes ++ blank) ∧ IsSeparator feeds dashes ∧
      ∀ c ∈ blank, Text.isSpace c = true := by
  unfold separator at h
  rw [Option.isSome_map] at h
  rw [Regex.run_isSome_iff _ _ _ _ fun _ _ _ => rfl] at h
  obtain ⟨u, v, rfl, ⟨feeds, _, rfl, hfeeds, dashes, blank, rfl, hdashes, hblank⟩, hend⟩ := h
  refine ⟨feeds, dashes, blank ++ v, by simp, ⟨hdashes.1, ?_, ?_⟩, ?_⟩
  · exact fun c hc => beq_iff_eq.mp (hfeeds.2.2 c hc)
  · exact fun c hc => beq_iff_eq.mp (hdashes.2.2 c hc)
  · intro c hc
    rcases List.mem_append.mp hc with hc | hc
    · exact hblank.2.2 c hc
    · split at hend
      next hv =>
        rcases hv with rfl | rfl
        · cases hc
        · rw [List.mem_singleton.mp hc]
          decide
      next => cases hend

/-- At the end of a text without white space behind it, the separator ends in its dashes. -/
theorem separator_of_rstrip (hstrip : Text.rstrip t = t) (h : (separator prev t).isSome = true) :
    ∃ feeds dashes, t = feeds ++ dashes ∧ IsSeparator feeds dashes := by
  obtain ⟨feeds, dashes, blank, rfl, hsep, hblank⟩ := separator_isSome h
  obtain ⟨init, rfl⟩ := hsep.exists_last
  have hsplit : feeds ++ (init ++ ['-'] ++ blank) = (feeds ++ init) ++ ['-'] ++ blank := by simp
  rw [hsplit, Text.rstrip_append_snoc (by decide), Text.rstrip_eq_nil hblank] at hstrip
  have hblanknil : blank = [] := (List.append_cancel_left hstrip).symm
  refine ⟨feeds, init ++ ['-'], ?_, hsep⟩
  rw [hblanknil, List.append_nil]

/-- The separator at the end of a text is found where it begins. -/
theorem separator_here {feeds dashes : Text} (h : IsSeparator feeds dashes) :
    separator prev (feeds ++ dashes) = some ([], (feeds ++ dashes).length) := by
  have hhead : ∀ c ∈ dashes.head?, (c == '\n') = false := by
    intro c hc
    rw [h.dashes c (List.mem_of_mem_head? hc)]
    decide
  have hrun : Regex.run separatorRe (feeds ++ dashes) [] (fun rest _ =>
      if rest = [] ∨ rest = ['\n'] then some rest else none) = some [] := by
    unfold separatorRe
    rw [Regex.run_seq]
    refine Regex.run_rep_all (Nat.zero_le _) (by simp) (fun c hc => beq_iff_eq.mpr (h.feeds c hc)) hhead ?_
    rw [Regex.run_seq]
    have hend : dashes = dashes ++ [] := (List.append_nil _).symm
    rw [hend]
    refine Regex.run_rep_all h.enough (by simp) (fun c hc => beq_iff_eq.mpr (h.dashes c hc)) (by simp) ?_
    rfl
  unfold separator
  rw [hrun]
  rfl

theorem IsSeparator.no_feed_behind_dash {feeds dashes a b : Text} (h : IsSeparator feeds dashes)
    (hsplit : a ++ '-' :: b = feeds ++ dashes) : '\n' ∉ b := by
  have hsub : ∀ c ∈ b, c ∈ dashes := by
    rcases List.append_eq_append_iff.mp hsplit with ⟨e, rfl, hrest⟩ | ⟨e, rfl, rfl⟩
    · cases e with
      | nil =>
        intro c hc
        rw [List.nil_append] at hrest
        rw [← hrest]
        exact List.mem_cons_of_mem _ hc
      | cons d e =>
        obtain ⟨rfl, -⟩ := List.cons.inj hrest
        exact absurd (h.feeds '-' (by simp)) (by decide)
    · exact fun c hc => List.mem_append_right e (List.mem_cons_of_mem _ hc)
  intro hfeed
  exact absurd (h.dashes '\n' (hsub '\n' hfeed)) (by decide)

theorem rule_ne_nil {feeds dashes : Text} (h : IsSeparator feeds dashes) : feeds ++ dashes ≠ [] := by
  obtain ⟨init, rfl⟩ := h.exists_last
  simp

theorem rstrip_rule {feeds dashes : Text} (h : IsSeparator feeds dashes) :
    Text.rstrip (feeds ++ dashes) = feeds ++ dashes := by
  obtain ⟨init, rfl⟩ := h.exists_last
  rw [← List.append_assoc]
  exact Text.rstrip_snoc (by decide) _

/-- The last three characters of the separator. -/
theorem rule_suffix {feeds dashes : Text} (h : IsSeparator feeds dashes) : "---".toList <:+ dashes := by
  have hall : dashes = List.replicate dashes.length '-' := List.eq_replicate_iff.mpr ⟨rfl, h.dashes⟩
  have hthree : "---".toList = List.replicate 3 '-' := rfl
  rw [hall, hthree]
  refine ⟨List.replicate (dashes.length - 3) '-', ?_⟩
  rw [← List.replicate_add, Nat.sub_add_cancel h.enough]

theorem rstrip_of_suffix (ht : Text.rstrip t = t) (hs : s <:+ t) (hne : s ≠ []) : Text.rstrip s = s := by
  obtain ⟨front, rfl⟩ := hs
  rw [Text.rstrip_append] at ht
  split at ht
  next hnil =>
    have hlen := congrArg List.length ht
    have hle := (Text.rstrip_isPrefix front).length_le
    have hpos := List.length_pos_iff.mpr hne
    rw [List.length_append] at hlen
    omega
  next => exact List.append_cancel_left ht

/-- Nothing is taken away of a text without white space behind it that does not end in a rule. -/
theorem withoutSeparator_eq_self (hstrip : Text.strip t = t) (hrule : ¬ "---".toList <:+ t) :
    withoutSeparator t = t := by
  have hrstrip : Text.rstrip t = t := by
    have hback := Text.rstrip_strip t
    rwa [hstrip] at hback
  have hnone : ∀ prev s, s <:+ t → s ≠ [] → separator prev (s ++ []) = none := by
    intro prev s hs hne
    rw [List.append_nil, ← Option.not_isSome_iff_eq_none]
    intro hsome
    obtain ⟨feeds, dashes, rfl, hsep⟩ := separator_of_rstrip (rstrip_of_suffix hrstrip hs hne) hsome
    refine hrule (List.IsSuffix.trans ?_ hs)
    exact (rule_suffix hsep).trans (List.suffix_append feeds dashes)
  have hsub : Regex.subAll separator none 0 (t ++ []) = t ++ Regex.subAll separator (t.getLast?.or none) 0 [] :=
    Regex.subAll_skip_word hnone
  rw [List.append_nil, Regex.subAll, List.append_nil] at hsub
  unfold withoutSeparator
  rw [hsub, hstrip]

/-- The separator at the end of a text, and the line feeds in front of it, are taken away. -/
theorem subAll_separator {feeds dashes : Text} (hsep : IsSeparator feeds dashes) (hx : x.getLast? ≠ some '\n')
    (hdash : feeds = [] → x.getLast? ≠ some '-') :
    Regex.subAll separator prev 0 (x ++ (feeds ++ dashes)) = x := by
  have hrstrip : Text.rstrip (feeds ++ dashes) = feeds ++ dashes := rstrip_rule hsep
  have hnone : ∀ prev s, s <:+ x → s ≠ [] → separator prev (s ++ (feeds ++ dashes)) = none := by
    intro prev s hs hne
    rw [← Option.not_isSome_iff_eq_none]
    intro hsome
    have hall : Text.rstrip (s ++ (feeds ++ dashes)) = s ++ (feeds ++ dashes) := by
      rw [Text.rstrip_append, hrstrip, if_neg (rule_ne_nil hsep)]
    obtain ⟨feeds', dashes', hsplit, hsep'⟩ := separator_of_rstrip hall hsome
    obtain ⟨init, c, rfl⟩ := (List.eq_nil_or_concat' s).resolve_left hne
    have hlast : x.getLast? = some c := by
      obtain ⟨front, rfl⟩ := hs
      rw [← List.append_assoc, List.getLast?_concat]
    rw [List.append_assoc, List.singleton_append] at hsplit
    have hc : c = '\n' ∨ c = '-' := by
      have hmem : c ∈ feeds' ++ dashes' := by
        rw [← hsplit]
        exact List.mem_append_right init List.mem_cons_self
      exact (List.mem_append.mp hmem).imp (hsep'.feeds c) (hsep'.dashes c)
    rcases hc with rfl | rfl
    · exact hx hlast
    · refine hdash ?_ hlast
      have hno := hsep'.no_feed_behind_dash hsplit
      rw [List.eq_nil_iff_forall_not_mem]
      intro d hd
      refine hno ?_
      rw [← hsep.feeds d hd]
      exact List.mem_append_left dashes hd
  rw [Regex.subAll_skip_word hnone]
  have hrest : Regex.subAll separator (x.getLast?.or prev) 0 (feeds ++ dashes) = [] := by
    have hhere : separator (x.getLast?.or prev) (feeds ++ dashes) = some ([], (feeds ++ dashes).length) :=
      separator_here hsep
    obtain ⟨c, behind, hcons⟩ := List.exists_cons_of_ne_nil (rule_ne_nil hsep)
    rw [hcons] at hhere ⊢
    rw [Regex.subAll, hhere]
    dsimp only
    rw [List.nil_append, List.length_cons, Nat.add_sub_cancel, Regex.subAll_drop (Nat.le_refl _),
      List.drop_length]
    rfl
  rw [hrest, List.append_nil]

/-! ## The body that is written back -/

/-- The body as the template of the write-back has it. -/
def writtenBack (body spec : Text) : Text :=
  "## Original Description\n\n".toList ++ (body ++ ("\n\n---\n\n## Implementation Spec\n\n".toList ++ spec))

/-- The lines behind the body. -/
def specLines (spec : Text) : List Text :=
  [] :: "---".toList :: [] :: "## Implementation Spec".toList :: [] :: spec.splitOn '\n'

theorem writtenBack_lines (body spec : Text) : (writtenBack body spec).splitOn '\n' =
    headLine originalDescription.text :: [] :: (body.splitOn '\n' ++ specLines spec) := by
  have htext : writtenBack body spec = headLine originalDescription.text ++ '\n' :: ([] ++ '\n' ::
      (body ++ '\n' :: ([] ++ '\n' :: ("---".toList ++ '\n' :: ([] ++ '\n' ::
        ("## Implementation Spec".toList ++ '\n' :: ([] ++ '\n' :: spec))))))) := rfl
  have hrule : "---".toList.splitOn '\n' = ["---".toList] := by decide +kernel
  have hspec : "## Implementation Spec".toList.splitOn '\n' = ["## Implementation Spec".toList] := by
    decide +kernel
  have hnil : ([] : Text).splitOn '\n' = [[]] := rfl
  rw [htext]
  simp only [splitOn_append_newline, splitOn_line, hrule, hspec, hnil]
  rfl

theorem original_writtenBack (body spec : Text) : original (writtenBack body spec) =
    Text.strip (unlines (before boundary none (body.splitOn '\n' ++ specLines spec))) := by
  have htitle : titles originalDescription.text (headLine originalDescription.text) = true :=
    Markdown.titles_headLine originalDescription
  rw [original_eq, writtenBack_lines]
  unfold sectionOf
  rw [Markdown.bodyOf_cons (Markdown.onward_hit htitle _),
    (Markdown.onward_cons_nil Markdown.hashed_boundary none _).2, Text.strip_unlines_nil_cons]

theorem before_specLines (spec : Text) :
    before boundary none (specLines spec) = [[], "---".toList, []] := rfl

/-- The line feeds at the end of a text. -/
theorem exists_feeds (t : Text) :
    ∃ x feeds, t = x ++ feeds ∧ (∀ c ∈ feeds, c = '\n') ∧ x.getLast? ≠ some '\n' := by
  refine ⟨t.rdropWhile (· == '\n'), t.rtakeWhile (· == '\n'), List.rdropWhile_append_rtakeWhile.symm, ?_, ?_⟩
  · intro c hc
    have htest := @List.mem_rtakeWhile_imp _ (fun c : Char => c == '\n') t c hc
    exact beq_iff_eq.mp htest
  · intro hlast
    have hne : t.rdropWhile (· == '\n') ≠ [] := by
      intro hnil
      rw [hnil] at hlast
      cases hlast
    refine List.rdropWhile_last_not (· == '\n') t hne ?_
    rw [List.getLast?_eq_getLast_of_ne_nil hne] at hlast
    rw [Option.some.inj hlast]
    rfl

theorem strip_body_rule (body : Text) :
    Text.strip (body ++ "\n\n---".toList) = Text.lstrip (body ++ "\n\n---".toList) := by
  have hsplit : body ++ "\n\n---".toList = (body ++ "\n\n--".toList) ++ ['-'] := by simp
  have hback : Text.rstrip (body ++ "\n\n---".toList) = body ++ "\n\n---".toList := by
    rw [hsplit]
    exact Text.rstrip_snoc (by decide) _
  rw [← Text.lstrip_rstrip, hback]

theorem isSeparator_rule {feeds : Text} (h : ∀ c ∈ feeds, c = '\n') : IsSeparator feeds "---".toList := by
  have hthree : "---".toList = List.replicate 3 '-' := rfl
  refine ⟨by decide, h, fun c hc => ?_⟩
  rw [hthree] at hc
  exact List.eq_of_mem_replicate hc

/-- The separator behind the body is taken away, and what stays is the body. -/
theorem withoutSeparator_body (body : Text) :
    withoutSeparator (Text.strip (body ++ "\n\n---".toList)) = Text.strip body := by
  rw [strip_body_rule]
  by_cases hblank : Text.lstrip body = []
  · have hrule : Text.lstrip "\n\n---".toList = [] ++ ([] ++ "---".toList) := by decide
    have hsub : Regex.subAll separator none 0 ([] ++ ([] ++ "---".toList)) = [] :=
      subAll_separator (isSeparator_rule (List.forall_mem_nil _)) (by simp) fun _ => by simp
    have hstrip : Text.strip body = [] := by
      rw [Text.strip_eq, hblank]
      rfl
    rw [Text.lstrip_append_of_eq_nil hblank, hrule]
    unfold withoutSeparator
    rw [hsub, hstrip]
    rfl
  · obtain ⟨x, feeds, hx, hfeeds, hlast⟩ := exists_feeds (Text.lstrip body)
    have htwo : ∀ c ∈ "\n\n".toList, c = '\n' := by
      intro c hc
      have htwo' : "\n\n".toList = List.replicate 2 '\n' := rfl
      rw [htwo'] at hc
      exact List.eq_of_mem_replicate hc
    have hmore : ∀ c ∈ feeds ++ "\n\n".toList, c = '\n' :=
      fun c hc => (List.mem_append.mp hc).elim (hfeeds c) (htwo c)
    have hsub : Regex.subAll separator none 0 (x ++ (feeds ++ "\n\n".toList ++ "---".toList)) = x :=
      subAll_separator (isSeparator_rule hmore) hlast fun hnil => by simp at hnil
    have hsplit : x ++ feeds ++ "\n\n---".toList = x ++ (feeds ++ "\n\n".toList ++ "---".toList) := by simp
    have hstrip : Text.strip x = Text.strip body := by
      have hblank' : ∀ c ∈ feeds, Text.isSpace c = true := by
        intro c hc
        rw [hfeeds c hc]
        decide
      have hfront : Text.lstrip (Text.lstrip body) = Text.lstrip body :=
        Text.lstrip_of_head (Text.head_lstrip body)
      rw [← Text.strip_append hblank' x, ← hx, Text.strip_eq, hfront, ← Text.strip_eq]
    rw [Text.lstrip_append_of_ne hblank, hx, hsplit]
    unfold withoutSeparator
    rw [hsub, hstrip]

theorem strip_body_rule_ne (body : Text) : Text.strip (body ++ "\n\n---".toList) ≠ [] := by
  rw [strip_body_rule, Ne, Text.lstrip_eq_nil_iff]
  intro hall
  exact absurd (hall '-' (by simp)) (by decide)

/-- The text in front of the first section of a body. -/
def frontText (body : Text) : Text := Text.strip (unlines (before boundary none (body.splitOn '\n')))

/-- The body has no section, and its fences are closed. -/
def IsPlain (body : Text) : Prop :=
  Free boundary none (body.splitOn '\n') ∧ fencesAfter none (body.splitOn '\n') = none

/-- The first section of the body is an appended one, and the text in front of it neither is blank nor ends in a
rule. -/
structure EndsAppended (body : Text) : Prop where
  first : ∃ line ∈ (onward boundary none (body.splitOn '\n')).head?, appendedTitles line = true
  noOriginal : original body = []
  front : frontText body ≠ []
  noRule : ¬ "---".toList <:+ frontText body

/-- What a body has to be for the write-back to leave its revision alone. -/
structure IsUnwrapped (body : Text) : Prop where
  cases : IsPlain body ∨ EndsAppended body
  /-- The heading of an appended section does not stand at the beginning, behind white space. -/
  front : Free appendedTitles none ((frontText body).splitOn '\n')

theorem free_appended (h : Free boundary none lines) : Free appendedTitles none lines :=
  h.mono fun _ hl => boundary_of_appendedTitles hl

theorem frontOfAppended_of_free (h : Free appendedTitles none (t.splitOn '\n')) :
    frontOfAppended t = Text.strip t := by
  unfold frontOfAppended
  rw [Markdown.before_of_free h, Text.unlines_splitOn]

theorem frontText_of_free (h : Free boundary none (body.splitOn '\n')) : frontText body = Text.strip body := by
  unfold frontText
  rw [Markdown.before_of_free h, Text.unlines_splitOn]

theorem original_of_free (h : Free boundary none (body.splitOn '\n')) : original body = [] := by
  rw [original_eq]
  unfold sectionOf
  rw [Markdown.bodyOf_nil (h.titles originalDescription.text)]
  rfl

/-- Where the body has no section, what is unwrapped is the body. -/
theorem original_of_plain (h : IsPlain body) (spec : Text) :
    original (writtenBack body spec) = Text.strip (body ++ "\n\n---".toList) := by
  obtain ⟨hfree, hclosed⟩ := h
  rw [original_writtenBack, Markdown.before_append_of_free hfree, hclosed, before_specLines,
    Text.unlines_append _ (List.cons_ne_nil _ _), Text.ended_eq (List.splitOn_ne_nil '\n' body),
    Text.unlines_splitOn]
  have hjoin : body ++ ['\n'] ++ unlines [[], "---".toList, []] = (body ++ "\n\n---".toList) ++ ['\n'] := by
    simp [unlines]
    rfl
  rw [hjoin]
  exact Text.strip_append (Text.forall_mem_of_all rfl) _

/-- Where it has one, what is unwrapped is the text in front of it. -/
theorem original_of_section (h : ¬ Free boundary none (body.splitOn '\n')) (spec : Text) :
    original (writtenBack body spec) = frontText body := by
  rw [original_writtenBack, Markdown.before_append_of_hit h]
  rfl

theorem strip_frontText (body : Text) : Text.strip (frontText body) = frontText body := Text.strip_strip _

/-- Where the first section is an appended one, it is cut off where the text in front of it ends. -/
theorem before_of_first_appended (hline : line ∈ (onward boundary none lines).head?)
    (happended : appendedTitles line = true) :
    before appendedTitles none lines = before boundary none lines := by
  cases honward : onward boundary none lines with
  | nil =>
    rw [honward] at hline
    cases hline
  | cons l behind =>
    rw [honward] at hline
    obtain rfl : l = line := Option.some.inj hline
    obtain ⟨hsplit, hclosed, -⟩ := Markdown.onward_eq_cons honward
    have hfree : Free appendedTitles none (before boundary none lines) :=
      free_appended (Markdown.free_before boundary none lines)
    conv_lhs => rw [hsplit]
    rw [Markdown.before_append_of_free hfree, hclosed, Markdown.before_hit happended, List.append_nil]

theorem IsUnwrapped.same (h : IsUnwrapped body) (spec : Text) :
    stripAppendedSections (writtenBack body spec) = stripAppendedSections body := by
  rw [stripAppendedSections_eq, stripAppendedSections_eq]
  rcases h.cases with hplain | hends
  · have hne : original (writtenBack body spec) ≠ [] := by
      rw [original_of_plain hplain]
      exact strip_body_rule_ne body
    have hfront := h.front
    rw [frontText_of_free hplain.1] at hfront
    rw [unwrap_eq, if_neg hne, original_of_plain hplain, withoutSeparator_body, frontOfAppended_of_free hfront,
      unwrap_of_nil (original_of_free hplain.1), frontOfAppended_of_free (free_appended hplain.1),
      Text.strip_strip]
  · obtain ⟨line, hline, happended⟩ := hends.first
    have hsection : ¬ Free boundary none (body.splitOn '\n') := by
      intro hfree
      rw [hfree] at hline
      cases hline
    have hne : original (writtenBack body spec) ≠ [] := by
      rw [original_of_section hsection]
      exact hends.front
    rw [unwrap_eq, if_neg hne, original_of_section hsection,
      withoutSeparator_eq_self (strip_frontText body) hends.noRule, frontOfAppended_of_free h.front,
      strip_frontText, unwrap_of_nil hends.noOriginal]
    unfold frontText frontOfAppended
    rw [before_of_first_appended hline happended]

/-! ## What is lost otherwise -/

theorem ink_lines_append (a b : List Text) : ink (unlines (a ++ b)) = ink (unlines a) + ink (unlines b) := by
  rw [Text.ink_unlines, Text.ink_unlines, Text.ink_unlines, List.map_append, List.sum_append]

theorem ink_lines_cons (line : Text) (lines : List Text) :
    ink (unlines (line :: lines)) = ink line + ink (unlines lines) := by
  rw [Text.ink_unlines, Text.ink_unlines, List.map_cons, List.sum_cons]

theorem ink_boundary (h : boundary line = true) : 0 < ink line := by
  obtain ⟨c, rest, -, rfl⟩ := Markdown.boundary_iff.mp h
  exact List.countP_pos_iff.mpr ⟨'#', List.mem_cons_self, by decide⟩

theorem ink_frontOfAppended (t : Text) :
    ink (frontOfAppended t) = ink (unlines (before appendedTitles none (t.splitOn '\n'))) := Text.ink_strip _

theorem ink_lines (t : Text) : ink t = ink (unlines (before appendedTitles none (t.splitOn '\n'))) +
    ink (unlines (onward appendedTitles none (t.splitOn '\n'))) := by
  rw [← ink_lines_append, Markdown.before_append_onward, Text.unlines_splitOn]

theorem ink_frontOfAppended_le (t : Text) : ink (frontOfAppended t) ≤ ink t := by
  rw [ink_frontOfAppended, ink_lines t]
  exact Nat.le_add_right _ _

/-- A cut takes a heading away. -/
theorem ink_frontOfAppended_lt (h : ¬ Free appendedTitles none (t.splitOn '\n')) :
    ink (frontOfAppended t) < ink t := by
  rw [ink_frontOfAppended, ink_lines t]
  obtain ⟨line, behind, hcons⟩ := List.exists_cons_of_ne_nil h
  obtain ⟨-, -, hline⟩ := Markdown.onward_eq_cons hcons
  have hink := ink_boundary (boundary_of_appendedTitles hline)
  rw [hcons, ink_lines_cons]
  omega

/-- A rule at the end of a text, as far as it goes. -/
theorem exists_rule (h : "---".toList <:+ t) : ∃ x feeds dashes, t = x ++ (feeds ++ dashes) ∧
    IsSeparator feeds dashes ∧ x.getLast? ≠ some '\n' ∧ (feeds = [] → x.getLast? ≠ some '-') := by
  obtain ⟨x, feeds, hx, hfeeds, hlast⟩ := exists_feeds (t.rdropWhile (· == '-'))
  have hdashes : ∀ c ∈ t.rtakeWhile (· == '-'), c = '-' := by
    intro c hc
    have htest := @List.mem_rtakeWhile_imp _ (fun c : Char => c == '-') t c hc
    exact beq_iff_eq.mp htest
  have hsplit : t = t.rdropWhile (· == '-') ++ t.rtakeWhile (· == '-') :=
    List.rdropWhile_append_rtakeWhile.symm
  refine ⟨x, feeds, t.rtakeWhile (· == '-'), ?_, ⟨?_, hfeeds, hdashes⟩, hlast, ?_⟩
  · rw [← List.append_assoc, ← hx]
    exact hsplit
  · obtain ⟨front, rfl⟩ := h
    have hthree : (front ++ "---".toList).rtakeWhile (· == '-') =
        front.rtakeWhile (· == '-') ++ "---".toList := by
      unfold List.rtakeWhile
      rw [List.reverse_append]
      simp
    rw [hthree, List.length_append]
    exact Nat.le_add_left 3 _
  · rintro rfl hdash
    rw [List.append_nil] at hx
    have hne : t.rdropWhile (· == '-') ≠ [] := by
      intro hnil
      rw [← hx, hnil] at hdash
      cases hdash
    refine List.rdropWhile_last_not (· == '-') t hne ?_
    rw [← hx, List.getLast?_eq_getLast_of_ne_nil hne] at hdash
    rw [Option.some.inj hdash]
    rfl

theorem ink_withoutSeparator_lt (h : "---".toList <:+ t) : ink (withoutSeparator t) < ink t := by
  obtain ⟨x, feeds, dashes, rfl, hsep, hlast, hdash⟩ := exists_rule h
  obtain ⟨init, rfl⟩ := hsep.exists_last
  have hpos : ink ['-'] = 1 := by decide
  unfold withoutSeparator
  rw [subAll_separator hsep hlast hdash, Text.ink_strip]
  simp only [Text.ink_append, hpos]
  omega

theorem ink_withoutSeparator_le (hstrip : Text.strip t = t) : ink (withoutSeparator t) ≤ ink t := by
  by_cases hrule : "---".toList <:+ t
  · exact (ink_withoutSeparator_lt hrule).le
  · rw [withoutSeparator_eq_self hstrip hrule]

/-- What a reader keeps of some lines it keeps when others follow. -/
theorem exists_before_append (p : Text → Bool) (st : Option Fence) (a b : List Text) :
    ∃ more, before p st (a ++ b) = before p st a ++ more := by
  by_cases hfree : Free p st a
  · exact ⟨_, by rw [Markdown.before_append_of_free hfree, Markdown.before_of_free hfree]⟩
  · exact ⟨[], by rw [Markdown.before_append_of_hit hfree, List.append_nil]⟩

/-- Where no text is in front of the first section, nothing is unwrapped and the new heading is hashed. -/
theorem differs_of_blank_front (hsection : ¬ Free boundary none (body.splitOn '\n'))
    (hnone : original body = []) (hfront : frontText body = []) (spec : Text) :
    stripAppendedSections (writtenBack body spec) ≠ stripAppendedSections body := by
  have hnil : original (writtenBack body spec) = [] := (original_of_section hsection spec).trans hfront
  rw [stripAppendedSections_eq, stripAppendedSections_eq, unwrap_of_nil hnil, unwrap_of_nil hnone]
  obtain ⟨more, hmore⟩ := exists_before_append appendedTitles none (body.splitOn '\n') (specLines spec)
  have hhead : Free appendedTitles none [headLine originalDescription.text, []] := by
    show onward appendedTitles none _ = []
    decide +kernel
  have hstate : fencesAfter none [headLine originalDescription.text, []] = none := by decide +kernel
  have hlines : before appendedTitles none ((writtenBack body spec).splitOn '\n') =
      [headLine originalDescription.text, []] ++ (before appendedTitles none (body.splitOn '\n') ++ more) := by
    have hwhole := Markdown.before_append_of_free hhead (body.splitOn '\n' ++ specLines spec)
    rw [hstate, hmore] at hwhole
    rw [writtenBack_lines]
    exact hwhole
  intro heq
  have hink := congrArg ink heq
  have hpos : ink (unlines [headLine originalDescription.text, []]) = 21 := by decide +kernel
  rw [ink_frontOfAppended, ink_frontOfAppended, hlines, ink_lines_append, ink_lines_append, hpos] at hink
  omega

/-- What is hashed of the text in front of the first section has no more in it than that text. -/
theorem ink_hashed_front_le (body : Text) :
    ink (frontOfAppended (withoutSeparator (frontText body))) ≤ ink (frontText body) :=
  (ink_frontOfAppended_le _).trans (ink_withoutSeparator_le (strip_frontText body))

theorem differs_of_section (hsection : ¬ Free boundary none (body.splitOn '\n')) (hnone : original body = [])
    (h : ¬ IsUnwrapped body) (spec : Text) :
    stripAppendedSections (writtenBack body spec) ≠ stripAppendedSections body := by
  by_cases hfront : frontText body = []
  · exact differs_of_blank_front hsection hnone hfront spec
  · have hne : original (writtenBack body spec) ≠ [] := by
      rw [original_of_section hsection]
      exact hfront
    obtain ⟨line, behind, hcons⟩ := List.exists_cons_of_ne_nil hsection
    obtain ⟨hsplit, hclosed, hline⟩ := Markdown.onward_eq_cons hcons
    have hhead : line ∈ (onward boundary none (body.splitOn '\n')).head? := by
      rw [hcons]
      rfl
    have hle := ink_hashed_front_le body
    rw [stripAppendedSections_eq, stripAppendedSections_eq, unwrap_eq, if_neg hne, original_of_section hsection,
      unwrap_of_nil hnone]
    intro heq
    have hink := congrArg ink heq
    have hwhole : ink (frontText body) = ink (unlines (before boundary none (body.splitOn '\n'))) :=
      Text.ink_strip _
    cases happended : appendedTitles line with
    | false =>
      -- The heading is hashed with the body.
      have hfree : Free appendedTitles none (before boundary none (body.splitOn '\n')) :=
        free_appended (Markdown.free_before boundary none _)
      have hpass : Free appendedTitles none [line] :=
        Markdown.free_of_forall fun l hl => by rw [List.mem_singleton.mp hl, happended]
      have hmore : before appendedTitles none (body.splitOn '\n') =
          before boundary none (body.splitOn '\n') ++ ([line] ++ before appendedTitles
            (fencesAfter none [line]) behind) := by
        have hstep := Markdown.before_append_of_free hpass behind
        conv_lhs => rw [hsplit]
        rw [Markdown.before_append_of_free hfree, hclosed]
        exact congrArg _ hstep
      have hpos := ink_boundary hline
      rw [ink_frontOfAppended body, hmore, ink_lines_append, ink_lines_append, Text.unlines_singleton] at hink
      omega
    | true =>
      have hsame : frontOfAppended body = frontText body := by
        unfold frontText frontOfAppended
        rw [before_of_first_appended hhead happended]
      rw [hsame] at hink
      by_cases hrule : "---".toList <:+ frontText body
      · have hlt := ink_withoutSeparator_lt hrule
        have hle' := ink_frontOfAppended_le (withoutSeparator (frontText body))
        omega
      · have hends : EndsAppended body := ⟨⟨line, hhead, happended⟩, hnone, hfront, hrule⟩
        have hcut : ¬ Free appendedTitles none ((frontText body).splitOn '\n') :=
          fun hfree => h ⟨.inr hends, hfree⟩
        rw [withoutSeparator_eq_self (strip_frontText body) hrule] at hink
        have hlt := ink_frontOfAppended_lt hcut
        omega

theorem differs_of_closed (hplain : IsPlain body) (h : ¬ IsUnwrapped body) (spec : Text) :
    stripAppendedSections (writtenBack body spec) ≠ stripAppendedSections body := by
  have hne : original (writtenBack body spec) ≠ [] := by
    rw [original_of_plain hplain]
    exact strip_body_rule_ne body
  have hcut : ¬ Free appendedTitles none ((Text.strip body).splitOn '\n') := by
    rw [← frontText_of_free hplain.1]
    exact fun hfree => h ⟨.inl hplain, hfree⟩
  have hlt := ink_frontOfAppended_lt hcut
  rw [stripAppendedSections_eq, stripAppendedSections_eq, unwrap_eq, if_neg hne, original_of_plain hplain,
    withoutSeparator_body, unwrap_of_nil (original_of_free hplain.1),
    frontOfAppended_of_free (free_appended hplain.1)]
  intro heq
  rw [heq] at hlt
  exact absurd hlt (Nat.lt_irrefl _)

/-! ## A fence that stays open -/

/-- The fence of a block is one of backticks or of tildes. -/
def IsFence (st : Option Fence) : Prop := ∀ fence ∈ st, fence.char = '`' ∨ fence.char = '~'

theorem isFence_open (line : Text) : IsFence (Markdown.openFence line) := by
  intro fence hfence
  unfold Markdown.openFence at hfence
  split at hfence
  · cases hfence
  next c rest _ =>
    dsimp only at hfence
    split at hfence
    next hmark =>
      obtain rfl := Option.some.inj hfence
      have hchar := (Bool.and_eq_true_iff.mp hmark).1
      simpa using hchar
    next => cases hfence

theorem isFence_after (st : Option Fence) (hst : IsFence st) (lines : List Text) :
    IsFence (fencesAfter st lines) := by
  induction lines generalizing st with
  | nil => exact hst
  | cons line lines ih =>
    rw [Markdown.fencesAfter_cons]
    refine ih _ ?_
    cases st with
    | none => exact isFence_open line
    | some fence =>
      rw [Markdown.fenceAfter_some]
      split
      · exact fun _ hnone => by cases hnone
      · exact hst

/-- The lines of the template up to the heading of the spec do not close a fence. -/
theorem stays_open {fence : Fence} (h : fence.char = '`' ∨ fence.char = '~') :
    fencesAfter (some fence) [[], "---".toList, []] = some fence ∧
      Free boundary (some fence) [[], "---".toList, [], "## Implementation Spec".toList] := by
  have hrule : closesFence fence "---".toList = false := by
    unfold closesFence
    have hstrip : Text.strip "---".toList = "---".toList := by decide
    have hchar : "---".toList.all (· == fence.char) = false := by
      rcases h with h | h <;> rw [h] <;> decide
    rw [hstrip]
    dsimp only
    rw [hchar, Bool.and_false, Bool.false_and]
  have hblank : Markdown.fenceAfter (some fence) [] = some fence := Markdown.fenceAfter_of_blank rfl _
  have hmiddle : Markdown.fenceAfter (some fence) "---".toList = some fence := by
    rw [Markdown.fenceAfter_some, hrule]
    rfl
  constructor
  · rw [Markdown.fencesAfter_cons, hblank, Markdown.fencesAfter_cons, hmiddle, Markdown.fencesAfter_cons,
      hblank]
    rfl
  · rw [Markdown.free_cons_iff, hblank, Markdown.free_cons_iff, hmiddle, Markdown.free_cons_iff, hblank,
      Markdown.free_cons_iff]
    have hno : ∀ line, ¬ (some fence = none ∧ boundary line = true) := fun _ h => nomatch h.1
    exact ⟨hno _, hno _, hno _, hno _, rfl⟩

/-- What stands behind the body, up to the heading of the spec. -/
def template : Text := "\n\n---\n\n## Implementation Spec".toList

theorem template_eq : template = "\n\n---\n\n## Implementation Spe".toList ++ ['c'] := rfl

/-- Where a fence stays open, the section goes on at least to the heading of the spec. -/
theorem original_of_open {fence : Fence} (hfree : Free boundary none (body.splitOn '\n'))
    (hopen : fencesAfter none (body.splitOn '\n') = some fence) (spec : Text) :
    ∃ z, original (writtenBack body spec) = Text.strip (body ++ (template ++ z)) := by
  have hfence : IsFence (fencesAfter none (body.splitOn '\n')) := isFence_after none (fun _ h => nomatch h) _
  have hstays := (stays_open (hfence fence hopen)).2
  obtain ⟨more, hmore⟩ : ∃ more, before boundary (some fence) (specLines spec) =
      [[], "---".toList, [], "## Implementation Spec".toList] ++ more :=
    ⟨_, Markdown.before_append_of_free hstays ([] :: spec.splitOn '\n')⟩
  have htext : ∃ z, body ++ ['\n'] ++
      unlines ([[], "---".toList, [], "## Implementation Spec".toList] ++ more) = body ++ (template ++ z) := by
    by_cases hnil : more = []
    · refine ⟨[], ?_⟩
      rw [hnil, List.append_nil, List.append_nil, List.append_assoc]
      rfl
    · refine ⟨'\n' :: unlines more, ?_⟩
      rw [Text.unlines_append _ hnil, List.append_assoc]
      rfl
  obtain ⟨z, hz⟩ := htext
  refine ⟨z, ?_⟩
  rw [original_writtenBack, Markdown.before_append_of_free hfree, hopen, hmore,
    Text.unlines_append _ (by simp), Text.ended_eq (List.splitOn_ne_nil '\n' body), Text.unlines_splitOn, hz]

/-- No separator reaches over the heading of the spec. -/
theorem withoutSeparator_of_open (hbody : Text.lstrip body ≠ []) (z : Text) :
    ∃ rest, withoutSeparator (Text.strip (body ++ (template ++ z))) =
      Text.lstrip body ++ (template ++ rest) := by
  have hfront : Text.lstrip (Text.lstrip body) = Text.lstrip body := Text.lstrip_of_head (Text.head_lstrip body)
  have hc : Text.isSpace 'c' = false := by decide
  have hstrip : ∀ b u : Text, Text.lstrip b ≠ [] →
      Text.strip (b ++ (template ++ u)) = Text.lstrip b ++ template ++ Text.rstrip u := by
    intro b u hb
    have hsplit : b ++ (template ++ u) = (b ++ "\n\n---\n\n## Implementation Spe".toList) ++ ['c'] ++ u := by
      rw [template_eq]
      simp
    rw [← Text.lstrip_rstrip, hsplit, Text.rstrip_append_snoc hc, template_eq, List.append_assoc,
      List.append_assoc, Text.lstrip_append_of_ne hb]
    simp
  have hnone : ∀ prev s, s <:+ Text.lstrip body ++ template → s ≠ [] →
      separator prev (s ++ Text.rstrip z) = none := by
    intro prev s hs hne
    rw [← Option.not_isSome_iff_eq_none]
    intro hsome
    obtain ⟨feeds, dashes, blank, hsplit, hsep, hblank⟩ := separator_isSome hsome
    obtain ⟨init, d, rfl⟩ := (List.eq_nil_or_concat' s).resolve_left hne
    have hd : d = 'c' := by
      obtain ⟨front, hfront⟩ := hs
      rw [template_eq, ← List.append_assoc, ← List.append_assoc] at hfront
      exact (List.append_inj' hfront rfl).2 |> List.singleton_inj.mp
    have hmem : 'c' ∈ feeds ++ (dashes ++ blank) := by
      rw [← hsplit, hd]
      simp
    rcases List.mem_append.mp hmem with hin | hin
    · exact absurd (hsep.feeds 'c' hin) (by decide)
    · rcases List.mem_append.mp hin with hin | hin
      · exact absurd (hsep.dashes 'c' hin) (by decide)
      · exact absurd (hblank 'c' hin) (by decide)
  have hsub : Regex.subAll separator none 0 (Text.lstrip body ++ template ++ Text.rstrip z) = _ :=
    Regex.subAll_skip_word hnone
  rw [hstrip body z hbody]
  unfold withoutSeparator
  rw [hsub, List.append_assoc, hstrip _ _ (by rwa [hfront]), hfront, List.append_assoc]
  exact ⟨_, rfl⟩

/-- The rule of the template is hashed with the body, or the body is cut. -/
theorem differs_of_open {fence : Fence} (hfree : Free boundary none (body.splitOn '\n'))
    (hopen : fencesAfter none (body.splitOn '\n') = some fence) (spec : Text) :
    stripAppendedSections (writtenBack body spec) ≠ stripAppendedSections body := by
  have hstripbody : Text.strip (Text.lstrip body) = Text.strip body := by
    rw [Text.strip_eq, Text.lstrip_of_head (Text.head_lstrip body), ← Text.strip_eq]
  have hstate : fencesAfter none ((Text.lstrip body).splitOn '\n') = some fence := by
    rw [← Markdown.fencesAfter_strip, hstripbody, Markdown.fencesAfter_strip, hopen]
  have hbody : Text.lstrip body ≠ [] := by
    intro hnil
    rw [hnil] at hstate
    cases hstate
  obtain ⟨z, hz⟩ := original_of_open hfree hopen spec
  obtain ⟨rest, hrest⟩ := withoutSeparator_of_open hbody z
  have hne : original (writtenBack body spec) ≠ [] := by
    intro hnil
    rw [hz] at hnil
    rw [hnil] at hrest
    have hlen := congrArg List.length hrest
    have hzero : (withoutSeparator []).length = 0 := by decide
    have hpos : 0 < template.length := by decide
    rw [hzero, List.length_append, List.length_append] at hlen
    omega
  have hlines : (Text.lstrip body ++ (template ++ rest)).splitOn '\n' = (Text.lstrip body).splitOn '\n' ++
      ([] :: "---".toList :: ('\n' :: ("## Implementation Spec".toList ++ rest)).splitOn '\n') := by
    have htext : Text.lstrip body ++ (template ++ rest) = Text.lstrip body ++ '\n' :: ([] ++ '\n' ::
        ("---".toList ++ '\n' :: ('\n' :: ("## Implementation Spec".toList ++ rest)))) := rfl
    have hrule : "---".toList.splitOn '\n' = ["---".toList] := by decide +kernel
    have hnil : ([] : Text).splitOn '\n' = [[]] := rfl
    rw [htext]
    simp only [splitOn_append_newline, hrule, hnil]
    rfl
  have hinkbody : ink (Text.lstrip body) = ink (Text.strip body) := by
    rw [← Text.ink_strip, hstripbody]
  rw [stripAppendedSections_eq, stripAppendedSections_eq, unwrap_eq, if_neg hne, hz, hrest,
    unwrap_of_nil (original_of_free hfree), frontOfAppended_of_free (free_appended hfree)]
  intro heq
  have hink := congrArg ink heq
  rw [ink_frontOfAppended, hlines] at hink
  by_cases hcut : Free appendedTitles none ((Text.lstrip body).splitOn '\n')
  · have hfirst : Free appendedTitles (some fence) [[], "---".toList] := by
      have hno : ∀ line, ¬ (some fence = none ∧ appendedTitles line = true) := fun _ h => nomatch h.1
      have hblank : Markdown.fenceAfter (some fence) [] = some fence := Markdown.fenceAfter_of_blank rfl _
      rw [Markdown.free_cons_iff, hblank, Markdown.free_cons_iff]
      exact ⟨hno _, hno _, rfl⟩
    have hmore := Markdown.before_append_of_free hfirst
      (('\n' :: ("## Implementation Spec".toList ++ rest)).splitOn '\n')
    have hpos : ink (unlines [[], "---".toList]) = 3 := by decide
    rw [Markdown.before_append_of_free hcut, hstate] at hink
    have hjoin : ([] : Text) :: "---".toList ::
        ('\n' :: ("## Implementation Spec".toList ++ rest)).splitOn '\n' =
        [[], "---".toList] ++ ('\n' :: ("## Implementation Spec".toList ++ rest)).splitOn '\n' := rfl
    rw [hjoin, hmore, ink_lines_append, ink_lines_append, hpos, Text.unlines_splitOn] at hink
    omega
  · rw [Markdown.before_append_of_hit hcut, ← ink_frontOfAppended] at hink
    have hlt := ink_frontOfAppended_lt hcut
    omega

/-! ## Altogether -/

/-- The write-back leaves the revision of an issue alone when its body has no section of its own, or none in
front of the appended ones. A body that is not written back already is hashed as another text in every other case. -/
theorem revision_of_writtenBack (title body spec : Text) :
    (IsUnwrapped body →
      computeIssueRevisionHash title (writtenBack body spec) = computeIssueRevisionHash title body) ∧
    (original body = [] → ¬ IsUnwrapped body →
      stripAppendedSections (writtenBack body spec) ≠ stripAppendedSections body) := by
  constructor
  · intro h
    exact computeIssueRevisionHash_congr title (h.same spec)
  · intro hnone h
    by_cases hfree : Free boundary none (body.splitOn '\n')
    · cases hopen : fencesAfter none (body.splitOn '\n') with
      | none => exact differs_of_closed ⟨hfree, hopen⟩ h spec
      | some fence => exact differs_of_open hfree hopen spec
    · exact differs_of_section hfree hnone h spec

/-- A body that has nothing but an appended section. -/
theorem revision_of_writtenBack_research :
    let title := "Add cache".toList
    let body := "Cache the listing.\n\n## Research\n\nA dict will do.".toList
    computeIssueRevisionHash title (writtenBack body "Use a dict.".toList) =
      computeIssueRevisionHash title body := by
  intro title body
  have hends : EndsAppended body := by
    refine ⟨⟨"## Research".toList, ?_, ?_⟩, ?_, ?_, ?_⟩ <;> decide +kernel
  have hfront : Free appendedTitles none ((frontText body).splitOn '\n') := by
    show onward appendedTitles none _ = []
    decide +kernel
  exact (revision_of_writtenBack title body "Use a dict.".toList).1 ⟨.inr hends, hfront⟩

/-- A body with a section of its own. -/
theorem writtenBack_loses_section :
    let title := "Add cache".toList
    let body := "Cache the listing.\n\n## Acceptance criteria\n\n- It is fast.".toList
    computeIssueRevisionHash title (writtenBack body "Use a dict.".toList) ≠
      computeIssueRevisionHash title body := by
  intro title body
  decide +kernel

end Core.SpecStamp
