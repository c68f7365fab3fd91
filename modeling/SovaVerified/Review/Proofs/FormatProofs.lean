import SovaVerified.Regex.Proofs.SearchProofs
import SovaVerified.Review.Format

/-!
# Proofs: the markers

Where an addressed marker can begin and end, which words it cannot reach over, and that a verdict
marker at the front of a body is the one that is read.
-/

namespace Review

open Regex

/-! ## Commit ids -/

theorem isSha_iff (t : Text) :
    isSha t = true ↔ 7 ≤ t.length ∧ t.length ≤ 40 ∧ ∀ c ∈ t, isHexCI c = true := by
  unfold isSha
  rw [fullMatch_iff]
  simp [shaPattern, Matches]

/-! ## The addressed marker -/

theorem addressed_nullable : sovaAddressedMarkerRe.nullable = false := by rfl

theorem addressed_starts {c : Char} (h : c ≠ '<') : sovaAddressedMarkerRe.starts c = false := by
  show ((foldEq '<' c || (false && _)) || (false && _)) = false
  rw [foldEq_symbol (by decide) h]
  rfl

theorem addressed_ends {c : Char} (h : c ≠ '>') : sovaAddressedMarkerRe.ends c = false := by
  have hgt : foldEq '>' c = false := foldEq_symbol (by decide) h
  simp [sovaAddressedMarkerRe, cat, opt, lit, spaces, ends, nullable, hgt]

theorem hasAddressedMarker_eq_false {t : Text} (h : '<' ∉ t) : hasAddressedMarker t = false := by
  unfold hasAddressedMarker
  rw [search_eq_none addressed_nullable]
  · rfl
  · intro c hc
    exact addressed_starts (fun heq => h (heq ▸ hc))

/-- A front without `<` does not matter to the search. -/
theorem hasAddressedMarker_front {a b : Text} (h : '<' ∉ a) :
    hasAddressedMarker (a ++ b) = hasAddressedMarker b := by
  rw [Bool.eq_iff_iff]
  exact search_skip_front addressed_nullable (fun c hc => addressed_starts (fun heq => h (heq ▸ hc)))

/-- An end without `>` does not matter to the search. -/
theorem hasAddressedMarker_back {a b : Text} (h : '>' ∉ b) :
    hasAddressedMarker (a ++ b) = hasAddressedMarker a := by
  rw [Bool.eq_iff_iff]
  exact search_skip_back addressed_nullable (fun c hc => addressed_ends (fun heq => h (heq ▸ hc)))

theorem hasAddressedMarker_strip (t : Text) :
    hasAddressedMarker (Text.strip t) = hasAddressedMarker t := by
  obtain ⟨a, b, ht, ha, hb⟩ := Text.strip_spec t
  have hlt : '<' ∉ a := fun h => absurd (ha '<' h) (by decide)
  have hgt : '>' ∉ b := fun h => absurd (hb '>' h) (by decide)
  conv_rhs => rw [ht, hasAddressedMarker_front hlt, hasAddressedMarker_back hgt]

theorem hasAddressedMarker_blocks {a w b : Text} (hw : Blocks sovaAddressedMarkerRe w) :
    hasAddressedMarker (a ++ (w ++ b)) = (hasAddressedMarker a || hasAddressedMarker b) := by
  rw [Bool.eq_iff_iff, Bool.or_eq_true]
  exact hw a b

/-- A line that opens a list item: only the opening `<!--` of a marker has a dash before white space,
and it has no line break. -/
theorem blocks_item : Blocks sovaAddressedMarkerRe "\n- ".toList := by
  refine blocks_of_not_infix addressed_nullable ?_ (Text.forall_mem_of_all (by decide))
    (Text.forall_mem_of_all (by decide))
  rintro x y ⟨v, w, hvw, hv, hw⟩
  have hfollows : ∀ e, w ≠ e ++ '\n' :: '-' :: ' ' :: y := by
    intro e he
    rw [he, show e ++ '\n' :: '-' :: ' ' :: y = (e ++ ['\n']) ++ '-' :: ' ' :: y by simp] at hw
    have hdigram := hw.follows
    revert hdigram
    decide
  have hshape : x ++ '\n' :: '-' :: ' ' :: y = v ++ w := by rw [← hvw]; simp
  rcases List.append_eq_append_iff.mp hshape with ⟨e, rfl, he⟩ | ⟨e, rfl, he⟩
  · cases e with
    | nil => exact hfollows [] (by simpa using he.symm)
    | cons c e =>
      have hc : c = '\n' := by simp at he; exact he.1.symm
      have huse := hv.uses c (by simp)
      rw [hc] at huse
      revert huse
      decide
  · exact hfollows e he

/-! ## The verdict marker -/

/-- The text of a verdict inside its marker. -/
theorem lower_name (v : Verdict) :
    Text.lower v.name = match v with
      | .approve => "approve".toList
      | .revise => "revise".toList
      | .block => "block".toList := by
  cases v <;> rfl

/-- The alternatives of the verdict group take the verdict that stands there. -/
theorem run_verdictGroup (v : Verdict) (b : Text) (g : Groups) {α : Type}
    {k : Text → Groups → Option α} {x : α} (hk : k b ((1, Text.lower v.name) :: g) = some x) :
    run (.cap 1 (.alt (lit "approve") (.alt (lit "revise") (lit "block"))))
      (Text.lower v.name ++ b) g k = some x := by
  have htake := take_captured (Text.lower v.name) b
  rw [run, run]
  cases v with
  | approve =>
    rw [lower_name] at hk htake ⊢
    rw [run_lit, htake, hk]
    rfl
  | revise =>
    rw [lower_name] at hk htake ⊢
    rw [run, run_lit, htake, hk]
    rfl
  | block =>
    rw [lower_name] at hk htake ⊢
    rw [run, run_lit, htake, hk]
    rfl

section

variable {α : Type} {b : Text} {g : Groups} {k : Text → Groups → Option α} {x : α}

/-- One blank before a text that does not begin with white space. -/
theorem run_spaces (hb : ∀ c ∈ b.head?, Text.isSpace c = false) (hk : k b g = some x) :
    run spaces (' ' :: b) g k = some x :=
  run_rep_all (a := [' ']) (Nat.zero_le _) (by simp) (Text.forall_mem_of_all (by decide)) hb hk

theorem run_spaces1 (hb : ∀ c ∈ b.head?, Text.isSpace c = false) (hk : k b g = some x) :
    run spaces1 (' ' :: b) g k = some x :=
  run_rep_all (a := [' ']) (Nat.le_refl _) (by simp) (Text.forall_mem_of_all (by decide)) hb hk

/-- The group of a commit id takes all its digits. -/
theorem run_shaGroup (s : Sha) (hb : ∀ c ∈ b.head?, isHexCI c = false)
    (hk : k b ((2, s.digits) :: g) = some x) :
    run (.cap 2 shaPattern) (s.digits ++ b) g k = some x := by
  obtain ⟨hlo, hhi, hhex⟩ := (isSha_iff s.digits).mp s.valid
  rw [run]
  refine run_rep_all hlo (by simpa using hhi) hhex hb ?_
  rw [take_captured]
  exact hk

end

/-- The groups of a verdict marker: the reviewed commit, when there is one, and the verdict. -/
def markerGroups (v : Verdict) (sha : Option Sha) : Groups :=
  match sha with
  | some s => [(2, s.digits), (1, Text.lower v.name)]
  | none => [(1, Text.lower v.name)]

theorem Sha.digits_ne_nil (s : Sha) : s.digits ≠ [] := by
  intro h
  have hlen := ((isSha_iff s.digits).mp s.valid).1
  simp [h] at hlen

/-- The end of a marker, as the expression reads it. -/
theorem run_close (t : Text) (g : Groups) :
    (run spaces (' ' :: ("-->".toList ++ t)) g fun t' g' =>
      run (lit "-->") t' g' fun _ g => some g) = some g := by
  refine run_spaces (by intro c hc; cases hc; rfl) ?_
  rw [run_lit]

/-- The anchor of a marker with a commit. -/
theorem run_anchor (s : Sha) (t : Text) (g : Groups) :
    (run (opt (cat [spaces1, lit "sha=", .cap 2 shaPattern]))
      (' ' :: ("sha=".toList ++ (s.digits ++ (' ' :: ("-->".toList ++ t))))) g fun t' g' =>
        run spaces t' g' fun t' g' => run (lit "-->") t' g' fun _ g => some g) =
      some ((2, s.digits) :: g) := by
  have hanchored : (run (cat [spaces1, lit "sha=", .cap 2 shaPattern])
      (' ' :: ("sha=".toList ++ (s.digits ++ (' ' :: ("-->".toList ++ t))))) g fun t' g' =>
        run spaces t' g' fun t' g' => run (lit "-->") t' g' fun _ g => some g) =
      some ((2, s.digits) :: g) := by
    simp only [cat, List.foldr, run_seq, run_eps]
    refine run_spaces1 (by intro c hc; cases hc; rfl) ?_
    rw [run_lit]
    refine run_shaGroup s (by intro c hc; cases hc; rfl) ?_
    exact run_close t _
  rw [opt, run_alt, hanchored]
  rfl

/-- A marker without a commit: the optional anchor fails on the closing `-->`. -/
theorem run_no_anchor (t : Text) (g : Groups) :
    (run (opt (cat [spaces1, lit "sha=", .cap 2 shaPattern])) (' ' :: ("-->".toList ++ t)) g
      fun t' g' => run spaces t' g' fun t' g' => run (lit "-->") t' g' fun _ g => some g) =
      some g := by
  rw [opt, run_alt, run_eps, run_close]
  rfl

/-- A verdict marker at the front of a text is matched there, with its own verdict and commit. -/
theorem matchPrefix_verdictMarker (v : Verdict) (sha : Option Sha) (t : Text) :
    matchPrefix sovaVerdictMarkerRe (verdictMarker v (sha.map Sha.digits) ++ t) =
      some (markerGroups v sha) := by
  have hname : ∀ u : Text, ∀ c ∈ (Text.lower v.name ++ u).head?, Text.isSpace c = false := by
    intro u c hc
    cases v <;> (simp [lower_name] at hc; subst hc; rfl)
  -- the front of the marker is the same with and without a commit
  have hfront : ∀ u g, (run (opt (cat [spaces1, lit "sha=", .cap 2 shaPattern])) u
        [(1, Text.lower v.name)] fun t' g' => run spaces t' g' fun t' g' =>
          run (lit "-->") t' g' fun _ g => some g) = some g →
      matchPrefix sovaVerdictMarkerRe ("<!--".toList ++ (' ' :: ("sova-review:".toList ++
        (' ' :: (Text.lower v.name ++ u))))) = some g := by
    intro u g hu
    unfold matchPrefix sovaVerdictMarkerRe
    rw [cat]
    simp only [List.foldr, run_seq, run_eps]
    rw [run_lit]
    refine run_spaces (by intro c hc; cases hc; rfl) ?_
    rw [run_lit]
    refine run_spaces (hname _) ?_
    exact run_verdictGroup v _ _ hu
  cases sha with
  | none =>
    have hshape : verdictMarker v (Option.map Sha.digits none) ++ t = "<!--".toList ++
        (' ' :: ("sova-review:".toList ++ (' ' :: (Text.lower v.name ++
          (' ' :: ("-->".toList ++ t)))))) := by
      cases v <;> rfl
    rw [hshape]
    exact hfront _ _ (run_no_anchor t _)
  | some s =>
    have hshape : verdictMarker v (Option.map Sha.digits (some s)) ++ t = "<!--".toList ++
        (' ' :: ("sova-review:".toList ++ (' ' :: (Text.lower v.name ++
          (' ' :: ("sha=".toList ++ (s.digits ++ (' ' :: ("-->".toList ++ t)))))))) ) := by
      have hsuffix : verdictMarker v (some s.digits) = "<!-- sova-review: ".toList ++
          Text.lower v.name ++ (" sha=".toList ++ s.digits) ++ " -->".toList := by
        unfold verdictMarker
        cases hd : s.digits with
        | nil => exact absurd hd s.digits_ne_nil
        | cons c d => rfl
      rw [Option.map_some, hsuffix]
      cases v <;> simp [lower_name]
    rw [hshape]
    exact hfront _ _ (run_anchor s t _)

/-- A body that opens with a verdict marker is read as that verdict, the commit in lower case. -/
theorem parseVerdictMarker_verdictMarker (v : Verdict) (sha : Option Sha) (t : Text) :
    parseVerdictMarker (verdictMarker v (sha.map Sha.digits) ++ t) =
      some (Text.lower v.name, sha.map fun s => Text.lower s.digits) := by
  have hsearch := search_of_matchPrefix (matchPrefix_verdictMarker v sha t)
  unfold parseVerdictMarker
  rw [hsearch]
  cases sha with
  | none => cases v <;> rfl
  | some s =>
    have hverdict : Text.lower (((markerGroups v (some s)).get 1).getD []) = Text.lower v.name := by
      cases v <;> rfl
    have hsha : (markerGroups v (some s)).get 2 = some s.digits := rfl
    have hempty : ¬ s.digits.isEmpty = true := by simpa using s.digits_ne_nil
    simp only [hverdict, hsha, Option.bind_some, Option.map_some, if_neg hempty]

/-- The commit of a marker is never empty. -/
theorem parseVerdictMarker_sha_ne_nil {body verdict : Text} {sha : Text}
    (h : parseVerdictMarker body = some (verdict, some sha)) : sha ≠ [] := by
  unfold parseVerdictMarker at h
  cases hs : sovaVerdictMarkerRe.search body with
  | none => rw [hs] at h; cases h
  | some g =>
    rw [hs] at h
    have hsha := (Prod.mk.inj (Option.some.inj h)).2
    obtain ⟨t, -, ht⟩ := Option.bind_eq_some_iff.mp hsha
    split_ifs at ht with hempty
    have hne : t ≠ [] := by simpa using hempty
    rw [← Option.some.inj ht]
    exact Text.lower_ne_nil hne

theorem mem_lowerChar_d {x : Char} (h : 'd' ∈ Text.lowerChar x) : x = 'd' ∨ x = 'D' := by
  unfold Text.lowerChar at h
  split_ifs at h with hupper hk hi
  · right
    have heq : 'd' = Char.ofNat (x.toNat + 32) := List.mem_singleton.mp h
    have hrange : 65 ≤ x.toNat ∧ x.toNat ≤ 90 := hupper
    have hall : ∀ n < 91, 65 ≤ n → 'd' = Char.ofNat (n + 32) → n = 68 := by decide
    exact Char.ext (UInt32.toNat_inj.mp (hall x.toNat (by omega) hrange.1 heq))
  · exact absurd h (by decide)
  · exact absurd h (by decide)
  · exact .inl (List.mem_singleton.mp h).symm

/-- The verdict of a marker is one of the three, and none of them has a `d`. -/
theorem parseVerdictMarker_ne_addressed {body verdict : Text} {sha : Option Text}
    (h : parseVerdictMarker body = some (verdict, sha)) : verdict ≠ "addressed".toList := by
  unfold parseVerdictMarker at h
  cases hsearch : sovaVerdictMarkerRe.search body with
  | none =>
    rw [hsearch] at h
    cases h
  | some g =>
    rw [hsearch] at h
    have hverdict : Text.lower ((g.get 1).getD []) = verdict := (Prod.mk.inj (Option.some.inj h)).1
    rw [← hverdict]
    cases hget : g.get 1 with
    | none => decide
    | some u =>
      obtain ⟨s, hs, hmatch⟩ := search_captured hsearch hget
      intro haddressed
      have hd : 'd' ∈ Text.lower u := by
        rw [Option.getD_some] at haddressed
        rw [haddressed]
        decide
      obtain ⟨x, hx, hlower⟩ := List.mem_flatMap.mp hd
      have huses := hmatch.uses x hx
      have hcaptures : ∀ q ∈ sovaVerdictMarkerRe.captures, q.1 = 1 → q.2.uses 'd' = false ∧ q.2.uses 'D' = false := by
        decide
      obtain ⟨hlow, hup⟩ := hcaptures (1, s) hs rfl
      rcases mem_lowerChar_d hlower with rfl | rfl
      · rw [hlow] at huses
        cases huses
      · rw [hup] at huses
        cases huses

theorem Sha.lt_not_mem (s : Sha) : '<' ∉ s.digits := by
  intro h
  have hhex := ((isSha_iff s.digits).mp s.valid).2.2 '<' h
  revert hhex
  decide

/-- A verdict marker is not an addressed marker. -/
theorem hasAddressedMarker_verdictMarker (v : Verdict) (sha : Option Sha) :
    hasAddressedMarker (verdictMarker v (sha.map Sha.digits)) = false := by
  obtain ⟨u, hu, hmarker⟩ : ∃ u, '<' ∉ u ∧
      verdictMarker v (sha.map Sha.digits) = '<' :: ("!-- sova-review: ".toList ++ u) := by
    have hname : '<' ∉ Text.lower v.name := by cases v <;> decide
    have hclose : '<' ∉ " -->".toList := by decide
    have hsha : '<' ∉ " sha=".toList := by decide
    unfold verdictMarker
    cases sha with
    | none =>
      refine ⟨Text.lower v.name ++ " -->".toList, ?_, by cases v <;> rfl⟩
      simp only [List.mem_append, not_or]
      exact ⟨hname, hclose⟩
    | some s =>
      have hdigits := s.lt_not_mem
      cases hd : s.digits with
      | nil => exact absurd hd s.digits_ne_nil
      | cons c d =>
        rw [hd] at hdigits
        refine ⟨Text.lower v.name ++ (" sha=".toList ++ (c :: d)) ++ " -->".toList, ?_, ?_⟩
        · simp only [List.mem_append, not_or]
          exact ⟨⟨hname, hsha, hdigits⟩, hclose⟩
        · rw [Option.map_some, hd]
          cases v <;> rfl
  have hfirst : matchPrefix sovaAddressedMarkerRe ('<' :: ("!-- sova-review: ".toList ++ u)) = none :=
    rfl
  have hrest : hasAddressedMarker ("!-- sova-review: ".toList ++ u) = false := by
    refine hasAddressedMarker_eq_false ?_
    rw [List.mem_append]
    rintro (h | h)
    · revert h; decide
    · exact hu h
  unfold hasAddressedMarker at hrest ⊢
  rw [hmarker, search, hfirst]
  exact hrest

end Review

/-!
# Proofs: the formatted body

A body is read for an addressed marker section by section: the headings, the list bullets and the
punctuation of a finding keep the texts of the model apart, so the body has a marker exactly when one
of these texts has one (`hasAddressedMarker_formatReviewBody`).
-/

namespace Review

open Regex

/-! ## Lines -/

/-- A line that no marker reaches into from the lines above it: it is empty, or it opens with a word
that separates it. -/
def Fenced (l : Text) : Prop :=
  l = [] ∨ ∃ w x, l = w ++ x ∧ Blocks sovaAddressedMarkerRe ('\n' :: w) ∧ '<' ∉ w

/-- Fenced lines are searched one by one. -/
theorem hasAddressedMarker_lines (t : Text) {ls : List Text} (h : ∀ l ∈ ls, Fenced l) :
    hasAddressedMarker (t ++ ls.flatMap ("\n".toList ++ ·)) =
      (hasAddressedMarker t || ls.any hasAddressedMarker) := by
  induction ls generalizing t with
  | nil => simp
  | cons l ls ih =>
    have htail : ∀ m ∈ ls, Fenced m := fun m hm => h m (List.mem_cons_of_mem _ hm)
    rw [List.flatMap_cons, List.any_cons]
    rcases h l (List.mem_cons_self ..) with rfl | ⟨w, x, rfl, hw, hlt⟩
    · -- an empty line only adds its line break to the text above
      have hbreak : hasAddressedMarker (t ++ "\n".toList) = hasAddressedMarker t :=
        hasAddressedMarker_back (by decide)
      have hempty : hasAddressedMarker [] = false := rfl
      rw [List.append_nil, ← List.append_assoc, ih _ htail, hbreak, hempty, Bool.false_or]
    · have hshape : t ++ ("\n".toList ++ (w ++ x) ++ ls.flatMap ("\n".toList ++ ·)) =
          t ++ (('\n' :: w) ++ (x ++ ls.flatMap ("\n".toList ++ ·))) := by simp
      rw [hshape, hasAddressedMarker_blocks hw, ih _ htail, hasAddressedMarker_front hlt]

theorem fenced_nil : Fenced [] := .inl rfl

/-- A word with a character that no marker contains fences the line it opens. -/
theorem fenced_of_unused {v x : Text} {c : Char} (hc : sovaAddressedMarkerRe.uses c = false)
    (hlt : '<' ∉ v ++ [c]) (hgt : '>' ∉ v) : Fenced (v ++ c :: x) := by
  refine .inr ⟨v ++ [c], x, by simp, ?_, hlt⟩
  refine blocks_of_unused (v := '\n' :: v) (x := []) addressed_nullable hc ?_ (by simp)
  intro d hd
  rcases List.mem_cons.mp hd with rfl | hd
  · exact addressed_ends (by decide)
  · exact addressed_ends (fun heq => hgt (heq ▸ hd))

theorem fenced_item (p : Text) : Fenced ("- ".toList ++ p) :=
  .inr ⟨"- ".toList, p, rfl, blocks_item, by decide⟩

/-! ## Texts without a marker -/

theorem lt_not_mem_ofInt (n : Int) : '<' ∉ Text.ofInt n := by
  intro h
  rcases Text.mem_ofInt h with h | h <;> revert h <;> decide

theorem gt_not_mem_ofInt (n : Int) : '>' ∉ Text.ofInt n := by
  intro h
  rcases Text.mem_ofInt h with h | h <;> revert h <;> decide

theorem lt_not_mem_severityLabel (s : Int) : '<' ∉ severityLabel s := by
  unfold severityLabel
  split_ifs <;> decide

/-- The characters of a rationale, its numbers apart. -/
def rationaleChars : Text := "no issues found, critical high medium low finding(s) require changes-".toList

theorem mem_verdictRationale {th : Thresholds} {v : Verdict} {fs : List Finding} {c : Char}
    (h : c ∈ verdictRationale th v fs) : c ∈ rationaleChars ∨ c.isDigit = true := by
  have hall : ∀ t : Text, (t.all fun c => decide (c ∈ rationaleChars)) = true → ∀ c ∈ t, c ∈ rationaleChars :=
    fun t ht c hc => of_decide_eq_true (List.all_eq_true.mp ht c hc)
  have hlabels : (severityLabelOrder.all fun l => (" ".toList ++ l.2).all fun c => decide (c ∈ rationaleChars)) =
      true := by decide
  have hnone := hall "no issues found".toList (by decide)
  have hsep := hall ", ".toList (by decide)
  have hlabel := fun l hl => hall (" ".toList ++ l.2) (List.all_eq_true.mp hlabels l hl)
  have hend := hall " finding(s) require changes".toList (by decide)
  unfold verdictRationale at h
  split_ifs at h with hv
  · exact .inl (hnone c h)
  · simp only at h
    split_ifs at h
    · exact .inl (hnone c h)
    · rcases List.mem_append.mp h with h | h
      · rcases Text.mem_join h with h | ⟨p, hp, h⟩
        · exact .inl (hsep c h)
        · obtain ⟨l, hl, rfl⟩ := List.mem_map.mp hp
          rw [List.append_assoc] at h
          rcases List.mem_append.mp h with h | h
          · rcases Text.mem_ofInt h with rfl | h
            · exact .inl (by decide)
            · exact .inr h
          · exact .inl (hlabel l (List.mem_of_mem_filter hl) c h)
      · exact .inl (hend c h)

theorem lt_not_mem_verdictRationale (th : Thresholds) (v : Verdict) (fs : List Finding) :
    '<' ∉ verdictRationale th v fs := by
  intro h
  rcases mem_verdictRationale h with h | h <;> revert h <;> decide

/-! ## A finding's line -/

/-- The texts of a finding that its line shows have an addressed marker. -/
def Finding.quotesMarker (keys : List (Text × Int)) (f : Finding) : Bool :=
  hasAddressedMarker f.cat || hasAddressedMarker f.filePath ||
    (!f.inlined keys && (hasAddressedMarker f.desc || hasAddressedMarker f.fix))

theorem hasAddressedMarker_loc (f : Finding) :
    hasAddressedMarker f.loc = hasAddressedMarker f.filePath := by
  unfold Finding.loc
  cases f.line with
  | none => rfl
  | some n =>
    show hasAddressedMarker (f.filePath ++ ":".toList ++ Text.ofInt n) = _
    rw [List.append_assoc]
    refine hasAddressedMarker_back ?_
    rw [List.mem_append, not_or]
    exact ⟨by decide, gt_not_mem_ofInt n⟩

theorem lt_not_mem_findingHead (f : Finding) : '<' ∉ findingHead f := by
  unfold findingHead
  simp only [List.mem_append, not_or]
  exact ⟨⟨⟨⟨by decide, lt_not_mem_severityLabel _⟩, by decide⟩, lt_not_mem_ofInt _⟩, by decide⟩

theorem fenced_formatFindingLine (keys : List (Text × Int)) (f : Finding) :
    Fenced (formatFindingLine keys f) := by
  have hshape : ∃ x, formatFindingLine keys f = "- ".toList ++ '*' :: x := by
    unfold formatFindingLine findingHead
    split_ifs <;> exact ⟨_, rfl⟩
  obtain ⟨x, hx⟩ := hshape
  rw [hx]
  exact fenced_of_unused (by decide) (by decide) (by decide)

theorem hasAddressedMarker_formatFindingLine (keys : List (Text × Int)) (f : Finding) :
    hasAddressedMarker (formatFindingLine keys f) = f.quotesMarker keys := by
  have hafterCat : Blocks sovaAddressedMarkerRe "] `".toList :=
    blocks_of_unused (v := []) (c := ']') addressed_nullable (by decide) (by simp)
      (Text.forall_mem_of_all (by decide))
  have hafterLoc : Blocks sovaAddressedMarkerRe "`: ".toList :=
    blocks_of_unused (v := []) (c := '`') addressed_nullable (by decide) (by simp)
      (Text.forall_mem_of_all (by decide))
  have hbeforeFix : Blocks sovaAddressedMarkerRe " Fix: ".toList :=
    blocks_of_unused (v := " F".toList) (c := 'i') addressed_nullable (by decide)
      (Text.forall_mem_of_all (by decide)) (Text.forall_mem_of_all (by decide))
  have hfront : ∀ t, hasAddressedMarker (findingHead f ++ f.cat ++ "] `".toList ++ f.loc ++
      "`: ".toList ++ t) = (hasAddressedMarker f.cat || hasAddressedMarker f.filePath ||
        hasAddressedMarker t) := by
    intro t
    have hshape : findingHead f ++ f.cat ++ "] `".toList ++ f.loc ++ "`: ".toList ++ t =
        findingHead f ++ (f.cat ++ ("] `".toList ++ (f.loc ++ ("`: ".toList ++ t)))) := by
      simp only [List.append_assoc]
    rw [hshape, hasAddressedMarker_front (lt_not_mem_findingHead f), hasAddressedMarker_blocks hafterCat,
      hasAddressedMarker_blocks hafterLoc, hasAddressedMarker_loc, Bool.or_assoc]
  unfold formatFindingLine Finding.quotesMarker
  by_cases hin : f.inlined keys = true
  · have hstub : hasAddressedMarker inlineCommentStub = false := rfl
    simp only [hin, if_true, hfront, hstub, Bool.not_true, Bool.false_and]
  · by_cases hfix : f.fix = []
    · have hempty : hasAddressedMarker [] = false := rfl
      simp only [hin, hfix, if_true, hfront, hempty, Bool.or_false, Bool.not_false, Bool.true_and,
        Bool.false_eq_true, if_false]
    · simp only [hin, hfix, if_false, Bool.false_eq_true, Bool.not_false, Bool.true_and]
      rw [List.append_assoc, List.append_assoc, hfront, hasAddressedMarker_blocks hbeforeFix]

/-! ## The body -/

/-- The lines below the summary. -/
def linesBelow (b : ReviewBody) : List Text :=
  [[], "### Findings".toList, []] ++ findingLines b ++ advisoryLines b ++ positiveLines b ++
    [[], "### Verdict".toList, "**".toList ++ verdictAction b.verdict ++ "**: ".toList ++
      verdictRationale b.thresholds b.verdict b.findings ++ ".".toList]

/-- The line breaks and the heading between the verdict marker and the summary. -/
def heading (v : Verdict) : Text := "\n\n## Review: ".toList ++ v.name ++ "\n\n".toList

theorem formatReviewBody_eq (b : ReviewBody) :
    formatReviewBody b = verdictMarker b.verdict b.sha ++ (heading b.verdict ++
      (effectiveSummary b.summary ++ (linesBelow b).flatMap ("\n".toList ++ ·))) := by
  unfold formatReviewBody linesBelow heading
  simp only [List.cons_append, List.nil_append, List.append_assoc]
  rw [Text.join_cons]
  simp

theorem blocks_heading (v : Verdict) : Blocks sovaAddressedMarkerRe (heading v) := by
  have hshape : heading v = "\n\n".toList ++ '#' :: ("# Review: ".toList ++ v.name ++ "\n\n".toList) :=
    rfl
  rw [hshape]
  refine blocks_of_unused addressed_nullable (by decide) (Text.forall_mem_of_all (by decide))
    (Text.forall_mem_of_all ?_)
  cases v <;> decide

/-- A heading line is fenced and has no marker. -/
theorem fenced_hash (t : Text) : Fenced ('#' :: t) :=
  fenced_of_unused (v := []) (by decide) (by decide) (by decide)

theorem fenced_star (t : Text) : Fenced ('*' :: t) :=
  fenced_of_unused (v := []) (by decide) (by decide) (by decide)

theorem lt_not_mem_countLine (fs : List Finding) : '<' ∉ countLine fs := by
  unfold countLine
  simp only [List.mem_append, not_or]
  refine ⟨⟨⟨by decide, lt_not_mem_ofInt _⟩, ?_⟩, by decide⟩
  split_ifs <;> decide

theorem mem_sortBySeverity {f : Finding} {fs : List Finding} :
    f ∈ sortBySeverity fs ↔ f ∈ fs := by
  unfold sortBySeverity
  exact (List.perm_insertionSort _ fs).mem_iff

theorem any_sortBySeverity (p : Finding → Bool) (fs : List Finding) :
    (sortBySeverity fs).any p = fs.any p := by
  rw [Bool.eq_iff_iff, List.any_eq_true, List.any_eq_true]
  simp only [mem_sortBySeverity]

theorem any_formatFindingLine (keys : List (Text × Int)) (fs : List Finding) :
    ((sortBySeverity fs).map (formatFindingLine keys)).any hasAddressedMarker =
      fs.any (Finding.quotesMarker keys) := by
  rw [List.any_map]
  simp only [Function.comp_def, hasAddressedMarker_formatFindingLine]
  exact any_sortBySeverity _ fs

theorem any_findingLines (b : ReviewBody) : (findingLines b).any hasAddressedMarker =
    (blockingOf b.thresholds b.findings).any (Finding.quotesMarker b.inlineCommentKeys) := by
  have hcount := hasAddressedMarker_eq_false (lt_not_mem_countLine (blockingOf b.thresholds b.findings))
  unfold findingLines
  by_cases hb : blockingOf b.thresholds b.findings = []
  · simp only [hb, if_true, List.any_nil, List.any_cons, Bool.or_false]
    split_ifs <;> rfl
  · simp only [hb, if_false, List.any_append, List.any_cons, List.any_nil, hcount, Bool.false_or,
      any_formatFindingLine]
    rfl

theorem any_advisoryLines (b : ReviewBody) : (advisoryLines b).any hasAddressedMarker =
    (advisoryOf b.thresholds b.findings).any (Finding.quotesMarker []) := by
  have hcount : hasAddressedMarker (countLine (advisoryOf b.thresholds b.findings) ++
      " (recorded for a later fix round, does not block approval)".toList) = false := by
    refine hasAddressedMarker_eq_false ?_
    rw [List.mem_append, not_or]
    exact ⟨lt_not_mem_countLine _, by decide⟩
  have htitle : hasAddressedMarker "### Advisory (not blocking)".toList = false :=
    hasAddressedMarker_eq_false (by decide)
  have hempty : hasAddressedMarker [] = false := rfl
  unfold advisoryLines
  by_cases hb : advisoryOf b.thresholds b.findings = []
  · simp [hb]
  · simp only [hb, if_false, List.any_append, List.any_cons, List.any_nil, hcount, htitle, hempty,
      Bool.false_or, any_formatFindingLine]

theorem any_positiveLines (b : ReviewBody) :
    (positiveLines b).any hasAddressedMarker = b.positives.any hasAddressedMarker := by
  have htitle : hasAddressedMarker "### What's Done Well".toList = false :=
    hasAddressedMarker_eq_false (by decide)
  have hempty : hasAddressedMarker [] = false := rfl
  have hitem : ∀ p, hasAddressedMarker ("- ".toList ++ p) = hasAddressedMarker p :=
    fun p => hasAddressedMarker_front (by decide)
  unfold positiveLines
  by_cases hp : b.positives = []
  · simp [hp]
  · simp only [hp, if_false, List.any_append, List.any_cons, List.any_nil, htitle, hempty,
      Bool.false_or, List.any_map, Function.comp_def, hitem]

theorem fenced_formatFindingLines {keys : List (Text × Int)} {fs : List Finding} {l : Text}
    (h : l ∈ (sortBySeverity fs).map (formatFindingLine keys)) : Fenced l := by
  obtain ⟨f, -, rfl⟩ := List.mem_map.mp h
  exact fenced_formatFindingLine keys f

theorem fenced_findingLines (b : ReviewBody) : ∀ l ∈ findingLines b, Fenced l := by
  intro l hl
  unfold findingLines at hl
  by_cases hb : blockingOf b.thresholds b.findings = []
  · simp only [hb, if_true, List.mem_singleton] at hl
    have hno : ∃ x, l = 'N' :: x := by
      rw [hl]
      split_ifs <;> exact ⟨_, rfl⟩
    obtain ⟨x, rfl⟩ := hno
    exact fenced_of_unused (v := []) (by decide) (by decide) (by decide)
  · simp only [hb, if_false, List.mem_append, List.mem_cons, List.not_mem_nil, or_false] at hl
    rcases hl with (rfl | rfl) | hl
    · exact fenced_star _
    · exact fenced_nil
    · exact fenced_formatFindingLines hl

theorem fenced_advisoryLines (b : ReviewBody) : ∀ l ∈ advisoryLines b, Fenced l := by
  intro l hl
  unfold advisoryLines at hl
  by_cases hb : advisoryOf b.thresholds b.findings = []
  · simp [hb] at hl
  · simp only [hb, if_false, List.mem_append, List.mem_cons, List.not_mem_nil, or_false] at hl
    rcases hl with (rfl | rfl | rfl | rfl | rfl) | hl
    · exact fenced_nil
    · exact fenced_hash _
    · exact fenced_nil
    · exact fenced_star _
    · exact fenced_nil
    · exact fenced_formatFindingLines hl

theorem fenced_positiveLines (b : ReviewBody) : ∀ l ∈ positiveLines b, Fenced l := by
  intro l hl
  unfold positiveLines at hl
  by_cases hp : b.positives = []
  · simp [hp] at hl
  · simp only [hp, if_false, List.mem_append, List.mem_cons, List.not_mem_nil, or_false] at hl
    rcases hl with (rfl | rfl) | hl
    · exact fenced_nil
    · exact fenced_hash _
    · obtain ⟨p, -, rfl⟩ := List.mem_map.mp hl
      exact fenced_item p

theorem fenced_linesBelow (b : ReviewBody) : ∀ l ∈ linesBelow b, Fenced l := by
  intro l hl
  unfold linesBelow at hl
  simp only [List.mem_append, List.mem_cons, List.not_mem_nil, or_false] at hl
  rcases hl with ((((rfl | rfl | rfl) | hl) | hl) | hl) | rfl | rfl | rfl
  · exact fenced_nil
  · exact fenced_hash _
  · exact fenced_nil
  · exact fenced_findingLines b l hl
  · exact fenced_advisoryLines b l hl
  · exact fenced_positiveLines b l hl
  · exact fenced_nil
  · exact fenced_hash _
  · exact fenced_star _

/-- Some text of the model that the body shows in full has an addressed marker. Advisory findings are
always shown in full; a blocking one is not when it has its own inline comment. -/
def ReviewBody.quotesMarker (b : ReviewBody) : Bool :=
  hasAddressedMarker b.summary || b.positives.any hasAddressedMarker ||
    (blockingOf b.thresholds b.findings).any (Finding.quotesMarker b.inlineCommentKeys) ||
    (advisoryOf b.thresholds b.findings).any (Finding.quotesMarker [])

theorem any_linesBelow (b : ReviewBody) : (linesBelow b).any hasAddressedMarker =
    ((blockingOf b.thresholds b.findings).any (Finding.quotesMarker b.inlineCommentKeys) ||
      (advisoryOf b.thresholds b.findings).any (Finding.quotesMarker []) ||
      b.positives.any hasAddressedMarker) := by
  have hlast : hasAddressedMarker ("**".toList ++ verdictAction b.verdict ++ "**: ".toList ++
      verdictRationale b.thresholds b.verdict b.findings ++ ".".toList) = false := by
    have haction : '<' ∉ verdictAction b.verdict := by cases b.verdict <;> decide
    refine hasAddressedMarker_eq_false ?_
    simp only [List.mem_append, not_or]
    exact ⟨⟨⟨⟨by decide, haction⟩, by decide⟩, lt_not_mem_verdictRationale _ _ _⟩, by decide⟩
  have hfindings : hasAddressedMarker "### Findings".toList = false :=
    hasAddressedMarker_eq_false (by decide)
  have hverdict : hasAddressedMarker "### Verdict".toList = false :=
    hasAddressedMarker_eq_false (by decide)
  have hempty : hasAddressedMarker [] = false := rfl
  unfold linesBelow
  simp only [List.any_append, List.any_cons, List.any_nil, any_findingLines, any_advisoryLines,
    any_positiveLines, hlast, hfindings, hverdict, hempty, Bool.or_false, Bool.false_or]

/-- The body has an addressed marker exactly when a text of the model that it shows has one. -/
theorem hasAddressedMarker_formatReviewBody (b : ReviewBody) (sha : Option Sha) :
    hasAddressedMarker (formatReviewBody { b with sha := sha.map Sha.digits }) = b.quotesMarker := by
  have hsummary : hasAddressedMarker (effectiveSummary b.summary) = hasAddressedMarker b.summary := by
    rw [← hasAddressedMarker_strip b.summary]
    unfold effectiveSummary
    split_ifs with hs
    · rw [hs]
      exact hasAddressedMarker_eq_false (by decide)
    · rfl
  rw [formatReviewBody_eq, hasAddressedMarker_blocks (blocks_heading _),
    hasAddressedMarker_lines _ (fenced_linesBelow _), any_linesBelow,
    hasAddressedMarker_verdictMarker, Bool.false_or, hsummary]
  unfold ReviewBody.quotesMarker
  simp only [Bool.or_assoc]
  congr 1
  simp only [← Bool.or_assoc]
  rw [Bool.or_comm _ (b.positives.any hasAddressedMarker), Bool.or_assoc]

/-- The verdict and the commit that a formatted body is read with. -/
theorem parseVerdictMarker_formatReviewBody (b : ReviewBody) (sha : Option Sha) :
    parseVerdictMarker (formatReviewBody { b with sha := sha.map Sha.digits }) =
      some (Text.lower b.verdict.name, sha.map fun s => Text.lower s.digits) := by
  rw [formatReviewBody_eq, parseVerdictMarker_verdictMarker]
  rfl

end Review
