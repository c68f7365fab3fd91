import SovaVerified.Regex.Proofs.FinditerProofs

/-!
# Texts that are rewritten

`re.sub` with a test on both sides of a match. A word that no match reaches into stays, and what stands on its
two sides is rewritten by itself.
-/

namespace Regex

variable {start stop : Option Char → Option Char → Bool} {r : Regex} {write : Groups → Text}
  {prev : Option Char} {a b s t u w x : Text} {n : Nat}

/-! ## What is found at a place -/

/-- What a rewriter finds is a match between its two tests. -/
theorem rewriter_eq_some (h : rewriter start stop r write prev t = some (x, n)) :
    ∃ u rest g, t = u ++ rest ∧ n = u.length ∧ Matches r u ∧ start prev t.head? = true ∧
      stop u.getLast? rest.head? = true ∧ x = write g ∧ CapturedBy r [] g := by
  unfold rewriter at h
  split_ifs at h with hstart
  obtain ⟨u, rest, g, rfl, hu, hend, hg⟩ := run_eq_some h
  rw [take_captured] at hend
  split_ifs at hend with hstop
  obtain ⟨rfl, rfl⟩ := Prod.mk.inj (Option.some.inj hend)
  refine ⟨u, rest, g, rfl, ?_, hu, hstart, hstop, rfl, hg⟩
  rw [List.length_append, Nat.add_sub_cancel]

/-! ## A word that stays -/

theorem getLast?_mem_append {p : Char → Prop} (hs : ∃ c ∈ s.getLast?, p c) (a : Text) :
    ∃ c ∈ (a ++ s).getLast?, p c := by
  obtain ⟨c, hc, hp⟩ := hs
  refine ⟨c, ?_, hp⟩
  rw [List.getLast?_append, Option.mem_def.mp hc]
  rfl

/-- No match begins in a word: the text behind it is rewritten by itself. -/
theorem subAll_skip_word {m : Matcher Text} (hw : ∀ prev s, s <:+ w → s ≠ [] → m prev (s ++ b) = none) :
    subAll m prev 0 (w ++ b) = w ++ subAll m (w.getLast?.or prev) 0 b := by
  induction w generalizing prev with
  | nil => rfl
  | cons c w ih =>
    have hnone := hw prev (c :: w) List.suffix_rfl (List.cons_ne_nil c w)
    have hlast : (c :: w).getLast?.or prev = w.getLast?.or (some c) := by
      cases w with
      | nil => rfl
      | cons d w =>
        rw [List.getLast?_cons_cons, List.getLast?_cons]
        rfl
    rw [List.cons_append] at hnone ⊢
    rw [subAll, hnone]
    dsimp only
    rw [ih fun prev s hs => hw prev s (hs.trans (List.suffix_cons c w)), hlast]
    rfl

/-- No match that begins in front of a word reaches into it, and none begins in it. Then the word stays. A
property of the last character in front of it is kept when the matches that end there write texts that end so. -/
theorem subAll_wall {m : Matcher Text} {p : Char → Prop}
    (hfront : ∀ prev s x n, (∃ c ∈ s.getLast?, p c) → m prev (s ++ (w ++ b)) = some (x, n) →
      0 < n ∧ n ≤ s.length ∧ (n = s.length → ∃ c ∈ x.getLast?, p c))
    (hw : ∀ prev s, s <:+ w → s ≠ [] → m prev (s ++ b) = none) (hne : w ≠ []) {a : Text}
    (ha : a = [] ∨ ∃ c ∈ a.getLast?, p c) (prev : Option Char) {k : Nat} (hk : k ≤ a.length) :
    ∃ a', subAll m prev k (a ++ (w ++ b)) = a' ++ (w ++ subAll m w.getLast? 0 b) ∧
      (k < a.length → ∃ c ∈ a'.getLast?, p c) ∧ (k = a.length → a' = []) := by
  induction a generalizing prev k with
  | nil =>
    obtain rfl : k = 0 := Nat.le_zero.mp hk
    refine ⟨[], ?_, fun h => absurd h (Nat.lt_irrefl 0), fun _ => rfl⟩
    have hlast : w.getLast?.or prev = w.getLast? := by
      cases hw : w.getLast? with
      | none => exact absurd (List.getLast?_eq_none_iff.mp hw) hne
      | some c => rfl
    rw [List.nil_append, List.nil_append, subAll_skip_word hw, hlast]
  | cons c a ih =>
    have hrest : a = [] ∨ ∃ d ∈ a.getLast?, p d := by
      by_cases hnil : a = []
      · exact .inl hnil
      · obtain ⟨d, a', rfl⟩ := List.exists_cons_of_ne_nil hnil
        rw [List.getLast?_cons_cons] at ha
        exact .inr (ha.resolve_left (List.cons_ne_nil _ _))
    have hlast : ∃ d ∈ (c :: a).getLast?, p d := ha.resolve_left (List.cons_ne_nil c a)
    rw [List.length_cons] at hk ⊢
    cases k with
    | succ k =>
      obtain ⟨a', heq, hlt, hend⟩ := ih hrest (some c) (Nat.le_of_succ_le_succ hk)
      exact ⟨a', heq, fun h => hlt (Nat.lt_of_succ_lt_succ h), fun h => hend (Nat.succ.inj h)⟩
    | zero =>
      rw [List.cons_append, subAll]
      cases hfound : m prev (c :: (a ++ (w ++ b))) with
      | none =>
        obtain ⟨a', heq, hlt, hend⟩ := ih hrest (some c) (Nat.zero_le _)
        dsimp only
        refine ⟨c :: a', by rw [heq, List.cons_append], fun _ => ?_, fun h => by omega⟩
        rcases hrest with rfl | hrest
        · rw [hend rfl]
          exact hlast
        · by_cases hnil : a = []
          · rw [hnil] at hrest
            obtain ⟨d, hd, -⟩ := hrest
            cases hd
          · exact getLast?_mem_append (hlt (List.length_pos_iff.mpr hnil)) [c]
      | some found =>
        obtain ⟨x, n⟩ := found
        obtain ⟨hpos, hle, hwritten⟩ := hfront prev (c :: a) x n hlast hfound
        rw [List.length_cons] at hle hwritten
        obtain ⟨a', heq, hlt, hend⟩ := ih (k := n - 1) hrest (some c) (by omega)
        dsimp only
        refine ⟨x ++ a', by rw [heq, List.append_assoc], fun _ => ?_, fun h => by omega⟩
        by_cases hshort : n - 1 < a.length
        · exact getLast?_mem_append (hlt hshort) x
        · have hwhole : n = a.length + 1 := by omega
          rw [hend (by omega), List.append_nil]
          exact hwritten hwhole

/-! ## The first match -/

theorem matchRest_isSome_iff : (matchRest r t).isSome = true ↔ ∃ u v, t = u ++ v ∧ Matches r u := by
  rw [matchRest, run_isSome_iff r t [] _ (fun _ _ _ => rfl)]
  simp

/-- No match begins in a part of a text. -/
def NoneIn (r : Regex) (x t : Text) : Prop := ∀ a b, x = a ++ b → b ≠ [] → matchRest r (b ++ t) = none

theorem NoneIn.tail {c : Char} (h : NoneIn r (c :: x) t) : NoneIn r x t := by
  rintro a b rfl hb
  exact h (c :: a) b rfl hb

theorem NoneIn.head {c : Char} (h : NoneIn r (c :: x) t) : matchRest r (c :: (x ++ t)) = none :=
  h [] (c :: x) rfl (List.cons_ne_nil c x)

theorem NoneIn.cons {c : Char} (hhead : matchRest r (c :: (x ++ t)) = none) (h : NoneIn r x t) :
    NoneIn r (c :: x) t := by
  intro a b hab hb
  cases a with
  | nil =>
    rw [List.nil_append] at hab
    rw [← hab]
    exact hhead
  | cons d a => exact h a b (List.cons.inj hab).2 hb

theorem matchPrefix_eq_none_of (h : matchRest r t = none) : matchPrefix r t = none := by
  rw [← Option.not_isSome_iff_eq_none, matchPrefix_isSome_iff, ← matchRest_isSome_iff, h]
  exact Bool.false_ne_true

theorem search_skip (h : NoneIn r x t) : search r (x ++ t) = search r t := by
  induction x with
  | nil => rfl
  | cons c x ih => rw [List.cons_append, search, matchPrefix_eq_none_of h.head, Option.none_or, ih h.tail]

theorem replaceFirst_skip (h : NoneIn r x t) : replaceFirst r w (x ++ t) = x ++ replaceFirst r w t := by
  induction x with
  | nil => rfl
  | cons c x ih => rw [List.cons_append, replaceFirst, h.head, ih h.tail, List.cons_append]

theorem firstPlace_skip (h : NoneIn r x t) : firstPlace r (x ++ t) = firstPlace r t := by
  induction x with
  | nil => rfl
  | cons c x ih =>
    have hrest := ih h.tail
    unfold firstPlace at hrest ⊢
    rw [List.cons_append, List.tails_cons, List.find?_cons, h.head, hrest]
    rfl

/-- Either nothing is found in a text, or it has a place of the first match. -/
theorem first_place_cases (r : Regex) (t : Text) :
    NoneIn r t [] ∨ ∃ x s, t = x ++ s ∧ NoneIn r x s ∧ (matchRest r s).isSome = true ∧ s ≠ [] := by
  induction t with
  | nil => exact .inl fun a b hab hb => absurd (List.append_eq_nil_iff.mp hab.symm).2 hb
  | cons c t ih =>
    by_cases hhere : (matchRest r (c :: t)).isSome = true
    · exact .inr ⟨[], c :: t, rfl, fun a b hab hb => absurd (List.append_eq_nil_iff.mp hab.symm).2 hb, hhere,
        List.cons_ne_nil c t⟩
    · rw [Option.not_isSome_iff_eq_none] at hhere
      rcases ih with hnone | ⟨x, s, rfl, hnone, hsome, hne⟩
      · exact .inl (.cons (by rwa [List.append_nil]) hnone)
      · exact .inr ⟨c :: x, s, rfl, .cons hhere hnone, hsome, hne⟩

theorem matchRest_nil (hn : r.nullable = false) : matchRest r [] = none := by
  rw [← Option.not_isSome_iff_eq_none, matchRest_isSome_iff]
  rintro ⟨u, v, huv, hu⟩
  have hnull := hu.nullable (List.append_eq_nil_iff.mp huv.symm).1
  rw [hn] at hnull
  cases hnull

theorem firstPlace_eq_none (hn : r.nullable = false) (h : NoneIn r t []) : firstPlace r t = none := by
  have hskip := firstPlace_skip h
  rw [List.append_nil] at hskip
  rw [hskip]
  unfold firstPlace
  rw [List.tails, List.find?_cons, matchRest_nil hn]
  rfl

theorem replaceFirst_eq_self (h : NoneIn r t []) : replaceFirst r w t = t := by
  have hskip := replaceFirst_skip (w := w) h
  rwa [List.append_nil, replaceFirst, List.append_nil] at hskip

theorem firstPlace_here (h : (matchRest r t).isSome = true) : firstPlace r t = some t := by
  unfold firstPlace
  cases t with
  | nil => rw [List.tails, List.find?_cons, h]
  | cons c t => rw [List.tails_cons, List.find?_cons, h]

theorem getLast?_snoc_or (u : Text) (c : Char) (prev : Option Char) :
    u.getLast?.or (some c) = (c :: u).getLast?.or prev := by
  rw [List.getLast?_cons]
  cases u.getLast? <;> rfl

/-- What is passed over is not rewritten. -/
theorem subAll_drop {m : Matcher Text} {k : Nat} (hk : k ≤ t.length) (prev : Option Char) :
    subAll m prev k t = subAll m ((t.take k).getLast?.or prev) 0 (t.drop k) := by
  induction k generalizing t prev with
  | zero => rfl
  | succ k ih =>
    cases t with
    | nil => cases hk
    | cons c t =>
      rw [subAll, ih (Nat.le_of_succ_le_succ hk), List.take_succ_cons, List.drop_succ_cons,
        getLast?_snoc_or _ _ prev]

end Regex
