import SovaVerified.Core.Proofs.CommitLineProofs
import SovaVerified.Regex.Proofs.FinditerProofs
import SovaVerified.Text.LineLists

/-!
# The fallback titles

What the limit leaves of a subject is told by `kept`, so that a line that was put together passes the check
exactly when its type and its scope can be read back and what is kept of its subject is a subject
(`isValidCommitLine_commitLine`). Both builders make such lines, of a type and a scope of the lists.
-/

namespace Core.CommitConvention

open Regex

variable {L : Casing} {T S a b d t : Text} {types scopes : List Text} {room limit : Nat}

/-! ## A separator -/

theorem partition_eq_find {sep : Text} (hsep : sep ≠ []) (t : Text) :
    partition sep t = (Text.find sep t).map fun n => (t.take n, t.drop (n + sep.length)) := by
  induction t with
  | nil =>
    unfold partition Text.find
    rw [if_neg hsep]
    rfl
  | cons c t ih =>
    unfold partition Text.find
    split_ifs with hfront
    · rw [Option.map_some, Nat.zero_add]
      rfl
    · rw [ih, Option.map_map, Option.map_map]
      refine congrArg (fun f => Option.map f (Text.find sep t)) ?_
      funext n
      have hdrop : (c :: t).drop (n + 1 + sep.length) = t.drop (n + sep.length) := by
        rw [Nat.add_right_comm]
        rfl
      simp only [Function.comp_apply, List.take_succ_cons, hdrop]

theorem partition_eq_some {sep : Text} (h : partition sep t = some (a, b)) : t = a ++ sep ++ b := by
  induction t generalizing a b with
  | nil => cases h
  | cons c t ih =>
    unfold partition at h
    split_ifs at h with hfront
    · obtain ⟨rest, hrest⟩ := List.isPrefixOf_iff_prefix.mp hfront
      obtain ⟨rfl, rfl⟩ := Prod.mk.inj (Option.some.inj h)
      rw [List.nil_append, ← hrest, List.drop_left]
    · obtain ⟨⟨a', b'⟩, hparts, heq⟩ := Option.map_eq_some_iff.mp h
      obtain ⟨rfl, rfl⟩ := Prod.mk.inj heq
      rw [ih hparts]
      rfl

/-- What stands between the type and the subject. -/
def mark : Text := ": ".toList

theorem isTypeChar_ne (hT : ∀ c ∈ T, isTypeChar c = true) {x : Char} (hx : isTypeChar x = false) : x ∉ T := by
  intro hmem
  rw [hT x hmem] at hx
  cases hx

/-- A mark in the scope comes before the one behind the scope. -/
def tight (T S : Text) : Bool := T ≠ scopelessType && Text.isIn mark S

theorem find_mark_scope (hT : ∀ c ∈ T, isTypeChar c = true) (S d : Text) :
    Text.find mark (T ++ '(' :: (S ++ ')' :: (mark ++ d))) =
      some (((Text.find mark S).getD (S.length + 1)) + (T.length + 1)) := by
  have htype : Text.find mark T = none := by
    rw [Text.find_eq_none_iff]
    exact fun h => isTypeChar_ne hT (by decide) (h.subset (List.mem_cons_self : ':' ∈ mark))
  have hmark : mark ≠ [] := by decide
  have hopen : '(' ∉ mark := by decide
  have hclose : ')' ∉ mark := by decide
  rw [Text.find_append_cons hopen hmark, htype, Option.none_or, Text.find_append_cons hclose hmark,
    Text.find_self hmark]
  cases Text.find mark S with
  | none =>
    rw [Option.none_or, Option.map_some, Option.map_some, Nat.zero_add]
    rfl
  | some n => rfl

theorem partition_line (hT : ∀ c ∈ T, isTypeChar c = true) (h : tight T S = false) :
    partition mark (formatTypeScope T S ++ mark ++ d) = some (formatTypeScope T S, d) := by
  have hmark : mark ≠ [] := by decide
  by_cases hci : T = scopelessType
  · have hformat : formatTypeScope T S = scopelessType := by
      subst hci
      exact if_pos rfl
    rw [hformat]
    rfl
  · have hscope : Text.find mark S = none := by
      unfold tight at h
      rw [decide_eq_true hci, Bool.true_and, Text.isIn_eq_false_iff] at h
      exact Text.find_eq_none_iff.mpr h
    have hformat : formatTypeScope T S = T ++ '(' :: S ++ [')'] := if_neg hci
    have hline : formatTypeScope T S ++ mark ++ d = T ++ '(' :: (S ++ ')' :: (mark ++ d)) := by
      rw [hformat]
      simp
    have hlength : (S.length + 1) + (T.length + 1) = (formatTypeScope T S).length := by
      rw [hformat]
      simp
      omega
    have hfind : Text.find mark (formatTypeScope T S ++ mark ++ d) = some (formatTypeScope T S).length := by
      rw [hline, find_mark_scope hT, hscope, Option.getD_none, hlength]
    rw [partition_eq_find hmark, hfind, Option.map_some, List.append_assoc, List.take_left, ← List.append_assoc,
      ← List.length_append, List.drop_left]

/-- With a mark in the scope, the rest of the scope belongs to the subject. -/
theorem partition_tight (hT : ∀ c ∈ T, isTypeChar c = true) (h : tight T S = true) :
    ∃ a b, S = a ++ mark ++ b ∧
      partition mark (formatTypeScope T S ++ mark ++ d) = some (T ++ '(' :: a, b ++ ')' :: (mark ++ d)) := by
  have hmark : mark ≠ [] := by decide
  obtain ⟨hci, hin⟩ := Bool.and_eq_true_iff.mp h
  have hformat : formatTypeScope T S = T ++ '(' :: S ++ [')'] := if_neg (of_decide_eq_true hci)
  have hline : formatTypeScope T S ++ mark ++ d = T ++ '(' :: (S ++ ')' :: (mark ++ d)) := by
    rw [hformat]
    simp
  cases hfind : Text.find mark S with
  | none => exact absurd (Text.isIn_iff.mp hin) (Text.find_eq_none_iff.mp hfind)
  | some n =>
    have hparts : partition mark S = some (S.take n, S.drop (n + mark.length)) := by
      rw [partition_eq_find hmark, hfind, Option.map_some]
    have hscope := partition_eq_some hparts
    have hle := Text.lt_length_of_find hmark hfind
    have hwhole : Text.find mark (formatTypeScope T S ++ mark ++ d) = some (n + (T.length + 1)) := by
      rw [hline, find_mark_scope hT, hfind, Option.getD_some]
    have htake : (T ++ '(' :: (S ++ ')' :: (mark ++ d))).take (n + (T.length + 1)) = T ++ '(' :: S.take n := by
      have hsum : n + (T.length + 1) = T.length + (n + 1) := by omega
      rw [hsum, List.take_append, List.take_of_length_le (Nat.le_add_right _ _), Nat.add_sub_cancel_left,
        List.take_succ_cons, List.take_append_of_le_length (Nat.le_of_lt hle)]
    have hpartition : partition mark (formatTypeScope T S ++ mark ++ d) =
        some (T ++ '(' :: S.take n,
          (formatTypeScope T S ++ mark ++ d).drop (n + (T.length + 1) + mark.length)) := by
      rw [partition_eq_find hmark, hwhole, Option.map_some, ← htake, ← hline]
    refine ⟨S.take n, S.drop (n + mark.length), hscope, ?_⟩
    rw [hpartition]
    have hsplit := partition_eq_some hpartition
    have hsame : T ++ '(' :: (S ++ ')' :: (mark ++ d)) =
        T ++ '(' :: S.take n ++ mark ++ (S.drop (n + mark.length) ++ ')' :: (mark ++ d)) := by
      conv_lhs => rw [hscope]
      simp
    rw [hline] at hsplit
    have hrest := List.append_cancel_left (hsplit.symm.trans hsame)
    rw [← hline] at hrest
    rw [hrest]

/-! ## The cut -/

/-- What is kept of a subject of which a number of characters fits: the words that fit whole, or, where none
does, what fits of the first word. A cut in a line with two marks keeps nothing of the first word. -/
def kept (tight : Bool) (room : Nat) (t : Text) : Text :=
  if (t.drop room).head?.all Text.isSpace then t.take room
  else
    let before := ((Text.rpartition ' ' (Text.rstrip (t.take room))).map Prod.fst).getD []
    if Text.rstrip before = [] ∧ tight = false then t.take room else before

theorem kept_of_le {tight : Bool} (h : d.length ≤ room) : kept tight room d = d := by
  have hdrop : d.drop room = [] := List.drop_eq_nil_iff.mpr h
  have hall : ([] : Text).head?.all Text.isSpace = true := rfl
  unfold kept
  rw [hdrop, if_pos hall, List.take_of_length_le h]

theorem any_isVisible (t : Text) : t.head?.any isVisible = !t.head?.all Text.isSpace := by
  cases t with
  | nil => rfl
  | cons c t => rfl

theorem rstrip_clippedSubject (room : Nat) (d : Text) :
    Text.rstrip (clippedSubject room d) = Text.rstrip (kept false room d) := by
  unfold clippedSubject kept
  dsimp only
  rw [any_isVisible]
  by_cases hspace : (d.drop room).head?.all Text.isSpace = true
  · rw [if_pos hspace, hspace, Bool.not_true, if_neg Bool.false_ne_true]
    dsimp only
    split_ifs with hnil
    · rfl
    · exact Text.rstrip_rstrip _
  · rw [if_neg hspace, Bool.eq_false_iff.mpr hspace, Bool.not_false, if_pos rfl]
    cases hparts : Text.rpartition ' ' (Text.rstrip (d.take room)) with
    | none =>
      have hkept : Text.rstrip ([] : Text) = [] ∧ false = false := ⟨rfl, rfl⟩
      rw [Option.map_none, Option.getD_none, if_pos hkept]
      dsimp only
      split_ifs with hnil
      · rfl
      · exact Text.rstrip_rstrip _
    | some parts =>
      rw [Option.map_some, Option.getD_some]
      dsimp only
      by_cases hnil : Text.rstrip parts.1 = []
      · rw [if_pos hnil, if_pos ⟨hnil, rfl⟩]
      · rw [if_neg hnil, if_neg fun h => hnil h.1, Text.rstrip_rstrip]

theorem rstrip_space (t : Text) :
    Text.rstrip (' ' :: t) = if Text.rstrip t = [] then [] else ' ' :: Text.rstrip t := by
  rw [← List.singleton_append, Text.rstrip_append]
  rfl

theorem rstrip_behind_mark (b t : Text) :
    Text.rstrip (b ++ ')' :: (mark ++ t)) = b ++ ')' :: ':' :: Text.rstrip (' ' :: t) := by
  have hsplit : b ++ ')' :: (mark ++ t) = b ++ [')'] ++ [':'] ++ ' ' :: t := by
    rw [List.append_assoc, List.append_assoc]
    rfl
  rw [hsplit, Text.rstrip_append_snoc (by decide)]
  simp

/-- A cut behind a mark in the scope leaves the line as it would be cut, or ends in the scope when nothing of
the subject is kept. -/
theorem clippedSubject_tight (b : Text) (room : Nat) (d : Text) :
    Text.rstrip (clippedSubject ((b ++ ')' :: mark).length + room) (b ++ ')' :: (mark ++ d))) =
        b ++ ')' :: ':' :: Text.rstrip (' ' :: kept true room d) ∨
      (∀ c ∈ clippedSubject ((b ++ ')' :: mark).length + room) (b ++ ')' :: (mark ++ d)), c ∈ b) ∧
        Text.strip (kept true room d) = [] := by
  have hfront : b ++ ')' :: (mark ++ d) = (b ++ ')' :: mark) ++ d := by simp
  have htake : (b ++ ')' :: (mark ++ d)).take ((b ++ ')' :: mark).length + room) =
      b ++ ')' :: (mark ++ d.take room) := by
    rw [hfront, List.take_length_add_append]
    simp
  have hdrop : (b ++ ')' :: (mark ++ d)).drop ((b ++ ')' :: mark).length + room) = d.drop room := by
    rw [hfront, List.drop_length_add_append]
  have hwhole : b ++ ')' :: ':' :: Text.rstrip (' ' :: d.take room) ≠ [] :=
    List.append_ne_nil_of_right_ne_nil _ (List.cons_ne_nil _ _)
  have hclose : Text.rstrip (b ++ [')', ':']) = b ++ [')', ':'] := by
    have hsnoc : b ++ [')', ':'] = (b ++ [')']) ++ [':'] := by simp
    rw [hsnoc]
    exact Text.rstrip_snoc (by decide) _
  have hcloseNe : b ++ [')', ':'] ≠ [] := List.append_ne_nil_of_right_ne_nil _ (List.cons_ne_nil _ _)
  unfold clippedSubject kept
  dsimp only
  rw [htake, hdrop, rstrip_behind_mark, any_isVisible]
  by_cases hspace : (d.drop room).head?.all Text.isSpace = true
  · refine .inl ?_
    rw [if_pos hspace, hspace, Bool.not_true, if_neg Bool.false_ne_true]
    dsimp only
    rw [if_neg hwhole, ← rstrip_behind_mark, Text.rstrip_rstrip]
  · rw [if_neg hspace, Bool.eq_false_iff.mpr hspace, Bool.not_false, if_pos rfl, rstrip_space]
    have htight : ∀ x : Text, (if Text.rstrip x = [] ∧ true = false then d.take room else x) = x :=
      fun x => if_neg fun h => by cases h.2
    rw [htight]
    by_cases hblank : Text.rstrip (d.take room) = []
    · -- only blanks of the subject fit, and the cut goes back into the scope if that has two words
      rw [if_pos hblank, hblank]
      have hnone : ((Text.rpartition ' ' ([] : Text)).map Prod.fst).getD [] = [] := rfl
      rw [hnone]
      cases hparts : Text.rpartition ' ' (b ++ [')', ':']) with
      | none =>
        refine .inl ?_
        dsimp only
        rw [if_neg hcloseNe, hclose]
        rfl
      | some parts =>
        dsimp only
        obtain ⟨a, e⟩ := parts
        obtain ⟨hsplit, -⟩ := Text.rpartition_eq_some hparts
        by_cases hnil : Text.rstrip a = []
        · refine .inl ?_
          rw [if_pos hnil, rstrip_behind_mark, rstrip_space, if_pos hblank]
          rfl
        · refine .inr ⟨fun c hc => ?_, rfl⟩
          rw [if_neg hnil] at hc
          have hmem := Text.mem_rstrip hc
          rcases List.append_eq_append_iff.mp hsplit with ⟨w, -, hw⟩ | ⟨w, hw, -⟩
          · have hblankMem : ' ' ∈ w ++ ' ' :: e := List.mem_append_right w List.mem_cons_self
            rw [← hw] at hblankMem
            exact absurd hblankMem (by decide)
          · rw [hw]
            exact List.mem_append_left w hmem
    · rw [if_neg hblank]
      by_cases hword : ' ' ∈ Text.rstrip (d.take room)
      · cases hparts : Text.rpartition ' ' (Text.rstrip (d.take room)) with
        | none => exact absurd hword (Text.rpartition_eq_none_iff.mp hparts)
        | some parts =>
          obtain ⟨a, e⟩ := parts
          obtain ⟨hsplit, hlast⟩ := Text.rpartition_eq_some hparts
          have hwords : b ++ ')' :: ':' :: ' ' :: Text.rstrip (d.take room) =
              (b ++ ')' :: (mark ++ a)) ++ ' ' :: e := by
            rw [hsplit]
            simp [mark]
          have hne : b ++ ')' :: ':' :: Text.rstrip (' ' :: a) ≠ [] :=
            List.append_ne_nil_of_right_ne_nil _ (List.cons_ne_nil _ _)
          refine .inl ?_
          rw [hwords, Text.rpartition_append hlast]
          show Text.rstrip (if Text.rstrip (b ++ ')' :: (mark ++ a)) = [] then _
            else Text.rstrip (b ++ ')' :: (mark ++ a))) = b ++ ')' :: ':' :: Text.rstrip (' ' :: a)
          rw [rstrip_behind_mark, if_neg hne, ← rstrip_behind_mark, Text.rstrip_rstrip]
      · have hwords : b ++ ')' :: ':' :: ' ' :: Text.rstrip (d.take room) =
            (b ++ [')', ':']) ++ ' ' :: Text.rstrip (d.take room) := by simp
        refine .inl ?_
        rw [hwords, Text.rpartition_append hword, Text.rpartition_eq_none_iff.mpr hword]
        show Text.rstrip (if Text.rstrip (b ++ [')', ':']) = [] then _ else Text.rstrip (b ++ [')', ':'])) =
          b ++ [')', ':']
        rw [hclose, if_neg hcloseNe, hclose]

/-! ## The line -/

theorem length_clippedSubject_le (room : Nat) (d : Text) : (clippedSubject room d).length ≤ room := by
  have htake : (d.take room).length ≤ room := List.length_take_le room d
  have hclip : (Text.rstrip (d.take room)).length ≤ room := le_trans (Text.rstrip_isPrefix _).length_le htake
  unfold clippedSubject
  dsimp only
  split_ifs with _ _ hnil
  · exact htake
  · split
    · rename_i before _ hparts
      obtain ⟨hsplit, -⟩ := Text.rpartition_eq_some hparts
      have hbefore : before.length ≤ (Text.rstrip (d.take room)).length := by
        rw [hsplit, List.length_append]
        omega
      exact le_trans (Text.rstrip_isPrefix _).length_le (le_trans hbefore hclip)
    · exact hclip
  · exact htake
  · exact hclip

/-- A line is never longer than the limit once it is cut. -/
theorem length_truncateCommitLine_le (line : Text) (limit : Nat) :
    (truncateCommitLine line limit).length ≤ limit := by
  unfold truncateCommitLine
  have hcut : (Text.rstrip (line.take limit)).length ≤ limit :=
    le_trans (Text.rstrip_isPrefix _).length_le (List.length_take_le limit line)
  split_ifs with hfits
  · exact hfits
  · cases partition ": ".toList line with
    | none => exact hcut
    | some parts =>
      dsimp only
      split_ifs with hroom
      · exact hcut
      · have hclip := length_clippedSubject_le (limit - parts.1.length - 2) parts.2
        have hmark : (": ".toList).length = 2 := rfl
        rw [List.length_append, List.length_append, hmark]
        omega

theorem length_strip_le (t : Text) : (Text.strip t).length ≤ t.length := by
  rw [Text.strip_eq]
  exact le_trans (Text.rstrip_isPrefix _).length_le (List.dropWhile_suffix _).length_le

theorem isSpace_of_isTypeChar {c : Char} (h : isTypeChar c = true) : Text.isSpace c = false := by
  have hrange : (97 ≤ c.toNat ∧ c.toNat ≤ 122) ∨ (48 ≤ c.toNat ∧ c.toNat ≤ 57) := by
    unfold isTypeChar isSmall at h
    simp only [Bool.or_eq_true, Bool.and_eq_true, decide_eq_true_eq] at h
    have hle : ∀ a b : Char, a ≤ b → a.toNat ≤ b.toNat := fun a b h => UInt32.le_iff_toNat_le.mp h
    exact h.imp (fun h => ⟨hle 'a' c h.1, hle c 'z' h.2⟩) fun h => ⟨hle '0' c h.1, hle c '9' h.2⟩
  unfold Text.isSpace
  simp only [Bool.or_eq_false_iff, Bool.and_eq_false_iff, decide_eq_false_iff_not, beq_eq_false_iff_ne]
  omega

/-- White space of a line that begins with a type is only stripped at its end. -/
theorem strip_behind_type (hT : ∀ c ∈ T, isTypeChar c = true) {y : Char} (hy : Text.isSpace y = false)
    (x : Text) : Text.strip (T ++ y :: x) = T ++ y :: Text.rstrip x := by
  have hfront : Text.lstrip (T ++ y :: x) = T ++ y :: x := by
    refine Text.lstrip_of_head fun c hc => ?_
    cases T with
    | nil =>
      cases hc
      exact hy
    | cons c' T =>
      cases hc
      exact isSpace_of_isTypeChar (hT c List.mem_cons_self)
  have hsnoc : T ++ y :: x = T ++ [y] ++ x := by simp
  rw [Text.strip_eq, hfront, hsnoc, Text.rstrip_append_snoc hy]
  simp

theorem strip_behind_scope (hT : ∀ c ∈ T, isTypeChar c = true) (S x : Text) :
    Text.strip (formatTypeScope T S ++ ':' :: x) = formatTypeScope T S ++ ':' :: Text.rstrip x := by
  by_cases hci : T = scopelessType
  · have hformat : formatTypeScope T S = T := if_pos hci
    rw [hformat, strip_behind_type hT (by decide)]
  · have hformat : formatTypeScope T S = T ++ '(' :: S ++ [')'] := if_neg hci
    have hline : formatTypeScope T S ++ ':' :: x = T ++ '(' :: (S ++ [')'] ++ [':'] ++ x) := by
      rw [hformat]
      simp
    rw [hline, strip_behind_type hT (by decide), Text.rstrip_append_snoc (by decide), hformat]
    simp

/-- What the line of a type, a scope and a subject keeps of the subject. -/
def keptSubject (T S d : Text) : Text :=
  Text.strip (kept (tight T S) (maxLineLength - (formatTypeScope T S).length - 2) d)

theorem strip_commitLine (hT : ∀ c ∈ T, isTypeChar c = true) (hS : ')' ∉ S)
    (hlength : (formatTypeScope T S).length ≤ 42) :
    Text.strip (commitLine T S d) = formatTypeScope T S ++ ':' ::
        Text.rstrip (' ' :: kept (tight T S) (maxLineLength - (formatTypeScope T S).length - 2) d) ∨
      ∃ x, Text.strip (commitLine T S d) = T ++ '(' :: x ∧ ')' ∉ x ∧ keptSubject T S d = [] := by
  have hmarked : ∀ x, formatTypeScope T S ++ ": ".toList ++ x = formatTypeScope T S ++ ':' :: ' ' :: x := by
    intro x
    rw [List.append_assoc]
    rfl
  unfold commitLine truncateCommitLine
  have hwhole : (formatTypeScope T S ++ ": ".toList ++ d).length =
      (formatTypeScope T S).length + 2 + d.length := by
    rw [List.length_append, List.length_append]
    rfl
  rw [hwhole]
  by_cases hfits : (formatTypeScope T S).length + 2 + d.length ≤ maxLineLength
  · refine .inl ?_
    have hroom : d.length ≤ maxLineLength - (formatTypeScope T S).length - 2 := by omega
    rw [if_pos hfits, kept_of_le hroom, hmarked, strip_behind_scope hT]
  · rw [if_neg hfits]
    cases htight : tight T S with
    | false =>
      have hparts : partition ": ".toList (formatTypeScope T S ++ ": ".toList ++ d) =
          some (formatTypeScope T S, d) := partition_line hT htight
      have hshort : ¬ maxLineLength < (formatTypeScope T S).length + 3 := by
        unfold maxLineLength
        omega
      refine .inl ?_
      rw [hparts]
      dsimp only
      rw [if_neg hshort, hmarked, strip_behind_scope hT, rstrip_space, rstrip_clippedSubject, ← rstrip_space]
    | true =>
      obtain ⟨a, b, hscope, hparts⟩ := partition_tight (d := d) hT htight
      have hparts' : partition ": ".toList (formatTypeScope T S ++ ": ".toList ++ d) =
          some (T ++ '(' :: a, b ++ ')' :: (mark ++ d)) := hparts
      have hci : T ≠ scopelessType := of_decide_eq_true (Bool.and_eq_true_iff.mp htight).1
      have hformat : formatTypeScope T S = T ++ '(' :: S ++ [')'] := if_neg hci
      have hcount : (formatTypeScope T S).length = (T ++ '(' :: a).length + (b ++ ')' :: mark).length := by
        rw [hformat, hscope]
        simp [mark]
        omega
      have hshort : ¬ maxLineLength < (T ++ '(' :: a).length + 3 := by
        unfold maxLineLength
        omega
      have hroom : maxLineLength - (T ++ '(' :: a).length - 2 =
          (b ++ ')' :: mark).length + (maxLineLength - (formatTypeScope T S).length - 2) := by
        unfold maxLineLength
        omega
      have ha : ')' ∉ a := fun h => hS (by rw [hscope]; simp [h])
      have hb : ')' ∉ b := fun h => hS (by rw [hscope]; simp [h])
      rw [hparts']
      dsimp only
      rw [if_neg hshort, hroom]
      generalize hclipped : clippedSubject ((b ++ ')' :: mark).length +
        (maxLineLength - (formatTypeScope T S).length - 2)) (b ++ ')' :: (mark ++ d)) = clipped
      have hline : T ++ '(' :: a ++ ": ".toList ++ clipped = T ++ '(' :: (a ++ mark ++ clipped) := by
        simp [mark]
      have hcut := clippedSubject_tight b (maxLineLength - (formatTypeScope T S).length - 2) d
      rw [hclipped] at hcut
      rw [hline, strip_behind_type hT (by decide)]
      rcases hcut with hclip | ⟨hclip, hnil⟩
      · have hne : Text.rstrip clipped ≠ [] := by
          rw [hclip]
          exact List.append_ne_nil_of_right_ne_nil _ (List.cons_ne_nil _ _)
        refine .inl ?_
        rw [Text.rstrip_append, if_neg hne, hclip]
        generalize Text.rstrip (' ' :: kept true (maxLineLength - (formatTypeScope T S).length - 2) d) = r
        rw [hformat, hscope]
        simp
      · refine .inr ⟨Text.rstrip (a ++ mark ++ clipped), rfl, fun hclose => ?_, ?_⟩
        · have hmem := Text.mem_rstrip hclose
          rw [List.mem_append, List.mem_append] at hmem
          rcases hmem with (hmem | hmem) | hmem
          · exact ha hmem
          · exact absurd hmem (by decide)
          · exact hb (hclip _ hmem)
        · unfold keptSubject
          rw [htight]
          exact hnil

/-- The line of a type, a scope and a subject that can be read back. -/
def LineOk (L : Casing) (T S d : Text) : Prop := Usable T S ∧ IsSubject L (keptSubject T S d)

theorem isValidCommitLine_commitLine (hT : T ∈ types) (hTc : ∀ c ∈ T, isTypeChar c = true) (hS : S ∈ scopes)
    (hSc : ')' ∉ S) (hTl : T.length ≤ 20) (hSl : S.length ≤ 20) :
    isValidCommitLine L (commitLine T S d) types scopes = true ↔ LineOk L T S d := by
  have hlength : (formatTypeScope T S).length ≤ 42 := by
    unfold formatTypeScope
    split_ifs
    · omega
    · simp
      omega
  have hline : (Text.strip (commitLine T S d)).length ≤ maxLineLength :=
    le_trans (length_strip_le _) (length_truncateCommitLine_le _ _)
  rcases strip_commitLine (d := d) hTc hSc hlength with hstrip | ⟨x, hstrip, hx, hnil⟩
  · rw [isValidCommitLine_iff hT hTc hS hSc hstrip (Text.rstrip_rstrip _) hline, Text.lstrip_rstrip]
    rfl
  · rw [isValidCommitLine_unclosed hTc hstrip hx hline]
    exact iff_of_false Bool.false_ne_true fun h => h.2.1 hnil

/-! ## Types and scopes of the lists -/

theorem resolveDefaultScope_mem (hne : scopes ≠ []) (preferred : Text) :
    resolveDefaultScope scopes preferred ∈ scopes := by
  unfold resolveDefaultScope
  split_ifs with h
  · exact h
  · obtain ⟨s, rest, rfl⟩ := List.exists_cons_of_ne_nil hne
    exact List.mem_cons_self

theorem resolveDefaultType_mem (hne : types ≠ []) (preferred : Text) :
    resolveDefaultType types preferred ∈ types := by
  unfold resolveDefaultType
  split_ifs with h
  · exact h
  · cases hfind : types.find? (· ≠ scopelessType) with
    | some t => exact List.mem_of_find?_eq_some hfind
    | none =>
      obtain ⟨t, rest, rfl⟩ := List.exists_cons_of_ne_nil hne
      exact List.mem_cons_self

theorem inferTypeFromPaths_mem (hne : types ≠ []) (paths : List Text) (preferred : Text) :
    inferTypeFromPaths paths types preferred ∈ types := by
  unfold inferTypeFromPaths
  split_ifs with hdocs htests
  · exact hdocs.2.1
  · exact htests.2.1
  · exact resolveDefaultType_mem hne preferred

theorem matchScopeSegment_mem {path s : Text} (h : matchScopeSegment path scopes = some s) : s ∈ scopes := by
  unfold matchScopeSegment at h
  dsimp only at h
  cases hlast : (pathSegments path).getLast? with
  | none =>
    rw [hlast] at h
    cases h
  | some last =>
    rw [hlast] at h
    dsimp only at h
    cases hfind : (pathSegments path).dropLast.find? scopes.contains with
    | some segment =>
      rw [hfind] at h
      cases h
      exact List.contains_iff_mem.mp (List.find?_some hfind)
    | none =>
      rw [hfind] at h
      dsimp only at h
      split_ifs at h with _ hstem hname
      · cases h
        exact hstem
      · cases h
        exact hname

theorem mostTouched_mem {found : Text} {matched : List Text} (hfound : found ∈ matched) :
    mostTouched found matched ∈ matched := by
  have hfold : ∀ (l : List Text) (best : Text), best ∈ matched → (∀ s ∈ l, s ∈ matched) →
      l.foldl (fun best s => if matched.count best < matched.count s then s else best) best ∈ matched := by
    intro l
    induction l with
    | nil => exact fun best hbest _ => hbest
    | cons s l ih =>
      intro best hbest hl
      obtain ⟨hs, hl⟩ := List.forall_mem_cons.mp hl
      refine ih _ ?_ hl
      show (if matched.count best < matched.count s then s else best) ∈ matched
      split_ifs
      · exact hs
      · exact hbest
  exact hfold matched.eraseDups found hfound fun s hs => List.mem_eraseDups.mp hs

theorem mem_of_mapM {f : Text → Option Text} {l found : List Text} (h : l.mapM f = some found) :
    ∀ s ∈ found, ∃ x ∈ l, f x = some s := by
  induction l generalizing found with
  | nil =>
    cases h
    exact fun s hs => absurd hs List.not_mem_nil
  | cons x l ih =>
    rw [List.mapM_cons] at h
    obtain ⟨y, hy, h⟩ := Option.bind_eq_some_iff.mp h
    obtain ⟨ys, hys, h⟩ := Option.bind_eq_some_iff.mp h
    cases h
    intro s hs
    rcases List.mem_cons.mp hs with rfl | hs
    · exact ⟨x, List.mem_cons_self, hy⟩
    · obtain ⟨x', hx', hs'⟩ := ih hys s hs
      exact ⟨x', List.mem_cons_of_mem x hx', hs'⟩

theorem inferScopeFromPaths_mem (hne : scopes ≠ []) (paths : List Text) (preferred : Text) :
    inferScopeFromPaths paths scopes preferred ∈ scopes := by
  unfold inferScopeFromPaths
  split
  · rename_i found matched hmapM
    have hmem := mostTouched_mem (List.mem_cons_self (a := found) (l := matched))
    obtain ⟨path, -, hpath⟩ := mem_of_mapM hmapM _ hmem
    exact matchScopeSegment_mem hpath
  · exact resolveDefaultScope_mem hne preferred

theorem captures_escape (b : Bool) (t : Text) : captures (Regex.escape b t) = [] := by
  induction t with
  | nil => rfl
  | cons c t ih => exact ih

theorem captures_alternatives (ts : List Text) :
    captures (ts.foldr (fun t r => Regex.alt (Regex.escape false t) r) (.chr fun _ => false)) = [] := by
  induction ts with
  | nil => rfl
  | cons t ts ih =>
    show captures (Regex.escape false t) ++ _ = []
    rw [captures_escape, List.nil_append]
    exact ih

theorem mem_of_matches_alternatives {ts : List Text} {u : Text}
    (h : Matches (ts.foldr (fun t r => Regex.alt (Regex.escape false t) r) (.chr fun _ => false)) u) :
    u ∈ ts := by
  induction ts with
  | nil =>
    obtain ⟨c, hc, -⟩ := h
    cases hc
  | cons t ts ih =>
    rcases h with h | h
    · rw [(matches_escape_iff t u).mp h]
      exact List.mem_cons_self
    · exact List.mem_cons_of_mem t (ih h)

theorem matchTypePrefix_mem {subject rest : Text} (h : matchTypePrefix subject types = some (T, rest)) :
    T ∈ types := by
  obtain ⟨⟨g, rest'⟩, hrun, h⟩ := Option.bind_eq_some_iff.mp h
  obtain ⟨u, hget, heq⟩ := Option.map_eq_some_iff.mp h
  obtain ⟨rfl, -⟩ := Prod.mk.inj heq
  obtain ⟨_, _, g', -, -, hend, hcaptured⟩ := run_eq_some hrun
  obtain ⟨rfl, -⟩ := Prod.mk.inj (Option.some.inj hend)
  rcases hcaptured (1, u) (Groups.mem_of_get hget) with hnil | ⟨s, hs, hmatches⟩
  · cases hnil
  · have hcaptures : captures (typePrefixRe types) = [(1, typeAlternatives types)] := by
      have hnone : captures (typeAlternatives types) = [] := captures_alternatives _
      show (1, typeAlternatives types) :: captures (typeAlternatives types) ++ [] = _
      rw [hnone]
      rfl
    rw [hcaptures] at hs
    obtain ⟨-, rfl⟩ := Prod.mk.inj (List.mem_singleton.mp hs)
    have hmem := mem_of_matches_alternatives hmatches
    exact (List.mem_insertionSort _).mp hmem

theorem typeAndDescription_mem (hne : types ≠ []) (title : Text) (paths : List Text) :
    (typeAndDescription title paths types).1 ∈ types := by
  unfold typeAndDescription
  cases hmatch : matchTypePrefix title types with
  | some parts => exact matchTypePrefix_mem hmatch
  | none => exact inferTypeFromPaths_mem hne paths _

/-! ## The builders -/

/-- The lists of types and scopes that a configuration may give. -/
structure Configured (types scopes : List Text) : Prop where
  types_ne : types ≠ []
  scopes_ne : scopes ≠ []
  type_chars : ∀ T ∈ types, ∀ c ∈ T, isTypeChar c = true
  type_length : ∀ T ∈ types, T.length ≤ 20
  scope_chars : ∀ S ∈ scopes, ')' ∉ S
  scope_length : ∀ S ∈ scopes, S.length ≤ 20

theorem Configured.isValid_commitLine (h : Configured types scopes) (hT : T ∈ types) (hS : S ∈ scopes) :
    isValidCommitLine L (commitLine T S d) types scopes = true ↔ LineOk L T S d :=
  isValidCommitLine_commitLine hT (h.type_chars T hT) hS (h.scope_chars S hS) (h.type_length T hT)
    (h.scope_length S hS)

theorem normalizeCommitSubject_iff (h : Configured types scopes) (hT : T ∈ types) (hS : S ∈ scopes)
    (title : Text) :
    isValidCommitLine L (normalizeCommitSubject L title T S (some types) (some scopes)) types scopes = true ↔
      LineOk L T S (lowercaseFirstLetter L (plainSubject title types)) ∨
        LineOk L (resolveDefaultType types "feat".toList) (resolveDefaultScope scopes "core".toList)
          (lowercaseFirstLetter L (plainSubject title types)) := by
  have hsafe := h.isValid_commitLine (L := L) (d := lowercaseFirstLetter L (plainSubject title types))
    (resolveDefaultType_mem h.types_ne "feat".toList) (resolveDefaultScope_mem h.scopes_ne "core".toList)
  have hfirst := h.isValid_commitLine (L := L) (d := lowercaseFirstLetter L (plainSubject title types)) hT hS
  unfold normalizeCommitSubject
  rw [Option.getD_some, Option.getD_some]
  dsimp only
  by_cases hvalid : isValidCommitLine L (commitLine T S (lowercaseFirstLetter L (plainSubject title types)))
      types scopes = true
  · rw [if_pos hvalid]
    exact iff_of_true hvalid (.inl (hfirst.mp hvalid))
  · rw [if_neg hvalid, hsafe]
    exact ⟨fun hline => .inr hline, fun hline => hline.resolve_left fun hline => hvalid (hfirst.mpr hline)⟩

theorem buildPrTitle_iff (h : Configured types scopes) (title : Text) (paths : List Text) :
    isValidCommitLine L (buildPrTitle L title none paths (some scopes) (some types)) types scopes = true ↔
      LineOk L (typeAndDescription title paths types).1 (inferScope paths (some scopes))
        (lowercaseFirstLetter L (typeAndDescription title paths types).2) := by
  have htypes : (if types = [] then defaultCommitTypes else types) = types := if_neg h.types_ne
  unfold buildPrTitle
  rw [Option.getD_some]
  dsimp only
  rw [htypes]
  exact h.isValid_commitLine (typeAndDescription_mem h.types_ne title paths)
    (inferScopeFromPaths_mem h.scopes_ne paths _)

/-- Both fallback titles pass the check exactly when what the limit leaves of their subjects is a subject,
behind a type and a scope that can be read back. The one of a commit has a second try, with the default type and
scope. -/
theorem fallbackTitles_valid_iff (L : Casing) (title : Text) (paths : List Text) {types scopes : List Text}
    (h : Configured types scopes) :
    (isValidCommitLine L
          (normalizeCommitSubject L title (inferTypeFromPaths paths types "feat".toList)
            (inferScopeFromPaths paths scopes "core".toList) (some types) (some scopes)) types scopes = true ∧
        isValidCommitLine L (buildPrTitle L title none paths (some scopes) (some types)) types scopes = true) ↔
      (LineOk L (inferTypeFromPaths paths types "feat".toList) (inferScopeFromPaths paths scopes "core".toList)
            (lowercaseFirstLetter L (plainSubject title types)) ∨
          LineOk L (resolveDefaultType types "feat".toList) (resolveDefaultScope scopes "core".toList)
            (lowercaseFirstLetter L (plainSubject title types))) ∧
        LineOk L (typeAndDescription title paths types).1 (inferScope paths (some scopes))
          (lowercaseFirstLetter L (typeAndDescription title paths types).2) := by
  have hcommit := normalizeCommitSubject_iff (L := L) h (inferTypeFromPaths_mem h.types_ne paths "feat".toList)
    (inferScopeFromPaths_mem h.scopes_ne paths "core".toList) title
  have hpr := buildPrTitle_iff (L := L) h title paths
  rw [hcommit, hpr]

/-- The lists that hold without a configuration. -/
theorem configured_default : Configured defaultCommitTypes defaultCommitScopes where
  types_ne := by decide
  scopes_ne := by decide
  type_chars := by
    have hall : (defaultCommitTypes.all fun T => T.all fun c => isTypeChar c == true) = true := by decide
    exact fun T hT => Text.forall_mem_of_all (List.all_eq_true.mp hall T hT)
  type_length := by decide
  scope_chars := by decide
  scope_length := by decide

theorem fallbackTitles_valid_iff_addFoo :
    LineOk Casing.ascii "feat".toList "core".toList "add foo".toList :=
  ((fallbackTitles_valid_iff Casing.ascii "Add foo".toList [] configured_default).mp
    ⟨by decide +kernel, by decide +kernel⟩).2

/-- A title that is only a type leaves the title of the pull request without a subject. -/
theorem fallbackTitles_bareType :
    Configured defaultCommitTypes defaultCommitScopes ∧
      buildPrTitle Casing.ascii "feat:".toList none [] (some defaultCommitScopes) (some defaultCommitTypes) =
        "feat(core): ".toList ∧
      isValidCommitLine Casing.ascii
          (buildPrTitle Casing.ascii "feat:".toList none [] (some defaultCommitScopes)
            (some defaultCommitTypes)) defaultCommitTypes defaultCommitScopes = false :=
  ⟨configured_default, by decide +kernel, by decide +kernel⟩

end Core.CommitConvention
