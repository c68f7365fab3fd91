import SovaVerified.Json.Decoding

/-!
# Strings and numbers

The parts of a text that are no values of their own: white space, strings and numbers. Each scanner reads what
the grammar derives, and what it has read, the grammar derives.
-/

namespace Json

/-! ## White space -/

theorem blanks_nil : Blanks [] := fun _ h => absurd h List.not_mem_nil

theorem blanks_takeWhile (t : Text) : Blanks (t.takeWhile isBlank) := fun _ h => List.mem_takeWhile_imp h

theorem takeWhile_append_skip (t : Text) : t.takeWhile isBlank ++ skip t = t := List.takeWhile_append_dropWhile

/-- What is skipped in front of another character. -/
theorem skip_append {front t : Text} (hfront : Blanks front) (ht : ∀ c ∈ t.head?, isBlank c = false) :
    skip (front ++ t) = t := by
  unfold skip
  rw [List.dropWhile_append_of_pos hfront]
  cases t with
  | nil => rfl
  | cons c t => rw [List.dropWhile_cons_of_neg (by simp [ht c rfl])]

/-! ## Strings -/

section

variable {t : Text} {c : Char} {n : Nat}

theorem hex4_append (h : hex4 t = some n) (t' : Text) : hex4 (t ++ t') = some n := by
  match t with
  | [] => cases h
  | [_] => cases h
  | [_, _] => cases h
  | [_, _, _] => cases h
  | _ :: _ :: _ :: _ :: _ => exact h

theorem length_of_hex4 (h : hex4 t = some n) : 4 ≤ t.length := by
  match t with
  | [] => cases h
  | [_] => cases h
  | [_, _] => cases h
  | [_, _, _] => cases h
  | _ :: _ :: _ :: _ :: _ => simp

theorem hex4_of_append {a b : Text} (ha : 4 ≤ a.length) (h : hex4 (a ++ b) = some n) : hex4 a = some n := by
  match a with
  | [] => simp at ha
  | [_] => simp at ha
  | [_, _] => simp at ha
  | [_, _, _] => simp at ha
  | _ :: _ :: _ :: _ :: _ => exact h

/-- What an escape of a code point looks like behind the `u`. -/
inductive CodePointEscape : Text → Char → Nat → Prop
  | one {t : Text} {u : Nat} (hu : hex4 t = some u) (hhigh : ¬(0xd800 ≤ u ∧ u ≤ 0xdbff))
      (hlow : ¬(0xdc00 ≤ u ∧ u ≤ 0xdfff)) : CodePointEscape t (Char.ofNat u) 5
  | pair {t t' : Text} {u m : Nat} (hu : hex4 t = some u) (hhigh : 0xd800 ≤ u ∧ u ≤ 0xdbff)
      (hdrop : t.drop 4 = '\\' :: 'u' :: t') (hm : hex4 t' = some m) (hlow : 0xdc00 ≤ m ∧ m ≤ 0xdfff) :
      CodePointEscape t (Char.ofNat (0x10000 + (u - 0xd800) * 0x400 + (m - 0xdc00))) 11

theorem unicodeEscape_iff : unicodeEscape t = some (c, n) ↔ CodePointEscape t c n := by
  unfold unicodeEscape
  constructor
  · intro h
    obtain ⟨u, hu, h⟩ := Option.bind_eq_some_iff.mp h
    split_ifs at h with hhigh hlow
    · split at h
      · rename_i slash x t' hdrop
        obtain ⟨m, hm, hlowEscape⟩ := Option.bind_eq_some_iff.mp h
        split_ifs at hlowEscape with hpair
        obtain ⟨rfl, rfl, hlow⟩ := hpair
        obtain ⟨rfl, rfl⟩ := Prod.mk.inj (Option.some.inj hlowEscape)
        exact .pair hu hhigh hdrop hm hlow
      · cases h
    · obtain ⟨rfl, rfl⟩ := Prod.mk.inj (Option.some.inj h)
      exact .one hu hhigh hlow
  · intro h
    cases h with
    | one hu hhigh hlow =>
      rw [hu, Option.bind_eq_bind, Option.bind_some, if_neg hhigh, if_neg hlow]
      rfl
    | pair hu hhigh hdrop hm hlow =>
      rw [hu, Option.bind_eq_bind, Option.bind_some, if_pos hhigh, hdrop]
      dsimp only
      rw [hm, Option.bind_some, if_pos ⟨rfl, rfl, hlow⟩]
      rfl

theorem CodePointEscape.append (h : CodePointEscape t c n) (b : Text) : CodePointEscape (t ++ b) c n := by
  cases h with
  | one hu hhigh hlow => exact .one (hex4_append hu b) hhigh hlow
  | @pair t' u m hu hhigh hdrop hm hlow =>
    have hdrop' : (t ++ b).drop 4 = '\\' :: 'u' :: (t' ++ b) := by
      rw [List.drop_append_of_le_length (length_of_hex4 hu), hdrop]
      rfl
    exact .pair (hex4_append hu b) hhigh hdrop' (hex4_append hm b) hlow

/-- An escape does not look behind its end. -/
theorem CodePointEscape.of_append {a b : Text} (ha : a.length + 1 = n) (h : CodePointEscape (a ++ b) c n) :
    CodePointEscape a c n := by
  cases h with
  | one hu hhigh hlow => exact .one (hex4_of_append (by omega) hu) hhigh hlow
  | @pair t' u m hu hhigh hdrop hm hlow =>
    rw [List.drop_append_of_le_length (by omega)] at hdrop
    have hrest : (a.drop 4).length = 6 := by
      rw [List.length_drop]
      omega
    obtain ⟨x, y, low, hlowText⟩ : ∃ x y low, a.drop 4 = x :: y :: low := by
      match hdropped : a.drop 4 with
      | [] => simp [hdropped] at hrest
      | [_] => simp [hdropped] at hrest
      | x :: y :: low => exact ⟨x, y, low, rfl⟩
    rw [hlowText] at hdrop hrest
    obtain ⟨rfl, htail⟩ := List.cons.inj hdrop
    obtain ⟨rfl, rfl⟩ := List.cons.inj htail
    have hlowLength : 4 ≤ low.length := by
      simp only [List.length_cons] at hrest
      omega
    exact .pair (hex4_of_append (by omega) hu) hhigh hlowText (hex4_of_append hlowLength hm) hlow

theorem escape_append (h : Json.escape t = some (c, n)) (b : Text) :
    Json.escape (t ++ b) = some (c, n) := by
  cases t with
  | nil => cases h
  | cons d t =>
    rw [List.cons_append]
    rw [Json.escape] at h ⊢
    split_ifs at h ⊢
    · exact unicodeEscape_iff.mpr ((unicodeEscape_iff.mp h).append b)
    · exact h

theorem escape_of_append {a b : Text} (ha : a.length = n) (h : Json.escape (a ++ b) = some (c, n)) :
    Json.escape a = some (c, n) := by
  cases a with
  | nil =>
    -- An escape has at least one character.
    subst ha
    cases b with
    | nil => cases h
    | cons d b =>
      rw [List.nil_append] at h
      rw [Json.escape] at h
      split_ifs at h
      · have hescape : CodePointEscape b c 0 := unicodeEscape_iff.mp h
        cases hescape
      · obtain ⟨e, -, he⟩ := Option.map_eq_some_iff.mp h
        cases he
  | cons d a =>
    rw [List.cons_append] at h
    rw [Json.escape] at h ⊢
    split_ifs at h ⊢
    · exact unicodeEscape_iff.mpr ((unicodeEscape_iff.mp h).of_append ha)
    · exact h

end

/-- The characters of an escape are passed over. -/
theorem scanString_length (e t : Text) : scanString e.length (e ++ t) = scanString 0 t := by
  induction e with
  | nil => rfl
  | cons c e ih => exact ih

theorem scanString_complete {t s : Text} (h : StringBody t s) (rest : Text) :
    scanString 0 (t ++ rest) = .ok (s, rest) := by
  induction h with
  | close => rfl
  | @plain c t s hquote hslash hcontrol h ih =>
    rw [List.cons_append, scanString, if_neg hquote, if_neg hslash, if_neg (by omega), ih]
    rfl
  | @escape e t s c he h ih =>
    have hescape : Json.escape (e ++ t ++ rest) = some (c, e.length) := by
      rw [List.append_assoc]
      exact escape_append he _
    rw [List.cons_append, scanString, if_neg (by decide), if_pos rfl, hescape]
    dsimp only
    rw [List.append_assoc, scanString_length, ih]
    rfl

theorem scanString_sound {t s rest : Text} {pending : Nat} (h : scanString pending t = .ok (s, rest)) :
    pending ≤ t.length ∧ ∃ body, t.drop pending = body ++ rest ∧ StringBody body s := by
  induction t generalizing pending s with
  | nil => cases pending <;> cases h
  | cons c t ih =>
    cases pending with
    | succ pending =>
      obtain ⟨hlen, body, hbody, hstring⟩ := ih h
      exact ⟨by simpa using hlen, body, hbody, hstring⟩
    | zero =>
      refine ⟨Nat.zero_le _, ?_⟩
      rw [scanString] at h
      split_ifs at h with hquote hslash hcontrol
      · obtain ⟨rfl, rfl⟩ := Prod.mk.inj (Except.ok.inj h)
        exact ⟨['"'], by rw [hquote]; rfl, .close⟩
      · split at h
        · cases h
        · rename_i e length he
          obtain ⟨⟨s', rest'⟩, hscan, hr⟩ := Exceptions.map_eq_ok_iff.mp h
          obtain ⟨rfl, rfl⟩ := Prod.mk.inj hr
          obtain ⟨hlen, body, hbody, hstring⟩ := ih hscan
          have htake : (t.take length).length = length := List.length_take_of_le hlen
          have hescape : Json.escape (t.take length) = some (e, (t.take length).length) := by
            rw [htake]
            refine escape_of_append (b := t.drop length) htake ?_
            rw [List.take_append_drop]
            exact he
          refine ⟨'\\' :: (t.take length ++ body), ?_, .escape hescape hstring⟩
          show c :: t = _
          rw [hslash, List.cons_append, List.append_assoc, ← hbody, List.take_append_drop]
      · obtain ⟨⟨s', rest'⟩, hscan, hr⟩ := Exceptions.map_eq_ok_iff.mp h
        obtain ⟨rfl, rfl⟩ := Prod.mk.inj hr
        obtain ⟨-, body, hbody, hstring⟩ := ih hscan
        refine ⟨c :: body, ?_, .plain hquote hslash (by omega) hstring⟩
        show c :: t = _
        rw [List.cons_append, ← hbody]
        rfl

/-! ## Numbers -/

section

variable {ds t rest : Text} {l : Numeral}

/-- No digit follows. -/
def NoDigit (t : Text) : Prop := ∀ c ∈ t.head?, isDigit c = false

/-- Nothing follows that a number could go on with. -/
def Ends (t : Text) : Prop := ∀ c ∈ t.head?, isDigit c = false ∧ c ≠ '.' ∧ c ≠ 'e' ∧ c ≠ 'E'

theorem Ends.noDigit (h : Ends t) : NoDigit t := fun c hc => (h c hc).1

theorem ends_cons {c : Char} (h : isDigit c = false ∧ c ≠ '.' ∧ c ≠ 'e' ∧ c ≠ 'E') (t : Text) :
    Ends (c :: t) := by
  intro d hd
  obtain rfl : c = d := Option.some.inj hd
  exact h

theorem mem_of_all (h : ds.all isDigit = true) : ∀ c ∈ ds, isDigit c = true := List.all_eq_true.mp h

theorem takeWhile_digits (hds : ds.all isDigit = true) (hrest : NoDigit rest) :
    (ds ++ rest).takeWhile isDigit = ds := by
  rw [List.takeWhile_append_of_pos (mem_of_all hds)]
  cases rest with
  | nil => simp
  | cons c rest => rw [List.takeWhile_cons_of_neg (by simp [hrest c rfl]), List.append_nil]

theorem dropWhile_digits (hds : ds.all isDigit = true) (hrest : NoDigit rest) :
    (ds ++ rest).dropWhile isDigit = rest := by
  rw [List.dropWhile_append_of_pos (mem_of_all hds)]
  cases rest with
  | nil => rfl
  | cons c rest => rw [List.dropWhile_cons_of_neg (by simp [hrest c rfl])]

theorem all_takeWhile_digits (t : Text) : (t.takeWhile isDigit).all isDigit = true :=
  List.all_eq_true.mpr fun _ h => List.mem_takeWhile_imp h

theorem scanSign_append {negative : Bool} (h : t.head? ≠ some '-') :
    scanSign (signText negative ++ t) = (negative, t) := by
  cases negative with
  | true => rfl
  | false =>
    rw [signText, if_neg Bool.false_ne_true, List.nil_append]
    unfold scanSign
    split
    · exact absurd rfl h
    · rfl

theorem scanSign_sound (t : Text) : t = signText (scanSign t).1 ++ (scanSign t).2 := by
  unfold scanSign
  split <;> rfl

theorem scanWhole_append (hwhole : ds = ['0'] ∨ (ds.all isDigit = true ∧ ds.head? ≠ some '0'))
    (hne : ds ≠ []) (hrest : NoDigit rest) : scanWhole (ds ++ rest) = (ds, rest) := by
  rcases hwhole with rfl | ⟨hds, hhead⟩
  · rfl
  · unfold scanWhole
    split
    · rename_i t ht
      obtain ⟨c, ds', rfl⟩ := List.exists_cons_of_ne_nil hne
      obtain ⟨rfl, -⟩ := List.cons.inj ht
      exact absurd rfl hhead
    · rw [takeWhile_digits hds hrest, dropWhile_digits hds hrest]

theorem scanWhole_sound (t : Text) :
    t = (scanWhole t).1 ++ (scanWhole t).2 ∧
      ((scanWhole t).1 = ['0'] ∨ ((scanWhole t).1.all isDigit = true ∧ (scanWhole t).1.head? ≠ some '0')) := by
  unfold scanWhole
  split
  · exact ⟨rfl, .inl rfl⟩
  · rename_i hzero
    refine ⟨List.takeWhile_append_dropWhile.symm, .inr ⟨all_takeWhile_digits t, fun hhead => ?_⟩⟩
    cases t with
    | nil => cases hhead
    | cons c t =>
      rw [List.head?_takeWhile] at hhead
      obtain ⟨hc, -⟩ := Option.filter_eq_some_iff.mp hhead
      exact hzero t (by rw [Option.some.inj hc])

theorem scanFraction_append (hds : ds.all isDigit = true) (hrest : NoDigit rest)
    (hpoint : ds = [] → rest.head? ≠ some '.') : scanFraction (fractionText ds ++ rest) = (ds, rest) := by
  unfold fractionText
  split_ifs with hds'
  · subst hds'
    unfold scanFraction
    rw [List.nil_append]
    split
    · exact absurd rfl (hpoint rfl)
    · rfl
  · rw [List.cons_append, scanFraction, takeWhile_digits hds hrest, dropWhile_digits hds hrest, if_neg hds']

theorem scanFraction_sound (t : Text) :
    t = fractionText (scanFraction t).1 ++ (scanFraction t).2 ∧ (scanFraction t).1.all isDigit = true := by
  unfold scanFraction
  split
  · rename_i t
    split_ifs with hnone
    · exact ⟨rfl, rfl⟩
    · refine ⟨?_, all_takeWhile_digits t⟩
      unfold fractionText
      rw [if_neg hnone, List.cons_append, List.takeWhile_append_dropWhile]
  · exact ⟨rfl, rfl⟩

theorem scanExponentSign_append {sign : Text} (hsign : sign = [] ∨ sign = ['+'] ∨ sign = ['-'])
    (hds : ds.all isDigit = true) (hne : ds ≠ []) :
    scanExponentSign (sign ++ (ds ++ rest)) = (sign, ds ++ rest) := by
  rcases hsign with rfl | rfl | rfl
  · obtain ⟨c, ds', rfl⟩ := List.exists_cons_of_ne_nil hne
    have hc : isDigit c = true := mem_of_all hds c List.mem_cons_self
    have hno : ¬(c = '+' ∨ c = '-') := by
      rintro (rfl | rfl)
      · exact absurd hc (by decide)
      · exact absurd hc (by decide)
    rw [List.nil_append, List.cons_append, scanExponentSign, if_neg hno]
  · rfl
  · rfl

theorem scanExponentSign_sound (t : Text) :
    t = (scanExponentSign t).1 ++ (scanExponentSign t).2 ∧
      ((scanExponentSign t).1 = [] ∨ (scanExponentSign t).1 = ['+'] ∨ (scanExponentSign t).1 = ['-']) := by
  unfold scanExponentSign
  split
  · split_ifs with hsign
    · refine ⟨rfl, ?_⟩
      rcases hsign with rfl | rfl
      · exact .inr (.inl rfl)
      · exact .inr (.inr rfl)
    · exact ⟨rfl, .inl rfl⟩
  · exact ⟨rfl, .inl rfl⟩

theorem scanExponent_append {exponent : Option Exponent} (hexponent : ∀ e ∈ exponent, e.Wellformed)
    (hrest : Ends rest) : scanExponent (exponentText exponent ++ rest) = (exponent, rest) := by
  cases exponent with
  | none =>
    show scanExponent rest = (none, rest)
    cases rest with
    | nil => rfl
    | cons c rest =>
      obtain ⟨-, -, he, hE⟩ := hrest c rfl
      rw [scanExponent, if_neg (not_or.mpr ⟨he, hE⟩)]
  | some e =>
    have hwell := hexponent e rfl
    have htext : exponentText (some e) ++ rest = e.letter :: (e.sign ++ (e.digits ++ rest)) := by
      simp [exponentText, Exponent.text]
    rw [htext, scanExponent, if_pos hwell.letter,
      scanExponentSign_append hwell.sign hwell.digits hwell.nonempty]
    dsimp only
    rw [takeWhile_digits hwell.digits hrest.noDigit, dropWhile_digits hwell.digits hrest.noDigit,
      if_neg hwell.nonempty]

theorem scanExponent_sound (t : Text) :
    t = exponentText (scanExponent t).1 ++ (scanExponent t).2 ∧ ∀ e ∈ (scanExponent t).1, e.Wellformed := by
  unfold scanExponent
  split
  · rename_i c t
    split_ifs with hletter
    · obtain ⟨htext, hsign⟩ := scanExponentSign_sound t
      generalize scanExponentSign t = scanned at htext hsign ⊢
      obtain ⟨sign, digits⟩ := scanned
      dsimp only at htext hsign ⊢
      split_ifs with hnone
      · exact ⟨rfl, fun _ h => nomatch h⟩
      · refine ⟨?_, ?_⟩
        · rw [htext]
          simp [exponentText, Exponent.text]
        · rintro e he
          obtain rfl := Option.some.inj he
          exact { letter := hletter, sign := hsign, nonempty := hnone, digits := all_takeWhile_digits _ }
    · exact ⟨rfl, fun _ h => nomatch h⟩
  · exact ⟨rfl, fun _ h => nomatch h⟩

/-- What stands behind the digits of a fraction. -/
theorem exponentText_head {exponent : Option Exponent} (hexponent : ∀ e ∈ exponent, e.Wellformed)
    (hrest : Ends rest) : ∀ c ∈ (exponentText exponent ++ rest).head?, isDigit c = false ∧ c ≠ '.' := by
  intro c hc
  cases exponent with
  | none => exact ⟨(hrest c hc).1, (hrest c hc).2.1⟩
  | some e =>
    obtain rfl : e.letter = c := Option.some.inj hc
    rcases (hexponent e rfl).letter with hletter | hletter
    · rw [hletter]
      decide
    · rw [hletter]
      decide

/-- What stands behind the whole part. -/
theorem fractionText_head (hds : NoDigit rest) : NoDigit (fractionText ds ++ rest) := by
  unfold fractionText
  split_ifs
  · exact hds
  · intro c hc
    obtain rfl : '.' = c := Option.some.inj hc
    decide

theorem Numeral.Wellformed.text_eq (hl : l.Wellformed) :
    ∃ d t, l.text = signText l.negative ++ d :: t ∧ isDigit d = true := by
  obtain ⟨d, w, hw⟩ := List.exists_cons_of_ne_nil hl.nonempty
  refine ⟨d, w ++ (fractionText l.fraction ++ exponentText l.exponent), ?_, ?_⟩
  · unfold Numeral.text
    rw [hw, List.cons_append]
  · rcases hl.whole with hzero | ⟨hdigits, -⟩
    · obtain ⟨rfl, -⟩ := List.cons.inj (hw.symm.trans hzero)
      decide
    · exact mem_of_all hdigits d (by rw [hw]; exact List.mem_cons_self)

theorem scanNumeral_complete (hl : l.Wellformed) (hrest : Ends rest) :
    scanNumeral (l.text ++ rest) = some (l, rest) := by
  have hexponent := exponentText_head hl.exponent hrest
  have hfraction : NoDigit (fractionText l.fraction ++ (exponentText l.exponent ++ rest)) :=
    fractionText_head fun c hc => (hexponent c hc).1
  have hminus : (l.whole ++ (fractionText l.fraction ++ (exponentText l.exponent ++ rest))).head? ≠
      some '-' := by
    obtain ⟨c, w, hw⟩ := List.exists_cons_of_ne_nil hl.nonempty
    rw [hw]
    rintro hc
    obtain rfl : c = '-' := Option.some.inj hc
    rcases hl.whole with hzero | ⟨hdigits, -⟩
    · cases hw.symm.trans hzero
    · exact absurd (mem_of_all hdigits '-' (by rw [hw]; exact List.mem_cons_self)) (by decide)
  have hassoc : l.text ++ rest = signText l.negative ++
      (l.whole ++ (fractionText l.fraction ++ (exponentText l.exponent ++ rest))) := by
    simp [Numeral.text]
  unfold scanNumeral
  rw [hassoc, scanSign_append hminus]
  dsimp only
  rw [scanWhole_append hl.whole hl.nonempty hfraction]
  dsimp only
  rw [if_neg hl.nonempty, scanFraction_append hl.fraction (fun c hc => (hexponent c hc).1)
    (fun _ hpoint => (hexponent '.' hpoint).2 rfl)]
  dsimp only
  rw [scanExponent_append hl.exponent hrest]

theorem scanNumeral_sound (h : scanNumeral t = some (l, rest)) : t = l.text ++ rest ∧ l.Wellformed := by
  unfold scanNumeral at h
  dsimp only at h
  have hsign := scanSign_sound t
  obtain ⟨hwhole, hdigits⟩ := scanWhole_sound (scanSign t).2
  obtain ⟨hfraction, hfractionDigits⟩ := scanFraction_sound (scanWhole (scanSign t).2).2
  obtain ⟨hexponent, hwell⟩ := scanExponent_sound (scanFraction (scanWhole (scanSign t).2).2).2
  split_ifs at h with hne
  obtain ⟨rfl, rfl⟩ := Prod.mk.inj (Option.some.inj h)
  refine ⟨?_, { nonempty := hne, whole := hdigits, fraction := hfractionDigits, exponent := hwell }⟩
  calc t = signText (scanSign t).1 ++ (scanSign t).2 := hsign
    _ = _ := by
      unfold Numeral.text
      dsimp only
      rw [List.append_assoc, List.append_assoc, List.append_assoc, ← hexponent, ← hfraction, ← hwhole]

end

end Json

/-!
# The reader of the grammar

The reader reads what the grammar derives (`scanOnce_complete`), and what it has read, the grammar derives
(`sound`). From the two together, what is read at the front of a text is read there whatever
follows, but for numbers.
-/

namespace Json

/-- A number, which goes on as far as it can. -/
def isNumeral : Json → Bool
  | .int _ => true
  | .float _ => true
  | _ => false

theorem isNumeral_of_value {l : Numeral} {v : Json} (h : l.value = .ok v) : v.isNumeral = true := by
  unfold Numeral.value at h
  dsimp only at h
  split_ifs at h
  all_goals
    rw [← Except.ok.inj h]
    rfl

/-! ## Heads -/

/-- A number begins with a sign or with a digit. -/
theorem Numeral.Wellformed.head {l : Numeral} (hl : l.Wellformed) :
    ∃ c t, l.text = c :: t ∧ (c = '-' ∨ isDigit c = true) := by
  obtain ⟨d, t, htext, hd⟩ := hl.text_eq
  unfold signText at htext
  split_ifs at htext
  · exact ⟨'-', d :: t, htext, .inl rfl⟩
  · exact ⟨d, t, htext, .inr hd⟩

/-- No literal begins as a number does. -/
theorem literals_heads {w : Text × Json} (h : w ∈ literals) :
    ∃ a b w', w.1 = a :: b :: w' ∧ isDigit a = false ∧ (a = '-' → isDigit b = false) := by
  simp only [literals, List.mem_cons, List.not_mem_nil, or_false] at h
  rcases h with rfl | rfl | rfl | rfl | rfl | rfl
  all_goals exact ⟨_, _, _, rfl, by decide, by decide⟩

/-- A value does not begin with white space or with the end of an array. -/
theorem Denotes.head {t : Text} {v : Json} (h : Denotes t v) :
    ∃ c t', t = c :: t' ∧ isBlank c = false ∧ c ≠ ']' := by
  cases h with
  | @literal l h =>
    simp only [literals, List.mem_cons, List.not_mem_nil, or_false] at h
    rcases h with rfl | rfl | rfl | rfl | rfl | rfl
    all_goals exact ⟨_, _, rfl, by decide, by decide⟩
  | numeral hl hv =>
    obtain ⟨c, t', ht, hc⟩ := hl.head
    refine ⟨c, t', ht, ?_, ?_⟩
    · by_contra hblank
      unfold isBlank at hblank
      simp only [Bool.not_eq_false, Bool.or_eq_true, beq_iff_eq] at hblank
      rcases hblank with ((rfl | rfl) | rfl) | rfl
      all_goals exact absurd hc (by decide)
    · rintro rfl
      exact absurd hc (by decide)
  | str h => exact ⟨_, _, rfl, by decide, by decide⟩
  | noItems hfront => exact ⟨_, _, rfl, by decide, by decide⟩
  | items hfront h => exact ⟨_, _, rfl, by decide, by decide⟩
  | noMembers hfront => exact ⟨_, _, rfl, by decide, by decide⟩
  | members hfront h => exact ⟨_, _, rfl, by decide, by decide⟩

theorem DenotesItems.head {t : Text} {vs : List Json} (h : DenotesItems t vs) :
    ∃ c t', t = c :: t' ∧ isBlank c = false ∧ c ≠ ']' := by
  cases h with
  | last hv hgap =>
    obtain ⟨c, t', rfl, hc⟩ := hv.head
    exact ⟨c, _, rfl, hc⟩
  | cons hv hgap hfront h =>
    obtain ⟨c, t', rfl, hc⟩ := hv.head
    exact ⟨c, _, rfl, hc⟩

theorem DenotesMembers.head {t : Text} {ms : List (Text × Json)} (h : DenotesMembers t ms) :
    ∃ t', t = '"' :: t' := by
  cases h with
  | last => exact ⟨_, rfl⟩
  | cons => exact ⟨_, rfl⟩

/-! ## Brackets -/

/-- The brackets of an array, the braces of an object. -/
def enclosure : Json → Option (Char × Char)
  | .arr _ => some ('[', ']')
  | .obj _ => some ('\x7b', '\x7d')
  | _ => none

theorem enclosure_of_isNumeral {v : Json} (h : v.isNumeral = true) : v.enclosure = none := by
  cases v with
  | int | float => rfl
  | _ => cases h

theorem DenotesItems.closed {t : Text} {vs : List Json} (h : DenotesItems t vs) :
    ∃ mid, t = mid ++ [']'] := by
  cases h with
  | @last t gap v hv hgap => exact ⟨t ++ gap, (List.append_assoc _ _ _).symm⟩
  | @cons t gap front rest v vs hv hgap hfront hitems =>
    obtain ⟨mid, rfl⟩ := DenotesItems.closed hitems
    exact ⟨t ++ (gap ++ ',' :: (front ++ mid)), by simp⟩

theorem DenotesMembers.closed {t : Text} {ms : List (Text × Json)} (h : DenotesMembers t ms) :
    ∃ mid, t = mid ++ ['\x7d'] := by
  cases h with
  | @last k key colon front t gap v hkey hcolon hfront hv hgap =>
    exact ⟨'"' :: (k ++ (colon ++ ':' :: (front ++ (t ++ gap)))), by simp⟩
  | @cons k key colon front t gap front' rest v ms hkey hcolon hfront hv hgap hfront' hmembers =>
    obtain ⟨mid, rfl⟩ := DenotesMembers.closed hmembers
    exact ⟨'"' :: (k ++ (colon ++ ':' :: (front ++ (t ++ (gap ++ ',' :: (front' ++ mid)))))), by simp⟩

/-- The text of an array or an object is between its brackets or braces. -/
theorem Denotes.enclosed {t : Text} {v : Json} {o c : Char} (h : Denotes t v)
    (hv : v.enclosure = some (o, c)) : ∃ mid, t = o :: (mid ++ [c]) := by
  cases h with
  | @literal l h =>
    simp only [literals, List.mem_cons, List.not_mem_nil, or_false] at h
    rcases h with rfl | rfl | rfl | rfl | rfl | rfl <;> cases hv
  | numeral hl hvalue =>
    rw [enclosure_of_isNumeral (isNumeral_of_value hvalue)] at hv
    cases hv
  | str h => cases hv
  | @noItems front hfront =>
    cases hv
    exact ⟨front, rfl⟩
  | @items front t vs hfront h =>
    cases hv
    obtain ⟨mid, rfl⟩ := h.closed
    exact ⟨front ++ mid, by simp⟩
  | @noMembers front hfront =>
    cases hv
    exact ⟨front, rfl⟩
  | @members front t ms hfront h =>
    cases hv
    obtain ⟨mid, rfl⟩ := h.closed
    exact ⟨front ++ mid, by simp⟩

/-! ## What the grammar derives is read -/

section

variable {fuel : Nat} {t rest rest' key : Text} {v : Json}

theorem ends_append {gap : Text} (hgap : Blanks gap) (ht : Ends t) : Ends (gap ++ t) := by
  cases gap with
  | nil => exact ht
  | cons c gap =>
    have hc : isBlank c = true := hgap c List.mem_cons_self
    unfold isBlank at hc
    simp only [Bool.or_eq_true, beq_iff_eq] at hc
    rcases hc with ((rfl | rfl) | rfl) | rfl
    all_goals exact ends_cons (by decide) _

theorem scanOnce_literal {l : Text × Json} (h : l ∈ literals) (rest : Text) :
    scanOnce (fuel + 1) (l.1 ++ rest) = .ok (l.2, rest) := by
  simp only [literals, List.mem_cons, List.not_mem_nil, or_false] at h
  rcases h with rfl | rfl | rfl | rfl | rfl | rfl
  all_goals exact scanOnce_scalar (by decide) (by decide) (by decide)

theorem find?_literals_eq_none {l : Numeral} (hl : l.Wellformed) (rest : Text) :
    (literals.find? fun w => w.1.isPrefixOf (l.text ++ rest)) = none := by
  refine List.find?_eq_none.mpr fun w hw hprefix => ?_
  obtain ⟨a, b, w', hword, ha, hb⟩ := literals_heads hw
  obtain ⟨d, t, htext, hd⟩ := hl.text_eq
  rw [List.isPrefixOf_iff_prefix, hword, htext] at hprefix
  unfold signText at hprefix
  split_ifs at hprefix
  · obtain ⟨hminus, hrest⟩ := List.cons_prefix_cons.mp hprefix
    obtain ⟨rfl, -⟩ := List.cons_prefix_cons.mp hrest
    exact Bool.false_ne_true ((hb hminus).symm.trans hd)
  · obtain ⟨rfl, -⟩ := List.cons_prefix_cons.mp hprefix
    exact Bool.false_ne_true (ha.symm.trans hd)

theorem scanOnce_numeral {l : Numeral} {v : Json} (hl : l.Wellformed) (hv : l.value = .ok v)
    (hrest : Ends rest) : scanOnce (fuel + 1) (l.text ++ rest) = .ok (v, rest) := by
  obtain ⟨c, t, htext, hc⟩ := hl.head
  have hscalar : scanOnce (fuel + 1) (l.text ++ rest) = scanScalar (l.text ++ rest) := by
    rw [htext, List.cons_append]
    refine scanOnce_scalar ?_ ?_ ?_
    all_goals
      rintro rfl
      exact absurd hc (by decide)
  rw [hscalar, scanScalar, find?_literals_eq_none hl, scanNumeral_complete hl hrest]
  dsimp only
  rw [hv]
  rfl

/-- What is left of the text of an array behind its opening bracket and white space. -/
theorem skip_items {front : Text} {vs : List Json} (hfront : Blanks front) (h : DenotesItems t vs)
    (rest : Text) : skip (front ++ (t ++ rest)) = t ++ rest ∧ ∀ rest', t ++ rest ≠ ']' :: rest' := by
  obtain ⟨c, t', rfl, hblank, hne⟩ := h.head
  refine ⟨skip_append hfront ?_, ?_⟩
  · intro d hd
    obtain rfl : c = d := Option.some.inj hd
    exact hblank
  · rintro rest' heq
    exact hne (List.cons.inj heq).1

theorem skip_members {front : Text} {ms : List (Text × Json)} (hfront : Blanks front)
    (h : DenotesMembers t ms) (rest : Text) :
    skip (front ++ (t ++ rest)) = t ++ rest ∧ ∀ rest', t ++ rest ≠ '}' :: rest' := by
  obtain ⟨t', rfl⟩ := h.head
  refine ⟨skip_append hfront ?_, ?_⟩
  · rintro d hd
    obtain rfl : '"' = d := Option.some.inj hd
    decide
  · rintro rest' heq
    cases (List.cons.inj heq).1

theorem skip_value {front : Text} {v : Json} (hfront : Blanks front) (h : Denotes t v) (rest : Text) :
    skip (front ++ (t ++ rest)) = t ++ rest := by
  obtain ⟨c, t', rfl, hblank, -⟩ := h.head
  refine skip_append hfront fun d hd => ?_
  obtain rfl : c = d := Option.some.inj hd
  exact hblank

/-- A mark of punctuation behind white space. -/
theorem skip_mark {gap : Text} {c : Char} (hgap : Blanks gap) (hc : isBlank c = false) (rest : Text) :
    skip (gap ++ c :: rest) = c :: rest := by
  refine skip_append hgap fun d hd => ?_
  obtain rfl : c = d := Option.some.inj hd
  exact hc

theorem Denotes.length_pos {v : Json} (h : Denotes t v) : 0 < t.length := by
  obtain ⟨c, t', rfl, -⟩ := h.head
  simp

theorem DenotesItems.length_pos {vs : List Json} (h : DenotesItems t vs) : 0 < t.length := by
  obtain ⟨c, t', rfl, -⟩ := h.head
  simp

end

mutual

theorem scanOnce_complete {t : Text} {v : Json} (h : Denotes t v) (rest : Text) (fuel : Nat)
    (hfuel : 2 * t.length ≤ fuel) (hrest : v.isNumeral = true → Ends rest) :
    scanOnce fuel (t ++ rest) = .ok (v, rest) := by
  have hpos := h.length_pos
  obtain ⟨fuel, rfl⟩ : ∃ n, fuel = n + 1 := ⟨fuel - 1, by omega⟩
  cases h with
  | literal hl => exact scanOnce_literal hl rest
  | numeral hl hv => exact scanOnce_numeral hl hv (hrest (isNumeral_of_value hv))
  | str hs =>
    rw [List.cons_append, scanOnce, scanString_complete hs]
    rfl
  | noItems hfront =>
    rw [List.cons_append, List.append_assoc, scanOnce]
    rw [show [']'] ++ rest = ']' :: rest from rfl, skip_mark hfront (by decide)]
    rfl
  | items hfront hitems =>
    obtain ⟨hskip, hne⟩ := skip_items hfront hitems rest
    have hread := scanItems_complete hitems rest fuel (by
      simp only [List.length_cons, List.length_append] at hfuel
      omega)
    rw [List.cons_append, List.append_assoc, scanOnce_array (by rwa [hskip]), hskip, hread]
    rfl
  | noMembers hfront =>
    rw [List.cons_append, List.append_assoc, scanOnce]
    rw [show ['\x7d'] ++ rest = '\x7d' :: rest from rfl, skip_mark hfront (by decide)]
    rfl
  | members hfront hmembers =>
    obtain ⟨hskip, hne⟩ := skip_members hfront hmembers rest
    have hread := scanMembers_complete hmembers rest fuel (by
      simp only [List.length_cons, List.length_append] at hfuel
      omega)
    rw [List.cons_append, List.append_assoc, scanOnce_object (by rwa [hskip]), hskip, hread]
    rfl

theorem scanItems_complete {t : Text} {vs : List Json} (h : DenotesItems t vs) (rest : Text) (fuel : Nat)
    (hfuel : 2 * t.length ≤ fuel) : scanItems fuel (t ++ rest) = .ok (vs, rest) := by
  have hpos := h.length_pos
  obtain ⟨fuel, rfl⟩ : ∃ n, fuel = n + 1 := ⟨fuel - 1, by omega⟩
  cases h with
  | @last t gap v hv hgap =>
    simp only [List.length_cons, List.length_append, List.length_nil] at hfuel
    have hends : Ends (gap ++ ']' :: rest) := ends_append hgap (ends_cons (by decide) _)
    have hread := scanOnce_complete hv (gap ++ ']' :: rest) fuel (by omega) fun _ => hends
    have htext : t ++ (gap ++ [']']) ++ rest = t ++ (gap ++ ']' :: rest) := by simp
    rw [htext]
    exact scanItems_last hread (skip_mark hgap (by decide) rest)
  | @cons t gap front text v vs hv hgap hfront hitems =>
    simp only [List.length_cons, List.length_append] at hfuel
    have hends : Ends (gap ++ ',' :: (front ++ (text ++ rest))) := ends_append hgap (ends_cons (by decide) _)
    have hread := scanOnce_complete hv (gap ++ ',' :: (front ++ (text ++ rest))) fuel (by omega)
      fun _ => hends
    have hmore := scanItems_complete hitems rest fuel (by omega)
    have htext : t ++ (gap ++ ',' :: (front ++ text)) ++ rest =
        t ++ (gap ++ ',' :: (front ++ (text ++ rest))) := by simp
    rw [htext, scanItems_cons hread (skip_mark hgap (by decide) _), (skip_items hfront hitems rest).1, hmore]
    rfl

theorem scanMembers_complete {t : Text} {ms : List (Text × Json)} (h : DenotesMembers t ms) (rest : Text)
    (fuel : Nat) (hfuel : 2 * t.length ≤ fuel) : scanMembers fuel (t ++ rest) = .ok (ms, rest) := by
  cases h with
  | @last k key colon front t gap v hkey hcolon hfront hv hgap =>
    simp only [List.length_cons, List.length_append, List.length_nil] at hfuel
    obtain ⟨fuel, rfl⟩ : ∃ n, fuel = n + 1 := ⟨fuel - 1, by omega⟩
    have hends : Ends (gap ++ '\x7d' :: rest) := ends_append hgap (ends_cons (by decide) _)
    have hread := scanOnce_complete hv (gap ++ '\x7d' :: rest) fuel (by omega) fun _ => hends
    rw [← skip_value hfront hv] at hread
    have htext : '"' :: (k ++ (colon ++ ':' :: (front ++ (t ++ (gap ++ ['\x7d']))))) ++ rest =
        '"' :: (k ++ (colon ++ ':' :: (front ++ (t ++ (gap ++ '\x7d' :: rest))))) := by simp
    rw [htext]
    exact scanMembers_last (scanString_complete hkey _) (skip_mark hcolon (by decide) _) hread
      (skip_mark hgap (by decide) _)
  | @cons k key colon front t gap front' text v ms hkey hcolon hfront hv hgap hfront' hmembers =>
    simp only [List.length_cons, List.length_append] at hfuel
    obtain ⟨fuel, rfl⟩ : ∃ n, fuel = n + 1 := ⟨fuel - 1, by omega⟩
    have hends : Ends (gap ++ ',' :: (front' ++ (text ++ rest))) :=
      ends_append hgap (ends_cons (by decide) _)
    have hread := scanOnce_complete hv (gap ++ ',' :: (front' ++ (text ++ rest))) fuel (by omega)
      fun _ => hends
    rw [← skip_value hfront hv] at hread
    have hmore := scanMembers_complete hmembers rest fuel (by omega)
    have htext : '"' :: (k ++ (colon ++ ':' :: (front ++ (t ++ (gap ++ ',' :: (front' ++ text)))))) ++ rest =
        '"' :: (k ++ (colon ++ ':' :: (front ++ (t ++ (gap ++ ',' :: (front' ++ (text ++ rest))))))) := by
      simp
    rw [htext, scanMembers_cons (scanString_complete hkey _) (skip_mark hcolon (by decide) _) hread
      (skip_mark hgap (by decide) _), (skip_members hfront' hmembers rest).1, hmore]
    rfl

end

/-! ## What is read, the grammar derives -/

section

variable {fuel : Nat} {t rest : Text} {v : Json}

theorem scanScalar_sound (h : scanScalar t = .ok (v, rest)) : ∃ front, t = front ++ rest ∧ Denotes front v := by
  unfold scanScalar at h
  split at h
  · rename_i l hl
    obtain ⟨rfl, rfl⟩ := Prod.mk.inj (Except.ok.inj h)
    have hfound : l.1.isPrefixOf t = true := by simpa using List.find?_some hl
    have hprefix := List.isPrefixOf_iff_prefix.mp hfound
    refine ⟨l.1, ?_, .literal (List.mem_of_find?_eq_some hl)⟩
    exact (List.prefix_iff_eq_append.mp hprefix).symm
  · split at h
    · cases h
    · rename_i l rest' hscan
      obtain ⟨v', hv, hr⟩ := Exceptions.map_eq_ok_iff.mp h
      obtain ⟨rfl, rfl⟩ := Prod.mk.inj hr
      obtain ⟨rfl, hl⟩ := scanNumeral_sound hscan
      exact ⟨l.text, rfl, .numeral hl hv⟩

/-- What is read with so many steps, the grammar derives. -/
structure Sound (fuel : Nat) : Prop where
  once : ∀ {t v rest}, scanOnce fuel t = .ok (v, rest) → ∃ front, t = front ++ rest ∧ Denotes front v
  items : ∀ {t vs rest}, scanItems fuel t = .ok (vs, rest) → ∃ front, t = front ++ rest ∧ DenotesItems front vs
  members : ∀ {t ms rest}, scanMembers fuel t = .ok (ms, rest) →
    ∃ front, t = front ++ rest ∧ DenotesMembers front ms

theorem eq_append_skip (t : Text) : ∃ front, Blanks front ∧ t = front ++ skip t :=
  ⟨t.takeWhile isBlank, blanks_takeWhile t, (takeWhile_append_skip t).symm⟩

theorem Sound.once_succ (ih : Sound fuel) (h : scanOnce (fuel + 1) t = .ok (v, rest)) :
    ∃ front, t = front ++ rest ∧ Denotes front v := by
  unfold scanOnce at h
  split at h
  · rename_i t
    obtain ⟨⟨s, rest'⟩, hscan, hr⟩ := Exceptions.map_eq_ok_iff.mp h
    obtain ⟨rfl, rfl⟩ := Prod.mk.inj hr
    obtain ⟨-, body, hbody, hs⟩ := scanString_sound hscan
    exact ⟨'"' :: body, congrArg (List.cons '"') hbody, .str hs⟩
  · rename_i fuel' t hfuel
    obtain rfl : fuel = fuel' := Nat.succ.inj hfuel
    obtain ⟨front, hfront, ht⟩ := eq_append_skip t
    split at h
    · rename_i rest' hskip
      obtain ⟨rfl, rfl⟩ := Prod.mk.inj (Except.ok.inj h)
      refine ⟨'{' :: (front ++ ['\x7d']), ?_, .noMembers hfront⟩
      rw [ht, hskip]
      simp
    · obtain ⟨⟨ms, rest'⟩, hscan, hr⟩ := Exceptions.map_eq_ok_iff.mp h
      obtain ⟨rfl, rfl⟩ := Prod.mk.inj hr
      obtain ⟨text, htext, hms⟩ := ih.members hscan
      refine ⟨'{' :: (front ++ text), ?_, .members hfront hms⟩
      rw [ht, htext]
      simp
  · rename_i fuel' t hfuel
    obtain rfl : fuel = fuel' := Nat.succ.inj hfuel
    obtain ⟨front, hfront, ht⟩ := eq_append_skip t
    split at h
    · rename_i rest' hskip
      obtain ⟨rfl, rfl⟩ := Prod.mk.inj (Except.ok.inj h)
      refine ⟨'[' :: (front ++ [']']), ?_, .noItems hfront⟩
      rw [ht, hskip]
      simp
    · obtain ⟨⟨vs, rest'⟩, hscan, hr⟩ := Exceptions.map_eq_ok_iff.mp h
      obtain ⟨rfl, rfl⟩ := Prod.mk.inj hr
      obtain ⟨text, htext, hvs⟩ := ih.items hscan
      refine ⟨'[' :: (front ++ text), ?_, .items hfront hvs⟩
      rw [ht, htext]
      simp
  · exact scanScalar_sound h
  · cases h

theorem Sound.items_succ {vs : List Json} (ih : Sound fuel) (h : scanItems (fuel + 1) t = .ok (vs, rest)) :
    ∃ front, t = front ++ rest ∧ DenotesItems front vs := by
  unfold scanItems at h
  obtain ⟨⟨v, behind⟩, hv, hmatch⟩ := Exceptions.bind_eq_ok_iff.mp h
  obtain ⟨text, rfl, hdenotes⟩ := ih.once hv
  obtain ⟨gap, hgap, hbehind⟩ := eq_append_skip behind
  dsimp only at hmatch
  split at hmatch
  · rename_i rest' hskip
    obtain ⟨rfl, rfl⟩ := Prod.mk.inj (Except.ok.inj hmatch)
    refine ⟨text ++ (gap ++ [']']), ?_, .last hdenotes hgap⟩
    rw [hbehind, hskip]
    simp
  · rename_i rest' hskip
    obtain ⟨⟨vs', rest''⟩, hscan, hr⟩ := Exceptions.map_eq_ok_iff.mp hmatch
    obtain ⟨rfl, rfl⟩ := Prod.mk.inj hr
    obtain ⟨front, hfront, hrest'⟩ := eq_append_skip rest'
    obtain ⟨more, hmore, hvs⟩ := ih.items hscan
    refine ⟨text ++ (gap ++ ',' :: (front ++ more)), ?_, .cons hdenotes hgap hfront hvs⟩
    rw [hbehind, hskip, hrest', hmore]
    simp
  · cases hmatch

theorem Sound.members_succ {ms : List (Text × Json)} (ih : Sound fuel)
    (h : scanMembers (fuel + 1) t = .ok (ms, rest)) :
    ∃ front, t = front ++ rest ∧ DenotesMembers front ms := by
  unfold scanMembers at h
  split at h
  · rename_i fuel' t hfuel
    obtain rfl : fuel = fuel' := Nat.succ.inj hfuel
    obtain ⟨⟨key, afterKey⟩, hkey, hmatch⟩ := Exceptions.bind_eq_ok_iff.mp h
    obtain ⟨-, k, hk, hstring⟩ := scanString_sound hkey
    obtain rfl : t = k ++ afterKey := hk
    obtain ⟨colon, hcolon, hafterKey⟩ := eq_append_skip afterKey
    dsimp only at hmatch
    split at hmatch
    · rename_i afterColon hskipColon
      obtain ⟨⟨v, behind⟩, hv, hend⟩ := Exceptions.bind_eq_ok_iff.mp hmatch
      obtain ⟨front, hfront, hafterColon⟩ := eq_append_skip afterColon
      obtain ⟨text, htext, hdenotes⟩ := ih.once hv
      obtain ⟨gap, hgap, hbehind⟩ := eq_append_skip behind
      dsimp only at hend
      split at hend
      · rename_i rest' hskip
        obtain ⟨rfl, rfl⟩ := Prod.mk.inj (Except.ok.inj hend)
        refine ⟨'"' :: (k ++ (colon ++ ':' :: (front ++ (text ++ (gap ++ ['\x7d']))))), ?_,
          .last hstring hcolon hfront hdenotes hgap⟩
        rw [hafterKey, hskipColon, hafterColon, htext, hbehind, hskip]
        simp
      · rename_i rest' hskip
        obtain ⟨⟨ms', rest''⟩, hscan, hr⟩ := Exceptions.map_eq_ok_iff.mp hend
        obtain ⟨rfl, rfl⟩ := Prod.mk.inj hr
        obtain ⟨front', hfront', hrest'⟩ := eq_append_skip rest'
        obtain ⟨more, hmore, hms⟩ := ih.members hscan
        refine ⟨'"' :: (k ++ (colon ++ ':' :: (front ++ (text ++ (gap ++ ',' :: (front' ++ more)))))), ?_,
          .cons hstring hcolon hfront hdenotes hgap hfront' hms⟩
        rw [hafterKey, hskipColon, hafterColon, htext, hbehind, hskip, hrest', hmore]
        simp
      · cases hend
    · cases hmatch
  · cases h

theorem sound (fuel : Nat) : Sound fuel := by
  induction fuel with
  | zero =>
    refine { once := fun h => ?_, items := fun h => ?_, members := fun h => ?_ }
    · cases h
    · cases h
    · cases h
  | succ fuel ih =>
    exact { once := fun h => ih.once_succ h, items := fun h => ih.items_succ h,
            members := fun h => ih.members_succ h }

end

/-! ## A value at the front of a text, and a whole text -/

section

variable {t rest : Text} {v : Json}

theorem rawDecode_complete (h : Denotes t v) (hrest : v.isNumeral = true → Ends rest) :
    rawDecode (t ++ rest) = .ok (v, rest) := by
  refine scanOnce_complete h rest _ ?_ hrest
  rw [List.length_append]
  omega

theorem rawDecode_sound (h : rawDecode t = .ok (v, rest)) : ∃ front, t = front ++ rest ∧ Denotes front v :=
  (sound _).once h

theorem loads_complete {front gap : Text} (hfront : Blanks front) (h : Denotes t v) (hgap : Blanks gap) :
    loads (front ++ (t ++ gap)) = .ok v := by
  have hends : Ends gap := by
    rw [← List.append_nil gap]
    exact ends_append hgap fun c hc => nomatch hc
  have hgapSkip : skip gap = [] := by
    rw [← List.append_nil gap]
    exact skip_append hgap fun c hc => nomatch hc
  unfold loads
  rw [skip_value hfront h gap, rawDecode_complete h fun _ => hends]
  exact if_pos hgapSkip

theorem Denotes.loads_eq (h : Denotes t v) : loads t = .ok v := by
  have hread := loads_complete blanks_nil h blanks_nil
  rwa [List.nil_append, List.append_nil] at hread

theorem loads_sound (h : loads t = .ok v) :
    ∃ front text gap, Blanks front ∧ Denotes text v ∧ Blanks gap ∧ t = front ++ (text ++ gap) := by
  unfold loads at h
  obtain ⟨⟨v', rest⟩, hread, h⟩ := Exceptions.bind_eq_ok_iff.mp h
  dsimp only at h
  split_ifs at h with hskip
  obtain rfl := Except.ok.inj h
  obtain ⟨front, hfront, ht⟩ := eq_append_skip t
  obtain ⟨text, htext, hdenotes⟩ := rawDecode_sound hread
  obtain ⟨gap, hgap, hrest⟩ := eq_append_skip rest
  rw [hskip, List.append_nil] at hrest
  subst hrest
  exact ⟨front, text, rest, hfront, hdenotes, hgap, by rw [ht, htext]⟩

/-- A text stands for no more than one value, and for no other one when more follows. -/
theorem Denotes.append_eq {v' : Json} (h : Denotes t v) (hv : v.isNumeral = false)
    (h' : Denotes (t ++ rest) v') : rest = [] ∧ v' = v := by
  have hread : rawDecode (t ++ rest) = .ok (v, rest) := rawDecode_complete h (by simp [hv])
  have hread' : rawDecode (t ++ rest ++ []) = .ok (v', []) :=
    rawDecode_complete h' fun _ c hc => nomatch hc
  rw [List.append_nil, hread] at hread'
  obtain ⟨rfl, rfl⟩ := Prod.mk.inj (Except.ok.inj hread')
  exact ⟨rfl, rfl⟩

end

/-! ## Texts without escapes and white space -/

/-- A text that needs no escapes. -/
theorem stringBody_plain {s : Text} (h : (s.all fun c => c != '"' && c != '\\' && 32 ≤ c.toNat) = true) :
    StringBody (s ++ ['"']) s := by
  induction s with
  | nil => exact .close
  | cons c s ih =>
    obtain ⟨hc, hs⟩ := Bool.and_eq_true_iff.mp h
    simp only [Bool.and_eq_true, bne_iff_ne, ne_eq, decide_eq_true_eq] at hc
    exact .plain hc.1.1 hc.1.2 hc.2 (ih hs)

/-- A member without white space. -/
theorem denotesMembers_cons (key : Text) {t rest : Text} {v : Json} {ms : List (Text × Json)}
    (hkey : (key.all fun c => c != '"' && c != '\\' && 32 ≤ c.toNat) = true) (hv : Denotes t v)
    (h : DenotesMembers rest ms) :
    DenotesMembers ('"' :: (key ++ ('"' :: ':' :: (t ++ ',' :: rest)))) ((key, v) :: ms) := by
  have hmembers := DenotesMembers.cons (stringBody_plain hkey) blanks_nil blanks_nil hv blanks_nil blanks_nil h
  simpa using hmembers

theorem denotesMembers_last (key : Text) {t : Text} {v : Json}
    (hkey : (key.all fun c => c != '"' && c != '\\' && 32 ≤ c.toNat) = true) (hv : Denotes t v) :
    DenotesMembers ('"' :: (key ++ ('"' :: ':' :: (t ++ ['\x7d'])))) [(key, v)] := by
  have hmembers := DenotesMembers.last (stringBody_plain hkey) blanks_nil blanks_nil hv blanks_nil
  simpa using hmembers

theorem denotes_str (s : Text) (h : (s.all fun c => c != '"' && c != '\\' && 32 ≤ c.toNat) = true) :
    Denotes ('"' :: (s ++ ['"'])) (.str s) := .str (stringBody_plain h)

theorem denotes_one : Denotes "1".toList (.int 1) :=
  .numeral (l := { negative := false, whole := "1".toList, fraction := [], exponent := none })
    { nonempty := nofun, whole := .inr ⟨rfl, by decide⟩, fraction := rfl, exponent := nofun } rfl

end Json
