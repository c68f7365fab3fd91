import SovaVerified.Json.Decoding

/-!
# Untyped values

What a program does with a value that it has read: to ask for its truth, to look up a key, to use it as a
text, and to go through a list. A value that does not have the method that is called raises an
`AttributeError`.
-/

namespace Json

def attributeError : PyException := .other "AttributeError".toList

/-- `bool(value)`. -/
def truthy : Json → Bool
  | .null => false
  | .bool b => b
  | .int n => n ≠ 0
  | .float (.finite units) => units ≠ 0
  | .float _ => true
  | .str t => !t.isEmpty
  | .arr items => !items.isEmpty
  | .obj members => !members.isEmpty

def IsText (v : Json) : Prop := ∃ t, v = .str t

def IsObject (v : Json) : Prop := ∃ members, v = .obj members

/-- What an object has for a key, or the default. -/
def item (v : Json) (key : Text) (default : Json) : Json :=
  match v with
  | .obj members => (Assoc.get members key).getD default
  | _ => default

/-- `value.get(key, default)`. -/
def getItem (v : Json) (key : Text) (default : Json) : Except PyException Json :=
  match v with
  | .obj _ => .ok (v.item key default)
  | _ => .error attributeError

/-- The text whose method is called. -/
def asText : Json → Except PyException Text
  | .str t => .ok t
  | _ => .error attributeError

theorem truthy_str {t : Text} (h : t ≠ []) : truthy (.str t) = true := by
  cases t with
  | nil => exact absurd rfl h
  | cons c t => rfl

theorem getItem_eq_ok_iff {v w default : Json} {key : Text} :
    getItem v key default = .ok w ↔ v.IsObject ∧ v.item key default = w := by
  cases v with
  | obj members =>
    refine ⟨fun h => ⟨⟨members, rfl⟩, Except.ok.inj h⟩, ?_⟩
    rintro ⟨-, rfl⟩
    rfl
  | _ =>
    refine ⟨(fun h => nomatch h), ?_⟩
    rintro ⟨⟨members, h⟩, -⟩
    cases h

theorem getItem_of_isObject {v default : Json} {key : Text} (h : v.IsObject) :
    getItem v key default = .ok (v.item key default) := getItem_eq_ok_iff.mpr ⟨h, rfl⟩

/-- What is found does not depend on the default. -/
theorem item_eq {v w default : Json} {key : Text} (default' : Json) (h : v.item key default = w)
    (hw : w ≠ default) :
    v.IsObject ∧ v.item key default' = w := by
  cases v with
  | obj members =>
    refine ⟨⟨members, rfl⟩, ?_⟩
    unfold item at h ⊢
    dsimp only at h ⊢
    cases hget : Assoc.get members key with
    | none =>
      rw [hget] at h
      exact absurd h.symm hw
    | some x =>
      rw [hget] at h
      exact h
  | _ => exact absurd h.symm hw

/-- A key that is missing, or that has nothing. -/
theorem item_of_null {v : Json} {key : Text} (default : Json) (h : v.item key .null = .null) :
    v.item key default = default ∨ v.item key default = .null := by
  cases v with
  | obj members =>
    have hlookup : (Assoc.get members key).getD .null = .null := h
    show (Assoc.get members key).getD default = default ∨ (Assoc.get members key).getD default = .null
    generalize Assoc.get members key = found at hlookup ⊢
    cases found with
    | none => exact .inl rfl
    | some x => exact .inr hlookup
  | _ => exact .inl rfl

theorem asText_eq_ok_iff {v : Json} {t : Text} : asText v = .ok t ↔ v = .str t := by
  cases v with
  | str s => exact ⟨fun h => congrArg Json.str (Except.ok.inj h), fun h => by rw [Json.str.inj h]; rfl⟩
  | _ => exact ⟨(fun h => nomatch h), (fun h => nomatch h)⟩

/-! ## Lists -/

section

variable {ρ : Type} {entry : Json → Except PyException (Option ρ)} {items : List Json} {r : Json} {x : ρ}

/-- A loop over a list that appends what it makes of some of the items. -/
def collect (entry : Json → Except PyException (Option ρ)) : List Json → Except PyException (List ρ)
  | [] => .ok []
  | r :: items => do
    let x ← entry r
    let xs ← collect entry items
    pure (x.toList ++ xs)

theorem returns_collect_iff :
    Exceptions.Returns (collect entry items) ↔ ∀ r ∈ items, Exceptions.Returns (entry r) := by
  induction items with
  | nil => exact iff_of_true ⟨[], rfl⟩ fun r h => absurd h List.not_mem_nil
  | cons r items ih =>
    rw [collect, Exceptions.returns_bind_iff, List.forall_mem_cons, ← ih]
    constructor
    · rintro ⟨x, hx, hrest⟩
      obtain ⟨xs, hxs, -⟩ := Exceptions.returns_bind_iff.mp hrest
      exact ⟨⟨x, hx⟩, xs, hxs⟩
    · rintro ⟨⟨x, hx⟩, xs, hxs⟩
      exact ⟨x, hx, Exceptions.returns_bind_iff.mpr ⟨xs, hxs, _, rfl⟩⟩

/-- What the loop makes of an item is in the list. -/
theorem mem_of_collect {xs : List ρ} (h : collect entry items = .ok xs) (hr : r ∈ items)
    (hx : entry r = .ok (some x)) : x ∈ xs := by
  induction items generalizing xs with
  | nil => exact absurd hr List.not_mem_nil
  | cons r' items ih =>
    obtain ⟨x', hx', hrest⟩ := Exceptions.bind_eq_ok_iff.mp h
    obtain ⟨xs', hxs', hpure⟩ := Exceptions.bind_eq_ok_iff.mp hrest
    obtain rfl := Except.ok.inj hpure
    rcases List.mem_cons.mp hr with rfl | hmem
    · obtain rfl := Except.ok.inj (hx.symm.trans hx')
      exact List.mem_append_left _ List.mem_cons_self
    · exact List.mem_append_right _ (ih hxs' hmem)

/-- `json.loads` of a text that is to hold a list; what cannot be read and what is no list counts as an empty
one. -/
def loadsList (t : Text) : Except PyException (List Json) :=
  match loads t with
  | .ok (.arr items) => .ok items
  | .ok _ => .ok []
  | .error e => if e = decodeError then .ok [] else .error e

end

end Json
