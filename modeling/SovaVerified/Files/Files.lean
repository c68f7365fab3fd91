import Mathlib.Logic.Function.Basic
import Mathlib.Data.Set.Function
import Mathlib.Logic.Relation
import SovaVerified.Text.Text

/-!
# Trees of files with symbolic links

A tree gives the node at each place. A link leads to another place, and a chain of links is followed up to a
limit. What a place looks like depends on the places on its chain only (`follow_congr`); a set of places is
`Apart` when none of them lies on the chain of another.
-/

namespace Files

variable {π ι : Type*}

/-- The node at a place. The text of a file is `none` when it cannot be read or decoded. -/
inductive FileNode (π : Type*) where
  | absent
  | file (text : Option Text)
  | directory
  | link (target : π)
  deriving DecidableEq

abbrev FileTree (π : Type*) := π → FileNode π

/-- The number of links that a chain may have. -/
def maxLinks : Nat := 40

/-- The node at the end of a chain of at most so many links; a longer chain leads nowhere. -/
def followUpTo (t : FileTree π) : Nat → π → FileNode π
  | 0, p =>
    match t p with
    | .link _ => .absent
    | node => node
  | k + 1, p =>
    match t p with
    | .link q => followUpTo t k q
    | node => node

def follow (t : FileTree π) (p : π) : FileNode π := followUpTo t maxLinks p

/-- The node is a file. -/
def FileNode.isFile : FileNode π → Bool
  | .file _ => true
  | _ => false

/-- The text of a file as a reader in text mode gets it. -/
def FileNode.readText : FileNode π → Option Text
  | .file text => text.map Text.universalNewlines
  | _ => none

/-- `q` lies on the chain of `p`. -/
def Leads (t : FileTree π) (p q : π) : Prop := Relation.ReflTransGen (fun a b => t a = .link b) p q

/-- No place of the family lies on the chain of another one. -/
def Apart (t : FileTree π) (place : ι → π) (s : Set ι) : Prop :=
  ∀ i ∈ s, ∀ j ∈ s, Leads t (place i) (place j) → i = j

variable {t t' : FileTree π} {p q : π} {place : ι → π} {s : Set ι} {i : ι}

theorem followUpTo_congr (k : Nat) (h : ∀ q, Leads t p q → t' q = t q) : followUpTo t' k p = followUpTo t k p := by
  have hself : t' p = t p := h p .refl
  induction k generalizing p with
  | zero =>
    unfold followUpTo
    rw [hself]
  | succ k ih =>
    unfold followUpTo
    rw [hself]
    split
    next q hlink =>
      have hnext : ∀ r, Leads t q r → t' r = t r := fun r hr => h r (Relation.ReflTransGen.head hlink hr)
      exact ih hnext (hnext q .refl)
    next => rfl

/-- What a place looks like depends on its chain only. -/
theorem follow_congr (h : ∀ q, Leads t p q → t' q = t q) : follow t' p = follow t p :=
  followUpTo_congr maxLinks h

/-- Where a change makes no link, chains get no longer. -/
theorem Leads.of_change (hp : ∀ q, t' p ≠ .link q) (hother : ∀ q, q ≠ p → t' q = t q) {a b : π}
    (h : Leads t' a b) : Leads t a b := by
  refine Relation.ReflTransGen.mono (fun c d hcd => ?_) _ _ h
  by_cases hc : c = p
  · exact absurd (hc ▸ hcd) (hp d)
  · rw [← hother c hc]
    exact hcd

theorem Apart.of_change (h : Apart t place s) (hp : (∀ q, t' p ≠ .link q) ∨ t' p = t p)
    (hother : ∀ q, q ≠ p → t' q = t q) : Apart t' place s := by
  intro i hi j hj hleads
  refine h i hi j hj ?_
  rcases hp with hp | hp
  · exact hleads.of_change hp hother
  · have htree : t' = t := by
      funext q
      by_cases hq : q = p
      · rw [hq, hp]
      · exact hother q hq
    exact htree ▸ hleads

/-- A change at the place of one member of the family is not seen from the places of the others. -/
theorem Apart.follow_other (h : Apart t place s) {j : ι} (hi : i ∈ s) (hj : j ∈ s) (hne : j ≠ i)
    (hother : ∀ q, q ≠ place i → t' q = t q) : follow t' (place j) = follow t (place j) := by
  refine follow_congr fun q hq => ?_
  by_cases heq : q = place i
  · subst heq
    exact absurd (h j hj i hi hq) hne
  · exact hother q heq

/-- Without links, places that differ are apart. -/
theorem apart_of_no_link (h : ∀ p q, t p ≠ .link q) (hinj : Set.InjOn place s) : Apart t place s := by
  intro i hi j hj hleads
  rcases Relation.ReflTransGen.cases_head hleads with heq | ⟨q, hlink, -⟩
  · exact hinj hi hj heq
  · exact absurd hlink (h _ q)

end Files
