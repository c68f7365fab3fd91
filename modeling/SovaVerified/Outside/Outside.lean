import Mathlib.Algebra.BigOperators.Group.List.Basic
import Mathlib.Tactic.Common
import Mathlib.Tactic.Ring

/-!
# Programs that ask the outside

A program asks an outside that it does not control: a service, a clock, another process. The outside is a
state of any type and answers each question as it likes, also by raising an error. A session keeps that
state and the answers that the program has read, the newest first.

`Ensures` is the rule for what holds when a program returns. It says nothing about a program that raises.
-/

namespace Outside

/-- The state of the outside, and what the program has read of it. -/
structure Session (ω ρ : Type) where
  world : ω
  reads : List ρ := []

/-- A program that returns a value or raises an error, after some reads. -/
def Prog (ω ρ ε α : Type) : Type := Session ω ρ → Except ε α × Session ω ρ

variable {ω ρ ε α β : Type}

instance : Monad (Prog ω ρ ε) where
  pure a := fun s => (.ok a, s)
  bind p f := fun s =>
    match p s with
    | (.ok a, s') => f a s'
    | (.error e, s') => (.error e, s')

/-- A question to the outside. An answer is read; an error is raised. -/
def ask (question : ω → Except ε α × ω) (read : α → ρ) : Prog ω ρ ε α := fun s =>
  match question s.world with
  | (.ok a, w) => (.ok a, { world := w, reads := read a :: s.reads })
  | (.error e, w) => (.error e, { s with world := w })

/-- The errors that are handled become values, like what is returned; the others are raised on. -/
def trying (p : Prog ω ρ ε α) (returned : α → β) (handler : ε → Option β) : Prog ω ρ ε β := fun s =>
  match p s with
  | (.ok a, s') => (.ok (returned a), s')
  | (.error e, s') =>
    match handler e with
    | some b => (.ok b, s')
    | none => (.error e, s')

/-- Whenever the program returns, the value and the session after it are as `Q` says. -/
def Ensures (p : Prog ω ρ ε α) (s : Session ω ρ) (Q : α → Session ω ρ → Prop) : Prop :=
  ∀ a s', p s = (.ok a, s') → Q a s'

variable {s : Session ω ρ} {Q : α → Session ω ρ → Prop}

theorem ensures_pure {a : α} (h : Q a s) : Ensures (pure a : Prog ω ρ ε α) s Q := by
  intro a' s' heq
  cases heq
  exact h

/-- A program that returns goes on with the value. -/
theorem bind_ok {p : Prog ω ρ ε α} {f : α → Prog ω ρ ε β} (a : α) (s' : Session ω ρ)
    (h : p s = (.ok a, s')) : (p >>= f) s = f a s' := by
  show (match p s with
    | (.ok a, s') => f a s'
    | (.error e, s') => (.error e, s')) = f a s'
  rw [h]

theorem ensures_bind {p : Prog ω ρ ε α} {f : α → Prog ω ρ ε β} {R : β → Session ω ρ → Prop}
    (h : Ensures p s fun a s' => Ensures (f a) s' R) : Ensures (p >>= f) s R := by
  intro b s' heq
  cases hp : p s with
  | mk outcome s₁ =>
    have hbind : (p >>= f) s = match (outcome, s₁) with
        | (.ok a, s') => f a s'
        | (.error e, s') => (.error e, s') := by
      rw [← hp]
      rfl
    rw [hbind] at heq
    cases outcome with
    | ok a => exact h a s₁ hp b s' heq
    | error e => cases heq

theorem Ensures.mono {p : Prog ω ρ ε α} {R : α → Session ω ρ → Prop} (h : Ensures p s Q)
    (hQR : ∀ a s', Q a s' → R a s') : Ensures p s R :=
  fun a s' heq => hQR a s' (h a s' heq)

/-- What is read by a question that is answered. -/
theorem ensures_ask {question : ω → Except ε α × ω} {read : α → ρ}
    (h : ∀ a w, Q a { world := w, reads := read a :: s.reads }) : Ensures (ask question read) s Q := by
  intro a s' heq
  unfold ask at heq
  cases hq : question s.world with
  | mk answer w =>
    rw [hq] at heq
    cases answer with
    | ok a' =>
      cases heq
      exact h a w
    | error e => cases heq

/-- A question whose errors are handled: it is answered, or nothing is read. -/
theorem ensures_trying_ask {question : ω → Except ε α × ω} {read : α → ρ} {returned : α → β}
    {handler : ε → Option β} {R : β → Session ω ρ → Prop}
    (hanswer : ∀ a w, question s.world = (.ok a, w) →
      R (returned a) { world := w, reads := read a :: s.reads })
    (herror : ∀ e b w, handler e = some b → R b { world := w, reads := s.reads }) :
    Ensures (trying (ask question read) returned handler) s R := by
  intro b s' heq
  unfold trying ask at heq
  cases hq : question s.world with
  | mk answer w =>
    rw [hq] at heq
    cases answer with
    | ok a =>
      cases heq
      exact hanswer a w hq
    | error e =>
      dsimp only at heq
      cases hhandler : handler e with
      | none =>
        rw [hhandler] at heq
        cases heq
      | some b' =>
        rw [hhandler] at heq
        cases heq
        exact herror e b w hhandler

end Outside

/-!
# What a program did before it raised

A program that drives the outside leaves a trace there whether it returns or raises. Here every step that
matters is written down, with its answer or its error, and three rules speak about all runs: `Emits` about
what a program writes down, whatever was written before, `Yields` about what it writes down on the way to an
outcome, and `Always` about what holds of the whole record at the end, by an invariant for the runs that
raise and a postcondition for those that return.
-/

namespace Outside

variable {ω ρ ε α β : Type}

/-- A question that is not written down. -/
def act (question : ω → Except ε α × ω) : Prog ω ρ ε α := fun s =>
  ((question s.world).1, { s with world := (question s.world).2 })

/-- A question that is written down with what came of it. -/
def perform (question : ω → Except ε α × ω) (entry : Except ε α → ρ) : Prog ω ρ ε α := fun s =>
  ((question s.world).1,
    { world := (question s.world).2, reads := entry (question s.world).1 :: s.reads })

/-- An `except` clause for every error: how the program ends is a value. -/
def caught (p : Prog ω ρ ε α) : Prog ω ρ ε (Except ε α) := trying p .ok fun e => some (.error e)

/-- Something is written down. -/
def note (entry : ρ) : Prog ω ρ ε Unit := fun s => (.ok (), { s with reads := entry :: s.reads })

def raise (e : ε) : Prog ω ρ ε α := fun s => (.error e, s)

/-- An `except` clause with a block of its own: what this raises is not handled. -/
def rescue (p : Prog ω ρ ε α) (handler : ε → Option (Prog ω ρ ε α)) : Prog ω ρ ε α := fun s =>
  match p s with
  | (.ok a, s') => (.ok a, s')
  | (.error e, s') =>
    match handler e with
    | some block => block s'
    | none => (.error e, s')

/-- A `finally` clause: it is run in any case, and what it raises takes the place of what came before. -/
def ensuring (p : Prog ω ρ ε α) (cleanup : Prog ω ρ ε Unit) : Prog ω ρ ε α := fun s =>
  match p s with
  | (outcome, s') =>
    match cleanup s' with
    | (.ok _, s'') => (outcome, s'')
    | (.error e, s'') => (.error e, s'')

/-- Every program is run, and then the first error is raised. -/
def gather : List (Prog ω ρ ε α) → Prog ω ρ ε (List α)
  | [] => pure []
  | p :: ps => fun s =>
    let first := p s
    let rest := gather ps first.2
    (do return (← first.1) :: (← rest.1), rest.2)

/-! ## What is written down -/

/-- Every run of the program adds entries as `Q` says, the newest first. -/
def Emits (p : Prog ω ρ ε α) (Q : List ρ → Prop) : Prop :=
  ∀ s, ∃ es, (p s).2.reads = es ++ s.reads ∧ Q es

variable {Q R : List ρ → Prop} {p : Prog ω ρ ε α} {f : α → Prog ω ρ ε β}

theorem Emits.mono (h : Emits p Q) (hQR : ∀ es, Q es → R es) : Emits p R := by
  intro s
  obtain ⟨es, hreads, hes⟩ := h s
  exact ⟨es, hreads, hQR es hes⟩

theorem emits_pure {a : α} (h : Q []) : Emits (pure a : Prog ω ρ ε α) Q := fun _ => ⟨[], rfl, h⟩

theorem emits_raise {e : ε} (h : Q []) : Emits (raise e : Prog ω ρ ε α) Q := fun _ => ⟨[], rfl, h⟩

theorem emits_act {question : ω → Except ε α × ω} (h : Q []) : Emits (act question) Q :=
  fun _ => ⟨[], rfl, h⟩

theorem emits_note {entry : ρ} (h : Q [entry]) : Emits (note entry : Prog ω ρ ε Unit) Q :=
  fun _ => ⟨[entry], rfl, h⟩

theorem emits_perform {question : ω → Except ε α × ω} {entry : Except ε α → ρ}
    (h : ∀ answer, Q [entry answer]) : Emits (perform question entry) Q :=
  fun _ => ⟨[_], rfl, h _⟩

/-- A run of a block: its first program raises, or the rest goes on from where it has come. -/
theorem bind_cases (p : Prog ω ρ ε α) (f : α → Prog ω ρ ε β) (s : Session ω ρ) :
    (∃ e s', p s = (.error e, s') ∧ (p >>= f) s = (.error e, s')) ∨
      ∃ a s', p s = (.ok a, s') ∧ (p >>= f) s = f a s' := by
  have hbind : (p >>= f) s = match p s with
      | (.ok a, s') => f a s'
      | (.error e, s') => (.error e, s') := rfl
  rcases hp : p s with ⟨outcome, s'⟩
  rw [hp] at hbind
  cases outcome with
  | error e => exact .inl ⟨e, s', rfl, hbind⟩
  | ok a => exact .inr ⟨a, s', rfl, hbind⟩

/-- What a block writes down, when `T` holds of what its first program writes down alone (it may raise)
and of what both write down. -/
theorem emits_bind {T : List ρ → Prop} (hp : Emits p Q) (hf : ∀ a, Emits (f a) R)
    (hraise : ∀ xs, Q xs → T xs) (hboth : ∀ xs ys, Q xs → R ys → T (ys ++ xs)) :
    Emits (p >>= f) T := by
  intro s
  obtain ⟨xs, hxs, hQ⟩ := hp s
  rcases bind_cases p f s with ⟨e, s', hps, hbind⟩ | ⟨a, s', hps, hbind⟩
  · rw [hps] at hxs
    exact ⟨xs, by rw [hbind]; exact hxs, hraise xs hQ⟩
  · rw [hps] at hxs
    obtain ⟨ys, hys, hR⟩ := hf a s'
    refine ⟨ys ++ xs, ?_, hboth xs ys hQ hR⟩
    rw [hbind, hys, hxs, List.append_assoc]

theorem emits_trying {returned : α → β} {handler : ε → Option β} (h : Emits p Q) :
    Emits (trying p returned handler) Q := by
  intro s
  obtain ⟨es, hreads, hes⟩ := h s
  refine ⟨es, ?_, hes⟩
  rw [← hreads]
  unfold trying
  rcases hp : p s with ⟨outcome, s'⟩
  cases outcome with
  | ok a => rfl
  | error e =>
    dsimp only
    cases handler e with
    | none => rfl
    | some b => rfl

/-! ## What is written down on the way to an outcome -/

/-- Every run of the program comes to an outcome and adds entries that fit it as `Q` says, the newest
first. -/
def Yields (p : Prog ω ρ ε α) (Q : Except ε α → List ρ → Prop) : Prop :=
  ∀ s, ∃ es, (p s).2.reads = es ++ s.reads ∧ Q (p s).1 es

section

variable {Q : Except ε α → List ρ → Prop} {T : Except ε β → List ρ → Prop}

theorem Yields.mono {Q' : Except ε α → List ρ → Prop} (h : Yields p Q)
    (hQ : ∀ outcome es, Q outcome es → Q' outcome es) : Yields p Q' := by
  intro s
  obtain ⟨es, hreads, hes⟩ := h s
  exact ⟨es, hreads, hQ _ es hes⟩

theorem yields_pure {a : α} (h : Q (.ok a) []) : Yields (pure a : Prog ω ρ ε α) Q :=
  fun _ => ⟨[], rfl, h⟩

theorem yields_raise {e : ε} (h : Q (.error e) []) : Yields (raise e : Prog ω ρ ε α) Q :=
  fun _ => ⟨[], rfl, h⟩

theorem yields_perform {question : ω → Except ε α × ω} {entry : Except ε α → ρ}
    (h : ∀ answer, Q answer [entry answer]) : Yields (perform question entry) Q :=
  fun _ => ⟨[_], rfl, h _⟩

/-- The outcome of a block, when `R` fits what its rest comes to after the value of its first program. -/
theorem yields_bind {R : α → Except ε β → List ρ → Prop} (hp : Yields p Q) (hf : ∀ a, Yields (f a) (R a))
    (hraise : ∀ e xs, Q (.error e) xs → T (.error e) xs)
    (hboth : ∀ a xs outcome ys, Q (.ok a) xs → R a outcome ys → T outcome (ys ++ xs)) :
    Yields (p >>= f) T := by
  intro s
  obtain ⟨xs, hxs, hQ⟩ := hp s
  rcases bind_cases p f s with ⟨e, s', hps, hbind⟩ | ⟨a, s', hps, hbind⟩
  · rw [hps] at hxs hQ
    rw [hbind]
    exact ⟨xs, hxs, hraise e xs hQ⟩
  · rw [hps] at hxs hQ
    obtain ⟨ys, hys, hR⟩ := hf a s'
    rw [hbind]
    refine ⟨ys ++ xs, ?_, hboth a xs _ ys hQ hR⟩
    rw [hys, hxs, List.append_assoc]

/-- The outcome of a block whose rest is told by what its first program has written down. -/
theorem Yields.bind (hp : Yields p Q) (hraise : ∀ e xs, Q (.error e) xs → T (.error e) xs)
    (hf : ∀ a xs, Q (.ok a) xs → Yields (f a) fun outcome ys => T outcome (ys ++ xs)) :
    Yields (p >>= f) T := by
  intro s
  obtain ⟨xs, hxs, hQ⟩ := hp s
  rcases bind_cases p f s with ⟨e, s', hps, hbind⟩ | ⟨a, s', hps, hbind⟩
  · rw [hps] at hxs hQ
    rw [hbind]
    exact ⟨xs, hxs, hraise e xs hQ⟩
  · rw [hps] at hxs hQ
    obtain ⟨ys, hys, hT⟩ := hf a xs hQ s'
    rw [hbind]
    refine ⟨ys ++ xs, ?_, hT⟩
    rw [hys, hxs, List.append_assoc]

theorem yields_trying {returned : α → β} {handler : ε → Option β} (hp : Yields p Q)
    (hreturn : ∀ a es, Q (.ok a) es → T (.ok (returned a)) es)
    (hraise : ∀ e es, Q (.error e) es → T ((handler e).elim (.error e) .ok) es) :
    Yields (trying p returned handler) T := by
  intro s
  obtain ⟨es, hreads, hQ⟩ := hp s
  refine ⟨es, ?_⟩
  unfold trying
  rcases hps : p s with ⟨outcome, s'⟩
  rw [hps] at hreads hQ
  cases outcome with
  | ok a => exact ⟨hreads, hreturn a es hQ⟩
  | error e =>
    have hT := hraise e es hQ
    dsimp only
    cases hhandler : handler e with
    | none =>
      rw [hhandler] at hT
      exact ⟨hreads, hT⟩
    | some b =>
      rw [hhandler] at hT
      exact ⟨hreads, hT⟩

theorem yields_caught (hp : Yields p Q) :
    Yields (caught p) fun outcome es => ∃ answer, outcome = .ok answer ∧ Q answer es :=
  yields_trying hp (fun a _ h => ⟨.ok a, rfl, h⟩) fun e _ h => ⟨.error e, rfl, h⟩

theorem yields_rescue {handler : ε → Option (Prog ω ρ ε α)} {R : ε → Except ε α → List ρ → Prop}
    {T : Except ε α → List ρ → Prop} (hp : Yields p Q)
    (hhandler : ∀ e block, handler e = some block → Yields block (R e))
    (hreturn : ∀ a es, Q (.ok a) es → T (.ok a) es)
    (hraise : ∀ e es, handler e = none → Q (.error e) es → T (.error e) es)
    (hrescued : ∀ e xs outcome ys, Q (.error e) xs → R e outcome ys → T outcome (ys ++ xs)) :
    Yields (rescue p handler) T := by
  intro s
  obtain ⟨xs, hxs, hQ⟩ := hp s
  unfold rescue
  rcases hps : p s with ⟨outcome, s'⟩
  rw [hps] at hxs hQ
  cases outcome with
  | ok a => exact ⟨xs, hxs, hreturn a xs hQ⟩
  | error e =>
    dsimp only
    cases hblock : handler e with
    | none => exact ⟨xs, hxs, hraise e xs hblock hQ⟩
    | some block =>
      obtain ⟨ys, hys, hR⟩ := hhandler e block hblock s'
      refine ⟨ys ++ xs, ?_, hrescued e xs _ ys hQ hR⟩
      dsimp only
      rw [hys, hxs, List.append_assoc]

/-- A clean-up that writes nothing down. -/
theorem emits_ensuring {cleanup : Prog ω ρ ε Unit} {Q : List ρ → Prop} (hp : Emits p Q)
    (hcleanup : Emits cleanup fun es => es = []) : Emits (ensuring p cleanup) Q := by
  intro s
  obtain ⟨xs, hxs, hQ⟩ := hp s
  obtain ⟨ys, hys, hnil⟩ := hcleanup (p s).2
  refine ⟨xs, ?_, hQ⟩
  rw [hnil, List.nil_append, hxs] at hys
  rw [← hys]
  unfold ensuring
  dsimp only
  rcases cleanup (p s).2 with ⟨outcome, s''⟩
  cases outcome with
  | ok _ => rfl
  | error e => rfl

/-- A program that writes nothing down and returns what `P` says. -/
def Quiet (p : Prog ω ρ ε α) (P : α → Prop) : Prop :=
  Yields p fun outcome es => es = [] ∧ ∃ a, outcome = .ok a ∧ P a

theorem quiet_pure {a : α} {P : α → Prop} (h : P a) : Quiet (pure a : Prog ω ρ ε α) P :=
  yields_pure ⟨rfl, a, rfl, h⟩

/-- A block whose first program is quiet. -/
theorem Quiet.bind {P : α → Prop} (hp : Quiet p P) (hf : ∀ a, P a → Yields (f a) T) :
    Yields (p >>= f) T := by
  intro s
  obtain ⟨es, hreads, hes, a, ha, hPa⟩ := hp s
  rcases bind_cases p f s with ⟨e, s', hps, -⟩ | ⟨a', s', hps, hbind⟩
  · rw [hps] at ha
    cases ha
  · rw [hps] at ha hreads
    obtain rfl := Except.ok.inj ha
    obtain ⟨ys, hys, hT⟩ := hf a' hPa s'
    rw [hbind]
    refine ⟨ys, ?_, hT⟩
    rw [hys, hreads, hes, List.nil_append]

theorem Yields.emits {R : List ρ → Prop} (h : Yields p Q) (hR : ∀ outcome es, Q outcome es → R es) :
    Emits p R := by
  intro s
  obtain ⟨es, hreads, hes⟩ := h s
  exact ⟨es, hreads, hR _ es hes⟩

end

/-! ## Errors on record -/

/-- A run that returns has no error on record; one that raises has its error there, and last. -/
def Told (raised : ρ → Option ε) : Except ε α → List ρ → Prop
  | .ok _, es => ∀ x ∈ es, raised x = none
  | .error e, es => ∃ x rest, es = x :: rest ∧ raised x = some e ∧ ∀ y ∈ rest, raised y = none

section

variable {raised : ρ → Option ε} {xs ys : List ρ}

theorem Told.append {a : α} {outcome : Except ε β} (hx : Told raised (.ok a : Except ε α) xs)
    (hy : Told raised outcome ys) : Told raised outcome (ys ++ xs) := by
  cases outcome with
  | ok b =>
    intro y hmem
    rcases List.mem_append.mp hmem with h | h
    · exact hy y h
    · exact hx y h
  | error e =>
    obtain ⟨y, rest, rfl, hraised, hrest⟩ := hy
    refine ⟨y, rest ++ xs, rfl, hraised, fun z hz => ?_⟩
    rcases List.mem_append.mp hz with h | h
    · exact hrest z h
    · exact hx z h

end

/-! ## Records within records -/

/-- A program with a record of its own, every entry of which is written down under a label. -/
def labelled {ρ' : Type} (label : ρ → ρ') (p : Prog ω ρ ε α) : Prog ω ρ' ε α := fun s =>
  let inner := p { world := s.world }
  (inner.1, { world := inner.2.world, reads := inner.2.reads.map label ++ s.reads })

theorem emits_labelled {ρ' : Type} {label : ρ → ρ'} :
    Emits (labelled label p) fun es => ∃ inner : List ρ, es = inner.map label :=
  fun s => ⟨_, rfl, (p { world := s.world }).2.reads, rfl⟩

theorem yields_labelled {ρ' : Type} {label : ρ → ρ'} {Q : Except ε α → List ρ → Prop} (h : Yields p Q) :
    Yields (labelled label p) fun outcome es => ∃ xs, es = xs.map label ∧ Q outcome xs := by
  intro s
  obtain ⟨xs, hreads, hQ⟩ := h { world := s.world }
  refine ⟨xs.map label, ?_, xs, rfl, hQ⟩
  show (p { world := s.world }).2.reads.map label ++ s.reads = _
  rw [hreads, List.append_nil]

/-! ## What is spent -/

/-- The entries that a run of the program adds weigh at most `n` together. -/
def Spends (w : ρ → ℤ) (p : Prog ω ρ ε α) (n : ℤ) : Prop := Emits p fun es => (es.map w).sum ≤ n

variable {w : ρ → ℤ} {n m : ℤ}

theorem Spends.mono (h : Spends w p n) (hnm : n ≤ m) : Spends w p m :=
  Emits.mono h fun _ hes => hes.trans hnm

theorem spends_pure {a : α} (h : 0 ≤ n) : Spends w (pure a : Prog ω ρ ε α) n := emits_pure h

theorem spends_raise {e : ε} (h : 0 ≤ n) : Spends w (raise e : Prog ω ρ ε α) n := emits_raise h

theorem spends_act {question : ω → Except ε α × ω} (h : 0 ≤ n) : Spends w (act question) n :=
  emits_act h

theorem spends_note {entry : ρ} (h : w entry ≤ n) : Spends w (note entry : Prog ω ρ ε Unit) n :=
  emits_note (by simpa using h)

theorem spends_perform {question : ω → Except ε α × ω} {entry : Except ε α → ρ}
    (h : ∀ answer, w (entry answer) ≤ n) : Spends w (perform question entry) n :=
  emits_perform fun answer => by simpa using h answer

theorem spends_trying {returned : α → β} {handler : ε → Option β} (h : Spends w p n) :
    Spends w (trying p returned handler) n :=
  emits_trying h

/-- What the rest of a block spends is not negative, as its first program may raise. -/
theorem spends_bind (hp : Spends w p n) (hf : ∀ a, Spends w (f a) m) (hm : 0 ≤ m) :
    Spends w (p >>= f) (n + m) := by
  refine emits_bind hp hf (fun xs hxs => by omega) ?_
  intro xs ys hxs hys
  rw [List.map_append, List.sum_append]
  omega

/-- A block the rest of which spends nothing. -/
theorem spends_first (hp : Spends w p n) (hf : ∀ a, Spends w (f a) 0) : Spends w (p >>= f) n :=
  (spends_bind hp hf (le_refl 0)).mono (by omega)

/-- A block whose first program spends nothing. -/
theorem spends_rest (hp : Spends w p 0) (hf : ∀ a, Spends w (f a) n) (hn : 0 ≤ n) :
    Spends w (p >>= f) n :=
  (spends_bind hp hf hn).mono (by omega)

theorem Spends.ensures {s : Session ω ρ} (h : Spends w p n) :
    Ensures p s fun _ s' => (s'.reads.map w).sum ≤ (s.reads.map w).sum + n := by
  intro a s' heq
  obtain ⟨es, hreads, hes⟩ := h s
  rw [heq] at hreads
  rw [hreads, List.map_append, List.sum_append]
  omega

theorem spends_gather {γ : Type} {l : List γ} {f : γ → Prog ω ρ ε α}
    (h : ∀ a ∈ l, Spends w (f a) n) : Spends w (gather (l.map f)) (l.length * n) := by
  induction l with
  | nil => exact spends_pure (by simp)
  | cons a l ih =>
    obtain ⟨ha, hl⟩ := List.forall_mem_cons.mp h
    intro s
    obtain ⟨xs, hxs, hQx⟩ := ha s
    obtain ⟨ys, hys, hQy⟩ := ih hl (f a s).2
    refine ⟨ys ++ xs, ?_, ?_⟩
    · have hreads : (gather ((a :: l).map f) s).2.reads = (gather (l.map f) (f a s).2).2.reads := rfl
      rw [hreads, hys, hxs, List.append_assoc]
    · have hlength : ((a :: l).length : ℤ) * n = l.length * n + n := by
        rw [List.length_cons, Nat.cast_succ]
        ring
      show ((ys ++ xs).map w).sum ≤ _
      rw [List.map_append, List.sum_append, hlength]
      omega

/-! ## What holds of the whole record -/

/-- At the end of the run `I` holds of the record, and if the program returns, so does `P`. -/
def Always (p : Prog ω ρ ε α) (s : Session ω ρ) (I : List ρ → Prop) (P : α → List ρ → Prop) : Prop :=
  I (p s).2.reads ∧ ∀ a, (p s).1 = .ok a → P a (p s).2.reads

variable {s : Session ω ρ} {I : List ρ → Prop} {P : α → List ρ → Prop}

theorem Always.mono {P' : α → List ρ → Prop} (h : Always p s I P)
    (hP : ∀ a es, I es → P a es → P' a es) : Always p s I P' :=
  ⟨h.1, fun a ha => hP a _ h.1 (h.2 a ha)⟩

theorem always_pure {a : α} (hI : I s.reads) (hP : P a s.reads) :
    Always (pure a : Prog ω ρ ε α) s I P := by
  refine ⟨hI, fun a' ha' => ?_⟩
  cases ha'
  exact hP

theorem always_note {entry : ρ} {P : Unit → List ρ → Prop} (hI : I (entry :: s.reads))
    (hP : P () (entry :: s.reads)) : Always (note entry : Prog ω ρ ε Unit) s I P :=
  ⟨hI, fun _ _ => hP⟩

theorem always_perform {question : ω → Except ε α × ω} {entry : Except ε α → ρ}
    (hI : ∀ answer, I (entry answer :: s.reads)) (hP : ∀ a, P a (entry (.ok a) :: s.reads)) :
    Always (perform question entry) s I P := by
  refine ⟨hI _, fun a ha => ?_⟩
  have hread : (question s.world).1 = .ok a := ha
  have hentry : (perform question entry s).2.reads = entry (question s.world).1 :: s.reads := rfl
  rw [hentry, hread]
  exact hP a

theorem always_bind {R : β → List ρ → Prop}
    (h : Always p s I fun a es => ∀ s', s'.reads = es → Always (f a) s' I R) :
    Always (p >>= f) s I R := by
  rcases bind_cases p f s with ⟨e, s', hps, hbind⟩ | ⟨a, s', hps, hbind⟩
  · have hI := h.1
    rw [hps] at hI
    unfold Always
    rw [hbind]
    exact ⟨hI, fun _ hb => nomatch hb⟩
  · have hP := h.2 a (by rw [hps])
    rw [hps] at hP
    unfold Always
    rw [hbind]
    exact hP s' rfl

/-- A program of which it is only known what it writes down. -/
theorem Emits.always (h : Emits p Q) (hI : ∀ es, Q es → I (es ++ s.reads))
    (hP : ∀ a es, Q es → P a (es ++ s.reads)) : Always p s I P := by
  obtain ⟨es, hreads, hes⟩ := h s
  refine ⟨?_, fun a _ => ?_⟩
  · rw [hreads]
    exact hI es hes
  · rw [hreads]
    exact hP a es hes

/-! ## The runs that return -/

theorem ensures_perform {question : ω → Except ε α × ω} {entry : Except ε α → ρ}
    {Q : α → Session ω ρ → Prop}
    (h : ∀ a w, Q a { world := w, reads := entry (.ok a) :: s.reads }) :
    Ensures (perform question entry) s Q := by
  intro a s' heq
  obtain ⟨hread, rfl⟩ := Prod.mk.inj heq
  rw [hread]
  exact h a _

/-- A block of whose first program nothing needs to be known. -/
theorem ensures_after {Q : β → Session ω ρ → Prop} (h : ∀ a s', Ensures (f a) s' Q) :
    Ensures (p >>= f) s Q :=
  ensures_bind fun a s' _ => h a s'

/-! ## How a run ends -/

/-- Every run of the program ends as `Q` says. -/
def Ends (p : Prog ω ρ ε α) (Q : Except ε α → Prop) : Prop := ∀ s, Q (p s).1

section

variable {Q : Except ε α → Prop} {T : Except ε β → Prop}

theorem ends_pure {a : α} (h : Q (.ok a)) : Ends (pure a : Prog ω ρ ε α) Q := fun _ => h

theorem ends_raise {e : ε} (h : Q (.error e)) : Ends (raise e : Prog ω ρ ε α) Q := fun _ => h

theorem ends_act {question : ω → Except ε α × ω} (h : ∀ w, Q (question w).1) :
    Ends (act question : Prog ω ρ ε α) Q :=
  fun s => h s.world

/-- How a block ends: as its first program, which raises, or as the rest of it after what that returns. -/
theorem ends_bind (hp : Ends p Q) (hraise : ∀ e, Q (.error e) → T (.error e))
    (hok : ∀ a, Q (.ok a) → Ends (f a) T) : Ends (p >>= f) T := by
  intro s
  have hQ := hp s
  rcases bind_cases p f s with ⟨e, s', hps, hbind⟩ | ⟨a, s', hps, hbind⟩
  · rw [hps] at hQ
    rw [hbind]
    exact hraise e hQ
  · rw [hps] at hQ
    rw [hbind]
    exact hok a hQ s'

end

end Outside
