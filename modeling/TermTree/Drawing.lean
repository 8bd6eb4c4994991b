/-
Computations that draw identities. One that fails has drawn what it drew, and one that changes something in place has
changed what it changed: nothing is taken back.
-/
import TermTree.Occurrence
import TermTree.Term.Reader

namespace TermTree

/-- Computations that draw identities and may fail; what was drawn stays drawn. -/
abbrev Drawing := ExceptT Error (StateM Supply)

/-- Something that is held to be changed in place, and the supply of identities. -/
structure Held (σ : Type) where
  value : σ
  supply : Supply := {}

/-- Computations that change in place what they hold. They may draw identities, and may fail; what was changed and
drawn until then stays so. -/
abbrev Editing (σ : Type) := ExceptT Error (StateM (Held σ))

/-- A result that draws nothing. -/
def Drawing.ofResult (r : Except Error α) : Drawing α := ExceptT.mk (pure r)

theorem Drawing.run_ofResult (r : Except Error α) (s : Supply) : (ofResult r).run.run s = (r, s) := rfl

namespace Editing
variable {σ α : Type}

/-- What is held. -/
def held : Editing σ σ := do return (← get).value

/-- Puts something in the place of what is held. -/
def put (a : σ) : Editing σ Unit := modify fun s => { s with value := a }

/-- A result that changes nothing. -/
def ofResult (r : Except Error α) : Editing σ α := ExceptT.mk (pure r)

/-- Draws identities from the supply at hand. -/
def drawing (d : Drawing α) : Editing σ α := do
  let s ← get
  let (r, supply) := d.run.run s.supply
  set { s with supply }
  ofResult r

/-- Makes something new of what is held, with a state that begins as `start`; what it comes to is the answer. -/
def through {ρ : Type} (f : σ → StateM (Held ρ) σ) (start : ρ) : Editing σ ρ := do
  let s ← get
  let (value, after) := (f s.value).run ⟨start, s.supply⟩
  set { s with value, supply := after.supply }
  return after.value

/-- What a computation answers when it holds `a`, and what it then holds. -/
def on (e : Editing σ α) (a : σ) : Drawing (α × σ) := do
  let (r, s) := e.run.run ⟨a, ← get⟩
  set s.supply
  let answer ← Drawing.ofResult r
  return (answer, s.value)

/-! ### Runs -/

theorem run_held (s : Held σ) : (held : Editing σ σ).run.run s = (.ok s.value, s) := rfl

theorem run_ofResult (r : Except Error α) (s : Held σ) : (ofResult r : Editing σ α).run.run s = (r, s) := rfl

theorem run_through {ρ : Type} (f : σ → StateM (Held ρ) σ) (start : ρ) (s : Held σ) :
    (through f start).run.run s =
      (.ok ((f s.value).run ⟨start, s.supply⟩).2.value,
        ⟨((f s.value).run ⟨start, s.supply⟩).1, ((f s.value).run ⟨start, s.supply⟩).2.supply⟩) := rfl

theorem run_drawing (d : Drawing α) (s : Held σ) :
    (drawing d : Editing σ α).run.run s = ((d.run.run s.supply).1, { s with supply := (d.run.run s.supply).2 }) := rfl

theorem run_on (e : Editing σ α) (a : σ) (s : Supply) :
    (e.on a).run.run s =
      ((e.run.run ⟨a, s⟩).1.map fun answer => (answer, (e.run.run ⟨a, s⟩).2.value), (e.run.run ⟨a, s⟩).2.supply) := by
  show (Drawing.ofResult (e.run.run ⟨a, s⟩).1 >>= fun answer => pure (answer, (e.run.run ⟨a, s⟩).2.value)).run.run
    (e.run.run ⟨a, s⟩).2.supply = _
  cases (e.run.run ⟨a, s⟩).1 <;> rfl

theorem run_on_eq_ok {e : Editing σ α} {a b : σ} {x : α} {s s' : Supply} :
    (e.on a).run.run s = (.ok (x, b), s') ↔ e.run.run ⟨a, s⟩ = (.ok x, ⟨b, s'⟩) := by
  rw [run_on]
  rcases e.run.run ⟨a, s⟩ with ⟨r, b', t⟩
  cases r with
  | error fault => constructor <;> (intro h; cases h)
  | ok y => constructor <;> (intro h; cases h; rfl)

theorem run_on_eq_error {e : Editing σ α} {a : σ} {fault : Error} {s s' : Supply} :
    (e.on a).run.run s = (.error fault, s') ↔ ∃ b, e.run.run ⟨a, s⟩ = (.error fault, ⟨b, s'⟩) := by
  rw [run_on]
  rcases e.run.run ⟨a, s⟩ with ⟨r, b, t⟩
  cases r with
  | error fault' =>
    constructor
    · intro h
      cases h
      exact ⟨b, rfl⟩
    · intro ⟨_, h⟩
      cases h
      rfl
  | ok y =>
    constructor
    · intro h
      cases h
    · intro ⟨_, h⟩
      cases h

section
variable {β : Type} (a : σ)

@[simp] theorem on_held_bind (f : σ → Editing σ α) : (held >>= f).on a = (f a).on a := rfl

@[simp] theorem on_put (b : σ) : (put b).on a = pure ((), b) := rfl

@[simp] theorem on_ofResult_bind (r : Except Error β) (f : β → Editing σ α) :
    (ofResult r >>= f).on a = Drawing.ofResult r >>= fun x => (f x).on a := by
  cases r <;> rfl

@[simp] theorem on_drawing_bind (d : Drawing β) (f : β → Editing σ α) :
    (drawing d >>= f).on a = d >>= fun x => (f x).on a := by
  apply ExceptT.ext
  funext s
  show ((drawing d >>= f).on a).run.run s = (d >>= fun x => (f x).on a).run.run s
  have hdrawn := run_drawing d ⟨a, s⟩
  cases hd : d.run.run s with
  | mk r s' =>
    rw [hd] at hdrawn
    cases r with
    | error e => rw [run_on, Outcome.run_bind_error hdrawn, Outcome.run_bind_error hd, Outcome.map_error]
    | ok x => rw [run_on, Outcome.run_bind_ok hdrawn, Outcome.run_bind_ok hd, run_on]

end

end Editing

namespace Occurrence

/-- Reads a term from its text, and gives it a fresh identity. -/
def read (g : Grammar) (t : Text) : Drawing Occurrence := do fresh (← Drawing.ofResult (Term.read g t))

end Occurrence
end TermTree
