import Turnstile.Store.Call
import Turnstile.Uuid

/-! Operations of services, as programs that read the clock, draw random bytes and call stores. -/

namespace Turnstile

/-- A program with results of type `α`. It can be interrupted only at its calls. -/
inductive Program (α : Type) where
  | done (result : Except AuthError α)
  | clock (next : Nanos → Program α)
  | draw (next : Draw → Program α)
  | call (c : Call) (next : Except AuthError c.Answer → Program α)

namespace Program

/-- Runs `f` on the result of a program; a failure ends the whole. -/
def bind {α β : Type} : Program α → (α → Program β) → Program β
  | done (.ok a), f => f a
  | done (.error e), _ => done (.error e)
  | clock next, f => clock fun t => (next t).bind f
  | draw next, f => draw fun d => (next d).bind f
  | call c next, f => call c fun r => (next r).bind f

instance : Monad Program where
  pure a := done (.ok a)
  bind := bind

def fail {α : Type} (e : AuthError) : Program α :=
  done (.error e)

def ofExcept {α : Type} (r : Except AuthError α) : Program α :=
  done r

def now : Program Nanos :=
  clock fun t => done (.ok t)

def fresh : Program Draw :=
  draw fun d => done (.ok d)

/-- The answer of a store; its failure is the program's. -/
def ask (c : Call) : Program c.Answer :=
  call c done

/-- The result of a program as a value, failures included. -/
def attempt {α : Type} : Program α → Program (Except AuthError α)
  | done r => done (.ok r)
  | clock next => clock fun t => (next t).attempt
  | draw next => draw fun d => (next d).attempt
  | call c next => call c fun r => (next r).attempt

end Program

/-- What surrounds a program: a state with a clock, a source of random bytes and stores. A call
without an answer ends the program. -/
structure Host (σ : Type) where
  clock : σ → Nanos
  draw : σ → Draw × σ
  answer : (c : Call) → σ → Option (Except AuthError c.Answer) × σ

/-- The result of a program and the state after it; there is no result if it was cut off. -/
def Program.run {σ α : Type} (h : Host σ) : Program α → σ → Option (Except AuthError α) × σ
  | done r, s => (some r, s)
  | clock next, s => (next (h.clock s)).run h s
  | draw next, s => (next (h.draw s).1).run h (h.draw s).2
  | call c next, s =>
    match h.answer c s with
    | (none, s) => (none, s)
    | (some r, s) => (next r).run h s

/-- The effect of calls on a store of type `σ` at a given instant. -/
abbrev StoreModel (σ : Type) := Nanos → (c : Call) → σ → Except AuthError c.Answer × σ

structure World (σ : Type) where
  store : σ
  clock : Nanos
  drawn : Nat := 0

/-- A store that answers every call at once; the `n`-th draw, counted from zero, is `entropy n`. -/
def StoreModel.host {σ : Type} (model : StoreModel σ) (entropy : Nat → Draw) : Host (World σ) where
  clock w := w.clock
  draw w := (entropy w.drawn, { w with drawn := w.drawn + 1 })
  answer c w :=
    let (r, store) := model w.clock c w.store
    (some r, { w with store })

end Turnstile
