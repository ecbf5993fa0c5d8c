import Turnstile.Store.Program

/-! A store whose calls are recorded and can be made to fail or to take time. -/

namespace Turnstile

inductive Fault where
  /-- The call fails and never reaches the store. -/
  | error (e : AuthError)
  /-- A call that looks for something finds nothing and never reaches the store. -/
  | absent
  /-- A user is found without a password. -/
  | noPassword
  /-- The call waits first. -/
  | delay (span : Nanos)
  deriving Repr, DecidableEq

structure Disturbed (σ : Type) where
  world : World σ
  /-- The faults to come, each for the next call of its kind. -/
  faults : List (Method × Fault) := []
  /-- The calls made, the latest first. -/
  log : List Call := []
  /-- The instant past which a call that had to wait is given up. -/
  deadline : Option Nanos := none

namespace Disturbed

/-- The oldest fault for a kind of call, and the faults without it. -/
def takeFault (m : Method) : List (Method × Fault) → Option Fault × List (Method × Fault)
  | [] => (none, [])
  | (n, f) :: rest =>
    if n = m then (some f, rest)
    else
      let (g, rest) := takeFault m rest
      (g, (n, f) :: rest)

/-- The answer of a call that finds nothing, if the call looks for something. -/
def absentAnswer? : (c : Call) → Option c.Answer
  | .findByEmail _ => some none
  | .findById _ => some none
  | .emailExists _ => some false
  | .findByUser _ => some none
  | .deleteMatching _ _ => some false
  | .isRevoked _ => some false
  | .findRole _ => some none
  | .createUser _ _ _ | .upsert _ | .delete _ | .revoke _ _ | .rolesByNames _
  | .rolesForUser _ | .grantRole _ _ => none

def withoutPassword : (c : Call) → c.Answer → c.Answer
  | .findByEmail _, a => a.map fun found => { found with passwordHash := none }
  | _, a => a

variable {σ : Type} (model : StoreModel σ)

def plain (c : Call) (d : Disturbed σ) : Except AuthError c.Answer × Disturbed σ :=
  let (r, store) := model d.world.clock c d.world.store
  (r, { d with world := { d.world with store } })

/-- Records a call and lets the oldest fault for it act. -/
def answer (c : Call) (d : Disturbed σ) : Option (Except AuthError c.Answer) × Disturbed σ :=
  let (fault, faults) := takeFault c.method d.faults
  let d := { d with faults, log := c :: d.log }
  match fault with
  | none =>
    let (r, d) := plain model c d
    (some r, d)
  | some (.error e) => (some (.error e), d)
  | some .absent =>
    match absentAnswer? c with
    | some a => (some (.ok a), d)
    | none =>
      let (r, d) := plain model c d
      (some r, d)
  | some .noPassword =>
    let (r, d) := plain model c d
    (some (r.map (withoutPassword c)), d)
  | some (.delay span) =>
    let d := { d with world := { d.world with clock := d.world.clock + span } }
    if d.deadline.any (· < d.world.clock) then (none, d)
    else
      let (r, d) := plain model c d
      (some r, d)

def host (entropy : Nat → Draw) : Host (Disturbed σ) where
  clock d := d.world.clock
  draw d :=
    (entropy d.world.drawn, { d with world := { d.world with drawn := d.world.drawn + 1 } })
  answer := answer model

end Disturbed

end Turnstile
