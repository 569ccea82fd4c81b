import Entitle.Flight.Coalescer

/-!
What callers do with a coalescer, by name.

A registration on a key has a name, and whatever is done with its exchange or its waiter refers to it by key and name.
So a script says what is done and nothing of generations and listeners, and can be played with some of its keys left
out. Every action shows what its key is like after it.
-/

namespace Entitle.Flight

variable {κ ι ρ : Type}

/-- What is done on a key, with the handles of the registration of a name. -/
inductive Action (ι ρ : Type) where
  | register (name : ι)
  | complete (name : ι) (result : ρ)
  | drop (name : ι)
  | attach (name : ι) (task : Nat)
  | signal (name : ι)
  | expedite (name : ι)
  | leave (name : ι)
  | take (name : ι)
  deriving DecidableEq, Repr

/-- What a step of a coalescer answers. -/
inductive Answer (ρ : Type) where
  /-- A registration, and whether it comes with the exchange. -/
  | registered (first : Bool)
  /-- How many waiters got the result. -/
  | delivered (count : Nat)
  | signal (expedited : Option Bool)
  | received (delivery : Option (Delivery ρ))
  | done
  deriving DecidableEq, Repr

/-- What a key shows after an action on it. -/
structure Sight (ρ : Type) where
  /-- Nothing, if the action has no handle. -/
  answer : Option (Answer ρ)
  isInFlight : Bool
  waiterCount : Nat
  /-- The tasks that the action aborted. -/
  aborted : List Nat
  deriving DecidableEq, Repr

variable [DecidableEq κ]

namespace Coalescer

/-- What a step answers. -/
def answer (c : Coalescer κ ρ) : Step κ ρ → Answer ρ
  | .register key => .registered (c.register key).1.exchange.isSome
  | .complete e result => .delivered (c.complete e result).1
  | .signal e => .signal (c.takeSignal e).1
  | .take w => .received (c.take w).1
  | .drop _ | .attach _ _ | .expedite _ | .leave _ => .done

end Coalescer

/-- A coalescer and the registrations by key and name. -/
structure Roster (κ ι ρ : Type) where
  coalescer : Coalescer κ ρ := {}
  /-- A name that is given again is that of the newer registration. -/
  registrations : Table (κ × ι) (Registration κ) := []
  deriving Repr

namespace Roster

variable [DecidableEq ι]

/-- The exchange of a registration, if it came with one. -/
def exchange? (r : Roster κ ι ρ) (key : κ) (name : ι) : Option (Exchange κ) :=
  (r.registrations.get? (key, name)).bind (·.exchange)

/-- The waiter of a registration. -/
def waiter? (r : Roster κ ι ρ) (key : κ) (name : ι) : Option (Waiter κ) :=
  (r.registrations.get? (key, name)).map (·.waiter)

/-- The step of an action, if it has the handle for it. -/
def step? (r : Roster κ ι ρ) (key : κ) : Action ι ρ → Option (Coalescer.Step κ ρ)
  | .register _ => some (.register key)
  | .complete name result => (r.exchange? key name).map (.complete · result)
  | .drop name => (r.exchange? key name).map .drop
  | .attach name task => (r.exchange? key name).map (.attach · task)
  | .signal name => (r.exchange? key name).map .signal
  | .expedite name => (r.waiter? key name).map .expedite
  | .leave name => (r.waiter? key name).map .leave
  | .take name => (r.waiter? key name).map .take

/-- The registrations after an action. -/
def registrationsAfter (r : Roster κ ι ρ) (key : κ) : Action ι ρ → Table (κ × ι) (Registration κ)
  | .register name => r.registrations.put (key, name) (r.coalescer.register key).1
  | _ => r.registrations

/-- An action on a key. -/
def act (r : Roster κ ι ρ) (key : κ) (action : Action ι ρ) : Roster κ ι ρ where
  coalescer := (r.step? key action).elim r.coalescer r.coalescer.step
  registrations := r.registrationsAfter key action

/-- What the key of an action shows after it. -/
def sight (r : Roster κ ι ρ) (key : κ) (action : Action ι ρ) : Sight ρ :=
  let after := (r.act key action).coalescer
  { answer := (r.step? key action).map r.coalescer.answer
    isInFlight := after.registry.isInFlight key
    waiterCount := after.registry.waiterCount key
    aborted := after.aborted.drop r.coalescer.aborted.length }

/-- The state after a script. -/
def play (r : Roster κ ι ρ) : List (κ × Action ι ρ) → Roster κ ι ρ
  | [] => r
  | (key, action) :: rest => (r.act key action).play rest

/-- What the actions of a script show, each of its own key. -/
def sights (r : Roster κ ι ρ) : List (κ × Action ι ρ) → List (κ × Sight ρ)
  | [] => []
  | (key, action) :: rest => (key, r.sight key action) :: (r.act key action).sights rest

end Roster

end Entitle.Flight
