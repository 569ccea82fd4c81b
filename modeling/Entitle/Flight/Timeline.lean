import Entitle.Flight.Pool

/-!
A pool under a clock.

Every work lasts a known time and every start delay is the longest of its class, so a run is determined by
what is asked when. Between two requests everything that falls due happens in order of time, and at each
moment every task runs as far as it can. Times are in milliseconds.
-/

namespace Entitle.Flight

/-- The work of a task. -/
structure Job (ρ : Type) where
  duration : Nat
  /-- The work fails at its end, and has no result. -/
  fails : Bool
  result : ρ
  deriving Repr

/-- What falls due for a task. -/
inductive Alarm where
  | delayOver
  | workOver
  deriving DecidableEq, Repr

/-- A moment at which something falls due. -/
structure Timer where
  due : Nat
  task : Nat
  alarm : Alarm
  deriving DecidableEq, Repr

/-- A pool, its clock and what has happened so far. -/
structure Timeline (κ ρ : Type) where
  limits : Limits
  pool : Pool κ ρ
  now : Nat := 0
  jobs : Table Nat (Job ρ) := []
  /-- In order of time; what was set first comes first at one moment. -/
  timers : List Timer := []
  /-- When a task got its permit. -/
  started : Table Nat Nat := []
  /-- When the work of a task ended with a result. -/
  ended : Table Nat Nat := []
  /-- The waiters that someone waits on. -/
  waiting : List (Waiter κ) := []
  /-- What a waiter received, and when. -/
  resolved : Table (Waiter κ) (Delivery ρ × Nat) := []
  deriving Repr

namespace Timeline

variable {κ ρ : Type} [DecidableEq κ]

/-- A timeline without tasks. -/
def ofLimits (l : Limits) : Timeline κ ρ :=
  { limits := l, pool := .ofLimits l }

/-- Sets a timer behind those that fall due no later. -/
def insertTimer (timer : Timer) : List Timer → List Timer
  | [] => [timer]
  | t :: rest => if t.due ≤ timer.due then t :: insertTimer timer rest else timer :: t :: rest

/-- Sets a timer. -/
def setTimer (t : Timeline κ ρ) (task after : Nat) (alarm : Alarm) : Timeline κ ρ :=
  { t with timers := insertTimer ⟨t.now + after, task, alarm⟩ t.timers }

/-- Runs a task, and sets the end of its start delay when it begins to sleep. -/
def poll (t : Timeline κ ρ) (task : Nat) : Timeline κ ρ :=
  let delay := (Table.get? t.pool.dispatcher.fresh task).getD 0
  let slept := task ∈ t.pool.dispatcher.sleeping
  let t := { t with pool := t.pool.poll task }
  if !slept && task ∈ t.pool.dispatcher.sleeping then t.setTimer task delay .delayOver else t

/-- Notes that a task got its permit, and sets the end of its work. -/
def noteStart (t : Timeline κ ρ) (task : Nat) : Timeline κ ρ :=
  if (t.started.get? task).isSome then t
  else
    let t := { t with started := t.started.put task t.now }
    match t.jobs.get? task with
    | some job => t.setTimer task job.duration .workOver
    | none => t

/-- A waiter takes its result, if it is there. -/
def noteResult (t : Timeline κ ρ) (w : Waiter κ) : Timeline κ ρ :=
  let (delivery, pool) := t.pool.take w
  match delivery with
  | some delivery =>
    { t with pool, waiting := t.waiting.erase w, resolved := t.resolved.put w (delivery, t.now) }
  | none => { t with pool }

/-- Lets every task and every waiter run. -/
def settle (t : Timeline κ ρ) : Timeline κ ρ :=
  let d := t.pool.dispatcher
  let t := (d.fresh.map Prod.fst ++ d.sleeping).foldl poll t
  let t := t.pool.dispatcher.running.foldl noteStart t
  t.waiting.foldl noteResult t

/-- What a timer does. -/
def fire (t : Timeline κ ρ) (timer : Timer) : Timeline κ ρ :=
  match timer.alarm with
  | .delayOver => { t with pool := t.pool.expire timer.task }
  | .workOver =>
    match t.jobs.get? timer.task with
    | none => t
    | some job =>
      if timer.task ∈ t.pool.dispatcher.running then
        if job.fails then { t with pool := t.pool.stop timer.task }
        else
          { t with
            pool := t.pool.finish timer.task job.result
            ended := t.ended.put timer.task t.now }
      else t

/-- Lets everything happen that falls due up to a time. -/
def runTo (limit : Nat) : Nat → Timeline κ ρ → Timeline κ ρ
  | 0, t => t
  | fuel + 1, t =>
    match t.timers with
    | [] => t
    | timer :: timers =>
      if timer.due ≤ limit then
        runTo limit fuel ({ t with timers, now := max t.now timer.due }.fire timer).settle
      else t

/-- Goes on to a time. A task has at most two timers, so there are never more than that to fire. -/
def advance (t : Timeline κ ρ) (limit : Nat) : Timeline κ ρ :=
  let t := runTo limit (2 * t.jobs.length) t
  { t with now := max t.now limit }

/-- Lets everything happen that falls due at this moment. -/
def react (t : Timeline κ ρ) : Timeline κ ρ :=
  t.settle.advance t.now

/-- Starts work of its own, and gives its task. -/
def schedule (t : Timeline κ ρ) (delay : DelayClass) (job : Job ρ) : Nat × Timeline κ ρ :=
  let (task, pool) := t.pool.spawn none (delay.maxDelay t.limits)
  (task, { t with pool, jobs := t.jobs.put task job }.react)

/-- Registers on a key, with a task if this is the first; an urgent caller skips the start delay. -/
def request (t : Timeline κ ρ) (key : κ) (delay : DelayClass) (job : Job ρ) (urgent : Bool) :
    Waiter κ × Option Nat × Timeline κ ρ :=
  let (registration, pool) := t.pool.register key
  let w := registration.waiter
  let pool := if urgent then pool.expedite w else pool
  let (task, pool) := match registration.exchange with
    | some e => pool.dispatch e (delay.maxDelay t.limits)
    | none => (none, pool)
  let jobs := match task with
    | some task => t.jobs.put task job
    | none => t.jobs
  (w, task, { t with pool, jobs, waiting := t.waiting ++ [w] }.react)

/-- Aborts a task. -/
def abort (t : Timeline κ ρ) (task : Nat) : Timeline κ ρ :=
  { t with pool := t.pool.stop task }.react

/-- A waiter leaves. -/
def leave (t : Timeline κ ρ) (w : Waiter κ) : Timeline κ ρ :=
  { t with pool := t.pool.leave w, waiting := t.waiting.erase w }.react

end Timeline

end Entitle.Flight
