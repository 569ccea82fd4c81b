import Entitle.Client.Basic
import Entitle.FileTree
import Entitle.Http.Exchange

/-!
What a run of a command needs from outside, and a single call of a client made with it.

The outside is a record of operations in any monad, so a run can be followed without a network or a disk.
-/

namespace Entitle.CommandLine

open Flight

/-- The outside of a run. -/
structure Host (m : Type → Type) where
  /-- Reads a file. -/
  readFile : String → m (Except FileFault Bytes)
  /-- Opens a directory, making it if there is none, and lists what lies right in it. -/
  openDirectory : String → m (Except FileFault (KeyMap Node))
  /-- Replaces what lies right in a directory. -/
  saveDirectory : String → KeyMap Node → m Unit
  /-- Carries requests, each for so many milliseconds at most. -/
  carry : Nat → Carrier m
  /-- Waits for so many milliseconds. -/
  sleep : Nat → m Unit
  /-- A random number. -/
  draw : m Nat
  now : m Instant

/-- How late a call may start. -/
def delayOf : Call → DelayClass
  | .offerings _ delay => delay
  | .customerInfo _ delay => delay
  | .productsEntitlements delay => delay
  | .request _ _ delay => delay
  | .postReceipt _ => .immediate
  | .postAttributes .. => .immediate

variable {m : Type → Type} [Monad m] {σ : Type} [KeyValueStore σ]

/-- Waits until the start delay of a call is over, if it has one. -/
def sleepOut (h : Host m) (milliseconds : Nat) (c : Client σ) : m (Client σ) :=
  match c.backend.pool.dispatcher.sleeping with
  | task :: _ => do
    h.sleep milliseconds
    return Client.settle { c with backend := c.backend.expire task }
  | [] => return c

/-- Carries the request that a client sent last, and gives it the outcome. -/
def exchangeLast (h : Host m) (timeout : Nat) (server : Server) (c : Client σ) : m (Client σ) :=
  match c.backend.sent.getLast? with
  | some (task, request) => do
    let outcome ← server.exchange (h.carry timeout) request
    return { c with backend := c.backend.answer (← h.now) task outcome }
  | none => return c

/-- Makes a call from its beginning to its end, with no other call at its side. -/
def perform (h : Host m) (timeout : Nat) (server : Server) (call : Call) (c : Client σ) :
    m (Classified Reply × Client σ) := do
  let draw ← h.draw
  match c.begin call draw with
  | (.answered reply, c) => return (.ok reply, c)
  | (.pending p, c) =>
    let c ← sleepOut h ((delayOf call).sample c.backend.limits draw) c.settle
    let c ← exchangeLast h timeout server c
    match c.resume p with
    | (some reply, c) => return (reply, c)
    | (none, c) => return (.error (.network .abandoned), c)

end Entitle.CommandLine
