import Entitle.CommandLine.Run
import Entitle.Proofs.Config.Validation

/-!
# The permits of a checked configuration

A checked configuration asks for one permit at least, but for as many as it likes. The client of a command is built
unless these are more than can be counted, and nothing else ends a run in that way (`overload_iff`). The check tells no
such number from others (`overload_accepted`).

The outside is any one that answers from a state of its own; so it may answer anything.
-/

namespace Entitle.CommandLine

open Config (validate)
open Flight Text.Numeral

variable {ω : Type} {h : Host (StateM ω)} {c : Config} {server : Server} {command : Command} {w : ω}

theorem run_bind {α β : Type} (x : StateM ω α) (f : α → StateM ω β) (w : ω) :
    (x >>= f).run w = (f (x.run w).1).run (x.run w).2 :=
  rfl

/-- The state of a command can be had: it is in memory, or its directory is opened. -/
def StateOpens (h : Host (StateM ω)) (c : Config) (w : ω) : Prop :=
  ∀ path, c.cache.stateDir = some path → ∃ nodes, ((h.openDirectory path).run w).1 = .ok nodes

section Execute

variable {σ : Type} [KeyValueStore σ]

theorem request_ne_overload (what : String) (call : Call) (client : Client σ) :
    ((request h c server what call client).run w).1.1 ≠ .overload := by
  rw [request, run_bind]
  generalize ((perform h c.api.timeout server call client).run w).1 = result
  obtain ⟨_ | _, _⟩ := result <;> exact nofun

theorem execute_ne_overload (client : Client σ) :
    ((execute h c server command client).run w).1.1 ≠ .overload := by
  cases command with
  | offerings | customerInfo | productsEntitlements => exact request_ne_overload _ _ _
  | postReceipt user file transactions products restore offering =>
    rw [execute, run_bind]
    cases ((h.readFile file).run w).1 with
    | error fault => exact nofun
    | ok content => exact request_ne_overload _ _ _
  | ledger action =>
    cases action with
    | list => exact nofun
    | reset =>
      rw [execute]
      obtain ⟨_ | _, _⟩ := client.resetLedger <;> exact nofun

theorem executeOn_eq_overload (store : σ) :
    ((executeOn h c server command store).run w).1.1 = .overload ↔ Limits.permitLimit < c.dispatch.permits := by
  rw [executeOn]
  split
  · next hmany => exact iff_of_true rfl hmany
  · next hfew => exact iff_of_false (execute_ne_overload _) hfew

end Execute

theorem executeWithState_eq_overload :
    ((executeWithState h c server command).run w).1 = .overload ↔
      Limits.permitLimit < c.dispatch.permits ∧ StateOpens h c w := by
  unfold executeWithState StateOpens
  cases c.cache.stateDir with
  | none =>
    rw [and_iff_left nofun]
    exact executeOn_eq_overload ({} : MemoryStore)
  | some path =>
    simp only [run_bind, Option.some.injEq, forall_eq']
    cases ((h.openDirectory path).run w).1 with
    | error fault => exact iff_of_false nofun (by simp)
    | ok nodes =>
      rw [and_iff_left ⟨nodes, rfl⟩]
      exact executeOn_eq_overload (FileStore.openAt (some nodes))

/-- Every checked configuration asks for a permit, so none is added. -/
theorem permits_of_validate (hvalid : validate c = .ok ()) : c.dispatch.permits = c.dispatch.maxConcurrent :=
  Nat.max_eq_left (Config.validate_eq_ok.1 hvalid).concurrency

/-- A checked configuration asks for the permits that it names, and for one at least. No client can be built if and only
if these are more than an eighth of the greatest number of 64 bits, and the state can be had. -/
theorem overload_iff (hvalid : validate c = .ok ()) :
    (Dispatcher.ofLimits c.dispatch).free = c.dispatch.maxConcurrent ∧ 1 ≤ c.dispatch.maxConcurrent ∧
      ∀ {ω : Type} (h : Host (StateM ω)) (server : Server) (command : Command) (w : ω),
        ((executeWithState h c server command).run w).1 = .overload ↔
          uint64Max >>> 3 < c.dispatch.maxConcurrent ∧ StateOpens h c w := by
  have hpermits := permits_of_validate hvalid
  refine ⟨hpermits, (Config.validate_eq_ok.1 hvalid).concurrency, fun h server command w => ?_⟩
  rw [executeWithState_eq_overload, hpermits, show Limits.permitLimit = uint64Max >>> 3 by decide]

theorem overload_iff_default :
    validate {} = .ok () ∧
      ∀ {ω : Type} (h : Host (StateM ω)) (server : Server) (command : Command) (w : ω),
        ((executeWithState h {} server command).run w).1 ≠ .overload := by
  have hvalid : validate {} = .ok () := by decide
  refine ⟨hvalid, fun h server command w hend => ?_⟩
  have hmany := (((overload_iff hvalid).2.2 h server command w).1 hend).1
  exact absurd hmany (by decide)

/-- A variable may ask for one permit more than can be counted. The configuration is loaded and accepted, and no command
is carried out with it. -/
theorem overload_accepted :
    let env : Config.Environment := fun
      | "MAX_CONCURRENT_EXCHANGES" => some "2305843009213693952"
      | _ => none
    ∃ c, Config.load env (fun _ => .error .notFound) = .ok c ∧ validate c = .ok () ∧
      uint64Max >>> 3 < (Dispatcher.ofLimits c.dispatch).free ∧
      ∀ {ω : Type} (h : Host (StateM ω)) (server : Server) (command : Command) (w : ω),
        ((executeWithState h c server command).run w).1 = .overload := by
  intro env
  let c : Config := { dispatch.maxConcurrent := 2305843009213693952 }
  have hload : Config.load env (fun _ => .error .notFound) = .ok c := by decide +kernel
  have hmany : Limits.permitLimit < c.dispatch.permits := by decide
  exact ⟨c, hload, by decide, by decide, fun h server command w => executeWithState_eq_overload.2 ⟨hmany, nofun⟩⟩

end Entitle.CommandLine
