import Entitle.Proofs.Cache.Origin
import Entitle.Proofs.Client.Traffic
import Entitle.Proofs.Ledger

/-!
# Where the cache of a client in use has its entries from

Whatever happens to a client, every entry under a storage key was in the store when the client was opened, or its tag
and its body came in one answer to a request with that key (`Traffic.sourced_run`). The ledger writes elsewhere.
-/

namespace Entitle
open Flight ConditionalCache KeyValueStore

variable {σ : Type} {view : σ → String → Option Bytes} {source source' : String → String → String → Prop}

namespace ConditionalCache

variable {cache : ConditionalCache} {store store' : σ} {s : Signature}

theorem Sourced.mono (hs : Sourced view source cache store)
    (h : ∀ key tag body, source key tag body → source' key tag body) : Sourced view source' cache store where
  memory key entry hentry := h _ _ _ (hs.memory key entry hentry)
  stored key hstart entry hentry := h _ _ _ (hs.stored key hstart entry hentry)

theorem Sourced.withStore (hs : Sourced view source cache store)
    (h : ∀ key, Text.startsWith key keyStart → view store' key = view store key) :
    Sourced view source cache store' where
  memory := hs.memory
  stored key hstart entry hentry := hs.stored key hstart entry (h key hstart ▸ hentry)

variable [KeyValueStore σ]

/-- A response is seen as itself, or as an entry that has a source. -/
theorem sourced_shown (h : IsFallible view) (hs : Sourced view source cache store) {now : Instant}
    {response shown : Response} (hshown : (record now s (.ok response) cache store).1 = .ok shown) :
    shown = response ∨ ∃ entry : CacheEntry, source (storageKey s) entry.tag entry.body ∧
      shown = ⟨⟨200⟩, some entry.tag, Text.utf8 entry.body⟩ := by
  by_cases hsame : response.status.isNotModified
  · obtain ⟨hfound, -⟩ := sourced_load h hs (startsWith_storageKey s)
    simp only [record, hsame, if_true, settleNotModified] at hshown
    cases hentry : (load (storageKey s) cache store).1 with
    | some entry =>
      rw [hentry] at hshown
      exact .inr ⟨entry, hfound entry hentry, (Except.ok.inj hshown).symm⟩
    | none =>
      rw [hentry] at hshown
      exact .inl (Except.ok.inj hshown).symm
  · simp only [record, hsame, Bool.false_eq_true, if_false] at hshown
    cases hentry : entryOf? now response <;> rw [hentry] at hshown <;> exact .inl (Except.ok.inj hshown).symm

end ConditionalCache

namespace Ledger

variable [KeyValueStore σ] {k : String}

theorem view_markAll (h : IsFallible view) (ids : List String) (ledger : Ledger) (store : σ) (hk : k ≠ storageKey) :
    view (ledger.markAll ids store).2.2 k = view store k := by
  by_cases hknown : ∀ id ∈ ids, id ∈ ledger.ids
  · rw [markAll_of_known hknown]
  · have hset := h.set storageKey (markedText ids ledger) store k
    rw [if_neg fun hboth => hk hboth.2.symm] at hset
    rw [markAll_of_new hknown, ← hset]
    cases KeyValueStore.set storageKey (markedText ids ledger) store with
    | mk result store' => cases result <;> rfl

theorem view_reset (h : IsFallible view) (ledger : Ledger) (store : σ) (hk : k ≠ storageKey) :
    view (ledger.reset store).2.2 k = view store k := by
  have hremove := h.remove storageKey store k
  rw [if_neg fun hboth => hk hboth.2.symm] at hremove
  rw [← hremove, reset]
  cases KeyValueStore.remove storageKey store with
  | mk result store' => cases result <;> rfl

theorem ne_storageKey (hk : Text.startsWith k keyStart) : k ≠ storageKey := by
  rintro rfl
  exact absurd hk (by decide)

end Ledger

namespace Backend

variable [KeyValueStore σ] {b : Backend σ}

theorem sourced_send (h : IsFallible view) (hs : Sourced view source b.cache b.store) (task : Nat) :
    Sourced view source (b.send task).cache (b.send task).store := by
  unfold send requestOf
  cases b.plans.get? task with
  | none => exact hs
  | some plan =>
    by_cases huse : plan.useCache
    · simp only [huse, if_true]
      exact sourced_attach h hs plan.signature _
    · simp only [huse, Bool.false_eq_true, if_false]
      exact hs

/-- Only an answer to a request that uses the cache needs a source for what it leaves. -/
theorem sourced_step (h : IsFallible view) (hs : Sourced view source b.cache b.store) {event : Event}
    (hsource : ∀ now task response plan entry, event = .answer now task (.ok response) → b.isSending task →
      b.plans.get? task = some plan → plan.useCache → entryOf? now response = some entry →
      source (storageKey plan.signature) entry.tag entry.body) :
    Sourced view source (b.step event).cache (b.step event).store := by
  cases event with
  | poll task =>
    simp only [step, poll]
    split
    · exact sourced_send (b := { b with pool := b.pool.poll task }) h hs task
    · exact hs
  | answer now task outcome =>
    simp only [step, answer]
    split
    · next hsend =>
      cases hplan : b.plans.get? task with
      | none => exact hs
      | some plan =>
        by_cases huse : plan.useCache
        · simp only [settled, huse, if_true]
          exact sourced_record h hs fun response entry houtcome hentry =>
            hsource now task response plan entry (by rw [houtcome]) hsend hplan huse hentry
        · simp only [settled, huse, Bool.false_eq_true, if_false]
          exact hs
    · exact hs
  | invalidate s => exact sourced_invalidate h hs s
  | clear => exact sourced_clear h hs
  | launch e useCache delay draw =>
    simp only [step, launch]
    exact hs
  | _ => exact hs

theorem sourced_run (h : IsFallible view) (hs : Sourced view source b.cache b.store) {events : List Event}
    (hnone : ∀ now task outcome, .answer now task outcome ∉ events) :
    Sourced view source (b.run events).cache (b.run events).store := by
  induction events generalizing b with
  | nil => exact hs
  | cons event rest ih =>
    refine ih (sourced_step h hs fun now task response _ _ heq => ?_) fun now task outcome hmem =>
      hnone now task outcome (List.mem_cons_of_mem _ hmem)
    exact absurd (heq ▸ List.mem_cons_self) (hnone now task (.ok response))

end Backend

namespace Traffic

variable [KeyValueStore σ] {g start : Traffic σ} {events : List Event}

theorem view_finish (h : IsFallible view) (p : Pending) (shared : Classified Json) (c : Client σ)
    {k : String} (hk : k ≠ Ledger.storageKey) :
    view (c.finish p shared).2.backend.store k = view c.backend.store k := by
  unfold Client.finish
  cases p.call with
  | postReceipt receipt =>
    simp only
    split
    · exact Ledger.view_markAll h p.unsynced c.ledger c.backend.store hk
    · rfl
  | _ => rfl

theorem view_step (h : IsFallible view) (g : Traffic σ) (event : Event) {k : String} (hk : k ≠ Ledger.storageKey) :
    view (g.step event).client.backend.store k = view (g.client.backend.run (g.moves event)).store k := by
  cases event with
  | advance i draw =>
    simp only [step, advance, moves]
    cases g.calls[i]? with
    | none => rfl
    | some stage =>
      cases stage with
      | waiting p =>
        simp only [Stage.advance_waiting]
        rfl
      | served p shared => exact view_finish h p shared g.client hk
      | _ => rfl
  | cancel i =>
    simp only [step, cancel, moves]
    cases g.calls[i]? with
    | none => rfl
    | some stage => cases stage <;> rfl
  | mark ids => exact Ledger.view_markAll h ids g.client.ledger g.client.backend.store hk
  | reset => exact Ledger.view_reset h g.client.ledger g.client.backend.store hk
  | _ => rfl

/-- In the run a request with the key, which used the cache, was answered with the tag and the body. -/
def Brought (start : Traffic σ) (events : List Event) (key tag body : String) : Prop :=
  ∃ before now task response rest plan, events = before ++ .answer now task (.ok response) :: rest ∧
    (start.run before).client.backend.isSending task ∧ (start.run before).client.backend.plans.get? task = some plan ∧
    plan.useCache ∧ storageKey plan.signature = key ∧ response.status.isSuccessful ∧ response.tag = some tag ∧
    response.body = Text.utf8 body

theorem Brought.concat {key tag body : String} (h : start.Brought events key tag body) (event : Event) :
    start.Brought (events ++ [event]) key tag body := by
  obtain ⟨before, now, task, response, rest, plan, rfl, hbrought⟩ := h
  exact ⟨before, now, task, response, rest ++ [event], plan, by simp, hbrought⟩

/-- The store holds an entry with the tag and the body. -/
def Stored (view : σ → String → Option Bytes) (store : σ) (key tag body : String) : Prop :=
  ∃ entry, storedEntry (view store key) = some entry ∧ entry.tag = tag ∧ entry.body = body

omit [KeyValueStore σ] in
theorem eq_answer_of_mem_moves {event : Event} {now : Instant} {task : Nat} {outcome : Outcome}
    (h : .answer now task outcome ∈ g.moves event) : event = .answer now task outcome := by
  cases event with
  | advance i draw =>
    simp only [moves] at h
    cases hi : g.calls[i]? with
    | none => rw [hi] at h; cases h
    | some stage => rw [hi] at h; cases stage <;> simp [Stage.moves] at h
  | cancel i =>
    simp only [moves] at h
    split at h <;> simp at h
  | answer now' task' outcome' =>
    cases List.mem_singleton.1 h
    rfl
  | _ => simp [moves] at h

theorem sourced_step (h : IsFallible view)
    (hs : Sourced view source g.client.backend.cache g.client.backend.store) {event : Event}
    (hsource : ∀ now task response plan entry, event = .answer now task (.ok response) →
      g.client.backend.isSending task → g.client.backend.plans.get? task = some plan → plan.useCache →
      entryOf? now response = some entry → source (storageKey plan.signature) entry.tag entry.body) :
    Sourced view source (g.step event).client.backend.cache (g.step event).client.backend.store := by
  obtain ⟨store, hbackend⟩ := g.backend_step event
  have hcache : (g.step event).client.backend.cache = (g.client.backend.run (g.moves event)).cache := by rw [hbackend]
  rw [hcache]
  have hmoves : Sourced view source (g.client.backend.run (g.moves event)).cache
      (g.client.backend.run (g.moves event)).store := by
    cases event with
    | answer now task outcome =>
      show Sourced view source (g.client.backend.step (.answer now task outcome)).cache
        (g.client.backend.step (.answer now task outcome)).store
      refine Backend.sourced_step h hs fun now' task' response plan entry heq => ?_
      cases heq
      exact hsource now task response plan entry rfl
    | _ =>
      refine Backend.sourced_run h hs fun now task outcome hmem => ?_
      cases eq_answer_of_mem_moves hmem
  exact hmoves.withStore fun k hk => view_step h g event (Ledger.ne_storageKey hk)

theorem sourced_run (h : IsFallible view) (store : σ) (caching : Bool) (limits : Limits) (events : List Event) :
    let start := openOn store caching limits
    let b := (start.run events).client.backend
    Sourced view (fun key tag body => Stored view store key tag body ∨ start.Brought events key tag body)
      b.cache b.store := by
  intro start b
  induction events using List.reverseRecOn with
  | nil =>
    have hview : view (Ledger.openFrom store).2 = view store :=
      (congrArg view (Ledger.openFrom_snd store)).trans (h.get Ledger.storageKey store).2
    refine ⟨nofun, fun key _ entry hentry => .inl ⟨entry, ?_, rfl, rfl⟩⟩
    rwa [show view b.store = view store from hview] at hentry
  | append_singleton events event ih =>
    have hkept := ih.mono fun key tag body hsource => hsource.imp_right (Brought.concat · event)
    have hbackend : b = ((start.run events).step event).client.backend :=
      congrArg (·.client.backend) (run_concat start events event)
    rw [hbackend]
    refine sourced_step h hkept fun now task response plan entry heq hsend hplan huse hentry => ?_
    obtain ⟨hsuccess, htag, hbody, -, -⟩ := entryOf?_eq_some.1 hentry
    exact .inr ⟨events, now, task, response, [], plan, by rw [heq], hsend, hplan, huse, rfl, hsuccess, htag,
      Text.ofUtf8?_eq_some_iff.1 hbody⟩

end Traffic

end Entitle
