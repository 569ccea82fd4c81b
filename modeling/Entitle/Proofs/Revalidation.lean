import Entitle.Proofs.Cache.Conditional
import Entitle.Proofs.Gateway.Backend

/-!
# Revalidation

Main statement: `revalidation`. A 304 is answered with the body of the response that was stored last for the signature.
The cache compares no tags, so that this is the body of the tag in its own request rests on single flight, and single
flight on tasks that end in time: a task that is aborted when it has its outcome settles it all the same, perhaps after
the next exchange of the signature has sent its request (`late_outcome_replayed`). So the statement names those that
come in between, `intruders`, and says what holds with them and without.

The store is any that is a map. Storage keys are apart on the signatures that occur in a run.
-/

namespace Entitle

open Flight ConditionalCache
open KeyValueStore (IsMap)

namespace CacheEntry

/-- What an entry keeps of a response. -/
def content (e : CacheEntry) : String × Bytes := (e.tag, Text.utf8 e.body)

end CacheEntry

namespace ConditionalCache

/-- The response that an outcome leaves in an entry. -/
def stored? (now : Instant) : Outcome → Option Response
  | .ok response => if (entryOf? now response).isSome then some response else none
  | .error _ => none

theorem entryOf?_content {now : Instant} {response : Response} {entry : CacheEntry}
    (h : entryOf? now response = some entry) :
    response.tag = some entry.tag ∧ response.body = Text.utf8 entry.body := by
  unfold entryOf? at h
  split at h
  swap
  · cases h
  split at h
  swap
  · cases h
  next tag body htag hbody =>
  split at h
  · cases h
    exact ⟨htag, Text.ofUtf8?_eq_some_iff.1 hbody⟩
  · cases h

theorem entryOf?_of_isNotModified {now : Instant} {response : Response} (h : response.status.isNotModified) :
    entryOf? now response = none := by
  have hcode : response.status.code = 304 := by simpa [Status.isNotModified] using h
  simp [entryOf?, Status.isSuccessful, hcode]

theorem stored?_of_isNotModified {now : Instant} {response : Response} (h : response.status.isNotModified) :
    stored? now (.ok response) = none := by
  rw [stored?, entryOf?_of_isNotModified h]
  rfl

theorem tag_of_stored? {now : Instant} {outcome : Outcome} {response : Response}
    (h : stored? now outcome = some response) : ∃ tag, response.tag = some tag := by
  cases outcome with
  | error e => cases h
  | ok received =>
    simp only [stored?] at h
    split at h
    swap
    · cases h
    next hsome =>
    cases h
    obtain ⟨entry, hentry⟩ := Option.isSome_iff_exists.1 hsome
    exact ⟨entry.tag, (entryOf?_content hentry).1⟩

theorem recorded_content (now : Instant) (outcome : Outcome) (entry : Option CacheEntry) :
    (recorded now outcome entry).map CacheEntry.content =
      match stored? now outcome with
      | some response => response.tag.map (·, response.body)
      | none => entry.map CacheEntry.content := by
  cases outcome with
  | error e => rfl
  | ok response =>
    simp only [recorded, stored?]
    split
    · next h304 =>
      rw [entryOf?_of_isNotModified h304]
      cases entry <;> rfl
    · cases he : entryOf? now response with
      | none => simp
      | some stored =>
        obtain ⟨htag, hbody⟩ := entryOf?_content he
        simp [htag, hbody, CacheEntry.content]

end ConditionalCache

namespace Gateway
variable {σ : Type} {view : σ → String → Option Bytes} {g : Gateway σ} {s : Signature} {t task : Nat} {event : Event}

/-! ### What a run shows -/

/-- The signature that an event brings in. -/
def Event.signature? : Event → Option Signature
  | .enter s => some s
  | .invalidate s => some s
  | _ => none

/-- The event drops the entry of a signature for a caller. -/
def Event.forgets (s : Signature) : Event → Bool
  | .invalidate s' => s' = s
  | .clear => true
  | _ => false

/-- The task that an event settles an outcome for. -/
def Event.settler? : Event → Option Nat
  | .settle _ t => some t
  | .forget t => some t
  | _ => none

/-- The storage keys of the signatures in a run are apart. -/
def KeysApart (events : List Event) : Prop :=
  ∀ s₁ ∈ events.filterMap Event.signature?, ∀ s₂ ∈ events.filterMap Event.signature?,
    storageKey s₁ = storageKey s₂ → s₁ = s₂

/-- The outcome that a task has received and not settled. -/
def received? (g : Gateway σ) (t : Nat) : Option Outcome :=
  match g.progress.get? t with
  | some (.received outcome) => some outcome
  | _ => none

/-- A task whose 304 found no entry, and that has not made sure of it. -/
def mustForget (g : Gateway σ) (t : Nat) : Bool :=
  match g.progress.get? t with
  | some (.settled _ missed) => missed
  | _ => false

/-- The response that an event stores for a signature. -/
def stores? (g : Gateway σ) (s : Signature) : Event → Option Response
  | .settle now t => if g.plans.get? t = some ⟨s, true⟩ then (g.received? t).bind (stored? now) else none
  | _ => none

/-- The event drops the entry of a signature, for a caller or for a task. -/
def drops (g : Gateway σ) (s : Signature) : Event → Bool
  | .forget t => g.mustForget t && (g.plans.get? t).any (·.signature = s)
  | event => event.forgets s

/-- The response stored last and not dropped since, after an event. -/
def keeps (g : Gateway σ) (s : Signature) (last : Option Response) (event : Event) : Option Response :=
  (g.stores? s event).or (if g.drops s event then none else last)

/-- Another task than the given one that stores a response for a signature or drops its entry, and whether it has been
aborted. -/
def intruder? (g : Gateway σ) (s : Signature) (task : Nat) (event : Event) : Option (Nat × Bool) :=
  event.settler?.bind fun t =>
    if t ≠ task ∧ ((g.stores? s event).isSome ∨ g.drops s event) then some (t, t ∈ g.relay.pool.coalescer.aborted)
    else none

/-- The error in place of a 304 that answers nothing. -/
def unmatched (response : Response) : Classified Json :=
  .error (.malformed Classify.unmatchedNotModified (Text.lossy response.body))

/-- What a 304 amounts to: the given response, or an error if there is none. -/
def replay (last : Option Response) (response : Response) : Classified Json :=
  match last with
  | some last => Classify.classify (.ok ⟨⟨200⟩, last.tag, last.body⟩)
  | none => unmatched response

/-- Tag and body known for a signature. -/
def content (view : σ → String → Option Bytes) (g : Gateway σ) (s : Signature) : Option (String × Bytes) :=
  (known view g.cache g.store (storageKey s)).map CacheEntry.content

/-- The entry of a signature is from the given response. -/
def Holds (view : σ → String → Option Bytes) (g : Gateway σ) (s : Signature) : Option Response → Prop
  | some last => ∃ tag, last.tag = some tag ∧ content view g s = some (tag, last.body)
  | none => content view g s = none

theorem received?_eq_some {outcome : Outcome} :
    g.received? t = some outcome ↔ g.progress.get? t = some (.received outcome) := by
  unfold received?
  rcases g.progress.get? t with _ | _ | _ | _ <;> simp

theorem mustForget_iff : g.mustForget t ↔ ∃ result, g.progress.get? t = some (.settled result true) := by
  unfold mustForget
  rcases g.progress.get? t with _ | _ | ⟨_, _ | _⟩ | _ <;> simp

variable [KeyValueStore σ]

/-- The response stored last for a signature in a run. -/
def lastStored? (s : Signature) (g : Gateway σ) : List Event → Option Response
  | [] => none
  | event :: rest => (lastStored? s (g.step event) rest).or (g.stores? s event)

/-- The response stored last for a signature and not dropped since, after a run. -/
def kept (s : Signature) (g : Gateway σ) (last : Option Response) : List Event → Option Response
  | [] => last
  | event :: rest => kept s (g.step event) (g.keeps s last event) rest

/-- Those that store a response for a signature or drop its entry in a run, other than the given task. -/
def intruders (s : Signature) (task : Nat) (g : Gateway σ) : List Event → List (Nat × Bool)
  | [] => []
  | event :: rest => (g.intruder? s task event).toList ++ intruders s task (g.step event) rest

/-- The plan and the request that an event sends. -/
def sends? (g : Gateway σ) : Event → Option (Plan × Request)
  | .send t =>
    if g.works t && (g.sent.get? t).isNone then
      (g.plans.get? t).map fun plan => (plan, (Backend.requestOf plan g.cache g.store).1)
    else none
  | _ => none

/-- The plans and requests of the exchanges that a run sends, in order. -/
def sendings (g : Gateway σ) : List Event → List (Plan × Request)
  | [] => []
  | event :: rest => (g.sends? event).toList ++ sendings (g.step event) rest

/-! ### Plans and requests -/

theorem plans_cases (g : Gateway σ) (event : Event) :
    (g.step event).plans = g.plans ∨
      ∃ e useCache delay draw, event = .begin e useCache delay draw ∧ g.relay.isUnassigned e ∧
        (g.step event).plans = g.plans.put g.relay.pool.nextTask ⟨e.key, useCache && g.caching⟩ := by
  have hchange := g.change event
  generalize g.step event = g' at hchange ⊢
  cases hchange with
  | begin hu => exact .inr ⟨_, _, _, _, rfl, hu, rfl⟩
  | _ => exact .inl rfl

theorem Coherent.plan_step (h : g.Coherent) {plan : Plan} (hp : g.plans.get? t = some plan) (event : Event) :
    (g.step event).plans.get? t = some plan := by
  rcases g.plans_cases event with hsame | ⟨_, _, _, _, -, -, hplans⟩
  · rw [hsame, hp]
  · have hlt := h.plan_lt (t := t) (by rw [hp]; simp)
    rw [hplans, Table.get?_put, if_neg (Nat.ne_of_gt hlt), hp]

theorem Coherent.plan_run (h : g.Coherent) {plan : Plan} (hp : g.plans.get? t = some plan) (events : List Event) :
    (g.run events).plans.get? t = some plan := by
  induction events generalizing g with
  | nil => exact hp
  | cons event rest ih => exact ih (h.step event) (h.plan_step hp event)

theorem sent_step {r : Request} (hr : (g.step event).sent.get? t = some r) :
    g.sent.get? t = some r ∨
      event = .send t ∧ ∃ plan, g.plans.get? t = some plan ∧ g.sends? event = some (plan, r) := by
  have hchange := g.change event
  generalize g.step event = g' at hchange hr
  cases hchange with
  | send hw hplan =>
    rw [Table.get?_put] at hr
    split at hr
    swap
    · exact .inl hr
    next heq =>
    cases hr
    subst heq
    exact .inr ⟨rfl, _, hplan, by rw [sends?, if_pos hw, hplan]; rfl⟩
  | _ => exact .inl hr

theorem sent_run {r : Request} {events : List Event} (hr : (g.run events).sent.get? t = some r) :
    g.sent.get? t = some r ∨ ∃ before mid plan, events = before ++ .send t :: mid ∧
      (g.run before).plans.get? t = some plan ∧ (g.run before).sends? (.send t) = some (plan, r) := by
  induction events generalizing g with
  | nil => exact .inl hr
  | cons event rest ih =>
    rcases ih hr with hstep | ⟨before, mid, plan, rfl, hp, hs⟩
    · rcases sent_step hstep with hold | ⟨rfl, plan, hp, hs⟩
      · exact .inl hold
      · exact .inr ⟨[], rest, plan, rfl, hp, hs⟩
    · exact .inr ⟨event :: before, mid, plan, rfl, hp, hs⟩

theorem sends?_eq_some {plan : Plan} {r : Request} (hs : g.sends? event = some (plan, r)) :
    ∃ t, event = .send t ∧ g.plans.get? t = some plan ∧ r = (Backend.requestOf plan g.cache g.store).1 := by
  cases event with
  | send t =>
    simp only [sends?] at hs
    split at hs
    · obtain ⟨plan', hplan, heq⟩ := Option.map_eq_some_iff.1 hs
      cases heq
      exact ⟨t, rfl, hplan, rfl⟩
    · cases hs
  | _ => cases hs

theorem mem_sendings {x : Plan × Request} {before mid : List Event} (hx : (g.run before).sends? event = some x) :
    x ∈ g.sendings (before ++ event :: mid) := by
  induction before generalizing g with
  | nil => exact List.mem_append_left _ (by rw [Option.mem_toList]; exact hx)
  | cons first rest ih => exact List.mem_append_right _ (ih hx)

/-! ### Signatures in scope -/

omit [KeyValueStore σ] in
theorem signatures_cons {scope : Signature → Prop} {rest : List Event} :
    (∀ s ∈ (event :: rest).filterMap Event.signature?, scope s) ↔
      (∀ s, event.signature? = some s → scope s) ∧ ∀ s ∈ rest.filterMap Event.signature?, scope s := by
  rw [List.filterMap_cons]
  cases event.signature? <;> simp [or_imp, forall_and]

omit [KeyValueStore σ] in
/-- The signatures of exchanges and plans. -/
structure Scoped (scope : Signature → Prop) (g : Gateway σ) : Prop where
  exchange : ∀ e ∈ g.relay.pool.coalescer.exchanges, scope e.key
  plan : ∀ t plan, g.plans.get? t = some plan → scope plan.signature

namespace Scoped
variable {scope : Signature → Prop}

omit [KeyValueStore σ] in
theorem openOn (store : σ) (caching : Bool) (limits : Limits) : (openOn store caching limits).Scoped scope where
  exchange e he := by simp [Gateway.openOn, Relay.ofLimits, Pool.ofLimits] at he
  plan t plan hp := by simp [Gateway.openOn] at hp

theorem step (hs : g.Scoped scope) (he : ∀ s, event.signature? = some s → scope s) : (g.step event).Scoped scope := by
  refine ⟨fun e hmem => ?_, fun t plan hp => ?_⟩
  · rcases g.move_cases event with hsame | ⟨m, hm, hstep⟩
    · exact hs.exchange e (hsame ▸ hmem)
    rw [hstep] at hmem
    rcases g.relay.coalescer_cases m with hsame | ⟨c, hc, hcoalescer⟩
    · exact hs.exchange e (hsame ▸ hmem)
    rw [hcoalescer] at hmem
    rcases Coalescer.mem_exchanges_step hmem with hold | ⟨key, rfl, hnew⟩
    · exact hs.exchange e hold
    · have hregister : m = .register key := Relay.asks_of_mem_trace hc
      subst hregister
      have henter : event = .enter key := asks_of_move? hm
      subst henter
      exact he e.key (congrArg some (Coalescer.key_of_register hnew).symm)
  · rcases g.plans_cases event with hsame | ⟨e, useCache, delay, draw, -, hu, hplans⟩
    · exact hs.plan t plan (hsame ▸ hp)
    rw [hplans, Table.get?_put] at hp
    split at hp
    · cases hp
      exact hs.exchange e (Relay.of_isUnassigned hu).1
    · exact hs.plan t plan hp

theorem run (hs : g.Scoped scope) {events : List Event} (he : ∀ s ∈ events.filterMap Event.signature?, scope s) :
    (g.run events).Scoped scope := by
  induction events generalizing g with
  | nil => exact hs
  | cons event rest ih =>
    obtain ⟨hfirst, hrest⟩ := signatures_cons.1 he
    exact ih (hs.step hfirst) hrest

end Scoped

/-! ### The entry over time -/

theorem requestOf_known (hv : IsMap view) (plan : Plan) (cache : ConditionalCache) (store : σ) (k : String) :
    known view (Backend.requestOf plan cache store).2.1 (Backend.requestOf plan cache store).2.2 k =
      known view cache store k := by
  unfold Backend.requestOf
  split
  · exact attach_known hv plan.signature _ k
  · rfl

theorem requestOf_tag? (hv : IsMap view) (plan : Plan) (cache : ConditionalCache) (store : σ) :
    (Backend.requestOf plan cache store).1.tag? =
      if plan.useCache then (known view cache store (storageKey plan.signature)).map (·.tag) else none := by
  unfold Backend.requestOf
  split
  · exact attach_tag? hv plan.signature
  · rfl

theorem tag?_of_sends? (hv : IsMap view) {x : Plan × Request} (hs : g.sends? event = some x) :
    x.2.tag? = if x.1.useCache then (content view g x.1.signature).map Prod.fst else none := by
  obtain ⟨t, -, -, hr⟩ := sends?_eq_some hs
  rw [hr, requestOf_tag? hv, content, Option.map_map]
  rfl

theorem misses_eq (hv : IsMap view) {response : Response} (h304 : response.status.isNotModified)
    (cache : ConditionalCache) (store : σ) :
    misses s (.ok response) cache store = (known view cache store (storageKey s)).isNone := by
  rw [misses, h304, Bool.true_and, (load_known hv _ cache store).1]

theorem isNotModified_of_misses {outcome : Outcome} {cache : ConditionalCache} {store : σ}
    (hm : misses s outcome cache store) : ∃ response, outcome = .ok response ∧ response.status.isNotModified := by
  cases outcome with
  | error e => cases hm
  | ok response => exact ⟨response, rfl, (Bool.and_eq_true_iff.1 hm).1⟩

theorem content_invalidate (hv : IsMap view) {scope : Signature → Prop}
    (apart : ∀ s', scope s' → storageKey s' = storageKey s → s' = s) {s' : Signature} (hs' : scope s') :
    content view (g.invalidate s') s = if s' = s then none else content view g s := by
  show (known view (ConditionalCache.invalidate s' g.cache g.store).1 (ConditionalCache.invalidate s' g.cache g.store).2
    (storageKey s)).map _ = _
  rw [invalidate_known hv]
  by_cases hss : storageKey s' = storageKey s
  · rw [if_pos hss, if_pos (apart s' hs' hss)]
    rfl
  · rw [if_neg hss, if_neg fun heq => hss (by rw [heq])]
    rfl

theorem content_settle (hv : IsMap view) {scope : Signature → Prop} (hs : g.Scoped scope)
    (apart : ∀ s', scope s' → storageKey s' = storageKey s → s' = s) (now : Instant) (t : Nat) :
    content view (g.settle now t) s =
      match g.stores? s (.settle now t) with
      | some response => response.tag.map (·, response.body)
      | none => content view g s := by
  simp only [settle, stores?]
  cases hr : g.received? t with
  | none =>
    have hp : ∀ outcome, g.progress.get? t ≠ some (.received outcome) := fun outcome hp => by
      cases hr.symm.trans (received?_eq_some.2 hp)
    split
    · next hp' _ => exact absurd hp' (hp _)
    · simp
  | some outcome =>
    rw [received?_eq_some] at hr
    cases hplan : g.plans.get? t with
    | none => simp [hr]
    | some plan =>
      obtain ⟨s', useCache⟩ := plan
      simp only [hr]
      split
      · next hm =>
        -- a 304 without an entry stores nothing, and to look for the entry changes nothing
        obtain ⟨response, rfl, h304⟩ := isNotModified_of_misses (Bool.and_eq_true_iff.1 hm).2
        rw [Option.bind_some, stored?_of_isNotModified h304, ite_self]
        exact congrArg (Option.map CacheEntry.content) ((load_known hv (storageKey s') g.cache g.store).2 _)
      · cases useCache with
        | false => simp [content, Backend.settled]
        | true =>
          show (known view (record now s' outcome g.cache g.store).2.1 (record now s' outcome g.cache g.store).2.2
            (storageKey s)).map CacheEntry.content = _
          rw [record_known hv]
          by_cases hss : storageKey s' = storageKey s
          · cases apart s' (hs.plan t _ hplan) hss
            rw [if_pos rfl, recorded_content]
            simp [content]
          · have hne : s' ≠ s := fun heq => hss (by rw [heq])
            simp [hss, hne, content]

theorem content_notModified (hv : IsMap view) {scope : Signature → Prop} (hs : g.Scoped scope)
    (apart : ∀ s', scope s' → storageKey s' = storageKey s → s' = s) {response : Response}
    (hr : g.received? t = some (.ok response)) (h304 : response.status.isNotModified) (now : Instant) :
    content view (g.settle now t) s = content view g s := by
  rw [content_settle hv hs apart, stores?, hr, Option.bind_some, stored?_of_isNotModified h304, ite_self]

/-- What an event makes of the entry of a signature: the response that it stores, nothing if it drops the entry, and
else what it was. -/
theorem content_step (hv : IsMap view) {scope : Signature → Prop} (hs : g.Scoped scope)
    (apart : ∀ s', scope s' → storageKey s' = storageKey s → s' = s)
    (he : ∀ s', event.signature? = some s' → scope s') :
    content view (g.step event) s =
      match g.stores? s event with
      | some response => response.tag.map (·, response.body)
      | none => if g.drops s event then none else content view g s := by
  cases event with
  | begin e useCache delay draw =>
    simp only [step, Gateway.begin]
    split <;> rfl
  | send t =>
    simp only [step, Gateway.send]
    split
    · split
      · next plan _ => exact congrArg (Option.map CacheEntry.content) (requestOf_known hv plan g.cache g.store _)
      · rfl
    · rfl
  | receive t outcome =>
    simp only [step, Gateway.receive]
    split <;> rfl
  | settle now t => exact content_settle hv hs apart now t
  | forget t =>
    by_cases hf : g.mustForget t
    · obtain ⟨result, hp⟩ := mustForget_iff.1 hf
      cases hplan : g.plans.get? t with
      | none => simp [step, Gateway.forget, stores?, drops, hp, hplan]
      | some plan =>
        simp only [step, Gateway.forget, stores?, drops, hp, hf, hplan, Bool.true_and, Option.any_some,
          decide_eq_true_eq]
        exact content_invalidate hv apart (hs.plan t plan hplan)
    · simp only [stores?, drops, Bool.eq_false_iff.2 hf, Bool.false_and, Bool.false_eq_true, if_false]
      show content view (g.forget t) s = _
      unfold Gateway.forget
      split
      · next hp _ => exact absurd (mustForget_iff.2 ⟨_, hp⟩) hf
      · rfl
  | complete t =>
    simp only [step, Gateway.complete]
    split <;> rfl
  | stop t =>
    simp only [step, Gateway.stop]
    split <;> rfl
  | invalidate s' =>
    simp only [stores?, drops, Event.forgets, decide_eq_true_eq]
    exact content_invalidate hv apart (he s' rfl)
  | clear =>
    show (known view (ConditionalCache.clear g.cache g.store).1 (ConditionalCache.clear g.cache g.store).2
      (storageKey s)).map _ = _
    rw [clear_known hv (startsWith_storageKey s)]
    rfl
  | _ => rfl

theorem Holds.step (hv : IsMap view) {scope : Signature → Prop} (hs : g.Scoped scope)
    (apart : ∀ s', scope s' → storageKey s' = storageKey s → s' = s) (he : ∀ s', event.signature? = some s' → scope s')
    {last : Option Response} (h : g.Holds view s last) : (g.step event).Holds view s (g.keeps s last event) := by
  have hcontent := content_step hv hs apart he
  unfold keeps
  cases hstore : g.stores? s event with
  | some response =>
    obtain ⟨now, outcome, hstored⟩ : ∃ now outcome, stored? now outcome = some response := by
      cases event with
      | settle now t =>
        simp only [stores?] at hstore
        split at hstore
        · obtain ⟨outcome, -, hstored⟩ := Option.bind_eq_some_iff.1 hstore
          exact ⟨now, outcome, hstored⟩
        · cases hstore
      | _ => cases hstore
    obtain ⟨tag, htag⟩ := tag_of_stored? hstored
    simp only [hstore, htag, Option.map_some] at hcontent
    exact ⟨tag, htag, hcontent⟩
  | none =>
    simp only [hstore] at hcontent
    rw [Option.none_or]
    split
    · next hd => rwa [if_pos hd] at hcontent
    · next hd =>
      rw [if_neg hd] at hcontent
      cases last with
      | none => exact hcontent.trans h
      | some last =>
        obtain ⟨tag, htag, hknown⟩ := h
        exact ⟨tag, htag, hcontent.trans hknown⟩

/-- The entry is always from the response that was stored last and not dropped since. -/
theorem Holds.run (hv : IsMap view) {scope : Signature → Prop} (hs : g.Scoped scope)
    (apart : ∀ s', scope s' → storageKey s' = storageKey s → s' = s) {events : List Event}
    (he : ∀ s' ∈ events.filterMap Event.signature?, scope s') {last : Option Response} (h : g.Holds view s last) :
    (g.run events).Holds view s (kept s g last events) := by
  induction events generalizing g last with
  | nil => exact h
  | cons event rest ih =>
    obtain ⟨hfirst, hrest⟩ := signatures_cons.1 he
    exact ih (hs.step hfirst) hrest (h.step hv hs apart hfirst)

omit [KeyValueStore σ] in
theorem Holds.tag {last : Option Response} (h : g.Holds view s last) :
    (content view g s).map Prod.fst = last.bind (·.tag) := by
  cases last with
  | none => exact congrArg (Option.map Prod.fst) h
  | some last =>
    obtain ⟨tag, htag, hcontent⟩ := h
    rw [hcontent, Option.bind_some, htag]
    rfl

omit [KeyValueStore σ] in
theorem Holds.eq_none {last : Option Response} (h : g.Holds view s last) (htag : last.bind (·.tag) = none) :
    last = none := by
  cases last with
  | none => rfl
  | some last =>
    obtain ⟨tag, hlast, -⟩ := h
    cases hlast.symm.trans htag

theorem kept_append (s : Signature) (g : Gateway σ) (last : Option Response) (l₁ l₂ : List Event) :
    kept s g last (l₁ ++ l₂) = kept s (g.run l₁) (kept s g last l₁) l₂ := by
  induction l₁ generalizing g last with
  | nil => rfl
  | cons event rest ih => exact ih (g.step event) (g.keeps s last event)

theorem lastStored?_append (s : Signature) (g : Gateway σ) (l₁ l₂ : List Event) :
    lastStored? s g (l₁ ++ l₂) = (lastStored? s (g.run l₁) l₂).or (lastStored? s g l₁) := by
  induction l₁ generalizing g with
  | nil => simp [lastStored?, run]
  | cons event rest ih =>
    rw [List.cons_append, lastStored?, lastStored?, ih, Option.or_assoc]
    rfl

theorem lastStored?_of_kept {events : List Event} {last : Response} (h : kept s g none events = some last) :
    lastStored? s g events = some last := by
  induction events using List.reverseRecOn with
  | nil => cases h
  | append_singleton events event ih =>
    rw [kept_append] at h
    rw [lastStored?_append]
    change ((g.run events).stores? s event).or (if (g.run events).drops s event then none else _) = some last at h
    show ((none : Option Response).or ((g.run events).stores? s event)).or (lastStored? s g events) = some last
    rw [Option.none_or]
    cases hstore : (g.run events).stores? s event with
    | some response => rw [hstore] at h; exact h
    | none =>
      rw [hstore, Option.none_or] at h
      split at h
      · cases h
      · exact ih h

/-! ### Who comes in between -/

omit [KeyValueStore σ] in
/-- A task that stores or drops for a signature is one of that signature, and it is on the way to its result. -/
theorem settler_cases (ht : event.settler? = some t) (hx : (g.stores? s event).isSome ∨ g.drops s event) :
    ∃ plan, g.plans.get? t = some plan ∧ plan.signature = s ∧
      ((∃ now outcome, event = .settle now t ∧ g.progress.get? t = some (.received outcome)) ∨
        ∃ result, event = .forget t ∧ g.progress.get? t = some (.settled result true)) := by
  cases event with
  | settle now t' =>
    cases ht
    rcases hx with hx | hx
    swap
    · cases hx
    simp only [stores?] at hx
    split at hx
    swap
    · cases hx
    next hplan =>
    cases hr : g.received? t with
    | none => rw [hr] at hx; cases hx
    | some outcome => exact ⟨_, hplan, rfl, .inl ⟨now, outcome, rfl, received?_eq_some.1 hr⟩⟩
  | forget t' =>
    cases ht
    rcases hx with hx | hx
    · cases hx
    obtain ⟨hf, hany⟩ := Bool.and_eq_true_iff.1 hx
    obtain ⟨result, hp⟩ := mustForget_iff.1 hf
    obtain ⟨plan, hplan, hs⟩ := (Option.any_eq_true _ _).1 hany
    exact ⟨plan, hplan, of_decide_eq_true hs, .inr ⟨result, rfl, hp⟩⟩
  | _ => cases ht

omit [KeyValueStore σ] in
theorem busy_of_settler (ht : event.settler? = some t) (hx : (g.stores? s event).isSome ∨ g.drops s event) :
    g.isBusy t := by
  obtain ⟨-, -, -, ⟨-, outcome, -, hp⟩ | ⟨result, -, hp⟩⟩ := settler_cases ht hx <;> rw [isBusy, hp] <;> rfl

theorem hasResult_of_settler (ht : event.settler? = some t) (hx : (g.stores? s event).isSome ∨ g.drops s event) :
    ∃ result, (g.step event).HasResult t result := by
  have hput : ∀ p, (g.progress.put t p).get? t = some p := fun p => by rw [Table.get?_put, if_pos rfl]
  obtain ⟨plan, hplan, -, ⟨now, outcome, rfl, hp⟩ | ⟨result, rfl, hp⟩⟩ := settler_cases ht hx
  · simp only [step, Gateway.settle, hp, hplan]
    split <;> exact ⟨_, .inl ⟨_, hput _⟩⟩
  · simp only [step, Gateway.forget, hp, hplan]
    exact ⟨result, .inl ⟨false, hput _⟩⟩

omit [KeyValueStore σ] in
theorem intruder?_eq_none (hx : g.intruder? s task event = none) :
    (g.stores? s event = none ∧ g.drops s event = event.forgets s) ∨
      (event.settler? = some task ∧ ((g.stores? s event).isSome ∨ g.drops s event)) := by
  by_cases hany : (g.stores? s event).isSome ∨ g.drops s event
  swap
  · obtain ⟨hstore, hdrop⟩ := not_or.1 hany
    refine .inl ⟨by simpa using hstore, ?_⟩
    cases event with
    | invalidate s' | clear => rfl
    | _ => exact Bool.eq_false_iff.2 hdrop
  cases hsettler : event.settler? with
  | none =>
    cases event with
    | settle now t => cases hsettler
    | forget t => cases hsettler
    | _ => exact .inl ⟨rfl, rfl⟩
  | some t =>
    rw [intruder?, hsettler, Option.bind_some] at hx
    by_cases ht : t = task
    · exact .inr ⟨congrArg some ht, hany⟩
    · rw [if_pos ⟨ht, hany⟩] at hx
      cases hx

omit [KeyValueStore σ] in
theorem of_intruder? {x : Nat × Bool} (hx : g.intruder? s task event = some x) :
    event.settler? = some x.1 ∧ x.1 ≠ task ∧ ((g.stores? s event).isSome ∨ g.drops s event) ∧
      (x.2 ↔ x.1 ∈ g.relay.pool.coalescer.aborted) := by
  obtain ⟨t, ht, hx⟩ := Option.bind_eq_some_iff.1 hx
  split at hx
  swap
  · cases hx
  next hcond =>
  cases hx
  exact ⟨ht, hcond.1, hcond.2, decide_eq_true_iff⟩

theorem mem_intruders {x : Nat × Bool} {events : List Event} (hx : x ∈ intruders s task g events) :
    ∃ before event after, events = before ++ event :: after ∧ (g.run before).intruder? s task event = some x := by
  induction events generalizing g with
  | nil => cases hx
  | cons event rest ih =>
    rcases List.mem_append.1 hx with hx | hx
    · exact ⟨[], event, rest, rfl, Option.mem_toList.1 hx⟩
    · obtain ⟨before, event', after, rfl, hevent⟩ := ih hx
      exact ⟨event :: before, event', after, rfl, hevent⟩

omit [KeyValueStore σ] in
theorem HasResult.received?_eq_none {result : Classified Json} (h : g.HasResult t result) : g.received? t = none := by
  rcases h with ⟨missed, hp⟩ | hp <;> rw [received?, hp]

/-- From a request to its outcome nothing is stored without an intruder, and only callers drop the entry. -/
theorem kept_of_received {outcome : Outcome} {events : List Event} (hr : (g.run events).received? task = some outcome)
    (hx : intruders s task g events = []) (last : Option Response) :
    kept s g last events = (if events.any (·.forgets s) then none else last) ∧ lastStored? s g events = none := by
  induction events generalizing g last with
  | nil => exact ⟨rfl, rfl⟩
  | cons event rest ih =>
    obtain ⟨hfirst, hrest⟩ := List.append_eq_nil_iff.1 hx
    rcases intruder?_eq_none (by simpa using hfirst) with ⟨hstore, hdrop⟩ | ⟨hsettler, hsettles⟩
    · obtain ⟨hkept, hlast⟩ := ih hr hrest (g.keeps s last event)
      rw [kept, hkept, lastStored?, hlast, hstore, keeps, hstore, hdrop, Option.none_or, List.any_cons]
      refine ⟨?_, rfl⟩
      cases event.forgets s <;> simp
    · -- the task itself would have its result by now
      obtain ⟨result, hresult⟩ := hasResult_of_settler hsettler hsettles
      cases (hresult.run rest).received?_eq_none.symm.trans hr

theorem kept_since_sending {outcome : Outcome} {before mid : List Event}
    (hr : (g.run (before ++ .send task :: mid)).received? task = some outcome)
    (hx : intruders s task ((g.run before).step (.send task)) mid = []) :
    kept s g none (before ++ .send task :: mid) = (if mid.any (·.forgets s) then none else kept s g none before) ∧
      lastStored? s g (before ++ .send task :: mid) = lastStored? s g before := by
  rw [run_append] at hr
  obtain ⟨hkept, hlast⟩ := kept_of_received (g := (g.run before).step (.send task)) hr hx (kept s g none before)
  rw [kept_append, lastStored?_append]
  refine ⟨hkept, ?_⟩
  rw [lastStored?, hlast]
  rfl

/-- Once nothing is known and the outcome is settled, the next request has no tag without an intruder. -/
theorem next_tag? (hv : IsMap view) {scope : Signature → Prop} (hs : g.Scoped scope)
    (apart : ∀ s', scope s' → storageKey s' = storageKey s → s' = s) {events : List Event}
    (he : ∀ s' ∈ events.filterMap Event.signature?, scope s') (hnone : content view g s = none)
    {result : Classified Json} (hresult : g.HasResult task result) (hintruders : intruders s task g events = [])
    {x : Plan × Request} (hx : (g.sendings events).find? (·.1.signature = s) = some x) : x.2.tag? = none := by
  induction events generalizing g with
  | nil => cases hx
  | cons event rest ih =>
    obtain ⟨hsig, hsigs⟩ := signatures_cons.1 he
    obtain ⟨hfirst, hrest⟩ := List.append_eq_nil_iff.1 hintruders
    have hstore : g.stores? s event = none := by
      rcases intruder?_eq_none (by simpa using hfirst) with ⟨hstore, -⟩ | ⟨hsettler, -⟩
      · exact hstore
      · cases event with
        | settle now t =>
          cases hsettler
          simp [stores?, hresult.received?_eq_none]
        | _ => rfl
    have hnext : content view (g.step event) s = none := by
      rw [content_step hv hs apart hsig, hstore]
      simp [hnone]
    rw [sendings] at hx
    cases hsend : g.sends? event with
    | none =>
      rw [hsend] at hx
      exact ih (hs.step hsig) hsigs hnext (hresult.step event) hrest hx
    | some y =>
      rw [hsend, Option.toList_some, List.singleton_append, List.find?_cons] at hx
      split at hx
      · next hsame =>
        cases hx
        rw [tag?_of_sends? hv hsend, of_decide_eq_true hsame, hnone]
        simp
      · exact ih (hs.step hsig) hsigs hnext (hresult.step event) hrest hx

namespace Coherent

omit [KeyValueStore σ] in
/-- If nobody listens to a task of the signature but perhaps to the given one, whoever comes in between has been
aborted. -/
theorem aborted_of_intruder (h : g.Coherent) {gone : List (Exchange Signature)} (htracked : g.relay.Tracked gone)
    {x : Nat × Bool} (hx : g.intruder? s task event = some x)
    (halone : ∀ t e, g.relay.orders.get? t = some e → e.key = s → g.isBusy t →
      g.relay.pool.coalescer.registry.audience e ≠ [] → t = task) : x.2 := by
  obtain ⟨hsettler, hne, hsettles, haborted⟩ := of_intruder? hx
  obtain ⟨plan, hplan, hkey, -⟩ := settler_cases hsettler hsettles
  obtain ⟨e, ho, hkey'⟩ := h.order_of_plan hplan
  have hbusy := busy_of_settler hsettler hsettles
  refine haborted.2 (h.mem_aborted_of_busy htracked hbusy ho ?_)
  by_contra hheard
  exact hne (halone x.1 e ho (hkey'.trans hkey) hbusy hheard)

theorem tracked_run (h : g.Coherent) {gone : List (Exchange Signature)} (htracked : g.relay.Tracked gone)
    (events : List Event) : ∃ gone, (g.run events).relay.Tracked gone := by
  rw [relay_run]
  exact ⟨_, htracked.run h.relay _⟩

/-- Whoever comes in between while someone goes on listening has been aborted. -/
theorem aborted_before (h : g.Coherent) {gone : List (Exchange Signature)} (htracked : g.relay.Tracked gone)
    {e : Exchange Signature} (ho : g.relay.orders.get? task = some e) {events : List Event}
    (hheard : (g.run events).relay.pool.coalescer.registry.audience e ≠ []) {x : Nat × Bool}
    (hx : x ∈ intruders e.key task g events) : x.2 := by
  obtain ⟨before, event, after, rfl, hevent⟩ := mem_intruders hx
  rw [run_append] at hheard
  have hbefore := h.run before
  have ho' := h.order_run ho before
  obtain ⟨gone', htracked'⟩ := h.tracked_run htracked before
  refine hbefore.aborted_of_intruder htracked' hevent fun t e' hot hkey _ hheard' => ?_
  exact hbefore.task_unique hot ho' hkey hheard' (hbefore.audience_of_run ho' hheard)

/-- If someone listens, whoever settles an outcome before the next request of the signature has been aborted. -/
theorem aborted_after (h : g.Coherent) {gone : List (Exchange Signature)} (htracked : g.relay.Tracked gone)
    {e : Exchange Signature} (ho : g.relay.orders.get? task = some e)
    (hheard : g.relay.pool.coalescer.registry.audience e ≠ []) {events : List Event}
    (hsends : (g.sendings events).find? (·.1.signature = e.key) = none) {x : Nat × Bool}
    (hx : x ∈ intruders e.key task g events) : x.2 := by
  obtain ⟨before, event, after, rfl, hevent⟩ := mem_intruders hx
  have hbefore := h.run before
  obtain ⟨gone', htracked'⟩ := h.tracked_run htracked before
  refine hbefore.aborted_of_intruder htracked' hevent fun t e' hot hkey hbusy hheard' => ?_
  obtain ⟨r, hr⟩ := Option.ne_none_iff_exists'.1 (hbefore.progress_sent t (isBusy_iff.1 hbusy).1)
  rcases sent_run hr with hsent | ⟨earlier, later, plan, rfl, hplan, hsend⟩
  · -- its request was sent before, so it has had its exchange since
    have hplanned := h.sent_planned t (by rw [hsent]; simp)
    obtain ⟨plan, hplan⟩ := Option.ne_none_iff_exists'.1 hplanned
    obtain ⟨e'', ho', -⟩ := h.order_of_plan hplan
    cases (h.order_run ho' before).symm.trans hot
    exact h.task_unique ho' ho hkey (h.audience_of_run ho' hheard') hheard
  · obtain ⟨e'', ho', hkey'⟩ := (h.run earlier).order_of_plan hplan
    rw [run_append] at hot
    have hot' := (h.run earlier).order_run ho' (.send t :: later)
    cases hot'.symm.trans hot
    have hmem : (plan, r) ∈ g.sendings (earlier ++ .send t :: (later ++ event :: after)) := mem_sendings hsend
    rw [List.append_assoc] at hsends
    have hnot := List.find?_eq_none.1 hsends _ hmem
    exact absurd (hkey'.symm.trans hkey) (by simpa using hnot)

end Coherent

/-! ### Aborted tasks that stop at once -/

omit [KeyValueStore σ] in
theorem settler?_parts {b : Backend σ} {past : Backend.Event} (hp : ∀ now t outcome, past ≠ .answer now t outcome)
    (he : event ∈ parts b past) : event.settler? = none := by
  cases past with
  | answer now t outcome => exact absurd rfl (hp now t outcome)
  | enter s delay =>
    simp only [parts] at he
    split at he
    · rcases List.mem_pair.1 he with rfl | rfl <;> rfl
    · rw [List.mem_singleton.1 he]; rfl
  | launch e useCache delay draw =>
    simp only [parts] at he
    split at he
    swap
    · cases he
    split at he <;> simp only [List.mem_cons, List.mem_append, List.not_mem_nil, or_false, false_or] at he
    · rcases he with rfl | rfl | rfl | rfl <;> rfl
    · rcases he with rfl | rfl | rfl <;> rfl
  | poll t => rcases List.mem_pair.1 he with rfl | rfl <;> rfl
  | leave w =>
    rcases List.mem_cons.1 he with rfl | he
    · rfl
    · obtain ⟨t, -, rfl⟩ := List.mem_map.1 he
      rfl
  | expire t | fail t | take w | invalidate s | clear => rw [List.mem_singleton.1 he]; rfl

theorem relay_of_parts {past : Backend.Event} {before after : List Event}
    (hsplit : parts g.backend past = before ++ event :: after) (ht : event.settler? = some t) :
    (g.run before).relay = g.relay := by
  have hmem : event ∈ parts g.backend past := by rw [hsplit]; simp
  by_cases hp : ∀ now t outcome, past ≠ .answer now t outcome
  · cases (settler?_parts hp hmem).symm.trans ht
  simp only [not_forall, not_not] at hp
  obtain ⟨now, t', outcome, rfl⟩ := hp
  simp only [parts] at hsplit
  split at hsplit
  swap
  · cases before <;> cases hsplit
  rcases before with _ | ⟨first, _ | ⟨second, _ | ⟨third, rest⟩⟩⟩ <;>
    simp only [List.nil_append, List.cons_append, List.cons.injEq] at hsplit
  · obtain ⟨rfl, -⟩ := hsplit
    cases ht
  · obtain ⟨rfl, -⟩ := hsplit
    exact relay_step g (.receive t' outcome)
  · obtain ⟨rfl, rfl, -⟩ := hsplit
    exact (relay_step (g.step (.receive t' outcome)) (.settle now t')).trans (relay_step g (.receive t' outcome))
  · obtain ⟨-, -, -, hrest⟩ := hsplit
    have hlast : event ∈ [.complete t', .stop t'] := by rw [hrest]; simp
    rcases List.mem_pair.1 hlast with rfl | rfl <;> cases ht

namespace Idle

/-- Whenever a backend settles an outcome, every aborted task has stopped. -/
theorem relay_of_settler (h : g.Idle) {past : List Backend.Event} {before after : List Event}
    (hsplit : partsAll g.backend past = before ++ event :: after) (ht : event.settler? = some t) :
    (g.run before).relay.Settled := by
  induction past generalizing g before with
  | nil => cases before <;> cases hsplit
  | cons first rest ih =>
    obtain ⟨hidle, hbackend⟩ := h.step first
    rw [partsAll, ← hbackend] at hsplit
    rcases List.append_eq_append_iff.1 hsplit with ⟨inside, rfl, hrest⟩ | ⟨inside, hfirst, hrest⟩
    · rw [run_append]
      exact ih hidle hrest
    · cases inside with
      | nil =>
        rw [List.append_nil] at hfirst
        have hsettled := ih hidle (show _ = [] ++ event :: after from hrest.symm)
        exact hfirst ▸ hsettled
      | cons event' inside =>
        obtain ⟨rfl, -⟩ := List.cons.inj hrest
        rw [relay_of_parts hfirst ht]
        exact h.settled

/-- In a backend nobody who settles an outcome has been aborted. -/
theorem not_aborted_of_intruder (h : g.Idle) {gone : List (Exchange Signature)} (htracked : g.relay.Tracked gone)
    {past : List Backend.Event} {before events after : List Event}
    (hsplit : partsAll g.backend past = before ++ (events ++ after)) {x : Nat × Bool}
    (hx : x ∈ intruders s task (g.run before) events) : ¬x.2 := by
  obtain ⟨earlier, event, later, rfl, hevent⟩ := mem_intruders hx
  rw [← run_append] at hevent
  obtain ⟨hsettler, -, hsettles, haborted⟩ := of_intruder? hevent
  have hcoherent := h.coherent.run (before ++ earlier)
  obtain ⟨gone', htracked'⟩ := h.coherent.tracked_run htracked (before ++ earlier)
  have hpast : partsAll g.backend past = (before ++ earlier) ++ event :: (later ++ after) := by rw [hsplit]; simp
  have hsettled := h.relay_of_settler hpast hsettler
  obtain ⟨e, -, ho, hin⟩ := hcoherent.holds_of_busy (busy_of_settler hsettler hsettles)
  intro haborted'
  obtain ⟨e', hgone, ho', -⟩ := (htracked'.aborted x.1).1 (haborted.1 haborted')
  cases ho.symm.trans ho'
  exact hsettled.attended x.1 e ho hin (htracked'.silent e hgone).1

theorem intruders_eq_nil (h : g.Idle) {gone : List (Exchange Signature)} (htracked : g.relay.Tracked gone)
    {past : List Backend.Event} {before events after : List Event}
    (hsplit : partsAll g.backend past = before ++ (events ++ after))
    (haborted : ∀ x ∈ intruders s task (g.run before) events, x.2) : intruders s task (g.run before) events = [] :=
  List.eq_nil_iff_forall_not_mem.2 fun x hx => h.not_aborted_of_intruder htracked hsplit hx (haborted x hx)

end Idle

/-! ### The answer -/

theorem classify_of_isNotModified {response : Response} (h : response.status.isNotModified) :
    Classify.classify (.ok response) = unmatched response := by
  have hcode : response.status.code = 304 := by simpa [Status.isNotModified] using h
  simp [Classify.classify, Status.isSuccessful, Status.isNotModified, hcode, unmatched]

theorem settle_notModified (hv : IsMap view) (hplan : g.plans.get? t = some ⟨s, true⟩) {response : Response}
    (hr : g.received? t = some (.ok response)) (h304 : response.status.isNotModified) (now : Instant)
    {last : Option Response} (h : g.Holds view s last) :
    ∃ missed, (g.settle now t).progress.get? t = some (.settled (replay last response) missed) := by
  have hput : ∀ p, (g.progress.put t p).get? t = some p := fun p => by rw [Table.get?_put, if_pos rfl]
  have hmisses := misses_eq (s := s) hv h304 g.cache g.store
  simp only [Gateway.settle, received?_eq_some.1 hr, hplan, Bool.true_and, hmisses]
  cases last with
  | none =>
    have hunknown : known view g.cache g.store (storageKey s) = none := Option.map_eq_none_iff.1 h
    rw [hunknown]
    refine ⟨true, (hput _).trans ?_⟩
    rw [classify_of_isNotModified h304]
    rfl
  | some last =>
    obtain ⟨tag, htag, hcontent⟩ := h
    obtain ⟨entry, hknown, hentry⟩ := Option.map_eq_some_iff.1 hcontent
    obtain ⟨rfl, hbody⟩ := Prod.mk.inj hentry
    rw [hknown]
    refine ⟨false, (hput _).trans ?_⟩
    simp only [Backend.settled, if_true, record, h304, settleNotModified_fst hv, hknown, replay, htag, ← hbody]

/-- A task that has its outcome sent its request before, with the plan that it has. -/
theorem Coherent.exists_sending (h : g.Coherent) (hnone : g.sent.get? t = none) {events : List Event} {plan : Plan}
    (ht : (g.run events).isBusy t) (hplan : (g.run events).plans.get? t = some plan) :
    ∃ before mid e r, events = before ++ .send t :: mid ∧ (g.run before).sends? (.send t) = some (plan, r) ∧
      (g.run before).relay.orders.get? t = some e ∧ (g.run events).relay.orders.get? t = some e ∧
      e.key = plan.signature := by
  have hafter := h.run events
  obtain ⟨r, hr⟩ := Option.ne_none_iff_exists'.1 (hafter.progress_sent t (isBusy_iff.1 ht).1)
  obtain ⟨before, mid, plan', rfl, hplan', hsends⟩ := (sent_run hr).resolve_left (by simp [hnone])
  have hbefore := h.run before
  obtain ⟨e, ho, hkey⟩ := hbefore.order_of_plan hplan'
  have hplanned := hbefore.plan_run hplan' (.send t :: mid)
  have hordered := hbefore.order_run ho (.send t :: mid)
  rw [← run_append] at hplanned hordered
  cases hplanned.symm.trans hplan
  exact ⟨before, mid, e, r, rfl, hsends, ho, hordered, hkey⟩

/-- Revalidation, after any run over a store that is a map and holds no entries at first; an abort only marks a task,
which settles the outcome that it has. When a cached exchange is answered 304, go back to the sending of its request.
The tag of the request is that of the response stored last and not dropped since, then, and the callers get what the
response stored last and not dropped since, now, amounts to as a 200; if there is none they get an error.

Unless another task of the signature stored or dropped in between, these are one response: the one stored last, with the
tag of the request, and only a caller can have dropped it. If the request had no tag the callers get the error, and
unless another task stores something before it, the next request of the signature has no tag either. While someone
listens such a task can only be one that was aborted; where aborted tasks stop at once, as in a backend, there is none.
-/
theorem revalidation (hv : IsMap view) (store : σ)
    (hempty : ∀ key, Text.startsWith key keyStart → view store key = none) (caching : Bool) (limits : Limits)
    (events : List Event) (hkeys : KeysApart events)
    (hplan : ((openOn store caching limits).run events).plans.get? task = some ⟨s, true⟩) {response : Response}
    (hreceived : ((openOn store caching limits).run events).received? task = some (.ok response))
    (h304 : response.status.isNotModified) (now : Instant) :
    let start := openOn store caching limits
    let b := start.run events
    let answered := b.step (.settle now task)
    ∃ before mid e r result missed, events = before ++ .send task :: mid ∧
      (start.run before).sends? (.send task) = some (⟨s, true⟩, r) ∧
      b.relay.orders.get? task = some e ∧ e.key = s ∧
      answered.progress.get? task = some (.settled result missed) ∧
      r.tag? = (kept s start none before).bind (·.tag) ∧
      result = replay (kept s start none events) response ∧
      (intruders s task ((start.run before).step (.send task)) mid = [] →
        (∀ tag, r.tag? = some tag → ∃ last, lastStored? s start events = some last ∧ last.tag = some tag ∧
          result = if mid.any (·.forgets s) then unmatched response
            else Classify.classify (.ok ⟨⟨200⟩, some tag, last.body⟩)) ∧
        (r.tag? = none → result = unmatched response ∧
          ∀ later, KeysApart (events ++ later) → intruders s task answered later = [] → ∀ x,
            (answered.sendings later).find? (·.1.signature = s) = some x → x.2.tag? = none)) ∧
      (b.relay.pool.coalescer.listening e ≠ [] →
        (∀ x ∈ intruders s task ((start.run before).step (.send task)) mid, x.2) ∧
        ∀ later, (answered.sendings later).find? (·.1.signature = s) = none →
          ∀ x ∈ intruders s task answered later, x.2) ∧
      (∀ past later, partsAll (.openOn store caching limits) past = events ++ .settle now task :: later →
        b.relay.pool.coalescer.listening e ≠ [] ∧
        intruders s task ((start.run before).step (.send task)) mid = [] ∧
        ((answered.sendings later).find? (·.1.signature = s) = none → intruders s task answered later = [])) ∧
      ∀ w between after, w ∈ (answered.run between).relay.pool.coalescer.listening e → .leave w ∉ after →
        .take w ∉ after → ((answered.run (between ++ after)).take w).1 =
          if (answered.run (between ++ after)).hasDelivered task then some result else none := by
  intro start b answered
  have hstart : start.Coherent := .openOn store caching limits
  have hb : b.Coherent := hstart.run events
  have hbusy : b.isBusy task := by rw [isBusy, received?_eq_some.1 hreceived]; rfl
  obtain ⟨before, mid, e, r, hsplit, hsends, hobefore, ho, rfl⟩ := hstart.exists_sending rfl hbusy hplan
  let sending := (start.run before).step (.send task)
  have hsendingRun : sending = start.run (before ++ [.send task]) := by rw [run_append]; rfl
  have hansweredRun : answered = start.run (events ++ [.settle now task]) := by rw [run_append]; rfl
  have hsending : sending.Coherent := (hstart.run before).step _
  have hosending : sending.relay.orders.get? task = some e := (hstart.run before).order_step hobefore _
  have hmid : b = sending.run mid := by
    show start.run events = _
    rw [hsplit, run_append]
    rfl
  have hanswered : answered.Coherent := hb.step _
  have hoanswered : answered.relay.orders.get? task = some e := hb.order_step ho _
  have hscoped : ∀ scope : Signature → Prop, start.Scoped scope := fun _ => .openOn store caching limits
  have hkey : e.key ∈ events.filterMap Event.signature? := ((hscoped _).run fun _ hs => hs).plan task _ hplan
  have apart := fun s' hs' => hkeys s' hs' e.key hkey
  have hfirst : start.Holds view e.key none := by
    show (known view {} store (storageKey e.key)).map _ = none
    simp [known, hempty _ (startsWith_storageKey e.key)]
  have hsent : (start.run before).Holds view e.key (kept e.key start none before) := by
    refine hfirst.run hv (hscoped (· ∈ events.filterMap Event.signature?)) apart fun s' hs' => ?_
    rw [hsplit]
    exact ((List.sublist_append_left before _).filterMap _).subset hs'
  have hknown : b.Holds view e.key (kept e.key start none events) :=
    hfirst.run hv (hscoped (· ∈ events.filterMap Event.signature?)) apart fun _ hs => hs
  have htag : r.tag? = (kept e.key start none before).bind (·.tag) := by
    rw [← hsent.tag]
    exact tag?_of_sends? hv hsends
  obtain ⟨missed, hresult⟩ := settle_notModified hv hplan hreceived h304 now hknown
  obtain ⟨gone, htracked⟩ := hstart.tracked_run (Relay.Tracked.ofLimits limits) (before ++ [.send task])
  rw [← hsendingRun] at htracked
  obtain ⟨gone', htracked'⟩ := hstart.tracked_run (Relay.Tracked.ofLimits limits) (events ++ [.settle now task])
  rw [← hansweredRun] at htracked'
  have haborted : b.relay.pool.coalescer.listening e ≠ [] →
      (∀ x ∈ intruders e.key task sending mid, x.2) ∧
      ∀ later, (answered.sendings later).find? (·.1.signature = e.key) = none →
        ∀ x ∈ intruders e.key task answered later, x.2 := fun hlistening => by
    have hheard := mt hb.relay.coalescer.listening_eq_nil_iff.2 hlistening
    refine ⟨fun x hx => hsending.aborted_before htracked hosending (hmid ▸ hheard) hx, fun later hlater x hx => ?_⟩
    refine hanswered.aborted_after htracked' hoanswered ?_ hlater hx
    rwa [show answered.relay = b.relay from relay_step b (.settle now task)]
  refine ⟨before, mid, e, r, _, missed, hsplit, hsends, ho, rfl, hresult, htag, rfl, fun hnone => ?_, haborted,
    fun past later hpast => ?_,
    fun w between after hw hl hk => hanswered.take_of_listening hoanswered hresult between hw hl hk⟩
  · obtain ⟨hkept, hlast⟩ := kept_since_sending (g := start) (hsplit ▸ hreceived) hnone
    rw [← hsplit] at hkept hlast
    refine ⟨fun tag hr => ?_, fun hr => ?_⟩
    · obtain ⟨last, hbefore, hlastTag⟩ := Option.bind_eq_some_iff.1 (htag.symm.trans hr)
      refine ⟨last, hlast.trans (lastStored?_of_kept hbefore), hlastTag, ?_⟩
      rw [hkept, hbefore, ← hlastTag]
      split <;> rfl
    · rw [hsent.eq_none (htag.symm.trans hr), ite_self] at hkept
      rw [hkept] at hknown ⊢
      refine ⟨rfl, fun later hlater hintruders x hx => ?_⟩
      -- the signatures of the longer run are apart from that of the exchange too
      have hall := ((List.sublist_append_left events later).filterMap Event.signature?).subset
      have hrest := ((List.sublist_append_right events later).filterMap Event.signature?).subset
      have apart' := fun s' hs' => hlater s' hs' e.key (hall hkey)
      have hnow := (hscoped (· ∈ (events ++ later).filterMap Event.signature?)).run fun _ hs => hall hs
      have hsettle : content view answered e.key = none :=
        (content_notModified hv hnow apart' hreceived h304 now).trans hknown
      exact next_tag? hv (hnow.step fun s' hs' => by cases hs') apart' (fun _ hs => hrest hs) hsettle
        (.inl ⟨missed, hresult⟩) hintruders hx
  · have hidle : start.Idle := .openOn store caching limits
    have hsettled := hidle.relay_of_settler hpast rfl
    obtain ⟨e', -, ho', hin⟩ := hb.holds_of_busy hbusy
    cases ho.symm.trans ho'
    have hlistening := mt hb.relay.coalescer.listening_eq_nil_iff.1 (hsettled.attended task e ho hin)
    have hpastMid : partsAll start.backend past = (before ++ [.send task]) ++ (mid ++ .settle now task :: later) := by
      refine hpast.trans ?_
      rw [hsplit]
      simp
    have hpastLater : partsAll start.backend past = (events ++ [.settle now task]) ++ (later ++ []) :=
      hpast.trans (by simp)
    obtain ⟨hbefore, hafter⟩ := haborted hlistening
    refine ⟨hlistening, ?_, fun hlater => ?_⟩
    · change intruders e.key task sending mid = []
      rw [hsendingRun] at hbefore ⊢
      exact hidle.intruders_eq_nil (Relay.Tracked.ofLimits limits) hpastMid hbefore
    · have hnone := hafter later hlater
      rw [hansweredRun] at hnone ⊢
      exact hidle.intruders_eq_nil (Relay.Tracked.ofLimits limits) hpastLater hnone

/-- A new exchange, from its first caller to its request; tasks and generations are counted alike. -/
def asked (n : Nat) : List Event :=
  let s := Signature.bare .get "/x"
  [.enter s, .begin ⟨s, n⟩ true .immediate 0, .record n, .deliver n, .poll n, .send n]

/-- An exchange that brings a tag and a body. -/
def fetched : List Event :=
  asked 0 ++ [.receive 0 (.ok ⟨⟨200⟩, some "v1", [0x7b, 0x7d]⟩), .settle ⟨0, 0⟩ 0, .complete 0, .stop 0]

/-- Two exchanges of one signature, the second with the tag that the first one brought. -/
def twice : List Event :=
  fetched ++ asked 1 ++ [.receive 1 (.ok ⟨⟨304⟩, none, []⟩)]

theorem revalidation_twice :
    let b := (openOn ({} : MemoryStore) true {}).run twice
    ∃ result missed, (b.step (.settle ⟨1, 0⟩ 1)).progress.get? 1 = some (.settled result missed) ∧
      result = Classify.classify (.ok ⟨⟨200⟩, some "v1", [0x7b, 0x7d]⟩) := by
  intro b
  have hplan : b.plans.get? 1 = some ⟨.bare .get "/x", true⟩ := by decide +kernel
  have hreceived : b.received? 1 = some (.ok ⟨⟨304⟩, none, []⟩) := by decide +kernel
  have hkept : kept (.bare .get "/x") (openOn ({} : MemoryStore) true {}) none twice =
      some ⟨⟨200⟩, some "v1", [0x7b, 0x7d]⟩ := by
    decide +kernel
  obtain ⟨_, _, _, _, result, missed, -, -, -, -, hresult, -, hreplay, -⟩ :=
    revalidation MemoryStore.isMap {} (fun _ _ => rfl) true {} twice
      (by unfold KeysApart; decide +kernel) hplan hreceived
      rfl ⟨1, 0⟩
  rw [hkept] at hreplay
  exact ⟨result, missed, hresult, hreplay⟩

/-- The second exchange has its outcome when its caller leaves, and settles it after the third one has sent its request.
-/
def late : List Event :=
  let s := Signature.bare .get "/x"
  fetched ++ asked 1 ++ [.receive 1 (.ok ⟨⟨200⟩, some "v2", [0x5b, 0x5d]⟩), .leave ⟨s, 1, 0⟩] ++ asked 2 ++
    [.settle ⟨1, 0⟩ 1, .receive 2 (.ok ⟨⟨304⟩, none, []⟩)]

/-- A 304 for one tag is answered with the body of another. -/
theorem late_outcome_replayed :
    let s := Signature.bare .get "/x"
    let start := openOn ({} : MemoryStore) true {}
    let b := start.run late
    KeysApart late ∧ late.any (·.forgets s) = false ∧
      b.plans.get? 2 = some ⟨s, true⟩ ∧ b.received? 2 = some (.ok ⟨⟨304⟩, none, []⟩) ∧
      (b.sent.get? 2).bind (·.tag?) = some "v1" ∧
      lastStored? s start late = some ⟨⟨200⟩, some "v2", [0x5b, 0x5d]⟩ ∧
      ((b.run [.settle ⟨2, 0⟩ 2, .complete 2]).take ⟨s, 2, 0⟩).1.map (·.toOption.map Json.render) =
        some (some "[]") := by
  refine ⟨by unfold KeysApart; decide +kernel, ?_, ?_, ?_, ?_, ?_, ?_⟩ <;> decide +kernel

end Gateway

end Entitle
