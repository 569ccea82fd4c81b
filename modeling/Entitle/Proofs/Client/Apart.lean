import Entitle.Proofs.Client.Provenance
import Entitle.Proofs.Client.Subject

/-!
# Calls for different subjects have nothing in common

Two calls are merged only if they ask for one subject: neither an exchange nor a cached body nor the invalidation of a
user reaches a call for another one. Main statement: `Traffic.subjects_apart`.
-/

namespace Entitle
open Flight ConditionalCache KeyValueStore

namespace Subject

variable {a b : Subject}

theorem IsCached.eq_of_storageKey (h : a.IsCached) {s : Signature} (hkey : storageKey s = storageKey a.signature) :
    s = a.signature :=
  h.eq_of_cacheKey (String.append_right_inj keyStart |>.1 hkey)

end Subject

/-! ### Signatures of calls -/

/-- Calls make one request only for one subject, and have one key only for one subject if it is cached. -/
theorem Inquiry.signature_eq_iff {call call' : Call} {ledger ledger' : Ledger} {q q' : Inquiry} {a a' : Subject}
    (hq : call.prepare ledger = .inquiry q) (hq' : call'.prepare ledger' = .inquiry q') (ha : q.subject? = some a)
    (ha' : q'.subject? = some a') (hordered : a.IsOrdered) (hordered' : a'.IsOrdered) :
    (q.signature = q'.signature ↔ a = a') ∧
      (a.IsCached → (q.signature.cacheKey = q'.signature.cacheKey ↔ a = a')) := by
  rw [(Call.asks hq ha).1, (Call.asks hq' ha').1]
  constructor
  · exact ⟨Subject.signature_inj hordered hordered', fun heq => by rw [heq]⟩
  · intro hcached
    refine ⟨fun hkey => ?_, fun heq => by rw [heq]⟩
    exact (hcached.eq_of_signature (hcached.eq_of_cacheKey hkey.symm)).symm

/-! ### Exchanges -/

/-- The exchange whose result a call gets, or has got. -/
def Stage.exchange? : Stage → Option (Exchange Signature)
  | .launching p _ => some p.waiter.exchange
  | .waiting p => some p.waiter.exchange
  | .served p _ => some p.waiter.exchange
  | _ => none

variable {σ : Type} {view : σ → String → Option Bytes}

/-- The call at an index asks for the subject, in the exchange. -/
def Traffic.TakesPart (g : Traffic σ) (i : Nat) (a : Subject) (e : Exchange Signature) : Prop :=
  ∃ stage q, g.calls[i]? = some stage ∧ stage.inquiry? = some q ∧ q.subject? = some a ∧ stage.exchange? = some e

namespace Traffic

variable [KeyValueStore σ] {start : Traffic σ} {events : List Event} {i : Nat} {a : Subject} {e : Exchange Signature}

theorem Asked.signature_eq {q : Inquiry} (h : start.Asked events i q) (ha : q.subject? = some a) :
    q.signature = a.signature := by
  obtain ⟨before, call, mid, -, -, hprepare⟩ := h
  exact (Call.asks hprepare ha).1

theorem Sound.key_of_takesPart (h : start.Sound events) (hpart : (start.run events).TakesPart i a e) :
    e.key = a.signature := by
  obtain ⟨stage, q, hstage, hq, ha, he⟩ := hpart
  have hsound := h.calls i stage hstage
  cases stage with
  | launching p _ | waiting p | served p _ =>
    cases hq
    cases he
    obtain ⟨hasked, hkey, -⟩ := hsound
    exact hkey.trans (hasked.signature_eq ha)
  | prepared | ended | cancelled => cases he

/-! ### Cached bodies -/

/-- In the run a request for the subject, which a call for this subject and no other had made, was answered with the
tag and the body. -/
def AnsweredFor (start : Traffic σ) (events : List Event) (a : Subject) (tag body : String) : Prop :=
  ∃ before now task response rest, events = before ++ .answer now task (.ok response) :: rest ∧
    (start.run before).client.backend.isSending task ∧
    (start.run before).client.backend.plans.get? task = some ⟨a.signature, true⟩ ∧
    (∃ i q, start.Asked before i q ∧ q.signature = a.signature ∧ ∀ a', q.subject? = some a' → a' = a) ∧
    response.status.isSuccessful ∧ response.tag = some tag ∧ response.body = Text.utf8 body

theorem Brought.answeredFor (hsound : ∀ events, start.Sound events) (ha : a.IsCached) {tag body : String}
    (h : start.Brought events (storageKey a.signature) tag body) : start.AnsweredFor events a tag body := by
  obtain ⟨before, now, task, response, rest, ⟨s, useCache⟩, hevents, hsend, hplan, huse, hkey, hresponse⟩ := h
  obtain rfl : s = a.signature := ha.eq_of_storageKey hkey
  obtain rfl : useCache = true := huse
  obtain ⟨i, q, hasked, hq, -⟩ := (hsound before).plans task _ hplan rfl
  refine ⟨before, now, task, response, rest, hevents, hsend, hplan, ⟨i, q, hasked, hq, fun a' ha' => ?_⟩, hresponse⟩
  exact ha.eq_of_signature ((hasked.signature_eq ha').symm.trans hq)

theorem settled_cases (h : IsFallible view) (store : σ) (caching : Bool) (limits : Limits) (events : List Event)
    (ha : a.IsCached) {now : Instant} {useCache : Bool} {response shown : Response} :
    let start := openOn store caching limits
    let b := (start.run events).client.backend
    (Backend.settled now ⟨a.signature, useCache⟩ (.ok response) b.cache b.store).1 = .ok shown →
      shown = response ∨ ∃ tag body, shown = ⟨⟨200⟩, some tag, Text.utf8 body⟩ ∧
        (Stored view store (storageKey a.signature) tag body ∨ start.AnsweredFor events a tag body) := by
  intro start b hshown
  cases useCache with
  | false => exact .inl (Except.ok.inj hshown).symm
  | true =>
    rcases sourced_shown h (sourced_run h store caching limits events) hshown with hsame | ⟨entry, hsource, hentry⟩
    · exact .inl hsame
    · refine .inr ⟨entry.tag, entry.body, hentry, hsource.imp_right fun hbrought => ?_⟩
      exact hbrought.answeredFor (Sound.run store caching limits) ha

end Traffic

/-! ### Invalidation -/

/-- Two clients differ at most in what they have cached, and not in what they have cached for the signature. -/
structure Client.SameFor (view : σ → String → Option Bytes) (s : Signature) (c c' : Client σ) : Prop where
  ledger : c'.ledger = c.ledger
  backend : ∃ cache store, c'.backend = { c.backend with cache, store }
  entry : c'.backend.cache.entries.get? (storageKey s) = c.backend.cache.entries.get? (storageKey s)
  stored : view c'.backend.store (storageKey s) = view c.backend.store (storageKey s)
  acknowledged : view c'.backend.store Ledger.storageKey = view c.backend.store Ledger.storageKey

namespace Client.SameFor

variable {c c' c'' : Client σ} {s : Signature}

theorem trans (h : c.SameFor view s c') (h' : c'.SameFor view s c'') : c.SameFor view s c'' where
  ledger := h'.ledger.trans h.ledger
  backend := by
    obtain ⟨cache, store, hfirst⟩ := h.backend
    obtain ⟨cache', store', hsecond⟩ := h'.backend
    exact ⟨cache', store', by rw [hsecond, hfirst]⟩
  entry := h'.entry.trans h.entry
  stored := h'.stored.trans h.stored
  acknowledged := h'.acknowledged.trans h.acknowledged

variable [KeyValueStore σ]

theorem invalidate (h : IsFallible view) (c : Client σ) {s s' : Signature} (hne : storageKey s' ≠ storageKey s) :
    c.SameFor view s { c with backend := c.backend.invalidate s' } where
  ledger := rfl
  backend := ⟨_, _, rfl⟩
  entry := by
    show (c.backend.cache.entries.erase (storageKey s')).get? (storageKey s) = _
    rw [KeyMap.get?_erase, if_neg hne]
  stored := by
    show view (KeyValueStore.remove (storageKey s') c.backend.store).2 (storageKey s) = _
    rw [h.remove, if_neg fun hboth => hne hboth.2]
  acknowledged := by
    show view (KeyValueStore.remove (storageKey s') c.backend.store).2 Ledger.storageKey = _
    rw [h.remove, if_neg fun hboth => Ledger.ne_storageKey (startsWith_storageKey s') hboth.2]

end Client.SameFor

/-- The clients send one request for a plan, and see the same of an outcome. -/
def Client.ActAlike [KeyValueStore σ] (plan : Plan) (c c' : Client σ) : Prop :=
  (Backend.requestOf plan c'.backend.cache c'.backend.store).1 =
      (Backend.requestOf plan c.backend.cache c.backend.store).1 ∧
    ∀ now outcome, (Backend.settled now plan outcome c'.backend.cache c'.backend.store).1 =
      (Backend.settled now plan outcome c.backend.cache c.backend.store).1

/-- Over a store that works, an exchange goes by nothing but what is cached for its signature. -/
theorem Client.SameFor.actAlike [KeyValueStore σ] {c c' : Client σ} {s : Signature} (h : c.SameFor view s c')
    (hmap : IsMap view) (useCache : Bool) : c.ActAlike ⟨s, useCache⟩ c' := by
  have hknown : known view c'.backend.cache c'.backend.store (storageKey s) =
      known view c.backend.cache c.backend.store (storageKey s) := by
    rw [known, known, h.entry, h.stored]
  cases useCache with
  | false => exact ⟨rfl, fun _ _ => rfl⟩
  | true =>
    refine ⟨?_, fun now outcome => ?_⟩
    · show (attach s _ _ _).1 = (attach s _ _ _).1
      rw [attach_fst hmap, attach_fst hmap, hknown]
    · show (record now s outcome _ _).1 = (record now s outcome _ _).1
      rw [record_fst hmap, record_fst hmap, hknown]

namespace Traffic

variable [KeyValueStore σ] {a : Subject} {user : String}

theorem sameFor_invalidateCustomer (h : IsFallible view) (c : Client σ) (ha : a.user? ≠ some user) :
    c.SameFor view a.signature (c.invalidateCustomer user) := by
  have hne : ∀ b : Subject, b.IsCached → b.user? = some user → storageKey b.signature ≠ storageKey a.signature := by
    intro b hb huser hkey
    exact ha (hb.eq_of_signature (hb.eq_of_storageKey hkey.symm) ▸ huser)
  have hinfo := Client.SameFor.invalidate h c (hne (.customerInfo user) trivial rfl)
  exact hinfo.trans (Client.SameFor.invalidate h _ (hne (.offerings user) trivial rfl))

/-- Calls for different subjects are never merged. Their signatures differ, and so does the key of the cache if one of
them is cached; they take part in different exchanges; a response is never seen as a body that was cached for another
subject, whatever the store fails to do; and the invalidation of a user leaves everything that a call for another one
goes by. -/
theorem subjects_apart (h : IsFallible view) (store : σ) (caching : Bool) (limits : Limits) (events : List Event) :
    let start := openOn store caching limits
    let g := start.run events
    (∀ (call call' : Call) (ledger ledger' : Ledger) (q q' : Inquiry) (a a' : Subject),
      call.prepare ledger = .inquiry q → call'.prepare ledger' = .inquiry q' →
      q.subject? = some a → q'.subject? = some a' → a.IsOrdered → a'.IsOrdered →
        (q.signature = q'.signature ↔ a = a') ∧
          (a.IsCached → (q.signature.cacheKey = q'.signature.cacheKey ↔ a = a'))) ∧
    (∀ i j a a' e, g.TakesPart i a e → g.TakesPart j a' e → a.IsOrdered → a'.IsOrdered → a = a') ∧
    (∀ a : Subject, a.IsCached → ∀ now useCache (response shown : Response),
      (Backend.settled now ⟨a.signature, useCache⟩ (.ok response) g.client.backend.cache g.client.backend.store).1 =
          .ok shown →
        shown = response ∨ ∃ tag body, shown = ⟨⟨200⟩, some tag, Text.utf8 body⟩ ∧
          (Stored view store (storageKey a.signature) tag body ∨ start.AnsweredFor events a tag body)) ∧
    ∀ (user : String) (a : Subject), a.user? ≠ some user →
      let after := g.step (.invalidateCustomer user)
      after.calls = g.calls ∧ g.client.SameFor view a.signature after.client ∧
        (IsMap view → ∀ useCache, g.client.ActAlike ⟨a.signature, useCache⟩ after.client) := by
  intro start g
  refine ⟨fun call call' ledger ledger' q q' a a' hq hq' ha ha' hordered hordered' => ?_,
    fun i j a a' e hi hj hordered hordered' => ?_, fun a ha now useCache response shown hshown => ?_,
    fun user a ha => ?_⟩
  · exact Inquiry.signature_eq_iff hq hq' ha ha' hordered hordered'
  · have hsound := Sound.run store caching limits events
    have hsame : a.signature = a'.signature := (hsound.key_of_takesPart hi).symm.trans (hsound.key_of_takesPart hj)
    exact Subject.signature_inj hordered hordered' hsame
  · exact settled_cases h store caching limits events ha hshown
  · have hsame := sameFor_invalidateCustomer h g.client ha
    exact ⟨rfl, hsame, hsame.actAlike⟩

/-- Such as two users of whom one has the name that the other's takes in a path: both wait for answers of their own, the
body that is cached for one came in an answer to its own request, and the other's invalidation leaves it. -/
theorem subjects_apart_encoded :
    let view (store : MemoryStore) (key : String) := store.entries.get? key
    let info (user : String) : Subject := .customerInfo user
    let call (user : String) : Call := .customerInfo user .immediate
    let events : List Event := [.begin (call "a/b"), .advance 0 0, .advance 0 0, .begin (call "a%2Fb"), .advance 1 0,
      .poll 0, .answer ⟨0, 0⟩ 0 (.ok ⟨⟨200⟩, some "v1", Text.utf8 "1"⟩)]
    let start := Traffic.openOn ({} : MemoryStore) true {}
    let g := start.run events
    let after := g.step (.invalidateCustomer "a%2Fb")
    IsFallible view ∧
      (Endpoint.customerInfo "a/b").cacheKey ≠ (Endpoint.customerInfo "a%2Fb").cacheKey ∧
      g.TakesPart 0 (info "a/b") ⟨Endpoint.customerInfo "a/b", 0⟩ ∧
      ¬ g.TakesPart 1 (info "a%2Fb") ⟨Endpoint.customerInfo "a/b", 0⟩ ∧
      start.AnsweredFor events (info "a/b") "v1" "1" ∧
      g.client.ActAlike ⟨Endpoint.customerInfo "a/b", true⟩ after.client := by
  intro view info call events start g after
  have hmap : IsMap view := MemoryStore.isMap
  obtain ⟨hsignatures, hexchanges, hbodies, hinvalidation⟩ := subjects_apart hmap.isFallible {} true {} events
  have hdifferent : info "a/b" ≠ info "a%2Fb" := by decide
  have hpart : g.TakesPart 0 (info "a/b") ⟨Endpoint.customerInfo "a/b", 0⟩ := by
    let p : Pending := { call := call "a/b", signature := Endpoint.customerInfo "a/b", useCache := true,
                         waiter := ⟨Endpoint.customerInfo "a/b", 0, 0⟩ }
    exact ⟨.waiting p, p.toInquiry, rfl, rfl, rfl, rfl⟩
  refine ⟨hmap.isFallible, ?_, hpart, ?_, ?_, ?_⟩
  · intro hkey
    refine hdifferent ?_
    exact ((hsignatures (call "a/b") (call "a%2Fb") {} {} _ _ _ _ rfl rfl rfl rfl trivial trivial).2 trivial).1 hkey
  · intro hother
    exact hdifferent (hexchanges _ _ _ _ _ hpart hother trivial trivial)
  · have hsource := hbodies (info "a/b") trivial ⟨60, 0⟩ true ⟨⟨304⟩, none, []⟩ ⟨⟨200⟩, some "v1", Text.utf8 "1"⟩
      (by decide +kernel)
    obtain ⟨tag, body, hentry, hsource⟩ := hsource.resolve_left (by decide)
    obtain ⟨-, htag, hbody⟩ := Response.mk.inj hentry
    rw [Option.some.inj htag, Text.utf8_injective hbody]
    -- the store was empty at first
    exact hsource.resolve_left fun ⟨entry, hstored, _⟩ => (nomatch hstored)
  · exact (hinvalidation "a%2Fb" (info "a/b") (by decide)).2.2 hmap true

end Traffic

end Entitle
