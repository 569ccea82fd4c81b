import Entitle.Proofs.Cache.Durable
import Entitle.Proofs.Client.Sequence
import Entitle.Proofs.Ledger

/-!
# What a client goes by

Between two actions a client goes by little (`Knowledge`): the entry under each storage key, the acknowledged
transactions and the outcomes to come. `Knowledge.reports` acts on these alone. A client on a map does the
same (`Knows.reports`), however memory and store share the entries, and whether it is built anew in between or not.
-/

namespace Entitle

open Flight ConditionalCache

/-- The entry that an exchange goes by. -/
def Plan.entryIn (entries : String → Option CacheEntry) (plan : Plan) : Option CacheEntry :=
  if plan.useCache then entries (storageKey plan.signature) else none

/-- The entries after an exchange. -/
def Plan.entriesAfter (now : Instant) (outcome : Outcome) (entries : String → Option CacheEntry) (plan : Plan) :
    String → Option CacheEntry :=
  if plan.useCache then
    Function.update entries (storageKey plan.signature) (recorded now outcome (entries (storageKey plan.signature)))
  else entries

/-- The ledger after the reply to a call. -/
def Inquiry.ledgerAfter (reply : Classified Reply) (ledger : Ledger) (q : Inquiry) : Ledger :=
  match q.call with
  | .postReceipt _ => if Client.settlesReceipt reply then ⟨(Ledger.addAll q.unsynced ledger.ids).1⟩ else ledger
  | _ => ledger

/-- What a client goes by from one action to the next. -/
structure Knowledge where
  /-- By storage key. -/
  entries : String → Option CacheEntry := fun _ => none
  ledger : Ledger := {}
  outcomes : List Outcome

namespace Knowledge

/-- Makes an exchange. -/
def ask (caching : Bool) (now : Instant) (q : Inquiry) (k : Knowledge) : Report × Knowledge :=
  let plan : Plan := ⟨q.signature, q.useCache && caching⟩
  let outcome := k.outcomes.headD Session.exhausted
  let entry := plan.entryIn k.entries
  let reply := (Classify.classify (seen outcome entry)).bind q.call.read
  (⟨[tagged entry (.ofSignature q.signature)], .reply (some reply)⟩,
    ⟨plan.entriesAfter now outcome k.entries, q.ledgerAfter reply k.ledger, k.outcomes.tail⟩)

/-- Drops the entry of a signature. -/
def forget (s : Signature) (k : Knowledge) : Knowledge :=
  { k with entries := Function.update k.entries (storageKey s) none }

/-- Does one thing. -/
def step (caching : Bool) (action : Action) (k : Knowledge) : Report × Knowledge :=
  match action with
  | .call now call _ =>
    match call.prepare k.ledger with
    | .answered reply => (⟨[], .reply (some (.ok reply))⟩, k)
    | .inquiry q => k.ask caching now q
  | .invalidateCustomer user =>
    (⟨[], .done⟩, (k.forget (Endpoint.customerInfo user)).forget (Endpoint.offerings user))
  | .clearCaches => (⟨[], .done⟩, { k with entries := fun _ => none })
  | .mark id =>
    let (ids, added) := Ledger.addAll [id] k.ledger.ids
    (⟨[], .isNew (.ok (0 < added.length))⟩, { k with ledger := ⟨ids⟩ })
  | .markAll ids =>
    let (ids, added) := Ledger.addAll ids k.ledger.ids
    (⟨[], .count (.ok added.length)⟩, { k with ledger := ⟨ids⟩ })
  | .resetLedger => (⟨[], .reset (.ok ())⟩, { k with ledger := ⟨[]⟩ })
  | .restart => (⟨[], .done⟩, k)

/-- Does one thing after the other, and reports each but the restarts. -/
def reports (caching : Bool) : List Action → Knowledge → List Report
  | [], _ => []
  | action :: actions, k =>
    let (report, k) := k.step caching action
    let others := reports caching actions k
    if action.isRestart then others else report :: others

theorem step_restart {caching : Bool} {action : Action} (h : action.isRestart) (k : Knowledge) :
    (k.step caching action).2 = k := by
  cases action with
  | restart => rfl
  | _ => cases h

theorem reports_filter (caching : Bool) (actions : List Action) (k : Knowledge) :
    reports caching (actions.filter (!·.isRestart)) k = reports caching actions k := by
  induction actions generalizing k with
  | nil => rfl
  | cons action actions ih =>
    cases hop : action.isRestart with
    | true =>
      rw [List.filter_cons_of_neg (by simp [hop]), ih]
      simp only [reports, hop, if_true, step_restart hop]
    | false =>
      rw [List.filter_cons_of_pos (by simp [hop])]
      simp only [reports, hop, Bool.false_eq_true, if_false, ih]

end Knowledge

/-! ### The keys of an action -/

/-- The storage keys of the entries that a call goes by. -/
def Call.keys : Call → List String
  | .offerings user _ => [storageKey (Endpoint.offerings user)]
  | .customerInfo user _ => [storageKey (Endpoint.customerInfo user)]
  | .productsEntitlements _ => [storageKey Endpoint.productsEntitlements]
  | .request signature useCache _ => if useCache then [storageKey signature] else []
  | .postReceipt _ | .postAttributes .. => []

theorem Call.storageKey_mem_keys {call : Call} {ledger : Ledger} {q : Inquiry} (h : call.prepare ledger = .inquiry q)
    (hcache : q.useCache) : storageKey q.signature ∈ call.keys := by
  cases call with
  | offerings | customerInfo | productsEntitlements =>
    cases h
    exact List.mem_singleton_self _
  | request signature useCache =>
    cases h
    have huse : useCache = true := hcache
    simp [keys, huse]
  | postReceipt receipt =>
    simp only [prepare] at h
    split at h
    · cases h
    · cases h
      cases hcache
  | postAttributes user changes =>
    simp only [prepare] at h
    split at h
    · cases h
    · cases h
      cases hcache

/-- The storage keys of the entries that an action goes by. -/
def Action.keys : Action → List String
  | .call _ asked _ => asked.keys
  | .invalidateCustomer user => [storageKey (Endpoint.customerInfo user), storageKey (Endpoint.offerings user)]
  | _ => []

/-- The clock of a call shows a moment, as clocks do. -/
def Action.IsTimely : Action → Prop
  | .call now _ _ => now.IsProper
  | _ => True

/-! ### Clients on a map -/

theorem not_startsWith_ledger : ¬ Text.startsWith Ledger.storageKey keyStart := by decide

namespace Client

variable {σ : Type} {keys : List String} {valid : σ → Prop} {view : σ → String → Option Bytes}
  {entries : String → Option CacheEntry} {ledger : Ledger} {c : Client σ}

/-- In memory and store together the client has these entries and this ledger. -/
structure Has (keys : List String) (valid : σ → Prop) (view : σ → String → Option Bytes)
    (entries : String → Option CacheEntry) (ledger : Ledger) (c : Client σ) : Prop where
  cache : ∃ others, Keeps keys valid view entries others c.backend.cache c.backend.store
  memory : c.ledger = ledger
  stored : Ledger.Matches view ledger c.backend.store

namespace Has

theorem validStore (h : c.Has keys valid view entries ledger) : valid c.backend.store :=
  h.cache.elim fun _ hcache => hcache.valid

theorem onCache (h : c.Has keys valid view entries ledger) (hkey : Ledger.storageKey ∈ keys)
    {entries' : String → Option CacheEntry} {backend : Backend σ}
    (hkept : ∀ {others}, Keeps keys valid view entries others c.backend.cache c.backend.store →
      Keeps keys valid view entries' others backend.cache backend.store) :
    Has keys valid view entries' ledger { c with backend } := by
  obtain ⟨others, hcache⟩ := h.cache
  have hkept := hkept hcache
  refine ⟨⟨others, hkept⟩, h.memory, ?_⟩
  have hstored := h.stored
  unfold Ledger.Matches at hstored ⊢
  rw [hkept.others _ hkey not_startsWith_ledger, ← hcache.others _ hkey not_startsWith_ledger]
  exact hstored

theorem onLedger (h : c.Has keys valid view entries ledger) {ledger' : Ledger} {store : σ} (hvalid : valid store)
    (hframe : ∀ key ∈ keys, key ≠ Ledger.storageKey → view store key = view c.backend.store key)
    (hmatches : Ledger.Matches view ledger' store) :
    Has keys valid view entries ledger' { c with ledger := ledger', backend.store := store } := by
  obtain ⟨others, hcache⟩ := h.cache
  refine ⟨⟨view store, hcache.congr hvalid fun key hkey => ?_⟩, rfl, hmatches⟩
  split
  · next hstart => exact hframe key hkey fun heq => not_startsWith_ledger (heq ▸ hstart)
  · rfl

variable [KeyValueStore σ] (hmap : KeyValueStore.IsMapOn keys valid view) (hkey : Ledger.storageKey ∈ keys)
  (h : c.Has keys valid view entries ledger)
include hmap hkey h

theorem markAll (ids : List String) :
    let marked := c.ledger.markAll ids c.backend.store
    marked.1 = .ok (Ledger.addAll ids ledger.ids).2.length ∧
      Has keys valid view entries ⟨(Ledger.addAll ids ledger.ids).1⟩
        { c with ledger := marked.2.1, backend.store := marked.2.2 } := by
  obtain ⟨hok, hadded, hvalid, hframe⟩ := Ledger.markAll_of_isMapOn hmap hkey h.validStore ids ledger
  have hmatches := Ledger.matches_markAll (hmap.at hkey h.validStore) h.stored ids
  rw [hadded] at hmatches
  simp only [h.memory, hadded]
  exact ⟨hok, h.onLedger hvalid hframe hmatches⟩

theorem reset :
    let reset := c.ledger.reset c.backend.store
    reset.1 = .ok () ∧ Has keys valid view entries ⟨[]⟩ { c with ledger := reset.2.1, backend.store := reset.2.2 } := by
  obtain ⟨hok, hempty, hvalid, hframe⟩ := Ledger.reset_of_isMapOn hmap hkey h.validStore ledger
  have hmatches := Ledger.matches_reset (hmap.at hkey h.validStore) h.stored
  rw [hempty] at hmatches
  simp only [h.memory, hempty]
  exact ⟨hok, h.onLedger hvalid hframe hmatches⟩

theorem invalidate {s : Signature} (hs : storageKey s ∈ keys) :
    Has keys valid view (Function.update entries (storageKey s) none) ledger
      { c with backend := c.backend.invalidate s } :=
  h.onCache hkey fun hcache => keeps_invalidate hmap hcache hs

theorem clear : Has keys valid view (fun _ => none) ledger { c with backend := c.backend.clear } :=
  h.onCache hkey fun hcache => keeps_clear hmap hcache

/-- An exchange goes by the entry of its signature, and leaves what comes of it. -/
theorem exchanged {now : Instant} (hnow : now.IsProper) {plan : Plan}
    (hplan : plan.useCache → storageKey plan.signature ∈ keys) (r : Rest) (outcome : Outcome) :
    let exchanged := c.backend.exchanged r plan now outcome
    exchanged.1 = seen outcome (plan.entryIn entries) ∧
      exchanged.2.sent = c.backend.sent.put r.task (tagged (plan.entryIn entries) (.ofSignature plan.signature)) ∧
      Has keys valid view (plan.entriesAfter now outcome entries) ledger { c with backend := exchanged.2 } := by
  simp only [Backend.exchanged, Backend.requestOf, Backend.settled, Plan.entryIn, Plan.entriesAfter]
  split
  · next huse =>
    -- what is sent and shown follows from the entries, whatever else the store holds
    obtain ⟨others, hcache⟩ := h.cache
    obtain ⟨hrequest, hkept⟩ := keeps_attach hmap hcache (hplan huse) (.ofSignature plan.signature)
    obtain ⟨hshown, -⟩ := keeps_record hmap hkept (hplan huse) hnow outcome
    refine ⟨hshown, congrArg (c.backend.sent.put r.task) hrequest, h.onCache hkey fun hcache => ?_⟩
    obtain ⟨-, hkept⟩ := keeps_attach hmap hcache (hplan huse) (.ofSignature plan.signature)
    exact (keeps_record hmap hkept (hplan huse) hnow outcome).2
  · refine ⟨?_, rfl, h.onCache hkey id⟩
    cases outcome <;> rfl

theorem finish (p : Pending) (result : Classified Json) :
    (c.finish p result).1 = result.bind p.call.read ∧
      Has keys valid view entries (p.ledgerAfter (result.bind p.call.read) ledger) (c.finish p result).2 := by
  unfold Client.finish Inquiry.ledgerAfter
  cases hcall : p.call with
  | postReceipt receipt =>
    refine ⟨rfl, ?_⟩
    dsimp only
    by_cases hsettles : settlesReceipt (result.bind (Call.postReceipt receipt).read)
    · rw [if_pos hsettles, if_pos hsettles]
      exact (h.markAll hmap hkey p.unsynced).2
    · rw [if_neg hsettles, if_neg hsettles]
      exact h
  | _ => exact ⟨rfl, h⟩

end Has

theorem has_openOn [KeyValueStore σ] (hmap : KeyValueStore.IsMapOn keys valid view) (hkey : Ledger.storageKey ∈ keys)
    {store : σ} (hvalid : valid store)
    (hentries : ∀ key ∈ keys, Text.startsWith key keyStart → storedEntry (view store key) = entries key)
    (hledger : Ledger.Matches view ledger store) (caching : Bool) (limits : Limits) :
    (openOn store caching limits).Has keys valid view entries ledger := by
  obtain ⟨hvalid', hview⟩ := Ledger.openFrom_of_isMapOn hmap hkey hvalid
  refine ⟨⟨view store, ?_⟩, ?_, ?_⟩
  · exact {
      valid := hvalid'
      others := fun key _ _ => congrFun hview key
      stored := fun key hk hstart => (congrArg storedEntry (congrFun hview key)).trans (hentries key hk hstart)
      memory := fun _ _ _ _ he => nomatch he }
  · exact (Ledger.openFrom_fst (hmap.at hkey hvalid)).trans hledger.symm
  · exact hledger.trans (by rw [← hview]; rfl)

end Client

/-! ### One action after the other -/

section
variable {σ : Type} [KeyValueStore σ] {keys : List String} {valid : σ → Prop} {view : σ → String → Option Bytes}
  {caching : Bool} {k : Knowledge} {s : Session σ}

/-- Nothing is in flight, and the client goes by `k`. -/
structure Session.Knows (keys : List String) (valid : σ → Prop) (view : σ → String → Option Bytes) (caching : Bool)
    (k : Knowledge) (s : Session σ) : Prop where
  idle : ∃ r, s.Idle r
  caching : s.client.backend.caching = caching
  has : s.client.Has keys valid view k.entries k.ledger
  outcomes : s.outcomes = k.outcomes

namespace Session.Knows

variable (hmap : KeyValueStore.IsMapOn keys valid view) (hkey : Ledger.storageKey ∈ keys)
include hmap hkey

theorem asked (h : s.Knows keys valid view caching k) {r : Rest} (hidle : s.Idle r) {now : Instant}
    (hnow : now.IsProper) {q : Inquiry} (hq : q.useCache → storageKey q.signature ∈ keys) :
    let asked := s.asked r q now
    (⟨(asked.2.client.backend.sent.drop s.client.backend.sent.length).map Prod.snd, .reply (some asked.1)⟩ : Report) =
        (k.ask caching now q).1 ∧
      asked.2.Knows keys valid view caching (k.ask caching now q).2 := by
  obtain rfl := h.caching
  have hplan : (s.planOf q).useCache → storageKey (s.planOf q).signature ∈ keys := fun huse =>
    hq (Bool.and_eq_true_iff.1 huse).1
  obtain ⟨hshown, hsent, hhas⟩ := h.has.exchanged hmap hkey hnow hplan r (s.outcomes.headD exhausted)
  obtain ⟨hreply, hhas⟩ := hhas.finish hmap hkey ⟨q, r.waiter q.signature⟩
    (Classify.classify (s.client.backend.exchanged r (s.planOf q) now (s.outcomes.headD exhausted)).1)
  constructor
  · simp only [Session.asked, Knowledge.ask, ← h.outcomes, hreply, Client.sent_finish, hsent,
      Table.put_of_not_mem hidle.new, List.drop_left', List.map_cons, List.map_nil]
    rw [hshown]
    rfl
  · rw [hshown] at hhas
    refine ⟨⟨_, hidle.asked⟩, ?_, ?_, ?_⟩
    · simp only [Session.asked, Client.caching_finish]
      rfl
    · simp only [Session.asked, Knowledge.ask, ← h.outcomes]
      rw [hshown]
      exact hhas
    · exact congrArg List.tail h.outcomes

omit [KeyValueStore σ] hmap hkey in
theorem withClient (h : s.Knows keys valid view caching k) {client : Client σ} {entries : String → Option CacheEntry}
    {ledger : Ledger} (hhas : client.Has keys valid view entries ledger)
    (hpool : client.backend.pool = s.client.backend.pool) (hsent : client.backend.sent = s.client.backend.sent)
    (hcaching : client.backend.caching = s.client.backend.caching) :
    Session.Knows keys valid view caching { k with entries, ledger } { s with client } := by
  obtain ⟨r, hidle⟩ := h.idle
  exact ⟨⟨r, hpool.trans hidle.pool, hidle.free, hidle.held.trans (congrArg _ hsent.symm), hidle.old⟩,
    hcaching.trans h.caching, hhas, h.outcomes⟩

/-- A client that is dropped and built anew on what its store holds goes by the same. -/
theorem restart (h : s.Knows keys valid view caching k) {store : σ} (hvalid : valid store)
    (hview : view store = view s.client.backend.store) (limits : Limits) :
    (s.restart (Client.openOn store caching limits)).Knows keys valid view caching k := by
  obtain ⟨others, hcache⟩ := h.has.cache
  refine ⟨⟨_, Idle.openOn store caching limits s.outcomes⟩, rfl, ?_, h.outcomes⟩
  refine Client.has_openOn hmap hkey hvalid (fun key hkey hstart => ?_) ?_ caching limits
  · rw [hview]
    exact hcache.stored key hkey hstart
  · exact h.has.stored.trans (by rw [hview])

variable {rebuild : σ → Client σ} {limits : Limits}
  (hrebuild : ∀ store, valid store →
    ∃ store', valid store' ∧ view store' = view store ∧ rebuild store = Client.openOn store' caching limits)
include hrebuild

/-- A client does what can be done on what it goes by. -/
theorem step (h : s.Knows keys valid view caching k) {action : Action} (hkeys : ∀ key ∈ action.keys, key ∈ keys)
    (htimely : action.IsTimely) :
    (s.step rebuild action).1 = (k.step caching action).1 ∧
      (s.step rebuild action).2.Knows keys valid view caching (k.step caching action).2 := by
  obtain ⟨r, hidle⟩ := h.idle
  cases action with
  | call now call draw =>
    -- the ledger alone decides whether a call asks, and for what
    have hsame : call.prepare k.ledger = call.prepare s.client.ledger := congrArg call.prepare h.has.memory.symm
    cases hcall : call.prepare s.client.ledger with
    | answered reply =>
      rw [hcall] at hsame
      simp only [Session.step, act, perform_answered hidle hcall, Knowledge.step, hsame, Slot.reply?, List.drop_length,
        List.map_nil]
      exact ⟨trivial, h⟩
    | inquiry q =>
      rw [hcall] at hsame
      simp only [Session.step, act, perform_inquiry hidle hcall, Knowledge.step, hsame, Slot.reply?]
      exact h.asked hmap hkey hidle htimely fun huse => hkeys _ (Call.storageKey_mem_keys hcall huse)
  | invalidateCustomer user =>
    have hhas := (h.has.invalidate hmap hkey (hkeys _ List.mem_cons_self)).invalidate hmap hkey
      (hkeys _ (List.mem_cons_of_mem _ List.mem_cons_self))
    refine ⟨?_, h.withClient hhas rfl rfl rfl⟩
    simp [Session.step, act, Client.invalidateCustomer, Backend.invalidate, Knowledge.step]
  | clearCaches =>
    refine ⟨?_, h.withClient (h.has.clear hmap hkey) rfl rfl rfl⟩
    simp [Session.step, act, Client.clearCaches, Backend.clear, Knowledge.step]
  | mark id =>
    obtain ⟨hok, hhas⟩ := h.has.markAll hmap hkey [id]
    refine ⟨?_, h.withClient hhas rfl rfl rfl⟩
    simp [Session.step, act, Ledger.mark, hok, Knowledge.step, Except.map]
  | markAll ids =>
    obtain ⟨hok, hhas⟩ := h.has.markAll hmap hkey ids
    refine ⟨?_, h.withClient hhas rfl rfl rfl⟩
    simp [Session.step, act, Client.markSynced, hok, Knowledge.step]
  | resetLedger =>
    obtain ⟨hok, hhas⟩ := h.has.reset hmap hkey
    refine ⟨?_, h.withClient hhas rfl rfl rfl⟩
    simp [Session.step, act, Client.resetLedger, hok, Knowledge.step]
  | restart =>
    obtain ⟨store, hvalid, hview, hopen⟩ := hrebuild _ h.has.validStore
    constructor
    · simp [Session.step, act, Session.restart, hopen, Knowledge.step, Client.openOn, Backend.openOn]
    · simp only [Session.step, act, hopen]
      exact h.restart hmap hkey hvalid hview limits

theorem reports (h : s.Knows keys valid view caching k) {actions : List Action}
    (hkeys : ∀ action ∈ actions, ∀ key ∈ action.keys, key ∈ keys) (htimely : ∀ action ∈ actions, action.IsTimely) :
    s.reports rebuild actions = k.reports caching actions := by
  -- the session and what it goes by change with each action, and still belong together
  induction actions generalizing s k with
  | nil => rfl
  | cons action actions ih =>
    obtain ⟨hreport, hafter⟩ := h.step hmap hkey hrebuild (hkeys action List.mem_cons_self)
      (htimely action List.mem_cons_self)
    have hothers := ih hafter (fun a ha => hkeys a (List.mem_cons_of_mem _ ha)) fun a ha =>
      htimely a (List.mem_cons_of_mem _ ha)
    simp only [Session.reports, Knowledge.reports, hreport, hothers]

end Session.Knows
end

end Entitle
