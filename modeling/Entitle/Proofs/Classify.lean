import Entitle.Proofs.Cache.StoredBodies

/-!
# Every outcome has one verdict

Main statement: `classify_taxonomy`. An outcome is a network error, a payload, a malformed response or a rejection by
the server, and what it is depends on whether a response came, on its status, on whether its body has a value and on
whether that value rejects attributes. Kind and flags of a rejection follow from its code and its status
(`RejectedWith`).
-/

namespace Entitle

theorem BackendCode.isRecognized_iff (code : BackendCode) : code.isRecognized ↔ ∃ row ∈ table, row.1 = code := by
  cases code <;> simp [isRecognized, table]

namespace RequestError

theorem isRetryable_iff (error : RequestError) : error.isRetryable ↔ ∃ cause, error = .network cause := by
  cases error <;> simp [isRetryable]

theorem backend?_ofBackend (rejection : BackendError) : (ofBackend rejection).backend? = some rejection := by
  unfold ofBackend
  split <;> rfl

theorem ofBackend_ne_network (rejection : BackendError) (cause : TransportError) :
    ofBackend rejection ≠ .network cause := by
  unfold ofBackend
  split <;> simp

theorem ofBackend_ne_malformed (rejection : BackendError) (reason body : String) :
    ofBackend rejection ≠ .malformed reason body := by
  unfold ofBackend
  split <;> simp

/-- The error is the server's rejection of a request by a response of that status: of the known kind if its code is
one of the table, and with the flags that the status has. -/
structure RejectedWith (error : RequestError) (status : Status) (rejection : BackendError) : Prop where
  backend : error.backend? = some rejection
  carried : rejection.status = status
  known : error = .backend rejection ↔ ∃ row ∈ BackendCode.table, row.1 = rejection.code
  unknown : error = .unknownBackend rejection ↔ ∀ row ∈ BackendCode.table, row.1 ≠ rejection.code
  finishable : error.isFinishable ↔ ¬ (500 ≤ status.code ∧ status.code ≤ 599)
  synced : error.isSynced ↔ ¬ (500 ≤ status.code ∧ status.code ≤ 599) ∧ status.code ≠ 404

theorem rejectedWith_ofBackend (rejection : BackendError) :
    (ofBackend rejection).RejectedWith rejection.status rejection := by
  have hknown := rejection.code.isRecognized_iff
  have hbackend := backend?_ofBackend rejection
  refine ⟨hbackend, rfl, ?_, ?_, ?_, ?_⟩
  · rw [← hknown, ofBackend]
    split <;> simp_all
  · rw [← not_iff_not]
    simp only [not_forall, not_not, exists_prop]
    rw [← hknown, ofBackend]
    split <;> simp_all
  · simp [isFinishable, hbackend, BackendError.isFinishable, Status.isFinishable, Status.isServerError,
      imp_iff_not_or]
  · simp [isSynced, hbackend, BackendError.isSynced, Status.isSynced, Status.isServerError, imp_iff_not_or]

end RequestError

namespace Classify

variable {status : Status} {payload : Json} {key message : String}

/-! ### Rejected attributes -/

/-- A message on an attribute is listed: by an object in a list, or as a member of an object. -/
def Lists (container : Json) (key message : String) : Prop :=
  (∃ items, container.member? attributeErrorsKey = some (.array items) ∧ ∃ item ∈ items,
      item.member? keyNameKey = some (.string key) ∧ item.member? messageKey = some (.string message)) ∨
    ∃ members, container.member? attributeErrorsKey = some (.object members) ∧ (key, .string message) ∈ members

/-- A payload that rejects attributes: a message is listed in its member for that. -/
def RejectsAttributes (payload : Json) : Prop :=
  ∃ container, payload.member? nestedKey = some container ∧ ∃ key message, Lists container key message

theorem text?_eq_some {value : Json} {text : String} : value.text? = some text ↔ value = .string text := by
  cases value <;> simp [Json.text?]

theorem attributePair?_eq_some {item : Json} :
    attributePair? item = some (key, message) ↔
      item.member? keyNameKey = some (.string key) ∧ item.member? messageKey = some (.string message) := by
  unfold attributePair?
  cases item.member? keyNameKey <;> cases item.member? messageKey <;>
    simp [Option.bind_eq_some_iff, text?_eq_some]

theorem mem_attributePairs {container : Json} :
    (key, message) ∈ attributePairs container ↔ Lists container key message := by
  unfold attributePairs Lists
  split
  · next items hitems => simp [hitems, attributePair?_eq_some]
  · next members hmembers =>
    simp only [hmembers, List.mem_filterMap, Option.map_eq_some_iff, text?_eq_some, Option.some.injEq, reduceCtorEq,
      false_and, exists_false, false_or, Json.object.injEq, exists_eq_left']
    constructor
    · rintro ⟨⟨k, value⟩, hmem, text, rfl, heq⟩
      cases heq
      exact hmem
    · exact fun hmem => ⟨_, hmem, message, rfl, rfl⟩
  · next hitems hmembers =>
    simp only [List.not_mem_nil, false_iff, not_or, not_exists, not_and]
    exact ⟨fun items h => absurd h (hitems items), fun members h => absurd h (hmembers members)⟩

theorem partialRejection?_eq_none : partialRejection? status payload = none ↔ ¬ RejectsAttributes payload := by
  unfold partialRejection? RejectsAttributes
  cases payload.member? nestedKey with
  | none => simp
  | some container =>
    simp only [Option.some.injEq, exists_eq_left', ← mem_attributePairs]
    cases attributePairs container with
    | nil => simp
    | cons pair pairs =>
      simp only [reduceCtorEq, false_iff, not_not]
      exact ⟨pair.1, pair.2, List.mem_cons_self⟩

theorem partialRejection?_status {rejection : BackendError} (h : partialRejection? status payload = some rejection) :
    rejection.status = status := by
  unfold partialRejection? at h
  split at h
  · split at h
    · cases h
    · cases h
      rfl
  · cases h

/-! ### The verdict -/

/-- A response whose body ought to have a value that can be handed on, but has none. -/
def Unusable (response : Response) : Prop :=
  response.status.code = 304 ∨
    200 ≤ response.status.code ∧ response.status.code ≤ 299 ∧ ∃ fault, Json.read response.body = .error fault

/-- A success whose body has a value that rejects no attributes. -/
def Carries (response : Response) (payload : Json) : Prop :=
  200 ≤ response.status.code ∧ response.status.code ≤ 299 ∧ Json.read response.body = .ok payload ∧
    ¬ RejectsAttributes payload

theorem Carries.not_unusable {response : Response} (h : Carries response payload) : ¬ Unusable response := by
  obtain ⟨hlow, hhigh, hread, -⟩ := h
  rintro (hsame | ⟨-, -, fault, hfault⟩)
  · omega
  · rw [hread] at hfault
    cases hfault

theorem classify_response (response : Response) :
    (∃ payload, Carries response payload ∧ classify (.ok response) = .ok payload) ∨
    (Unusable response ∧ IsMalformed (classify (.ok response))) ∨
    (¬ Unusable response ∧ (∀ payload, ¬ Carries response payload) ∧
      ∃ rejection, rejection.status = response.status ∧ classify (.ok response) = .error (.ofBackend rejection)) := by
  have hsuccess : response.status.isSuccessful ↔ 200 ≤ response.status.code ∧ response.status.code ≤ 299 := by
    simp [Status.isSuccessful]
  have hsame : response.status.isNotModified ↔ response.status.code = 304 := by simp [Status.isNotModified]
  by_cases hok : response.status.isSuccessful
  · obtain ⟨hlow, hhigh⟩ := hsuccess.1 hok
    have hother : response.status.code ≠ 304 := by omega
    simp only [classify, hok, if_true, success]
    cases hread : Json.read response.body with
    | error fault => exact .inr (.inl ⟨.inr ⟨hlow, hhigh, fault, hread⟩, _, _, rfl⟩)
    | ok payload =>
      cases hpartial : partialRejection? response.status payload with
      | none =>
        exact .inl ⟨payload, ⟨hlow, hhigh, hread, partialRejection?_eq_none.1 hpartial⟩, by simp [hpartial]⟩
      | some rejection =>
        have hrejects : RejectsAttributes payload := by
          by_contra hnot
          rw [partialRejection?_eq_none.2 hnot] at hpartial
          cases hpartial
        refine .inr (.inr ⟨?_, ?_, rejection, partialRejection?_status hpartial, by simp [hpartial]⟩)
        · rintro (h | ⟨-, -, fault, hfault⟩)
          · exact hother h
          · rw [hread] at hfault
            cases hfault
        · rintro other ⟨-, -, hother, hnot⟩
          rw [hread] at hother
          cases hother
          exact hnot hrejects
  · have hcode := mt hsuccess.2 hok
    simp only [classify, hok, Bool.false_eq_true, if_false]
    by_cases h304 : response.status.isNotModified
    · simp only [h304, if_true]
      exact .inr (.inl ⟨.inl (hsame.1 h304), _, _, rfl⟩)
    · simp only [h304, Bool.false_eq_true, if_false]
      refine .inr (.inr ⟨?_, fun payload h => hcode ⟨h.1, h.2.1⟩, _, rfl, rfl⟩)
      rintro (h | ⟨hlow, hhigh, -⟩)
      · exact h304 (hsame.2 h)
      · exact hcode ⟨hlow, hhigh⟩

theorem classify_eq_network {outcome : Outcome} {cause : TransportError} :
    classify outcome = .error (.network cause) ↔ outcome = .error cause := by
  cases outcome with
  | error cause' => simp [classify]
  | ok response =>
    simp only [reduceCtorEq, iff_false]
    rcases classify_response response with
      ⟨payload, -, hresult⟩ | ⟨-, reason, text, hresult⟩ | ⟨-, -, rejection, -, hresult⟩
    · simp [hresult]
    · simp [hresult]
    · simp [hresult, RequestError.ofBackend_ne_network]

theorem classify_eq_ok {outcome : Outcome} :
    classify outcome = .ok payload ↔ ∃ response, outcome = .ok response ∧ Carries response payload := by
  cases outcome with
  | error cause => simp [classify]
  | ok response =>
    simp only [Except.ok.injEq, exists_eq_left']
    rcases classify_response response with ⟨found, hcarries, hresult⟩ | ⟨hunusable, reason, text, hresult⟩ |
      ⟨-, hnone, rejection, -, hresult⟩
    · rw [hresult, Except.ok.injEq]
      constructor
      · rintro rfl
        exact hcarries
      · rintro ⟨-, -, hread, -⟩
        exact Except.ok.inj (hcarries.2.2.1.symm.trans hread)
    · simp only [hresult, reduceCtorEq, false_iff]
      exact fun hcarries => hcarries.not_unusable hunusable
    · simp [hresult, hnone]

theorem isMalformed_classify_iff {outcome : Outcome} :
    IsMalformed (classify outcome) ↔ ∃ response, outcome = .ok response ∧ Unusable response := by
  cases outcome with
  | error cause => simp [classify, IsMalformed]
  | ok response =>
    simp only [Except.ok.injEq, exists_eq_left']
    rcases classify_response response with ⟨payload, hcarries, hresult⟩ | ⟨hunusable, hmalformed⟩ |
      ⟨husable, -, rejection, -, hresult⟩
    · simp [IsMalformed, hresult, hcarries.not_unusable]
    · exact iff_of_true hmalformed hunusable
    · simp [IsMalformed, hresult, husable, RequestError.ofBackend_ne_malformed]

theorem decode_eq_error {α : Type} {decoder : Json.Decoder α} {error : RequestError}
    (h : decode decoder payload = .error error) : ∃ reason body, error = .malformed reason body := by
  unfold decode at h
  split at h
  · cases h
  · cases h
    exact ⟨_, _, rfl⟩

/-- An outcome is a network error, kept as it is, if and only if no response came, and nothing else is worth a retry.
It is a payload if and only if a success carries it, and malformed if and only if its response is unusable; then no
purchase may be finished and nothing counts as stored. Any other response is a rejection with the response's status.
Decoding a payload adds nothing but malformed responses. -/
theorem classify_taxonomy (outcome : Outcome) :
    (∀ cause, classify outcome = .error (.network cause) ↔ outcome = .error cause) ∧
    (∀ error, classify outcome = .error error → (error.isRetryable ↔ ∃ cause, outcome = .error cause)) ∧
    (∀ payload, classify outcome = .ok payload ↔ ∃ response, outcome = .ok response ∧ Carries response payload) ∧
    (IsMalformed (classify outcome) ↔ ∃ response, outcome = .ok response ∧ Unusable response) ∧
    (∀ error, classify outcome = .error error → IsMalformed (classify outcome) →
      error.isFinishable = false ∧ error.isSynced = false) ∧
    (∀ response, outcome = .ok response → (∀ payload, ¬ Carries response payload) → ¬ Unusable response →
      ∃ error rejection, classify outcome = .error error ∧ error.RejectedWith response.status rejection) ∧
    (∀ {α : Type} (decoder : Json.Decoder α) error, classifyAs decoder outcome = .error error →
      classify outcome = .error error ∨
        (∃ payload, classify outcome = .ok payload) ∧ ∃ reason body, error = .malformed reason body) := by
  refine ⟨fun _ => classify_eq_network, ?_, fun _ => classify_eq_ok, isMalformed_classify_iff, ?_, ?_, ?_⟩
  · intro error herror
    simp only [error.isRetryable_iff, ← classify_eq_network, herror, Except.error.injEq]
  · rintro error herror ⟨reason, text, hmalformed⟩
    cases Except.error.inj (herror.symm.trans hmalformed)
    exact ⟨rfl, rfl⟩
  · rintro response rfl hnone husable
    rcases classify_response response with ⟨payload, hcarries, -⟩ | ⟨hunusable, -⟩ | ⟨-, -, rejection, hstatus, hresult⟩
    · exact absurd hcarries (hnone payload)
    · exact absurd hunusable husable
    · exact ⟨_, rejection, hresult, hstatus ▸ RequestError.rejectedWith_ofBackend rejection⟩
  · intro α decoder error herror
    unfold classifyAs at herror
    cases hresult : classify outcome with
    | error error' =>
      rw [hresult] at herror
      cases herror
      exact .inl rfl
    | ok payload =>
      rw [hresult] at herror
      exact .inr ⟨⟨payload, rfl⟩, decode_eq_error herror⟩

end Classify

end Entitle
