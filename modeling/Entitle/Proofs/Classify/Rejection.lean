import Entitle.Proofs.Classify
import Entitle.Proofs.KeyMap
import Entitle.Proofs.Text.Numeral

/-!
# What a rejection declares

`PairsOf` says which messages on attributes a container has, and in what order; entries of another form have no part in
it. Main statement: `rejection_declared`. A body that can be read gives the code and the message that it declares and on
each attribute its last message, and the same container gives the same inside a success.
-/

namespace Entitle

theorem BackendCode.ofNumber_ne_missing (n : Int) : ofNumber n ≠ .missing := by
  have hall : ∀ row ∈ table, row.1 ≠ .missing := by decide
  unfold ofNumber
  split
  · next row hrow => exact hall row (List.mem_of_find?_eq_some hrow)
  · simp

namespace Classify
open Text.Numeral

/-- What some of the entries stand for, in order; the others stand for nothing. -/
inductive Picks {α β : Type} (p : α → β → Prop) : List α → List β → Prop where
  | nil : Picks p [] []
  | take {x : α} {y : β} {xs : List α} {ys : List β} (hp : p x y) (h : Picks p xs ys) : Picks p (x :: xs) (y :: ys)
  | skip {x : α} {xs : List α} {ys : List β} (hp : ∀ y, ¬ p x y) (h : Picks p xs ys) : Picks p (x :: xs) ys

/-- An item that names an attribute and has a message on it. -/
def IsItem (item : Json) (pair : String × String) : Prop :=
  item.member? keyNameKey = some (.string pair.1) ∧ item.member? messageKey = some (.string pair.2)

/-- A member that is a message. -/
def IsMember (member : String × Json) (pair : String × String) : Prop :=
  member = (pair.1, .string pair.2)

/-- The messages on attributes that a container has of its own. -/
inductive PairsOf (container : Json) : List (String × String) → Prop where
  | items {items : List Json} {pairs : List (String × String)}
      (h : container.member? attributeErrorsKey = some (.array items)) (hpairs : Picks IsItem items pairs) :
      PairsOf container pairs
  | members {members : List (String × Json)} {pairs : List (String × String)}
      (h : container.member? attributeErrorsKey = some (.object members)) (hpairs : Picks IsMember members pairs) :
      PairsOf container pairs
  | neither (hitems : ∀ items, container.member? attributeErrorsKey ≠ some (.array items))
      (hmembers : ∀ members, container.member? attributeErrorsKey ≠ some (.object members)) : PairsOf container []

/-- Those of a payload, and behind them those of the container inside it. -/
inductive AllPairs (payload : Json) : List (String × String) → Prop where
  | own {pairs : List (String × String)} (h : payload.member? nestedKey = none) (hown : PairsOf payload pairs) :
      AllPairs payload pairs
  | nested {inner : Json} {own pairs : List (String × String)} (h : payload.member? nestedKey = some inner)
      (hown : PairsOf payload own) (hpairs : PairsOf inner pairs) : AllPairs payload (own ++ pairs)

/-- The code of a payload is a number in range, or the text of one with any blanks around it. -/
inductive Declares (payload : Json) : Int → Prop where
  | number {n : Int} (h : payload.member? codeKey = some (.int n)) (hn : IsInt64 n) : Declares payload n
  | text {s : String} {n : Int} (h : payload.member? codeKey = some (.string s)) (hs : IsPaddedInteger s n)
      (hn : IsInt64 n) : Declares payload n

/-- A rejection has what a payload declares, and of the pairs the last message on each attribute. -/
structure DeclaredBy (e : BackendError) (payload : Json) (pairs : List (String × String)) : Prop where
  code : ∀ n, Declares payload n → e.code = .ofNumber n
  missing : e.code = .missing ↔ ∀ n, ¬ Declares payload n
  message : ∀ text, e.message = some text ↔ payload.member? messageKey = some (.string text)
  sorted : KeyMap.Sorted e.attributeErrors
  attributes : ∀ key, key ∈ KeyMap.keys e.attributeErrors ↔ ∃ message, (key, message) ∈ pairs
  last : ∀ key message, e.attributeErrors.get? key = some message ↔
    ∃ before after, pairs = before ++ (key, message) :: after ∧ ∀ other, (key, other) ∉ after

/-- One container is the other without an entry that has no part in its pairs. -/
inductive DropsEntry (container container' : Json) : Prop where
  | item {before after : List Json} {item : Json}
      (h : container.member? attributeErrorsKey = some (.array (before ++ item :: after)))
      (h' : container'.member? attributeErrorsKey = some (.array (before ++ after)))
      (hitem : ∀ pair, ¬ IsItem item pair)
      (hsame : ∀ key ≠ attributeErrorsKey, container'.member? key = container.member? key)
  | member {before after : List (String × Json)} {member : String × Json}
      (h : container.member? attributeErrorsKey = some (.object (before ++ member :: after)))
      (h' : container'.member? attributeErrorsKey = some (.object (before ++ after)))
      (hmember : ∀ pair, ¬ IsMember member pair)
      (hsame : ∀ key ≠ attributeErrorsKey, container'.member? key = container.member? key)

/-- So is one payload to the other, or the container inside the one to that inside the other. -/
inductive DropsMalformed (payload payload' : Json) : Prop where
  | own (h : DropsEntry payload payload')
  | nested {inner inner' : Json} (h : payload.member? nestedKey = some inner)
      (h' : payload'.member? nestedKey = some inner') (hinner : DropsEntry inner inner')
      (hsame : ∀ key ≠ nestedKey, payload'.member? key = payload.member? key)

variable {payload payload' container container' : Json} {pairs : List (String × String)} {status : Status}
    {body : Bytes}

/-! ### Pairs -/

theorem picks_iff {α β : Type} {p : α → β → Prop} {f : α → Option β} (hf : ∀ x y, f x = some y ↔ p x y)
    {xs : List α} {ys : List β} : Picks p xs ys ↔ ys = xs.filterMap f := by
  have hnone : ∀ x, f x = none ↔ ∀ y, ¬ p x y := fun x => by simp only [← hf, Option.eq_none_iff_forall_ne_some]
  constructor
  · intro h
    induction h with
    | nil => rfl
    | take hp _ ih => rw [List.filterMap_cons_some ((hf _ _).2 hp), ih]
    | skip hp _ ih => rw [List.filterMap_cons_none ((hnone _).2 hp), ih]
  · rintro rfl
    induction xs with
    | nil => exact .nil
    | cons x xs ih =>
      cases hx : f x with
      | none =>
        rw [List.filterMap_cons_none hx]
        exact .skip ((hnone x).1 hx) ih
      | some y =>
        rw [List.filterMap_cons_some hx]
        exact .take ((hf x y).1 hx) ih

theorem attributePair?_iff (item : Json) (pair : String × String) :
    attributePair? item = some pair ↔ IsItem item pair :=
  attributePair?_eq_some

/-- The pair of a member of an object. -/
def memberPair? (member : String × Json) : Option (String × String) :=
  member.2.text?.map (member.1, ·)

theorem memberPair?_iff (member : String × Json) (pair : String × String) :
    memberPair? member = some pair ↔ IsMember member pair := by
  obtain ⟨key, value⟩ := member
  obtain ⟨key', message⟩ := pair
  simp only [memberPair?, IsMember, Option.map_eq_some_iff, text?_eq_some, Prod.mk.injEq]
  constructor
  · rintro ⟨text, rfl, rfl, rfl⟩
    exact ⟨rfl, rfl⟩
  · rintro ⟨rfl, rfl⟩
    exact ⟨message, rfl, rfl, rfl⟩

theorem attributePairs_of_items {items : List Json} (h : container.member? attributeErrorsKey = some (.array items)) :
    attributePairs container = items.filterMap attributePair? := by
  rw [attributePairs, h]

theorem attributePairs_of_members {members : List (String × Json)}
    (h : container.member? attributeErrorsKey = some (.object members)) :
    attributePairs container = members.filterMap memberPair? := by
  rw [attributePairs, h]
  rfl

theorem pairsOf_iff : PairsOf container pairs ↔ pairs = attributePairs container := by
  constructor
  · rintro (⟨h, hpairs⟩ | ⟨h, hpairs⟩ | ⟨hitems, hmembers⟩)
    · rw [attributePairs_of_items h]
      exact (picks_iff attributePair?_iff).1 hpairs
    · rw [attributePairs_of_members h]
      exact (picks_iff memberPair?_iff).1 hpairs
    · unfold attributePairs
      split
      · next items h => exact absurd h (hitems items)
      · next members h => exact absurd h (hmembers members)
      · rfl
  · rintro rfl
    unfold attributePairs
    split
    · next items h => exact .items h ((picks_iff attributePair?_iff).2 rfl)
    · next members h => exact .members h ((picks_iff memberPair?_iff).2 rfl)
    · next hitems hmembers => exact .neither hitems hmembers

/-- The pairs of the container inside a payload, if there is one. -/
def nestedPairs (payload : Json) : List (String × String) :=
  match payload.member? nestedKey with
  | some inner => attributePairs inner
  | none => []

theorem allPairs_iff : AllPairs payload pairs ↔ pairs = attributePairs payload ++ nestedPairs payload := by
  constructor
  · rintro (⟨h, hown⟩ | ⟨h, hown, hpairs⟩)
    · rw [nestedPairs, h, List.append_nil]
      exact pairsOf_iff.1 hown
    · rw [nestedPairs, h, pairsOf_iff.1 hown, pairsOf_iff.1 hpairs]
  · rintro rfl
    unfold nestedPairs
    split
    · next inner h => exact .nested h (pairsOf_iff.2 rfl) (pairsOf_iff.2 rfl)
    · next h =>
      rw [List.append_nil]
      exact .own h (pairsOf_iff.2 rfl)

/-! ### Code and message -/

/-- The number of a code. -/
def codeNumber? (payload : Json) : Option Int :=
  match payload.member? codeKey with
  | some (.string s) => int64? (Text.trimmed s)
  | some value => value.int64?
  | none => none

theorem declares_iff {n : Int} : Declares payload n ↔ codeNumber? payload = some n := by
  constructor
  · rintro (⟨h, hn⟩ | ⟨h, hs, hn⟩)
    · rw [codeNumber?, h]
      exact if_pos hn
    · rw [codeNumber?, h]
      exact int64?_trimmed.2 ⟨hs, hn⟩
  · intro h
    unfold codeNumber? at h
    split at h
    · next s hs =>
      obtain ⟨hinteger, hn⟩ := int64?_trimmed.1 h
      exact .text hs hinteger hn
    · next value _ hvalue =>
      unfold Json.int64? at h
      split at h
      · next m =>
        split at h
        · next hn =>
          cases h
          exact .number hvalue hn
        · cases h
      · cases h
    · cases h

theorem declaredCode_eq (payload : Json) :
    declaredCode payload = match codeNumber? payload with
      | some n => .ofNumber n
      | none => .missing := rfl

/-! ### Rejections -/

theorem backendError_of_ok (h : Json.read body = .ok payload) (status : Status) :
    backendError status body = .ofPairs status (declaredCode payload) (declaredMessage payload)
      (attributePairs payload ++ nestedPairs payload) := by
  have hread : Json.read? body = some payload := by rw [Json.read?, h]; rfl
  rw [backendError, hread]
  rfl

theorem backendError_of_error {fault : Json.Fault} (h : Json.read body = .error fault) (status : Status) :
    backendError status body = ⟨status, .missing, none, []⟩ := by
  have hread : Json.read? body = none := by rw [Json.read?, h]; rfl
  rw [backendError, hread]
  rfl

theorem declaredBy_ofPairs (status : Status) (payload : Json) (pairs : List (String × String)) :
    DeclaredBy (.ofPairs status (declaredCode payload) (declaredMessage payload) pairs) payload pairs where
  code n hn := by
    rw [BackendError.ofPairs, declaredCode_eq, declares_iff.1 hn]
  missing := by
    simp only [BackendError.ofPairs, declaredCode_eq, declares_iff]
    cases codeNumber? payload with
    | none => simp
    | some n => simpa using BackendCode.ofNumber_ne_missing n
  message text := by
    simp [BackendError.ofPairs, declaredMessage, Option.bind_eq_some_iff, text?_eq_some]
  sorted := KeyMap.sorted_ofPairs pairs
  attributes _ := KeyMap.mem_keys_ofPairs
  last _ _ := KeyMap.get?_ofPairs_eq_some

/-! ### Entries without a part -/

theorem DropsEntry.attributePairs_eq (h : DropsEntry container container') :
    attributePairs container' = attributePairs container := by
  cases h with
  | item h h' hitem hsame =>
    have hnone := Option.eq_none_iff_forall_ne_some.2 fun pair => mt (attributePair?_iff _ pair).1 (hitem pair)
    rw [attributePairs_of_items h, attributePairs_of_items h', List.filterMap_append, List.filterMap_append,
      List.filterMap_cons_none hnone]
  | member h h' hmember hsame =>
    have hnone := Option.eq_none_iff_forall_ne_some.2 fun pair => mt (memberPair?_iff _ pair).1 (hmember pair)
    rw [attributePairs_of_members h, attributePairs_of_members h', List.filterMap_append, List.filterMap_append,
      List.filterMap_cons_none hnone]

theorem DropsEntry.member?_eq (h : DropsEntry container container') {key : String} (hkey : key ≠ attributeErrorsKey) :
    container'.member? key = container.member? key := by
  cases h with
  | item _ _ _ hsame | member _ _ _ hsame => exact hsame key hkey

theorem DropsMalformed.member?_eq (h : DropsMalformed payload payload') {key : String}
    (hkey : key ≠ attributeErrorsKey ∧ key ≠ nestedKey) : payload'.member? key = payload.member? key := by
  cases h with
  | own h => exact h.member?_eq hkey.1
  | nested _ _ _ hsame => exact hsame key hkey.2

theorem DropsMalformed.backendError_eq (h : DropsMalformed payload payload') {body' : Bytes}
    (hread : Json.read body = .ok payload) (hread' : Json.read body' = .ok payload') (status : Status) :
    backendError status body' = backendError status body := by
  have hown : attributePairs payload' = attributePairs payload := by
    cases h with
    | own h => exact h.attributePairs_eq
    | nested _ _ _ hsame => rw [attributePairs, attributePairs, hsame _ (by decide)]
  have hnested : nestedPairs payload' = nestedPairs payload := by
    cases h with
    | own h => rw [nestedPairs, nestedPairs, h.member?_eq (by decide)]
    | nested h h' hinner _ =>
      rw [nestedPairs, nestedPairs, h, h']
      exact hinner.attributePairs_eq
  rw [backendError_of_ok hread, backendError_of_ok hread', declaredCode, declaredCode, declaredMessage, declaredMessage,
    h.member?_eq (by decide), h.member?_eq (by decide), hown, hnested]

/-! ### The same container in a success -/

theorem classify_rejection {response : Response}
    (hcode : response.status.code < 200 ∨ 299 < response.status.code) (hother : response.status.code ≠ 304) :
    classify (.ok response) = .error (.ofBackend (backendError response.status response.body)) := by
  have hfailed : response.status.isSuccessful = false := by
    simp only [Status.isSuccessful, Bool.and_eq_false_iff, decide_eq_false_iff_not]
    omega
  simp [classify, hfailed, Status.isNotModified, hother]

theorem classify_partial {response : Response} {pair : String × String}
    (hcode : 200 ≤ response.status.code ∧ response.status.code ≤ 299)
    (hread : Json.read response.body = .ok (.object [(nestedKey, container)]))
    (hpairs : PairsOf container (pair :: pairs)) :
    classify (.ok response) = .error (.ofBackend
      (.ofPairs response.status (declaredCode container) (declaredMessage container) (pair :: pairs))) := by
  have hsuccess : response.status.isSuccessful = true := by simpa [Status.isSuccessful] using hcode
  have hmember : Json.member? (.object [(nestedKey, container)]) nestedKey = some container := by
    simp [Json.member?, KeyMap.get?]
  simp only [classify, hsuccess, if_true, success, hread, partialRejection?, hmember, ← pairsOf_iff.1 hpairs]

/-- A body that cannot be read gives a rejection without code, message and attributes. One that can be read gives what
its value declares, whatever malformed entries stand between the others. A value that has messages on attributes, and no
container inside it, is the same rejection but for the status when it comes with a failure and when it comes inside a
success. -/
theorem rejection_declared (status : Status) (body : Bytes) :
    (∀ fault, Json.read body = .error fault → backendError status body = ⟨status, .missing, none, []⟩) ∧
    ∀ payload, Json.read body = .ok payload →
      (backendError status body).status = status ∧
      (∃ pairs, (∀ other, AllPairs payload other ↔ other = pairs) ∧
        DeclaredBy (backendError status body) payload pairs) ∧
      (∀ body' payload', Json.read body' = .ok payload' → DropsMalformed payload payload' →
        backendError status body' = backendError status body) ∧
      (payload.member? nestedKey = none → (∃ pair pairs, PairsOf payload (pair :: pairs)) →
        ∀ failure success : Response, failure.body = body → failure.status = status →
          status.code < 200 ∨ 299 < status.code → status.code ≠ 304 →
          200 ≤ success.status.code ∧ success.status.code ≤ 299 →
          Json.read success.body = .ok (.object [(nestedKey, payload)]) →
            classify (.ok failure) = .error (.ofBackend (backendError status body)) ∧
              classify (.ok success) =
                .error (.ofBackend { backendError status body with status := success.status })) := by
  refine ⟨fun fault h => backendError_of_error h status, fun payload h => ⟨?_, ?_, ?_, ?_⟩⟩
  · rw [backendError_of_ok h]
    rfl
  · refine ⟨attributePairs payload ++ nestedPairs payload, fun other => allPairs_iff, ?_⟩
    rw [backendError_of_ok h]
    exact declaredBy_ofPairs status payload _
  · exact fun body' payload' h' hdrops => hdrops.backendError_eq h h' status
  · rintro hnone ⟨pair, pairs, hpairs⟩ failure success rfl rfl hcode hother hsuccess hread
    refine ⟨classify_rejection hcode hother, ?_⟩
    rw [classify_partial hsuccess hread hpairs, backendError_of_ok h, nestedPairs, hnone, List.append_nil,
      ← pairsOf_iff.1 hpairs]
    rfl

/-- An attribute is named in both containers, and twice in one. -/
example :
    let item (key message : String) : Json := .object [("key_name", .string key), ("message", .string message)]
    let nested : Json := .object [("attribute_errors", .object [("a", .string "3"), ("b", .string "4"), ("c", .null)])]
    let payload : Json := .object [("attribute_errors", .array [item "b" "1", .int 7, item "b" "2"]),
      ("attributes_error_response", nested), ("code", .string " +7263\n")]
    backendError ⟨400⟩ (Text.utf8 payload.render) =
      ⟨⟨400⟩, .invalidSubscriberAttributes, none, [("a", "3"), ("b", "4")]⟩ := by
  decide +kernel

end Classify

end Entitle
