import Entitle.Client.Basic
import Entitle.Proofs.Client.Endpoint

/-!
# What a call asks for

`Subject`: an endpoint with what is sent to it. The signature of a request tells its subject (`Subject.signature_inj`),
and for the endpoints that are cached its key does, among all signatures (`Subject.IsCached.eq_of_cacheKey`).
-/

namespace Entitle

/-- An endpoint with what is sent to it. How late the request may start does not count. -/
inductive Subject where
  | offerings (user : String)
  | customerInfo (user : String)
  | productsEntitlements
  /-- The transactions are those that are sent. -/
  | receipt (receipt : Receipt)
  | attributes (user : String) (changes : KeyMap Attribute)
  deriving DecidableEq, Repr

namespace Subject

/-- The request of a subject. -/
def signature : Subject → Signature
  | .offerings user => Endpoint.offerings user
  | .customerInfo user => Endpoint.customerInfo user
  | .productsEntitlements => Endpoint.productsEntitlements
  | .receipt r => Endpoint.receipt r r.transactions
  | .attributes user changes => Endpoint.attributes user changes

/-- The user that a subject is about. -/
def user? : Subject → Option String
  | .offerings user => some user
  | .customerInfo user => some user
  | .productsEntitlements => none
  | .receipt r => some r.user
  | .attributes user _ => some user

/-- What is only read, and cached. -/
def IsCached : Subject → Prop
  | .offerings _ | .customerInfo _ | .productsEntitlements => True
  | .receipt _ | .attributes .. => False

/-- Attributes are a map: they stand in key order. -/
def IsOrdered : Subject → Prop
  | .attributes _ changes => changes.Sorted
  | _ => True

end Subject

/-- What a call asks for; a request of any form has no subject. -/
def Inquiry.subject? (q : Inquiry) : Option Subject :=
  match q.call with
  | .offerings user _ => some (.offerings user)
  | .customerInfo user _ => some (.customerInfo user)
  | .productsEntitlements _ => some .productsEntitlements
  | .postReceipt r => some (.receipt { r with transactions := q.unsynced })
  | .postAttributes user changes => some (.attributes user changes)
  | .request .. => none

theorem Call.asks {call : Call} {ledger : Ledger} {q : Inquiry} {a : Subject} (h : call.prepare ledger = .inquiry q)
    (ha : q.subject? = some a) : q.signature = a.signature ∧ (q.useCache ↔ a.IsCached) := by
  cases call with
  | offerings | customerInfo | productsEntitlements =>
    cases h
    cases ha
    exact ⟨rfl, by simp [Subject.IsCached]⟩
  | request signature useCache =>
    cases h
    cases ha
  | postReceipt receipt =>
    simp only [prepare] at h
    split at h
    · cases h
    · cases h
      cases ha
      exact ⟨rfl, by simp [Subject.IsCached]⟩
  | postAttributes user changes =>
    simp only [prepare] at h
    split at h
    · cases h
    · cases h
      cases ha
      exact ⟨rfl, by simp [Subject.IsCached]⟩

namespace Subject

variable {a b : Subject}

/-- What comes behind the user in a path. -/
def pathEnd : Subject → String
  | .offerings _ => "/offerings"
  | .attributes .. => "/attributes"
  | _ => ""

/-- The second character of a path. -/
def initial : Subject → Char
  | .productsEntitlements => 'p'
  | .receipt _ => 'r'
  | _ => 's'

theorem toList_path {user : String} (h : a.initial = 's') (huser : a.user? = some user) :
    a.signature.path.toList = (Endpoint.userPath user).toList ++ a.pathEnd.toList := by
  cases a with
  | receipt r => cases h
  | productsEntitlements => cases huser
  | customerInfo =>
    cases huser
    exact (List.append_nil _).symm
  | _ =>
    cases huser
    exact String.toList_append

theorem pathEnd_head? (a : Subject) : ∀ c ∈ a.pathEnd.toList.head?, c = '/' := by
  cases a <;> simp [pathEnd]

theorem user_of_path {user user' : String} (ha : a.initial = 's') (hb : b.initial = 's')
    (hpath : a.signature.path = b.signature.path) (huser : a.user? = some user) (huser' : b.user? = some user') :
    user = user' ∧ a.pathEnd = b.pathEnd := by
  have hlist := congrArg String.toList hpath
  rw [toList_path ha huser, toList_path hb huser'] at hlist
  obtain ⟨hsame, hend⟩ := Endpoint.userPath_cut a.pathEnd_head? b.pathEnd_head? hlist
  exact ⟨hsame, String.toList_injective hend⟩

theorem path_getElem? (a : Subject) : a.signature.path.toList[1]? = some a.initial := by
  have huser {user : String} (h : a.initial = 's') (huser : a.user? = some user) :
      a.signature.path.toList[1]? = some a.initial := by
    rw [toList_path h huser, Endpoint.toList_userPath, List.append_assoc, h]
    simp
  cases a with
  | productsEntitlements => exact show "/products_entitlement_mapping".toList[1]? = some 'p' by decide
  | receipt r => exact show "/receipts".toList[1]? = some 'r' by decide
  | _ => exact huser rfl rfl

theorem IsCached.signature_eq (h : a.IsCached) : ∃ path, a.signature = .bare .get path ∧ ' ' ∉ path.toList := by
  cases a with
  | receipt | attributes => cases h
  | offerings user =>
    refine ⟨_, rfl, ?_⟩
    rw [String.toList_append, List.mem_append, not_or]
    exact ⟨Endpoint.blank_notMem_userPath user, by decide⟩
  | customerInfo user => exact ⟨_, rfl, Endpoint.blank_notMem_userPath user⟩
  | productsEntitlements => exact ⟨_, rfl, by decide⟩

theorem IsCached.eq_of_cacheKey (h : a.IsCached) {s : Signature} (hkey : s.cacheKey = a.signature.cacheKey) :
    s = a.signature := by
  obtain ⟨path, hpath, hblank⟩ := h.signature_eq
  rw [hpath] at hkey ⊢
  exact Signature.eq_bare_of_cacheKey hblank hkey

/-- The signature tells the subject. -/
theorem signature_inj (ha : a.IsOrdered) (hb : b.IsOrdered) (h : a.signature = b.signature) : a = b := by
  have hmethod : a.signature.method = b.signature.method := congrArg Signature.method h
  have hpath : a.signature.path = b.signature.path := congrArg Signature.path h
  have hinitial : a.initial = b.initial := Option.some.inj (by rw [← path_getElem?, hpath, path_getElem?])
  cases a with
  | offerings user =>
    cases b with
    | offerings user' => rw [(user_of_path rfl rfl hpath rfl rfl).1]
    | customerInfo user' =>
      have hend : "/offerings" = "" := (user_of_path rfl rfl hpath rfl rfl).2
      exact absurd hend (by decide)
    | productsEntitlements => cases hinitial
    | receipt | attributes => cases hmethod
  | customerInfo user =>
    cases b with
    | customerInfo user' => rw [(user_of_path rfl rfl hpath rfl rfl).1]
    | offerings user' =>
      have hend : "" = "/offerings" := (user_of_path rfl rfl hpath rfl rfl).2
      exact absurd hend (by decide)
    | productsEntitlements => cases hinitial
    | receipt | attributes => cases hmethod
  | productsEntitlements =>
    cases b with
    | productsEntitlements => rfl
    | offerings | customerInfo => cases hinitial
    | receipt | attributes => cases hmethod
  | receipt r =>
    cases b with
    | receipt r' =>
      obtain ⟨-, -, hbody⟩ :=
        (Signature.withBody_eq_iff (Endpoint.exact_receiptBody _ _) (Endpoint.exact_receiptBody _ _)).1 h
      exact congrArg Subject.receipt (Endpoint.receiptBody_inj hbody)
    | attributes => cases hinitial
    | offerings | customerInfo | productsEntitlements => cases hmethod
  | attributes user changes =>
    cases b with
    | attributes user' changes' =>
      obtain ⟨-, -, hbody⟩ :=
        (Signature.withBody_eq_iff (Endpoint.exact_attributesBody _) (Endpoint.exact_attributesBody _)).1 h
      have hnodup (x : Json) : (KeyMap.keys [("attributes", x)]).Nodup := show ["attributes"].Nodup by decide
      have hmembers := Json.get?_of_canonical_eq (hnodup _) (hnodup _) hbody "attributes"
      rw [(user_of_path rfl rfl hpath rfl rfl).1, Endpoint.attributeMembers_inj ha hb (Option.some.inj hmembers)]
    | receipt => cases hinitial
    | offerings | customerInfo | productsEntitlements => cases hmethod

theorem IsCached.isOrdered (h : a.IsCached) : a.IsOrdered := by
  cases a with
  | receipt | attributes => cases h
  | _ => trivial

theorem IsCached.eq_of_signature (h : a.IsCached) (hsignature : b.signature = a.signature) : b = a := by
  have hb : b.IsCached := by
    obtain ⟨path, hpath, -⟩ := h.signature_eq
    cases b with
    | receipt | attributes => exact absurd (hpath.symm.trans hsignature.symm) Signature.bare_ne_withBody
    | _ => trivial
  exact signature_inj hb.isOrdered h.isOrdered hsignature

end Subject

end Entitle
