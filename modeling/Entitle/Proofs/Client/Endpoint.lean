import Entitle.Client.Endpoint
import Entitle.Proofs.Signature
import Entitle.Proofs.Text.Encoding

/-!
# What bodies and paths tell

The canonical body of an upload tells all that is sent (`Endpoint.receiptBody_inj`), that of a change of attributes
tells the attributes (`Endpoint.attributeMembers_inj`), and a path tells the user in it (`Endpoint.userPath_cut`).
-/

namespace Entitle

namespace Endpoint

/-! ### Bodies -/

variable {r r' : Receipt} {sent sent' : List String} {a a' : Attribute} {changes changes' : KeyMap Attribute}
  {user user' : String}

theorem exact_attributeBody (a : Attribute) : (attributeBody a).Exact := by
  refine .object fun member hmember => ?_
  simp only [List.mem_cons, List.not_mem_nil, or_false] at hmember
  rcases hmember with rfl | rfl
  · cases a.value
    · exact .null
    · exact .string _
  · exact .int _

theorem attributeBody_inj (h : (attributeBody a).canonical = (attributeBody a').canonical) : a = a' := by
  have hnodup (x y : Json) : (KeyMap.keys [("value", x), ("updated_at_ms", y)]).Nodup :=
    show ["value", "updated_at_ms"].Nodup by decide
  have hmember := Json.get?_of_canonical_eq (hnodup _ _) (hnodup _ _) h
  obtain ⟨value, time⟩ := a
  obtain ⟨value', time'⟩ := a'
  have htime : time = time' := Json.int.inj (Option.some.inj (hmember "updated_at_ms"))
  have hvalue : value = value' := by
    have hbody := Option.some.inj (hmember "value")
    cases value <;> cases value' <;> cases hbody <;> rfl
  rw [htime, hvalue]

/-- The members of an upload. -/
def receiptMembers (r : Receipt) (sent : List String) : List (String × Json) :=
  [("fetch_token", .string (Text.Base64.encode r.content)),
    ("app_user_id", .string r.user),
    ("is_restore", .bool r.isRestore)]
  ++ listMember "product_ids" r.products
  ++ listMember "transaction_ids" sent
  ++ (r.offering.map fun o => ("presented_offering_identifier", Json.string o)).toList

theorem get?_listMember (name : String) (items : List String) (key : String) :
    KeyMap.get? (listMember name items) key =
      if name = key ∧ items ≠ [] then some (.array (items.map .string)) else none := by
  cases items <;> simp [listMember, KeyMap.get?]

theorem get?_toList_map (name : String) (value : Option String) (key : String) :
    KeyMap.get? (value.map fun text => (name, Json.string text)).toList key =
      if name = key then value.map .string else none := by
  cases value <;> simp [KeyMap.get?]

theorem get?_receiptMembers {key : String} (h : key ∉ ["fetch_token", "app_user_id", "is_restore"]) :
    KeyMap.get? (receiptMembers r sent) key =
      ((if "product_ids" = key ∧ r.products ≠ [] then some (.array (r.products.map .string)) else none).or
        (if "transaction_ids" = key ∧ sent ≠ [] then some (.array (sent.map .string)) else none)).or
          (if "presented_offering_identifier" = key then r.offering.map .string else none) := by
  rw [receiptMembers, KeyMap.get?_append, KeyMap.get?_append, KeyMap.get?_append, get?_listMember, get?_listMember,
    get?_toList_map, KeyMap.get?_eq_none h, Option.none_or]

theorem listMember_inj {items items' : List String}
    (h : (if items ≠ [] then some (Json.array (items.map .string)) else none).map Json.canonical =
      (if items' ≠ [] then some (Json.array (items'.map .string)) else none).map Json.canonical) : items = items' := by
  have hstring : Function.Injective Json.string := fun _ _ h => Json.string.inj h
  by_cases hnil : items = [] <;> by_cases hnil' : items' = []
  · rw [hnil, hnil']
  · simp [hnil, hnil'] at h
  · simp [hnil, hnil'] at h
  · rw [if_pos hnil, if_pos hnil', Option.map_some, Option.map_some, Json.canonical_texts, Json.canonical_texts] at h
    exact List.map_injective_iff.2 hstring (Json.array.inj (Option.some.inj h))

theorem keys_listMember_sublist (name : String) (items : List String) :
    (KeyMap.keys (listMember name items)).Sublist [name] := by
  cases items with
  | nil => exact List.nil_sublist _
  | cons item items => exact List.Sublist.refl _

theorem keys_toList_map_sublist (name : String) (value : Option String) :
    (KeyMap.keys (value.map fun text => (name, Json.string text)).toList).Sublist [name] := by
  cases value with
  | none => exact List.nil_sublist _
  | some text => exact List.Sublist.refl _

theorem nodup_receiptMembers (r : Receipt) (sent : List String) : (KeyMap.keys (receiptMembers r sent)).Nodup := by
  have hsublist : (KeyMap.keys (receiptMembers r sent)).Sublist (["fetch_token", "app_user_id", "is_restore"] ++
      ["product_ids"] ++ ["transaction_ids"] ++ ["presented_offering_identifier"]) := by
    unfold receiptMembers KeyMap.keys
    simp only [List.map_append]
    have hproducts := keys_listMember_sublist "product_ids" r.products
    have hsent := keys_listMember_sublist "transaction_ids" sent
    have hoffering := keys_toList_map_sublist "presented_offering_identifier" r.offering
    exact (((List.Sublist.refl _).append hproducts).append hsent).append hoffering
  exact hsublist.nodup (by decide)

theorem exact_listMember (name : String) (items : List String) : ∀ member ∈ listMember name items, member.2.Exact := by
  cases items with
  | nil => nofun
  | cons item items =>
    intro member hmember
    rw [List.mem_singleton.1 hmember]
    refine .array fun text htext => ?_
    obtain ⟨s, -, rfl⟩ := List.mem_map.1 htext
    exact .string s

theorem exact_receiptBody (r : Receipt) (sent : List String) : (receiptBody r sent).Exact := by
  refine .object fun member hmember => ?_
  simp only [List.mem_append, or_assoc] at hmember
  rcases hmember with hmember | hmember | hmember | hmember
  · simp only [List.mem_cons, List.not_mem_nil, or_false] at hmember
    rcases hmember with rfl | rfl | rfl
    · exact .string _
    · exact .string _
    · exact .bool _
  · exact exact_listMember _ _ member hmember
  · exact exact_listMember _ _ member hmember
  · obtain ⟨o, -, rfl⟩ := Option.map_eq_some_iff.1 (Option.mem_toList.1 hmember)
    exact .string o

theorem receiptBody_inj (h : (receiptBody r sent).canonical = (receiptBody r' sent').canonical) :
    { r with transactions := sent } = { r' with transactions := sent' } := by
  have hmember := Json.get?_of_canonical_eq (nodup_receiptMembers r sent) (nodup_receiptMembers r' sent') h
  have htoken : Text.Base64.encode r.content = Text.Base64.encode r'.content :=
    Json.string.inj (Option.some.inj (hmember "fetch_token"))
  have huser : r.user = r'.user := Json.string.inj (Option.some.inj (hmember "app_user_id"))
  have hrestore : r.isRestore = r'.isRestore := Json.bool.inj (Option.some.inj (hmember "is_restore"))
  have hproducts : r.products = r'.products := by
    have hlist := hmember "product_ids"
    rw [get?_receiptMembers (by decide), get?_receiptMembers (by decide)] at hlist
    exact listMember_inj (by simpa using hlist)
  have hsent : sent = sent' := by
    have hlist := hmember "transaction_ids"
    rw [get?_receiptMembers (by decide), get?_receiptMembers (by decide)] at hlist
    exact listMember_inj (by simpa using hlist)
  have hoffering : r.offering = r'.offering := by
    have htext := hmember "presented_offering_identifier"
    rw [get?_receiptMembers (by decide), get?_receiptMembers (by decide)] at htext
    cases ho : r.offering <;> cases ho' : r'.offering <;> simp_all [Json.canonical]
  rw [Receipt.mk.injEq]
  exact ⟨huser, Text.Base64.encode_injective htoken, hsent, hproducts, hrestore, hoffering⟩

/-- The attributes of a change. -/
def attributeMembers (changes : KeyMap Attribute) : List (String × Json) :=
  changes.map fun entry => (entry.1, attributeBody entry.2)

theorem exact_attributeMembers (changes : KeyMap Attribute) : (Json.object (attributeMembers changes)).Exact := by
  refine .object fun member hmember => ?_
  obtain ⟨entry, -, rfl⟩ := List.mem_map.1 hmember
  exact exact_attributeBody entry.2

theorem exact_attributesBody (changes : KeyMap Attribute) :
    (Json.object [("attributes", .object (attributeMembers changes))]).Exact := by
  refine .object fun member hmember => ?_
  rw [List.mem_singleton.1 hmember]
  exact exact_attributeMembers changes

theorem canonical_attributeMembers (h : changes.Sorted) :
    (Json.object (attributeMembers changes)).canonical =
      .object (changes.map fun entry => (entry.1, (attributeBody entry.2).canonical)) := by
  rw [Json.canonical_object, attributeMembers, List.map_map]
  exact congrArg Json.object (h.map fun a => (attributeBody a).canonical).ofPairs_eq

theorem attributeMembers_inj (h : changes.Sorted) (h' : changes'.Sorted)
    (heq : (Json.object (attributeMembers changes)).canonical = (Json.object (attributeMembers changes')).canonical) :
    changes = changes' := by
  rw [canonical_attributeMembers h, canonical_attributeMembers h'] at heq
  refine List.map_injective_iff.2 (fun entry entry' hentry => ?_) (Json.object.inj heq)
  obtain ⟨hname, hbody⟩ := Prod.mk.inj hentry
  exact Prod.ext hname (attributeBody_inj hbody)

/-! ### Paths -/

theorem toList_userPath (user : String) :
    (userPath user).toList = "/subscribers/".toList ++ (Text.PercentEncoding.encode user).toList :=
  String.toList_append

theorem takeWhile_encode (user : String) {rest : List Char} (h : ∀ c ∈ rest.head?, c = '/') :
    ((Text.PercentEncoding.encode user).toList ++ rest).takeWhile (· ≠ '/') =
      (Text.PercentEncoding.encode user).toList := by
  have hsegment : ∀ c ∈ (Text.PercentEncoding.encode user).toList, decide (c ≠ '/') := fun c hc =>
    decide_eq_true (Text.PercentEncoding.isSegment_encode user c hc).1
  rw [List.takeWhile_append_of_pos hsegment]
  cases rest with
  | nil => simp
  | cons c rest => simp [h c rfl]

theorem userPath_cut {rest rest' : List Char} (hrest : ∀ c ∈ rest.head?, c = '/')
    (hrest' : ∀ c ∈ rest'.head?, c = '/')
    (h : (userPath user).toList ++ rest = (userPath user').toList ++ rest') : user = user' ∧ rest = rest' := by
  rw [toList_userPath, toList_userPath, List.append_assoc, List.append_assoc] at h
  have htail := List.append_cancel_left h
  have huser : user = user' := by
    refine Text.PercentEncoding.encode_injective (String.toList_injective ?_)
    rw [← takeWhile_encode user hrest, htail, takeWhile_encode user' hrest']
  subst huser
  exact ⟨rfl, List.append_cancel_left htail⟩

theorem blank_notMem_userPath (user : String) : ' ' ∉ (userPath user).toList := by
  rw [toList_userPath, List.mem_append, not_or]
  exact ⟨by decide, fun h => (Text.PercentEncoding.isSegment_encode user ' ' h).2 rfl⟩

end Endpoint

end Entitle
