import Entitle.Proofs.Json.Equality
import Entitle.Signature

/-!
# What signatures and keys tell apart

Two bodies without doubles make one signature if and only if they are one value, in whatever order their members came
(`canonical_identity`). Two requests have one key if and only if they are one request, the digests of their bodies
collide, or the path of one is written like the path and the digest of the other (`cacheKey_eq_iff`); so a path without
blanks is safe from that (`eq_bare_of_cacheKey`).
-/

namespace Entitle

theorem Text.length_hex (bytes : Bytes) : (hex bytes).toList.length = 2 * bytes.length := by
  simp [hex, List.length_flatMap, Nat.mul_comm]

theorem Text.Blake3.length_digest (bytes : Bytes) : (digest bytes).length = 32 := by
  simp [digest, wordBytes, List.length_flatMap]

theorem Text.Blake3.tree_of_short {bytes : Bytes} (h : bytes.length ≤ 64) :
    tree 0 bytes = ⟨initial, blockOf bytes, 0, bytes.length, chunkStart ||| chunkEnd⟩ := by
  rw [tree, dif_pos (by omega), chunk, if_pos h]

namespace Signature

variable {s t : Signature} {method method' : Method} {path path' : String} {v w : Json}

theorem withBody_eq_iff (hv : v.Exact) (hw : w.Exact) :
    withBody method path v = withBody method' path' w ↔
      method = method' ∧ path = path' ∧ v.canonical = w.canonical := by
  constructor
  · intro h
    obtain ⟨hmethod, hpath, hbody⟩ := Signature.mk.inj h
    exact ⟨hmethod, hpath, hv.canonical.eq_of_render hw.canonical (Option.some.inj hbody)⟩
  · rintro ⟨rfl, rfl, hbody⟩
    rw [withBody, withBody, hbody]

theorem bare_ne_withBody : bare method path ≠ withBody method' path' v := fun h => by cases h

/-- Two requests with bodies are one request if and only if methods and paths are the same and the bodies are equal as
values, and no request without a body is one with a body, not even with null. -/
theorem canonical_identity (hv : v.Exact) (hw : w.Exact) :
    (withBody method path v = withBody method' path' w ↔ method = method' ∧ path = path' ∧ v.Same w) ∧
      bare method path ≠ withBody method' path' w := by
  refine ⟨?_, bare_ne_withBody⟩
  rw [withBody_eq_iff hv hw, Json.canonical_eq_iff]

/-- Such as two objects of which one repeats a member, with the members inside in another order. -/
theorem canonical_identity_reordered :
    let inner (members : List (String × Json)) : Json := .array [.object members, .null]
    let v : Json := .object [("b", .bool true), ("b", inner [("d", .int (-1)), ("c", .string "\"\n")]),
      ("a", .object [])]
    let w : Json := .object [("a", .object []), ("b", inner [("c", .string "\"\n"), ("d", .int (-1))])]
    v.Exact ∧ w.Exact ∧ withBody .post "/receipts" v = withBody .post "/receipts" w ∧ v.Same w ∧
      bare .post "/receipts" ≠ withBody .post "/receipts" w := by
  intro inner v w
  have hv : v.Exact := by simp [v, inner]
  have hw : w.Exact := by simp [w, inner]
  have hsame : withBody .post "/receipts" v = withBody .post "/receipts" w := by decide
  obtain ⟨hidentity, hbare⟩ := @canonical_identity .post .post "/receipts" "/receipts" v w hv hw
  exact ⟨hv, hw, hsame, (hidentity.1 hsame).2.2, hbare⟩

/-! ### Keys -/

theorem length_bodyDigest (body : String) : (bodyDigest body).toList.length = 32 := by
  rw [bodyDigest, Text.length_hex, List.length_take, Text.Blake3.length_digest]
  rfl

/-- A request without a body whose path is written like the path of another and the digest of its body. -/
def Mimics (s t : Signature) : Prop :=
  s.body = none ∧ s.method = t.method ∧ ∃ body, t.body = some body ∧ s.path = t.path ++ " #" ++ bodyDigest body

/-- Two requests that differ in their bodies, though these have one digest. -/
def Collides (s t : Signature) : Prop :=
  s.method = t.method ∧ s.path = t.path ∧
    ∃ body body', s.body = some body ∧ t.body = some body' ∧ body ≠ body' ∧ bodyDigest body = bodyDigest body'

/-- What is behind a path in a key: a mark and the digest of the body, if there is one. -/
def keyEnd : Option String → List Char
  | none => []
  | some body => ' ' :: '#' :: (bodyDigest body).toList

/-- The method ends at the first blank of a key. -/
theorem toList_cacheKey (s : Signature) :
    s.cacheKey.toList = s.method.name.toList ++ ' ' :: (s.path.toList ++ keyEnd s.body) := by
  cases hbody : s.body <;> simp [cacheKey, render, keyEnd, hbody]

theorem name_cut {r r' : List Char} (h : method.name.toList ++ ' ' :: r = method'.name.toList ++ ' ' :: r') :
    method = method' ∧ r = r' := by
  cases method <;> cases method' <;> simp_all [Method.name]

theorem keyEnd_cut {path path' : List Char} {body body' : String}
    (h : path ++ keyEnd (some body) = path' ++ keyEnd (some body')) :
    path = path' ∧ bodyDigest body = bodyDigest body' := by
  have hlength : ∀ b, (keyEnd (some b)).length = 34 := fun b => by simp [keyEnd, length_bodyDigest]
  obtain ⟨hpath, hend⟩ := List.append_inj' h ((hlength body).trans (hlength body').symm)
  simp only [keyEnd, List.cons.injEq, true_and] at hend
  exact ⟨hpath, String.toList_injective hend⟩

theorem toList_mimic (path body : String) :
    (path ++ " #" ++ bodyDigest body).toList = path.toList ++ keyEnd (some body) := by
  simp [keyEnd]

theorem Mimics.cacheKey_eq (h : s.Mimics t) : s.cacheKey = t.cacheKey := by
  obtain ⟨hbody, hmethod, body, hbody', hpath⟩ := h
  refine String.toList_injective ?_
  simp [toList_cacheKey, hbody, hmethod, hbody', hpath, keyEnd]

theorem Mimics.length_path (h : s.Mimics t) : s.path.toList.length = t.path.toList.length + 34 := by
  obtain ⟨-, -, body, -, hpath⟩ := h
  rw [hpath, toList_mimic, List.length_append]
  simp [keyEnd, length_bodyDigest]

/-- Two requests have one key if and only if they are one request, one mimics the other or their bodies collide. -/
theorem cacheKey_eq_iff : s.cacheKey = t.cacheKey ↔ s = t ∨ s.Mimics t ∨ t.Mimics s ∨ s.Collides t := by
  constructor
  · intro h
    obtain ⟨method, path, body⟩ := s
    obtain ⟨method', path', body'⟩ := t
    have hkey := congrArg String.toList h
    simp only [toList_cacheKey] at hkey
    obtain ⟨rfl, hrest⟩ := name_cut hkey
    cases body with
    | none =>
      rw [keyEnd, List.append_nil] at hrest
      cases body' with
      | none =>
        rw [keyEnd, List.append_nil] at hrest
        exact .inl (by rw [String.toList_injective hrest])
      | some body' =>
        rw [← toList_mimic] at hrest
        exact .inr (.inl ⟨rfl, rfl, body', rfl, String.toList_injective hrest⟩)
    | some body =>
      cases body' with
      | none =>
        rw [keyEnd, List.append_nil, ← toList_mimic] at hrest
        exact .inr (.inr (.inl ⟨rfl, rfl, body, rfl, (String.toList_injective hrest).symm⟩))
      | some body' =>
        obtain ⟨hpath, hdigest⟩ := keyEnd_cut hrest
        obtain rfl := String.toList_injective hpath
        by_cases hbody : body = body'
        · exact .inl (by rw [hbody])
        · exact .inr (.inr (.inr ⟨rfl, rfl, body, body', rfl, rfl, hbody, hdigest⟩))
  · rintro (rfl | hmimics | hmimics | ⟨hmethod, hpath, body, body', hbody, hbody', -, hdigest⟩)
    · rfl
    · exact hmimics.cacheKey_eq
    · exact hmimics.cacheKey_eq.symm
    · simp only [cacheKey, render, hmethod, hpath, hbody, hbody', hdigest]

theorem eq_bare_of_cacheKey (hpath : ' ' ∉ path.toList)
    (h : s.cacheKey = (bare method path).cacheKey) : s = bare method path := by
  rcases cacheKey_eq_iff.1 h with
    hsame | ⟨-, -, body, hbody, -⟩ | ⟨-, -, body, -, hmimics⟩ | ⟨-, -, body, body', -, hbody, -⟩
  · exact hsame
  · cases hbody
  · -- the blank in front of the digest would be in the path
    refine absurd ?_ hpath
    rw [show path = _ from hmimics, toList_mimic]
    exact List.mem_append_right _ List.mem_cons_self
  · cases hbody

end Signature

end Entitle
