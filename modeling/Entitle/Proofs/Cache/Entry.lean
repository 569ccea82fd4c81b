import Entitle.Cache.Entry
import Entitle.Proofs.Json.RoundTrip
import Entitle.Proofs.Timestamp.RoundTrip

/-!
# Stored entries

An entry is read from its own JSON, byte for byte, exactly if its time is one that a clock can show
(`CacheEntry.read_toJson_iff`).
-/

namespace Entitle

namespace Json
open String (utf8EncodeChar)
open Text (bytesOf bytesOf_nil bytesOf_cons bytesOf_append)

variable {ρ : Type} {fields : List (StoredField ρ)} {fuel : Nat} {record record' : ρ} {rest : Bytes}

/-! ### Members of a record -/

/-- The bytes of a member whose value is a text. -/
def textMember (key text : String) : Bytes :=
  bytesOf (stringChars key) ++ 0x3A :: bytesOf (stringChars text)

theorem textMember_append (key text : String) (rest : Bytes) :
    textMember key text ++ rest = bytesOf (stringChars key) ++ 0x3A :: (bytesOf (stringChars text) ++ rest) := by
  simp [textMember]

theorem nextKey?_first (key : String) (rest : Bytes) :
    nextKey? true (bytesOf (stringChars key) ++ rest) = .ok (some (key, rest)) := by
  have hspace : skipSpace (bytesOf (stringChars key) ++ rest) = bytesOf (stringChars key) ++ rest := by
    rw [bytesOf_stringChars]
    rfl
  rw [nextKey?, hspace, bytesOf_stringChars]
  simp only [(by decide : (0x22 : UInt8) ≠ 0x7D), if_false, if_true, stringText_flatMap, Except.map]

theorem nextKey?_later (key : String) (rest : Bytes) :
    nextKey? false (0x2C :: (bytesOf (stringChars key) ++ rest)) = .ok (some (key, rest)) := by
  have hspace : skipSpace (bytesOf (stringChars key) ++ rest) = bytesOf (stringChars key) ++ rest := by
    rw [bytesOf_stringChars]
    rfl
  have hcomma : skipSpace (0x2C :: (bytesOf (stringChars key) ++ rest)) =
      0x2C :: (bytesOf (stringChars key) ++ rest) := rfl
  rw [nextKey?, hcomma]
  simp only [(by decide : (0x2C : UInt8) ≠ 0x7D), Bool.false_eq_true, if_false, if_true, hspace]
  rw [bytesOf_stringChars]
  simp only [if_true, stringText_flatMap, Except.map]

theorem storedMembers_member {first : Bool} {bytes : Bytes} {key : String} {field : StoredField ρ}
    (hkey : nextKey? first bytes = .ok (some (key, 0x3A :: rest)))
    (hfield : fields.find? (·.name = key) = some field) (hset : field.isSet record = false) :
    storedMembers fields (fuel + 1) first bytes record =
      (field.read rest record).bind fun (record', rest') => storedMembers fields fuel false rest' record' := by
  have hcolon : ∀ more, colon (0x3A :: more) = .ok more := fun _ => rfl
  simp only [storedMembers, hkey, hfield, hset, hcolon, bind, Except.bind, Bool.false_eq_true, if_false]

theorem storedMembers_end : storedMembers fields (fuel + 1) false (0x7D :: rest) record = .ok (record, rest) := by
  have hspace : skipSpace (0x7D :: rest) = 0x7D :: rest := rfl
  have hend : nextKey? false (0x7D :: rest) = .ok none := rfl
  simp only [storedMembers, hend, hspace, bind, Except.bind, pure, Except.pure, List.drop_succ_cons, List.drop_zero]

end Json

namespace CacheEntry
open Json Text
open String (utf8EncodeChar)

theorem render_toJson (e : CacheEntry) :
    utf8 e.toJson.render = 0x7B :: (textMember "validation_tag" e.tag ++ 0x2C :: (textMember "stored_body" e.body ++
      0x2C :: (textMember "last_refreshed" e.lastRefreshed.render ++ [0x7D]))) := by
  have hopen : utf8EncodeChar '\x7b' = [0x7B] := by decide
  have hclose : utf8EncodeChar '\x7d' = [0x7D] := by decide
  have hcomma : utf8EncodeChar ',' = [0x2C] := by decide
  have hcolon : utf8EncodeChar ':' = [0x3A] := by decide
  rw [render, utf8_ofList, toJson]
  simp [chars, memberChars, textMember, hopen, hclose, hcomma, hcolon]

/-- An entry is read from its own JSON with the time that its time is read as; without one nothing is read. -/
theorem toOption_read_toJson (e : CacheEntry) : (read (utf8 e.toJson.render)).toOption =
    (Instant.parsePersisted? e.lastRefreshed.render).map fun t => { e with lastRefreshed := t } := by
  have htag (rest : Bytes) (fuel : Nat) :
      storedMembers fields (fuel + 1) true (textMember "validation_tag" e.tag ++ rest) {} =
        storedMembers fields fuel false rest { tag := some e.tag } := by
    rw [textMember_append, storedMembers_member (nextKey?_first _ _) rfl rfl]
    simp [textValue_stringChars, Except.map, Except.bind]
  have hbody (rest : Bytes) (fuel : Nat) :
      storedMembers fields (fuel + 1) false (0x2C :: (textMember "stored_body" e.body ++ rest)) { tag := some e.tag } =
        storedMembers fields fuel false rest { tag := some e.tag, body := some e.body } := by
    rw [textMember_append, storedMembers_member (nextKey?_later _ _) rfl rfl]
    simp [textValue_stringChars, Except.map, Except.bind]
  have htime (rest : Bytes) (fuel : Nat) :
      storedMembers fields (fuel + 1) false (0x2C :: (textMember "last_refreshed" e.lastRefreshed.render ++ rest))
          { tag := some e.tag, body := some e.body } =
        (Instant.parsePersisted? e.lastRefreshed.render).elim (failAt .wrongShape rest)
          fun t => storedMembers fields fuel false rest ⟨some e.tag, some e.body, some t⟩ := by
    rw [textMember_append, storedMembers_member (nextKey?_later _ _) rfl rfl]
    cases hparsed : Instant.parsePersisted? e.lastRefreshed.render with
    | some t =>
      simp [instantValue, textValue_stringChars, hparsed, Except.map, bind, Except.bind, pure, Except.pure]
    | none => simp [instantValue, textValue_stringChars, hparsed, failAt, Except.map, bind, Except.bind]
  have hspace (rest : Bytes) : skipSpace (0x7B :: rest) = 0x7B :: rest := rfl
  rw [render_toJson]
  generalize hmembers : textMember "validation_tag" e.tag ++ 0x2C :: (textMember "stored_body" e.body ++
    0x2C :: (textMember "last_refreshed" e.lastRefreshed.render ++ [0x7D])) = members
  obtain ⟨fuel, hfuel⟩ : ∃ fuel, members.length + 1 = fuel + 4 := ⟨members.length - 3, by
    simp [← hmembers]
    omega⟩
  have hrecord : storedMembers fields (members.length + 1) true members {} =
      (Instant.parsePersisted? e.lastRefreshed.render).elim (failAt .wrongShape [0x7D])
        fun t => .ok (⟨some e.tag, some e.body, some t⟩, []) := by
    rw [hfuel, ← hmembers, htag, hbody, htime]
    simp only [storedMembers_end]
  simp only [read, readStored, hspace, if_true, hrecord, bind, Except.bind]
  cases Instant.parsePersisted? e.lastRefreshed.render <;> rfl

/-- An entry is read from its own JSON, if its time is one that a clock can show. -/
theorem read_toJson {e : CacheEntry} (h : e.lastRefreshed.IsProper) : read (utf8 e.toJson.render) = .ok e := by
  have hread := toOption_read_toJson e
  rw [Instant.parsePersisted?_render h, Option.map_some] at hread
  cases hresult : read (utf8 e.toJson.render) with
  | ok entry => rw [hresult] at hread; exact congrArg _ (Option.some.inj hread)
  | error fault => rw [hresult] at hread; cases hread

theorem read_toJson_iff {e : CacheEntry} : read (utf8 e.toJson.render) = .ok e ↔ e.lastRefreshed.IsProper := by
  refine ⟨fun hread => ?_, read_toJson⟩
  have hparsed := toOption_read_toJson e
  rw [hread] at hparsed
  obtain ⟨t, ht, hentry⟩ := Option.map_eq_some_iff.1 hparsed.symm
  obtain rfl : t = e.lastRefreshed := congrArg lastRefreshed hentry
  exact Instant.parsePersisted?_render_iff.1 ht

end CacheEntry

end Entitle
