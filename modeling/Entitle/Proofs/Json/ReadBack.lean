import Entitle.Json.Reader
import Entitle.Proofs.Json.Canonical

/-!
# Written values are read

`Json.Plain depth`: a value without numbers in which at most `depth` containers stand inside one another. Within the
limit of the reader, it is read from its own text, with the members of each object in key order (`Plain.read_render`).
-/

namespace Entitle.Json
open String (utf8EncodeChar)
open Text (bytesOf bytesOf_nil bytesOf_cons bytesOf_append)

/-- There is no number in the value, and at most `depth` containers stand inside one another. -/
inductive Plain : Nat → Json → Prop where
  | null {depth : Nat} : Plain depth .null
  | bool {depth : Nat} (b : Bool) : Plain depth (.bool b)
  | string {depth : Nat} (s : String) : Plain depth (.string s)
  | array {depth : Nat} {items : List Json} (h : ∀ item ∈ items, Plain depth item) : Plain (depth + 1) (.array items)
  | object {depth : Nat} {members : List (String × Json)} (h : ∀ member ∈ members, Plain depth member.2) :
    Plain (depth + 1) (.object members)

attribute [simp] Plain.null Plain.bool Plain.string

@[simp] theorem plain_array {depth : Nat} {items : List Json} :
    Plain (depth + 1) (.array items) ↔ ∀ item ∈ items, Plain depth item :=
  ⟨fun h => by cases h; assumption, .array⟩

@[simp] theorem plain_object {depth : Nat} {members : List (String × Json)} :
    Plain (depth + 1) (.object members) ↔ ∀ member ∈ members, Plain depth member.2 :=
  ⟨fun h => by cases h; assumption, .object⟩

/-! ### Bytes -/

theorem skipSpace_cons {b : UInt8} {rest : Bytes} (h : isSpace b = false) : skipSpace (b :: rest) = b :: rest :=
  List.dropWhile_cons_of_neg (by simp [h])

theorem bytesOf_close (rest : Bytes) : bytesOf [']'] ++ rest = 0x5D :: rest := by
  have h : utf8EncodeChar ']' = [0x5D] := by decide
  simp [h]

/-- The first byte of a value is no blank and does not end a list. -/
theorem Plain.exists_first {depth : Nat} {v : Json} (h : Plain depth v) :
    ∃ b bytes, bytesOf v.chars = b :: bytes ∧ isSpace b = false ∧ b ≠ 0x5D := by
  cases h with
  | null => exact ⟨0x6E, _, rfl, rfl, by decide⟩
  | bool b =>
    cases b with
    | true => exact ⟨0x74, _, rfl, rfl, by decide⟩
    | false => exact ⟨0x66, _, rfl, rfl, by decide⟩
  | string s => exact ⟨0x22, _, rfl, rfl, by decide⟩
  | array _ => exact ⟨0x5B, _, rfl, rfl, by decide⟩
  | object _ => exact ⟨0x7B, _, rfl, rfl, by decide⟩

theorem value_eq_valueWith (depth : Nat) : ∃ list object, value depth = valueWith list object := by
  cases depth with
  | zero => exact ⟨_, _, rfl⟩
  | succ depth => exact ⟨_, _, rfl⟩

/-! ### Lists -/

variable {item : Bytes → Except Fault (Json × Bytes)} {depth : Nat}

/-- The reader reads the value from its text, whatever is behind it. -/
def Reads (item : Bytes → Except Fault (Json × Bytes)) (v : Json) : Prop :=
  ∀ rest, item (bytesOf v.chars ++ rest) = .ok (v.canonical, rest)

theorem length_le_flatMap {α : Type} (f : α → List Char) (xs : List α) :
    xs.length ≤ (bytesOf (xs.flatMap fun x => ',' :: f x)).length := by
  induction xs with
  | nil => exact Nat.zero_le _
  | cons x xs ih =>
    have hcomma : utf8EncodeChar ',' = [0x2C] := by decide
    simp only [List.flatMap_cons, List.cons_append, bytesOf_cons, bytesOf_append, hcomma, List.nil_append,
      List.length_cons, List.length_append]
    omega

theorem bytesOf_joined_cons {α : Type} (f : α → List Char) (x : α) (xs : List α) (rest : Bytes) :
    bytesOf (joined f (x :: xs)) ++ rest = bytesOf (f x) ++ (bytesOf (xs.flatMap fun y => ',' :: f y) ++ rest) := by
  rw [joined, bytesOf_append, List.append_assoc]

theorem listItems_flatMap {v : Json} {items : List Json} (hplain : ∀ w ∈ items, Plain depth w)
    (hreads : ∀ w ∈ v :: items, Reads item w) {fuel : Nat} (hfuel : items.length < fuel) (rest : Bytes) :
    listItems item fuel (bytesOf v.chars ++ (bytesOf (items.flatMap fun w => ',' :: w.chars) ++ 0x5D :: rest)) =
      .ok ((v :: items).map canonical, rest) := by
  obtain ⟨fuel, rfl⟩ : ∃ k, fuel = k + 1 := ⟨fuel - 1, by omega⟩
  induction items generalizing v fuel with
  | nil =>
    have hspace : skipSpace (bytesOf [] ++ 0x5D :: rest) = 0x5D :: rest := rfl
    simp only [List.flatMap_nil, listItems, hreads v List.mem_cons_self _, hspace, bind, Except.bind, if_true]
    rfl
  | cons w items ih =>
    have hcomma : utf8EncodeChar ',' = [0x2C] := by decide
    obtain ⟨b, bytes, hfirst, hspace, hopen⟩ := (hplain w List.mem_cons_self).exists_first
    simp only [List.length_cons] at hfuel
    obtain ⟨fuel, rfl⟩ : ∃ k, fuel = k + 1 := ⟨fuel - 1, by omega⟩
    have hlater := @ih w (fun u hu => hplain u (List.mem_cons_of_mem _ hu))
      (fun u hu => hreads u (List.mem_cons_of_mem _ hu)) fuel (by omega)
    have hnext : ∀ r, skipSpace (0x2C :: r) = 0x2C :: r := fun _ => rfl
    have hbracket : (0x2C : UInt8) ≠ 0x5D := by decide
    rw [listItems, hreads v List.mem_cons_self]
    simp only [List.flatMap_cons, List.cons_append, bytesOf_cons, bytesOf_append, hcomma, List.append_assoc,
      List.nil_append, bind, Except.bind, hnext, if_neg hbracket, if_true, hfirst, skipSpace_cons hspace, if_neg hopen]
    rw [hfirst, List.cons_append] at hlater
    rw [hlater]
    rfl

/-! ### Objects -/

theorem memberWith_text {key : String} {v : Json} (hreads : Reads item v) (rest : Bytes) :
    memberWith item (bytesOf (key.toList.flatMap escapeChar) ++ 0x22 :: 0x3A :: (bytesOf v.chars ++ rest)) =
      .ok ((key, v.canonical), rest) := by
  have hcolon : ∀ r, skipSpace (0x3A :: r) = 0x3A :: r := fun _ => rfl
  simp only [memberWith, stringText_flatMap, bind, Except.bind, hcolon, if_true, hreads rest]
  rfl

theorem bytesOf_memberText (key : String) (v : Json) (rest : Bytes) :
    bytesOf (memberText (key, v)) ++ rest =
      0x22 :: (bytesOf (key.toList.flatMap escapeChar) ++ 0x22 :: 0x3A :: (bytesOf v.chars ++ rest)) := by
  have hcolon : utf8EncodeChar ':' = [0x3A] := by decide
  rw [memberText, bytesOf_append, List.append_assoc, bytesOf_stringChars, bytesOf_cons, hcolon]
  rfl

theorem objectMembers_flatMap {key : String} {v : Json} {members : List (String × Json)} (hv : Reads item v)
    (hreads : ∀ m ∈ members, Reads item m.2) {fuel : Nat} (hfuel : members.length < fuel) (rest : Bytes) :
    objectMembers item fuel (bytesOf (key.toList.flatMap escapeChar) ++ 0x22 :: 0x3A :: (bytesOf v.chars ++
      (bytesOf (members.flatMap fun m => ',' :: memberText m) ++ 0x7D :: rest))) =
        .ok (((key, v) :: members).map fun m => (m.1, canonical m.2), rest) := by
  obtain ⟨fuel, rfl⟩ : ∃ k, fuel = k + 1 := ⟨fuel - 1, by omega⟩
  induction members generalizing key v fuel with
  | nil =>
    have hspace : skipSpace (bytesOf [] ++ 0x7D :: rest) = 0x7D :: rest := rfl
    simp only [List.flatMap_nil, objectMembers, memberWith_text hv, hspace, bind, Except.bind, if_true]
    rfl
  | cons m members ih =>
    obtain ⟨k, w⟩ := m
    have hcomma : utf8EncodeChar ',' = [0x2C] := by decide
    simp only [List.length_cons] at hfuel
    obtain ⟨fuel, rfl⟩ : ∃ k, fuel = k + 1 := ⟨fuel - 1, by omega⟩
    have hlater := @ih k w (hreads (k, w) List.mem_cons_self) (fun u hu => hreads u (List.mem_cons_of_mem _ hu)) fuel
      (by omega)
    have hnext : ∀ r, skipSpace (0x2C :: r) = 0x2C :: r := fun _ => rfl
    have hquote : ∀ r, skipSpace (0x22 :: r) = 0x22 :: r := fun _ => rfl
    have hbrace : (0x2C : UInt8) ≠ 0x7D := by decide
    rw [objectMembers, memberWith_text hv]
    simp only [List.flatMap_cons, List.cons_append, bytesOf_cons, bytesOf_append, hcomma, List.append_assoc,
      List.nil_append, bytesOf_memberText, bind, Except.bind, hnext, if_neg hbrace, if_true, hquote]
    rw [hlater]
    rfl

/-! ### Values -/

theorem Plain.reads {v : Json} (h : Plain depth v) : Reads (value depth) v := by
  induction h with
  | @null depth =>
    obtain ⟨list, object, hvalue⟩ := value_eq_valueWith depth
    intro rest
    rw [hvalue]
    rfl
  | @bool depth b =>
    obtain ⟨list, object, hvalue⟩ := value_eq_valueWith depth
    intro rest
    rw [hvalue]
    cases b <;> rfl
  | @string depth s =>
    obtain ⟨list, object, hvalue⟩ := value_eq_valueWith depth
    intro rest
    have hquote : ∀ r, valueWith list object (0x22 :: r) = (stringText r).map fun p => (.string p.1, p.2) :=
      fun _ => rfl
    rw [hvalue, chars, bytesOf_stringChars, hquote, stringText_flatMap]
    rfl
  | @array depth items hplain ih =>
    intro rest
    have hlist : ∀ r, value (depth + 1) (0x5B :: r) = listWith (value depth) (0x5B :: r) := fun _ => rfl
    have hopen : utf8EncodeChar '[' = [0x5B] := by decide
    have hbytes : bytesOf (Json.array items).chars ++ rest =
        0x5B :: (bytesOf (joined chars items) ++ 0x5D :: rest) := by
      rw [chars, itemChars_eq_joined, bytesOf_cons, hopen, bytesOf_append, List.append_assoc, List.append_assoc,
        bytesOf_close]
      rfl
    rw [hbytes, hlist, canonical_array]
    cases items with
    | nil => rfl
    | cons v items =>
      obtain ⟨b, bytes, hfirst, hspace, hclose⟩ := (hplain v List.mem_cons_self).exists_first
      have hlength := length_le_flatMap chars items
      have hfuel : items.length <
          (bytes ++ (bytesOf (items.flatMap fun w => ',' :: w.chars) ++ 0x5D :: rest)).length + 1 := by
        simp only [List.length_append]
        omega
      have hitems := listItems_flatMap (fun w hw => hplain w (List.mem_cons_of_mem _ hw)) ih hfuel rest
      rw [hfirst, List.cons_append] at hitems
      simp only [bytesOf_joined_cons, hfirst, List.cons_append, listWith, List.drop_one, List.tail_cons,
        skipSpace_cons hspace, if_neg hclose, hitems]
      rfl
  | @object depth members hplain ih =>
    intro rest
    have hobject : ∀ r, value (depth + 1) (0x7B :: r) = objectWith (value depth) (0x7B :: r) := fun _ => rfl
    have hopen : utf8EncodeChar '\x7b' = [0x7B] := by decide
    have hclose : utf8EncodeChar '\x7d' = [0x7D] := by decide
    have hbytes : bytesOf (Json.object members).chars ++ rest =
        0x7B :: (bytesOf (joined memberText members) ++ 0x7D :: rest) := by
      rw [chars, memberChars_eq_joined, bytesOf_cons, hopen, bytesOf_append, bytesOf_cons, hclose, bytesOf_nil,
        List.append_assoc, List.append_assoc]
      rfl
    rw [hbytes, hobject, canonical_object]
    cases members with
    | nil => rfl
    | cons m members =>
      obtain ⟨key, v⟩ := m
      have hlength := length_le_flatMap memberText members
      have hquote : ∀ r, skipSpace (0x22 :: r) = 0x22 :: r := fun _ => rfl
      have hbrace : (0x22 : UInt8) ≠ 0x7D := by decide
      simp only [bytesOf_joined_cons, bytesOf_memberText, objectWith, List.drop_one, List.tail_cons, hquote,
        if_neg hbrace,
        if_true]
      rw [objectMembers_flatMap (ih _ List.mem_cons_self) (fun m hm => ih m (List.mem_cons_of_mem _ hm))]
      · rfl
      · simp only [List.length_cons, List.length_append]
        omega

/-- A value is read from its own text. -/
theorem Plain.read_render {v : Json} (h : Plain depthLimit v) : read (Text.utf8 v.render) = .ok v.canonical := by
  have hvalue := h.reads []
  rw [List.append_nil] at hvalue
  rw [read, render, Text.utf8_ofList, hvalue]
  rfl

end Entitle.Json
