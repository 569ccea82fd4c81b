import Entitle.Store.Files

/-!
# The bytes of an entry

An entry is read from its own bytes and from no others (`Entry.decode?_eq_some_iff`). The length in front decides where
the key ends: one that points past the last byte, or into a character of the key, leaves nothing to read, and so does
an entry that is cut off before its value begins (`Entry.decode?_take`). The store calls such a file corrupt, whatever
key it is asked for, and lists no key for it (`FileStore.isCorrupt_iff`).
-/

namespace Entitle

namespace Entry
open Text (utf8 ofUtf8?_eq_some_iff ofUtf8?_utf8)

variable {key key' : String} {value value' bytes rest content : Bytes} {n : Nat}

/-! ### The length -/

/-- The number that four bytes stand for. -/
def lengthOf (a b c d : UInt8) : Nat :=
  ((a.toNat * 256 + b.toNat) * 256 + c.toNat) * 256 + d.toNat

theorem lengthOf_lt (a b c d : UInt8) : lengthOf a b c d < keyLimit := by
  have ha := a.toNat_lt
  have hb := b.toNat_lt
  have hc := c.toNat_lt
  have hd := d.toNat_lt
  unfold lengthOf keyLimit
  omega

theorem lengthBytes_lengthOf (a b c d : UInt8) : lengthBytes (lengthOf a b c d) = [a, b, c, d] := by
  have ha := a.toNat_lt
  have hb := b.toNat_lt
  have hc := c.toNat_lt
  have hd := d.toNat_lt
  simp only [lengthBytes, lengthOf, List.cons.injEq, and_true, ← UInt8.toNat_inj, Nat.toUInt8_eq, UInt8.toNat_ofNat']
  omega

theorem exists_lengthBytes (h : n < keyLimit) : ∃ a b c d, lengthBytes n = [a, b, c, d] ∧ lengthOf a b c d = n := by
  refine ⟨_, _, _, _, rfl, ?_⟩
  simp only [lengthOf, Nat.toUInt8_eq, UInt8.toNat_ofNat']
  unfold keyLimit at h
  omega

theorem length_lengthBytes (n : Nat) : (lengthBytes n).length = 4 := rfl

/-! ### Reading behind a length -/

theorem decode?_lengthBytes_append (h : n < keyLimit) (rest : Bytes) : decode? (lengthBytes n ++ rest) =
    if rest.length < n then none else (Text.ofUtf8? (rest.take n)).map fun key => (key, rest.drop n) := by
  obtain ⟨a, b, c, d, hbytes, rfl⟩ := exists_lengthBytes h
  rw [hbytes]
  rfl

/-- The key has the length in front, and it and the value are all that follows. -/
theorem decode?_lengthBytes_append_eq_some (h : n < keyLimit) :
    decode? (lengthBytes n ++ rest) = some (key, value) ↔ (utf8 key).length = n ∧ rest = utf8 key ++ value := by
  rw [decode?_lengthBytes_append h]
  constructor
  · intro hread
    split at hread
    · cases hread
    · next hlong =>
      obtain ⟨k, hkey, heq⟩ := Option.map_eq_some_iff.1 hread
      obtain ⟨rfl, rfl⟩ := Prod.mk.inj heq
      have hkey : rest.take n = utf8 k := ofUtf8?_eq_some_iff.1 hkey
      refine ⟨?_, ?_⟩
      · rw [← hkey, List.length_take]
        omega
      · rw [← hkey, List.take_append_drop]
  · rintro ⟨rfl, rfl⟩
    have hlong : ¬ (utf8 key ++ value).length < (utf8 key).length := by
      rw [List.length_append]
      omega
    rw [if_neg hlong, List.take_left, List.drop_left, ofUtf8?_utf8, Option.map_some]

theorem decode?_of_length_lt (h : bytes.length < 4) : decode? bytes = none := by
  unfold decode?
  split
  · simp only [List.length_cons] at h
    omega
  · rfl

theorem exists_lengthBytes_append (h : 4 ≤ bytes.length) : ∃ n < keyLimit, ∃ rest, bytes = lengthBytes n ++ rest := by
  match bytes, h with
  | a :: b :: c :: d :: rest, _ =>
    exact ⟨lengthOf a b c d, lengthOf_lt a b c d, rest, by rw [lengthBytes_lengthOf]; rfl⟩

/-! ### Reading and writing -/

theorem encode?_eq_some_iff : encode? key value = some bytes ↔
    (utf8 key).length < keyLimit ∧ bytes = lengthBytes (utf8 key).length ++ (utf8 key ++ value) := by
  simp only [encode?]
  constructor
  · intro h
    split at h
    · next hshort => exact ⟨hshort, (Option.some.inj h).symm⟩
    · cases h
  · rintro ⟨hshort, rfl⟩
    exact if_pos hshort

theorem isSome_encode? (key : String) (value : Bytes) : (encode? key value).isSome ↔ (utf8 key).length < keyLimit := by
  rw [Option.isSome_iff_exists]
  constructor
  · rintro ⟨written, hwritten⟩
    exact (encode?_eq_some_iff.1 hwritten).1
  · intro hshort
    exact ⟨_, encode?_eq_some_iff.2 ⟨hshort, rfl⟩⟩

theorem decode?_encode? (h : encode? key value = some content) : decode? content = some (key, value) := by
  obtain ⟨hshort, rfl⟩ := encode?_eq_some_iff.1 h
  exact (decode?_lengthBytes_append_eq_some hshort).2 ⟨rfl, rfl⟩

theorem encode?_of_decode? (h : decode? content = some (key, value)) : encode? key value = some content := by
  by_cases hlong : 4 ≤ content.length
  · obtain ⟨n, hn, rest, rfl⟩ := exists_lengthBytes_append hlong
    obtain ⟨rfl, rfl⟩ := (decode?_lengthBytes_append_eq_some hn).1 h
    exact encode?_eq_some_iff.2 ⟨hn, rfl⟩
  · rw [decode?_of_length_lt (Nat.lt_of_not_le hlong)] at h
    cases h

/-- Reading accepts exactly what writing produces. -/
theorem decode?_eq_some_iff : decode? content = some (key, value) ↔ encode? key value = some content :=
  ⟨encode?_of_decode?, decode?_encode?⟩

theorem eq_of_encode? (h : encode? key value = some content) (h' : encode? key' value' = some content) :
    key = key' ∧ value = value' := by
  have hread := decode?_encode? h
  rw [decode?_encode? h', Option.some.injEq, Prod.mk.injEq] at hread
  exact ⟨hread.1.symm, hread.2.symm⟩

theorem decode?_eq_none_iff : decode? content = none ↔ ∀ key value, encode? key value ≠ some content := by
  rw [Option.eq_none_iff_forall_ne_some]
  refine ⟨fun h key value hwritten => h (key, value) (decode?_encode? hwritten), fun h entry hread => ?_⟩
  exact h entry.1 entry.2 (encode?_of_decode? hread)

/-- Of an entry whose end is missing nothing is read before the key is whole; behind the key the value is cut, and
nothing tells. -/
theorem decode?_take (h : encode? key value = some content) (m : Nat) : decode? (content.take m) =
    if m < 4 + (utf8 key).length then none else some (key, value.take (m - (4 + (utf8 key).length))) := by
  obtain ⟨hshort, rfl⟩ := encode?_eq_some_iff.1 h
  by_cases hlength : m < 4
  · rw [if_pos (by omega)]
    refine decode?_of_length_lt ?_
    rw [List.length_take]
    omega
  · have hcut : (lengthBytes (utf8 key).length ++ (utf8 key ++ value)).take m =
        lengthBytes (utf8 key).length ++ (utf8 key ++ value).take (m - 4) := by
      rw [List.take_append, length_lengthBytes, List.take_of_length_le (by rw [length_lengthBytes]; omega)]
    rw [hcut]
    split
    · next hkey =>
      have hpast : ((utf8 key ++ value).take (m - 4)).length < (utf8 key).length := by
        rw [List.length_take]
        omega
      rw [decode?_lengthBytes_append hshort, if_pos hpast]
    · next hkey =>
      refine (decode?_lengthBytes_append_eq_some hshort).2 ⟨rfl, ?_⟩
      rw [List.take_append, List.take_of_length_le (by omega), Nat.sub_sub]

end Entry

namespace FileStore

variable {content : Bytes}

/-- The store calls a file of this content corrupt, whatever key it stands for, and lists no key for it. -/
structure IsCorrupt (content : Bytes) : Prop where
  get : ∀ (store : FileStore) (nodes : KeyMap Node) (key : String), store.directory = some nodes →
    nodes.get? (fileName key) = some (.file content) → store.get key = .error (.io key .corruptEntry)
  listedKeys : ∀ (start name : String) (before after : KeyMap Node),
    listedKeys start (before ++ (name, .file content) :: after) = listedKeys start (before ++ after)

theorem listedKeys_of_listedKey {start name : String} {node : Node} (h : listedKey start name node = .ok none)
    (before after : KeyMap Node) :
    listedKeys start (before ++ (name, node) :: after) = listedKeys start (before ++ after) := by
  induction before with
  | nil =>
    simp only [List.nil_append, listedKeys, h]
    cases listedKeys start after <;> rfl
  | cons entry before ih =>
    obtain ⟨name', node'⟩ := entry
    simp only [List.cons_append, listedKeys, ih]

/-- A file is corrupt exactly if it is no entry. -/
theorem isCorrupt_iff : IsCorrupt content ↔ Entry.decode? content = none := by
  constructor
  · intro h
    refine Option.eq_none_iff_forall_ne_some.2 fun ⟨key, value⟩ hread => ?_
    -- alone in a directory, an entry is found under its own key
    have hfile : KeyMap.get? [(fileName key, Node.file content)] (fileName key) = some (.file content) := if_pos rfl
    have hget := h.get ⟨some [(fileName key, .file content)], 0⟩ _ key rfl hfile
    simp only [get, hfile, valueOf, hread] at hget
    cases hget
  · intro h
    refine ⟨fun store nodes key hdirectory hfile => ?_, fun start name before after => ?_⟩
    · simp only [get, hdirectory, hfile, valueOf, h]
    · refine listedKeys_of_listedKey ?_ before after
      unfold listedKey
      split
      · simp only [h]
      · rfl

/-- Entries are read exactly from what is written of them: bytes are read as an entry if and only if they are what is
written of it, so they are one entry at most; every key that is short enough has an entry; and all other bytes are
corrupt, in particular those whose length points past their end, and those of an entry that is cut off inside its length
or its key. -/
theorem entry_codec_exact (bytes : Bytes) :
    (∀ key value, Entry.decode? bytes = some (key, value) ↔ Entry.encode? key value = some bytes) ∧
    (∀ key value, (Entry.encode? key value).isSome ↔ (Text.utf8 key).length < Entry.keyLimit) ∧
    (∀ key value key' value', Entry.encode? key value = some bytes → Entry.encode? key' value' = some bytes →
      key = key' ∧ value = value') ∧
    (IsCorrupt bytes ↔ ∀ key value, Entry.encode? key value ≠ some bytes) ∧
    (∀ n < Entry.keyLimit, ∀ rest, bytes = Entry.lengthBytes n ++ rest →
      (rest.length < n → IsCorrupt bytes) ∧ ∀ key value, Entry.decode? bytes = some (key, value) →
        (Text.utf8 key).length = n ∧ rest = Text.utf8 key ++ value) ∧
    ∀ key value, Entry.encode? key value = some bytes →
      ∀ m < 4 + (Text.utf8 key).length, IsCorrupt (bytes.take m) := by
  refine ⟨fun key value => Entry.decode?_eq_some_iff, Entry.isSome_encode?,
    fun key value key' value' => Entry.eq_of_encode?, isCorrupt_iff.trans Entry.decode?_eq_none_iff, ?_,
    fun key value hwritten m hm => ?_⟩
  · rintro n hn rest rfl
    refine ⟨fun hpast => isCorrupt_iff.2 ?_, fun key value => (Entry.decode?_lengthBytes_append_eq_some hn).1⟩
    rw [Entry.decode?_lengthBytes_append hn, if_pos hpast]
  · rw [isCorrupt_iff, Entry.decode?_take hwritten, if_pos hm]

/-- Such as an entry that is cut inside a character of its key, and a length that points four gigabytes past the end. -/
theorem entry_codec_exact_cut : Entry.encode? "é" [1] = some [0, 0, 0, 2, 0xC3, 0xA9, 1] ∧
    IsCorrupt [0, 0, 0, 2, 0xC3] ∧ IsCorrupt [0xFF, 0xFF, 0xFF, 0xFF, 0x6B] := by
  have hwritten : Entry.encode? "é" [1] = some [0, 0, 0, 2, 0xC3, 0xA9, 1] := by decide
  obtain ⟨-, -, -, -, -, hcut⟩ := entry_codec_exact [0, 0, 0, 2, 0xC3, 0xA9, 1]
  obtain ⟨-, -, -, -, hlength, -⟩ := entry_codec_exact [0xFF, 0xFF, 0xFF, 0xFF, 0x6B]
  obtain ⟨hpast, -⟩ := hlength 4294967295 (by decide) [0x6B] (by decide)
  exact ⟨hwritten, hcut "é" [1] hwritten 5 (by decide), hpast (by decide)⟩

end FileStore

end Entitle
