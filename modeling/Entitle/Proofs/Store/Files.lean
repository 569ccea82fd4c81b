import Entitle.Proofs.Store
import Entitle.Proofs.Store.Entry

/-!
# A directory as a map

While no two keys share a digest, a store in a directory that holds their entries, and beside them nothing that is
named like an entry, is a map on those keys (`FileStore.isMapOn`): every file carries its key, so the listing tells
the keys that are there.
-/

namespace Entitle

namespace FileStore

/-! ### Names -/

theorem stem_ne_nil (key : String) : (stem key).toList.reverse ≠ [] := by
  have hlength : (Text.Blake3.digest (Text.utf8 key)).length = 32 := by
    simp [Text.Blake3.digest, Text.Blake3.wordBytes, List.length_flatMap, List.map_const']
  have hpos : 0 < (Text.Blake3.digest (Text.utf8 key)).length := by omega
  obtain ⟨b, bytes, hbytes⟩ := List.exists_cons_of_length_pos hpos
  simp [stem, Text.Blake3.hexDigest, Text.hex, hbytes]

theorem reverse_fileName (key : String) :
    (fileName key).toList.reverse = 'y' :: 'r' :: 't' :: 'n' :: 'e' :: '.' :: (stem key).toList.reverse := by
  simp [fileName, entryExtension]

theorem fileExtension?_fileName (key : String) : fileExtension? (fileName key) = some entryExtension := by
  have hname : fileName key ≠ ".." := by
    intro h
    have := reverse_fileName key
    simp [h] at this
  obtain ⟨c, cs, hstem⟩ := List.exists_cons_of_ne_nil (stem_ne_nil key)
  rw [fileExtension?, if_neg hname, reverse_fileName, hstem]
  rfl

theorem stagingName_ne (key : String) (number : Nat) (other : String) : stagingName key number ≠ fileName other := by
  intro h
  have := reverse_fileName other
  simp [← h, stagingName] at this

/-- The keys are short enough for an entry, and no two of them share a digest. -/
structure Apart (keys : List String) : Prop where
  short : ∀ k ∈ keys, (Text.utf8 k).length < Entry.keyLimit
  stem : ∀ a ∈ keys, ∀ b ∈ keys, stem a = stem b → a = b

theorem Apart.mono {keys keys' : List String} (h : Apart keys) (hsub : ∀ k ∈ keys', k ∈ keys) : Apart keys' where
  short k hk := h.short k (hsub k hk)
  stem a ha b hb := h.stem a (hsub a ha) b (hsub b hb)

theorem Apart.fileName_inj {keys : List String} (h : Apart keys) {a b : String} (ha : a ∈ keys) (hb : b ∈ keys) :
    fileName a = fileName b ↔ a = b := by
  refine ⟨fun hname => h.stem a ha b hb ?_, congrArg fileName⟩
  have hreverse := congrArg (List.reverse ∘ String.toList) hname
  simp only [Function.comp_apply, reverse_fileName, List.cons.injEq, true_and, List.reverse_inj] at hreverse
  exact String.toList_inj.1 hreverse

/-! ### Entries of some keys -/

/-- What the store passes over: a file that is not named like an entry, or a directory that is not named like an entry
or like a file that a write of the keys goes to first. -/
def IsStray (keys : List String) (name : String) (node : Node) : Prop :=
  fileExtension? name ≠ some entryExtension ∧
    (node = .directory → ∀ key ∈ keys, ∀ number, name ≠ stagingName key number)

/-- A directory holds entries of the keys, and else what the store passes over. -/
def Filed (keys : List String) (nodes : KeyMap Node) : Prop :=
  ∀ entry ∈ nodes, IsStray keys entry.1 entry.2 ∨
    ∃ key ∈ keys, ∃ value content, Entry.encode? key value = some content ∧ entry = (fileName key, .file content)

/-- The directory is there, and holds entries of the keys, and else what the store passes over. -/
def Holds (keys : List String) (store : FileStore) : Prop :=
  ∃ nodes, store.directory = some nodes ∧ nodes.Sorted ∧ Filed keys nodes

/-- The bytes under a key. -/
def stored (store : FileStore) (key : String) : Option Bytes :=
  (store.get key).toOption.join

variable {keys : List String} {store : FileStore} {nodes : KeyMap Node} {key : String}

theorem not_isStray_fileName (keys : List String) (key : String) (node : Node) : ¬ IsStray keys (fileName key) node :=
  fun h => h.1 (fileExtension?_fileName key)

theorem Filed.get?_stagingName (h : Filed keys nodes) (hkey : key ∈ keys) (number : Nat) :
    nodes.get? (stagingName key number) ≠ some .directory := by
  intro hnode
  rcases h _ (KeyMap.mem_of_get? hnode) with ⟨-, hstray⟩ | ⟨k, -, value, content, -, hentry⟩
  · exact hstray rfl key hkey number rfl
  · cases (Prod.mk.injEq .. ▸ hentry).2

theorem Filed.get?_fileName (h : Filed keys nodes) (happart : Apart keys) (hkey : key ∈ keys) {node : Node}
    (hnode : nodes.get? (fileName key) = some node) :
    ∃ value content, Entry.encode? key value = some content ∧ node = .file content := by
  rcases h _ (KeyMap.mem_of_get? hnode) with hstray | ⟨k, hk, value, content, hcontent, hentry⟩
  · exact absurd hstray (not_isStray_fileName keys key node)
  · rw [Prod.mk.injEq] at hentry
    obtain rfl := (happart.fileName_inj hkey hk).1 hentry.1
    exact ⟨value, content, hcontent, hentry.2⟩

theorem Filed.fileName_ne_directory (h : Filed keys nodes) (happart : Apart keys) (hkey : key ∈ keys) :
    nodes.get? (fileName key) ≠ some .directory := by
  intro hnode
  obtain ⟨value, content, -, hfile⟩ := h.get?_fileName happart hkey hnode
  cases hfile

theorem get_eq (happart : Apart keys) (hkey : key ∈ keys) (h : Holds keys store) :
    store.get key = .ok (store.stored key) := by
  obtain ⟨nodes, hdirectory, -, hnodes⟩ := h
  simp only [stored, get, hdirectory]
  cases hnode : nodes.get? (fileName key) with
  | none => rfl
  | some node =>
    obtain ⟨value, content, hcontent, rfl⟩ := hnodes.get?_fileName happart hkey hnode
    simp only [valueOf, Entry.decode?_encode? hcontent, if_true]
    rfl

theorem stored_eq (hdirectory : store.directory = some nodes) (key : String) :
    store.stored key = match nodes.get? (fileName key) with
      | some (.file content) => (valueOf key content).toOption.join
      | _ => none := by
  simp only [stored, get, hdirectory]
  cases nodes.get? (fileName key) with
  | none => rfl
  | some node => cases node <;> rfl

theorem stored_ne_none (happart : Apart keys) (hkey : key ∈ keys) (hdirectory : store.directory = some nodes)
    (hnodes : Filed keys nodes) : store.stored key ≠ none ↔ nodes.get? (fileName key) ≠ none := by
  rw [stored_eq hdirectory]
  cases hnode : nodes.get? (fileName key) with
  | none => simp
  | some node =>
    obtain ⟨value, content, hcontent, rfl⟩ := hnodes.get?_fileName happart hkey hnode
    simp [valueOf, Entry.decode?_encode? hcontent, Except.toOption]

/-- What a write needs: a short enough key, a directory to write in, and no directory where its two files go. -/
theorem write_eq_ok {value : Bytes} {number : Nat} {directory directory' : Directory} :
    write key value number directory = .ok directory' ↔ ∃ content nodes,
      Entry.encode? key value = some content ∧ directory = some nodes ∧
        nodes.get? (stagingName key number) ≠ some .directory ∧ nodes.get? (fileName key) ≠ some .directory ∧
          directory' = some ((nodes.erase (stagingName key number)).put (fileName key) (.file content)) := by
  constructor
  · intro h
    unfold write at h
    split at h
    · cases h
    · cases h
    · next content nodes hcontent =>
      split at h
      · cases h
      · next hstaging =>
        split at h
        · cases h
        · next hfile => exact ⟨content, nodes, hcontent, rfl, hstaging, hfile, (Except.ok.inj h).symm⟩
  · rintro ⟨content, nodes, hcontent, rfl, hstaging, hfile, rfl⟩
    simp only [write, hcontent]

theorem set_spec (happart : Apart keys) (hkey : key ∈ keys) (h : Holds keys store) (value : Bytes) :
    (set key value store).1 = .ok () ∧ Holds keys (set key value store).2 ∧
      ∀ k ∈ keys, (set key value store).2.stored k = if key = k then some value else store.stored k := by
  obtain ⟨nodes, hdirectory, hsorted, hnodes⟩ := h
  obtain ⟨content, hcontent⟩ := Option.isSome_iff_exists.1 ((Entry.isSome_encode? key value).2 (happart.short key hkey))
  have hset : set key value store = (.ok (),
      ⟨some ((nodes.erase (stagingName key store.writes)).put (fileName key) (.file content)), store.writes + 1⟩) := by
    have hwrite := write_eq_ok.2 ⟨content, nodes, hcontent, hdirectory, hnodes.get?_stagingName hkey store.writes,
      hnodes.fileName_ne_directory happart hkey, rfl⟩
    simp only [set, hwrite]
  rw [hset]
  -- the staging file is no entry, so but for the key's own file the directory is as it was
  refine ⟨rfl, ⟨_, rfl, (hsorted.erase _).put _ _, fun entry hentry => ?_⟩, fun k hk => ?_⟩
  · rcases KeyMap.mem_put hentry with rfl | hold
    · exact .inr ⟨key, hkey, value, content, hcontent, rfl⟩
    · exact hnodes _ (KeyMap.mem_erase hold)
  · rw [stored_eq rfl, stored_eq hdirectory, KeyMap.get?_put, KeyMap.get?_erase, if_neg (stagingName_ne _ _ _)]
    simp only [happart.fileName_inj hkey hk]
    by_cases hsame : key = k
    · subst hsame
      simp [valueOf, Entry.decode?_encode? hcontent, Except.toOption]
    · simp only [hsame, if_false]

theorem remove_spec (happart : Apart keys) (hkey : key ∈ keys) (h : Holds keys store) :
    (remove key store).1 = .ok () ∧ Holds keys (remove key store).2 ∧
      ∀ k ∈ keys, (remove key store).2.stored k = if key = k then none else store.stored k := by
  obtain ⟨nodes, hdirectory, hsorted, hnodes⟩ := h
  have hremove : remove key store = (.ok (), { store with directory := some (nodes.erase (fileName key)) }) := by
    have hfile := hnodes.fileName_ne_directory happart hkey
    simp only [remove, hdirectory]
  rw [hremove]
  refine ⟨rfl, ⟨_, rfl, hsorted.erase _, fun entry hentry => hnodes _ (KeyMap.mem_erase hentry)⟩, fun k hk => ?_⟩
  rw [stored_eq rfl, stored_eq hdirectory, KeyMap.get?_erase]
  simp only [happart.fileName_inj hkey hk]
  by_cases hsame : key = k
  · simp only [hsame, if_true]
  · simp only [hsame, if_false]

theorem listedKey_stray {name : String} {node : Node} (h : IsStray keys name node) (start : String) :
    listedKey start name node = .ok none :=
  if_neg h.1

theorem listedKey_entry {value content : Bytes} (h : Entry.encode? key value = some content) (start : String) :
    listedKey start (fileName key) (.file content) = .ok (if Text.startsWith key start then some key else none) := by
  simp only [listedKey, fileExtension?_fileName, if_true, Entry.decode?_encode? h]

theorem listedKeys_spec (hnodes : Filed keys nodes) (start : String) :
    ∃ listed, listedKeys start nodes = .ok listed ∧ (nodes.keys.Nodup → listed.Nodup) ∧
      ∀ k, k ∈ listed ↔ Text.startsWith k start ∧ ∃ value content,
        Entry.encode? k value = some content ∧ (fileName k, Node.file content) ∈ nodes := by
  induction nodes with
  | nil => exact ⟨[], rfl, fun _ => .nil, by simp⟩
  | cons entry rest ih =>
    obtain ⟨listed, hlisted, hnodup, hmem⟩ := ih fun entry hentry => hnodes entry (List.mem_cons_of_mem _ hentry)
    obtain ⟨name, node⟩ := entry
    rcases hnodes (name, node) List.mem_cons_self with hstray | ⟨key, hkey, value, content, hcontent, hentry⟩
    · refine ⟨listed, ?_, fun hnames => hnodup (List.nodup_cons.1 hnames).2, fun k => ?_⟩
      · simp only [listedKeys, listedKey_stray hstray, hlisted, bind, Except.bind, pure, Except.pure]
        rfl
      · rw [hmem]
        refine and_congr_right fun _ => exists_congr fun value => exists_congr fun content =>
          and_congr_right fun _ => ?_
        refine ⟨List.mem_cons_of_mem _, fun hentry => (List.mem_cons.1 hentry).resolve_left fun heq => ?_⟩
        obtain ⟨rfl, -⟩ := Prod.mk.inj heq
        exact not_isStray_fileName keys k node hstray
    · obtain ⟨rfl, rfl⟩ := Prod.mk.inj hentry
      refine ⟨(if Text.startsWith key start then some key else none).toList ++ listed, ?_,
        fun hnames => ?_, fun k => ?_⟩
      · simp only [listedKeys, listedKey_entry hcontent, hlisted, bind, Except.bind, pure, Except.pure]
      · -- the names behind the first one are others, and a listed key has its name there
        obtain ⟨hname, hnames⟩ := List.nodup_cons.1 hnames
        have hfresh : key ∉ listed := by
          intro hlater
          obtain ⟨-, value', content', -, hthere⟩ := (hmem key).1 hlater
          exact hname (List.mem_map.2 ⟨_, hthere, rfl⟩)
        split
        · exact List.nodup_cons.2 ⟨hfresh, hnodup hnames⟩
        · exact hnodup hnames
      · rw [List.mem_append, hmem, Option.mem_toList]
        constructor
        · rintro (hk | ⟨hstart, value', content', hcontent', hentry⟩)
          · split at hk
            · next hstart => cases hk; exact ⟨hstart, value, content, hcontent, List.mem_cons_self⟩
            · cases hk
          · exact ⟨hstart, value', content', hcontent', List.mem_cons_of_mem _ hentry⟩
        · rintro ⟨hstart, value', content', hcontent', hentry⟩
          rcases List.mem_cons.1 hentry with hentry | hentry
          · -- both contents are one, and a content tells its key
            rw [Prod.mk.injEq, Node.file.injEq] at hentry
            obtain ⟨rfl, -⟩ := Entry.eq_of_encode? hcontent (hentry.2 ▸ hcontent')
            exact .inl (if_pos hstart)
          · exact .inr ⟨hstart, value', content', hcontent', hentry⟩

theorem keysWithPrefix_spec (happart : Apart keys) (h : Holds keys store) (start : String) :
    ∃ listed, store.keysWithPrefix start = .ok listed ∧ listed.Nodup ∧ (∀ k ∈ listed, k ∈ keys) ∧
      ∀ k ∈ keys, k ∈ listed ↔ Text.startsWith k start ∧ store.stored k ≠ none := by
  obtain ⟨nodes, hdirectory, hsorted, hnodes⟩ := h
  obtain ⟨listed, hlisted, hnodup, hmem⟩ := listedKeys_spec hnodes start
  refine ⟨listed, by simp only [keysWithPrefix, hdirectory, hlisted], hnodup hsorted.nodup, fun k hk => ?_,
    fun k hk => ?_⟩
  · obtain ⟨-, value, content, hcontent, hentry⟩ := (hmem k).1 hk
    rcases hnodes _ hentry with hstray | ⟨key, hkey, value', content', hcontent', heq⟩
    · exact absurd hstray (not_isStray_fileName keys k _)
    · rw [Prod.mk.injEq, Node.file.injEq] at heq
      obtain ⟨rfl, -⟩ := Entry.eq_of_encode? hcontent (heq.2 ▸ hcontent')
      exact hkey
  · rw [hmem, stored_ne_none happart hk hdirectory hnodes]
    refine and_congr_right fun _ => ⟨?_, fun hne => ?_⟩
    · rintro ⟨value, content, -, hentry⟩
      exact KeyMap.get?_ne_none_of_mem hentry
    obtain ⟨node, hnode⟩ := Option.ne_none_iff_exists'.1 hne
    obtain ⟨value, content, hcontent, rfl⟩ := hnodes.get?_fileName happart hk hnode
    exact ⟨value, content, hcontent, KeyMap.mem_of_get? hnode⟩

/-- A store in a directory is a map on keys that are apart, while the directory holds no other entries. -/
theorem isMapOn (happart : Apart keys) : KeyValueStore.IsMapOn keys (Holds keys) stored where
  get hkey hvalid := ⟨get_eq happart hkey hvalid, hvalid, rfl⟩
  set value hkey hvalid := set_spec happart hkey hvalid value
  remove hkey hvalid := remove_spec happart hkey hvalid
  keysWithPrefix start hvalid := by
    obtain ⟨listed, hlisted, -, hkeys, hmem⟩ := keysWithPrefix_spec happart hvalid start
    exact ⟨hvalid, rfl, listed, hlisted, hkeys, hmem⟩

theorem holds_openAt_none (keys : List String) : Holds keys (openAt none) :=
  ⟨[], rfl, KeyMap.sorted_nil, fun _ h => nomatch h⟩

theorem holds_openAt (h : Holds keys store) : Holds keys (openAt store.directory) ∧
    (openAt store.directory).stored = store.stored := by
  obtain ⟨nodes, hdirectory, hsorted, hnodes⟩ := h
  have hopened : (openAt store.directory).directory = some nodes := by
    rw [hdirectory]
    rfl
  refine ⟨⟨nodes, hopened, hsorted, hnodes⟩, funext fun k => ?_⟩
  rw [stored_eq hdirectory, stored_eq hopened]

end FileStore

end Entitle
