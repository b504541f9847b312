import Slfs.DataFunction.CacheTable

/-
  Building a cache from the tables of another one.

  Files with blocks are read back, and so are the entries of
  the list. A file without blocks makes the reader ask for a
  block that the file does not have, and the reads name no
  file: the key that the storage looks for is left zero.

  Main declarations:
    * `Cache.OnlyZeroKey`
    * `Cache.hands_over_iff`
-/

----------
-- Reading A Record
----------

namespace Slfs

open Transition

namespace Cache

theorem readBlock_append
    (bid size : UInt32)
    (rest : Bytes) :
    readBlock (hostOrder.encode bid ++ hostOrder.encode size ++ rest) =
      some ((bid, size), rest) := by
  simp [readBlock, List.append_assoc]

/- Blocks with a mark before each of them. -/
def marked : UInt8 → List (Nat × Bytes) → Bytes
| _, [] => []
| mark, block :: blocks =>
    mark :: (blockField block ++ marked Mark.comma blocks)

variable {blocks : List (Nat × Bytes)} {n : Nat}
variable {stream rest : Bytes} {b b' : Building}
variable {order : Listing} {uuid : Uuid} {c : Cache}
variable {cachesize : UInt32}

theorem cons_blockFields
    (h : blocks ≠ [])
    (mark : UInt8) :
    mark :: blockFields blocks = marked mark blocks := by
  induction blocks generalizing mark with
  | nil => exact absurd rfl h
  | cons block blocks ih =>
      cases blocks with
      | nil => simp [blockFields, marked]
      | cons next blocks =>
          rw [blockFields, ih (by simp) Mark.comma]
          rfl

/- The read for a block of a file. -/
def fetchBlock
    (fileKey : Uuid)
    (block : Nat × Bytes) : Fetch :=
  fetch fileKey (UInt32.ofNat block.1)
    (UInt32.ofNat block.2.length)

theorem parseBlocks_marked
    (held : Option Uuid)
    (fileKey : Uuid)
    (rest : Bytes)
    {mark : UInt8}
    (hSpace : mark ≠ Mark.space)
    (hDot : mark ≠ Mark.dot)
    (hn : blocks.length < n)
    (b : Building) :
    parseBlocks held fileKey n
        (marked mark blocks ++ Mark.space :: rest) b =
      some (Mark.space :: rest,
        { b with
          requests :=
            b.requests ++ blocks.map (fetchBlock fileKey) }) := by
  induction blocks generalizing mark n b with
  | nil =>
      rcases Nat.exists_eq_succ_of_ne_zero
          (by omega : n ≠ 0) with ⟨m, hm⟩
      subst hm
      simp [marked, parseBlocks]
  | cons block blocks ih =>
      rw [List.length_cons] at hn
      rcases Nat.exists_eq_succ_of_ne_zero
          (by omega : n ≠ 0) with ⟨m, hm⟩
      subst hm
      have hRead :
          readBlock (blockField block ++
              (marked Mark.comma blocks ++ Mark.space :: rest)) =
            some ((UInt32.ofNat block.1,
              UInt32.ofNat block.2.length),
              marked Mark.comma blocks ++ Mark.space :: rest) :=
        readBlock_append _ _ _
      rw [marked, List.cons_append, List.append_assoc,
        Nat.succ_eq_add_one, parseBlocks, if_neg hSpace,
        if_neg hDot, hRead]
      simp only [Option.bind_eq_bind, Option.bind_some]
      rw [ih (by decide) (by decide) (by omega)]
      simp [fetchBlock]

/- A cache in which a file has been entered. -/
def Building.enter (b : Building) (fileKey : Uuid) : Building :=
  { b with
    cache :=
      { b.cache with
        cachingMap := emplace fileKey ∅ b.cache.cachingMap } }

/- The key that stays locked while its record is read. -/
def Building.held (b : Building) (fileKey : Uuid) :
    Option Uuid :=
  (b.cache.cachingMap.lookup fileKey).map (fun _ => fileKey)

theorem buildFrom_key
    (n : Nat)
    (fileKey : Uuid)
    (rest : Bytes)
    (b : Building) :
    buildFrom (n + 1) (fileKey.toList ++ rest) b =
      (parseBlocks (b.held fileKey) fileKey rest.length rest
        (b.enter fileKey)).bind
        (fun r => buildFrom n (r.1.drop 1) r.2) := by
  have hSome : fileKey.toList ++ rest ≠ [] := by
    intro hNil
    have hLength := congrArg List.length hNil
    simp at hLength
  have hRead :
      (Wire.Codec.array 32).read (fileKey.toList ++ rest) =
        some (fileKey, rest) :=
    Wire.Codec.read_append (Wire.Codec.array 32) fileKey rest
  rcases List.exists_cons_of_ne_nil hSome with
    ⟨byte, bytes, hEq⟩
  rw [hEq] at hRead
  rw [hEq, buildFrom, hRead]
  rfl

/- What reading the record of a file does. -/
def Building.addFile
    (b : Building)
    (file : Uuid × List (Nat × Bytes)) : Building :=
  { b.enter file.1 with
    requests := b.requests ++ file.2.map (fetchBlock file.1) }

theorem length_marked
    (mark : UInt8)
    (blocks : List (Nat × Bytes)) :
    blocks.length ≤ (marked mark blocks).length := by
  induction blocks generalizing mark with
  | nil => simp
  | cons block blocks ih =>
      have hRest := ih Mark.comma
      simp only [marked, List.length_cons, List.length_append]
      omega

theorem buildFrom_file
    {file : Uuid × List (Nat × Bytes)}
    (h : file.2 ≠ [])
    (n : Nat)
    (rest : Bytes)
    (b : Building) :
    buildFrom (n + 1) (fileRecord file ++ rest) b =
      buildFrom n rest (b.addFile file) := by
  have hRecord :
      fileRecord file ++ rest =
        file.1.toList ++
          (marked Mark.colon file.2 ++ Mark.space :: rest) := by
    rw [fileRecord, ← cons_blockFields h]
    simp
  have hFuel :
      file.2.length <
        (marked Mark.colon file.2 ++
          Mark.space :: rest).length := by
    have hLength := length_marked Mark.colon file.2
    rw [List.length_append, List.length_cons]
    omega
  rw [hRecord, buildFrom_key,
    parseBlocks_marked _ _ _ (by decide) (by decide) hFuel]
  rfl

variable {entry : (Uuid × Nat) × Nat}

theorem buildFrom_entry
    (n : Nat)
    (hId : entry.1.2 < 2 ^ 32)
    (hSize : entry.2 < 2 ^ 32)
    (rest : Bytes)
    (b : Building) :
    buildFrom (n + 1) (entryRecord entry ++ rest) b =
      (((b.enter entry.1.1).cache.set (b.held entry.1.1)
        entry.1 entry.2).bind
        (fun c => buildFrom n rest
          { cache := c, requests := b.requests })) := by
  have hRecord :
      entryRecord entry ++ rest =
        entry.1.1.toList ++
          Mark.dot :: (hostOrder.encode (UInt32.ofNat entry.1.2) ++
            hostOrder.encode (UInt32.ofNat entry.2) ++
              Mark.space :: rest) := by
    simp [entryRecord, number]
  rw [hRecord, buildFrom_key, List.length_cons, parseBlocks,
    if_neg (by decide), if_pos rfl, readBlock_append]
  have hBid :
      (UInt32.ofNat entry.1.2).toNat = entry.1.2 :=
    UInt32.toNat_ofNat_of_lt' hId
  have hBytes : (UInt32.ofNat entry.2).toNat = entry.2 :=
    UInt32.toNat_ofNat_of_lt' hSize
  simp only [Option.bind_eq_bind, Option.bind_some, hBid,
    hBytes, Option.bind_assoc]
  rfl

----------
-- Files
----------

/- The records of files that all have blocks. -/
theorem buildFrom_files
    {files : Listing}
    (h : ∀ file ∈ files, file.2 ≠ [])
    (n : Nat)
    (rest : Bytes)
    (b : Building) :
    buildFrom (n + files.length)
        (files.flatMap fileRecord ++ rest) b =
      buildFrom n rest (files.foldl Building.addFile b) := by
  induction files generalizing b with
  | nil => rfl
  | cons file files ih =>
      rw [List.forall_mem_cons] at h
      rw [List.flatMap_cons, List.append_assoc,
        List.length_cons, ← Nat.add_assoc,
        buildFrom_file h.1, ih h.2, List.foldl_cons]

@[simp] theorem lruCache_foldl_addFile
    (files : Listing)
    (b : Building) :
    (files.foldl Building.addFile b).cache.lruCache =
      b.cache.lruCache := by
  induction files generalizing b with
  | nil => rfl
  | cons file files ih =>
      rw [List.foldl_cons, ih]
      rfl

theorem requests_foldl_addFile
    (files : Listing)
    (b : Building) :
    (files.foldl Building.addFile b).requests =
      b.requests ++
        files.flatMap (fun file =>
          file.2.map (fetchBlock file.1)) := by
  induction files generalizing b with
  | nil => simp
  | cons file files ih =>
      rw [List.foldl_cons, ih, List.flatMap_cons]
      simp [Building.addFile]

variable {fileKey : Uuid}

/- Reads that have been made stay. -/
theorem mem_requests_of_parseBlocks
    {held : Option Uuid}
    (h :
      parseBlocks held fileKey n stream b = some (rest, b'))
    {f : Fetch}
    (hf : f ∈ b.requests) :
    f ∈ b'.requests := by
  induction n generalizing stream b with
  | zero => simp [parseBlocks] at h
  | succ n ih =>
      cases stream with
      | nil => simp [parseBlocks] at h
      | cons mark stream =>
          rw [parseBlocks] at h
          split at h
          · cases h
            exact hf
          · split at h
            · rcases Option.bind_eq_some_iff.mp h with
                ⟨⟨⟨bid, size⟩, left⟩, _, hSet⟩
              rcases Option.bind_eq_some_iff.mp hSet with
                ⟨c, _, hEq⟩
              cases hEq
              exact hf
            · rcases Option.bind_eq_some_iff.mp h with
                ⟨⟨⟨bid, size⟩, left⟩, _, hNext⟩
              exact ih hNext (List.mem_append_left _ hf)

theorem mem_requests_of_buildFrom
    (h : buildFrom n stream b = some b')
    {f : Fetch}
    (hf : f ∈ b.requests) :
    f ∈ b'.requests := by
  induction n generalizing stream b with
  | zero =>
      cases stream with
      | nil =>
          cases h
          exact hf
      | cons byte bytes => cases h
  | succ n ih =>
      cases stream with
      | nil =>
          cases h
          exact hf
      | cons byte bytes =>
          rw [buildFrom] at h
          rcases Option.bind_eq_some_iff.mp h with
            ⟨⟨fileKey, rest⟩, _, hParse⟩
          rcases Option.bind_eq_some_iff.mp hParse with
            ⟨⟨left, b₁⟩, hBlocks, hNext⟩
          exact ih hNext (mem_requests_of_parseBlocks hBlocks hf)

/-
  A file without blocks: what follows its colon is taken for
  a block of the file.
-/
theorem request_of_empty
    (h :
      buildFrom (n + 1) (fileRecord (fileKey, []) ++ rest) b =
        some b') :
    ∃ f ∈ b'.requests, f.input.uuid = fileKey := by
  have hRecord :
      fileRecord (fileKey, []) ++ rest =
        fileKey.toList ++ Mark.colon :: Mark.space :: rest := by
    simp [fileRecord, blockFields]
  rw [hRecord, buildFrom_key] at h
  rcases Option.bind_eq_some_iff.mp h with
    ⟨⟨left, b₁⟩, hBlocks, hNext⟩
  rw [List.length_cons, parseBlocks, if_neg (by decide),
    if_neg (by decide)] at hBlocks
  rcases Option.bind_eq_some_iff.mp hBlocks with
    ⟨⟨⟨bid, size⟩, left'⟩, _, hMore⟩
  refine ⟨fetch fileKey bid size, ?_, rfl⟩
  apply mem_requests_of_buildFrom hNext
  apply mem_requests_of_parseBlocks hMore
  simp

----------
-- Entries
----------

/- Entries whose numbers and sizes fit their fields. -/
def Encodable (entries : List ((Uuid × Nat) × Nat)) : Prop :=
  ∀ x ∈ entries, x.1.2 < 2 ^ 32 ∧ x.2 < 2 ^ 32

/- The list after the record of an entry has been read. -/
theorem buildFrom_entry_spec
    (hId : entry.1.2 < 2 ^ 32)
    (hSize : entry.2 < 2 ^ 32)
    (hCons : b.cache.lruCache.Consistent)
    (h :
      buildFrom (n + 1) (entryRecord entry ++ rest) b =
        some b') :
    ∃ b₁ old kept,
      b.cache.lruCache.entries.eraseP
        (fun e => e.1 = entry.1) = old ++ kept ∧
      b₁.cache.lruCache.entries = kept ++ [entry] ∧
      (Lru.total kept % 2 ^ 32 + entry.2) % 2 ^ 32 ≤
        b.cache.lruCache.cap ∧
      b₁.cache.lruCache.cap = b.cache.lruCache.cap ∧
      b₁.cache.lruCache.Consistent ∧
      b₁.requests = b.requests ∧
      buildFrom n rest b₁ = some b' := by
  rw [buildFrom_entry n hId hSize] at h
  rcases Option.bind_eq_some_iff.mp h with ⟨c, hSet, hNext⟩
  rcases set_cases hSet with ⟨gone, lru, hLru, hEq⟩
  subst hEq
  rcases Lru.set_spec hCons hSize hLru with
    ⟨old, kept, hErase, _, hEntries, hCap, hNew, hFits⟩
  refine ⟨_, old, kept, hErase, ?_, ?_, ?_, ?_, ?_, hNext⟩
  · exact hEntries
  · exact hFits
  · exact hCap
  · exact hNew
  · rfl

/- Entries ask for no blocks, and add at most themselves. -/
theorem buildFrom_entries_spec
    {entries : List ((Uuid × Nat) × Nat)}
    (hFields : Encodable entries)
    (hn : entries.length ≤ n)
    (hCons : b.cache.lruCache.Consistent)
    (h :
      buildFrom n (entries.flatMap entryRecord) b = some b') :
    b'.requests = b.requests ∧
      b'.cache.lruCache.entries.length ≤
        b.cache.lruCache.entries.length + entries.length := by
  induction entries generalizing n b with
  | nil =>
      rw [List.flatMap_nil, buildFrom.eq_def] at h
      cases h
      simp
  | cons entry entries ih =>
      rw [Encodable, List.forall_mem_cons] at hFields
      rw [List.length_cons] at hn
      rcases Nat.exists_eq_succ_of_ne_zero
          (by omega : n ≠ 0) with ⟨m, hm⟩
      subst hm
      rw [List.flatMap_cons] at h
      rcases buildFrom_entry_spec hFields.1.1 hFields.1.2
          hCons h with
        ⟨b₁, old, kept, hErase, hEntries, _, _, hNew, hReq,
          hNext⟩
      rcases ih hFields.2 (by omega) hNew hNext with
        ⟨hSame, hLength⟩
      have hLess :
          (old ++ kept).length ≤
            b.cache.lruCache.entries.length := by
        rw [← hErase]
        exact List.length_eraseP_le
      rw [hEntries] at hLength
      simp only [List.length_append, List.length_nil,
        List.length_cons] at hLess hLength ⊢
      exact ⟨hSame.trans hReq, by omega⟩

/- What reading an entry does when nothing is dropped. -/
def Building.addEntry
    (b : Building)
    (entry : (Uuid × Nat) × Nat) : Building :=
  { cache :=
      { (b.enter entry.1.1).cache with
        lruCache :=
          { cap := b.cache.lruCache.cap
            curSize :=
              (b.cache.lruCache.curSize + entry.2) % 2 ^ 32
            entries := b.cache.lruCache.entries ++ [entry] } }
    requests := b.requests }

theorem buildFrom_entry_new
    (hId : entry.1.2 < 2 ^ 32)
    (hSize : entry.2 < 2 ^ 32)
    (hNew : entry.1 ∉ b.cache.lruCache.entries.map Prod.fst)
    (hFits :
      (b.cache.lruCache.curSize + entry.2) % 2 ^ 32 ≤
        b.cache.lruCache.cap)
    (rest : Bytes) :
    buildFrom (n + 1) (entryRecord entry ++ rest) b =
      buildFrom n rest (b.addEntry entry) := by
  have hLru := Lru.set_of_new hNew hFits
  have hSet :
      (b.enter entry.1.1).cache.set (b.held entry.1.1)
          entry.1 entry.2 =
        some (b.addEntry entry).cache := by
    rw [Cache.set]
    simp [Building.enter, Building.addEntry, hLru]
  rw [buildFrom_entry n hId hSize, hSet, Option.bind_some]
  rfl

theorem consistent_addEntry
    (hSize : entry.2 < 2 ^ 32)
    (hCons : b.cache.lruCache.Consistent)
    (hFits :
      (b.cache.lruCache.curSize + entry.2) % 2 ^ 32 ≤
        b.cache.lruCache.cap) :
    (b.addEntry entry).cache.lruCache.Consistent where
  small := by
    intro e he
    rcases List.mem_append.mp he with hOld | hNew
    · exact hCons.small e hOld
    · rw [List.mem_singleton.mp hNew]
      exact hSize
  size := by
    have hOld := hCons.size
    simp only [Building.addEntry, Lru.total_append,
      Lru.total_cons, Lru.total_nil]
    omega
  bounded := hFits

/-
  Entries that are set one after another are all there in
  the end exactly when they never pass the limit.
-/
theorem buildFrom_entries
    {entries : List ((Uuid × Nat) × Nat)}
    (hFields : Encodable entries)
    (hn : entries.length ≤ n)
    (hCons : b.cache.lruCache.Consistent)
    (hNodup :
      ((b.cache.lruCache.entries ++ entries).map
        Prod.fst).Nodup) :
    (∃ b', buildFrom n (entries.flatMap entryRecord) b =
        some b' ∧
      b'.cache.lruCache.entries =
        b.cache.lruCache.entries ++ entries) ↔
      ∀ first, first <+: entries → first ≠ [] →
        Lru.total (b.cache.lruCache.entries ++ first) % 2 ^ 32 ≤
          b.cache.lruCache.cap := by
  induction entries generalizing n b with
  | nil =>
      rw [List.flatMap_nil, buildFrom.eq_def]
      simp
  | cons entry entries ih =>
      rw [List.length_cons] at hn
      rw [Encodable, List.forall_mem_cons] at hFields
      rcases Nat.exists_eq_succ_of_ne_zero
          (by omega : n ≠ 0) with ⟨m, hm⟩
      subst hm
      have hNew :
          entry.1 ∉ b.cache.lruCache.entries.map Prod.fst := by
        rw [List.map_append, List.map_cons] at hNodup
        intro hMem
        exact (List.nodup_append.mp hNodup).2.2 _ hMem _
          List.mem_cons_self rfl
      rw [List.flatMap_cons, Nat.succ_eq_add_one]
      by_cases hFirst :
          (b.cache.lruCache.curSize + entry.2) % 2 ^ 32 ≤
            b.cache.lruCache.cap
      · -- the list grows by the entry
        have hRest :=
          ih (n := m) (b := b.addEntry entry) hFields.2
            (by omega)
            (consistent_addEntry hFields.1.2 hCons hFirst)
            (by simpa [Building.addEntry] using hNodup)
        simp only [Building.addEntry, List.append_assoc,
          List.singleton_append] at hRest
        rw [buildFrom_entry_new hFields.1.1 hFields.1.2 hNew
          hFirst]
        refine hRest.trans ⟨?_, ?_⟩
        · intro hLater first hPrefix hSome
          rcases List.prefix_cons_iff.mp hPrefix with
            hNil | ⟨tail, hEq, hTail⟩
          · exact absurd hNil hSome
          · subst hEq
            cases tail with
            | nil =>
                have hSize := hCons.size
                rw [Lru.total_append, Lru.total_cons,
                  Lru.total_nil]
                omega
            | cons x tail => exact hLater _ hTail (by simp)
        · intro hFits first hPrefix _
          exact hFits (entry :: first)
            (List.prefix_cons_iff.mpr
              (Or.inr ⟨first, rfl, hPrefix⟩)) (by simp)
      · -- an older entry is dropped, and is not set again
        constructor
        · rintro ⟨b', hBuild, hEnd⟩
          rcases buildFrom_entry_spec hFields.1.1 hFields.1.2
              hCons hBuild with
            ⟨b₁, old, kept, hErase, hEntries, hFits, _, hNext,
              _, hRest⟩
          have hSame :
              b.cache.lruCache.entries = old ++ kept := by
            rw [← hErase, List.eraseP_of_forall_not]
            intro e he hKey
            exact hNew (List.mem_map.mpr
              ⟨e, he, of_decide_eq_true hKey⟩)
          have hDropped : old ≠ [] := by
            intro hNil
            rw [hNil, List.nil_append] at hSame
            rw [← hSame, ← hCons.size] at hFits
            exact hFirst hFits
          have hLength :=
            (buildFrom_entries_spec hFields.2 (by omega) hNext
              hRest).2
          have hPos := List.length_pos_of_ne_nil hDropped
          rw [hEnd, hSame, hEntries] at hLength
          simp only [List.length_append, List.length_nil,
            List.length_cons] at hLength
          omega
        · intro hFits
          have hOnly := hFits [entry] (by simp) (by simp)
          rw [Lru.total_append, Lru.total_cons,
            Lru.total_nil] at hOnly
          have hSize := hCons.size
          omega

----------
-- Listings
----------

variable {files : Listing} {map : CachingMap}

theorem triples_perm_of_forall₂
    (h :
      List.Forall₂ (fun file file' =>
        file.1 = file'.1 ∧ file.2.Perm file'.2) files order) :
    (triples files).Perm (triples order) := by
  induction h with
  | nil => exact List.Perm.refl _
  | cons hFile _ ih =>
      simp only [triples, List.flatMap_cons] at ih ⊢
      rw [hFile.1]
      exact (hFile.2.map _).append ih

/- The order of a listing does not matter for its blocks. -/
theorem Lists.triples_perm
    (h : Lists files map) :
    (triples files).Perm (triples (listing map)) := by
  rcases h with ⟨order, hPerm, hSame⟩
  exact (triples_perm_of_forall₂ hSame).trans
    (hPerm.flatMap_right _)

theorem mem_listing
    {file : Uuid × List (Nat × Bytes)}
    (h : file ∈ listing map) :
    ∃ blocks, map.lookup file.1 = some blocks ∧
      file.2 =
        blocks.entries.map (fun block =>
          (block.1, block.2)) := by
  rcases List.mem_map.mp h with ⟨⟨uuid, blocks⟩, hMem, hEq⟩
  subst hEq
  exact ⟨blocks, AList.mem_lookup_iff.mpr hMem, rfl⟩

/- The file in the same place of the other order. -/
theorem exists_of_forall₂
    (h :
      List.Forall₂ (fun file file' =>
        file.1 = file'.1 ∧ file.2.Perm file'.2) files order) :
    (∀ file ∈ files, ∃ file' ∈ order,
        file.1 = file'.1 ∧ file.2.Perm file'.2) ∧
      ∀ file' ∈ order, ∃ file ∈ files,
        file.1 = file'.1 ∧ file.2.Perm file'.2 := by
  induction h with
  | nil => simp
  | @cons file file' files order hFile _ ih =>
      constructor
      · rw [List.forall_mem_cons]
        refine ⟨⟨file', List.mem_cons_self, hFile⟩, ?_⟩
        intro x hx
        rcases ih.1 x hx with ⟨y, hy, hSame⟩
        exact ⟨y, List.mem_cons_of_mem _ hy, hSame⟩
      · rw [List.forall_mem_cons]
        refine ⟨⟨file, List.mem_cons_self, hFile⟩, ?_⟩
        intro y hy
        rcases ih.2 y hy with ⟨x, hx, hSame⟩
        exact ⟨x, List.mem_cons_of_mem _ hx, hSame⟩

/- A file of a listing is one of the map. -/
theorem Lists.file
    (h : Lists files map)
    {file : Uuid × List (Nat × Bytes)}
    (hFile : file ∈ files) :
    ∃ blocks, map.lookup file.1 = some blocks ∧
      file.2.Perm
        (blocks.entries.map (fun block =>
          (block.1, block.2))) := by
  rcases h with ⟨order, hPerm, hSame⟩
  rcases (exists_of_forall₂ hSame).1 file hFile with
    ⟨file', hMem, hKey, hBlocks⟩
  rcases mem_listing (hPerm.mem_iff.mp hMem) with
    ⟨blocks, hLookup, hEq⟩
  rw [hKey]
  exact ⟨blocks, hLookup, hEq ▸ hBlocks⟩

/- Every file of the map is listed. -/
theorem Lists.listed
    (h : Lists files map)
    {blocks : BlockMap}
    (hFile : map.lookup uuid = some blocks) :
    ∃ file ∈ files, file.1 = uuid ∧
      file.2.Perm
        (blocks.entries.map (fun block =>
          (block.1, block.2))) := by
  rcases h with ⟨order, hPerm, hSame⟩
  have hMem :
      (uuid, blocks.entries.map (fun block =>
        (block.1, block.2))) ∈ listing map :=
    List.mem_map.mpr
      ⟨⟨uuid, blocks⟩, AList.mem_lookup_iff.mp hFile, rfl⟩
  rcases (exists_of_forall₂ hSame).2 _
      (hPerm.mem_iff.mpr hMem) with
    ⟨file, hIn, hKey, hBlocks⟩
  exact ⟨file, hIn, hKey, hBlocks⟩

theorem Lists.block
    (h : Lists files map)
    {file : Uuid × List (Nat × Bytes)}
    (hFile : file ∈ files)
    {block : Nat × Bytes}
    (hBlock : block ∈ file.2) :
    blockIn map (file.1, block.1) = some block.2 := by
  rcases h.file hFile with ⟨blocks, hLookup, hPerm⟩
  rcases List.mem_map.mp (hPerm.mem_iff.mp hBlock) with
    ⟨⟨id, bytes⟩, hMem, hEq⟩
  subst hEq
  have hFound : blocks.lookup id = some bytes :=
    AList.mem_lookup_iff.mpr hMem
  simp [blockIn, hLookup, hFound]

/- Every cached file has a block. -/
def NoEmptyFile (c : Cache) : Prop :=
  ∀ uuid blocks, c.cachingMap.lookup uuid = some blocks →
    blocks.entries ≠ []

/- No file is cached but the one whose key is zero. -/
def OnlyZeroKey (c : Cache) : Prop :=
  ∀ uuid blocks, c.cachingMap.lookup uuid = some blocks →
    uuid = Vector.replicate 32 0

theorem noEmptyFile_iff
    (h : Lists files c.cachingMap) :
    c.NoEmptyFile ↔ ∀ file ∈ files, file.2 ≠ [] := by
  constructor
  · intro hFull file hFile hNil
    rcases h.file hFile with ⟨blocks, hLookup, hPerm⟩
    rw [hNil] at hPerm
    have hNone := hPerm.symm.eq_nil
    rw [List.map_eq_nil_iff] at hNone
    exact hFull file.1 blocks hLookup hNone
  · intro hFull uuid blocks hLookup hNil
    rcases h.listed hLookup with ⟨file, hFile, _, hPerm⟩
    rw [hNil, List.map_nil] at hPerm
    exact hFull file hFile hPerm.eq_nil

/- A file without blocks has no triple. -/
theorem not_mem_triples
    (h : Lists files map)
    (hFile : (uuid, []) ∈ files)
    {id size : Nat} :
    (uuid, id, size) ∉ triples (listing map) := by
  intro hMem
  rcases List.mem_flatMap.mp hMem with ⟨file, hIn, hBlock⟩
  rcases List.mem_map.mp hBlock with ⟨block, hb, hEq⟩
  cases hEq
  rcases mem_listing hIn with ⟨blocks, hLookup, hBlocks⟩
  rcases h.file hFile with ⟨blocks', hLookup', hPerm⟩
  rw [hLookup] at hLookup'
  cases hLookup'
  rw [hBlocks, hPerm.symm.eq_nil] at hb
  cases hb

----------
-- The Hand-Over
----------

theorem eraseMetrics_getTables
    (files : Listing)
    (cacheHits evictions : Nat)
    (c : Cache) :
    eraseMetrics (c.getTables files cacheHits evictions) =
      files.flatMap fileRecord ++
        c.lruCache.entries.flatMap entryRecord := by
  have hEnd :
      (number cacheHits ++ number evictions).length = 8 := by
    rw [List.length_append]
    exact congrArg₂ (· + ·) (hostOrder.length_encode _)
      (hostOrder.length_encode _)
  rw [eraseMetrics, getTables, List.length_append, hEnd,
    Nat.add_sub_cancel, List.take_left]

theorem fetchBlock_triple
    {block : Nat × Bytes}
    (hId : block.1 < 2 ^ 32)
    (hSize : block.2.length < 2 ^ 32) :
    (fetchBlock fileKey block).triple =
      (fileKey, block.1, block.2.length) := by
  simp only [Fetch.triple, fetchBlock, fetch,
    UInt32.toNat_ofNat_of_lt' hId,
    UInt32.toNat_ofNat_of_lt' hSize]

theorem fetchBlock_position
    {block : Nat × Bytes}
    (hId : block.1 < 2 ^ 20) :
    (fetchBlock fileKey block).input.position.toNat =
      blocksize * (fetchBlock fileKey block).bid.toNat := by
  have hBid : (UInt32.ofNat block.1).toNat = block.1 :=
    UInt32.toNat_ofNat_of_lt' (by
      simp only [UInt32.size]
      omega)
  simp only [fetchBlock, fetch, UInt32.toNat_mul, hBid,
    blocksize]
  have hFactor : (4096 : UInt32).toNat = 4096 := rfl
  rw [hFactor]
  omega

/- There is at least one byte for every record. -/
theorem length_le_flatMap
    {α : Type}
    {write : α → Bytes}
    (h : ∀ x, write x ≠ [])
    (xs : List α) :
    xs.length ≤ (xs.flatMap write).length := by
  have hSum :=
    List.length_le_sum_of_one_le
      (xs.map (fun x => (write x).length)) (by
        intro n hn
        rcases List.mem_map.mp hn with ⟨x, _, hEq⟩
        rw [← hEq]
        exact List.length_pos_of_ne_nil (h x))
  rwa [List.length_map, ← List.length_flatMap] at hSum

theorem fileRecord_ne_nil
    (file : Uuid × List (Nat × Bytes)) :
    fileRecord file ≠ [] := by
  simp [fileRecord]

theorem entryRecord_ne_nil
    (entry : (Uuid × Nat) × Nat) :
    entryRecord entry ≠ [] := by
  simp [entryRecord]

/- Once the files are read, the entries are left. -/
theorem buildCache_files
    (h : ∀ file ∈ files, file.2 ≠ [])
    (entries : List ((Uuid × Nat) × Nat))
    (c : Cache) :
    ∃ n, entries.length ≤ n ∧
      buildCache
          (files.flatMap fileRecord ++
            entries.flatMap entryRecord) c =
        buildFrom n (entries.flatMap entryRecord)
          (files.foldl Building.addFile
            { cache := c, requests := [] }) := by
  have hFiles := length_le_flatMap fileRecord_ne_nil files
  have hEntries := length_le_flatMap entryRecord_ne_nil entries
  have hRoom :
      entries.length + files.length ≤
        (files.flatMap fileRecord ++
          entries.flatMap entryRecord).length := by
    rw [List.length_append]
    omega
  rcases Nat.exists_eq_add_of_le' hRoom with ⟨k, hFuel⟩
  refine ⟨k + entries.length, by omega, ?_⟩
  rw [buildCache, hFuel, ← Nat.add_assoc, buildFrom_files h]

/- A file without blocks spoils the reads. -/
theorem not_rebuilds_of_empty
    {c₀ : Cache}
    (hFiles : Lists files c.cachingMap)
    (hEmpty : ∃ file ∈ files, file.2 = [])
    (hBuild :
      buildCache (files.flatMap fileRecord ++ rest) c₀ =
        some b) :
    ¬ Rebuilds c b := by
  -- the first file without blocks
  have hFind :
      (files.find? (fun file => file.2.isEmpty)).isSome := by
    rw [List.find?_isSome]
    simpa using hEmpty
  rcases Option.isSome_iff_exists.mp hFind with
    ⟨⟨uuid, blocks⟩, hFirst⟩
  rcases List.find?_eq_some_iff_append.mp hFirst with
    ⟨hNil, before, after, hSplit, hBefore⟩
  have hBlocks : blocks = [] := by simpa using hNil
  subst hBlocks
  have hFull : ∀ file ∈ before, file.2 ≠ [] := by
    simpa using hBefore
  have hLength := length_le_flatMap fileRecord_ne_nil before
  have hPos :=
    List.length_pos_of_ne_nil (fileRecord_ne_nil (uuid, []))
  have hStream :
      files.flatMap fileRecord ++ rest =
        before.flatMap fileRecord ++
          (fileRecord (uuid, []) ++
            (after.flatMap fileRecord ++ rest)) := by
    rw [hSplit, List.flatMap_append, List.flatMap_cons]
    simp only [List.append_assoc]
  rw [buildCache, hStream] at hBuild
  have hRoom :
      1 + before.length ≤
        (before.flatMap fileRecord ++
          (fileRecord (uuid, []) ++
            (after.flatMap fileRecord ++ rest))).length := by
    simp only [List.length_append]
    omega
  rcases Nat.exists_eq_add_of_le' hRoom with ⟨n, hFuel⟩
  rw [hFuel, ← Nat.add_assoc, buildFrom_files hFull] at hBuild
  rcases request_of_empty hBuild with ⟨f, hf, hUuid⟩
  intro hHands
  have hMem :=
    hHands.requests.mem_iff.mp
      (List.mem_map_of_mem (f := Fetch.triple) hf)
  rw [Fetch.triple, hUuid] at hMem
  refine not_mem_triples hFiles ?_ hMem
  rw [hSplit]
  simp

theorem Bounded.encodable
    (hBounded : Bounded cachesize c) :
    Encodable c.lruCache.entries := by
  intro x hx
  have hEntry := hBounded.entry x hx
  simp only [blocksize] at hEntry
  omega

theorem consistent_addFiles
    (files : Listing)
    (policy : EvictionPolicy) :
    (files.foldl Building.addFile
      { cache := empty cachesize policy
        requests := [] }).cache.lruCache.Consistent := by
  rw [lruCache_foldl_addFile]
  exact Lru.consistent_empty _

/- The reads for the files of a listing. -/
theorem requests_of_buildCache
    (hBounded : Bounded cachesize c)
    (hFull : ∀ file ∈ files, file.2 ≠ [])
    {policy : EvictionPolicy}
    (hBuild :
      buildCache
          (files.flatMap fileRecord ++
            c.lruCache.entries.flatMap entryRecord)
          (empty cachesize policy) = some b) :
    b.requests =
      files.flatMap (fun file =>
        file.2.map (fetchBlock file.1)) := by
  rcases buildCache_files hFull c.lruCache.entries
      (empty cachesize policy) with ⟨n, hn, hSame⟩
  rw [hSame] at hBuild
  have hRequests :=
    (buildFrom_entries_spec hBounded.encodable hn
      (consistent_addFiles files policy) hBuild).1
  rwa [requests_foldl_addFile, List.nil_append] at hRequests

variable
  (hBounded : Bounded cachesize c)
  (hFiles : Lists files c.cachingMap)
  (hRequests :
    b.requests =
      files.flatMap (fun file =>
        file.2.map (fetchBlock file.1)))

include hBounded hFiles

theorem Bounded.block_of_mem
    {file : Uuid × List (Nat × Bytes)}
    (hFile : file ∈ files)
    {block : Nat × Bytes}
    (hIn : block ∈ file.2) :
    block.1 < 2 ^ 20 ∧ block.2.length ≤ blocksize :=
  hBounded.block _ _ (hFiles.block hFile hIn)

include hRequests

theorem triple_requests :
    b.requests.map Fetch.triple = triples files := by
  rw [hRequests, List.map_flatMap, triples]
  apply List.flatMap_congr
  intro file hFile
  rw [List.map_map]
  apply List.map_congr_left
  intro block hIn
  have hBound := hBounded.block_of_mem hFiles hFile hIn
  simp only [blocksize] at hBound
  exact fetchBlock_triple (by omega) (by omega)

theorem rebuilds_of_requests
    (hEntries :
      b.cache.lruCache.entries = c.lruCache.entries) :
    Rebuilds c b := by
  refine { entries := hEntries, requests := ?_, position := ?_ }
  · rw [triple_requests hBounded hFiles hRequests]
    exact hFiles.triples_perm
  · intro f hf
    rw [hRequests] at hf
    rcases List.mem_flatMap.mp hf with ⟨file, hFile, hIn⟩
    rcases List.mem_map.mp hIn with ⟨block, hb, hEq⟩
    subst hEq
    exact fetchBlock_position
      (hBounded.block_of_mem hFiles hFile hb).1

/- The storage reads the blocks of the file with key zero. -/
theorem stored_requests :
    b.requests.map Fetch.stored =
      (triples files).map
        (fun t => (Vector.replicate 32 0, t.2)) := by
  rw [← triple_requests hBounded hFiles hRequests,
    List.map_map]
  apply List.map_congr_left
  intro f hf
  rw [hRequests] at hf
  rcases List.mem_flatMap.mp hf with ⟨file, _, hIn⟩
  rcases List.mem_map.mp hIn with ⟨block, _, hEq⟩
  subst hEq
  rfl

/- No file has blocks but the one whose key is zero. -/
theorem stored_perm_iff
    (hFull : ∀ file ∈ files, file.2 ≠ []) :
    (b.requests.map Fetch.stored).Perm
        (triples (listing c.cachingMap)) ↔
      c.OnlyZeroKey := by
  have hTriples := hFiles.triples_perm
  rw [stored_requests hBounded hFiles hRequests]
  constructor
  · intro hPerm uuid blocks hLookup
    rcases hFiles.listed hLookup with ⟨file, hFile, rfl, _⟩
    rcases List.exists_mem_of_ne_nil _ (hFull file hFile) with
      ⟨block, hBlock⟩
    have hMem :
        (file.1, block.1, block.2.length) ∈ triples files :=
      List.mem_flatMap.mpr
        ⟨file, hFile, List.mem_map_of_mem hBlock⟩
    rcases List.mem_map.mp
        (hPerm.mem_iff.mpr (hTriples.mem_iff.mp hMem)) with
      ⟨_, _, hEq⟩
    exact (congrArg Prod.fst hEq).symm
  · intro hZero
    have hSame :
        (triples files).map
            (fun t => (Vector.replicate 32 0, t.2)) =
          triples files := by
      rw [List.map_congr_left, List.map_id]
      rintro ⟨uuid, id, size⟩ hMem
      rcases List.mem_flatMap.mp hMem with ⟨file, hFile, hIn⟩
      rcases List.mem_map.mp hIn with ⟨block, _, hEq⟩
      rcases hFiles.file hFile with ⟨blocks, hLookup, _⟩
      cases hEq
      rw [hZero file.1 blocks hLookup]
      rfl
    rw [hSame]
    exact hTriples

omit hRequests

/-
  When every file has blocks, all depends on whether the
  entries can be set again.
-/
theorem rebuilds_iff_refills
    (hFull : ∀ file ∈ files, file.2 ≠ [])
    (policy : EvictionPolicy) :
    (∃ b,
      buildCache
          (files.flatMap fileRecord ++
            c.lruCache.entries.flatMap entryRecord)
          (empty cachesize policy) = some b ∧
        Rebuilds c b) ↔
      c.lruCache.Refills := by
  rcases buildCache_files hFull c.lruCache.entries
      (empty cachesize policy) with ⟨n, hn, hBuild⟩
  have hStart :
      (files.foldl Building.addFile
        { cache := empty cachesize policy
          requests := [] }).cache.lruCache =
        Lru.empty cachesize.toNat :=
    lruCache_foldl_addFile files _
  have hEntries :=
    buildFrom_entries hBounded.encodable hn
      (consistent_addFiles files policy) (by
      rw [hStart]
      exact hBounded.nodup)
  rw [hStart, ← hBuild] at hEntries
  have hRefills :
      c.lruCache.Refills ↔
        ∀ first, first <+: c.lruCache.entries → first ≠ [] →
          Lru.total ((Lru.empty cachesize.toNat).entries ++
            first) % 2 ^ 32 ≤ cachesize.toNat := by
    rw [Lru.Refills, hBounded.cap_eq]
    constructor
    · intro h first hPrefix _
      exact h first hPrefix
    · intro h first hPrefix
      cases first with
      | nil => exact Nat.zero_le _
      | cons x first => exact h _ hPrefix (by simp)
  rw [hRefills]
  refine Iff.trans ⟨?_, ?_⟩ hEntries
  · rintro ⟨b, hSome, hSame⟩
    exact ⟨b, hSome, hSame.entries⟩
  · rintro ⟨b, hSome, hSame⟩
    exact ⟨b, hSome, rebuilds_of_requests hBounded hFiles
      (requests_of_buildCache hBounded hFull hSome) hSame⟩

theorem rebuilds_iff
    (policy : EvictionPolicy) :
    (∃ b,
      buildCache
          (files.flatMap fileRecord ++
            c.lruCache.entries.flatMap entryRecord)
          (empty cachesize policy) = some b ∧
        Rebuilds c b) ↔
      c.NoEmptyFile ∧ c.lruCache.Refills := by
  rw [noEmptyFile_iff hFiles]
  by_cases hFull : ∀ file ∈ files, file.2 ≠ []
  · rw [rebuilds_iff_refills hBounded hFiles hFull,
      and_iff_right hFull]
  · constructor
    · rintro ⟨b, hBuild, hSame⟩
      have hEmpty : ∃ file ∈ files, file.2 = [] := by
        simpa using hFull
      exact absurd hSame
        (not_rebuilds_of_empty hFiles hEmpty hBuild)
    · intro h
      exact absurd h.1 hFull

omit hBounded hFiles

/-
  A cache that calls have led to is rebuilt exactly when
  every file in it has a block, and the entries of its list
  can be set again. But its blocks are read from the storage
  only if they are of the file whose key is zero.
-/
theorem hands_over_iff
    {cachesize : UInt32}
    {policy : EvictionPolicy}
    {calls : List Call}
    {c : Cache}
    (hRun :
      run call (empty cachesize policy) calls =
        some c)
    {files : Listing}
    (hFiles : Lists files c.cachingMap)
    (cacheHits evictions : Nat)
    (policy' : EvictionPolicy) :
    ((∃ b,
      buildCache
          (eraseMetrics
            (c.getTables files cacheHits evictions))
          (empty cachesize policy') = some b ∧
        Rebuilds c b) ↔
      c.NoEmptyFile ∧ c.lruCache.Refills) ∧
    ((∃ b,
      buildCache
          (eraseMetrics
            (c.getTables files cacheHits evictions))
          (empty cachesize policy') = some b ∧
        HandsOver c b) ↔
      c.NoEmptyFile ∧ c.lruCache.Refills ∧
        c.OnlyZeroKey) := by
  have hBounded := bounded_of_run hRun
  rw [eraseMetrics_getTables]
  have hRebuilds := rebuilds_iff hBounded hFiles policy'
  have hStored :
      c.NoEmptyFile → ∀ b,
        buildCache
            (files.flatMap fileRecord ++
              c.lruCache.entries.flatMap entryRecord)
            (empty cachesize policy') = some b →
          ((b.requests.map Fetch.stored).Perm
              (triples (listing c.cachingMap)) ↔
            c.OnlyZeroKey) := by
    intro hFull b hBuild
    rw [noEmptyFile_iff hFiles] at hFull
    exact stored_perm_iff hBounded hFiles
      (requests_of_buildCache hBounded hFull hBuild) hFull
  refine ⟨hRebuilds, ?_, ?_⟩
  · rintro ⟨b, hBuild, hHands⟩
    rcases hRebuilds.mp ⟨b, hBuild, hHands.toRebuilds⟩ with
      ⟨hFull, hRefills⟩
    exact ⟨hFull, hRefills,
      (hStored hFull b hBuild).mp hHands.stored⟩
  · rintro ⟨hFull, hRefills, hZero⟩
    rcases hRebuilds.mpr ⟨hFull, hRefills⟩ with
      ⟨b, hBuild, hSame⟩
    exact ⟨b, hBuild, hSame,
      (hStored hFull b hBuild).mpr hZero⟩

/- A write of some bytes at the start of a file. -/
def sampleWrite (key : Uuid) (data : Bytes) : Call :=
  .writeToCache
    { uuid := key
      position := 0
      size := UInt32.ofNat data.length
      fileName := Vector.replicate _ 0
      fileKey := Vector.replicate _ 0
      data := data } data

/- The cache after it, when the list is as given. -/
def sampleCache
    (key : Uuid)
    (blocks : BlockMap)
    (entries : List ((Uuid × Nat) × Nat)) : Cache :=
  { cachingMap := (∅ : CachingMap).insert key blocks
    lruCache :=
      { cap := 8192
        curSize := Lru.total entries
        entries := entries }
    evictionPolicy := .LRU }

/- One block of three bytes. -/
def sampleBlock (key : Uuid) : Cache :=
  sampleCache key ((∅ : BlockMap).insert 0 [1, 2, 3])
    [((key, 0), 3)]

theorem lists_sampleCache
    (key : Uuid)
    (blocks : BlockMap)
    (entries : List ((Uuid × Nat) × Nat)) :
    Lists
      [(key, blocks.entries.map (fun e => (e.1, e.2)))]
      (sampleCache key blocks entries).cachingMap :=
  ⟨_, List.Perm.refl _,
    List.Forall₂.cons ⟨rfl, List.Perm.refl _⟩
      List.Forall₂.nil⟩

/- A block of the file with key zero is handed over. -/
theorem hands_over_block :
    ∃ b,
      buildCache
          (eraseMetrics
            ((sampleBlock (Vector.replicate 32 0)).getTables
              [(Vector.replicate 32 0, [(0, [1, 2, 3])])]
              0 0))
          (empty 8192 .LRU) = some b ∧
        HandsOver (sampleBlock (Vector.replicate 32 0)) b := by
  have hRun :
      run call (empty 8192 .LRU)
          [sampleWrite (Vector.replicate 32 0) [1, 2, 3]] =
        some (sampleBlock (Vector.replicate 32 0)) := rfl
  have hFiles := lists_sampleCache (Vector.replicate 32 0)
    ((∅ : BlockMap).insert 0 [1, 2, 3])
    [((Vector.replicate 32 0, 0), 3)]
  refine (hands_over_iff hRun hFiles 0 0 .LRU).2.mpr
    ⟨?_, ?_, ?_⟩
  · exact (noEmptyFile_iff hFiles).mpr (by simp)
  · exact Lru.refills_of_total_le (by decide)
  · intro uuid blocks hLookup
    by_contra hOther
    have hNone :
        (sampleBlock (Vector.replicate 32 0)).cachingMap.lookup
          uuid = none :=
      AList.lookup_insert_ne hOther
    rw [hNone] at hLookup
    cases hLookup

/-
  A write of no bytes leaves a file without blocks, and the
  reader of its record goes beyond the end. For a block of
  another file the storage is asked for the file with key
  zero.
-/
theorem not_handed_over :
    (run call (empty 8192 .LRU)
          [sampleWrite (Vector.replicate 32 7) []] =
        some (sampleCache (Vector.replicate 32 7) ∅ []) ∧
      Lists [(Vector.replicate 32 7, [])]
        (sampleCache (Vector.replicate 32 7) ∅
          []).cachingMap ∧
      buildCache
          (eraseMetrics
            ((sampleCache (Vector.replicate 32 7) ∅
              []).getTables
                [(Vector.replicate 32 7, [])] 0 0))
          (empty 8192 .LRU) = none) ∧
    run call (empty 8192 .LRU)
          [sampleWrite (Vector.replicate 32 7) [1, 2, 3]] =
        some (sampleBlock (Vector.replicate 32 7)) ∧
      (buildCache
          (eraseMetrics
            ((sampleBlock (Vector.replicate 32 7)).getTables
              [(Vector.replicate 32 7, [(0, [1, 2, 3])])]
              0 0))
          (empty 8192 .LRU)).map
          (fun b => b.requests.map Fetch.stored) =
        some [(Vector.replicate 32 0, 0, 3)] ∧
      triples (listing
          (sampleBlock (Vector.replicate 32 7)).cachingMap) =
        [(Vector.replicate 32 7, 0, 3)] := by
  refine ⟨⟨rfl, lists_sampleCache _ ∅ [], ?_⟩, rfl, ?_, rfl⟩
  · rw [← Option.isNone_iff_eq_none]
    decide +kernel
  · decide +kernel

end Cache

end Slfs
