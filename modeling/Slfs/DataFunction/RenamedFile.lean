import Slfs.DataFunction.FileVolume

/-
  Renaming a file.

  A renaming copies as many bytes as the directory records.
  The recorded size is 16 bits wide and knows nothing of the
  data that a file was created with.

  Main declarations:
    * `Files.Recorded`, a file whose size is recorded
    * `Volume.rename_moves_iff`
-/

----------
-- Renamed Files
----------

namespace Slfs

open Transition
open StorageConf (standard)

open Jsre

/-
  The recorded size covers the file. One byte more is not
  missed if it is a zero that fills up the last block.
-/
def Files.Recorded
    (conf : StorageConf)
    (l : Bytes)
    (size : Nat) :
    Prop :=
  l.length ≤ size ∨
    (l.length = size + 1 ∧ conf.blocksize ∣ l.length ∧
      ¬ conf.blocksize ∣ size ∧ Buffer.nth l size = 0)

/- What ranges of one file read, they read of the other. -/
def Cluster.ReadsAs
    (conf : StorageConf)
    (c c' : Cluster)
    (uuid uuid' : Uuid) :
    Prop :=
  ∀ (position size : UInt32) (bytes : Bytes),
    c.readBytes conf uuid position.toNat size.toNat =
        some bytes →
      c'.readBytes conf uuid' position.toNat size.toNat =
        some bytes

/-
  A file has been moved: its name is gone, the new name has
  what was recorded of it, and reads of it are the same.
-/
structure Volume.Moves
    (conf : StorageConf)
    (input : Jsre.Request)
    (info : RenameInfo)
    (v v' : Volume) :
    Prop where
  unlisted :
    input.name ∉
      (v'.store.servers.listed conf info.fileParentKey).map
        FilemetaServer.name
  listed :
    ∃ r ∈ v.store.servers.listed conf info.fileParentKey,
      r.name = input.name ∧
        ∃ r' ∈ v'.store.servers.listed conf input.uuid,
          r'.name = cstring info.newFileName ∧
            r'.owner = r.owner ∧
            r'.permission = r.permission ∧
            r'.fileSize = r.fileSize ∧
            r'.creationTime = r.creationTime ∧
            r'.modificationTime = r.modificationTime
  content :
    v.store.servers.ReadsAs conf v'.store.servers
      input.fileKey info.newFileKey

----------
-- Reading A Copy
----------

namespace Cluster

variable {conf : StorageConf} {c c' : Cluster}
variable {files files' : Files} {uuid uuid' : Uuid}

/- A read of one byte. -/
theorem Contains.readBytes_one
    (h : c.Contains conf files)
    (uuid : Uuid)
    {x : Nat}
    (hx : x + 1 < 2 ^ 32) :
    c.readBytes conf uuid x 1 =
      if (files uuid).length ≤
          x / conf.blocksize * conf.blocksize then
        some []
      else if (files uuid).length < x then none
      else some [Buffer.nth (files uuid) x] := by
  have hb := conf.blocksize_pos
  have hMod := Nat.mod_lt x hb
  have hDiv := Nat.div_add_mod' x conf.blocksize
  have hMin : min (x + 1 - x)
      (conf.blocksize - x % conf.blocksize) = 1 := by
    omega
  have hChunks : readChunks conf x 1 =
      [{ block := x / conf.blocksize
         offset := x % conf.blocksize
         size := 1
         start := 0 }] := by
    have hFuel : x + 1 - x = 0 + 1 := by omega
    unfold readChunks Chunks.chunks
    rw [Nat.mod_eq_of_lt hx, hFuel,
      Chunks.chunksFrom_succ (by omega), hMin]
    simp [Chunks.chunksFrom]
  have hAnswer := h.readAnswer uuid
    (by rw [hChunks]; exact List.mem_singleton.mpr rfl)
  rw [readBytes, if_neg (by decide), readAnswers, hChunks]
  simp only [List.mapM_cons, List.mapM_nil]
  rw [hAnswer]
  by_cases hNone : (files uuid).length ≤
      x / conf.blocksize * conf.blocksize
  · rw [if_pos hNone, Blocks.block_of_le hNone]
    rfl
  · have hBlock := Blocks.block_of_lt (Nat.lt_of_not_le hNone)
    have hLength := Blocks.length_of_block hBlock
    rw [if_neg hNone, hBlock]
    simp only
    by_cases hShort : (files uuid).length < x
    · rw [if_pos hShort, Ssbd.rawblocksRead,
        if_pos (by rw [hLength]; omega)]
      rfl
    · rw [if_neg hShort, Ssbd.rawblocksRead_eq _
        (by rw [hLength]; omega), Buffer.window_eq_map]
      have hNth := Blocks.nth_of_block hBlock hMod
      rw [hDiv] at hNth
      simp [hNth]

/-
  A file reads as another one that has the same bytes in the
  same blocks, as long as its blocks are not too short.
-/
theorem readsAs_of_blocks
    (h : c.Contains conf files)
    (h' : c'.Contains conf files')
    (hNth : ∀ x, Buffer.nth (files uuid) x =
      Buffer.nth (files' uuid') x)
    (hBlock : ∀ n,
      n * conf.blocksize < (files uuid).length ↔
        n * conf.blocksize < (files' uuid').length)
    (hReach : ∀ x,
      x / conf.blocksize * conf.blocksize <
        (files uuid).length →
      x ≤ (files uuid).length →
        x ≤ (files' uuid').length) :
    c.ReadsAs conf c' uuid uuid' := by
  intro position size bytes hRead
  exact h.readBytes_of_blocks h' (fun x _ => hNth x) hBlock
    hReach hRead

section Copies

variable {size : UInt16} (hCopy : files' uuid' =
  files.read conf uuid size.toNat)
include hCopy

theorem length_copy :
    (files' uuid').length =
      min size.toNat
        (Blocks.span conf.blocksize (files uuid)) := by
  rw [hCopy, Files.read, Buffer.length_resize]

theorem nth_copy
    (x : Nat) :
    Buffer.nth (files' uuid') x =
      if x < (files' uuid').length then
        Buffer.nth (files uuid) x
      else 0 := by
  rw [length_copy hCopy, hCopy, Files.read,
    Buffer.nth_resize]
  rfl

/-
  Where a copy ends too early, the first byte that it lacks
  or the one behind it reads differently.
-/
theorem recorded_of_readsAs
    (h : c.Contains conf files)
    (h' : c'.Contains conf files')
    (hReads : c.ReadsAs conf c' uuid uuid') :
    Files.Recorded conf (files uuid) size.toNat := by
  have hSize := size.toNat_lt
  have hSpan :=
    Blocks.length_le_span conf.blocksize_pos (l := files uuid)
  have hLength := length_copy hCopy
  by_cases hLe : (files uuid).length ≤ size.toNat
  · exact Or.inl hLe
  right
  have hCut : (files' uuid').length = size.toNat := by
    omega
  have hByte : ∀ x < 2 ^ 17, ∀ bytes,
      c.readBytes conf uuid x 1 = some bytes →
        c'.readBytes conf uuid' x 1 = some bytes := by
    intro x hx bytes hRead
    have hNat : (UInt32.ofNat x).toNat = x :=
      UInt32.toNat_ofNat_of_lt (Nat.lt_trans hx (by decide))
    have hOne := hReads (UInt32.ofNat x) 1 bytes
    rw [hNat] at hOne
    exact hOne hRead
  -- the first byte that is not copied
  have hFirst := hByte size.toNat (by omega)
  have hStart :=
    Nat.div_mul_le_self size.toNat conf.blocksize
  rw [h.readBytes_one uuid (by omega),
    h'.readBytes_one uuid' (by omega), hCut,
    if_neg (by omega), if_neg (by omega)] at hFirst
  have hInside : ¬ size.toNat ≤
      size.toNat / conf.blocksize * conf.blocksize := by
    intro hOut
    rw [if_pos hOut] at hFirst
    cases hFirst _ rfl
  rw [if_neg hInside, if_neg (Nat.lt_irrefl _)] at hFirst
  have hSame := hFirst _ rfl
  rw [nth_copy hCopy, hCut, if_neg (Nat.lt_irrefl _)] at hSame
  -- and the next one, which must not be there
  have hSecond := hByte (size.toNat + 1) (by omega)
  have hNext :=
    Nat.div_mul_le_self (size.toNat + 1) conf.blocksize
  rw [h.readBytes_one uuid (by omega),
    h'.readBytes_one uuid' (by omega), hCut] at hSecond
  have hEnd : (files uuid).length ≤
      (size.toNat + 1) / conf.blocksize *
        conf.blocksize := by
    by_contra hThere
    rw [if_neg hThere, if_neg (by omega)] at hSecond
    have hRead := hSecond _ rfl
    by_cases hOut : size.toNat ≤
        (size.toNat + 1) / conf.blocksize * conf.blocksize
    · rw [if_pos hOut] at hRead
      cases hRead
    · rw [if_neg hOut, if_pos (Nat.lt_succ_self _)] at hRead
      cases hRead
  have hFull : (files uuid).length =
      (size.toNat + 1) / conf.blocksize *
        conf.blocksize := by
    omega
  refine ⟨by omega, ?_, ?_, ?_⟩
  · rw [hFull]
    exact Nat.dvd_mul_left _ _
  · intro hDvd
    rw [Nat.div_mul_cancel hDvd] at hInside
    exact hInside (Nat.le_refl _)
  · simpa using hSame.symm

/- A copy of the whole file reads as the file. -/
theorem readsAs_of_recorded
    (h : c.Contains conf files)
    (h' : c'.Contains conf files')
    (hRecorded :
      Files.Recorded conf (files uuid) size.toNat) :
    c.ReadsAs conf c' uuid uuid' := by
  have hb := conf.blocksize_pos
  have hSpan := Blocks.length_le_span hb (l := files uuid)
  have hLength := length_copy hCopy
  have hNth := nth_copy hCopy
  rcases hRecorded with hLe | ⟨hOne, hDvd, hNot, hZero⟩
  · refine readsAs_of_blocks h h' ?_ ?_ ?_
    · intro x
      rw [hNth]
      by_cases hx : x < (files' uuid').length
      · rw [if_pos hx]
      · rw [if_neg hx, Buffer.nth_of_length_le (by omega)]
        rfl
    · intro n
      have hIn := Blocks.lt_span_iff hb (n * conf.blocksize)
        (l := files uuid)
      rw [Nat.mul_div_cancel n hb] at hIn
      constructor
      · intro hn
        omega
      · intro hn
        exact hIn.mp (by omega)
    · intro x _ hx
      omega
  · -- the zero at the end of the last block is filled in
    have hCut : (files' uuid').length = size.toNat := by
      omega
    refine readsAs_of_blocks h h' ?_ ?_ ?_
    · intro x
      rw [hNth, hCut]
      by_cases hx : x < size.toNat
      · rw [if_pos hx]
      · rw [if_neg hx]
        by_cases hEq : x = size.toNat
        · rw [hEq, hZero]
        · rw [Buffer.nth_of_length_le (by omega)]
          rfl
    · intro n
      have hNe : n * conf.blocksize ≠ size.toNat := by
        intro hEq
        exact hNot (hEq ▸ Nat.dvd_mul_left _ _)
      omega
    · intro x hThere hx
      have hLast : x ≠ (files uuid).length := by
        intro hEq
        rw [hEq, Nat.div_mul_cancel hDvd] at hThere
        exact Nat.lt_irrefl _ hThere
      omega

end Copies

/-
  The start of a file reads as the file exactly when it is
  all of it.
-/
theorem reads_copy_iff
    (h : c.Contains conf files)
    (h' : c'.Contains conf files')
    {size : UInt16}
    (hCopy : files' uuid' = files.read conf uuid size.toNat) :
    c.ReadsAs conf c' uuid uuid' ↔
      Files.Recorded conf (files uuid) size.toNat :=
  ⟨recorded_of_readsAs hCopy h h',
    readsAs_of_recorded hCopy h h'⟩

end Cluster

----------
-- Listing The New Name
----------

namespace Catalog

variable {cat cat' : Catalog} {input : Jsre.Request}
variable {info : RenameInfo}
variable {entries : List FilemetaServer} {i : Nat}
variable {r : FilemetaServer}

/- A renaming that goes on writes a copy of the file. -/
theorem of_renameNext
    {source destination : Bytes}
    {read : UInt16 → Bytes}
    (hSource :
      Directory.Shows source (cat info.fileParentKey))
    {writes : Writes}
    (hNext :
      DataFunction.renameNext input info source destination
        read = .act (.go writes)) :
    ∃ entries i r,
      cat info.fileParentKey = some entries ∧
        find entries input.name = some i ∧
        entries[i]? = some r ∧
        ⟨info.newFileKey, 0, read r.fileSize⟩ ∈ writes.2 := by
  unfold DataFunction.renameNext at hNext
  unfold DataFunction.startMetaRenameFile at hNext
  cases hCat : cat info.fileParentKey with
  | none =>
      rw [hCat] at hSource
      have hShort : source.length < recordSize := hSource
      unfold DataFunction.withDirectory at hNext
      rw [if_pos hShort] at hNext
      cases hNext
  | some entries =>
      rw [hCat] at hSource
      have hHolds : Directory.Holds source entries := hSource
      rw [Cluster.withDirectory_of_holds hHolds, hHolds.count,
        hHolds.find_eq] at hNext
      cases hFind :
          entries.findIdx? (fun r => r.name = input.name) with
      | none =>
          rw [hFind] at hNext
          cases hNext
      | some i =>
          rcases find_eq_some hFind with ⟨r, hr, _⟩
          refine ⟨entries, i, r, rfl, hFind, hr, ?_⟩
          rw [hFind] at hNext
          simp only [hHolds.entry i r hr] at hNext
          by_cases hDir :
              DataFunction.sameParentDir input info = true
          · simp only [if_pos hDir] at hNext
            by_cases hName :
                cstring info.newFileName = input.name
            · simp only [if_pos hName] at hNext
              cases hNext
            · simp only [if_neg hName] at hNext
              cases hNext
              simp
          · simp only [if_neg hDir] at hNext
            split at hNext
            · cases hNext
            · cases hNext
            · cases hNext
              simp
            · cases hNext

/-
  An accepted renaming takes one entry with the old name from
  the source and puts it into the destination.
-/
theorem rename_lists
    (hCat : cat info.fileParentKey = some entries)
    (hFind : find entries input.name = some i)
    (hr : entries[i]? = some r)
    (hRename : cat.rename input info = some cat') :
    (∃ source, cat' info.fileParentKey = some source ∧
      (entries.map FilemetaServer.name).count input.name =
        (source.map FilemetaServer.name).count input.name +
          1) ∧
    ∃ destination, cat' input.uuid = some destination ∧
      renamed info r ∈ destination := by
  rcases find_eq_some hFind with ⟨found, hFound, hName⟩
  have hSame : found = r := by
    rw [hr] at hFound
    exact (Option.some.inj hFound).symm
  subst hSame
  have hLt := (List.getElem?_eq_some_iff.mp hr).1
  have hGet := (List.getElem?_eq_some_iff.mp hr).2
  rcases rename_of_find hCat hFind hr hRename with
    ⟨hDir, hNe, hEq⟩ | ⟨hApart, hAdd⟩
  · subst hEq
    rw [← hDir, Function.update_self]
    refine ⟨⟨_, rfl, ?_⟩, _, rfl, ?_⟩
    · have hMem : input.name ∈
          entries.map FilemetaServer.name :=
        List.mem_map.mpr
          ⟨found, List.mem_of_getElem? hr, hName⟩
      have hPos := List.count_pos_iff.mpr hMem
      rw [List.map_set, name_renamed,
        List.count_set (by simpa using hLt)]
      simp only [List.getElem_map, hGet, hName, beq_self_eq_true,
        if_true, beq_iff_eq, if_neg hNe]
      omega
    · exact List.mem_set hLt _
  · rcases add_eq_some hAdd with ⟨others, hOthers, _, hEq⟩
    subst hEq
    refine ⟨⟨Table.swapRemove entries i, ?_, ?_⟩,
      others ++ [renamed info found], ?_, by simp⟩
    · rw [Function.update_of_ne hApart, Function.update_self]
    · have hPerm :=
        (Table.perm_swapRemove hr).map FilemetaServer.name
      rw [hPerm.count_eq, List.map_cons, hName,
        List.count_cons_self]
    · rw [Function.update_self]

/- A name that is listed once has one entry. -/
theorem eq_of_count_one
    (hr : r ∈ entries)
    (hOnce :
      (entries.map FilemetaServer.name).count r.name = 1)
    {other : FilemetaServer}
    (hMem : other ∈ entries)
    (hName : other.name = r.name) :
    other = r := by
  rcases List.getElem?_of_mem hr with ⟨i, hi⟩
  have hPerm := Table.perm_swapRemove hi
  rw [(hPerm.map FilemetaServer.name).count_eq, List.map_cons,
    List.count_cons_self] at hOnce
  rcases List.mem_cons.mp (hPerm.subset hMem) with
    hSame | hRest
  · exact hSame
  · have hPos := List.count_pos_iff.mpr
      (List.mem_map.mpr ⟨other, hRest, hName⟩)
    omega

end Catalog

namespace Volume

open Coordinator (okReply)

variable {conf : StorageConf}
variable {formatTime : UInt64 → Bytes} {fuel : Nat}
variable {v v' : Volume} {files : Files} {task : Task}
variable {uuid : Uuid}

/- The entries of a directory in the catalog of a volume. -/
theorem listed_of_catalog
    {entries : List FilemetaServer}
    (hCat : v.catalog conf uuid = some entries) :
    v.store.servers.listed conf uuid = entries := by
  unfold catalog at hCat
  by_cases hMem : uuid ∈ v.directories
  · rw [if_pos hMem] at hCat
    exact Option.some.inj hCat
  · rw [if_neg hMem] at hCat
    cases hCat

/-
  What a renaming does that is answered `OK`. The new file is
  a copy of the start of the old one.
-/
theorem HasFiles.rename
    (h : v.HasFiles conf files)
    (hFuel : 2 ≤ fuel)
    (hWork : task.work = .metadata .renameSameproxy)
    {info : RenameInfo}
    (hInfo : RenameInfo.parse task.input.data = some info)
    (hProper : v.Proper conf task)
    (hKey : files info.newFileKey = [])
    (hReply :
      (v.store.runTask conf formatTime fuel task).map
        Prod.fst = some [okReply])
    (hStep : v.step conf formatTime fuel task = some v') :
    ∃ entries r source destination files',
      v.catalog conf info.fileParentKey = some entries ∧
        r ∈ entries ∧ r.name = task.input.name ∧
        v'.catalog conf info.fileParentKey = some source ∧
        (entries.map FilemetaServer.name).count
            task.input.name =
          (source.map FilemetaServer.name).count
            task.input.name + 1 ∧
        v'.catalog conf task.input.uuid = some destination ∧
        Catalog.renamed info r ∈ destination ∧
        v'.HasFiles conf files' ∧
        files' info.newFileKey =
          files.read conf task.input.fileKey
            r.fileSize.toNat := by
  rcases Option.map_eq_some_iff.mp hReply with
    ⟨⟨replies, store⟩, hRun, hOk⟩
  have hOk' : replies = [okReply] := hOk
  subst hOk'
  rcases Store.HasFiles.go_of_reply h hFuel hProper
    (by rw [hWork]; rfl) hRun with ⟨cat', writes, hEdit, hNext⟩
  rcases h.step hFuel hProper hStep with
    ⟨hAfter, hEdits, hFiles'⟩
  have hRename :
      (v.catalog conf).rename task.input info = some cat' := by
    simpa [Catalog.step, hWork, hInfo] using hEdit
  rw [Catalog.after, hEdit, Option.getD_some] at hAfter
  rw [Task.inputs, hNext] at hFiles' hEdits
  simp only [Task.outcome, Task.next, hWork, hInfo] at hNext
  have hShows := h.holds.shows_records info.fileParentKey
  rw [Store.HasFiles.records_eq h] at hShows
  rcases Catalog.of_renameNext hShows hNext with
    ⟨entries, i, r, hCat, hFind, hr, hMem⟩
  rcases Catalog.rename_lists hCat hFind hr hRename with
    ⟨⟨source, hSource, hCount⟩, destination, hDest, hNew⟩
  rcases Catalog.find_eq_some hFind with
    ⟨found, hFound, hName⟩
  rw [hr] at hFound
  cases hFound
  rw [← hAfter] at hSource hDest
  refine ⟨entries, r, source, destination, _, hCat,
    List.mem_of_getElem? hr, hName, hSource, hCount, hDest, hNew,
    hFiles', ?_⟩
  exact (files.write_of_mem hEdits.whole.nodup hMem).trans
    (by rw [hKey, Buffer.nil_overlay])

/-
  A renaming that is answered `OK` moves the file exactly
  when its name is listed once and the size that is recorded
  for it covers what is stored.
-/
theorem rename_moves_iff
    (conf : StorageConf)
    (formatTime : UInt64 → Bytes)
    (fuel : Nat)
    (v v' : Volume)
    (files : Files)
    (task : Task)
    (info : RenameInfo)
    (hFuel : 2 ≤ fuel)
    (hFiles : v.HasFiles conf files)
    (hWork : task.work = .metadata .renameSameproxy)
    (hInfo : RenameInfo.parse task.input.data = some info)
    (hProper : v.Proper conf task)
    (hKey : files info.newFileKey = [])
    (hReply :
      (v.store.runTask conf formatTime fuel task).map
        Prod.fst = some [okReply])
    (hStep : v.step conf formatTime fuel task = some v') :
    v.Moves conf task.input info v' ↔
      ((v.store.servers.listed conf
          info.fileParentKey).map FilemetaServer.name).count
        task.input.name = 1 ∧
      ∀ r ∈ v.store.servers.listed conf info.fileParentKey,
        r.name = task.input.name →
          Files.Recorded conf (files task.input.fileKey)
            r.fileSize.toNat := by
  rcases hFiles.rename hFuel hWork hInfo hProper hKey hReply
    hStep with
    ⟨entries, r, source, destination, files', hCat, hMem, hName,
      hSource, hCount, hDest, hNew, hFiles', hCopy⟩
  have hContent := Cluster.reads_copy_iff hFiles.contains
    hFiles'.contains hCopy
  rw [listed_of_catalog hCat]
  constructor
  · intro hMoves
    have hGone := hMoves.unlisted
    rw [listed_of_catalog hSource] at hGone
    have hOnce : (entries.map FilemetaServer.name).count
        task.input.name = 1 := by
      rw [hCount, List.count_eq_zero.mpr hGone]
    refine ⟨hOnce, ?_⟩
    intro other hOther hSame
    rw [← hName] at hOnce hSame
    rw [Catalog.eq_of_count_one hMem hOnce hOther hSame]
    exact hContent.mp hMoves.content
  · rintro ⟨hOnce, hRecorded⟩
    refine
      { unlisted := ?_
        listed := ?_
        content := hContent.mpr (hRecorded r hMem hName) }
    · rw [listed_of_catalog hSource]
      exact List.count_eq_zero.mp (by omega)
    · rw [listed_of_catalog hCat, listed_of_catalog hDest]
      refine ⟨r, hMem, hName, Catalog.renamed info r, hNew,
        Catalog.name_renamed info r, ?_⟩
      simp only [Catalog.renamed, and_self]

/- How much is stored under a key, seen from its first block. -/
theorem length_of_first_block
    (h : v.HasFiles conf files)
    {content : Option Bytes}
    (hContent :
      (v.store.servers.block conf ⟨uuid, 0⟩).content = content)
    (hShort : (content.getD []).length < conf.blocksize) :
    (files uuid).length = (content.getD []).length := by
  have hBlock := h.contains.content uuid 0
  rw [hContent] at hBlock
  cases content with
  | none =>
      by_contra hSome
      rw [Option.getD_none, List.length_nil] at hSome
      rw [Blocks.block_of_lt (by omega)] at hBlock
      cases hBlock
  | some block =>
      have hLength := Blocks.length_of_block hBlock.symm
      rw [Option.getD_some] at hShort ⊢
      omega

/- A file with one byte, whose size is recorded. -/
def oneByte : List Task :=
  [sampleTask (.metadata .init) "" [],
    sampleTask (.metadata .addfile) "a" [0, 1, 2, 3],
    sampleTask (.file .write) "a" [5]]

/- The renaming of the samples. -/
def sampleInfo : RenameInfo :=
  { newFileKey := sampleKey 9
    newFileName := nameField (Decimal.ascii "c")
    fileParentKey := sampleKey 7 }

theorem rename_moves_oneByte :
    ∃ v v',
      run (step standard (fun _ => []) 2)
          (start Store.empty) oneByte = some v ∧
        v.step standard (fun _ => []) 2
          (sampleRename 7 "a" "c") = some v' ∧
        v.Moves standard
          (sampleRename 7 "a" "c").input sampleInfo v' := by
  have hProper :
      Along (step standard (fun _ => []) 2)
        (Proper standard) (start Store.empty)
        (oneByte ++ [sampleRename 7 "a" "c"]) := by
    decide +kernel
  have hSeen :
      (run (step standard (fun _ => []) 2)
        (start Store.empty) oneByte).map (fun v =>
          ((v.store.runTask standard (fun _ => []) 2
              (sampleRename 7 "a" "c")).map Prod.fst,
            (v.store.servers.listed standard
              (sampleKey 7)).map
                (fun r => (r.name, r.fileSize)),
            [(v.store.servers.block standard
              ⟨sampleKey 8, 0⟩).content,
            (v.store.servers.block standard
              ⟨sampleKey 9, 0⟩).content])) =
        some (some [okReply], [(Decimal.ascii "a", 1)],
          [some [5], none]) := by
    decide +kernel
  rcases Option.map_eq_some_iff.mp hSeen with ⟨v, hRun, hView⟩
  simp only [Prod.mk.injEq, List.cons.injEq, and_true]
    at hView
  rcases hView with ⟨hReply, hListed, hOld, hNew⟩
  rcases (along_append hRun).mp hProper with
    ⟨hBefore, hLast⟩
  rcases hasFiles_of_run (Nat.le_refl 2) hRun hBefore with
    ⟨files, hFiles⟩
  rcases Option.map_eq_some_iff.mp hReply with
    ⟨⟨replies, store⟩, hTask, _⟩
  have hOldLength := length_of_first_block hFiles hOld (by decide)
  have hNewLength := length_of_first_block hFiles hNew (by decide)
  refine ⟨v, _, hRun, Option.map_eq_some_iff.mpr
    ⟨_, hTask, rfl⟩, ?_⟩
  refine (rename_moves_iff standard (fun _ => []) 2 v
    _ files (sampleRename 7 "a" "c") sampleInfo (Nat.le_refl 2)
    hFiles rfl (RenameInfo.parse_serialize _) hLast.1
    (List.length_eq_zero_iff.mp hNewLength) hReply
    (Option.map_eq_some_iff.mpr ⟨_, hTask, rfl⟩)).mpr ?_
  rcases List.map_eq_singleton_iff.mp hListed with
    ⟨r, hEntries, hr⟩
  rcases Prod.mk.inj hr with ⟨hName, hSize⟩
  rw [show sampleInfo.fileParentKey = sampleKey 7 from rfl,
    hEntries]
  refine ⟨?_, ?_⟩
  · rw [List.map_singleton, hName]
    decide
  · intro other hOther _
    rw [List.mem_singleton.mp hOther, hSize]
    exact Or.inl (Nat.le_of_eq hOldLength)

/-
  A file that was created with two bytes and then written
  with one: one is recorded, and the other one is lost.
-/
theorem renamed_file_cut_off :
    ∃ v v',
      run (step standard (fun _ => []) 2)
          (start Store.empty)
          [sampleTask (.metadata .init) "" [],
            sampleTask (.metadata .addfileWrite) "a"
              [0, 1, 2, 3, 5, 6],
            sampleTask (.file .write) "a" [9]] = some v ∧
        (v.store.runTask standard (fun _ => []) 2
          (sampleRename 7 "a" "c")).map Prod.fst =
            some [okReply] ∧
        v.step standard (fun _ => []) 2
          (sampleRename 7 "a" "c") = some v' ∧
        v.store.servers.readBytes standard
          (sampleKey 8) 1 1 = some [6] ∧
        v'.store.servers.readBytes standard
          (sampleKey 9) 1 1 = some [0] ∧
        ¬ v.Moves standard
          (sampleRename 7 "a" "c").input sampleInfo v' := by
  have hSeen :
      (run (step standard (fun _ => []) 2)
        (start Store.empty)
        [sampleTask (.metadata .init) "" [],
          sampleTask (.metadata .addfileWrite) "a"
            [0, 1, 2, 3, 5, 6],
          sampleTask (.file .write) "a" [9]]).map (fun v =>
          ((v.store.runTask standard (fun _ => []) 2
              (sampleRename 7 "a" "c")).map (fun result =>
                (result.1,
                  result.2.servers.readBytes
                    standard (sampleKey 9) 1 1)),
            v.store.servers.readBytes standard
              (sampleKey 8) 1 1)) =
        some (some ([okReply], some [0]), some [6]) := by
    decide +kernel
  rcases Option.map_eq_some_iff.mp hSeen with ⟨v, hRun, hView⟩
  rcases Prod.mk.inj hView with ⟨hAfter, hOld⟩
  rcases Option.map_eq_some_iff.mp hAfter with
    ⟨result, hTask, hResult⟩
  rcases Prod.mk.inj hResult with ⟨hReply, hNew⟩
  refine ⟨v, _, hRun, ?_, Option.map_eq_some_iff.mpr
    ⟨result, hTask, rfl⟩, hOld, hNew, ?_⟩
  · rw [hTask, Option.map_some, hReply]
  · intro hMoves
    have hRead := hMoves.content 1 1 [6] hOld
    exact absurd (hNew.symm.trans hRead) (by decide)

end Volume

end Slfs
