import Slfs.DataFunction.UniqueNames

/-
  The size that a directory records for a file.

  A file that is made with data is recorded with size zero,
  and a write records where its last block ends, counted from
  the start of that block, in 16 bits.

  Main declarations:
    * `Ledger.Measured`
    * `Ledger.recorded_sizes_iff`
-/

----------
-- The Size That A Write Records
----------

namespace Slfs

open Transition
open StorageConf (standard)

open Jsre

/-
  A write whose last block is counted in full: it starts at a
  block or reaches into another one.
-/
def StorageConf.Aligned
    (conf : StorageConf)
    (position size : Nat) :
    Prop :=
  position / conf.blocksize =
      (position + size - 1) / conf.blocksize →
    position % conf.blocksize = 0

namespace DataFunction

variable {conf : StorageConf} {position size : Nat}

/- The end of a write, less its offset in a single block. -/
theorem newFileSize_eq
    (conf : StorageConf)
    (hSize : 0 < size)
    (hRange : position + size < 2 ^ 32) :
    newFileSize conf position size +
        (if position / conf.blocksize =
            (position + size - 1) / conf.blocksize then
          position % conf.blocksize else 0) =
      position + size := by
  rcases Chunks.getLast?_chunks conf.blocksize_pos
    (show position < position + size by omega) with
    ⟨c, hLast, hEnds⟩
  have hReach := hEnds.reach
  unfold newFileSize
  rw [Nat.mod_eq_of_lt hRange, hLast, ← hEnds.offset]
  simp only
  rw [Nat.mod_eq_of_lt (by omega)]
  omega

theorem newFileSize_le
    (hSize : 0 < size)
    (hRange : position + size < 2 ^ 32) :
    newFileSize conf position size ≤ position + size := by
  have hEq := newFileSize_eq conf hSize hRange
  omega

theorem newFileSize_eq_iff
    (hSize : 0 < size)
    (hRange : position + size < 2 ^ 32) :
    newFileSize conf position size = position + size ↔
      conf.Aligned position size := by
  have hEq := newFileSize_eq conf hSize hRange
  unfold StorageConf.Aligned
  by_cases hBlock : position / conf.blocksize =
      (position + size - 1) / conf.blocksize
  · rw [if_pos hBlock] at hEq
    constructor
    · intro hSame _
      omega
    · intro hAligned
      have hZero := hAligned hBlock
      omega
  · rw [if_neg hBlock] at hEq
    constructor
    · intro _ hSame
      exact absurd hSame hBlock
    · intro _
      omega

/- When the recorded size is the length after a write. -/
theorem fileSize_writtenEntry_iff
    {amb : Ambient}
    {input : Jsre.Request}
    {r : FilemetaServer}
    (hSize : 0 < input.size.toNat)
    (hRange :
      input.position.toNat + input.size.toNat < 2 ^ 32) :
    (writtenEntry conf amb input r).fileSize.toNat =
        max r.fileSize.toNat
          (input.position.toNat + input.size.toNat) ↔
      input.position.toNat + input.size.toNat ≤
          r.fileSize.toNat ∨
        (input.position.toNat + input.size.toNat < 2 ^ 16 ∧
          conf.Aligned input.position.toNat
            input.size.toNat) := by
  have hLe : newFileSize conf input.position.toNat
      input.size.toNat ≤ _ := newFileSize_le hSize hRange
  have hOld := r.fileSize.toNat_lt
  rw [← newFileSize_eq_iff hSize hRange]
  unfold writtenEntry
  simp only
  by_cases hLarger : r.fileSize.toNat <
      newFileSize conf input.position.toNat input.size.toNat
  · rw [if_pos hLarger, UInt16.toNat_ofNat']
    omega
  · rw [if_neg hLarger]
    omega

end DataFunction

----------
-- Lengths Of Files
----------

/- The length of each file, by its directory and name. -/
abbrev Lengths := Uuid → Bytes → Nat

namespace Lengths

/- A file gets a length. -/
def set
    (l : Lengths)
    (uuid : Uuid)
    (name : Bytes)
    (n : Nat) :
    Lengths :=
  Function.update l uuid (Function.update (l uuid) name n)

/-
  The lengths after an accepted request: a new file has the
  length of its data, a write may reach further, and a renamed
  file keeps its length.
-/
def after (l : Lengths) (task : Task) : Lengths :=
  let input := task.input
  match task.work with
  | .metadata op =>
      match op with
      | .addfile | .mkdir => l.set input.uuid input.name 0
      | .addfileWrite =>
          l.set input.uuid input.name (input.size.toNat - 4)
      | .renameSameproxy =>
          match RenameInfo.parse input.data with
          | none => l
          | some info =>
              l.set input.uuid (cstring info.newFileName)
                (l info.fileParentKey input.name)
      | .init | .deletefile | .ls | .open | .close => l
      | .getstatfile | .getstatdir | .lock | .unlock => l
  | .file .write =>
      l.set input.uuid input.name
        (max (l input.uuid input.name)
          (input.position.toNat + input.size.toNat))
  | .file .read => l

/- The entries of a catalog record the lengths. -/
def Recorded (l : Lengths) (cat : Catalog) : Prop :=
  ∀ uuid entries, cat uuid = some entries →
    ∀ r ∈ entries, r.fileSize.toNat = l uuid r.name

/-
  Requests after which the recorded sizes are the lengths: a
  file is made without data, and a write to a file does not
  reach further than before, or its end fits into 16 bits and
  is counted in full.
-/
def MeasuredAmong
    (conf : StorageConf)
    (l : Lengths)
    (task : Task)
    (entries : List FilemetaServer) :
    Prop :=
  let input := task.input
  match task.work with
  | .metadata .addfileWrite =>
      input.name ∉ entries.map FilemetaServer.name →
        input.size.toNat ≤ 4
  | .file .write =>
      input.name ∈ entries.map FilemetaServer.name →
        input.position.toNat + input.size.toNat ≤
            l input.uuid input.name ∨
          (input.position.toNat + input.size.toNat < 2 ^ 16 ∧
            conf.Aligned input.position.toNat
              input.size.toNat)
  | _ => True

instance decidableMeasuredAmong
    (conf : StorageConf)
    (l : Lengths)
    (task : Task)
    (entries : List FilemetaServer) :
    Decidable (l.MeasuredAmong conf task entries) := by
  rcases task with ⟨work, input, amb, schedule⟩
  unfold MeasuredAmong StorageConf.Aligned
  cases work with
  | metadata op | file op => cases op <;> infer_instance

def Measured
    (conf : StorageConf)
    (l : Lengths)
    (cat : Catalog)
    (task : Task) :
    Prop :=
  ∀ entries ∈ cat task.input.uuid,
    l.MeasuredAmong conf task entries

/- Writes of some data that ends below four gigabytes. -/
def Writes (task : Task) : Prop :=
  task.work = .file .write →
    0 < task.input.size.toNat ∧
      task.input.position.toNat + task.input.size.toNat <
        2 ^ 32

instance decidableWrites
    (task : Task) :
    Decidable (Writes task) := by
  unfold Writes
  infer_instance

end Lengths

----------
-- Recorded Lengths
----------

namespace Lengths

variable {conf : StorageConf} {l : Lengths}
variable {cat cat' : Catalog} {uuid : Uuid}
variable {entries : List FilemetaServer}

theorem set_same
    (l : Lengths)
    (uuid : Uuid)
    (name : Bytes)
    (n : Nat) :
    l.set uuid name n uuid name = n := by
  simp [set]

variable {n i : Nat} {r : FilemetaServer}
variable {input : Jsre.Request} {task : Task}

theorem set_of_ne
    {name other : Bytes}
    {key : Uuid}
    (h : key = uuid → other ≠ name) :
    l.set uuid name n key other = l key other := by
  unfold set
  by_cases hKey : key = uuid
  · subst hKey
    rw [Function.update_self, Function.update_of_ne (h rfl)]
  · rw [Function.update_of_ne hKey]

section

variable (h : l.Recorded cat)
include h

/-
  A directory with new entries. Exactly one of them has the
  name that gets a new length.
-/
theorem Recorded.update_iff
    {found : List FilemetaServer}
    (hCat : cat uuid = some entries)
    (hMem : r ∈ found)
    (hOthers : ∀ a ∈ found,
      a = r ∨ (a ∈ entries ∧ a.name ≠ r.name)) :
    (l.set uuid r.name n).Recorded
        (Function.update cat uuid (some found)) ↔
      r.fileSize.toNat = n := by
  constructor
  · intro hRecorded
    have hEntry := hRecorded uuid found
      (Function.update_self _ _ _) r hMem
    rwa [set_same] at hEntry
  · intro hSize key es hEs a ha
    by_cases hKey : key = uuid
    · subst hKey
      rw [Function.update_self] at hEs
      cases hEs
      rcases hOthers a ha with hSame | ⟨hOld, hName⟩
      · subst hSame
        rw [set_same]
        exact hSize
      · rw [set_of_ne (fun _ => hName)]
        exact h key entries hCat a hOld
    · rw [Function.update_of_ne hKey] at hEs
      rw [set_of_ne (fun hEq => absurd hEq hKey)]
      exact h key es hEs a ha

/- A directory that loses entries. -/
theorem Recorded.shrink
    {found : List FilemetaServer}
    (hFound : ∀ a ∈ found, ∃ es,
      cat uuid = some es ∧ a ∈ es) :
    l.Recorded (Function.update cat uuid (some found)) := by
  intro key es hEs a ha
  by_cases hKey : key = uuid
  · subst hKey
    rw [Function.update_self] at hEs
    cases hEs
    rcases hFound a ha with ⟨old, hCat, hOld⟩
    exact h key old hCat a hOld
  · rw [Function.update_of_ne hKey] at hEs
    exact h key es hEs a ha

theorem Recorded.emptied
    (uuid : Uuid) :
    l.Recorded (Function.update cat uuid (some [])) := by
  apply h.shrink
  intro a ha
  cases ha

/- An entry is taken out of a directory. -/
theorem Recorded.swapRemove
    (hCat : cat uuid = some entries)
    (hr : entries[i]? = some r) :
    l.Recorded (Function.update cat uuid
      (some (Table.swapRemove entries i))) := by
  apply h.shrink
  intro a ha
  refine ⟨entries, hCat, ?_⟩
  rw [(Table.perm_swapRemove hr).mem_iff]
  exact List.mem_cons_of_mem _ ha

/- A new entry, with the length of its file. -/
theorem Recorded.add_iff
    (hAdd : cat.add uuid r = some cat')
    (n : Nat) :
    (l.set uuid r.name n).Recorded cat' ↔
      r.fileSize.toNat = n := by
  rcases Catalog.add_eq_some hAdd with
    ⟨entries, hCat, hNew, hEq⟩
  rw [hEq]
  refine h.update_iff hCat (by simp) ?_
  intro a ha
  rcases List.mem_append.mp ha with hOld | hLast
  · right
    refine ⟨hOld, ?_⟩
    intro hName
    exact hNew (List.mem_map.mpr ⟨a, hOld, hName⟩)
  · exact Or.inl (List.mem_singleton.mp hLast)

/- An entry in the place of another one. -/
theorem Recorded.set_iff
    (hCat : cat uuid = some entries)
    {r' : FilemetaServer}
    (hr : entries[i]? = some r)
    (hNames : ∀ j a, j ≠ i → entries[j]? = some a →
      a.name ≠ r'.name)
    (n : Nat) :
    (l.set uuid r'.name n).Recorded
        (Function.update cat uuid
          (some (entries.set i r'))) ↔
      r'.fileSize.toNat = n := by
  refine h.update_iff hCat ?_ ?_
  · exact List.mem_set (List.getElem?_eq_some_iff.mp hr).1 r'
  · intro a ha
    rcases Table.mem_set ha with hSame | ⟨j, hj, hOld⟩
    · exact Or.inl hSame
    · exact Or.inr ⟨List.mem_of_getElem? hOld,
        hNames j a hj hOld⟩

/- A renamed file keeps its length. -/
theorem Recorded.rename
    {info : RenameInfo}
    (hApart : info.fileParentKey = input.uuid →
      cstring info.newFileName ≠ input.name →
      ∀ entries ∈ cat info.fileParentKey,
        input.name ∈ entries.map FilemetaServer.name →
          cstring info.newFileName ∉
            entries.map FilemetaServer.name)
    (hRename : cat.rename input info = some cat') :
    (l.set input.uuid (cstring info.newFileName)
      (l info.fileParentKey input.name)).Recorded cat' := by
  rcases Catalog.rename_eq_some hRename with
    ⟨entries, i, r, hCat, hr, hName, hEdit⟩
  have hKeeps : (Catalog.renamed info r).fileSize =
      r.fileSize := by
    unfold Catalog.renamed
    rfl
  have hSize : (Catalog.renamed info r).fileSize.toNat =
      l info.fileParentKey input.name := by
    rw [hKeeps, ← hName]
    exact h _ entries hCat r (List.mem_of_getElem? hr)
  rw [← Catalog.name_renamed info r]
  rcases hEdit with ⟨hDir, hNew, hEq⟩ | ⟨_, hAdd⟩
  · rw [hEq, ← hDir]
    refine (h.set_iff hCat hr ?_ _).mpr hSize
    intro j a _ ha hSame
    rw [Catalog.name_renamed] at hSame
    refine hApart hDir hNew entries hCat ?_ ?_
    · exact List.mem_map.mpr
        ⟨r, List.mem_of_getElem? hr, hName⟩
    · exact List.mem_map.mpr
        ⟨a, List.mem_of_getElem? ha, hSame⟩
  · exact ((h.swapRemove hCat hr).add_iff hAdd _).mpr hSize

/- A write records the length if it is measured. -/
theorem Recorded.write_iff
    (hUnique : cat.Unique)
    {amb : Ambient}
    (hSize : 0 < input.size.toNat)
    (hRange :
      input.position.toNat + input.size.toNat < 2 ^ 32)
    (hWrite : Catalog.write conf amb cat input = some cat') :
    (l.set input.uuid input.name
        (max (l input.uuid input.name)
          (input.position.toNat +
            input.size.toNat))).Recorded cat' ↔
      ∀ entries ∈ cat input.uuid,
        input.name ∈ entries.map FilemetaServer.name →
          input.position.toNat + input.size.toNat ≤
              l input.uuid input.name ∨
            (input.position.toNat + input.size.toNat < 2 ^ 16 ∧
              conf.Aligned input.position.toNat
                input.size.toNat) := by
  rcases Catalog.write_eq_some hWrite with
    ⟨entries, hCat, ⟨hMissing, hEq⟩ | ⟨i, r, hr, hName, hEq⟩⟩
  · rw [hEq]
    refine iff_of_true ?_ ?_
    · intro key es hEs a ha
      rw [set_of_ne]
      · exact h key es hEs a ha
      · intro hKey hSame
        rw [hKey, hCat] at hEs
        cases hEs
        exact hMissing (List.mem_map.mpr ⟨a, ha, hSame⟩)
    · intro found hFound hListed
      rw [Option.mem_def, hCat] at hFound
      cases hFound
      exact absurd hListed hMissing
  · have hOld : r.fileSize.toNat = l input.uuid input.name := by
      rw [← hName]
      exact h _ entries hCat r (List.mem_of_getElem? hr)
    have hKeeps : (DataFunction.writtenEntry conf amb input
        r).name = input.name := hName
    have hListed :
        input.name ∈ entries.map FilemetaServer.name :=
      List.mem_map.mpr ⟨r, List.mem_of_getElem? hr, hName⟩
    have hNames : ∀ j a, j ≠ i → entries[j]? = some a →
        a.name ≠ (DataFunction.writtenEntry conf amb input
          r).name := by
      intro j a hj ha hSame
      rw [hKeeps, ← hName] at hSame
      exact hj (Table.index_eq_of_key
        (hUnique _ entries hCat) hr ha hSame)
    have hExact := h.set_iff hCat hr hNames
      (max (l input.uuid input.name)
        (input.position.toNat + input.size.toNat))
    rw [hKeeps] at hExact
    rw [hEq, hExact, ← hOld,
      DataFunction.fileSize_writtenEntry_iff hSize hRange]
    constructor
    · intro hFits found _ _
      exact hFits
    · intro hMeasured
      exact hMeasured entries hCat hListed

/- A file that is made with data is recorded without it. -/
theorem Recorded.addfileWrite_iff
    (hAdd : cat.add task.input.uuid task.entry = some cat') :
    (l.set task.input.uuid task.input.name
        (task.input.size.toNat - 4)).Recorded cat' ↔
      ∀ entries ∈ cat task.input.uuid,
        task.input.name ∉ entries.map FilemetaServer.name →
          task.input.size.toNat ≤ 4 := by
  have hZero : task.entry.fileSize.toNat = 0 := rfl
  have hExact := h.add_iff hAdd (task.input.size.toNat - 4)
  rcases Catalog.add_eq_some hAdd with
    ⟨entries, hCat, hNew, _⟩
  rw [task.name_entry] at hExact hNew
  rw [hExact, hZero]
  constructor
  · intro hSize _ _ _
    omega
  · intro hMeasured
    have hSize := hMeasured entries hCat hNew
    omega

end

/- A request that is refused is not measured. -/
theorem measured_of_refused
    (hStep : cat.step conf task = none) :
    l.Measured conf cat task := by
  intro entries hCat
  rw [Option.mem_def] at hCat
  simp only [MeasuredAmong]
  split
  · rename_i hWork
    intro hNew
    rw [← task.name_entry] at hNew
    simp only [Catalog.step, hWork, Catalog.add, hCat,
      Option.bind_eq_bind, Option.bind_some, if_neg hNew]
      at hStep
    cases hStep
  · rename_i hWork
    intro hListed
    cases hFind : Catalog.find entries task.input.name with
    | none =>
        exact absurd hListed (Catalog.find_eq_none.mp hFind)
    | some i =>
        rcases Catalog.find_eq_some hFind with ⟨r, hr, _⟩
        simp [Catalog.step, hWork, Catalog.write, hCat, hFind,
          hr] at hStep
  · trivial

/-
  After a request the recorded sizes are the lengths exactly
  when the request is measured.
-/
theorem recorded_after_iff
    (h : l.Recorded cat)
    (hUnique : cat.Unique)
    (hApart : cat.RenamesApart task)
    (hWrites : Writes task) :
    (if (cat.step conf task).isSome then l.after task
        else l).Recorded (cat.after conf task) ↔
      l.Measured conf cat task := by
  unfold Catalog.after
  cases hStep : cat.step conf task with
  | none => exact iff_of_true h (measured_of_refused hStep)
  | some cat' =>
      simp only [Option.isSome_some, if_true, Option.getD_some]
      cases hWork : task.work with
      | metadata op =>
          simp only [Catalog.step, hWork] at hStep
          simp only [after, Measured, MeasuredAmong, hWork]
          cases op with
          | init =>
              cases hStep
              simpa using h.emptied _
          | addfile =>
              have hExact := h.add_iff hStep 0
              rw [task.name_entry] at hExact
              simpa using hExact.mpr rfl
          | mkdir =>
              rcases Option.map_eq_some_iff.mp hStep with
                ⟨mid, hAdd, hEq⟩
              have hExact := h.add_iff hAdd 0
              rw [task.name_entry] at hExact
              rw [← hEq]
              simpa using (hExact.mpr rfl).emptied _
          | addfileWrite => exact h.addfileWrite_iff hStep
          | deletefile =>
              rcases Catalog.remove_eq_some hStep with
                ⟨entries, i, r, hCat, hr, _, hEq⟩
              rw [hEq]
              simpa using h.swapRemove hCat hr
          | renameSameproxy =>
              rcases Option.bind_eq_some_iff.mp hStep with
                ⟨info, hInfo, hRename⟩
              have hFree := hApart hWork info hInfo
              simp only [hInfo]
              simpa using h.rename hFree hRename
          | ls | «open» | close | getstatfile
          | getstatdir | lock | unlock =>
              cases hStep
              simpa using h
      | file op =>
          simp only [Catalog.step, hWork] at hStep
          simp only [after, Measured, MeasuredAmong, hWork]
          cases op with
          | read =>
              cases hStep
              simpa using h
          | write =>
              rcases hWrites hWork with ⟨hSize, hRange⟩
              exact h.write_iff hUnique hSize hRange hStep

end Lengths

----------
-- Runs
----------

/- A volume, and the lengths of its files. -/
structure Ledger where
  volume : Volume
  lengths : Lengths

namespace Ledger

open Coordinator (okReply)

variable (conf : StorageConf)
variable (formatTime : UInt64 → Bytes) (fuel : Nat)

def start (s : Store) : Ledger :=
  { volume := Volume.start s, lengths := fun _ _ => 0 }

/- The request is answered `OK`. -/
def accepts (g : Ledger) (task : Task) : Bool :=
  (g.volume.store.runTask conf formatTime fuel task).map
    Prod.fst = some [okReply]

/- Run a request, and note what it writes if it is accepted. -/
def step (g : Ledger) (task : Task) : Option Ledger :=
  (g.volume.step conf formatTime fuel task).map
    (fun volume =>
      { volume := volume
        lengths :=
          if g.accepts conf formatTime fuel task then
            g.lengths.after task
          else g.lengths })

/- Every entry records the length of its file. -/
def RecordedSizes (g : Ledger) : Prop :=
  ∀ uuid ∈ g.volume.directories,
    ∀ r ∈ g.volume.store.servers.listed conf uuid,
      r.fileSize.toNat = g.lengths uuid r.name

instance decidableRecordedSizes
    (g : Ledger) :
    Decidable (g.RecordedSizes conf) := by
  unfold RecordedSizes
  infer_instance

def Measured (g : Ledger) (task : Task) : Prop :=
  g.lengths.Measured conf (g.volume.catalog conf) task

instance decidableMeasured
    (g : Ledger)
    (task : Task) :
    Decidable (g.Measured conf task) := by
  unfold Measured Lengths.Measured
  infer_instance

/-
  Requests that the store follows, that keep names unique,
  and that write some data below four gigabytes.
-/
def Proper (g : Ledger) (task : Task) : Prop :=
  g.volume.Proper conf task ∧
    g.volume.RenamesApart conf task ∧
    Lengths.Writes task

instance decidableProper
    (g : Ledger)
    (task : Task) :
    Decidable (g.Proper conf task) := by
  unfold Proper
  infer_instance

variable {conf : StorageConf}
variable {formatTime : UInt64 → Bytes} {fuel : Nat}

theorem recordedSizes_iff
    (g : Ledger) :
    g.RecordedSizes conf ↔
      g.lengths.Recorded (g.volume.catalog conf) := by
  constructor
  · intro h uuid entries hCat r hr
    unfold Volume.catalog at hCat
    by_cases hMem : uuid ∈ g.volume.directories
    · rw [if_pos hMem] at hCat
      cases hCat
      exact h uuid hMem r hr
    · rw [if_neg hMem] at hCat
      cases hCat
  · intro h uuid hMem r hr
    refine h uuid _ ?_ r hr
    unfold Volume.catalog
    rw [if_pos hMem]

variable {task : Task}

/- Requests that only look leave the lengths alone. -/
theorem after_of_look
    (l : Lengths)
    (hWork : task.work.edits = false) :
    l.after task = l := by
  unfold Lengths.after
  cases hTask : task.work with
  | metadata op =>
      rw [hTask] at hWork
      cases op with
      | init | addfile | mkdir | deletefile => cases hWork
      | renameSameproxy | addfileWrite => cases hWork
      | ls | «open» | close | getstatfile => rfl
      | getstatdir | lock | unlock => rfl
  | file op =>
      rw [hTask] at hWork
      cases op with
      | write => cases hWork
      | read => rfl

/- The lengths after a request that the store follows. -/
theorem lengths_of_step
    {g g' : Ledger}
    (hSound : g.volume.Sound conf)
    (hFuel : 2 ≤ fuel)
    (hProper : g.volume.Proper conf task)
    (hStep : g.step conf formatTime fuel task = some g') :
    g'.lengths =
      if ((g.volume.catalog conf).step conf task).isSome then
        g.lengths.after task
      else g.lengths := by
  rcases Option.map_eq_some_iff.mp hStep with
    ⟨volume, hVolume, hEq⟩
  rcases Option.map_eq_some_iff.mp hVolume with
    ⟨⟨replies, store⟩, hRun, _⟩
  subst hEq
  simp only
  cases hWork : task.work.edits with
  | false => simp only [after_of_look g.lengths hWork, ite_self]
  | true =>
      have hReply :=
        (hSound.edit hFuel hProper hWork hRun).reply
      have hAccepts :
          g.accepts conf formatTime fuel task = true ↔
            ((g.volume.catalog conf).step conf task).isSome =
              true := by
        rw [← hReply]
        simp [accepts, hRun]
      simp only [hAccepts]

/-
  Requests are run one after another on directories that they
  make. The recorded sizes are the lengths of the files in all
  states exactly when every request is measured.
-/
theorem recorded_sizes_iff
    (conf : StorageConf)
    (formatTime : UInt64 → Bytes)
    (fuel : Nat)
    (s : Store)
    (tasks : List Task)
    (g' : Ledger)
    (hFuel : 2 ≤ fuel)
    (hPending : s.servers.NoPending conf)
    (hRun :
      run (step conf formatTime fuel) (start s)
        tasks = some g')
    (hProper :
      Along (step conf formatTime fuel)
        (Proper conf) (start s) tasks) :
    Always (step conf formatTime fuel)
        (RecordedSizes conf) (start s) tasks ↔
      Along (step conf formatTime fuel)
        (Measured conf) (start s) tasks := by
  apply always_iff_along_within
    (W := Proper conf)
    (J := fun g => g.volume.Sound conf ∧
      (g.volume.catalog conf).Unique)
  · rintro g task next ⟨hSound, hUnique⟩ ⟨hTask, hApart, _⟩
      hStep
    rcases Option.map_eq_some_iff.mp hStep with
      ⟨volume, hVolume, hEq⟩
    subst hEq
    rcases Volume.catalog_of_step hSound hFuel hTask hVolume with
      ⟨hNext, hCat⟩
    refine ⟨hNext, ?_⟩
    rw [hCat]
    exact (Catalog.unique_after_iff hUnique conf task).mpr
      hApart
  · rintro g task next ⟨hSound, hUnique⟩ hRecorded
      ⟨hTask, hApart, hWrites⟩ hStep
    have hLengths := lengths_of_step hSound hFuel hTask hStep
    rcases Option.map_eq_some_iff.mp hStep with
      ⟨volume, hVolume, hEq⟩
    have hCat : next.volume.catalog conf =
        (g.volume.catalog conf).after conf task := by
      rw [← hEq]
      exact (Volume.catalog_of_step hSound hFuel hTask
        hVolume).2
    rw [recordedSizes_iff] at hRecorded ⊢
    rw [hCat, hLengths]
    exact Lengths.recorded_after_iff hRecorded hUnique hApart
      hWrites
  · refine ⟨Volume.sound_start hPending, ?_⟩
    intro uuid entries hCat
    simp [start, Volume.start, Volume.catalog] at hCat
  · intro uuid hMem
    cases hMem
  · exact hRun
  · exact hProper

/- A write to the file `a` of a sample volume. -/
def sampleWrite (position : UInt32) (data : Bytes) : Task :=
  let task := Volume.sampleTask (.file .write) "a" data
  { task with input := { task.input with position := position } }

/- Two bytes at the start of a file. -/
theorem recorded_sizes_iff_atStart :
    ∃ g',
      run (step standard (fun _ => []) 2)
          (start Store.empty)
          (Volume.oneFile ++ [sampleWrite 0 [1, 2]]) =
          some g' ∧
        Always (step standard (fun _ => []) 2)
          (RecordedSizes standard)
          (start Store.empty)
          (Volume.oneFile ++ [sampleWrite 0 [1, 2]]) := by
  have hEnds :
      (run (step standard (fun _ => []) 2)
        (start Store.empty)
        (Volume.oneFile ++ [sampleWrite 0 [1, 2]])).isSome =
          true := by
    decide +kernel
  rcases Option.isSome_iff_exists.mp hEnds with ⟨g', hRun⟩
  refine ⟨g', hRun, ?_⟩
  refine (recorded_sizes_iff standard (fun _ => [])
    2 Store.empty _ g' (Nat.le_refl 2)
    (Cluster.noPending_empty standard) hRun ?_).mpr
    ?_
  · decide +kernel
  · decide +kernel

/-
  What the directory records after some requests, and the
  length of the file `a`.
-/
def sampleSizes (tasks : List Task) :
    Option (List UInt16 × Nat) :=
  (run (step standard (fun _ => []) 2)
    (start Store.empty) tasks).map
    (fun g =>
      ((g.volume.store.servers.listed standard
          (Volume.sampleKey 7)).map FilemetaServer.fileSize,
        g.lengths (Volume.sampleKey 7) (Decimal.ascii "a")))

/-
  A file made with one byte, two bytes inside a block, and one
  byte behind the first 64 kilobytes.
-/
theorem recorded_size_differs :
    sampleSizes
        [Volume.sampleTask (.metadata .init) "" [],
          Volume.sampleTask (.metadata .addfileWrite) "a"
            [0, 1, 2, 3, 9]] = some ([0], 1) ∧
      sampleSizes
        (Volume.oneFile ++ [sampleWrite 5 [1, 2]]) =
          some ([2], 7) ∧
      sampleSizes
        (Volume.oneFile ++ [sampleWrite 65536 [1]]) =
          some ([1], 65537) := by
  decide +kernel

end Ledger

end Slfs
