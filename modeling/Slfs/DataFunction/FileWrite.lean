import Slfs.DataFunction.DirectoryMap

/-
  Writing to a file of a directory and reading it back.

  A write request names a position, but the data is written
  to the start of the file. It is read back at the position
  only if the position is zero.

  Main declarations:
    * `Store.ReadAfterWrite`
    * `Store.read_after_write_iff_start`
-/

----------
-- Requests For A File
----------

namespace Slfs

open StorageConf (standard)

namespace Store

open Jsre

/- A file: its directory, its name there and its own key. -/
structure File where
  parent : Uuid
  fileName : FileName
  fileKey : Uuid
deriving DecidableEq, Repr

namespace File

def writeRequest (f : File) (position : UInt32) (data : Bytes) :
    Request :=
  { uuid := f.parent
    position := position
    size := UInt32.ofNat data.length
    fileName := f.fileName
    fileKey := f.fileKey
    data := data }

def readRequest (f : File) (position size : UInt32) :
    Request :=
  { uuid := f.parent
    position := position
    size := size
    fileName := f.fileName
    fileKey := f.fileKey
    data := [] }

end File

variable (conf : StorageConf)

/- The directory of a file is stored and lists its name. -/
def Listed (s : Store) (f : File) : Prop :=
  ∃ entries,
    s.servers.Stored conf f.parent entries ∧
      Directory.size entries.length < 2 ^ 32 ∧
      cstring f.fileName ∈ entries.map FilemetaServer.name

/-
  The data is read back at its position, and the other bytes
  of the file are as before.
-/
def ReadAfterWrite
    (fuel : Nat)
    (amb : Ambient)
    (schedule : Schedule)
    (f : File)
    (position : UInt32)
    (data : Bytes)
    (s s' : Store) :
    Prop :=
  s'.startPerform conf fuel amb schedule .read
      (f.readRequest position (UInt32.ofNat data.length)) =
      some ([data], s') ∧
    ∀ x, ¬ (position.toNat ≤ x ∧
        x < position.toNat + data.length) →
      s'.servers.byteAt conf f.fileKey x =
        s.servers.byteAt conf f.fileKey x

----------
-- What A Write Does
----------

open Coordinator (okReply)

variable {conf : StorageConf} {fuel : Nat} {s : Store}
variable {f : File}

/- The files of a directory are the names of its map. -/
theorem Refines.listed
    {m : DirectoryMap}
    (h : s.Refines conf f.parent m)
    (hSmall : m.keys.card < 2 ^ 20)
    (hName : cstring f.fileName ∈ m) :
    s.Listed conf f := by
  rcases h with ⟨_, entries, hStored, hMap⟩
  have hCard := hMap.card_keys
  exact ⟨entries, hStored, size_lt (by omega),
    (hMap.mem_iff _).mp hName⟩

variable {data : Bytes}

theorem payload_writeRequest
    (f : File)
    (position : UInt32)
    (hData : data.length < 2 ^ 32) :
    (f.writeRequest position data).payload = some data := by
  have hSize : (UInt32.ofNat data.length).toNat =
      data.length := by
    rw [UInt32.toNat_ofNat']
    exact Nat.mod_eq_of_lt hData
  unfold Request.payload File.writeRequest
  simp only [hSize]
  rw [if_neg (Nat.lt_irrefl _), List.take_length]

/-
  A write to a listed file is answered `OK`; its data is at
  the start of the file, whatever its position.
-/
theorem write_of_listed
    (hFuel : 2 ≤ fuel)
    (hPending : s.servers.NoPending conf)
    (hListed : s.Listed conf f)
    (hKey : f.fileKey ≠ f.parent)
    (amb : Ambient)
    (schedule : Schedule)
    (position : UInt32)
    (hData : data.length < 2 ^ 32) :
    ∃ s' content,
      s.startPerform conf fuel amb schedule .write
          (f.writeRequest position data) =
          some ([okReply], s') ∧
        Cluster.Wrote conf
          (Cluster.piecesOf conf
            [⟨f.parent, 0, content⟩, ⟨f.fileKey, 0, data⟩])
          s.servers s'.servers := by
  rcases hListed with ⟨entries, hStored, hSize, hName⟩
  rcases perform_of_stored hStored hSize hFuel schedule
    (DataFunction.startWrite conf amb
      (f.writeRequest position data)) (fun _ => rfl) with
    ⟨content, hHolds, hPerform⟩
  simp only [payload_writeRequest f position hData,
    hHolds.count] at hPerform
  cases hFind : Directory.find content entries.length
      (f.writeRequest position data).name with
  | none => exact absurd hName (hHolds.find_eq_none.mp hFind)
  | some i =>
      rcases hHolds.find_eq_some hFind with ⟨r, hr, _⟩
      have hLt : i < entries.length :=
        (List.getElem?_eq_some_iff.mp hr).1
      simp only [hFind] at hPerform
      rcases commit_stored schedule .multiInputs
        [⟨f.fileKey, 0, data⟩] hPending
        (by simpa using Ne.symm hKey)
        (Directory.exactly_replace hHolds hSize hLt
          (DataFunction.writtenEntry conf amb
            (f.writeRequest position data)
            (Directory.entry content i))) with
        ⟨s', hRun, hWrote, _, _⟩
      exact ⟨s', _, hPerform.trans hRun, hWrote⟩

/- The bytes of a file after a write to it. -/
theorem byteAt_of_write
    {content : Bytes}
    {c c' : Cluster}
    (hKey : f.fileKey ≠ f.parent)
    (hData : data.length < 2 ^ 32)
    (hWrote : Cluster.Wrote conf
      (Cluster.piecesOf conf
        [⟨f.parent, 0, content⟩, ⟨f.fileKey, 0, data⟩]) c c')
    (x : Nat) :
    c'.byteAt conf f.fileKey x =
      if x < data.length then Buffer.nth data x
      else c.byteAt conf f.fileKey x := by
  have hByte := hWrote.byteAt
    (show (⟨f.fileKey, 0, data⟩ : Input) ∈
      [⟨f.parent, 0, content⟩, ⟨f.fileKey, 0, data⟩] by simp)
    (by simp only; omega) (by simpa using Ne.symm hKey) x
  simpa using hByte

----------
-- Reading Back
----------

/- A write to the start of a file is read back. -/
theorem readAfterWrite_start
    {content : Bytes}
    {s' : Store}
    (hKey : f.fileKey ≠ f.parent)
    (hData : data.length < 2 ^ 32)
    (hWrote : Cluster.Wrote conf
      (Cluster.piecesOf conf
        [⟨f.parent, 0, content⟩, ⟨f.fileKey, 0, data⟩])
      s.servers s'.servers)
    (amb : Ambient)
    (schedule : Schedule) :
    ReadAfterWrite conf fuel amb schedule f 0 data s s' := by
  have hSize : (UInt32.ofNat data.length).toNat =
      data.length := by
    rw [UInt32.toNat_ofNat']
    exact Nat.mod_eq_of_lt hData
  constructor
  · have hRead := hWrote.readBytes_self
      (show (⟨f.fileKey, 0, data⟩ : Input) ∈
        [⟨f.parent, 0, content⟩, ⟨f.fileKey, 0, data⟩] by simp)
      (by simp only; omega) (by simpa using Ne.symm hKey)
    unfold startPerform File.readRequest
    simp only [hSize]
    rw [show (0 : UInt32).toNat = 0 from rfl, hRead]
    rfl
  · intro x hx
    have hOut : ¬ x < data.length := by
      intro hLt
      exact hx ⟨Nat.zero_le x, by
        rw [show (0 : UInt32).toNat = 0 from rfl]; omega⟩
    rw [byteAt_of_write hKey hData hWrote, if_neg hOut]

/-
  For a listed file, data written at a position is read back
  there with the rest of the file unchanged, for all data,
  exactly when the position is the start of the file.
-/
theorem read_after_write_iff_start
    (conf : StorageConf)
    (fuel : Nat)
    (s : Store)
    (f : File)
    (position : UInt32)
    (hFuel : 2 ≤ fuel)
    (hPending : s.servers.NoPending conf)
    (hListed : s.Listed conf f)
    (hKey : f.fileKey ≠ f.parent)
    (hPosition : position.toNat + 1 < 2 ^ 32) :
    (∀ amb schedule data s', data ≠ [] →
        position.toNat + data.length < 2 ^ 32 →
        s.startPerform conf fuel amb schedule .write
            (f.writeRequest position data) =
          some ([okReply], s') →
        ReadAfterWrite conf fuel amb schedule f position data
          s s') ↔
      position = 0 := by
  constructor
  · intro h
    by_contra hNonzero
    have hPos : 0 < position.toNat := by
      rw [Nat.pos_iff_ne_zero]
      intro hZero
      exact hNonzero (UInt32.toNat_inj.mp hZero)
    -- one byte that differs from the first byte of the file
    have hOther : ∃ byte : UInt8,
        byte ≠ s.servers.byteAt conf f.fileKey 0 := by
      by_cases hOld : s.servers.byteAt conf f.fileKey 0 = 0
      · exact ⟨1, by rw [hOld]; decide⟩
      · exact ⟨0, fun hEq => hOld hEq.symm⟩
    rcases hOther with ⟨byte, hByte⟩
    let amb : Ambient := ⟨0, Vector.replicate 60 0,
      Vector.replicate 2 0, Vector.replicate 6 0⟩
    rcases write_of_listed hFuel hPending hListed hKey amb
      (Schedule.inOrder 0) position
      (show [byte].length < 2 ^ 32 by simp) with
      ⟨s', content, hRun, hWrote⟩
    have hRaw := h amb (Schedule.inOrder 0) [byte] s'
      (List.cons_ne_nil _ _) (by simpa using hPosition) hRun
    have hFirst := byteAt_of_write hKey
      (show [byte].length < 2 ^ 32 by simp) hWrote 0
    rw [hRaw.2 0 (by omega)] at hFirst
    exact hByte hFirst.symm
  · intro hZero amb schedule data s' _ hRange hRun
    subst hZero
    have hData : data.length < 2 ^ 32 := by omega
    rcases write_of_listed hFuel hPending hListed hKey amb
      schedule 0 hData with
      ⟨s'', content, hRun', hWrote⟩
    rw [hRun'] at hRun
    have hSame : s'' = s' :=
      congrArg Prod.snd (Option.some.inj hRun)
    subst hSame
    exact readAfterWrite_start hKey hData hWrote amb schedule

/- A file in the directory of a short session. -/
def sessionFile : File :=
  { parent := Vector.replicate 32 7
    fileName := nameField (Decimal.ascii "a")
    fileKey := Vector.replicate 32 8 }

/- The store after the file has been made. -/
theorem exists_sessionFile
    (conf : StorageConf) :
    ∃ s,
      Store.empty.runCalls conf (fun _ => []) 2
          [sessionCall .init "" [],
            sessionCall .addfile "a" [0, 1, 2, 3]] =
          some ([[okReply], [okReply]], s) ∧
        s.servers.NoPending conf ∧ s.Listed conf sessionFile := by
  have hOn : (sessionCall .addfile "a" [0, 1, 2, 3]).On
      sessionFile.parent := ⟨rfl, Nat.le_refl 4⟩
  have hPending : Store.empty.servers.NoPending conf :=
    Cluster.noPending_empty conf
  rcases refines_init hPending
    (sessionCall .init "" []).amb
    (sessionCall .init "" []).schedule
    (sessionCall .init "" []).input with
    ⟨s₁, hInit, hEmpty⟩
  rcases Refines.runCalls (fun _ => []) (Nat.le_refl 2)
    (fun call hCall => by
      rw [List.mem_singleton.mp hCall]
      exact hOn) hEmpty
    (fun before after hEq => by
      have hCard := card_mapAfter_le ∅ before
      have hLength := congrArg List.length hEq
      rw [List.length_append, List.length_singleton] at hLength
      rw [Finmap.keys_empty, Finset.card_empty] at hCard
      omega) with
    ⟨s₂, hRun, hRefines⟩
  refine ⟨s₂, ?_, hRefines.1, hRefines.listed ?_ ?_⟩
  · have hCall :
        Store.empty.startPerformMetadata conf (fun _ => []) 2
            (sessionCall .init "" []).amb
            (sessionCall .init "" []).schedule
            (sessionCall .init "" []).op.toMeta
            (sessionCall .init "" []).input =
          some ([okReply], s₁) := hInit
    rw [runCalls, hCall]
    simp only [Option.bind_eq_bind, Option.bind_some, hRun]
    rfl
  · decide
  · decide

theorem read_after_write_at_start :
    ∃ s,
      Store.empty.runCalls standard (fun _ => []) 2
          [sessionCall .init "" [],
            sessionCall .addfile "a" [0, 1, 2, 3]] =
          some ([[okReply], [okReply]], s) ∧
        ∀ amb schedule data s', data ≠ [] →
          (0 : UInt32).toNat + data.length < 2 ^ 32 →
          s.startPerform standard 2 amb schedule
              .write (sessionFile.writeRequest 0 data) =
            some ([okReply], s') →
          ReadAfterWrite standard 2 amb schedule
            sessionFile 0 data s s' := by
  rcases exists_sessionFile standard with
    ⟨s, hRun, hPending, hListed⟩
  exact ⟨s, hRun,
    (read_after_write_iff_start standard 2 s
      sessionFile 0 (Nat.le_refl 2) hPending hListed (by decide)
      (by decide)).mpr rfl⟩

set_option maxRecDepth 20000 in
/-
  One byte written at position one of a new file is found at
  position zero.
-/
theorem write_at_one_lands_at_zero :
    ∃ s s',
      (Store.empty.runCalls standard (fun _ => []) 2
          [sessionCall .init "" [],
            sessionCall .addfile "a" [0, 1, 2, 3]]).map
              Prod.snd = some s ∧
        s.startPerform standard 2
            (sessionCall .init "" []).amb
            (Schedule.inOrder 3) .write
            (sessionFile.writeRequest 1 [9]) =
          some ([okReply], s') ∧
        s'.startPerform standard 2
            (sessionCall .init "" []).amb
            (Schedule.inOrder 3) .read
            (sessionFile.readRequest 1 1) = some ([[0]], s') ∧
        s.servers.byteAt standard sessionFile.fileKey 0 = 0 ∧
        s'.servers.byteAt standard
            sessionFile.fileKey 0 = 9 := by
  refine ⟨_, _, rfl, rfl, rfl, rfl, rfl⟩

end Store

end Slfs
