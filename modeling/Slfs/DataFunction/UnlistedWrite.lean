import Slfs.DataFunction.FileWrite

/-
  Writing to a name that is not in the directory.

  The loop over the entries is followed by the commit whether
  it has found the name or not: the directory is written back
  as it was, the data is written, and the answer is `OK`.

  Main declarations:
    * `Store.RefusesWrite`
    * `Store.unlisted_write_refused_iff`
-/

----------
-- Refused Writes
----------

namespace Slfs

open StorageConf (standard)

open Jsre

/-
  What a key is the directory of: nothing, if a read finds
  less than one record, or some entries.
-/
def Cluster.DirectoryIs
    (conf : StorageConf)
    (c : Cluster)
    (uuid : Uuid) :
    Option (List FilemetaServer) → Prop
| none =>
    ∃ content,
      c.readBytes conf uuid 0 DataFunction.readsize =
          some content ∧
        content.length < recordSize
| some entries =>
    c.Stored conf uuid entries ∧
      Directory.size entries.length < 2 ^ 32

namespace Store

/-
  A write is answered with an error, and the blocks of the
  directory and of the file are what they were.
-/
def RefusesWrite
    (conf : StorageConf)
    (fuel : Nat)
    (amb : Ambient)
    (schedule : Schedule)
    (input : Jsre.Request)
    (s : Store) : Prop :=
  ∃ reply s',
    s.startPerform conf fuel amb schedule .write input =
        some ([reply], s') ∧
      Decimal.ascii "Error" <+: reply ∧
      ∀ k : BlockKey,
        k.uuid = input.uuid ∨ k.uuid = input.fileKey →
          (s'.servers.block conf k).content =
            (s.servers.block conf k).content

end Store

----------
-- What Happens To A Write
----------

namespace Store

open Coordinator (okReply)

variable {conf : StorageConf} {fuel : Nat} {s : Store}
variable {input : Jsre.Request}

/-
  A write to a name that is not listed is answered `OK`, and
  its data is under the key of the file.
-/
theorem write_of_unlisted
    (hFuel : 2 ≤ fuel)
    (hPending : s.servers.NoPending conf)
    {entries : List FilemetaServer}
    (hDirectory :
      s.servers.DirectoryIs conf input.uuid (some entries))
    (hName :
      input.name ∉ entries.map FilemetaServer.name)
    (hKey : input.fileKey ≠ input.uuid)
    {payload : Bytes}
    (hPayload : input.payload = some payload)
    (amb : Ambient)
    (schedule : Schedule) :
    ∃ s' content,
      s.startPerform conf fuel amb schedule .write input =
          some ([okReply], s') ∧
        Cluster.Wrote conf
          (Cluster.piecesOf conf
            [⟨input.uuid, 0, content⟩,
              ⟨input.fileKey, 0, payload⟩])
          s.servers s'.servers := by
  rcases hDirectory with ⟨hStored, hSize⟩
  rcases perform_of_stored hStored hSize hFuel schedule
    (DataFunction.startWrite conf amb input)
    (fun _ => rfl) with
    ⟨content, hHolds, hPerform⟩
  have hFind := hHolds.find_eq_none.mpr hName
  simp only [hPayload, hHolds.count, hFind] at hPerform
  rcases commit_stored schedule .multiInputs
    [⟨input.fileKey, 0, payload⟩] hPending
    (by simpa using Ne.symm hKey)
    (Directory.exactly_resize hHolds hSize) with
    ⟨s', hRun, hWrote, _, _⟩
  exact ⟨s', _, hPerform.trans hRun, hWrote⟩

/- Without a directory a write is refused. -/
theorem refusesWrite_of_no_directory
    (hFuel : 1 ≤ fuel)
    (hDirectory : s.servers.DirectoryIs conf input.uuid none)
    (amb : Ambient)
    (schedule : Schedule) :
    s.RefusesWrite conf fuel amb schedule input := by
  rcases hDirectory with ⟨content, hRead, hShort⟩
  have hNext :
      DataFunction.startWrite conf amb input content =
        .noSuchDirectory := if_pos hShort
  rcases Nat.exists_eq_add_of_le' hFuel with ⟨n, hn⟩
  refine ⟨DataFunction.noSuchDirectory,
    s.setChecked [input.uuid] false, ?_, by decide,
    fun _ _ => rfl⟩
  rw [startPerform, perform, hn, Cluster.fetch, hRead]
  simp only [hNext]
  rfl

/-
  A write to a name that the directory does not list is
  refused exactly when there is no directory.
-/
theorem unlisted_write_refused_iff
    (hFuel : 2 ≤ fuel)
    (hPending : s.servers.NoPending conf)
    {directory : Option (List FilemetaServer)}
    (hDirectory :
      s.servers.DirectoryIs conf input.uuid directory)
    (hName :
      ∀ entries ∈ directory,
        input.name ∉ entries.map FilemetaServer.name)
    (hKey : input.fileKey ≠ input.uuid)
    (hPayload : input.payload.isSome)
    (amb : Ambient)
    (schedule : Schedule) :
    s.RefusesWrite conf fuel amb schedule input ↔
      directory = none := by
  cases directory with
  | none =>
      have hRefused :=
        refusesWrite_of_no_directory
          (by omega : 1 ≤ fuel) hDirectory amb schedule
      exact ⟨fun _ => rfl, fun _ => hRefused⟩
  | some entries =>
      rcases Option.isSome_iff_exists.mp hPayload with
        ⟨payload, hSome⟩
      rcases write_of_unlisted hFuel hPending hDirectory
        (hName entries rfl) hKey hSome amb schedule with
        ⟨s', content, hRun, _⟩
      constructor
      · rintro ⟨reply, s'', hRun', hError, _⟩
        rw [hRun] at hRun'
        cases hRun'
        exact absurd hError (by decide)
      · intro hNone
        cases hNone

/- A write where nothing is stored. -/
theorem unlisted_write_refused_of_empty :
    Store.empty.RefusesWrite standard 2
      (sessionCall .init "" []).amb (Schedule.inOrder 3)
      (sessionFile.writeRequest 0 [9]) :=
  (unlisted_write_refused_iff (Nat.le_refl 2)
    (Cluster.noPending_empty _)
    (show Store.empty.servers.DirectoryIs standard
      sessionFile.parent none from ⟨[], rfl, by decide⟩)
    (by simp) (by decide) (by decide) _ _).mpr rfl

set_option maxRecDepth 20000 in
/-
  A write of one byte to a name of an empty directory: the
  answer is `OK`, and the file has a block with the byte.
-/
theorem unlisted_write_stored :
    ∃ s s',
      (Store.empty.runCalls standard (fun _ => []) 2
          [sessionCall .init "" []]).map Prod.snd = some s ∧
        s.servers.listed standard sessionFile.parent = [] ∧
        (s.servers.block standard
          ⟨sessionFile.fileKey, 0⟩).content = none ∧
        s.startPerform standard 2
            (sessionCall .init "" []).amb
            (Schedule.inOrder 3) .write
            (sessionFile.writeRequest 0 [9]) =
          some ([okReply], s') ∧
        (s'.servers.block standard
          ⟨sessionFile.fileKey, 0⟩).content = some [9] := by
  refine ⟨_, _, rfl, rfl, rfl, rfl, rfl⟩

end Store

end Slfs
