import Slfs.DataFunction.Catalog

/-
  Handlers as edits of a catalog.

  A handler does with the bytes that were read what the
  catalog says: it refuses the request with an error, or goes
  on with inputs that turn the catalog into the next one.

  Main declarations:
    * `Task.next`, the handler of a request
    * `Catalog.follows_renameNext`
-/

----------
-- Inputs Of A Commit
----------

namespace Slfs

open Jsre

/- Inputs for different keys, each from the start on. -/
structure Input.Whole (inputs : List Input) : Prop where
  nodup : (inputs.map Input.uuid).Nodup
  position : ∀ input ∈ inputs, input.position = 0
  length_lt : ∀ input ∈ inputs, input.data.length < 2 ^ 32

namespace Input

theorem whole_nil :
    Whole [] where
  nodup := List.nodup_nil
  position := by simp
  length_lt := by simp

theorem Whole.cons
    {inputs : List Input}
    (h : Whole inputs)
    {uuid : Uuid}
    {data : Bytes}
    (hUuid : uuid ∉ inputs.map Input.uuid)
    (hLength : data.length < 2 ^ 32) :
    Whole (⟨uuid, 0, data⟩ :: inputs) where
  nodup := List.nodup_cons.mpr ⟨hUuid, h.nodup⟩
  position := by
    intro input hInput
    rcases List.mem_cons.mp hInput with hHead | hTail
    · rw [hHead]
    · exact h.position input hTail
  length_lt := by
    intro input hInput
    rcases List.mem_cons.mp hInput with hHead | hTail
    · rw [hHead]
      exact hLength
    · exact h.length_lt input hTail

end Input

/- One more entry can still be read. -/
def Catalog.Room (cat : Catalog) (uuid : Uuid) : Prop :=
  ∀ entries ∈ cat uuid,
    Directory.size (entries.length + 1) < 2 ^ 32

/-
  The inputs of a commit turn one catalog into another: they
  write a directory or leave it alone.
-/
def Catalog.Edited
    (inputs : List Input)
    (cat cat' : Catalog) :
    Prop :=
  ∀ uuid entries, cat' uuid = some entries →
    (∃ content, ⟨uuid, 0, content⟩ ∈ inputs ∧
      Directory.Exactly content entries) ∨
    (uuid ∉ inputs.map Input.uuid ∧ cat uuid = some entries)

/- Whole inputs that turn one catalog into another. -/
structure Catalog.Edits
    (inputs : List Input)
    (cat cat' : Catalog) :
    Prop where
  whole : Input.Whole inputs
  edited : Catalog.Edited inputs cat cat'

namespace Catalog

variable {inputs : List Input} {cat cat' : Catalog}

theorem edits_nil :
    Edits [] cat cat where
  whole := Input.whole_nil
  edited := by
    intro uuid entries hEntries
    exact Or.inr ⟨List.not_mem_nil, hEntries⟩

variable {uuid : Uuid}

/- One more directory is written. -/
theorem Edits.directory
    (h : Edits inputs cat cat')
    (hUuid : uuid ∉ inputs.map Input.uuid)
    {content : Bytes}
    {entries : List FilemetaServer}
    (hContent : Directory.Exactly content entries) :
    Edits (⟨uuid, 0, content⟩ :: inputs) cat
      (Function.update cat' uuid (some entries)) where
  whole := by
    refine h.whole.cons hUuid ?_
    rw [hContent.length]
    exact hContent.size
  edited := by
    intro other found hFound
    by_cases hOther : other = uuid
    · subst hOther
      rw [Function.update_self] at hFound
      cases hFound
      exact Or.inl ⟨content, List.mem_cons_self, hContent⟩
    · rw [Function.update_of_ne hOther] at hFound
      rcases h.edited other found hFound with
        ⟨bytes, hMem, hBytes⟩ | ⟨hNot, hSame⟩
      · exact Or.inl
          ⟨bytes, List.mem_cons_of_mem _ hMem, hBytes⟩
      · exact Or.inr ⟨by simp_all, hSame⟩

/- One more file is written that is not a directory. -/
theorem Edits.file
    (h : Edits inputs cat cat')
    (hUuid : uuid ∉ inputs.map Input.uuid)
    {data : Bytes}
    (hLength : data.length < 2 ^ 32)
    (hFile : cat' uuid = none) :
    Edits (⟨uuid, 0, data⟩ :: inputs) cat cat' where
  whole := h.whole.cons hUuid hLength
  edited := by
    intro other found hFound
    have hOther : other ≠ uuid := by
      intro hEq
      rw [hEq, hFile] at hFound
      cases hFound
    rcases h.edited other found hFound with
      ⟨bytes, hMem, hBytes⟩ | ⟨hNot, hSame⟩
    · exact Or.inl
        ⟨bytes, List.mem_cons_of_mem _ hMem, hBytes⟩
    · exact Or.inr ⟨by simp_all, hSame⟩

end Catalog

----------
-- Handlers That Follow An Edit
----------

open Coordinator (literal okReply)
open DataFunction

/- Bytes that were read of a directory, or of none. -/
def Directory.Shows (content : Bytes) :
    Option (List FilemetaServer) → Prop
| none => content.length < recordSize
| some entries => Directory.Holds content entries

namespace Catalog

/-
  A handler refuses the request and the edit is refused, or
  it goes on with inputs that make the edit.
-/
def Follows (cat : Catalog) (edit : Option Catalog) :
    Next Writes → Prop
| .noSuchDirectory => edit = none
| .reread _ => True
| .act (.reply buf) => edit = none ∧ buf ≠ okReply
| .act .undefined => True
| .act (.go writes) =>
    ∃ cat', edit = some cat' ∧ Edits writes.2 cat cat' ∧
      ∃ input ∈ writes.2, 0 < input.data.length

variable {cat cat' : Catalog} {edit : Option Catalog}
variable {uuid : Uuid} {content : Bytes}

/- Going on with the content of a directory. -/
theorem follows_go
    {kind : PrepareKind}
    {others : List Input}
    (hOthers : Edits others cat cat')
    (hUuid : uuid ∉ others.map Input.uuid)
    {entries : List FilemetaServer}
    (hContent : Directory.Exactly content entries)
    (hEdit :
      edit = some (Function.update cat' uuid
        (some entries))) :
    cat.Follows edit
      (.act (.go (kind, ⟨uuid, 0, content⟩ :: others))) := by
  refine ⟨_, hEdit, hOthers.directory hUuid hContent, _,
    List.mem_cons_self, ?_⟩
  simp only [hContent.length, Directory.size_eq]
  omega

variable {body : Stats → Action Writes}

/- Every handler first looks whether there is a directory. -/
theorem follows_withDirectory
    (hShows : Directory.Shows content (cat uuid))
    (hNone : cat uuid = none → edit = none)
    (hSome : ∀ entries,
      cat uuid = some entries →
      Directory.Holds content entries →
        cat.Follows edit
          (.act (body (Directory.stats content)))) :
    cat.Follows edit (withDirectory content body) := by
  cases hCat : cat uuid with
  | none =>
      rw [hCat] at hShows
      have hShort : content.length < recordSize := hShows
      unfold withDirectory
      rw [if_pos hShort]
      exact hNone hCat
  | some entries =>
      rw [hCat] at hShows
      have hHolds : Directory.Holds content entries := hShows
      rw [Cluster.withDirectory_of_holds hHolds]
      exact hSome entries hCat hHolds

/-
  A handler that adds an entry if its name is new, with other
  writes in the same commit.
-/
theorem follows_add
    (r : FilemetaServer)
    (kind : PrepareKind)
    (hShows : Directory.Shows content (cat uuid))
    (hRoom : cat.Room uuid)
    {error : Bytes}
    (hError : error ≠ okReply)
    {others : List Input}
    (hOthers : Edits others cat cat')
    (hUuid : cat uuid ≠ none → uuid ∉ others.map Input.uuid)
    (hBody : ∀ stat,
      body stat = .undefined ∨
        body stat =
          match Directory.find content stat.fileCount.toNat
              r.name with
          | some _ => .reply error
          | none =>
              .go (kind,
                ⟨uuid, 0, Directory.append content stat r⟩ ::
                  others))
    (hRefuse : cat.add uuid r = none → edit = none)
    (hEdit : ∀ entries,
      cat.add uuid r =
          some (Function.update cat uuid
            (some (entries ++ [r]))) →
        edit = some (Function.update cat' uuid
          (some (entries ++ [r])))) :
    cat.Follows edit (withDirectory content body) := by
  refine follows_withDirectory hShows ?_ ?_
  · intro hCat
    exact hRefuse (by simp [add, hCat])
  · intro entries hCat hHolds
    rcases hBody (Directory.stats content) with hNone | hFound
    · rw [hNone]
      trivial
    rw [hFound, hHolds.count]
    cases hFind : Directory.find content entries.length
        r.name with
    | some i =>
        rcases hHolds.find_eq_some hFind with ⟨r', hr', hName⟩
        have hMem : r.name ∈ entries.map FilemetaServer.name :=
          List.mem_map.mpr
            ⟨r', List.mem_of_getElem? hr', hName⟩
        refine ⟨hRefuse ?_, hError⟩
        simp only [add, hCat, Option.bind_eq_bind,
          Option.bind_some, if_pos hMem]
    | none =>
        have hNew := hHolds.find_eq_none.mp hFind
        refine follows_go hOthers (hUuid (by simp [hCat]))
          (Directory.exactly_append hHolds
            (hRoom entries hCat) r) (hEdit entries ?_)
        simp only [add, hCat, Option.bind_eq_bind,
          Option.bind_some, if_neg hNew]

end Catalog

----------
-- Requests On One Directory
----------

/- All directories can be read. -/
def Catalog.Small (cat : Catalog) : Prop :=
  ∀ uuid entries, cat uuid = some entries →
    Directory.size entries.length < 2 ^ 32

/- A body is as long as the request says. -/
theorem Jsre.Request.length_payload
    {input : Jsre.Request}
    {payload : Bytes}
    (h : input.payload = some payload) :
    payload.length = input.size.toNat := by
  unfold Jsre.Request.payload at h
  by_cases hShort : input.data.length < input.size.toNat
  · rw [if_pos hShort] at h
    cases h
  · rw [if_neg hShort] at h
    cases h
    rw [List.length_take]
    omega

namespace Catalog

variable {conf : StorageConf} {cat : Catalog}
variable {task : Task} {content : Bytes}

theorem follows_init
    (cat : Catalog)
    (task : Task) :
    cat.Follows
      (some (Function.update cat task.input.uuid (some [])))
      (.act (.go (startMetaInit task.amb task.input))) :=
  follows_go edits_nil (by simp)
    (Directory.exactly_emptyStats task.amb) rfl

section

variable (hShows :
  Directory.Shows content (cat task.input.uuid))
include hShows

theorem follows_addfile
    (hRoom : cat.Room task.input.uuid) :
    cat.Follows (cat.add task.input.uuid task.entry)
      (startMetaAddFile task.amb task.input content) := by
  have hError :
      literal "Error: File already exists" ≠ okReply := by
    decide
  refine follows_add task.entry .single hShows hRoom hError
    edits_nil (by simp) ?_ (fun hNone => hNone)
    (fun _ hAdd => hAdd)
  intro stat
  rw [task.name_entry]
  unfold Task.entry
  cases Filemeta.parse task.input.data with
  | none => exact Or.inl rfl
  | some m => exact Or.inr rfl

/- Also a new directory, which may have been one before. -/
theorem follows_mkdir
    (hRoom : cat.Room task.input.uuid)
    (hKey : task.input.fileKey ≠ task.input.uuid) :
    cat.Follows
      ((cat.add task.input.uuid task.entry).map
        (fun cat =>
          Function.update cat task.input.fileKey (some [])))
      (startMetaMkdir task.amb task.input content) := by
  have hError :
      literal "Error: Directory already exists" ≠ okReply := by
    decide
  have hMade :
      Edits
        [⟨task.input.fileKey, 0,
          (emptyStats task.amb).serialize⟩] cat
        (Function.update cat task.input.fileKey (some [])) :=
    edits_nil.directory (by simp)
      (Directory.exactly_emptyStats task.amb)
  refine follows_add task.entry .multiInputs hShows hRoom
    hError hMade (fun _ => by simpa using hKey.symm) ?_ ?_ ?_
  · intro stat
    rw [task.name_entry]
    unfold Task.entry
    cases Directory.find content stat.fileCount.toNat
        task.input.name with
    | some i => exact Or.inr rfl
    | none =>
        cases Filemeta.parse task.input.data with
        | none => exact Or.inl rfl
        | some m => exact Or.inr rfl
  · intro hNone
    rw [hNone, Option.map_none]
  · intro entries hAdd
    rw [hAdd, Option.map_some, Function.update_comm hKey.symm]

theorem follows_addfileWrite
    (hRoom : cat.Room task.input.uuid)
    (hKey : cat task.input.fileKey = none) :
    cat.Follows (cat.add task.input.uuid task.entry)
      (startCreateAndWriteFileSingleRequest task.amb task.input
        content) := by
  have hError :
      literal "Error: File already exists" ≠ okReply := by
    decide
  have hSize := task.input.size.toNat_lt
  have hLength :
      (task.input.payload.getD []).length < 2 ^ 32 := by
    cases hPayload : task.input.payload with
    | none => simp
    | some payload =>
        rw [Option.getD_some,
          Jsre.Request.length_payload hPayload]
        exact hSize
  have hFile :
      Edits
        [⟨task.input.fileKey, 0,
          (task.input.payload.getD []).drop 4⟩] cat cat :=
    edits_nil.file (by simp)
      (by simp only [List.length_drop]; omega) hKey
  refine follows_add task.entry .multiInputs hShows hRoom
    hError hFile ?_ ?_ (fun hNone => hNone)
    (fun _ hAdd => hAdd)
  · intro hSome hMem
    have hEq : task.input.uuid = task.input.fileKey := by
      simpa using hMem
    exact hSome (hEq ▸ hKey)
  · intro stat
    rw [task.name_entry]
    unfold Task.entry
    cases Filemeta.parse task.input.data with
    | none => exact Or.inl rfl
    | some m =>
        cases Directory.find content stat.fileCount.toNat
            task.input.name with
        | some i => exact Or.inr rfl
        | none =>
            cases task.input.payload with
            | none => exact Or.inl rfl
            | some payload =>
                by_cases hShort : payload.length < 4
                · exact Or.inl (if_pos hShort)
                · exact Or.inr (if_neg hShort)

theorem follows_deletefile
    (hSmall : cat.Small) :
    cat.Follows (cat.remove task.input.uuid task.input.name)
      (startMetaDeleteFile task.input content) := by
  refine follows_withDirectory hShows ?_ ?_
  · intro hCat
    simp [remove, hCat]
  · intro entries hCat hHolds
    have hFind := hHolds.find_eq task.input.name
    rw [hHolds.count, hFind]
    cases hPlace : entries.findIdx?
        (fun r => r.name = task.input.name) with
    | none =>
        exact ⟨by simp [remove, find, hCat, hPlace], by decide⟩
    | some i =>
        rw [hPlace] at hFind
        rcases hHolds.find_eq_some hFind with ⟨r, hr, _⟩
        refine follows_go edits_nil (by simp)
          (Directory.exactly_remove hHolds
            (hSmall _ _ hCat)
            (List.getElem?_eq_some_iff.mp hr).1) ?_
        simp [remove, find, hCat, hPlace]

/- The directory is written back in any case. -/
theorem follows_write
    (hSmall : cat.Small)
    (hKey : cat task.input.fileKey = none) :
    cat.Follows (write conf task.amb cat task.input)
      (startWrite conf task.amb task.input content) := by
  refine follows_withDirectory hShows ?_ ?_
  · intro hCat
    simp [write, hCat]
  · intro entries hCat hHolds
    have hFind := hHolds.find_eq task.input.name
    have hSize := hSmall _ _ hCat
    have hNe : task.input.uuid ≠ task.input.fileKey := by
      intro hEq
      rw [← hEq, hCat] at hKey
      cases hKey
    rw [hHolds.count, hFind]
    cases hPayload : task.input.payload with
    | none => trivial
    | some payload =>
        have hLength := Jsre.Request.length_payload hPayload
        have hBound := task.input.size.toNat_lt
        have hFile :
            Edits [⟨task.input.fileKey, 0, payload⟩] cat cat :=
          edits_nil.file (by simp) (by omega) hKey
        cases hPlace : entries.findIdx?
            (fun r => r.name = task.input.name) with
        | none =>
            -- the entries are written back as they are
            have hSame : Function.update cat task.input.uuid
                (some entries) = cat := by
              rw [← hCat, Function.update_eq_self]
            refine follows_go hFile (by simpa using hNe)
              (Directory.exactly_resize hHolds hSize) ?_
            rw [hSame]
            simp [write, find, hCat, hPlace]
        | some i =>
            rw [hPlace] at hFind
            rcases hHolds.find_eq_some hFind with ⟨r, hr, _⟩
            have hLt := (List.getElem?_eq_some_iff.mp hr).1
            simp only [hHolds.entry i r hr]
            refine follows_go hFile (by simpa using hNe)
              (Directory.exactly_replace hHolds hSize hLt
                (writtenEntry conf task.amb task.input r)) ?_
            simp [write, find, hCat, hPlace, hr]

end

end Catalog

----------
-- Renaming
----------

namespace DataFunction

/-
  The parts of a renaming put together: the bytes that were
  read of the source, of the destination, and of the file.
-/
def renameNext
    (input : Jsre.Request)
    (info : RenameInfo)
    (source destination : Bytes)
    (read : UInt16 → Bytes) :
    Next Writes :=
  match startMetaRenameFile input info source with
  | .noSuchDirectory => .noSuchDirectory
  | .reread size => .reread size
  | .act (.reply buf) => .act (.reply buf)
  | .act .undefined => .act .undefined
  | .act (.go (content, r)) =>
      let buf := read r.fileSize
      if sameParentDir input info then
        .act (.go (.multiInputs,
          [⟨info.fileParentKey, 0, content⟩,
            ⟨info.newFileKey, 0, buf⟩]))
      else
        match startMetaRenamePart2 info r destination with
        | .noSuchDirectory =>
            .act (.reply
              RenameSubOperation.directoryNotFound.text)
        | .act (.go (.error e)) => .act (.reply e.text)
        | .act (.go (.ok content')) =>
            .act (.go (.multiInputs,
              [⟨info.fileParentKey, 0, content⟩,
                ⟨input.uuid, 0, content'⟩,
                ⟨info.newFileKey, 0, buf⟩]))
        | _ => .act .undefined

end DataFunction

namespace Catalog

variable {cat : Catalog} {input : Jsre.Request}
variable {info : RenameInfo}
variable {source destination : Bytes}
variable {read : UInt16 → Bytes}

/- The destination takes the entry or refuses it. -/
theorem follows_renamePart2
    (hApart : info.fileParentKey ≠ input.uuid)
    (hKey : cat info.newFileKey = none)
    {entries : List FilemetaServer}
    (hCat : cat info.fileParentKey = some entries)
    {i : Nat}
    {content buf : Bytes}
    (hContent : Directory.Exactly content
      (Table.swapRemove entries i))
    (hBuf : buf.length < 2 ^ 32)
    (hShows :
      Directory.Shows destination (cat input.uuid))
    (hRoom : cat.Room input.uuid)
    {r : FilemetaServer}
    (hName : r.name = cstring info.newFileName) :
    cat.Follows
      (add (Function.update cat info.fileParentKey
        (some (Table.swapRemove entries i))) input.uuid r)
      (match startMetaRenamePart2 info r destination with
      | .noSuchDirectory =>
          .act (.reply
            RenameSubOperation.directoryNotFound.text)
      | .act (.go (.error e)) => .act (.reply e.text)
      | .act (.go (.ok content')) =>
          .act (.go (.multiInputs,
            [⟨info.fileParentKey, 0, content⟩,
              ⟨input.uuid, 0, content'⟩,
              ⟨info.newFileKey, 0, buf⟩]))
      | _ => .act .undefined) := by
  have hNe : info.fileParentKey ≠ info.newFileKey := by
    intro hEq
    rw [← hEq, hCat] at hKey
    cases hKey
  unfold startMetaRenamePart2 add
  rw [Function.update_of_ne hApart.symm, hName]
  cases hDest : cat input.uuid with
  | none =>
      rw [hDest] at hShows
      have hShort : destination.length < recordSize := hShows
      unfold withDirectory
      rw [if_pos hShort]
      exact ⟨rfl, by decide⟩
  | some others =>
      rw [hDest] at hShows
      have hHolds : Directory.Holds destination others := hShows
      have hNe' : input.uuid ≠ info.newFileKey := by
        intro hEq
        rw [← hEq, hDest] at hKey
        cases hKey
      rw [Cluster.withDirectory_of_holds hHolds, hHolds.count]
      simp only [Option.bind_eq_bind, Option.bind_some]
      cases hFind : Directory.find destination others.length
          (cstring info.newFileName) with
      | some j =>
          rcases hHolds.find_eq_some hFind with ⟨r', hr', hName⟩
          have hMem : cstring info.newFileName ∈
              others.map FilemetaServer.name :=
            List.mem_map.mpr
              ⟨r', List.mem_of_getElem? hr', hName⟩
          rw [if_pos hMem]
          exact ⟨rfl, by decide⟩
      | none =>
          rw [if_neg (hHolds.find_eq_none.mp hFind)]
          have hFile :
              Edits [⟨info.newFileKey, 0, buf⟩] cat cat :=
            edits_nil.file (by simp) hBuf hKey
          refine follows_go
            (hFile.directory (by simpa using hNe')
              (Directory.exactly_append hHolds
                (hRoom others hDest) r))
            (by simpa using ⟨hApart, hNe⟩) hContent ?_
          rw [Function.update_comm hApart]

/- A renaming, in one directory or between two. -/
theorem follows_renameNext
    (hSource :
      Directory.Shows source (cat info.fileParentKey))
    (hDest : Directory.Shows destination (cat input.uuid))
    (hSmall : cat.Small)
    (hRoom : cat.Room input.uuid)
    (hKey : cat info.newFileKey = none)
    (hRead : ∀ size, (read size).length < 2 ^ 32) :
    cat.Follows (cat.rename input info)
      (renameNext input info source destination read) := by
  unfold renameNext startMetaRenameFile
  cases hCat : cat info.fileParentKey with
  | none =>
      rw [hCat] at hSource
      have hShort : source.length < recordSize := hSource
      unfold withDirectory
      rw [if_pos hShort]
      show cat.rename input info = none
      simp [rename, hCat]
  | some entries =>
      rw [hCat] at hSource
      have hHolds : Directory.Holds source entries := hSource
      have hSize := hSmall _ _ hCat
      have hFind := hHolds.find_eq input.name
      rw [Cluster.withDirectory_of_holds hHolds, hHolds.count,
        hFind]
      simp only [rename, find, hCat, Option.bind_eq_bind,
        Option.bind_some]
      cases hPlace :
          entries.findIdx? (fun r => r.name = input.name) with
      | none => exact ⟨rfl, by decide⟩
      | some i =>
          rw [hPlace] at hFind
          rcases hHolds.find_eq_some hFind with ⟨r, hr, _⟩
          have hLt := (List.getElem?_eq_some_iff.mp hr).1
          simp only [hHolds.entry i r hr, hr, Option.bind_some]
          by_cases hDir : sameParentDir input info = true
          · simp only [if_pos hDir]
            by_cases hName :
                cstring info.newFileName = input.name
            · simp only [if_pos hName]
              exact ⟨rfl, by decide⟩
            · simp only [if_neg hName]
              have hNe : info.fileParentKey ≠
                  info.newFileKey := by
                intro hEq
                rw [← hEq, hCat] at hKey
                cases hKey
              exact follows_go
                (edits_nil.file (by simp) (hRead _) hKey)
                (by simpa using hNe)
                (Directory.exactly_replace hHolds hSize hLt _)
                rfl
          · simp only [if_neg hDir]
            exact follows_renamePart2
              (by simpa [sameParentDir] using hDir) hKey hCat
              (Directory.exactly_remove hHolds hSize hLt)
              (hRead _) hDest hRoom
              (cstring_nameField_cstring _)

end Catalog

----------
-- All Requests
----------

/-
  What the handler of a request does, with the bytes of its
  directories and of the file that a renaming copies.
  Requests that only look go on with nothing.
-/
def Task.next
    (conf : StorageConf)
    (records : Uuid → Bytes)
    (read : Uuid → UInt16 → Bytes)
    (task : Task) :
    Next Writes :=
  let input := task.input
  let content := records input.uuid
  match task.work with
  | .metadata op =>
      match op with
      | .init => .act (.go (startMetaInit task.amb input))
      | .addfile => startMetaAddFile task.amb input content
      | .mkdir => startMetaMkdir task.amb input content
      | .deletefile => startMetaDeleteFile input content
      | .addfileWrite =>
          startCreateAndWriteFileSingleRequest task.amb input
            content
      | .renameSameproxy =>
          match RenameInfo.parse input.data with
          | none => .act .undefined
          | some info =>
              renameNext input info (records info.fileParentKey)
                content (read input.fileKey)
      | .ls | .open | .close | .getstatfile => .act .undefined
      | .getstatdir | .lock | .unlock => .act .undefined
  | .file .write => startWrite conf task.amb input content
  | .file .read => .act .undefined

/-
  The requests that a catalog follows: directories have room,
  and file data does not go to a directory.
-/
def Task.Allowed (cat : Catalog) (task : Task) : Prop :=
  let input := task.input
  match task.work with
  | .metadata op =>
      match op with
      | .addfile => cat.Room input.uuid
      | .mkdir =>
          cat.Room input.uuid ∧ input.fileKey ≠ input.uuid
      | .addfileWrite =>
          cat.Room input.uuid ∧ cat input.fileKey = none
      | .renameSameproxy =>
          ∀ info ∈ RenameInfo.parse input.data,
            cat.Room input.uuid ∧ cat info.newFileKey = none
      | .init | .deletefile => True
      | .ls | .open | .close | .getstatfile => True
      | .getstatdir | .lock | .unlock => True
  | .file .write => cat input.fileKey = none
  | .file .read => True

namespace Catalog

variable {conf : StorageConf} {cat : Catalog}
variable {task : Task}

/- The handler of a request follows the request. -/
theorem follows_next
    {records : Uuid → Bytes}
    {read : Uuid → UInt16 → Bytes}
    (hShows : ∀ uuid,
      Directory.Shows (records uuid) (cat uuid))
    (hRead : ∀ uuid size, (read uuid size).length < 2 ^ 32)
    (hSmall : cat.Small)
    (hAllowed : task.Allowed cat) :
    cat.Follows (cat.step conf task)
      (task.next conf records read) := by
  cases hTask : task.work with
  | metadata op =>
      simp only [Task.Allowed, hTask] at hAllowed
      simp only [Task.next, step, hTask]
      cases op with
      | init => exact follows_init cat task
      | addfile => exact follows_addfile (hShows _) hAllowed
      | mkdir =>
          exact follows_mkdir (hShows _) hAllowed.1 hAllowed.2
      | deletefile =>
          exact follows_deletefile (hShows _) hSmall
      | addfileWrite =>
          exact follows_addfileWrite (hShows _) hAllowed.1
            hAllowed.2
      | renameSameproxy =>
          cases hInfo : RenameInfo.parse task.input.data with
          | none => trivial
          | some info =>
              rcases hAllowed info hInfo with ⟨hRoom, hKey⟩
              exact follows_renameNext (hShows _) (hShows _)
                hSmall hRoom hKey (hRead _)
      | ls | «open» | close | getstatfile => trivial
      | getstatdir | lock | unlock => trivial
  | file op =>
      simp only [Task.Allowed, hTask] at hAllowed
      simp only [Task.next, step, hTask]
      cases op with
      | write => exact follows_write (hShows _) hSmall hAllowed
      | read => trivial

end Catalog

end Slfs
