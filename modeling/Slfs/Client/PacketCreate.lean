import Slfs.DataFunction.Perform

/-
  The requests that a client builds for paths.

  Directories are named by paths that end in a slash, and
  keys are digests of paths. The digest is a parameter.

  Main declarations:
    * `PacketCreate.splitPath`
    * `PacketCreate.ne_getParentPath`
-/

----------
-- Paths
----------

namespace Slfs

namespace PacketCreate

def slash : UInt8 := 47

/- Where the last slash of a path is. -/
def findLastOf (path : Bytes) : Option Nat :=
  (path.reverse.findIdx? (fun b => b = slash)).map
    (fun k => path.length - 1 - k)

/- The directory and the name of a path. -/
def splitPath (path : Bytes) : Bytes × Bytes :=
  if path = [slash] then ([], [slash])
  else
    let normalizedPath :=
      if path.getLast? = some slash then path.dropLast
      else path
    match findLastOf normalizedPath with
    | none => ([], path)
    | some 0 => ([slash], normalizedPath.drop 1)
    | some lastSeparator =>
        (normalizedPath.take (lastSeparator + 1),
          normalizedPath.drop (lastSeparator + 1))

def getParentPath (path : Bytes) : Bytes :=
  (splitPath path).1

/- Absolute paths of files: directories end in a slash. -/
structure IsFilePath (path : Bytes) : Prop where
  absolute : path.head? = some slash
  file : path.getLast? ≠ some slash

instance (path : Bytes) : Decidable (IsFilePath path) :=
  decidable_of_iff
    (path.head? = some slash ∧ path.getLast? ≠ some slash)
    ⟨fun h => ⟨h.1, h.2⟩, fun h => ⟨h.absolute, h.file⟩⟩

variable {path : Bytes}

theorem getElem?_of_findLastOf
    {i : Nat}
    (h : findLastOf path = some i) :
    path[i]? = some slash := by
  rcases Option.map_eq_some_iff.mp h with ⟨k, hFind, hIndex⟩
  rcases List.findIdx?_eq_some_iff_getElem.mp hFind with
    ⟨hk, hSlash, _⟩
  have hLt : k < path.length := by simpa using hk
  rw [List.getElem_reverse] at hSlash
  subst hIndex
  rw [List.getElem?_eq_getElem (by omega)]
  simpa using hSlash

theorem findLastOf_isSome
    (h : slash ∈ path) :
    ∃ i, findLastOf path = some i := by
  cases hFind : path.reverse.findIdx? (fun b => b = slash) with
  | none =>
      rw [List.findIdx?_eq_none_iff] at hFind
      have hNot := hFind slash (List.mem_reverse.mpr h)
      simp at hNot
  | some k =>
      exact ⟨_, by rw [findLastOf, hFind, Option.map_some]⟩

/- A file path is cut behind its last slash. -/
theorem splitPath_of_isFilePath
    (h : IsFilePath path) :
    ∃ i,
      findLastOf path = some i ∧
        path.take (i + 1) = path.take i ++ [slash] ∧
        splitPath path =
          (path.take (i + 1), path.drop (i + 1)) := by
  have hMem : slash ∈ path := List.mem_of_head? h.absolute
  have hRoot : path ≠ [slash] := by
    intro hEq
    refine h.file ?_
    rw [hEq]
    rfl
  rcases findLastOf_isSome hMem with ⟨i, hFind⟩
  have hTake : path.take (i + 1) = path.take i ++ [slash] := by
    rw [List.take_add_one, getElem?_of_findLastOf hFind]
    rfl
  refine ⟨i, hFind, hTake, ?_⟩
  unfold splitPath
  rw [if_neg hRoot, if_neg h.file]
  simp only [hFind]
  cases i with
  | zero => exact congrArg (·, path.drop 1) hTake.symm
  | succ i => rfl

/- The directory of a file is named with its slash. -/
theorem getLast?_getParentPath
    (h : IsFilePath path) :
    (getParentPath path).getLast? = some slash := by
  rcases splitPath_of_isFilePath h with ⟨i, _, hTake, hSplit⟩
  rw [getParentPath, hSplit, hTake]
  simp

/- The key of a file is not that of a directory of files. -/
theorem ne_getParentPath
    {other : Bytes}
    (hPath : IsFilePath path)
    (hOther : IsFilePath other) :
    path ≠ getParentPath other := by
  intro hEq
  refine hPath.file ?_
  rw [hEq]
  exact getLast?_getParentPath hOther

end PacketCreate

----------
-- Requests
----------

/- A metadata request with its operation. -/
abbrev MetaRequest := MetaOperation × Jsre.Request

namespace PacketCreate

open Jsre

/- A request about a directory that carries nothing else. -/
def emptyRequest (op : MetaOperation) (key : Uuid) :
    MetaRequest :=
  (op,
    { uuid := key
      position := 0
      size := 0
      fileName := Vector.replicate 34 0
      fileKey := Vector.replicate 32 0
      data := [] })

/- Locking is not sent as `lock`. -/
def lock (key : Uuid) : MetaRequest :=
  emptyRequest .init key

/- Unlocking is not sent as `unlock`. -/
def unlock (key : Uuid) : MetaRequest :=
  emptyRequest .init key

/-
  A name is copied with its own length, so that one that is
  longer than its field is undefined.
-/
def copyName (name : Bytes) : Option FileName :=
  if name.length ≤ 34 then some (nameField name) else none

def renameRequest
    (key fileKey newFileKey : Uuid)
    (fileName : Bytes)
    (fileParentKey : Uuid)
    (newFileName : Bytes) : Option MetaRequest := do
  let newName ← copyName newFileName
  let name ← copyName fileName
  let info : RenameInfo :=
    { newFileKey := newFileKey
      fileParentKey := fileParentKey
      newFileName := newName }
  some (.renameSameproxy,
    { uuid := key
      position := 0
      size := 98
      fileName := name
      fileKey := fileKey
      data := info.serialize })

def renameFile
    (getUuid : Bytes → Uuid)
    (filePath newFilePath : Bytes) : Option MetaRequest :=
  let (newParentPath, newFileName) := splitPath newFilePath
  let (parentPath, fileName) := splitPath filePath
  renameRequest (getUuid newParentPath) (getUuid filePath)
    (getUuid newFilePath) fileName (getUuid parentPath)
    newFileName

/- What a rename request carries. -/
theorem renameFile_eq_some
    {getUuid : Bytes → Uuid}
    {filePath newFilePath : Bytes}
    {request : MetaRequest}
    (h :
      renameFile getUuid filePath newFilePath = some request) :
    ∃ info : RenameInfo,
      request.1 = .renameSameproxy ∧
      request.2.uuid = getUuid (getParentPath newFilePath) ∧
      RenameInfo.parse request.2.data = some info ∧
      info.newFileKey = getUuid newFilePath ∧
      info.fileParentKey =
        getUuid (getParentPath filePath) := by
  rcases Option.bind_eq_some_iff.mp h with
    ⟨newName, _, hRest⟩
  rcases Option.bind_eq_some_iff.mp hRest with
    ⟨name, _, hSome⟩
  cases hSome
  exact ⟨_, rfl, rfl, RenameInfo.parse_serialize _, rfl, rfl⟩

end PacketCreate

end Slfs
