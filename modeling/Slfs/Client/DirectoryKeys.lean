import Slfs.Client.PacketBody

/-
  Keys of directories.

  A directory is created under one path and found under
  others, its entries' parent path and the listed path. They
  are hashed, so they have to be the same string.

  Main declarations:
    * `PacketBody.KeysAgree`
    * `PacketBody.directory_keys_agree`
-/

----------
-- Requests For Directories
----------

namespace Slfs

namespace PacketBody

open Jsre
open PacketCreate (slash splitPath getParentPath findLastOf
  IsFilePath)

def init (pad : Padding) (key : Uuid) :
    Option (Uuid × Bytes) :=
  build pad (.metadata .init) 0 0 [] [] key

def ls (pad : Padding) (key : Uuid) :
    Option (Uuid × Bytes) :=
  build pad (.metadata .ls) 0 0 [] [] key

section

variable (getUuid : Bytes → Uuid) (pad : Padding)

def initPath (rootDirectory : Bytes) : Option (Uuid × Bytes) :=
  init pad (getUuid rootDirectory)

def lsPath (directory : Bytes) : Option (Uuid × Bytes) :=
  ls pad (getUuid (directoryPath directory))

/- The path of a name in a directory. -/
def childPath (directory name : Bytes) : Bytes :=
  if directory.getLast? = some slash then directory ++ name
  else directory ++ slash :: name

/-
  The parent path of a name in a directory is the string
  that is hashed to create the directory and to list it.
-/
structure KeysAgree (directory name : Bytes) : Prop where
  parent :
    getParentPath (childPath directory name) =
      directoryPath directory
  named : (splitPath (childPath directory name)).2 = name
  mkdir :
    Builder.mkdir.build getUuid pad directory =
      PacketBody.mkdir pad
        (getUuid (getParentPath (directoryPath directory)))
        (splitPath (directoryPath directory)).2
        (getUuid (getParentPath (childPath directory name)))
  init :
    directory = [slash] →
      initPath getUuid pad directory =
        PacketBody.init pad
          (getUuid (getParentPath (childPath directory name)))
  ls :
    lsPath getUuid pad directory =
      PacketBody.ls pad
        (getUuid (getParentPath (childPath directory name)))
  addFile :
    Builder.addFileV2.build getUuid pad
        (childPath directory name) =
      PacketBody.addFile pad
        (getUuid (directoryPath directory)) name

end

----------
-- Paths In A Directory
----------

variable {directory name : Bytes}

/- Nothing behind the slash is a slash. -/
theorem findLastOf_append
    (base : Bytes)
    (hPlain : slash ∉ name) :
    findLastOf (base ++ slash :: name) = some base.length := by
  have hNone :
      name.reverse.findIdx? (fun b => b = slash) = none := by
    rw [List.findIdx?_eq_none_iff]
    intro b hb
    simp only [decide_eq_false_iff_not]
    rintro rfl
    exact hPlain (List.mem_reverse.mp hb)
  simp [findLastOf, List.findIdx?_append, hNone,
    List.findIdx?_cons]

theorem splitPath_append
    {base : Bytes}
    (hAbsolute : (base ++ [slash]).head? = some slash)
    (hName : name ≠ [])
    (hPlain : slash ∉ name) :
    splitPath (base ++ slash :: name) =
      (base ++ [slash], name) := by
  have hFile : IsFilePath (base ++ slash :: name) := by
    constructor
    · cases base with
      | nil => rfl
      | cons b base => exact hAbsolute
    · rw [List.getLast?_append, List.getLast?_cons,
        List.getLast?_eq_some_getLast hName]
      intro hEq
      apply hPlain
      have hLast : name.getLast hName = slash := by
        simpa using hEq
      exact hLast ▸ List.getLast_mem hName
  rcases PacketCreate.splitPath_of_isFilePath hFile with
    ⟨i, hFind, hTake, hSplit⟩
  rw [findLastOf_append base hPlain] at hFind
  cases hFind
  rw [hSplit, hTake]
  simp

/- With and without its slash a directory is one path. -/
theorem childPath_eq
    (name : Bytes)
    (hAbsolute : directory.head? = some slash) :
    ∃ base,
      directoryPath directory = base ++ [slash] ∧
        (base ++ [slash]).head? = some slash ∧
        childPath directory name = base ++ slash :: name := by
  have hNe : directory ≠ [] := by
    rintro rfl
    cases hAbsolute
  by_cases hLast : directory.getLast? = some slash
  · have hEq := List.dropLast_append_getLast? slash hLast
    refine ⟨directory.dropLast, ?_, ?_, ?_⟩
    · rw [directoryPath, if_neg (fun h => h.2 hLast), hEq]
    · rw [hEq]
      exact hAbsolute
    · rw [childPath, if_pos hLast, List.append_cons, hEq]
  · refine ⟨directory, ?_, ?_, ?_⟩
    · rw [directoryPath, if_pos ⟨hNe, hLast⟩]
    · rw [List.head?_append, hAbsolute]
      rfl
    · rw [childPath, if_neg hLast]

/-
  For every absolute path of a directory and every name in
  it the keys agree. The parent path and the name of a file
  make up its path.
-/
theorem directory_keys_agree
    (getUuid : Bytes → Uuid)
    (pad : Padding) :
    (∀ directory name : Bytes,
      directory.head? = some slash → name ≠ [] →
        slash ∉ name →
          KeysAgree getUuid pad directory name) ∧
      ∀ path : Bytes,
        path.head? = some slash →
          path.getLast? ≠ some slash →
            (splitPath path).1 ++ (splitPath path).2 =
              path := by
  constructor
  · intro directory name hAbsolute hName hPlain
    rcases childPath_eq name hAbsolute with
      ⟨base, hDirectory, hBase, hChild⟩
    have hSplit :
        splitPath (childPath directory name) =
          (directoryPath directory, name) := by
      rw [hChild, hDirectory]
      exact splitPath_append hBase hName hPlain
    have hParent :
        getParentPath (childPath directory name) =
          directoryPath directory :=
      congrArg Prod.fst hSplit
    constructor
    case parent => exact hParent
    case named => exact congrArg Prod.snd hSplit
    case mkdir =>
      rw [hParent]
      rfl
    case init =>
      rintro rfl
      rw [hParent]
      rfl
    case ls =>
      rw [hParent]
      rfl
    case addFile =>
      simp only [Builder.build, hSplit]
  · intro path hAbsolute hFile
    rcases PacketCreate.splitPath_of_isFilePath
        ⟨hAbsolute, hFile⟩ with
      ⟨i, _, _, hSplit⟩
    rw [hSplit]
    exact List.take_append_drop (i + 1) path

/- A file in a directory, and one in the root. -/
theorem keys_agree_in_directory :
    KeysAgree Builder.sampleUuid Builder.samplePadding
        (Decimal.ascii "/d") (Decimal.ascii "f") ∧
      KeysAgree Builder.sampleUuid Builder.samplePadding
        [slash] (Decimal.ascii "f") := by
  have hAll := (directory_keys_agree Builder.sampleUuid
    Builder.samplePadding).1
  constructor
  · exact hAll _ _ (by decide) (by decide) (by decide)
  · exact hAll _ _ (by decide) (by decide) (by decide)

end PacketBody

end Slfs
