import Slfs.DataFunction.Stored

/-
  Requests as edits of the directories.

  A catalog says which keys are directories and which entries
  each of them has. A request edits the catalog, or is refused
  and leaves it as it is.

  Main declarations:
    * `Catalog.step`, what a request does to a catalog
    * `Catalog.isSome_step`
-/

----------
-- Requests
----------

namespace Slfs

open Jsre

/- The requests that edit directories. -/
def Work.edits : Work → Bool
| .metadata op =>
    match op with
    | .init | .addfile | .mkdir | .deletefile => true
    | .renameSameproxy | .addfileWrite => true
    | .ls | .open | .close | .getstatfile => false
    | .getstatdir | .lock | .unlock => false
| .file .write => true
| .file .read => false

/- A request, with what its run takes from outside. -/
structure Task where
  work : Work
  input : Jsre.Request
  amb : Ambient
  schedule : Schedule

namespace Task

/- The entry that a request adds to its directory. -/
def entry (task : Task) : FilemetaServer :=
  DataFunction.newEntry task.amb
    ((Filemeta.parse task.input.data).getD ⟨0, 0⟩)
    task.input.name

/- An added entry has the name that the request gives. -/
theorem name_entry
    (task : Task) :
    task.entry.name = task.input.name :=
  cstring_nameField_cstring _

/- The directories that an accepted request makes. -/
def makes (task : Task) : List Uuid :=
  match task.work with
  | .metadata .init => [task.input.uuid]
  | .metadata .mkdir => [task.input.fileKey]
  | _ => []

/- Requests that only look make no directory. -/
theorem makes_of_look
    {task : Task}
    (hWork : task.work.edits = false) :
    task.makes = [] := by
  unfold makes
  split
  · rename_i hInit
    rw [hInit] at hWork
    cases hWork
  · rename_i hMkdir
    rw [hMkdir] at hWork
    cases hWork
  · rfl

end Task

/- Run a request to its end. -/
def Store.runTask
    (conf : StorageConf)
    (formatTime : UInt64 → Bytes)
    (fuel : Nat)
    (task : Task)
    (s : Store) :
    Option (List Bytes × Store) :=
  match task.work with
  | .metadata op =>
      s.startPerformMetadata conf formatTime fuel task.amb
        task.schedule op task.input
  | .file op =>
      s.startPerform conf fuel task.amb task.schedule op
        task.input

----------
-- Catalogs
----------

/- The directories, and the entries of each. -/
abbrev Catalog := Uuid → Option (List FilemetaServer)

namespace Catalog

/- The place of the first entry with a name. -/
def find (entries : List FilemetaServer) (name : Bytes) :
    Option Nat :=
  entries.findIdx? (fun r => r.name = name)

/- An entry is added if its name is new. -/
def add (cat : Catalog) (uuid : Uuid) (r : FilemetaServer) :
    Option Catalog := do
  let entries ← cat uuid
  if r.name ∈ entries.map FilemetaServer.name then none
  else
    some (Function.update cat uuid (some (entries ++ [r])))

def remove (cat : Catalog) (uuid : Uuid) (name : Bytes) :
    Option Catalog := do
  let entries ← cat uuid
  let i ← find entries name
  some (Function.update cat uuid
    (some (Table.swapRemove entries i)))

/-
  In its directory an entry gets a new name even if another
  entry has it; another directory takes it only if the name
  is new there.
-/
def rename
    (cat : Catalog)
    (input : Jsre.Request)
    (info : RenameInfo) :
    Option Catalog := do
  let entries ← cat info.fileParentKey
  let i ← find entries input.name
  let r ← entries[i]?
  let r :=
    { r with fileName := nameField (cstring info.newFileName) }
  if DataFunction.sameParentDir input info then
    if cstring info.newFileName = input.name then none
    else
      some (Function.update cat info.fileParentKey
        (some (entries.set i r)))
  else
    add (Function.update cat info.fileParentKey
      (some (Table.swapRemove entries i))) input.uuid r

/- A name that is not there is not missed. -/
def write
    (conf : StorageConf)
    (amb : Ambient)
    (cat : Catalog)
    (input : Jsre.Request) :
    Option Catalog := do
  let entries ← cat input.uuid
  match find entries input.name with
  | none => some cat
  | some i => do
      let r ← entries[i]?
      some (Function.update cat input.uuid
        (some (entries.set i
          (DataFunction.writtenEntry conf amb input r))))

/- The catalog after a request, unless it is refused. -/
def step (conf : StorageConf) (task : Task) (cat : Catalog) :
    Option Catalog :=
  let input := task.input
  match task.work with
  | .metadata op =>
      match op with
      | .init =>
          some (Function.update cat input.uuid (some []))
      | .addfile | .addfileWrite =>
          cat.add input.uuid task.entry
      | .mkdir =>
          (cat.add input.uuid task.entry).map
            (fun cat =>
              Function.update cat input.fileKey (some []))
      | .deletefile => cat.remove input.uuid input.name
      | .renameSameproxy => do
          let info ← RenameInfo.parse input.data
          cat.rename input info
      | .ls | .open | .close | .getstatfile => some cat
      | .getstatdir | .lock | .unlock => some cat
  | .file .write => write conf task.amb cat input
  | .file .read => some cat

/- The catalog after a request, refused or not. -/
def after (conf : StorageConf) (task : Task) (cat : Catalog) :
    Catalog :=
  (cat.step conf task).getD cat

end Catalog

----------
-- Edits Of A Catalog
----------

namespace Catalog

variable {conf : StorageConf} {cat cat' : Catalog}
variable {uuid : Uuid} {i : Nat} {r : FilemetaServer}
variable {input : Jsre.Request} {info : RenameInfo}
variable {entries : List FilemetaServer} {name : Bytes}

theorem find_eq_some
    (h : find entries name = some i) :
    ∃ r, entries[i]? = some r ∧ r.name = name := by
  rcases List.findIdx?_eq_some_iff_getElem.mp h with
    ⟨hLt, hName, _⟩
  exact ⟨entries[i], List.getElem?_eq_getElem hLt,
    of_decide_eq_true hName⟩

theorem find_eq_none :
    find entries name = none ↔
      name ∉ entries.map FilemetaServer.name := by
  unfold find
  rw [List.findIdx?_eq_none_iff]
  simp

theorem add_eq_some
    (h : cat.add uuid r = some cat') :
    ∃ entries,
      cat uuid = some entries ∧
        r.name ∉ entries.map FilemetaServer.name ∧
        cat' = Function.update cat uuid
          (some (entries ++ [r])) := by
  rcases Option.bind_eq_some_iff.mp h with
    ⟨entries, hCat, hNext⟩
  by_cases hMem : r.name ∈ entries.map FilemetaServer.name
  · rw [if_pos hMem] at hNext
    cases hNext
  · rw [if_neg hMem] at hNext
    cases hNext
    exact ⟨entries, hCat, hMem, rfl⟩

theorem remove_eq_some
    (h : cat.remove uuid name = some cat') :
    ∃ entries i r,
      cat uuid = some entries ∧
        entries[i]? = some r ∧ r.name = name ∧
        cat' = Function.update cat uuid
          (some (Table.swapRemove entries i)) := by
  rcases Option.bind_eq_some_iff.mp h with
    ⟨entries, hCat, hNext⟩
  rcases Option.bind_eq_some_iff.mp hNext with
    ⟨i, hFind, hSame⟩
  rcases find_eq_some hFind with ⟨r, hr, hName⟩
  cases hSame
  exact ⟨entries, i, r, hCat, hr, hName, rfl⟩

/- A write changes at most one entry, and not its name. -/
theorem write_eq_some
    {amb : Ambient}
    (h : write conf amb cat input = some cat') :
    ∃ entries,
      cat input.uuid = some entries ∧
        ((input.name ∉ entries.map FilemetaServer.name ∧
          cat' = cat) ∨
        ∃ i r, entries[i]? = some r ∧ r.name = input.name ∧
          cat' = Function.update cat input.uuid
            (some (entries.set i
              (DataFunction.writtenEntry conf amb input
                r)))) := by
  rcases Option.bind_eq_some_iff.mp h with
    ⟨entries, hCat, hNext⟩
  refine ⟨entries, hCat, ?_⟩
  cases hFind : find entries input.name with
  | none =>
      left
      rw [hFind] at hNext
      cases hNext
      exact ⟨find_eq_none.mp hFind, rfl⟩
  | some i =>
      right
      rcases find_eq_some hFind with ⟨r, hr, hName⟩
      rw [hFind] at hNext
      simp only [hr, Option.bind_eq_bind, Option.bind_some]
        at hNext
      cases hNext
      exact ⟨i, r, hr, hName, rfl⟩

/- An entry under a new name. -/
def renamed (info : RenameInfo) (r : FilemetaServer) :
    FilemetaServer :=
  { r with fileName := nameField (cstring info.newFileName) }

theorem name_renamed
    (info : RenameInfo)
    (r : FilemetaServer) :
    (renamed info r).name = cstring info.newFileName :=
  cstring_nameField_cstring _

/- A renaming replaces the entry it finds, or moves it. -/
theorem rename_of_find
    (hCat : cat info.fileParentKey = some entries)
    (hFind : find entries input.name = some i)
    (hr : entries[i]? = some r)
    (h : cat.rename input info = some cat') :
    (info.fileParentKey = input.uuid ∧
      cstring info.newFileName ≠ input.name ∧
      cat' = Function.update cat info.fileParentKey
        (some (entries.set i (renamed info r)))) ∨
    (info.fileParentKey ≠ input.uuid ∧
      add (Function.update cat info.fileParentKey
          (some (Table.swapRemove entries i)))
        input.uuid (renamed info r) = some cat') := by
  simp only [rename, hCat, hFind, hr, Option.bind_eq_bind,
    Option.bind_some] at h
  by_cases hDir : info.fileParentKey = input.uuid
  · left
    rw [if_pos (by simpa [DataFunction.sameParentDir] using hDir)]
      at h
    by_cases hSame : cstring info.newFileName = input.name
    · rw [if_pos hSame] at h
      cases h
    · rw [if_neg hSame] at h
      exact ⟨hDir, hSame, (Option.some.inj h).symm⟩
  · right
    rw [if_neg (by simpa [DataFunction.sameParentDir] using hDir)]
      at h
    exact ⟨hDir, h⟩

theorem rename_eq_some
    (h : cat.rename input info = some cat') :
    ∃ entries i r,
      cat info.fileParentKey = some entries ∧
        entries[i]? = some r ∧ r.name = input.name ∧
        ((info.fileParentKey = input.uuid ∧
          cstring info.newFileName ≠ input.name ∧
          cat' = Function.update cat info.fileParentKey
            (some (entries.set i (renamed info r)))) ∨
        (info.fileParentKey ≠ input.uuid ∧
          add (Function.update cat info.fileParentKey
              (some (Table.swapRemove entries i)))
            input.uuid (renamed info r) = some cat')) := by
  rcases Option.bind_eq_some_iff.mp h with
    ⟨entries, hCat, hNext⟩
  rcases Option.bind_eq_some_iff.mp hNext with ⟨i, hFind, _⟩
  rcases find_eq_some hFind with ⟨r, hr, hName⟩
  exact ⟨entries, i, r, hCat, hr, hName,
    rename_of_find hCat hFind hr h⟩

/- Only the request's own new directory is new. -/
theorem isSome_update
    (h : (cat uuid).isSome)
    (other : Uuid) :
    (Function.update cat uuid (some entries) other).isSome ↔
      (cat other).isSome := by
  by_cases hOther : other = uuid
  · subst hOther
    simp [h]
  · rw [Function.update_of_ne hOther]

theorem isSome_add
    (h : cat.add uuid r = some cat')
    (other : Uuid) :
    (cat' other).isSome ↔ (cat other).isSome := by
  rcases add_eq_some h with ⟨entries, hCat, _, hEq⟩
  rw [hEq]
  exact isSome_update (by simp [hCat]) other

theorem isSome_rename
    (h : cat.rename input info = some cat')
    (other : Uuid) :
    (cat' other).isSome ↔ (cat other).isSome := by
  rcases rename_eq_some h with
    ⟨entries, i, r, hCat, _, _,
      ⟨_, _, hEq⟩ | ⟨_, hAdd⟩⟩
  · rw [hEq]
    exact isSome_update (by simp [hCat]) other
  · rw [isSome_add hAdd]
    exact isSome_update (by simp [hCat]) other

/- The directories after an accepted request. -/
theorem isSome_step
    {task : Task}
    (h : cat.step conf task = some cat')
    (other : Uuid) :
    (cat' other).isSome ↔
      other ∈ task.makes ∨ (cat other).isSome := by
  have hMake : ∀ (cat : Catalog) key,
      (Function.update cat key (some []) other).isSome ↔
        other = key ∨ (cat other).isSome := by
    intro cat key
    by_cases hKey : other = key
    · subst hKey
      simp
    · simp [hKey]
  cases hTask : task.work with
  | metadata op =>
      simp only [step, hTask] at h
      simp only [Task.makes, hTask]
      cases op with
      | init =>
          cases h
          simpa using hMake cat _
      | addfile | addfileWrite => simpa using isSome_add h other
      | mkdir =>
          rcases Option.map_eq_some_iff.mp h with
            ⟨mid, hAdd, hEq⟩
          rw [← hEq]
          simpa [isSome_add hAdd other] using hMake mid _
      | deletefile =>
          rcases remove_eq_some h with
            ⟨entries, i, r, hCat, _, _, hEq⟩
          rw [hEq]
          simpa using isSome_update (by simp [hCat]) other
      | renameSameproxy =>
          rcases Option.bind_eq_some_iff.mp h with
            ⟨info, _, hRename⟩
          simpa using isSome_rename hRename other
      | ls | «open» | close | getstatfile
      | getstatdir | lock | unlock =>
          cases h
          simp
  | file op =>
      simp only [step, hTask] at h
      simp only [Task.makes, hTask]
      cases op with
      | read =>
          cases h
          simp
      | write =>
          rcases write_eq_some h with
            ⟨entries, hCat, ⟨_, hEq⟩ | ⟨i, r, _, _, hEq⟩⟩
          · simp [hEq]
          · rw [hEq]
            simpa using isSome_update (by simp [hCat]) other

end Catalog

end Slfs
