import Slfs.DataFunction.Volume

/-
  Names in a directory.

  A new entry is added only if no entry has its name. A
  renaming inside a directory looks at its own entry only, and
  gives it a name that another one may have.

  Main declarations:
    * `Volume.RenamesApart`
    * `Volume.unique_names_iff`
-/

----------
-- Catalogs With Unique Names
----------

namespace Slfs

open Transition
open StorageConf (standard)

open Jsre

/-
  A renaming in a directory does not give an entry the name
  of another one.
-/
def Catalog.RenamesApart (cat : Catalog) (task : Task) : Prop :=
  task.work = .metadata .renameSameproxy →
    ∀ info ∈ RenameInfo.parse task.input.data,
      info.fileParentKey = task.input.uuid →
      cstring info.newFileName ≠ task.input.name →
      ∀ entries ∈ cat info.fileParentKey,
        task.input.name ∈ entries.map FilemetaServer.name →
          cstring info.newFileName ∉
            entries.map FilemetaServer.name

instance Catalog.decidableRenamesApart
    (cat : Catalog)
    (task : Task) :
    Decidable (cat.RenamesApart task) := by
  unfold RenamesApart
  infer_instance

namespace Catalog

/- No directory has two entries with the same name. -/
def Unique (cat : Catalog) : Prop :=
  ∀ uuid entries, cat uuid = some entries →
    (entries.map FilemetaServer.name).Nodup

variable {conf : StorageConf} {cat cat' : Catalog}
variable {uuid : Uuid}

theorem Unique.update_iff
    (h : cat.Unique)
    (uuid : Uuid)
    (entries : List FilemetaServer) :
    Unique (Function.update cat uuid (some entries)) ↔
      (entries.map FilemetaServer.name).Nodup := by
  constructor
  · intro hUnique
    apply hUnique uuid entries
    rw [Function.update_self]
  · intro hNodup other found hFound
    by_cases hOther : other = uuid
    · subst hOther
      rw [Function.update_self] at hFound
      cases hFound
      exact hNodup
    · rw [Function.update_of_ne hOther] at hFound
      exact h other found hFound

variable {r : FilemetaServer}

section

variable (h : cat.Unique)
include h

theorem Unique.add
    (hAdd : cat.add uuid r = some cat') :
    cat'.Unique := by
  rcases add_eq_some hAdd with ⟨entries, hCat, hNew, hEq⟩
  rw [hEq, h.update_iff]
  exact Table.nodup_map_append_singleton _
    (h uuid entries hCat) hNew

theorem Unique.remove
    {name : Bytes}
    (hRemove : cat.remove uuid name = some cat') :
    cat'.Unique := by
  rcases remove_eq_some hRemove with
    ⟨entries, i, r, hCat, hr, _, hEq⟩
  rw [hEq, h.update_iff]
  exact Table.nodup_map_swapRemove _ (h uuid entries hCat) hr

/- A write keeps all names. -/
theorem Unique.write
    {amb : Ambient}
    {input : Jsre.Request}
    (hWrite : Catalog.write conf amb cat input = some cat') :
    cat'.Unique := by
  rcases write_eq_some hWrite with
    ⟨entries, hCat, ⟨_, hEq⟩ | ⟨i, r, hr, _, hEq⟩⟩
  · rw [hEq]
    exact h
  · have hName : (DataFunction.writtenEntry conf amb input
        r).name = r.name := rfl
    rw [hEq, h.update_iff, Table.map_set_of_key _ hr hName]
    exact h _ entries hCat

/- Another directory takes a name only if it is new there. -/
theorem Unique.move
    {entries : List FilemetaServer}
    (hCat : cat uuid = some entries)
    {i : Nat}
    {r' : FilemetaServer}
    (hr : entries[i]? = some r)
    {other : Uuid}
    (hAdd :
      Catalog.add (Function.update cat uuid
        (some (Table.swapRemove entries i))) other r' =
          some cat') :
    cat'.Unique := by
  refine Unique.add ?_ hAdd
  rw [h.update_iff]
  exact Table.nodup_map_swapRemove _ (h uuid entries hCat) hr

/- The requests other than renamings. -/
theorem Unique.step
    {task : Task}
    (hWork : task.work ≠ .metadata .renameSameproxy)
    (hStep : cat.step conf task = some cat') :
    cat'.Unique := by
  have hMade : ∀ {cat : Catalog} key, cat.Unique →
      Unique (Function.update cat key (some [])) := by
    intro cat key hUnique
    rw [hUnique.update_iff]
    exact List.nodup_nil
  cases hTask : task.work with
  | metadata op =>
      simp only [Catalog.step, hTask] at hStep
      cases op with
      | init =>
          cases hStep
          exact hMade _ h
      | addfile | addfileWrite => exact h.add hStep
      | mkdir =>
          rcases Option.map_eq_some_iff.mp hStep with
            ⟨mid, hAdd, hEq⟩
          rw [← hEq]
          exact hMade _ (h.add hAdd)
      | deletefile => exact h.remove hStep
      | renameSameproxy => exact absurd hTask hWork
      | ls | «open» | close | getstatfile
      | getstatdir | lock | unlock =>
          cases hStep
          exact h
  | file op =>
      simp only [Catalog.step, hTask] at hStep
      cases op with
      | read =>
          cases hStep
          exact h
      | write => exact h.write hStep

/- A renaming keeps names unique if it takes none. -/
theorem Unique.rename_iff
    (input : Jsre.Request)
    (info : RenameInfo) :
    ((cat.rename input info).getD cat).Unique ↔
      (info.fileParentKey = input.uuid →
        cstring info.newFileName ≠ input.name →
        ∀ entries ∈ cat info.fileParentKey,
          input.name ∈ entries.map FilemetaServer.name →
            cstring info.newFileName ∉
              entries.map FilemetaServer.name) := by
  cases hRename : cat.rename input info with
  | none =>
      -- a renaming that could take a name is not refused
      refine iff_of_true h ?_
      intro hDir hNew entries hCat hListed
      have hSame : DataFunction.sameParentDir input info =
          true := by
        simpa [DataFunction.sameParentDir] using hDir
      cases hFind : find entries input.name with
      | none => exact absurd hListed (find_eq_none.mp hFind)
      | some i =>
          rcases find_eq_some hFind with ⟨r, hr, _⟩
          rw [Option.mem_def] at hCat
          simp [Catalog.rename, hCat, hFind, hr, hSame, hNew]
            at hRename
  | some cat' =>
      rw [Option.getD_some]
      rcases rename_eq_some hRename with
        ⟨entries, i, r, hCat, hr, hName,
          ⟨hDir, hNew, hEq⟩ | ⟨hDir, hAdd⟩⟩
      · have hKey : (renamed info r).name ≠ r.name := by
          rw [name_renamed, hName]
          exact hNew
        rw [hEq, h.update_iff,
          Table.nodup_map_set_iff _ (h _ entries hCat) hr hKey,
          name_renamed]
        constructor
        · intro hFree _ _ found hFound _
          rw [Option.mem_def, hCat] at hFound
          cases hFound
          exact hFree
        · intro hApart
          refine hApart hDir hNew entries hCat ?_
          exact List.mem_map.mpr
            ⟨r, List.mem_of_getElem? hr, hName⟩
      · refine iff_of_true (h.move hCat hr hAdd) ?_
        intro hSame
        exact absurd hSame hDir

/- A request keeps names unique if it renames apart. -/
theorem unique_after_iff
    (conf : StorageConf)
    (task : Task) :
    (cat.after conf task).Unique ↔ cat.RenamesApart task := by
  unfold after
  by_cases hWork : task.work = .metadata .renameSameproxy
  · simp only [Catalog.step, hWork, RenamesApart,
      forall_const]
    cases hInfo : RenameInfo.parse task.input.data with
    | none =>
        refine iff_of_true h ?_
        intro info hNone
        cases hNone
    | some info =>
        simp only [Option.bind_eq_bind, Option.bind_some,
          h.rename_iff, Option.mem_some_iff, forall_eq']
  · refine iff_of_true ?_ (fun hRename => absurd hRename hWork)
    cases hStep : cat.step conf task with
    | none => exact h
    | some cat' => exact h.step hWork hStep

end

end Catalog

----------
-- Runs
----------

namespace Volume

variable (conf : StorageConf)

/- No directory has two entries with the same name. -/
def UniqueNames (v : Volume) : Prop :=
  ∀ uuid ∈ v.directories,
    ((v.store.servers.listed conf uuid).map
      FilemetaServer.name).Nodup

instance decidableUniqueNames
    (v : Volume) :
    Decidable (v.UniqueNames conf) := by
  unfold UniqueNames
  infer_instance

/-
  A renaming in a directory does not give an entry the name
  of another one.
-/
def RenamesApart (v : Volume) (task : Task) : Prop :=
  (v.catalog conf).RenamesApart task

instance decidableRenamesApart
    (v : Volume)
    (task : Task) :
    Decidable (v.RenamesApart conf task) :=
  (v.catalog conf).decidableRenamesApart task

variable {conf : StorageConf}

theorem uniqueNames_iff
    (v : Volume) :
    v.UniqueNames conf ↔ (v.catalog conf).Unique := by
  constructor
  · intro hUnique uuid entries hCat
    unfold catalog at hCat
    by_cases hMem : uuid ∈ v.directories
    · rw [if_pos hMem] at hCat
      cases hCat
      exact hUnique uuid hMem
    · rw [if_neg hMem] at hCat
      cases hCat
  · intro hUnique uuid hMem
    apply hUnique uuid
    unfold catalog
    rw [if_pos hMem]

/-
  Requests are run one after another on directories that they
  make. Names stay unique in all directories exactly when no
  renaming in a directory takes the name of another entry.
-/
theorem unique_names_iff
    (conf : StorageConf)
    (formatTime : UInt64 → Bytes)
    (fuel : Nat)
    (s : Store)
    (tasks : List Task)
    (v' : Volume)
    (hFuel : 2 ≤ fuel)
    (hPending : s.servers.NoPending conf)
    (hRun :
      run (step conf formatTime fuel) (start s)
        tasks = some v')
    (hProper :
      Along (step conf formatTime fuel)
        (Proper conf) (start s) tasks) :
    Always (step conf formatTime fuel)
        (UniqueNames conf) (start s) tasks ↔
      Along (step conf formatTime fuel)
        (RenamesApart conf) (start s) tasks := by
  apply always_iff_along_within
    (W := Proper conf) (J := Sound conf)
  · intro v task next hSound hTask hStep
    exact (catalog_of_step hSound hFuel hTask hStep).1
  · intro v task next hSound hUnique hTask hStep
    have hCat := (catalog_of_step hSound hFuel hTask hStep).2
    rw [uniqueNames_iff] at hUnique ⊢
    rw [hCat]
    exact Catalog.unique_after_iff hUnique conf task
  · exact sound_start hPending
  · intro uuid hMem
    cases hMem
  · exact hRun
  · exact hProper

/- A directory with one file. -/
def oneFile : List Task :=
  [sampleTask (.metadata .init) "" [],
    sampleTask (.metadata .addfile) "a" [0, 1, 2, 3]]

/- The file gets a new name. -/
theorem unique_names_iff_newName :
    ∃ v',
      run (step standard (fun _ => []) 2)
          (start Store.empty)
          (oneFile ++ [sampleRename 7 "a" "c"]) = some v' ∧
        Always (step standard (fun _ => []) 2)
          (UniqueNames standard)
          (start Store.empty)
          (oneFile ++ [sampleRename 7 "a" "c"]) := by
  have hEnds :
      (run (step standard (fun _ => []) 2)
        (start Store.empty)
        (oneFile ++ [sampleRename 7 "a" "c"])).isSome =
          true := by
    decide +kernel
  rcases Option.isSome_iff_exists.mp hEnds with ⟨v', hRun⟩
  refine ⟨v', hRun, ?_⟩
  refine (unique_names_iff standard (fun _ => []) 2
    Store.empty _ v' (Nat.le_refl 2)
    (Cluster.noPending_empty standard) hRun ?_).mpr
    ?_
  · decide +kernel
  · decide +kernel

/- A file takes the name of the other one. -/
theorem renamed_onto_other_file :
    ∃ v',
      run (step standard (fun _ => []) 2)
          (start Store.empty)
          (oneFile ++
            [sampleTask (.metadata .addfile) "b" [0, 1, 2, 3],
              sampleRename 7 "a" "b"]) = some v' ∧
        v'.directories = [sampleKey 7] ∧
        (v'.store.servers.listed standard
            (sampleKey 7)).map FilemetaServer.name =
          [Decimal.ascii "b", Decimal.ascii "b"] ∧
        ¬ v'.UniqueNames standard := by
  have hEnds :
      (run (step standard (fun _ => []) 2)
        (start Store.empty)
        (oneFile ++
          [sampleTask (.metadata .addfile) "b" [0, 1, 2, 3],
            sampleRename 7 "a" "b"])).map
          (fun v => (v.directories,
            (v.store.servers.listed standard
              (sampleKey 7)).map FilemetaServer.name)) =
        some ([sampleKey 7],
          [Decimal.ascii "b", Decimal.ascii "b"]) := by
    decide +kernel
  rcases Option.map_eq_some_iff.mp hEnds with
    ⟨v', hRun, hSeen⟩
  rcases Prod.mk.inj hSeen with ⟨hDirectories, hNames⟩
  refine ⟨v', hRun, hDirectories, hNames, ?_⟩
  intro hUnique
  have hNodup := hUnique (sampleKey 7) (by
    rw [hDirectories]
    exact List.mem_singleton.mpr rfl)
  rw [hNames] at hNodup
  exact absurd hNodup (by decide)

end Volume

end Slfs
