import Slfs.DataFunction.FileVolume

/-
  Files that are created again.

  Deleting a file leaves its data under its key, and a file
  that is created again reads it, if it reaches as far as the
  position of the read. Two histories that differ in such data
  only are run side by side: they have the same directories,
  and buffers that agree from the position on.

  Main declarations:
    * `Volume.Twins`, two histories side by side
    * `Volume.recreated_reads_alike`
-/

----------
-- Requests On A File
----------

namespace Slfs

open Transition
open StorageConf (standard)

open Jsre

/- A file: its name in a directory, and the key of its data. -/
structure FileId where
  directory : Uuid
  name : Bytes
  key : Uuid
deriving DecidableEq, Repr

namespace Task

/- The request is about the file. -/
def On (p : FileId) (task : Task) : Prop :=
  task.input.uuid = p.directory ∧
    task.input.name = p.name ∧
    task.input.fileKey = p.key

/- The request has data for the file. -/
def WritesTo (p : FileId) (task : Task) : Prop :=
  (task.work = .file .write ∨
    task.work = .metadata .addfileWrite) ∧ task.On p

instance decidableOn
    (p : FileId)
    (task : Task) :
    Decidable (task.On p) := by
  unfold On
  infer_instance

instance decidableWritesTo
    (p : FileId)
    (task : Task) :
    Decidable (task.WritesTo p) := by
  unfold WritesTo
  infer_instance

/- What comes before the data: a `filemeta`, or nothing. -/
def metaLength (task : Task) : Nat :=
  match task.work with
  | .metadata .addfileWrite => 4
  | _ => 0

/- How much data there is for the file. -/
def dataLength (task : Task) : Nat :=
  task.input.size.toNat - task.metaLength

/- The same request with another body. -/
def withBody (task : Task) (body : Bytes) : Task :=
  { task with input := { task.input with data := body } }

/- Equal requests, or with other data for the file. -/
inductive SameBut (p : FileId) : Task → Task → Prop
| same (task : Task) : SameBut p task task
| data (task : Task) (body : Bytes) :
    task.WritesTo p →
    body.length = task.input.data.length →
    body.take task.metaLength =
      task.input.data.take task.metaLength →
    SameBut p task (task.withBody body)

/- Other data only if it ends before an index. -/
def SameFrom
    (p : FileId)
    (k : Nat)
    (task task' : Task) :
    Prop :=
  SameBut p task task' ∧
    (task' = task ∨ task.dataLength ≤ k)

end Task

namespace Volume

open Coordinator (okReply)

variable (conf : StorageConf)
variable (formatTime : UInt64 → Bytes) (fuel : Nat)

/- The reply to a request after some others. -/
def replyAfter (history : List Task) (task : Task) :
    Option (List Bytes) :=
  (run (step conf formatTime fuel)
    (start Store.empty) history).bind
      (fun v =>
        (v.store.runTask conf formatTime fuel task).map
          Prod.fst)

/-
  A file is deleted and created again, and nothing has been
  written to it since.
-/
structure Recreated
    (p : FileId)
    (before : List Task)
    (deletion : Task)
    (between : List Task)
    (creation : Task)
    (after : List Task) :
    Prop where
  deletes :
    deletion.work = .metadata .deletefile ∧ deletion.On p
  deleted :
    replyAfter conf formatTime fuel before deletion =
      some [okReply]
  creates :
    creation.work = .metadata .addfile ∧ creation.On p
  created :
    replyAfter conf formatTime fuel
      (before ++ deletion :: between) creation =
        some [okReply]
  unwritten : ∀ task ∈ after, ¬ task.WritesTo p

end Volume

----------
-- Inputs That Differ In File Data
----------

/- Inputs for one key, which is a file if they differ. -/
def Input.Alike
    (k : Nat)
    (cat : Catalog)
    (input input' : Input) :
    Prop :=
  input' = input ∨
    (input'.uuid = input.uuid ∧ cat input.uuid = none ∧
      Buffer.AgreeFrom k input.data input'.data)

namespace Input

variable {k : Nat} {cat : Catalog}
variable {input input' : Input}
variable {inputs inputs' : List Input}

theorem alike_refl
    (inputs : List Input) :
    List.Forall₂ (Alike k cat) inputs inputs :=
  List.forall₂_same.mpr (fun _ _ => Or.inl rfl)

theorem Alike.uuid_eq
    (h : input.Alike k cat input') :
    input'.uuid = input.uuid := by
  rcases h with hEq | ⟨hUuid, _⟩
  · rw [hEq]
  · exact hUuid

theorem Alike.agree
    (h : input.Alike k cat input') :
    Buffer.AgreeFrom k input.data input'.data := by
  rcases h with hEq | ⟨_, _, hAgree⟩
  · rw [hEq]
    exact Buffer.AgreeFrom.refl k _
  · exact hAgree

theorem uuids_of_alike
    (h : List.Forall₂ (Alike k cat) inputs inputs') :
    inputs'.map uuid = inputs.map uuid := by
  induction h with
  | nil => rfl
  | cons hHead _ ih =>
      rw [List.map_cons, List.map_cons, hHead.uuid_eq, ih]

/- A directory gets the same. -/
theorem mem_of_alike
    (h : List.Forall₂ (Alike k cat) inputs inputs')
    (hMem : input ∈ inputs)
    (hDir : cat input.uuid ≠ none) :
    input ∈ inputs' := by
  induction h with
  | nil => cases hMem
  | cons hHead _ ih =>
      rcases List.mem_cons.mp hMem with hFirst | hRest
      · subst hFirst
        rcases hHead with hEq | ⟨_, hNone, _⟩
        · rw [hEq]
          exact List.mem_cons_self
        · exact absurd hNone hDir
      · exact List.mem_cons_of_mem _ (ih hRest)

end Input

variable {k : Nat} {cat : Catalog}
variable {inputs' : List Input}

/- Files that agree do so after alike inputs. -/
theorem Files.agree_write
    {files files' : Files}
    {inputs : List Input}
    (hInputs :
      List.Forall₂ (Input.Alike k cat) inputs inputs')
    {uuid : Uuid}
    (hAgree : Buffer.AgreeFrom k (files uuid) (files' uuid)) :
    Buffer.AgreeFrom k (files.write inputs uuid)
      (files'.write inputs' uuid) := by
  unfold write
  induction hInputs with
  | nil => exact hAgree
  | @cons input input' _ _ hHead _ ih =>
      rw [List.find?_cons, List.find?_cons, hHead.uuid_eq]
      by_cases hUuid : input.uuid = uuid
      · simp only [hUuid, decide_true]
        exact hAgree.overlay hHead.agree
      · simp only [hUuid, decide_false]
        exact ih

/- Directories that are the same stay the same. -/
theorem Catalog.records_write
    {cat' : Catalog}
    {files files' : Files}
    {inputs : List Input}
    (hInputs :
      List.Forall₂ (Input.Alike k cat') inputs inputs')
    (hEdits : Catalog.Edits inputs cat cat')
    (hRecords : cat.records files' = cat.records files) :
    cat'.records (files'.write inputs') =
      cat'.records (files.write inputs) := by
  have hUuids := Input.uuids_of_alike hInputs
  funext uuid
  cases hCat : cat' uuid with
  | none => simp only [records, hCat]
  | some entries =>
      simp only [records, hCat]
      rcases hEdits.edited uuid entries hCat with
        ⟨content, hMem, hContent⟩ | ⟨hNot, hOld⟩
      · have hMem' := Input.mem_of_alike hInputs hMem
          (by simp [hCat])
        have hNodup := hEdits.whole.nodup
        rw [files.write_of_mem hNodup hMem,
          files'.write_of_mem (hUuids ▸ hNodup) hMem',
          ← hContent.length, Buffer.resize_overlay,
          Buffer.resize_overlay]
      · have hSame := congrFun hRecords uuid
        simp only [records, hOld] at hSame
        rw [files.write_of_not_mem hNot,
          files'.write_of_not_mem (hUuids ▸ hNot), hSame]

----------
-- Handlers That Get Other File Data
----------

open DataFunction

namespace DataFunction

variable {k : Nat} {cat : Catalog}

theorem alike_withDirectory
    {content : Bytes}
    {body body' : Stats → Action Writes}
    (hBody : ∀ stat,
      List.Forall₂ (Input.Alike k cat)
        (written (.act (body stat)))
        (written (.act (body' stat)))) :
    List.Forall₂ (Input.Alike k cat)
      (written (withDirectory content body))
      (written (withDirectory content body')) := by
  unfold withDirectory
  by_cases hShort : content.length < recordSize
  · rw [if_pos hShort, if_pos hShort]
    exact .nil
  · rw [if_neg hShort, if_neg hShort]
    simp only
    split
    · exact .nil
    · exact hBody _

/- A renaming copies the data. -/
theorem alike_renameNext
    {input : Jsre.Request}
    {info : RenameInfo}
    (hKey : cat info.newFileKey = none)
    (source destination : Bytes)
    {read read' : UInt16 → Bytes}
    (hRead : ∀ size,
      Buffer.AgreeFrom k (read size) (read' size)) :
    List.Forall₂ (Input.Alike k cat)
      (written (renameNext input info source destination read))
      (written
        (renameNext input info source destination read')) := by
  unfold renameNext
  split
  · exact .nil
  · exact .nil
  · exact .nil
  · exact .nil
  · rename_i content r _
    have hCopy : List.Forall₂ (Input.Alike k cat)
        [⟨info.newFileKey, 0, read r.fileSize⟩]
        [⟨info.newFileKey, 0, read' r.fileSize⟩] :=
      .cons (Or.inr ⟨rfl, hKey, hRead _⟩) .nil
    by_cases hDir : sameParentDir input info = true
    · simp only [if_pos hDir]
      exact .cons (Or.inl rfl) hCopy
    · simp only [if_neg hDir]
      split
      · exact .nil
      · exact .nil
      · exact .cons (Or.inl rfl) (.cons (Or.inl rfl) hCopy)
      · exact .nil

end DataFunction

variable {body : Bytes}

/- Bodies of one length have payloads of one length. -/
theorem Jsre.Request.payload_cases
    (input : Jsre.Request)
    (hBody : body.length = input.data.length) :
    (input.payload = none ∧
      { input with data := body }.payload = none) ∨
    ∃ payload payload',
      input.payload = some payload ∧
        { input with data := body }.payload = some payload' ∧
        payload.length = input.size.toNat ∧
        payload'.length = input.size.toNat := by
  by_cases hShort : input.data.length < input.size.toNat
  · left
    simp only [payload, hBody, if_pos hShort, and_self]
  · right
    simp only [payload, hBody, if_neg hShort]
    exact ⟨_, _, rfl, rfl, by simp; omega, by simp; omega⟩

/- The first four bytes of a body make its `filemeta`. -/
theorem Jsre.Filemeta.parse_congr
    {body' : Bytes}
    (hLength : body'.length = body.length)
    (hTake : body'.take 4 = body.take 4) :
    Filemeta.parse body' = Filemeta.parse body := by
  have hNth : ∀ x < 4,
      Buffer.nth body' x = Buffer.nth body x := by
    intro x hx
    have hSame := congrArg (Buffer.nth · x) hTake
    simpa only [Buffer.nth_take, if_pos hx] using hSame
  have hWindow : ∀ pos, pos + 2 ≤ 4 →
      Buffer.window body' pos 2 = Buffer.window body pos 2 := by
    intro pos hPos
    refine Buffer.window_congr ?_
    intro i hi
    exact hNth _ (by omega)
  unfold Filemeta.parse
  rw [hLength, hWindow 0 (by omega), hWindow 2 (by omega)]

namespace Files

variable {k : Nat} {files files' : Files}

theorem agree_read
    (conf : StorageConf)
    {uuid : Uuid}
    (hAgree : Buffer.AgreeFrom k (files uuid) (files' uuid))
    (size : Nat) :
    Buffer.AgreeFrom k (files.read conf uuid size)
      (files'.read conf uuid size) := by
  unfold read Blocks.span
  rw [hAgree.length]
  exact hAgree.resize _

end Files

namespace Task

variable {conf : StorageConf} {k : Nat}
variable {cat cat' : Catalog} {files files' : Files}
variable {p : FileId} {task task' : Task}

/- A request that writes data for a file with another body. -/
theorem alike_withBody
    (hWrites : task.WritesTo p)
    (hFile : cat' task.input.fileKey = none)
    {body : Bytes}
    (hBody : body.length = task.input.data.length)
    (hMeta : body.take task.metaLength =
      task.input.data.take task.metaLength)
    (hData : task.dataLength ≤ k)
    (hRecords : cat.records files' = cat.records files) :
    List.Forall₂ (Input.Alike k cat')
      (task.inputs conf cat files)
      ((task.withBody body).inputs conf cat files') := by
  unfold inputs outcome
  rw [hRecords]
  rcases hWrites.1 with hWork | hWork
  · have hLe : task.input.size.toNat ≤ k := by
      simpa only [dataLength, metaLength, hWork,
        Nat.sub_zero] using hData
    simp only [next, withBody, hWork, startWrite]
    refine alike_withDirectory ?_
    intro stat
    rcases task.input.payload_cases hBody with
      ⟨hNone, hNone'⟩ |
      ⟨payload, payload', hSome, hSome', hSize, hSize'⟩
    · simp only [hNone, hNone']
      exact .nil
    · simp only [hSome, hSome']
      refine .cons (Or.inl rfl) (.cons (Or.inr ?_) .nil)
      exact ⟨rfl, hFile, Buffer.agreeFrom_of_length_le
        (hSize.trans hSize'.symm)
        (Nat.le_trans (Nat.le_of_eq hSize) hLe)⟩
  · have hLe : task.input.size.toNat - 4 ≤ k := by
      simpa only [dataLength, metaLength, hWork] using hData
    have hParse : Filemeta.parse body =
        Filemeta.parse task.input.data := by
      refine Filemeta.parse_congr hBody ?_
      simpa only [metaLength, hWork] using hMeta
    simp only [next, withBody, hWork, hParse,
      startCreateAndWriteFileSingleRequest]
    refine alike_withDirectory ?_
    intro stat
    cases Filemeta.parse task.input.data with
    | none => exact .nil
    | some m =>
        simp only [Jsre.Request.name]
        split
        · exact .nil
        · rcases task.input.payload_cases hBody with
            ⟨hNone, hNone'⟩ |
            ⟨payload, payload', hSome, hSome', hSize, hSize'⟩
          · simp only [hNone, hNone']
            exact .nil
          · simp only [hSome, hSome', hSize, hSize']
            split
            · exact .nil
            · refine .cons (Or.inl rfl)
                (.cons (Or.inr ⟨rfl, hFile, ?_⟩) .nil)
              refine Buffer.agreeFrom_of_length_le ?_ ?_
              · simp only [List.length_drop, hSize, hSize']
              · simp only [List.length_drop, hSize]
                exact hLe

/- The same request on files that agree. -/
theorem alike_same
    (hAllowed : task.Allowed cat)
    (hFree : ∀ uuid, task.makes = [] → cat uuid = none →
      cat' uuid = none)
    (hRecords : cat.records files' = cat.records files)
    (hAgree : ∀ uuid,
      Buffer.AgreeFrom k (files uuid) (files' uuid)) :
    List.Forall₂ (Input.Alike k cat')
      (task.inputs conf cat files)
      (task.inputs conf cat files') := by
  unfold inputs outcome
  rw [hRecords]
  cases hWork : task.work with
  | file op =>
      simp only [next, hWork]
      cases op with
      | read | write => exact Input.alike_refl _
  | metadata op =>
      simp only [next, hWork]
      cases op with
      | init | addfile | mkdir | deletefile
      | addfileWrite | ls | «open» | close
      | getstatfile | getstatdir | lock | unlock =>
          exact Input.alike_refl _
      | renameSameproxy =>
          cases hInfo : RenameInfo.parse task.input.data with
          | none => exact .nil
          | some info =>
              simp only [Allowed, hWork] at hAllowed
              have hKey := hFree info.newFileKey
                (by simp only [makes, hWork])
                (hAllowed info hInfo).2
              exact alike_renameNext hKey _ _
                (fun size => Files.agree_read conf
                  (hAgree _) size.toNat)

/- A request writes alike, and the catalog is the same. -/
theorem alike_inputs
    (hAllowed : task.Allowed cat)
    (hSame : SameFrom p k task task')
    (hRecords : cat.records files' = cat.records files)
    (hAgree : ∀ uuid,
      Buffer.AgreeFrom k (files uuid) (files' uuid)) :
    List.Forall₂ (Input.Alike k (cat.after conf task))
      (task.inputs conf cat files)
      (task'.inputs conf cat files') := by
  have hFree : ∀ uuid, task.makes = [] → cat uuid = none →
      cat.after conf task uuid = none := by
    intro uuid hMakes hNone
    unfold Catalog.after
    cases hStep : cat.step conf task with
    | none => exact hNone
    | some cat' =>
        have hSome := Catalog.isSome_step hStep uuid
        rw [hMakes, hNone] at hSome
        simpa using hSome
  rcases hSame with ⟨hBut, hEq | hLe⟩
  · subst hEq
    exact alike_same hAllowed hFree hRecords hAgree
  · cases hBut with
    | same => exact alike_same hAllowed hFree hRecords hAgree
    | data body hWrites hBody hMeta =>
        refine alike_withBody hWrites ?_ hBody hMeta hLe hRecords
        rcases hWrites.1 with hWork | hWork
        · simp only [Allowed, hWork] at hAllowed
          exact hFree _ (by simp only [makes, hWork]) hAllowed
        · simp only [Allowed, hWork] at hAllowed
          exact hFree _ (by simp only [makes, hWork]) hAllowed.2

/- The catalog does not see the data. -/
theorem SameBut.after_eq
    (h : SameBut p task task')
    (cat : Catalog) :
    cat.after conf task' = cat.after conf task := by
  cases h with
  | same => rfl
  | data body hWrites hBody hMeta =>
      unfold Catalog.after Catalog.step
      rcases hWrites.1 with hWork | hWork
      · simp only [withBody, hWork]
        rfl
      · have hParse : Filemeta.parse body =
            Filemeta.parse task.input.data := by
          refine Filemeta.parse_congr hBody ?_
          simpa only [metaLength, hWork] using hMeta
        simp only [withBody, hWork, entry, hParse]
        rfl

/- Nor is it asked for what makes a request proper. -/
theorem SameBut.proper_iff
    (h : SameBut p task task')
    (s : Store)
    (cat : Catalog) :
    task'.Proper conf s cat ↔ task.Proper conf s cat := by
  cases h with
  | same => rfl
  | data body hWrites _ _ =>
      unfold Proper
      rcases hWrites.1 with hWork | hWork
      · simp only [withBody, hWork]
      · simp only [withBody, hWork]

/- Stores with the same keys have the same proper requests. -/
theorem Proper.of_known
    {s s' : Store}
    (hKnown : ∀ uuid, s.Known conf cat uuid →
      s'.Known conf cat uuid)
    (hProper : task.Proper conf s cat) :
    task.Proper conf s' cat := by
  cases hWork : task.work with
  | file op =>
      simp only [Proper, hWork] at hProper ⊢
      cases op with
      | read => trivial
      | write => exact ⟨hKnown _ hProper.1, hProper.2⟩
  | metadata op =>
      simp only [Proper, hWork] at hProper ⊢
      cases op with
      | addfile | mkdir | addfileWrite =>
          exact ⟨hKnown _ hProper.1, hProper.2⟩
      | deletefile => exact hKnown _ hProper
      | renameSameproxy =>
          intro info hInfo
          rcases hProper info hInfo with
            ⟨hParent, hDest, hRest⟩
          exact ⟨hKnown _ hParent, hKnown _ hDest, hRest⟩
      | init | ls | «open» | close => trivial
      | getstatfile | getstatdir | lock | unlock => trivial

end Task

----------
-- Histories Side By Side
----------

/- Whether a key is missing depends on how much is there. -/
theorem Cluster.Contains.missing_iff
    {conf : StorageConf}
    {c : Cluster}
    {files : Files}
    (h : c.Contains conf files)
    (uuid : Uuid) :
    c.Missing conf uuid ↔
      min DataFunction.readsize
          (Blocks.span conf.blocksize (files uuid)) <
        recordSize := by
  unfold Cluster.Missing
  rw [h.readBytes_zero uuid (by decide)]
  simp

namespace Volume

open Coordinator (okReply)

variable {conf : StorageConf}
variable {formatTime : UInt64 → Bytes} {fuel : Nat}
variable {k : Nat} {p : FileId} {v v' w w' : Volume}
variable {files files' : Files} {task task' : Task}
variable {tasks tasks' : List Task}

variable (conf k) in
/-
  Volumes with the same directories, whose files agree from
  an index on.
-/
structure Twins
    (v v' : Volume)
    (files files' : Files) :
    Prop where
  left : v.HasFiles conf files
  right : v'.HasFiles conf files'
  catalog : v'.catalog conf = v.catalog conf
  records :
    (v.catalog conf).records files' =
      (v.catalog conf).records files
  agree : ∀ uuid,
    Buffer.AgreeFrom k (files uuid) (files' uuid)

theorem twins_start :
    Twins conf k (start Store.empty) (start Store.empty)
      (fun _ => []) (fun _ => []) where
  left := hasFiles_start
  right := hasFiles_start
  catalog := rfl
  records := rfl
  agree := fun _ => Buffer.AgreeFrom.refl k _

/- What is proper in one volume is so in the other. -/
theorem Twins.proper
    (h : Twins conf k v v' files files')
    (hProper : v.Proper conf task) :
    v'.Proper conf task := by
  unfold Proper at hProper ⊢
  rw [h.catalog]
  refine Task.Proper.of_known ?_ hProper
  intro uuid hKnown hNone
  have hMissing := hKnown hNone
  rw [h.left.contains.missing_iff] at hMissing
  rw [h.right.contains.missing_iff]
  unfold Blocks.span at hMissing ⊢
  rwa [← (h.agree uuid).length]

/- One request in each of them. -/
theorem Twins.step
    (h : Twins conf k v v' files files')
    (hFuel : 2 ≤ fuel)
    (hProper : v.Proper conf task)
    (hSame : Task.SameFrom p k task task')
    (hStep : v.step conf formatTime fuel task = some w)
    (hStep' : v'.step conf formatTime fuel task' = some w') :
    ∃ files files', Twins conf k w w' files files' := by
  rcases h.left.step hFuel hProper hStep with
    ⟨hCat, hEdits, hFiles⟩
  have hProper' : v'.Proper conf task' :=
    (hSame.1.proper_iff _ _).mpr (h.proper hProper)
  rcases h.right.step hFuel hProper' hStep' with
    ⟨hCat', _, hFiles'⟩
  rw [h.catalog] at hCat' hFiles'
  rw [hSame.1.after_eq, ← hCat] at hCat'
  have hInputs : List.Forall₂
      (Input.Alike k ((v.catalog conf).after conf task))
      (task.inputs conf (v.catalog conf) files)
      (task'.inputs conf (v.catalog conf) files') :=
    Task.alike_inputs (Task.Proper.allowed hProper) hSame
      h.records h.agree
  rw [← hCat] at hInputs
  exact ⟨_, _,
    { left := hFiles
      right := hFiles'
      catalog := hCat'
      records :=
        Catalog.records_write hInputs hEdits h.records
      agree := fun uuid =>
        Files.agree_write hInputs (h.agree uuid) }⟩

/- Whole histories. -/
theorem Twins.run
    (hFuel : 2 ≤ fuel)
    (hSame :
      List.Forall₂ (Task.SameFrom p k) tasks tasks')
    (h : Twins conf k v v' files files')
    (hProper :
      Along (Volume.step conf formatTime fuel)
        (Proper conf) v tasks)
    (hRun :
      run (Volume.step conf formatTime fuel) v
        tasks = some w)
    (hRun' :
      run (Volume.step conf formatTime fuel) v'
        tasks' = some w') :
    ∃ files files', Twins conf k w w' files files' := by
  induction hSame generalizing v v' files files' with
  | nil =>
      cases hRun
      cases hRun'
      exact ⟨files, files', h⟩
  | cons hHead _ ih =>
      rcases run_cons.mp hRun with
        ⟨m, hStep, hRest⟩
      rcases run_cons.mp hRun' with
        ⟨m', hStep', hRest'⟩
      rcases (along_cons hStep).mp hProper with
        ⟨hFirst, hTail⟩
      rcases h.step hFuel hFirst hHead hStep hStep' with
        ⟨_, _, hNext⟩
      exact ih hNext hTail hRest hRest'

/- A read that does not reach back behind the index. -/
theorem Twins.read
    (h : Twins conf k v v' files files')
    (hRead : task.work = .file .read)
    (hPosition : k = task.input.position.toNat) :
    (v'.store.runTask conf formatTime fuel task).map
        Prod.fst =
      (v.store.runTask conf formatTime fuel task).map
        Prod.fst := by
  subst hPosition
  have hBytes :=
    h.left.contains.readBytes_of_agreeFrom h.right.contains
      (h.agree task.input.fileKey) task.input.size.toNat
  simp only [Store.runTask, hRead, Store.startPerform, hBytes,
    Option.map_map]
  rfl

/- What one of them answers `OK`, the other does. -/
theorem Twins.answer
    (h : Twins conf k v v' files files')
    (hFuel : 2 ≤ fuel)
    (hProper : v.Proper conf task)
    (hWork : task.work.edits = true)
    (hReply :
      (v.store.runTask conf formatTime fuel task).map
        Prod.fst = some [okReply])
    (hStep : v'.step conf formatTime fuel task = some w') :
    (v'.store.runTask conf formatTime fuel task).map
      Prod.fst = some [okReply] := by
  rcases Option.map_eq_some_iff.mp hReply with
    ⟨⟨replies, store⟩, hRun, hOk⟩
  rcases Option.map_eq_some_iff.mp hStep with
    ⟨⟨replies', store'⟩, hRun', _⟩
  have hEdit :=
    (h.left.holds.edit hFuel hProper hWork hRun).reply
  have hEdit' := (h.right.holds.edit hFuel (h.proper hProper)
    hWork hRun').reply
  rw [h.catalog] at hEdit'
  rw [hRun', Option.map_some, hEdit'.mpr (hEdit.mp hOk)]

/- The same after the start of two histories. -/
theorem answer_of_same
    (hFuel : 2 ≤ fuel)
    (hSame :
      List.Forall₂ (Task.SameFrom p k) tasks tasks')
    (hWork : task.work.edits = true)
    {rest : List Task}
    (hProper :
      Along (Volume.step conf formatTime fuel)
        (Proper conf) (start Store.empty)
        (tasks ++ task :: rest))
    (hRun' :
      run (Volume.step conf formatTime fuel)
        (start Store.empty) (tasks' ++ task :: rest) =
          some w')
    (hReply :
      replyAfter conf formatTime fuel tasks task =
        some [okReply]) :
    replyAfter conf formatTime fuel tasks' task =
      some [okReply] := by
  rcases Option.bind_eq_some_iff.mp hReply with
    ⟨m, hFirst, hOk⟩
  rcases run_append.mp hRun' with
    ⟨m', hFirst', hRest'⟩
  rcases run_cons.mp hRest' with ⟨n', hStep', _⟩
  rcases (along_append hFirst).mp hProper with
    ⟨hBefore, hTask⟩
  rcases Twins.run hFuel hSame twins_start hBefore hFirst
    hFirst' with ⟨_, _, hTwins⟩
  unfold replyAfter
  rw [hFirst', Option.bind_some]
  exact hTwins.answer hFuel hTask.1 hWork hOk hStep'

/-
  A file is deleted and created again. A history that differs
  in data written to it before, which ended before the
  position of a read, also does so and answers the read in
  the same way, if the read is answered. One that starts
  behind the end of a block is answered with what lies there.
-/
theorem recreated_reads_alike
    (conf : StorageConf)
    (formatTime : UInt64 → Bytes)
    (fuel : Nat)
    (p : FileId)
    (before before' between after : List Task)
    (deletion creation read : Task)
    (reply : List Bytes)
    (v' : Volume)
    (hFuel : 2 ≤ fuel)
    (hRecreated :
      Recreated conf formatTime fuel p before deletion between
        creation after)
    (hSame : List.Forall₂ (Task.SameBut p) before before')
    (hProper :
      Along (Volume.step conf formatTime fuel)
        (Proper conf) (start Store.empty)
        (before ++ deletion :: between ++ creation :: after))
    (hRun' :
      run (Volume.step conf formatTime fuel)
        (start Store.empty)
        (before' ++ deletion :: between ++ creation :: after) =
          some v')
    (hRead : read.work = .file .read ∧ read.On p)
    (hEnded : ∀ task ∈ before, task.WritesTo p →
      task.dataLength ≤ read.input.position.toNat)
    (hReply :
      replyAfter conf formatTime fuel
        (before ++ deletion :: between ++ creation :: after)
        read = some reply) :
    Recreated conf formatTime fuel p before' deletion between
        creation after ∧
      replyAfter conf formatTime fuel
        (before' ++ deletion :: between ++ creation :: after)
        read = some reply := by
  have hBefore : List.Forall₂
      (Task.SameFrom p read.input.position.toNat)
      before before' := by
    refine ((List.forall₂_and_left _ _).mpr
      ⟨hEnded, hSame⟩).imp ?_
    rintro task task' ⟨hLe, hTask⟩
    refine ⟨hTask, ?_⟩
    cases hTask with
    | same => exact Or.inl rfl
    | data body hWrites _ _ => exact Or.inr (hLe hWrites)
  have hOthers : ∀ tasks : List Task,
      List.Forall₂
        (Task.SameFrom p read.input.position.toNat)
        tasks tasks :=
    fun tasks => List.forall₂_same.mpr
      (fun task _ => ⟨.same task, Or.inl rfl⟩)
  have hMiddle := List.rel_append hBefore
    (hOthers (deletion :: between))
  have hAll := List.rel_append hMiddle
    (hOthers (creation :: after))
  refine ⟨?_, ?_⟩
  · exact
      { deletes := hRecreated.deletes
        deleted := by
          rw [List.append_assoc] at hProper hRun'
          exact answer_of_same hFuel hBefore
            (by rw [hRecreated.deletes.1]; rfl) hProper hRun'
            hRecreated.deleted
        creates := hRecreated.creates
        created :=
          answer_of_same hFuel hMiddle
            (by rw [hRecreated.creates.1]; rfl) hProper hRun'
            hRecreated.created
        unwritten := hRecreated.unwritten }
  · rcases Option.bind_eq_some_iff.mp hReply with
      ⟨v, hRun, hAnswer⟩
    rcases Twins.run hFuel hAll twins_start hProper hRun
      hRun' with ⟨_, _, hTwins⟩
    rw [replyAfter, hRun', Option.bind_some,
      hTwins.read hRead.1 rfl, hAnswer]

/- The file of the samples. -/
def sampleFile : FileId :=
  { directory := sampleKey 7
    name := Decimal.ascii "a"
    key := sampleKey 8 }

/- A read of one byte of it. -/
def sampleRead (position : UInt32) : Task :=
  { sampleTask (.file .read) "a" [] with
    input :=
      { (sampleTask (.file .read) "a" []).input with
        position := position
        size := 1 } }

/- It is made, and one byte is written to it. -/
def writtenOnce (byte : UInt8) : List Task :=
  [sampleTask (.metadata .init) "" [],
    sampleTask (.metadata .addfile) "a" [0, 1, 2, 3],
    sampleTask (.file .write) "a" [byte]]

theorem same_writtenOnce
    (byte byte' : UInt8) :
    List.Forall₂ (Task.SameBut sampleFile) (writtenOnce byte)
      (writtenOnce byte') := by
  have hName : cstring (nameField (Decimal.ascii "a")) =
      Decimal.ascii "a" := by
    decide
  exact .cons (.same _) (.cons (.same _) (.cons
    (.data _ [byte'] ⟨Or.inl rfl, rfl, hName, rfl⟩ rfl rfl)
    .nil))

theorem recreated_writtenOnce :
    Recreated standard (fun _ => []) 2 sampleFile
      (writtenOnce 1)
      (sampleTask (.metadata .deletefile) "a" []) []
      (sampleTask (.metadata .addfile) "a" [0, 1, 2, 3])
      [] where
  deletes := ⟨rfl, by decide +kernel⟩
  deleted := by decide +kernel
  creates := ⟨rfl, by decide +kernel⟩
  created := by decide +kernel
  unwritten := by simp

theorem reply_writtenOnce :
    ∀ byte ∈ [1, 2],
      replyAfter standard (fun _ => []) 2
        (writtenOnce byte ++
          [sampleTask (.metadata .deletefile) "a" []] ++
          [sampleTask (.metadata .addfile) "a" [0, 1, 2, 3]])
        (sampleRead 0) = some [[byte]] := by
  decide +kernel

/- A read from the end of the block on. -/
theorem recreated_reads_behind_byte :
    Recreated standard (fun _ => []) 2 sampleFile
        (writtenOnce 2)
        (sampleTask (.metadata .deletefile) "a" []) []
        (sampleTask (.metadata .addfile) "a" [0, 1, 2, 3])
        [] ∧
      replyAfter standard (fun _ => []) 2
        (writtenOnce 2 ++
          [sampleTask (.metadata .deletefile) "a" []] ++
          [sampleTask (.metadata .addfile) "a" [0, 1, 2, 3]])
        (sampleRead 1) = some [[0]] := by
  rcases Option.bind_eq_some_iff.mp
    (reply_writtenOnce 2 (by simp)) with ⟨v', hRun', _⟩
  exact recreated_reads_alike standard
    (fun _ => []) 2 sampleFile (writtenOnce 1) (writtenOnce 2)
    [] [] _ _ (sampleRead 1) _ v' (Nat.le_refl 2)
    recreated_writtenOnce (same_writtenOnce 1 2)
    (by decide +kernel) hRun' ⟨rfl, by decide +kernel⟩
    (by decide +kernel) (by decide +kernel)

/- A read finds the byte that was written to the old file. -/
theorem recreated_reads_old_byte :
    Recreated standard (fun _ => []) 2 sampleFile
        (writtenOnce 1)
        (sampleTask (.metadata .deletefile) "a" []) []
        (sampleTask (.metadata .addfile) "a" [0, 1, 2, 3])
        [] ∧
      List.Forall₂ (Task.SameBut sampleFile) (writtenOnce 1)
        (writtenOnce 2) ∧
      replyAfter standard (fun _ => []) 2
          (writtenOnce 1 ++
            [sampleTask (.metadata .deletefile) "a" []] ++
            [sampleTask (.metadata .addfile) "a"
              [0, 1, 2, 3]])
          (sampleRead 0) = some [[1]] ∧
      replyAfter standard (fun _ => []) 2
          (writtenOnce 2 ++
            [sampleTask (.metadata .deletefile) "a" []] ++
            [sampleTask (.metadata .addfile) "a"
              [0, 1, 2, 3]])
          (sampleRead 0) = some [[2]] :=
  ⟨recreated_writtenOnce, same_writtenOnce 1 2,
    reply_writtenOnce 1 (by simp), reply_writtenOnce 2 (by simp)⟩

end Volume

end Slfs
