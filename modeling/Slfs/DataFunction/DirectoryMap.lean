import Slfs.DataFunction.Stored

/-
  Directories as finite maps.

  Requests that are run one after another behave as commands
  on a map from names to metadata: their replies are those of
  the map, and listing a directory shows its entries.

  Main declarations:
    * `Store.Refines`
    * `Store.directory_refines_map`
-/

----------
-- The Map
----------

namespace Slfs

/- What a directory records about an entry. -/
structure Metadata where
  owner : UInt16
  permission : UInt16
  fileSize : UInt16
  creationTime : UInt64
  modificationTime : UInt64
deriving DecidableEq, Repr

def Jsre.FilemetaServer.metadata (r : FilemetaServer) :
    Metadata :=
  { owner := r.owner
    permission := r.permission
    fileSize := r.fileSize
    creationTime := r.creationTime
    modificationTime := r.modificationTime }

/- A directory as its users think of it. -/
abbrev DirectoryMap := Finmap (fun _ : Bytes => Metadata)

namespace DirectoryMap

open Coordinator (literal okReply)

inductive Command where
| init
| addFile (name : Bytes) (entry : Metadata)
| makeDirectory (name : Bytes) (entry : Metadata)
| delete (name : Bytes)
deriving DecidableEq, Repr

/- A name is added once. -/
def add
    (m : DirectoryMap)
    (error : Bytes)
    (name : Bytes)
    (entry : Metadata) :
    Bytes × DirectoryMap :=
  if name ∈ m then (error, m)
  else (okReply, m.insert name entry)

/- The reply to a command, and the map after it. -/
def step (m : DirectoryMap) : Command → Bytes × DirectoryMap
| .init => (okReply, ∅)
| .addFile name entry =>
    m.add (literal "Error: File already exists") name entry
| .makeDirectory name entry =>
    m.add (literal "Error: Directory already exists") name
      entry
| .delete name =>
    if name ∈ m then (okReply, m.erase name)
    else (literal "Error: File not found", m)

def run : DirectoryMap → List Command →
    List Bytes × DirectoryMap
| m, [] => ([], m)
| m, command :: rest =>
    let (reply, m) := m.step command
    let (replies, m) := run m rest
    (reply :: replies, m)

----------
-- Requests On A Directory
----------

open Jsre

/- The requests that change the entries of a directory. -/
inductive Operation where
| init
| addfile
| mkdir
| addfileWrite
| deletefile
deriving DecidableEq, Repr

def Operation.toMeta : Operation → MetaOperation
| .init => .init
| .addfile => .addfile
| .mkdir => .mkdir
| .addfileWrite => .addfileWrite
| .deletefile => .deletefile

/- A request, with what its run takes from outside. -/
structure Call where
  op : Operation
  input : Request
  amb : Ambient
  schedule : Schedule

namespace Call

/-
  A request on a directory: its body is complete, and files
  and directories that it creates have their own keys.
-/
def On (call : Call) (uuid : Uuid) : Prop :=
  call.input.uuid = uuid ∧
    match call.op with
    | .init => True
    | .addfile => 4 ≤ call.input.data.length
    | .mkdir =>
        4 ≤ call.input.data.length ∧ call.input.fileKey ≠ uuid
    | .addfileWrite =>
        4 ≤ call.input.size.toNat ∧
          call.input.size.toNat ≤ call.input.data.length ∧
          call.input.fileKey ≠ uuid
    | .deletefile => True

/- The metadata of a new entry. -/
def entry (call : Call) : Metadata :=
  let m := (Filemeta.parse call.input.data).getD ⟨0, 0⟩
  { owner := m.owner
    permission := m.permission
    fileSize := 0
    creationTime := call.amb.now
    modificationTime := call.amb.now }

/- What the request means for the map. -/
def command (call : Call) : Command :=
  match call.op with
  | .init => .init
  | .addfile => .addFile call.input.name call.entry
  | .mkdir => .makeDirectory call.input.name call.entry
  | .addfileWrite => .addFile call.input.name call.entry
  | .deletefile => .delete call.input.name

end Call

end DirectoryMap

namespace Store

open Jsre
open Coordinator (literal okReply)

variable (conf : StorageConf)
variable (formatTime : UInt64 → Bytes) (fuel : Nat)

/- Run requests one after another, and collect the replies. -/
def runCalls :
    List DirectoryMap.Call → Store →
      Option (List (List Bytes) × Store)
| [], s => some ([], s)
| call :: rest, s => do
    let (replies, s) ←
      s.startPerformMetadata conf formatTime fuel call.amb
        call.schedule call.op.toMeta call.input
    let (more, s) ← runCalls rest s
    some (replies :: more, s)

/-
  The entries of a map as `ls` and `open` show them, and the
  number of entries in the directory file.
-/
structure ReadBack
    (s : Store)
    (uuid : Uuid)
    (m : DirectoryMap) :
    Prop where
  ls :
    ∃ entries,
      Table.Represents FilemetaServer.name
        FilemetaServer.metadata entries m ∧
      ∀ amb schedule input, input.uuid = uuid →
        s.startPerformMetadata conf formatTime fuel amb schedule
            .ls input =
          some ([DataFunction.listing formatTime
            entries.length entries], s)
  openFile :
    ∀ amb schedule input, input.uuid = uuid →
      s.startPerformMetadata conf formatTime fuel amb schedule
          .open input =
        some ([if input.name ∈ m then okReply
          else literal "Error: File not found"], s)
  fileCount :
    ∃ record,
      s.servers.readBytes conf uuid 0 recordSize =
          some record ∧
        (Directory.stats record).fileCount.toNat =
          m.keys.card

/- A directory is stored with the entries of a map. -/
def Refines (s : Store) (uuid : Uuid) (m : DirectoryMap) :
    Prop :=
  s.servers.NoPending conf ∧
    ∃ entries,
      s.servers.Stored conf uuid entries ∧
        Table.Represents FilemetaServer.name
          FilemetaServer.metadata entries m

----------
-- One Request
----------

variable {conf : StorageConf}
variable {formatTime : UInt64 → Bytes} {fuel : Nat}
variable {s : Store} {uuid : Uuid} {m : DirectoryMap}

/- A directory of moderate size can be read and written. -/
theorem size_lt
    {n : Nat}
    (hSmall : n ≤ 2 ^ 20) :
    Directory.size n < 2 ^ 32 := by
  rw [Directory.size_eq]
  omega

/- A new directory has no entries. -/
theorem refines_init
    (hPending : s.servers.NoPending conf)
    (amb : Ambient)
    (schedule : Schedule)
    (input : Request) :
    ∃ s',
      s.startTwoPcPrepare conf schedule
          (DataFunction.startMetaInit amb input) =
          some ([okReply], s') ∧
        s'.Refines conf input.uuid ∅ := by
  rcases startMetaInit_stored hPending amb schedule input with
    ⟨s', hRun, hFree, hStored, _⟩
  exact ⟨s', hRun, hFree, [], hStored, Table.represents_nil⟩

/-
  A handler that looks for a name and adds an entry for it if
  it is new, possibly with other writes.
-/
theorem Refines.add
    (h : s.Refines conf uuid m)
    (hFuel : 2 ≤ fuel)
    (hSmall : m.keys.card < 2 ^ 20)
    (schedule : Schedule)
    (readnext : Bytes → Next Writes)
    (error : Bytes)
    (kind : PrepareKind)
    (r : FilemetaServer)
    (others : List Input)
    {body : Bytes → Stats → Action Writes}
    (hBody : ∀ content, readnext content =
      DataFunction.withDirectory content (body content))
    (hOthers : (uuid :: others.map Input.uuid).Nodup)
    (hAct : ∀ content stat, body content stat =
      match Directory.find content stat.fileCount.toNat
          r.name with
      | some _ => .reply error
      | none =>
          .go (kind,
            ⟨uuid, 0, Directory.append content stat r⟩ ::
              others)) :
    ∃ s',
      s.perform conf fuel schedule uuid readnext =
          some ([(m.add error r.name r.metadata).1], s') ∧
        s'.Refines conf uuid
          (m.add error r.name r.metadata).2 := by
  rcases h with ⟨hPending, entries, hStored, hMap⟩
  have hCard := hMap.card_keys
  rcases perform_of_stored hStored (size_lt (by omega)) hFuel
    schedule readnext hBody with
    ⟨content, hHolds, hPerform⟩
  rw [hPerform, hAct, hHolds.count]
  unfold DirectoryMap.add
  cases hFind : Directory.find content entries.length r.name with
  | some i =>
      rcases hHolds.find_eq_some hFind with ⟨r', hr', hName⟩
      have hMem : r.name ∈ m :=
        (hMap.mem_iff _).mpr (List.mem_map.mpr
          ⟨r', List.mem_of_getElem? hr', hName⟩)
      rw [if_pos hMem]
      exact ⟨s, rfl, hPending, entries, hStored, hMap⟩
  | none =>
      have hNew := hHolds.find_eq_none.mp hFind
      have hNot : r.name ∉ m := by
        rw [hMap.mem_iff]
        exact hNew
      rw [if_neg hNot]
      rcases commit_stored schedule kind others hPending hOthers
        (Directory.exactly_append hHolds (size_lt (by omega))
          r) with
        ⟨s', hRun, _, hFree, hStored'⟩
      exact ⟨s', hRun, hFree, _, hStored', hMap.append hNew⟩

/- Removing a name. -/
theorem Refines.delete
    (h : s.Refines conf uuid m)
    (hFuel : 2 ≤ fuel)
    (hSmall : m.keys.card < 2 ^ 20)
    (schedule : Schedule)
    {input : Request}
    (hUuid : input.uuid = uuid) :
    ∃ s',
      s.perform conf fuel schedule uuid
          (DataFunction.startMetaDeleteFile input) =
          some ([(m.step (.delete input.name)).1], s') ∧
        s'.Refines conf uuid
          (m.step (.delete input.name)).2 := by
  rcases h with ⟨hPending, entries, hStored, hMap⟩
  have hCard := hMap.card_keys
  rcases perform_of_stored hStored (size_lt (by omega)) hFuel
    schedule (DataFunction.startMetaDeleteFile input)
    (fun _ => rfl) with
    ⟨content, hHolds, hPerform⟩
  rw [hPerform, hHolds.count, hUuid]
  unfold DirectoryMap.step
  cases hFind :
      Directory.find content entries.length input.name with
  | none =>
      have hNot : input.name ∉ m := by
        rw [hMap.mem_iff]
        exact hHolds.find_eq_none.mp hFind
      simp only [if_neg hNot]
      exact ⟨s, rfl, hPending, entries, hStored, hMap⟩
  | some i =>
      rcases hHolds.find_eq_some hFind with ⟨r, hr, hName⟩
      have hMem : input.name ∈ m :=
        (hMap.mem_iff _).mpr (List.mem_map.mpr
          ⟨r, List.mem_of_getElem? hr, hName⟩)
      have hLt : i < entries.length :=
        (List.getElem?_eq_some_iff.mp hr).1
      simp only [if_pos hMem]
      rcases commit_stored schedule .single [] hPending
        (List.nodup_singleton uuid)
        (Directory.exactly_remove hHolds (size_lt (by omega))
          hLt) with
        ⟨s', hRun, _, hFree, hStored'⟩
      refine ⟨s', hRun, hFree, _, hStored', ?_⟩
      rw [← hName]
      exact hMap.swapRemove hr

/- The entry of a request is the entry of its command. -/
theorem newEntry_spec
    (op : DirectoryMap.Operation)
    (input : Request)
    (amb : Ambient)
    (schedule : Schedule)
    (hBody : 4 ≤ input.data.length) :
    ∃ f,
      Filemeta.parse input.data = some f ∧
        (DataFunction.newEntry amb f input.name).name =
          input.name ∧
        (DataFunction.newEntry amb f input.name).metadata =
          (⟨op, input, amb, schedule⟩ :
            DirectoryMap.Call).entry := by
  have hParse : ∃ f, Filemeta.parse input.data = some f := by
    unfold Filemeta.parse
    rw [if_neg (by omega)]
    exact ⟨_, rfl⟩
  rcases hParse with ⟨f, hf⟩
  refine ⟨f, hf, cstring_nameField_cstring _, ?_⟩
  simp [DirectoryMap.Call.entry, hf, FilemetaServer.metadata,
    DataFunction.newEntry]

section

variable (h : s.Refines conf uuid m) (hFuel : 2 ≤ fuel)
variable (hSmall : m.keys.card < 2 ^ 20)
include h hFuel hSmall

theorem Refines.addfile
    {call : DirectoryMap.Call}
    (hOp : call.op = .addfile)
    (hOn : call.On uuid) :
    ∃ s',
      s.perform conf fuel call.schedule uuid
          (DataFunction.startMetaAddFile call.amb call.input) =
          some ([(m.step call.command).1], s') ∧
        s'.Refines conf uuid (m.step call.command).2 := by
  rcases call with ⟨op, input, amb, schedule⟩
  simp only at hOp
  subst hOp
  rcases hOn with ⟨hUuid, hBody⟩
  simp only at hUuid
  rcases newEntry_spec .addfile input amb schedule hBody with
    ⟨f, hParse, hName, hEntry⟩
  have hAdd := h.add hFuel hSmall schedule
    (DataFunction.startMetaAddFile amb input)
    (literal "Error: File already exists") .single
    (DataFunction.newEntry amb f input.name) []
    (fun _ => rfl) (List.nodup_singleton uuid)
    (fun content stat => by
      rw [hName]
      cases Directory.find content stat.fileCount.toNat
          input.name with
      | none => simp only [hParse, hUuid]
      | some i => simp only [hParse])
  rw [hName, hEntry] at hAdd
  exact hAdd

theorem Refines.mkdir
    {call : DirectoryMap.Call}
    (hOp : call.op = .mkdir)
    (hOn : call.On uuid) :
    ∃ s',
      s.perform conf fuel call.schedule uuid
          (DataFunction.startMetaMkdir call.amb call.input) =
          some ([(m.step call.command).1], s') ∧
        s'.Refines conf uuid (m.step call.command).2 := by
  rcases call with ⟨op, input, amb, schedule⟩
  simp only at hOp
  subst hOp
  rcases hOn with ⟨hUuid, hBody, hKey⟩
  simp only at hUuid
  rcases newEntry_spec .mkdir input amb schedule hBody with
    ⟨f, hParse, hName, hEntry⟩
  have hAdd := h.add hFuel hSmall schedule
    (DataFunction.startMetaMkdir amb input)
    (literal "Error: Directory already exists") .multiInputs
    (DataFunction.newEntry amb f input.name)
    [⟨input.fileKey, 0,
      (DataFunction.emptyStats amb).serialize⟩]
    (fun _ => rfl) (by simpa using Ne.symm hKey)
    (fun content stat => by
      rw [hName]
      cases Directory.find content stat.fileCount.toNat
          input.name with
      | none => simp only [hParse, hUuid]
      | some i => rfl)
  rw [hName, hEntry] at hAdd
  exact hAdd

theorem Refines.addfileWrite
    {call : DirectoryMap.Call}
    (hOp : call.op = .addfileWrite)
    (hOn : call.On uuid) :
    ∃ s',
      s.perform conf fuel call.schedule uuid
          (DataFunction.startCreateAndWriteFileSingleRequest
            call.amb call.input) =
          some ([(m.step call.command).1], s') ∧
        s'.Refines conf uuid (m.step call.command).2 := by
  rcases call with ⟨op, input, amb, schedule⟩
  simp only at hOp
  subst hOp
  rcases hOn with ⟨hUuid, hSize, hBody, hKey⟩
  simp only at hUuid hSize hBody
  rcases newEntry_spec .addfileWrite input amb schedule
    (by omega) with
    ⟨f, hParse, hName, hEntry⟩
  have hPayload :
      input.payload =
        some (input.data.take input.size.toNat) := by
    unfold Request.payload
    rw [if_neg (by omega)]
  have hLength :
      ¬ (input.data.take input.size.toNat).length < 4 := by
    simp only [List.length_take]
    omega
  have hAdd := h.add hFuel hSmall schedule
    (DataFunction.startCreateAndWriteFileSingleRequest amb input)
    (literal "Error: File already exists") .multiInputs
    (DataFunction.newEntry amb f input.name)
    [⟨input.fileKey, 0,
      (input.data.take input.size.toNat).drop 4⟩]
    (fun _ => rfl) (by simpa using Ne.symm hKey)
    (fun content stat => by
      rw [hName]
      cases Directory.find content stat.fileCount.toNat
          input.name with
      | none =>
          simp only [hParse, hPayload, if_neg hLength, hUuid]
      | some i => simp only [hParse])
  rw [hName, hEntry] at hAdd
  exact hAdd

end

/- Every request replies as its command and keeps the map. -/
theorem Refines.call
    (h : s.Refines conf uuid m)
    (formatTime : UInt64 → Bytes)
    (hFuel : 2 ≤ fuel)
    (hSmall : m.keys.card < 2 ^ 20)
    {call : DirectoryMap.Call}
    (hOn : call.On uuid) :
    ∃ s',
      s.startPerformMetadata conf formatTime fuel call.amb
          call.schedule call.op.toMeta call.input =
          some ([(m.step call.command).1], s') ∧
        s'.Refines conf uuid (m.step call.command).2 := by
  have hUuid := hOn.1
  unfold startPerformMetadata
  rw [hUuid]
  cases hOp : call.op with
  | init =>
      have hInit :=
        refines_init h.1 call.amb call.schedule call.input
      rw [hUuid] at hInit
      unfold DirectoryMap.Call.command
      rw [hOp]
      exact hInit
  | addfile => exact h.addfile hFuel hSmall hOp hOn
  | mkdir => exact h.mkdir hFuel hSmall hOp hOn
  | addfileWrite => exact h.addfileWrite hFuel hSmall hOp hOn
  | deletefile =>
      unfold DirectoryMap.Call.command
      rw [hOp]
      exact h.delete hFuel hSmall call.schedule hUuid

----------
-- Reading The Map Back
----------

theorem Refines.readBack
    (h : s.Refines conf uuid m)
    (hFuel : 2 ≤ fuel)
    (hSmall : m.keys.card < 2 ^ 20) :
    s.ReadBack conf formatTime fuel uuid m := by
  rcases h with ⟨_, entries, hStored, hMap⟩
  have hCard := hMap.card_keys
  have hSize : Directory.size entries.length < 2 ^ 32 :=
    size_lt (by omega)
  refine
    { ls := ⟨entries, hMap, ?_⟩
      openFile := ?_
      fileCount := ?_ }
  · intro amb schedule input hUuid
    rcases perform_of_stored hStored hSize hFuel schedule
      (DataFunction.startMetaLs formatTime) (fun _ => rfl) with
      ⟨content, hHolds, hPerform⟩
    rw [hHolds.count, hHolds.map_entry] at hPerform
    unfold startPerformMetadata
    rw [hUuid]
    exact hPerform
  · intro amb schedule input hUuid
    rcases perform_of_stored hStored hSize hFuel schedule
      (DataFunction.startMetaOpenFile input) (fun _ => rfl) with
      ⟨content, hHolds, hPerform⟩
    rw [hHolds.count] at hPerform
    unfold startPerformMetadata
    rw [hUuid]
    refine hPerform.trans ?_
    cases hFind :
        Directory.find content entries.length input.name with
    | none =>
        have hNot : input.name ∉ m := by
          rw [hMap.mem_iff]
          exact hHolds.find_eq_none.mp hFind
        rw [if_neg hNot]
        rfl
    | some i =>
        rcases hHolds.find_eq_some hFind with ⟨r, hr, hName⟩
        have hMem : input.name ∈ m :=
          (hMap.mem_iff _).mpr (List.mem_map.mpr
            ⟨r, List.mem_of_getElem? hr, hName⟩)
        rw [if_pos hMem]
        rfl
  · have hRecord : recordSize ≤ Directory.size entries.length :=
      Nat.le_add_right _ _
    have hReadable : s.servers.Readable conf uuid 0 recordSize :=
      (Cluster.readable_zero_iff (by decide)).mpr (fun x hx =>
        (Cluster.readable_zero_iff hSize).mp hStored.readable x
          (by omega))
    refine ⟨_, Cluster.readBytes_eq_of_readable (by decide)
      hReadable, ?_⟩
    rw [hCard, ← hStored.holds.count]
    refine congrArg (fun stat => stat.fileCount.toNat)
      (Directory.stats_congr ?_)
    intro x hx
    rw [Buffer.nth_map_range, Buffer.nth_map_range, if_pos hx,
      if_pos (by omega), Nat.zero_add]

----------
-- Sequences Of Requests
----------

/- A request adds at most one entry. -/
theorem card_step_le
    (m : DirectoryMap)
    (command : DirectoryMap.Command) :
    (m.step command).2.keys.card ≤ m.keys.card + 1 := by
  have hInsert : ∀ name entry,
      (Finmap.insert name entry m).keys.card ≤
        m.keys.card + 1 := by
    intro name entry
    have hKeys : (Finmap.insert name entry m).keys ⊆
        insert name m.keys := by
      intro k hk
      rw [Finmap.mem_keys, Finmap.mem_insert] at hk
      rw [Finset.mem_insert, Finmap.mem_keys]
      exact hk
    exact (Finset.card_le_card hKeys).trans
      (Finset.card_insert_le _ _)
  have hAdd : ∀ error name entry,
      (m.add error name entry).2.keys.card ≤
        m.keys.card + 1 := by
    intro error name entry
    unfold DirectoryMap.add
    by_cases hMem : name ∈ m
    · rw [if_pos hMem]
      exact Nat.le_succ _
    · rw [if_neg hMem]
      exact hInsert name entry
  cases command with
  | init => exact Nat.zero_le _
  | addFile name entry => exact hAdd _ name entry
  | makeDirectory name entry => exact hAdd _ name entry
  | delete name =>
      unfold DirectoryMap.step
      by_cases hMem : name ∈ m
      · simp only [if_pos hMem, Finmap.keys_erase]
        exact (Finset.card_erase_le).trans (Nat.le_succ _)
      · simp only [if_neg hMem]
        exact Nat.le_succ _

/- The map after some of the requests. -/
def mapAfter
    (m : DirectoryMap)
    (calls : List DirectoryMap.Call) :
    DirectoryMap :=
  (m.run (calls.map DirectoryMap.Call.command)).2

theorem card_mapAfter_le
    (m : DirectoryMap)
    (calls : List DirectoryMap.Call) :
    (mapAfter m calls).keys.card ≤
      m.keys.card + calls.length := by
  induction calls generalizing m with
  | nil => exact Nat.le_refl _
  | cons call rest ih =>
      have hStep := card_step_le m call.command
      have hRest := ih (m.step call.command).2
      rw [List.length_cons]
      exact hRest.trans (by omega)

/- Requests on a directory that stays small. -/
theorem Refines.runCalls
    (formatTime : UInt64 → Bytes)
    (hFuel : 2 ≤ fuel)
    {calls : List DirectoryMap.Call}
    (hOn : ∀ call ∈ calls, call.On uuid)
    (h : s.Refines conf uuid m)
    (hSmall : ∀ before after, calls = before ++ after →
      (mapAfter m before).keys.card < 2 ^ 20) :
    ∃ s',
      s.runCalls conf formatTime fuel calls =
          some ((m.run (calls.map
            DirectoryMap.Call.command)).1.map
              (fun reply => [reply]), s') ∧
        s'.Refines conf uuid (mapAfter m calls) := by
  induction calls generalizing s m with
  | nil => exact ⟨s, rfl, h⟩
  | cons call rest ih =>
      rcases h.call formatTime hFuel
        (hSmall [] _ rfl) (hOn call List.mem_cons_self) with
        ⟨s₁, hCall, hRefines⟩
      rcases ih
        (fun other hOther =>
          hOn other (List.mem_cons_of_mem _ hOther))
        hRefines
        (fun before after hEq =>
          hSmall (call :: before) after (by rw [hEq]; rfl)) with
        ⟨s', hRest, hLast⟩
      refine ⟨s', ?_, hLast⟩
      simp only [Store.runCalls, hCall, hRest,
        Option.bind_eq_bind, Option.bind_some]
      rfl

/-
  Requests that are run one after another on a directory, the
  first of which initialises it, reply as the commands of a
  finite map, and the directory reads back as the map.
-/
theorem directory_refines_map
    (conf : StorageConf)
    (formatTime : UInt64 → Bytes)
    (fuel : Nat)
    (uuid : Uuid)
    (s : Store)
    (first : DirectoryMap.Call)
    (rest : List DirectoryMap.Call)
    (hFuel : 2 ≤ fuel)
    (hPending : s.servers.NoPending conf)
    (hFirst : first.op = .init)
    (hOn : ∀ call ∈ first :: rest, call.On uuid)
    (hSmall : ∀ before after, rest = before ++ after →
      (mapAfter ∅ (first :: before)).keys.card < 2 ^ 20) :
    ∃ s',
      s.runCalls conf formatTime fuel (first :: rest) =
          some ((DirectoryMap.run ∅ ((first :: rest).map
            DirectoryMap.Call.command)).1.map
              (fun reply => [reply]), s') ∧
        s'.ReadBack conf formatTime fuel uuid
          (mapAfter ∅ (first :: rest)) := by
  have hCommand : first.command = .init := by
    unfold DirectoryMap.Call.command
    rw [hFirst]
  have hAfter : ∀ calls, mapAfter ∅ (first :: calls) =
      mapAfter ∅ calls := by
    intro calls
    simp only [mapAfter, List.map_cons, hCommand,
      DirectoryMap.run, DirectoryMap.step]
  rcases refines_init hPending first.amb first.schedule
    first.input with
    ⟨s₁, hInit, hRefines⟩
  rw [(hOn first List.mem_cons_self).1] at hRefines
  rcases Refines.runCalls formatTime hFuel
    (fun call hCall => hOn call (List.mem_cons_of_mem _ hCall))
    hRefines
    (fun before after hEq => by
      rw [← hAfter]
      exact hSmall before after hEq) with
    ⟨s', hRun, hLast⟩
  rw [hAfter]
  refine ⟨s', ?_, hLast.readBack hFuel ?_⟩
  · have hCall :
        s.startPerformMetadata conf formatTime fuel first.amb
            first.schedule first.op.toMeta first.input =
          some ([Coordinator.okReply], s₁) := by
      rw [hFirst]
      exact hInit
    simp only [runCalls, hCall, hRun, Option.bind_eq_bind,
      Option.bind_some, List.map_cons, hCommand,
      DirectoryMap.run, DirectoryMap.step]
  · rw [← hAfter]
    exact hSmall rest [] (List.append_nil rest).symm

/- A request of a short session. -/
def sessionCall
    (op : DirectoryMap.Operation)
    (name : String)
    (data : Bytes) :
    DirectoryMap.Call :=
  { op := op
    input :=
      { uuid := Vector.replicate 32 7
        position := 0
        size := 4
        fileName := nameField (Decimal.ascii name)
        fileKey := Vector.replicate 32 8
        data := data }
    amb :=
      { now := 5
        reserved := Vector.replicate 60 1
        gap := Vector.replicate 2 1
        rest := Vector.replicate 6 1 }
    schedule := Schedule.inOrder 3 }

/- A file and a directory, the file again, and its deletion. -/
def session : List DirectoryMap.Call :=
  [sessionCall .addfile "a" [0, 1, 2, 3],
    sessionCall .mkdir "d" [0, 1, 2, 3],
    sessionCall .addfile "a" [0, 1, 2, 3],
    sessionCall .deletefile "a" []]

theorem directory_refines_map_session :
    ∃ s',
      Store.empty.runCalls StorageConf.small (fun _ => []) 2
          (sessionCall .init "" [] :: session) =
          some ([[Coordinator.okReply], [Coordinator.okReply],
            [Coordinator.okReply],
            [Coordinator.literal "Error: File already exists"],
            [Coordinator.okReply]], s') ∧
        s'.ReadBack StorageConf.small (fun _ => []) 2
          (Vector.replicate 32 7)
          (mapAfter ∅ (sessionCall .init "" [] :: session)) := by
  have hReplies :
      (DirectoryMap.run ∅ ((sessionCall .init "" [] ::
          session).map DirectoryMap.Call.command)).1 =
        [Coordinator.okReply, Coordinator.okReply,
          Coordinator.okReply,
          Coordinator.literal "Error: File already exists",
          Coordinator.okReply] := by
    decide
  rcases directory_refines_map StorageConf.small (fun _ => []) 2
    (Vector.replicate 32 7) Store.empty
    (sessionCall .init "" []) session (Nat.le_refl 2)
    (Cluster.noPending_empty StorageConf.small) rfl
    (by
      intro call hCall
      simp only [session, List.mem_cons, List.not_mem_nil,
        or_false] at hCall
      rcases hCall with rfl | rfl | rfl | rfl | rfl
      · exact ⟨rfl, trivial⟩
      · exact ⟨rfl, Nat.le_refl 4⟩
      · exact ⟨rfl, Nat.le_refl 4, by decide⟩
      · exact ⟨rfl, Nat.le_refl 4⟩
      · exact ⟨rfl, trivial⟩)
    (by
      intro before after hEq
      have hCard := card_mapAfter_le ∅
        (sessionCall .init "" [] :: before)
      have hLength := congrArg List.length hEq
      rw [List.length_append] at hLength
      have hFour : session.length = 4 := rfl
      rw [List.length_cons, Finmap.keys_empty,
        Finset.card_empty] at hCard
      omega) with
    ⟨s', hRun, hRead⟩
  rw [hReplies] at hRun
  exact ⟨s', hRun, hRead⟩

end Store

end Slfs
