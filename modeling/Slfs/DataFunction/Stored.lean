import Slfs.DataFunction.Perform

/-
  Directories in the store.

  A directory is stored when its blocks exist and its bytes
  hold its entries. Reading a stored directory takes at most
  two reads, and a committed write of a content stores the
  entries of that content.

  Main declarations:
    * `Cluster.listed`, the entries of a directory file
    * `Store.startMetaInit_stored`
-/

----------
-- Writes Of Several Files
----------

namespace Slfs

namespace Cluster

variable {conf : StorageConf} {inputs : List Input}

/- The blocks of different files are different blocks. -/
theorem nodup_piecesOf
    (hUuids : (inputs.map Input.uuid).Nodup) :
    ((piecesOf conf inputs).map Piece.key).Nodup := by
  unfold piecesOf
  rw [List.map_flatMap, List.nodup_flatMap]
  refine ⟨fun input _ => input.nodup_keys, ?_⟩
  refine (List.pairwise_map.mp hUuids).imp ?_
  intro a b hNe k ha hb
  rcases List.mem_map.mp ha with ⟨p, hp, hpk⟩
  rcases List.mem_map.mp hb with ⟨q, hq, hqk⟩
  rcases Input.mem_pieces_iff.mp hp with ⟨_, _, hpEq⟩
  rcases Input.mem_pieces_iff.mp hq with ⟨_, _, hqEq⟩
  have hKey : p.key.uuid = q.key.uuid := by rw [hpk, hqk]
  rw [hpEq, hqEq] at hKey
  exact hNe hKey

/- An input with bytes in it has a block. -/
theorem piecesOf_ne_nil
    {input : Input}
    (hInput : input ∈ inputs)
    (hData : 0 < input.data.length)
    (hRange : input.position + input.data.length < 2 ^ 32) :
    piecesOf conf inputs ≠ [] := by
  rcases Chunks.exists_chunk conf.blocksize_pos
    (Nat.le_refl input.position)
    (show input.position < input.endpos by
      rw [Input.endpos_eq hRange]; omega) with
    ⟨chunk, hMem, _⟩
  refine List.ne_nil_of_mem (a := input.piece chunk) ?_
  exact List.mem_flatMap.mpr ⟨input, hInput,
    Input.mem_pieces_iff.mpr ⟨chunk, hMem, rfl⟩⟩

end Cluster

namespace Store

open Coordinator (okReply)

variable {conf : StorageConf} {s : Store}

/- A write that starts with the content of some file. -/
theorem commit_of_noPending
    (schedule : Schedule)
    (kind : PrepareKind)
    (inputs : List Input)
    {input : Input}
    (hPending : s.servers.NoPending conf)
    (hUuids : (inputs.map Input.uuid).Nodup)
    (hInput : input ∈ inputs)
    (hData : 0 < input.data.length)
    (hRange : input.position + input.data.length < 2 ^ 32) :
    ∃ s',
      s.startTwoPcPrepare conf schedule (kind, inputs) =
          some ([okReply], s') ∧
        Cluster.Wrote conf (Cluster.piecesOf conf inputs)
          s.servers s'.servers ∧
        s'.servers.NoPending conf := by
  rcases startTwoPcPrepare_of_noPending schedule
    (kind, inputs) hPending
    (Cluster.nodup_piecesOf hUuids)
    (Cluster.piecesOf_ne_nil hInput hData hRange) with
    ⟨s', hRun, hWrote⟩
  exact ⟨s', hRun, hWrote, hWrote.noPending hPending⟩

/- A write of different files that ends has been made. -/
theorem wrote_of_startTwoPcPrepare
    {schedule : Schedule}
    {writes : Writes}
    {s' : Store}
    {replies : List Bytes}
    (hPending : s.servers.NoPending conf)
    (hUuids : (writes.2.map Input.uuid).Nodup)
    (h :
      s.startTwoPcPrepare conf schedule writes =
        some (replies, s')) :
    Cluster.Wrote conf (Cluster.piecesOf conf writes.2)
      s.servers s'.servers := by
  by_cases hNil : Cluster.piecesOf conf writes.2 = []
  · -- nothing is sent, and the deadline passes
    have hOrder : ∀ a : Arrival, a.order 0 = [] :=
      fun a => List.perm_nil.mp (a.perm 0)
    have hCommits :
        ((Coordinator.sendAll 0).onResponses writes.1 []
          []).commits = [] := rfl
    unfold startTwoPcPrepare at h
    simp only [hNil, List.length_nil, hOrder,
      Cluster.prepareRound, Option.bind_eq_bind,
      Option.bind_some, hCommits, Option.some.injEq,
      Prod.mk.injEq] at h
    rw [← h.2, hNil]
    exact { content := by simp, pending := by simp,
            frame := fun _ _ => rfl }
  · rcases startTwoPcPrepare_of_noPending schedule writes
      hPending (Cluster.nodup_piecesOf hUuids) hNil with
      ⟨s'', hRun, hWrote⟩
    rw [hRun] at h
    cases h
    exact hWrote

end Store

----------
-- Contents That Are Written
----------

namespace Directory

open Jsre

/- A content that is written for some entries. -/
structure Exactly
    (content : Bytes)
    (entries : List FilemetaServer) :
    Prop where
  holds : Holds content entries
  length : content.length = size entries.length
  size : size entries.length < 2 ^ 32

variable {content : Bytes}
variable {entries : List FilemetaServer}

/- What is written when an entry is added. -/
theorem exactly_append
    (hHolds : Holds content entries)
    (hRoom : size (entries.length + 1) < 2 ^ 32)
    (r : FilemetaServer) :
    Exactly
      (append content (stats content) r)
      (entries ++ [r]) := by
  have hBound : entries.length + 1 < 2 ^ 32 := by
    rw [size_eq] at hRoom
    omega
  refine
    { holds := hHolds.append hBound r
      length := ?_
      size := ?_ }
  · rw [hHolds.length_append hBound, List.length_append]
    rfl
  · rw [List.length_append]
    exact hRoom

variable {i : Nat}

section

variable (hHolds : Holds content entries)
variable (hSize : size entries.length < 2 ^ 32)
include hHolds hSize

theorem exactly_remove
    (hi : i < entries.length) :
    Exactly
      (remove content (stats content) i)
      (Table.swapRemove entries i) := by
  refine
    { holds := hHolds.remove hi
      length := ?_
      size := ?_ }
  · rw [hHolds.length_remove hi, Table.length_swapRemove]
  · rw [Table.length_swapRemove]
    rw [size_eq] at hSize ⊢
    omega

theorem exactly_replace
    (hi : i < entries.length)
    (r : FilemetaServer) :
    Exactly
      (replace content (stats content) i r)
      (entries.set i r) := by
  refine
    { holds := hHolds.replace hi r
      length := ?_
      size := ?_ }
  · rw [hHolds.length_replace, List.length_set]
  · rw [List.length_set]
    exact hSize

/- What is written back when nothing is found. -/
theorem exactly_resize :
    Exactly (Buffer.resize content (size entries.length))
      entries := by
  have hLength :
      (Buffer.resize content (size entries.length)).length =
        size entries.length :=
    Buffer.length_resize _ _
  refine
    { holds := hHolds.congr (by rw [hLength]) ?_
      length := hLength
      size := hSize }
  intro x hx
  rw [Buffer.nth_resize, if_pos hx]

end

/- The first record of a new directory. -/
theorem exactly_emptyStats
    (amb : Ambient) :
    Exactly
      (DataFunction.emptyStats amb).serialize [] := by
  have hZero : (DataFunction.emptyStats amb).fileCount = 0 :=
    rfl
  refine
    { holds := holds_nil hZero
      length := ?_
      size := ?_ }
  · simp [size]
  · rw [size_eq]
    decide

end Directory

----------
-- Stored Directories
----------

namespace Cluster

open Jsre

variable (conf : StorageConf)

/- The blocks of a directory exist and hold its entries. -/
structure Stored
    (c : Cluster)
    (uuid : Uuid)
    (entries : List FilemetaServer) :
    Prop where
  readable :
    c.Readable conf uuid 0 (Directory.size entries.length)
  holds :
    Directory.Holds
      ((List.range (Directory.size entries.length)).map
        (c.byteAt conf uuid)) entries

/- The number of entries that a directory file counts. -/
def fileCount (c : Cluster) (uuid : Uuid) : Nat :=
  (Directory.stats ((List.range recordSize).map
    (c.byteAt conf uuid))).fileCount.toNat

/- The entries of a directory file. -/
def listed (c : Cluster) (uuid : Uuid) : List FilemetaServer :=
  let count := c.fileCount conf uuid
  (List.range count).map
    (Directory.entry ((List.range (Directory.size count)).map
      (c.byteAt conf uuid)))

variable {conf : StorageConf} {c c' : Cluster}
variable {uuid : Uuid} {entries : List FilemetaServer}

section

variable (h : c.Stored conf uuid entries)
include h

theorem Stored.fileCount_eq :
    c.fileCount conf uuid = entries.length := by
  rw [← h.holds.count]
  refine congrArg (fun stat => stat.fileCount.toNat)
    (Directory.stats_congr ?_)
  intro x hx
  have hSize : x < Directory.size entries.length :=
    Nat.lt_of_lt_of_le hx (Nat.le_add_right _ _)
  rw [Buffer.nth_map_range, Buffer.nth_map_range, if_pos hx,
    if_pos hSize]

/- A stored directory lists its entries. -/
theorem Stored.listed_eq :
    c.listed conf uuid = entries := by
  unfold listed
  rw [h.fileCount_eq]
  exact h.holds.map_entry

theorem Stored.unique
    {entries' : List FilemetaServer}
    (h' : c.Stored conf uuid entries') :
    entries = entries' :=
  h.listed_eq.symm.trans h'.listed_eq

/- What is read of a stored directory holds its entries. -/
theorem Stored.holds_append
    (rest : Bytes) :
    Directory.Holds
      ((List.range (Directory.size entries.length)).map
        (c.byteAt conf uuid) ++ rest) entries := by
  refine h.holds.congr ?_ ?_
  · simp
  · intro x hx
    rw [Buffer.nth_append, if_pos (by simpa using hx)]

end

/- The handler of a content that holds its entries. -/
theorem withDirectory_of_holds
    {α : Type}
    {content : Bytes}
    (h : Directory.Holds content entries)
    (body : Stats → Action α) :
    DataFunction.withDirectory content body =
      .act (body (Directory.stats content)) := by
  have hSize := h.size_le
  have hRecord : recordSize ≤ content.length :=
    Nat.le_trans (Nat.le_add_right _ _) hSize
  unfold DataFunction.withDirectory
  rw [if_neg (by omega)]
  simp only [h.count]
  rw [if_neg (by omega)]

/-
  A read that is too short for a stored directory still finds
  how long it is.
-/
theorem Stored.reread
    (h : c.Stored conf uuid entries)
    (hSize : Directory.size entries.length < 2 ^ 32)
    {n : Nat}
    (hRecord : recordSize ≤ n)
    (hShort : n < Directory.size entries.length) :
    ∃ content,
      c.readBytes conf uuid 0 n = some content ∧
        ∀ {α : Type} (body : Stats → Action α),
          DataFunction.withDirectory content body =
            .reread (Directory.size entries.length) := by
  have hReadable : c.Readable conf uuid 0 n :=
    (readable_zero_iff (by omega)).mpr (fun x hx =>
      (readable_zero_iff hSize).mp h.readable x (by omega))
  have hStats :
      Directory.stats
          ((List.range n).map
            (fun i => c.byteAt conf uuid (0 + i))) =
        Directory.stats
          ((List.range (Directory.size entries.length)).map
            (c.byteAt conf uuid)) := by
    refine Directory.stats_congr ?_
    intro x hx
    rw [Buffer.nth_map_range, Buffer.nth_map_range,
      if_pos (by omega), if_pos (by omega), Nat.zero_add]
  refine ⟨_, readBytes_eq_of_readable (by omega) hReadable, ?_⟩
  intro α body
  unfold DataFunction.withDirectory
  rw [if_neg (by simp; omega)]
  simp only [hStats, h.holds.count]
  rw [if_pos (by simp; omega), Nat.mod_eq_of_lt hSize]

/-
  A stored directory is read at most twice before its handler
  acts on it.
-/
theorem fetch_of_stored
    {α : Type}
    (h : c.Stored conf uuid entries)
    (hSize : Directory.size entries.length < 2 ^ 32)
    {fuel : Nat}
    (hFuel : 2 ≤ fuel)
    {readnext : Bytes → Next α}
    {body : Bytes → Stats → Action α}
    (hBody : ∀ content, readnext content =
      DataFunction.withDirectory content (body content)) :
    ∃ content,
      Directory.Holds content entries ∧
        (∀ x < Directory.size entries.length,
          Buffer.nth content x = c.byteAt conf uuid x) ∧
        c.fetch conf uuid readnext fuel DataFunction.readsize =
          some (.act (body content
            (Directory.stats content))) := by
  rcases fuel with _ | _ | fuel
  · omega
  · omega
  · -- a read that is long enough
    have hEnough :
        ∀ {n size : Nat},
          Directory.size entries.length ≤ size →
          size < 2 ^ 32 →
          ∃ content,
            Directory.Holds content entries ∧
              (∀ x < Directory.size entries.length,
                Buffer.nth content x =
                  c.byteAt conf uuid x) ∧
              c.fetch conf uuid readnext (n + 1) size =
                some (.act (body content
                  (Directory.stats content))) := by
      intro n size hLe hLt
      rcases readBytes_prefix hLe hLt h.readable with
        ⟨rest, hRead⟩
      refine ⟨_, h.holds_append rest, ?_, ?_⟩
      · intro x hx
        rw [Buffer.nth_append, if_pos (by simpa using hx),
          Buffer.nth_map_range, if_pos hx]
      · simp only [fetch, hRead, hBody,
          withDirectory_of_holds (h.holds_append rest)]
    by_cases hShort :
        Directory.size entries.length ≤ DataFunction.readsize
    · exact hEnough hShort (by decide)
    · rcases h.reread hSize (n := DataFunction.readsize)
        (by decide) (by omega) with
        ⟨first, hRead, hNext⟩
      rcases hEnough (n := fuel) (Nat.le_refl _) hSize with
        ⟨content, hHolds, hBytes, hFetch⟩
      refine ⟨content, hHolds, hBytes, ?_⟩
      have hFirst : readnext first =
          .reread (Directory.size entries.length) := by
        rw [hBody, hNext]
      rw [fetch, hRead]
      simp only [hFirst]
      exact hFetch

/- A committed write of a content stores its entries. -/
theorem stored_of_wrote
    {inputs : List Input}
    (hWrote : Wrote conf (piecesOf conf inputs) c c')
    (hUuids : (inputs.map Input.uuid).Nodup)
    {content : Bytes}
    (hInput : ⟨uuid, 0, content⟩ ∈ inputs)
    (hContent : Directory.Exactly content entries) :
    c'.Stored conf uuid entries := by
  have hLength := hContent.length
  have hSize := hContent.size
  have hRange : 0 + content.length < 2 ^ 32 := by omega
  refine { readable := ?_, holds := ?_ }
  · rw [← hLength]
    exact hWrote.readable_self hInput hRange
  · refine hContent.holds.congr (by simp) ?_
    intro x hx
    have hByte := hWrote.byteAt hInput hRange hUuids x
    rw [Buffer.nth_map_range, if_pos hx, hByte,
      if_pos ⟨Nat.zero_le x, by simp only; omega⟩]
    rfl

/- Writes of other files leave a directory stored. -/
theorem Stored.frame
    {inputs : List Input}
    (h : c.Stored conf uuid entries)
    (hWrote : Wrote conf (piecesOf conf inputs) c c')
    (hUuid : uuid ∉ inputs.map Input.uuid) :
    c'.Stored conf uuid entries := by
  refine { readable := ?_, holds := ?_ }
  · intro chunk hMem
    rw [hWrote.block_of_uuid hUuid]
    exact h.readable chunk hMem
  · have hBytes : c'.byteAt conf uuid = c.byteAt conf uuid :=
      funext (hWrote.byteAt_of_uuid hUuid)
    rw [hBytes]
    exact h.holds

end Cluster

namespace Store

open Jsre

variable {conf : StorageConf} {s : Store} {uuid : Uuid}
variable {entries : List FilemetaServer}

/- An operation on a stored directory acts on its entries. -/
theorem perform_of_stored
    (h : s.servers.Stored conf uuid entries)
    (hSize : Directory.size entries.length < 2 ^ 32)
    {fuel : Nat}
    (hFuel : 2 ≤ fuel)
    (schedule : Schedule)
    (readnext : Bytes → Next Writes)
    {body : Bytes → Stats → Action Writes}
    (hBody : ∀ content, readnext content =
      DataFunction.withDirectory content (body content)) :
    ∃ content,
      Directory.Holds content entries ∧
        s.perform conf fuel schedule uuid readnext =
          s.finish conf schedule uuid
            (.act (body content (Directory.stats content))) := by
  rcases Cluster.fetch_of_stored h hSize hFuel hBody with
    ⟨content, hHolds, _, hFetch⟩
  refine ⟨content, hHolds, ?_⟩
  unfold perform
  rw [hFetch]
  rfl

/- A write that begins with the new content of a directory. -/
theorem commit_stored
    (schedule : Schedule)
    (kind : PrepareKind)
    (others : List Input)
    (hPending : s.servers.NoPending conf)
    {content : Bytes}
    (hUuids : (uuid :: others.map Input.uuid).Nodup)
    (hContent : Directory.Exactly content entries) :
    ∃ s',
      s.startTwoPcPrepare conf schedule
          (kind, ⟨uuid, 0, content⟩ :: others) =
          some ([Coordinator.okReply], s') ∧
        Cluster.Wrote conf
          (Cluster.piecesOf conf (⟨uuid, 0, content⟩ :: others))
          s.servers s'.servers ∧
        s'.servers.NoPending conf ∧
        s'.servers.Stored conf uuid entries := by
  have hLength := hContent.length
  have hSize := hContent.size
  have hRecord : 0 < Directory.size entries.length := by
    rw [Directory.size_eq]
    omega
  rcases commit_of_noPending schedule kind
    (⟨uuid, 0, content⟩ :: others) hPending hUuids
    List.mem_cons_self (by simp only; omega)
    (by simp only; omega) with
    ⟨s', hRun, hWrote, hFree⟩
  exact ⟨s', hRun, hWrote, hFree,
    Cluster.stored_of_wrote hWrote hUuids List.mem_cons_self
      hContent⟩

/-
  Initialising a directory empties it and leaves others as
  they are.
-/
theorem startMetaInit_stored
    (hPending : s.servers.NoPending conf)
    (amb : Ambient)
    (schedule : Schedule)
    (input : Jsre.Request) :
    ∃ s',
      s.startTwoPcPrepare conf schedule
          (DataFunction.startMetaInit amb input) =
          some ([Coordinator.okReply], s') ∧
        s'.servers.NoPending conf ∧
        s'.servers.Stored conf input.uuid [] ∧
        ∀ uuid entries, uuid ≠ input.uuid →
          s.servers.Stored conf uuid entries →
            s'.servers.Stored conf uuid entries := by
  rcases commit_stored schedule .single [] hPending
    (List.nodup_singleton input.uuid)
    (Directory.exactly_emptyStats amb) with
    ⟨s', hRun, hWrote, hFree, hStored⟩
  refine ⟨s', hRun, hFree, hStored, ?_⟩
  intro uuid entries hNe hOther
  exact hOther.frame hWrote (by simpa using hNe)

end Store

end Slfs
