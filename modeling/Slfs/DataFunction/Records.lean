import Slfs.DataFunction.Stored

/-
  Handlers look at the records of their directory.

  A directory is read in whole blocks, so the bytes that a
  handler gets may go on behind the last record. What it does
  with them depends on the records only.

  Main declarations:
    * `DataFunction.Handler`
    * `Cluster.fetch_eq_of_stored`
-/

----------
-- Contents With The Same Records
----------

namespace Slfs

namespace Directory

open Jsre

/- Contents that hold the entries in the same bytes. -/
structure Alike
    (entries : List FilemetaServer)
    (content content' : Bytes) :
    Prop where
  left : Holds content entries
  right : Holds content' entries
  nth :
    ∀ x < size entries.length,
      Buffer.nth content x = Buffer.nth content' x

namespace Alike

variable {entries : List FilemetaServer}
variable {content content' : Bytes}

theorem stats_eq
    (h : Alike entries content content') :
    stats content = stats content' := by
  refine stats_congr ?_
  intro x hx
  exact h.nth x (Nat.lt_of_lt_of_le hx (Nat.le_add_right _ _))

/- The same place is found. -/
theorem find_eq
    (h : Alike entries content content')
    (name : Bytes) :
    find content (stats content).fileCount.toNat name =
      find content' (stats content').fileCount.toNat name := by
  rw [h.left.count, h.right.count, h.left.find_eq,
    h.right.find_eq]

variable {i : Nat}

section

variable (h : Alike entries content content')
include h

/- A place that is found is one of an entry. -/
theorem lt_of_find
    {name : Bytes}
    (hFind :
      find content' (stats content').fileCount.toNat name =
        some i) :
    i < entries.length := by
  rw [h.right.count] at hFind
  rcases h.right.find_eq_some hFind with ⟨r, hr, _⟩
  exact (List.getElem?_eq_some_iff.mp hr).1

theorem entry_eq
    (hi : i < entries.length) :
    entry content i = entry content' i := by
  have hr := List.getElem?_eq_getElem hi
  rw [h.left.entry i _ hr, h.right.entry i _ hr]

theorem resize_eq :
    Buffer.resize content
        (size (stats content).fileCount.toNat) =
      Buffer.resize content'
        (size (stats content').fileCount.toNat) := by
  rw [h.left.count, h.right.count]
  refine Buffer.ext_nth (by simp) ?_
  intro x hx
  have hLt : x < size entries.length := by simpa using hx
  rw [Buffer.nth_resize, Buffer.nth_resize, h.nth x hLt]

/- The new record lies behind the records that are there. -/
theorem append_eq
    (r : FilemetaServer) :
    append content (stats content) r =
      append content' (stats content') r := by
  have hLe : ((stats content').fileCount + 1).toNat ≤
      entries.length + 1 := by
    rw [UInt32.toNat_add, h.right.count]
    exact Nat.mod_le _ _
  have hNth := h.nth
  rw [size_eq] at hNth
  have hGrown : ∀ n ≤ entries.length + 1,
      Buffer.copyInto
          (Buffer.resize content (recordSize * n + recordSize))
          (recordSize * n) r.serialize =
        Buffer.copyInto
          (Buffer.resize content' (recordSize * n + recordSize))
          (recordSize * n) r.serialize := by
    intro n hn
    have hFits : ∀ l : Bytes,
        recordSize * n + r.serialize.length ≤
          (Buffer.resize l
            (recordSize * n + recordSize)).length := by
      intro l
      rw [FilemetaServer.length_serialize, Buffer.length_resize]
    refine Buffer.ext_nth ?_ ?_
    · rw [Buffer.length_copyInto (hFits _),
        Buffer.length_copyInto (hFits _), Buffer.length_resize,
        Buffer.length_resize]
    · intro x hx
      rw [Buffer.length_copyInto (hFits _),
        Buffer.length_resize] at hx
      rw [Buffer.nth_copyInto (hFits _),
        Buffer.nth_copyInto (hFits _),
        FilemetaServer.length_serialize]
      unfold recordSize at hx ⊢
      by_cases hNew : 64 * n ≤ x ∧ x < 64 * n + 64
      · rw [if_pos hNew, if_pos hNew]
      · rw [if_neg hNew, if_neg hNew, Buffer.nth_resize,
          Buffer.nth_resize, hNth x (by omega)]
  simp only [append, h.stats_eq, hGrown _ hLe]

theorem replace_eq
    (hi : i < entries.length)
    (r : FilemetaServer) :
    replace content (stats content) i r =
      replace content' (stats content') i r := by
  have hFits := h.left.length_le_moved hi r.length_serialize
  have hFits' := h.right.length_le_moved hi r.length_serialize
  unfold replace
  rw [h.left.count, h.right.count]
  refine Buffer.ext_nth (by simp) ?_
  intro x hx
  have hLt : x < size entries.length := by simpa using hx
  rw [Buffer.nth_resize, Buffer.nth_resize,
    Buffer.nth_copyInto hFits, Buffer.nth_copyInto hFits',
    h.nth x hLt]

/- The last record is one of those that are there. -/
theorem remove_eq
    (hi : i < entries.length) :
    remove content (stats content) i =
      remove content' (stats content') i := by
  have hNth := h.nth
  rw [size_eq] at hNth
  have hSlot :
      Buffer.slot recordSize content entries.length =
        Buffer.slot recordSize content' entries.length := by
    refine Buffer.slot_congr ?_
    intro x _ hx
    exact hNth x (by simpa [recordSize] using hx)
  have hLast := Buffer.length_slot recordSize content'
    entries.length
  have hFits := h.left.length_le_moved hi hLast
  have hFits' := h.right.length_le_moved hi hLast
  have hCount := h.right.count_pred (Nat.zero_lt_of_lt hi)
  have hMoved :
      Buffer.resize
          (if i + 1 < entries.length then
            Buffer.copyInto content (recordSize * (i + 1))
              (Buffer.slot recordSize content' entries.length)
          else content) (size (entries.length - 1)) =
        Buffer.resize
          (if i + 1 < entries.length then
            Buffer.copyInto content' (recordSize * (i + 1))
              (Buffer.slot recordSize content' entries.length)
          else content') (size (entries.length - 1)) := by
    refine Buffer.ext_nth (by simp) ?_
    intro x hx
    rw [Buffer.length_resize, size_eq] at hx
    have hSame := hNth x (by omega)
    rw [Buffer.nth_resize, Buffer.nth_resize]
    by_cases hMove : i + 1 < entries.length
    · rw [if_pos hMove, if_pos hMove,
        Buffer.nth_copyInto hFits, Buffer.nth_copyInto hFits',
        hSame]
    · rw [if_neg hMove, if_neg hMove, hSame]
  simp only [remove, h.stats_eq, h.right.count, hCount, hSlot,
    hMoved]

end

end Alike

end Directory

----------
-- Handlers
----------

namespace DataFunction

open Jsre

/-
  What all handlers do with bytes that are too few, and that
  only the records matter to them.
-/
structure Handler
    {α : Type}
    (readnext : Bytes → Next α) :
    Prop where
  begins :
    ∃ body : Bytes → Stats → Action α, ∀ content,
      readnext content = withDirectory content (body content)
  records :
    ∀ entries content content',
      Directory.Alike entries content content' →
        readnext content = readnext content'

/- It is enough to look at what follows the checks. -/
theorem handler_of_body
    {α : Type}
    {body : Bytes → Stats → Action α}
    (hBody : ∀ entries content content',
      Directory.Alike entries content content' →
        body content (Directory.stats content) =
          body content' (Directory.stats content')) :
    Handler
      (fun content => withDirectory content (body content)) where
  begins := ⟨body, fun _ => rfl⟩
  records := by
    intro entries content content' h
    simp only [Cluster.withDirectory_of_holds h.left,
      Cluster.withDirectory_of_holds h.right,
      hBody entries content content' h]

variable (conf : StorageConf) (amb : Ambient)
variable (input : Jsre.Request) (info : RenameInfo)

theorem handler_startMetaAddFile :
    Handler (startMetaAddFile amb input) := by
  refine handler_of_body ?_
  intro entries content content' h
  simp only [h.find_eq, h.append_eq]

theorem handler_startMetaMkdir :
    Handler (startMetaMkdir amb input) := by
  refine handler_of_body ?_
  intro entries content content' h
  simp only [h.find_eq, h.append_eq]

theorem handler_startCreateAndWriteFileSingleRequest :
    Handler (startCreateAndWriteFileSingleRequest amb input) := by
  refine handler_of_body ?_
  intro entries content content' h
  simp only [h.find_eq, h.append_eq]

theorem handler_startMetaDeleteFile :
    Handler (startMetaDeleteFile input) := by
  refine handler_of_body ?_
  intro entries content content' h
  simp only [h.find_eq]
  cases hFind : Directory.find content'
      (Directory.stats content').fileCount.toNat
      input.name with
  | none => rfl
  | some i => simp only [h.remove_eq (h.lt_of_find hFind)]

theorem handler_startWrite :
    Handler (startWrite conf amb input) := by
  refine handler_of_body ?_
  intro entries content content' h
  simp only [h.find_eq]
  cases hFind : Directory.find content'
      (Directory.stats content').fileCount.toNat
      input.name with
  | none => simp only [h.resize_eq]
  | some i =>
      have hi := h.lt_of_find hFind
      simp only [h.entry_eq hi, h.replace_eq hi]

theorem handler_startMetaRenameFile :
    Handler (startMetaRenameFile input info) := by
  refine handler_of_body ?_
  intro entries content content' h
  simp only [h.find_eq]
  cases hFind : Directory.find content'
      (Directory.stats content').fileCount.toNat
      input.name with
  | none => rfl
  | some i =>
      have hi := h.lt_of_find hFind
      simp only [h.entry_eq hi, h.replace_eq hi, h.remove_eq hi]

theorem handler_startMetaRenamePart2
    (r : FilemetaServer) :
    Handler (startMetaRenamePart2 info r) := by
  refine handler_of_body ?_
  intro entries content content' h
  simp only [h.find_eq, h.append_eq]

end DataFunction

----------
-- Reading The Records
----------

namespace Cluster

open Jsre

variable {conf : StorageConf} {c : Cluster}
variable {uuid : Uuid} {entries : List FilemetaServer}

/-
  A read of a stored directory that brings a record is either
  too short, or as good as its records to a handler.
-/
theorem readnext_of_stored
    {α : Type}
    (h : c.Stored conf uuid entries)
    (hSize : Directory.size entries.length < 2 ^ 32)
    {n : Nat}
    (hRecord : recordSize ≤ n)
    (hLt : n < 2 ^ 32)
    {readnext : Bytes → Next α}
    (hHandler : DataFunction.Handler readnext)
    {content : Bytes}
    (hRead : c.readBytes conf uuid 0 n = some content) :
    readnext content =
        .reread (Directory.size entries.length) ∨
      readnext content =
        readnext
          ((List.range (Directory.size entries.length)).map
            (c.byteAt conf uuid)) := by
  by_cases hShort : n < Directory.size entries.length
  · left
    rcases hHandler.begins with ⟨body, hBody⟩
    rcases h.reread hSize hRecord hShort with
      ⟨first, hFirst, hNext⟩
    rw [hRead] at hFirst
    cases hFirst
    rw [hBody, hNext]
  · right
    rcases readBytes_prefix (by omega) hLt h.readable with
      ⟨rest, hPrefix⟩
    rw [hRead] at hPrefix
    cases hPrefix
    exact hHandler.records entries _ _
      { left := h.holds_append rest
        right := h.holds
        nth := by
          intro x hx
          rw [Buffer.nth_append, if_pos (by simpa using hx)] }

/- The handler of a stored directory gets its records. -/
theorem fetch_eq_of_stored
    {α : Type}
    (h : c.Stored conf uuid entries)
    (hSize : Directory.size entries.length < 2 ^ 32)
    {fuel : Nat}
    (hFuel : 2 ≤ fuel)
    {readnext : Bytes → Next α}
    (hHandler : DataFunction.Handler readnext) :
    c.fetch conf uuid readnext fuel DataFunction.readsize =
      some (readnext
        ((List.range (Directory.size entries.length)).map
          (c.byteAt conf uuid))) := by
  rcases hHandler.begins with ⟨body, hBody⟩
  rcases fetch_of_stored h hSize hFuel hBody with
    ⟨content, hHolds, hBytes, hFetch⟩
  have hAlike : Directory.Alike entries content
      ((List.range (Directory.size entries.length)).map
        (c.byteAt conf uuid)) :=
    { left := hHolds
      right := h.holds
      nth := by
        intro x hx
        rw [hBytes x hx, Buffer.nth_map_range, if_pos hx] }
  rw [hFetch, ← hHandler.records _ _ _ hAlike, hBody,
    withDirectory_of_holds hHolds]

end Cluster

end Slfs
