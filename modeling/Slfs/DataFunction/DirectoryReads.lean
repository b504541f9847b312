import Slfs.DataFunction.Holes
import Slfs.DataFunction.Perform

/-
  How often a directory is read.

  A handler that gets fewer bytes than the directory's first
  record asks for reads again. When blocks are missing the
  second answer is too short as well, and the handler reads
  for ever while the servers do not change.

  Main declarations:
    * `DirectoryHandler`
    * `DirectoryHandler.two_reads_iff`
-/

----------
-- Answers To The Reads
----------

namespace Slfs

namespace Cluster

open DataFunction
open Jsre

variable (conf : StorageConf)

/- How many of the first bytes of a file are in a block. -/
def foundCount (c : Cluster) (uuid : Uuid) (n : Nat) : Nat :=
  (List.range n).countP
    (fun x => (c.found conf uuid x).isSome)

/- The bytes that the first read of a directory answers. -/
def firstRead (c : Cluster) (uuid : Uuid) : Bytes :=
  (c.readBytes conf uuid 0 readsize).getD []

/- The size of a directory according to its first record. -/
def claimedSize (c : Cluster) (uuid : Uuid) : Nat :=
  Directory.size
    (Directory.stats (c.firstRead conf uuid)).fileCount.toNat

/-
  The first or the second answer has less than a record, or
  all the bytes that the first record claims. The first read
  sees the whole of a small directory. The second one sees
  the whole of a larger one if the size fits into 32 bits and
  all its blocks exist.
-/
def TwoReadsSuffice (c : Cluster) (uuid : Uuid) : Prop :=
  c.foundCount conf uuid readsize < recordSize ∨
    c.claimedSize conf uuid ≤
      c.foundCount conf uuid readsize ∨
    c.foundCount conf uuid
        (c.claimedSize conf uuid % 2 ^ 32) < recordSize ∨
    (c.claimedSize conf uuid < 2 ^ 32 ∧
      ∀ x < c.claimedSize conf uuid,
        (c.found conf uuid x).isSome)

variable {conf} {c : Cluster} {uuid : Uuid}

theorem length_filterMap_found
    (n : Nat) :
    ((List.range n).filterMap (c.found conf uuid)).length =
      c.foundCount conf uuid n := by
  rw [List.length_filterMap_eq_countP]
  rfl

theorem foundCount_le
    (n : Nat) :
    c.foundCount conf uuid n ≤ n := by
  have hLe := List.countP_le_length
    (p := fun x => (c.found conf uuid x).isSome)
    (l := List.range n)
  rwa [List.length_range] at hLe

variable {n : Nat}

theorem foundCount_eq_iff :
    c.foundCount conf uuid n = n ↔
      ∀ x < n, (c.found conf uuid x).isSome := by
  have hIff := List.countP_eq_length
    (p := fun x => (c.found conf uuid x).isSome)
    (l := List.range n)
  rw [List.length_range] at hIff
  simpa [foundCount] using hIff

/- When an answer has all the bytes that were wanted. -/
theorem le_foundCount_mod_iff :
    n ≤ c.foundCount conf uuid (n % 2 ^ 32) ↔
      n < 2 ^ 32 ∧
        ∀ x < n, (c.found conf uuid x).isSome := by
  have hModLe := Nat.mod_le n (2 ^ 32)
  have hMod : n % 2 ^ 32 < 2 ^ 32 := Nat.mod_lt _ (by decide)
  constructor
  · intro h
    have hLe :
        c.foundCount conf uuid (n % 2 ^ 32) ≤ n % 2 ^ 32 :=
      foundCount_le _
    have hFits : n % 2 ^ 32 = n := by omega
    rw [hFits] at h hLe
    exact ⟨by omega, foundCount_eq_iff.mp (by omega)⟩
  · rintro ⟨hFits, hAll⟩
    rw [Nat.mod_eq_of_lt hFits, foundCount_eq_iff.mpr hAll]

/- The first record is the same in a longer answer. -/
theorem stats_of_isPrefix
    {content content' : Bytes}
    (h : content <+: content')
    (hLength : recordSize ≤ content.length) :
    Directory.stats content' = Directory.stats content := by
  rcases h with ⟨rest, hRest⟩
  apply Directory.stats_congr
  intro x hx
  rw [← hRest, Buffer.nth_append, if_pos (by omega)]

/- Two answers that hold a record have the same first one. -/
theorem stats_filterMap_found
    {m : Nat}
    (hm : recordSize ≤ c.foundCount conf uuid m)
    (hn : recordSize ≤ c.foundCount conf uuid n) :
    Directory.stats
        ((List.range m).filterMap (c.found conf uuid)) =
      Directory.stats
        ((List.range n).filterMap (c.found conf uuid)) := by
  rw [← length_filterMap_found] at hm hn
  have hPrefix :
      ∀ {k l : Nat}, k ≤ l →
        (List.range k).filterMap (c.found conf uuid) <+:
          (List.range l).filterMap (c.found conf uuid) := by
    intro k l hLe
    apply List.IsPrefix.filterMap
    rw [show l = k + (l - k) by omega, List.range_add]
    exact List.prefix_append _ _
  rcases Nat.le_total m n with hLe | hLe
  · exact (stats_of_isPrefix (hPrefix hLe) hm).symm
  · exact stats_of_isPrefix (hPrefix hLe) hn

theorem firstRead_eq :
    c.firstRead conf uuid =
      (List.range readsize).filterMap (c.found conf uuid) := by
  have hSize : readsize < 2 ^ 32 := by decide
  simp only [firstRead, readBytes_zero_eq hSize,
    Option.getD_some]

----------
-- Reading Again
----------

variable {conf : StorageConf} {α : Type}
variable {readnext : Bytes → Next α}
variable {body : Bytes → Stats → Action α}

/- What a handler does with the bytes of the first blocks. -/
theorem readnext_eq
    (hBody :
      ∀ content,
        readnext content = withDirectory content (body content))
    {n : Nat}
    (hRecord :
      recordSize ≤ c.foundCount conf uuid readsize) :
    readnext ((List.range n).filterMap (c.found conf uuid)) =
      if c.foundCount conf uuid n < recordSize then
        .noSuchDirectory
      else if c.foundCount conf uuid n <
          c.claimedSize conf uuid then
        .reread (c.claimedSize conf uuid % 2 ^ 32)
      else
        .act (body
          ((List.range n).filterMap (c.found conf uuid))
          (Directory.stats
            ((List.range n).filterMap
              (c.found conf uuid)))) := by
  rw [hBody, withDirectory, length_filterMap_found]
  by_cases hShort : c.foundCount conf uuid n < recordSize
  · rw [if_pos hShort, if_pos hShort]
  · have hSame :=
      stats_filterMap_found (Nat.le_of_not_lt hShort) hRecord
    rw [if_neg hShort, if_neg hShort, claimedSize,
      firstRead_eq, ← hSame]

/- A read that is as long as before is no better. -/
theorem fetch_eq_none_of_reread
    {size : Nat}
    (hSize : size < 2 ^ 32)
    (hAgain :
      readnext
          ((List.range size).filterMap (c.found conf uuid)) =
        .reread size)
    (fuel : Nat) :
    c.fetch conf uuid readnext fuel size = none := by
  induction fuel with
  | zero => rfl
  | succ fuel ih =>
      rw [fetch, readBytes_zero_eq hSize]
      simp only [hAgain]
      exact ih

theorem fetch_succ
    {size : Nat}
    (hSize : size < 2 ^ 32)
    (fuel : Nat) :
    c.fetch conf uuid readnext (fuel + 1) size =
      match readnext
          ((List.range size).filterMap
            (c.found conf uuid)) with
      | .reread size => c.fetch conf uuid readnext fuel size
      | next => some next := by
  cases hNext : readnext
      ((List.range size).filterMap (c.found conf uuid)) with
  | noSuchDirectory | reread | act =>
      simp only [fetch, readBytes_zero_eq hSize, hNext]

/-
  A handler is done after two reads exactly when one of the
  two answers is short of a record or complete.
-/
theorem fetch_two_isSome_iff
    (hBody :
      ∀ content,
        readnext content =
          withDirectory content (body content)) :
    (c.fetch conf uuid readnext 2 readsize).isSome ↔
      c.TwoReadsSuffice conf uuid := by
  have hSize : readsize < 2 ^ 32 := by decide
  have hMod : c.claimedSize conf uuid % 2 ^ 32 < 2 ^ 32 :=
    Nat.mod_lt _ (by decide)
  rw [fetch_succ hSize]
  by_cases hRecord :
      c.foundCount conf uuid readsize < recordSize
  · have hNext :
        readnext ((List.range readsize).filterMap
          (c.found conf uuid)) = .noSuchDirectory := by
      rw [hBody, withDirectory, length_filterMap_found,
        if_pos hRecord]
    simp only [hNext, Option.isSome_some, true_iff]
    exact Or.inl hRecord
  have hFull := Nat.le_of_not_lt hRecord
  rw [readnext_eq hBody hFull, if_neg hRecord]
  by_cases hFirst :
      c.foundCount conf uuid readsize <
        c.claimedSize conf uuid
  · rw [if_pos hFirst]
    simp only
    rw [fetch_succ hMod, readnext_eq hBody hFull]
    by_cases hShort :
        c.foundCount conf uuid
          (c.claimedSize conf uuid % 2 ^ 32) < recordSize
    · rw [if_pos hShort]
      simp only [Option.isSome_some, true_iff]
      exact Or.inr (Or.inr (Or.inl hShort))
    rw [if_neg hShort]
    by_cases hSecond :
        c.foundCount conf uuid
            (c.claimedSize conf uuid % 2 ^ 32) <
          c.claimedSize conf uuid
    · rw [if_pos hSecond]
      simp only [fetch, Option.isSome_none, Bool.false_eq_true,
        false_iff]
      rintro (h | h | h | h)
      · exact hRecord h
      · omega
      · exact hShort h
      · have hAll := le_foundCount_mod_iff.mpr h
        omega
    · rw [if_neg hSecond]
      simp only [Option.isSome_some, true_iff]
      have hAll :=
        le_foundCount_mod_iff.mp (Nat.le_of_not_lt hSecond)
      exact Or.inr (Or.inr (Or.inr hAll))
  · rw [if_neg hFirst]
    simp only [Option.isSome_some, true_iff]
    exact Or.inr (Or.inl (Nat.le_of_not_lt hFirst))

/- A handler that is not done then goes on for ever. -/
theorem fetch_eq_none
    (hBody :
      ∀ content,
        readnext content = withDirectory content (body content))
    (hNot : ¬ c.TwoReadsSuffice conf uuid)
    (fuel : Nat) :
    c.fetch conf uuid readnext fuel readsize = none := by
  have hSize : readsize < 2 ^ 32 := by decide
  have hMod : c.claimedSize conf uuid % 2 ^ 32 < 2 ^ 32 :=
    Nat.mod_lt _ (by decide)
  simp only [TwoReadsSuffice, not_or, Nat.not_lt,
    Nat.not_le] at hNot
  rcases hNot with ⟨hRecord, hFirst, hShort, hMissing⟩
  have hSecond :
      c.foundCount conf uuid
          (c.claimedSize conf uuid % 2 ^ 32) <
        c.claimedSize conf uuid := by
    by_contra hAll
    exact hMissing
      (le_foundCount_mod_iff.mp (Nat.le_of_not_lt hAll))
  have hAgain :
      ∀ n, recordSize ≤ c.foundCount conf uuid n →
        c.foundCount conf uuid n < c.claimedSize conf uuid →
        readnext ((List.range n).filterMap
            (c.found conf uuid)) =
          .reread (c.claimedSize conf uuid % 2 ^ 32) := by
    intro n hLong hLess
    rw [readnext_eq hBody hRecord,
      if_neg (Nat.not_lt.mpr hLong), if_pos hLess]
  cases fuel with
  | zero => rfl
  | succ fuel =>
      rw [fetch_succ hSize, hAgain _ hRecord hFirst]
      exact fetch_eq_none_of_reread hMod
        (hAgain _ hShort hSecond) fuel

end Cluster

----------
-- The Handlers
----------

open DataFunction
open Jsre

/- The handlers that read a directory, with their inputs. -/
inductive DirectoryHandler where
| addFile (amb : Ambient) (input : Jsre.Request)
| deleteFile (input : Jsre.Request)
| mkdir (amb : Ambient) (input : Jsre.Request)
| ls (formatTime : UInt64 → Bytes)
| openFile (input : Jsre.Request)
| getStat (formatTime : UInt64 → Bytes) (isDirectory : Bool)
    (input : Jsre.Request)
| renameFile (input : Jsre.Request) (info : RenameInfo)
| renamePart2 (info : RenameInfo) (r : FilemetaServer)
| write (amb : Ambient) (input : Jsre.Request)
| createAndWrite (amb : Ambient) (input : Jsre.Request)

namespace DirectoryHandler

/-
  The handler replies or starts its commit after at most the
  given number of reads.
-/
def finishes
    (conf : StorageConf)
    (c : Cluster)
    (uuid : Uuid)
    (reads : Nat) : DirectoryHandler → Bool
| addFile amb input =>
    (c.fetch conf uuid (startMetaAddFile amb input) reads
      readsize).isSome
| deleteFile input =>
    (c.fetch conf uuid (startMetaDeleteFile input) reads
      readsize).isSome
| mkdir amb input =>
    (c.fetch conf uuid (startMetaMkdir amb input) reads
      readsize).isSome
| ls formatTime =>
    (c.fetch conf uuid (startMetaLs formatTime) reads
      readsize).isSome
| openFile input =>
    (c.fetch conf uuid (startMetaOpenFile input) reads
      readsize).isSome
| getStat formatTime isDirectory input =>
    (c.fetch conf uuid
      (startMetaGetStat formatTime isDirectory input) reads
      readsize).isSome
| renameFile input info =>
    (c.fetch conf uuid (startMetaRenameFile input info) reads
      readsize).isSome
| renamePart2 info r =>
    (c.fetch conf uuid (startMetaRenamePart2 info r) reads
      readsize).isSome
| write amb input =>
    (c.fetch conf uuid (startWrite conf amb input) reads
      readsize).isSome
| createAndWrite amb input =>
    (c.fetch conf uuid
      (startCreateAndWriteFileSingleRequest amb input) reads
      readsize).isSome

/- All handlers begin in the same way. -/
theorem exists_readnext
    (conf : StorageConf)
    (handler : DirectoryHandler) :
    ∃ (α : Type) (readnext : Bytes → Next α)
      (body : Bytes → Stats → Action α),
      (∀ content,
        readnext content =
          withDirectory content (body content)) ∧
      ∀ c uuid reads,
        handler.finishes conf c uuid reads =
          (c.fetch conf uuid readnext reads
            readsize).isSome := by
  cases handler with
  | addFile amb input =>
      exact ⟨_, startMetaAddFile amb input, _,
        fun _ => rfl, fun _ _ _ => rfl⟩
  | deleteFile input =>
      exact ⟨_, startMetaDeleteFile input, _,
        fun _ => rfl, fun _ _ _ => rfl⟩
  | mkdir amb input =>
      exact ⟨_, startMetaMkdir amb input, _,
        fun _ => rfl, fun _ _ _ => rfl⟩
  | ls formatTime =>
      exact ⟨_, startMetaLs formatTime, _,
        fun _ => rfl, fun _ _ _ => rfl⟩
  | openFile input =>
      exact ⟨_, startMetaOpenFile input, _,
        fun _ => rfl, fun _ _ _ => rfl⟩
  | getStat formatTime isDirectory input =>
      exact ⟨_, startMetaGetStat formatTime isDirectory input,
        _, fun _ => rfl, fun _ _ _ => rfl⟩
  | renameFile input info =>
      exact ⟨_, startMetaRenameFile input info, _,
        fun _ => rfl, fun _ _ _ => rfl⟩
  | renamePart2 info r =>
      exact ⟨_, startMetaRenamePart2 info r, _,
        fun _ => rfl, fun _ _ _ => rfl⟩
  | write amb input =>
      exact ⟨_, startWrite conf amb input, _,
        fun _ => rfl, fun _ _ _ => rfl⟩
  | createAndWrite amb input =>
      exact ⟨_, startCreateAndWriteFileSingleRequest amb input,
        _, fun _ => rfl, fun _ _ _ => rfl⟩

/-
  On servers that do not change, a handler is done after two
  reads exactly when they suffice, and never otherwise.
-/
theorem two_reads_iff
    (conf : StorageConf)
    (c : Cluster)
    (uuid : Uuid)
    (handler : DirectoryHandler) :
    (handler.finishes conf c uuid 2 = true ↔
        c.TwoReadsSuffice conf uuid) ∧
      (handler.finishes conf c uuid 2 = false →
        ∀ reads,
          handler.finishes conf c uuid reads = false) := by
  rcases exists_readnext conf handler with
    ⟨α, readnext, body, hBody, hFinishes⟩
  have hIff :
      (c.fetch conf uuid readnext 2 readsize).isSome ↔
        c.TwoReadsSuffice conf uuid :=
    Cluster.fetch_two_isSome_iff hBody
  refine ⟨?_, ?_⟩
  · rw [hFinishes]
    exact hIff
  · intro hNot reads
    rw [hFinishes] at hNot ⊢
    have hLoop : ¬ c.TwoReadsSuffice conf uuid := by
      intro hTwo
      rw [hIff.mpr hTwo] at hNot
      cases hNot
    rw [Cluster.fetch_eq_none hBody hLoop]
    rfl

/-
  The first block of a directory with 64 entries. The second
  block has not been committed yet.
-/
def halfDirectory : Cluster :=
  fun _ =>
    { db := Db.put (fun _ => none)
        (BlockKey.name ⟨Vector.replicate 32 7, 0⟩)
        ({ fileCount := 64, reserved := Vector.replicate 60 0 }
          : Stats).serialize
      log := fun _ => none }

/- Opening a file in it is not done after two reads. -/
theorem two_reads_not_enough :
    (openFile
        { uuid := Vector.replicate 32 7
          position := 0
          size := 0
          fileName := nameField (Decimal.ascii "a")
          fileKey := Vector.replicate 32 8
          data := [] }).finishes
        .standard halfDirectory (Vector.replicate 32 7) 2 =
      false := by
  decide +kernel

end DirectoryHandler

end Slfs
