import Slfs.DataFunction.Caching

/-
  File requests with and without the cache.

  A read whose blocks are all cached is not sent to the
  storage. The answers are the same when every request leaves
  under a block number what later reads of the same directory
  find there in the storage.

  Main declarations:
    * `ProxyCommand.Coherent`
    * `ProxyCommand.replies_eq_of_coherent`
-/

----------
-- Requests With And Without The Cache
----------

namespace Slfs

/- A storage whose reads change nothing. -/
structure Backend (σ : Type) where
  read : σ → Jsre.Request → Bytes
  write : σ → Jsre.Request → Bytes × σ

structure ProxyCommand (σ : Type) where
  enableCache : Bool
  cacheEngine : Cache
  storage : σ

/- A request for a file. -/
abbrev FileRequest := Operation × Jsre.Request

namespace ProxyCommand

variable {σ : Type} (backend : Backend σ)

/- Put the data of a request into the cache, if it is used. -/
def cacheData
    (input : Jsre.Request)
    (data : Bytes)
    (p : ProxyCommand σ) : Option (ProxyCommand σ) :=
  if p.enableCache then
    (p.cacheEngine.writeToCache input data).map
      (fun c => { p with cacheEngine := c })
  else some p

/-
  The answer to a file request, and the state after it. The
  answer is given before the cache is written.
-/
def startStoragePerform
    (p : ProxyCommand σ) :
    FileRequest → Option Bytes × Option (ProxyCommand σ)
| (.write, input) =>
    let result := backend.write p.storage input
    (some result.1,
      cacheData input input.data
        { p with storage := result.2 })
| (.read, input) =>
    match p.cacheEngine.readFromCache input with
    | none => (none, none)
    | some (some cached, c) =>
        (some cached, some { p with cacheEngine := c })
    | some (none, c) =>
        let buf := backend.read p.storage input
        (some buf,
          cacheData input buf { p with cacheEngine := c })

/- The answers to requests handled one after another. -/
def replies (p : ProxyCommand σ) :
    List FileRequest → List Bytes
| [] => []
| q :: qs =>
    let (reply, next) := p.startStoragePerform backend q
    reply.toList ++
      match next with
      | none => []
      | some p' => replies p' qs

/- A data function that has just been started. -/
def start
    (enableCache : Bool)
    (cachesize : UInt32)
    (policy : EvictionPolicy)
    (storage : σ) : ProxyCommand σ :=
  { enableCache := enableCache
    cacheEngine := Cache.empty cachesize policy
    storage := storage }

end ProxyCommand

----------
-- What Requests Leave
----------

/-
  A request together with the data it leaves in the cache:
  what it writes, or what it reads from the storage.
-/
structure Access where
  operation : Operation
  input : Jsre.Request
  data : Bytes
deriving DecidableEq, Repr

namespace Access

open Cache (blocksize blockCount blockRange Ends)

/- The numbers of the blocks that the data is left under. -/
def ids (a : Access) : List Nat :=
  blockRange a.input

/- The part of the data that is left under a number. -/
def piece (a : Access) (id : Nat) : Bytes :=
  (a.data.drop
    (blocksize * (id - a.input.position.toNat / blocksize))).take
      blocksize

/-
  The request has the size that it says, its last block is
  within 32 bits, and it fits into the cache.
-/
structure Fits (cachesize : UInt32) (a : Access) : Prop where
  length_data : a.data.length = a.input.size.toNat
  ends : Ends a.input
  size_le : a.input.size ≤ cachesize

instance (cachesize : UInt32) (a : Access) :
    Decidable (a.Fits cachesize) :=
  decidable_of_iff
    (a.data.length = a.input.size.toNat ∧ Ends a.input ∧
      a.input.size ≤ cachesize)
    ⟨fun h => ⟨h.1, h.2.1, h.2.2⟩,
      fun h => ⟨h.length_data, h.ends, h.size_le⟩⟩

/-
  What the earlier access leaves is what the later one, if
  it is a read, finds under the same block numbers.
-/
def Agrees (earlier later : Access) : Prop :=
  later.operation = .read →
    earlier.input.uuid = later.input.uuid →
      ∀ id ∈ earlier.ids, id ∈ later.ids →
        earlier.piece id = later.piece id

instance (earlier later : Access) :
    Decidable (Agrees earlier later) :=
  inferInstanceAs (Decidable (_ → _))

/- What a sequence of accesses leaves under a block. -/
def Left
    (as : List Access)
    (e : Uuid × Nat)
    (block : Bytes) : Prop :=
  ∃ a ∈ as, a.input.uuid = e.1 ∧ e.2 ∈ a.ids ∧
    a.piece e.2 = block

end Access

namespace ProxyCommand

variable {σ : Type} (backend : Backend σ)

/- The accesses when every request goes to the storage. -/
def trace (storage : σ) : List FileRequest → List Access
| [] => []
| (.write, input) :: qs =>
    { operation := .write
      input := input
      data := input.data.take input.size.toNat } ::
      trace (backend.write storage input).2 qs
| (.read, input) :: qs =>
    { operation := .read
      input := input
      data := backend.read storage input } ::
      trace storage qs

/-
  Every request has its size and fits, and agrees with the
  reads that come after it.
-/
structure Coherent
    (cachesize : UInt32)
    (storage : σ)
    (qs : List FileRequest) : Prop where
  fits : ∀ a ∈ trace backend storage qs, a.Fits cachesize
  agrees : (trace backend storage qs).Pairwise Access.Agrees

end ProxyCommand

----------
-- Pieces
----------

namespace Access

open Cache (blocksize blockCount blockRange Ends toEmplace)

theorem nodup_ids
    (a : Access) :
    a.ids.Nodup := by
  refine List.Nodup.map ?_ List.nodup_range
  intro j k h
  exact Nat.add_left_cancel h

variable {a : Access}

/- The pieces make up the data. -/
theorem flatMap_piece
    (hLength : a.data.length = a.input.size.toNat) :
    a.ids.flatMap a.piece = a.data := by
  have hParts :=
    Buffer.flatMap_range_parts blocksize
      (blockCount a.input) a.data (by
        rw [hLength]
        unfold blockCount blocksize
        omega)
  unfold ids blockRange piece
  rw [List.flatMap_map]
  simp only [Nat.add_sub_cancel_left]
  exact hParts

theorem sum_length_piece
    (hLength : a.data.length = a.input.size.toNat) :
    (a.ids.map (fun id => (a.piece id).length)).sum =
      a.input.size.toNat := by
  rw [← hLength, ← List.length_flatMap,
    flatMap_piece hLength]

/- What is copied out of a buffer that holds the data. -/
theorem toEmplace_eq
    {data : Bytes}
    {id : Nat}
    (hLength : a.data.length = a.input.size.toNat)
    (hEnds : Ends a.input)
    (hData : a.data = data.take a.input.size.toNat)
    (hId : id ∈ a.ids) :
    toEmplace a.input data id = some (a.piece id) := by
  rcases List.mem_map.mp hId with ⟨k, hk, hEq⟩
  have hCount : k < blockCount a.input :=
    List.mem_range.mp hk
  unfold Ends blockCount blocksize at hEnds
  unfold blockCount blocksize at hCount
  subst hEq
  have hFirst :
      (a.input.position.toNat / blocksize + k + 2 ^ 32 -
        a.input.position.toNat / blocksize) % 2 ^ 32 *
          blocksize % 2 ^ 32 = blocksize * k := by
    unfold blocksize
    omega
  have hRest :
      (a.input.size.toNat + 2 ^ 32 - blocksize * k) % 2 ^ 32 =
        a.input.size.toNat - blocksize * k := by
    have hLt := a.input.size.toNat_lt
    unfold blocksize
    omega
  have hEnough : a.input.size.toNat ≤ data.length := by
    rw [hData, List.length_take] at hLength
    omega
  unfold toEmplace Cache.copySize Cache.copyOffset piece
  rw [hFirst, hRest, if_pos (by unfold blocksize; omega),
    Nat.add_sub_cancel_left, hData, List.drop_take,
    List.take_take]

end Access

namespace Cache

namespace Sound

variable {cachesize : UInt32} {as : List Access}
variable {a : Access} {c : Cache}

theorem later
    (h : Sound cachesize (Access.Left as) c)
    (a : Access) :
    Sound cachesize (Access.Left (as ++ [a])) c := by
  refine h.mono ?_
  intro e block hLeft
  rcases hLeft with ⟨a', hMem, hRest⟩
  exact ⟨a', List.mem_append_left _ hMem, hRest⟩

/- The data of a request that fits is put into the cache. -/
theorem writeToCache
    {data : Bytes}
    (h : Sound cachesize (Access.Left as) c)
    (hFits : a.Fits cachesize)
    (hData : a.data = data.take a.input.size.toNat) :
    ∃ c', c.writeToCache a.input data = some c' ∧
      Sound cachesize (Access.Left (as ++ [a])) c' := by
  have hEmplace : ∀ id ∈ a.ids,
      toEmplace a.input data id = some (a.piece id) :=
    fun id hId =>
      Access.toEmplace_eq hFits.length_data hFits.ends hData hId
  have hLeft : ∀ id ∈ a.ids,
      Access.Left (as ++ [a]) (a.input.uuid, id)
        (a.piece id) :=
    fun id hId => ⟨a, by simp, rfl, hId, rfl⟩
  have hIds : getBlockIds a.input = some a.ids :=
    getBlockIds_of_ends hFits.ends
  cases hFile : c.cachingMap.lookup a.input.uuid with
  | some blocks =>
      have hEach : ∀ id ∈ a.ids,
          toEmplace a.input data id = some (a.piece id) ∧
            Access.Left (as ++ [a]) (a.input.uuid, id)
              (a.piece id) ∧
            (a.piece id).length ≤ blocksize :=
        fun id hId =>
          ⟨hEmplace id hId, hLeft id hId,
            List.length_take_le _ _⟩
      rcases (h.later a).writeBlocks hEach with
        ⟨c', hWrite, hSound⟩
      refine ⟨c', ?_, hSound⟩
      simp [Cache.writeToCache, hIds, hFile, hWrite]
  | none =>
      have hTotal :
          Lru.total ([] : List ((Uuid × Nat) × Nat)) +
              (a.ids.map (fun id => (a.piece id).length)).sum ≤
            cachesize.toNat := by
        rw [Access.sum_length_piece hFits.length_data,
          Lru.total_nil, Nat.zero_add]
        exact UInt32.le_iff_toNat_le.mp hFits.size_le
      have hNew : ∀ id block,
          (∅ : BlockMap).lookup id = some block →
            Access.Left (as ++ [a]) (a.input.uuid, id) block ∧
              ∃ x ∈ ([] : List ((Uuid × Nat) × Nat)),
                x.1 = (a.input.uuid, id) := by
        simp
      rcases (h.later a).collectBlocks hFile a.nodup_ids
          (fun id hId => ⟨hEmplace id hId, hLeft id hId⟩)
          (List.append_nil _).symm (by simp) hTotal hNew with
        ⟨blocks, c', hCollect, hSound, hNone, hBlocks⟩
      refine ⟨_, ?_, hSound.emplaceFile hNone hBlocks⟩
      simp [Cache.writeToCache, hIds, hFile, hCollect]

/-
  A read that agrees with everything before it finds nothing
  in the cache, or finds its data.
-/
theorem readFromCache
    (h : Sound cachesize (Access.Left as) c)
    (hFits : a.Fits cachesize)
    (hRead : a.operation = .read)
    (hAgrees : ∀ a' ∈ as, Access.Agrees a' a) :
    ∃ r c', c.readFromCache a.input = some (r, c') ∧
      Sound cachesize (Access.Left as) c' ∧
      ∀ buf, r = some buf → buf = a.data := by
  have hOnly : ∀ id ∈ a.ids, ∀ block,
      Access.Left as (a.input.uuid, id) block →
        block = a.piece id := by
    intro id hId block hLeft
    rcases hLeft with ⟨a', hMem, hUuid, hIn, hPiece⟩
    rw [← hPiece]
    exact hAgrees a' hMem hRead hUuid id hIn hId
  have hIds : getBlockIds a.input = some a.ids :=
    getBlockIds_of_ends hFits.ends
  cases hFile : c.cachingMap.lookup a.input.uuid with
  | none =>
      refine ⟨none, c, ?_, h, by simp⟩
      simp [Cache.readFromCache, hFile]
  | some blocks =>
      rcases h.readBlocks hOnly [] with
        ⟨r, c', hBlocks, hSound, hBuf⟩
      refine ⟨r, c', ?_, hSound, ?_⟩
      · simp [Cache.readFromCache, hFile, hIds, hBlocks]
      · intro buf hr
        rw [hBuf buf hr, List.nil_append]
        exact Access.flatMap_piece hFits.length_data

end Sound

end Cache

----------
-- The Same Answers
----------

namespace ProxyCommand

variable {σ : Type} {backend : Backend σ}

/- The answers of the storage alone. -/
def storageReplies (backend : Backend σ) (storage : σ) :
    List FileRequest → List Bytes
| [] => []
| (.write, input) :: qs =>
    (backend.write storage input).1 ::
      storageReplies backend (backend.write storage input).2 qs
| (.read, input) :: qs =>
    backend.read storage input ::
      storageReplies backend storage qs

theorem replies_cons
    {p p' : ProxyCommand σ}
    {q : FileRequest}
    {buf : Bytes}
    (h :
      p.startStoragePerform backend q = (some buf, some p'))
    (qs : List FileRequest) :
    p.replies backend (q :: qs) =
      buf :: p'.replies backend qs := by
  simp [replies, h]

theorem cacheData_of_disabled
    (p : ProxyCommand σ)
    (h : p.enableCache = false)
    (input : Jsre.Request)
    (data : Bytes) :
    cacheData input data p = some p := by
  simp [cacheData, h]

/- Without the cache, the storage answers. -/
theorem replies_of_disabled
    (qs : List FileRequest)
    (p : ProxyCommand σ)
    (hOff : p.enableCache = false)
    (hEmpty : p.cacheEngine.cachingMap = ∅) :
    p.replies backend qs =
      storageReplies backend p.storage qs := by
  induction qs generalizing p with
  | nil => rfl
  | cons q qs ih =>
      rcases q with ⟨op, input⟩
      cases op with
      | write =>
          let p' : ProxyCommand σ :=
            { p with
              storage := (backend.write p.storage input).2 }
          have hStep :
              p.startStoragePerform backend (.write, input) =
                (some (backend.write p.storage input).1,
                  some p') := by
            simp only [startStoragePerform]
            rw [cacheData_of_disabled p' hOff]
          rw [replies_cons hStep, ih p' hOff hEmpty]
          rfl
      | read =>
          have hMiss :
              p.cacheEngine.readFromCache input =
                some (none, p.cacheEngine) := by
            simp [Cache.readFromCache, hEmpty]
          have hStep :
              p.startStoragePerform backend (.read, input) =
                (some (backend.read p.storage input),
                  some p) := by
            simp only [startStoragePerform, hMiss]
            rw [cacheData_of_disabled p hOff]
          rw [replies_cons hStep, ih p hOff hEmpty]
          rfl

/-
  With a sound cache, the answers are those of the storage.
  The accesses so far are those that the cache may hold.
-/
theorem replies_of_sound
    {cachesize : UInt32}
    (qs : List FileRequest)
    (p : ProxyCommand σ)
    (as : List Access)
    (hOn : p.enableCache = true)
    (hSound :
      Cache.Sound cachesize (Access.Left as) p.cacheEngine)
    (hFits :
      ∀ a ∈ trace backend p.storage qs, a.Fits cachesize)
    (hAgrees :
      (as ++ trace backend p.storage qs).Pairwise
        Access.Agrees) :
    p.replies backend qs =
      storageReplies backend p.storage qs := by
  induction qs generalizing p as with
  | nil => rfl
  | cons q qs ih =>
      rcases q with ⟨op, input⟩
      cases op with
      | write =>
          rcases hSound.writeToCache
              (hFits _ List.mem_cons_self) rfl with
            ⟨c', hWrite, hSound'⟩
          have hStep :
              p.startStoragePerform backend (.write, input) =
                (some (backend.write p.storage input).1,
                  some { p with
                    cacheEngine := c'
                    storage :=
                      (backend.write p.storage input).2 }) := by
            simp [startStoragePerform, cacheData, hOn, hWrite]
          have hRest := ih
            { p with
              cacheEngine := c'
              storage := (backend.write p.storage input).2 }
            _ hOn hSound'
            (fun a ha => hFits a (List.mem_cons_of_mem _ ha))
            (by simpa [trace] using hAgrees)
          rw [replies_cons hStep, hRest]
          rfl
      | read =>
          have hHead := hFits _ List.mem_cons_self
          have hBefore :
              ∀ a' ∈ as, Access.Agrees a'
                { operation := .read
                  input := input
                  data := backend.read p.storage input } :=
            fun a' ha' =>
              (List.pairwise_append.mp hAgrees).2.2 a' ha' _
                List.mem_cons_self
          rcases hSound.readFromCache hHead rfl hBefore with
            ⟨r, c', hRead, hSound', hBuf⟩
          have hNext :
              ∀ p' : ProxyCommand σ,
                p'.storage = p.storage →
                p'.enableCache = true →
                Cache.Sound cachesize
                  (Access.Left (as ++
                    [{ operation := .read
                       input := input
                       data := backend.read p.storage input }]))
                  p'.cacheEngine →
                p'.replies backend qs =
                  storageReplies backend p.storage qs := by
            intro p' hStorage hOn' hCache
            rw [← hStorage]
            refine ih p' _ hOn' hCache ?_ ?_
            · rw [hStorage]
              exact fun a ha =>
                hFits a (List.mem_cons_of_mem _ ha)
            · rw [hStorage]
              simpa [trace] using hAgrees
          cases r with
          | some buf =>
              have hStep :
                  p.startStoragePerform backend (.read, input) =
                    (some (backend.read p.storage input),
                      some { p with cacheEngine := c' }) := by
                simp [startStoragePerform, hRead, hBuf buf rfl]
              rw [replies_cons hStep,
                hNext { p with cacheEngine := c' } rfl hOn
                  (hSound'.later _)]
              rfl
          | none =>
              have hWhole :
                  backend.read p.storage input =
                    (backend.read p.storage input).take
                      input.size.toNat :=
                (List.take_of_length_le
                  (Nat.le_of_eq hHead.length_data)).symm
              rcases hSound'.writeToCache hHead hWhole with
                ⟨c'', hWrite, hSound''⟩
              have hStep :
                  p.startStoragePerform backend (.read, input) =
                    (some (backend.read p.storage input),
                      some { p with cacheEngine := c'' }) := by
                simp [startStoragePerform, hRead, cacheData,
                  hOn, hWrite]
              rw [replies_cons hStep,
                hNext { p with cacheEngine := c'' } rfl hOn
                  hSound'']
              rfl

/-
  With and without the cache, a coherent sequence of file
  requests gets the same answers.
-/
theorem replies_eq_of_coherent
    (backend : Backend σ)
    (cachesize : UInt32)
    (hSize : Cache.blocksize ≤ cachesize.toNat)
    (storage : σ)
    (qs : List FileRequest)
    (hCoherent : Coherent backend cachesize storage qs) :
    (start true cachesize .LRU storage).replies backend qs =
      (start false cachesize .LRU storage).replies
        backend qs := by
  have hOn :
      (start true cachesize .LRU storage).replies backend qs =
        storageReplies backend storage qs :=
    replies_of_sound qs _ [] rfl
      (Cache.sound_empty hSize .LRU) hCoherent.fits
      hCoherent.agrees
  have hOff :
      (start false cachesize .LRU storage).replies backend qs =
        storageReplies backend storage qs :=
    replies_of_disabled qs _ rfl rfl
  rw [hOn, hOff]

----------
-- A Storage In Memory
----------

/-
  Files of bytes. A write puts its data at its position, and
  a read returns the bytes of its range.
-/
def memory : Backend (AList (fun _ : Uuid => Bytes)) where
  read files input :=
    Buffer.window ((files.lookup input.fileKey).getD [])
      input.position.toNat input.size.toNat
  write files input :=
    (Decimal.ascii "OK",
      files.insert input.fileKey
        (Buffer.overlay ((files.lookup input.fileKey).getD [])
          input.position.toNat
          (input.data.take input.size.toNat)))

/- A request for file `file` of one directory. -/
def sampleRequest
    (file : UInt8)
    (position : UInt32)
    (size : UInt32)
    (data : Bytes) : Jsre.Request :=
  { uuid := Vector.replicate 32 0
    position := position
    size := size
    fileName := Vector.replicate 34 file
    fileKey := Vector.replicate 32 file
    data := data }

def sampleWrite
    (file : UInt8)
    (position : UInt32)
    (data : Bytes) : FileRequest :=
  (.write,
    sampleRequest file position data.length.toUInt32 data)

def sampleRead
    (file : UInt8)
    (position size : UInt32) : FileRequest :=
  (.read, sampleRequest file position size [])

/- Two blocks of a file, written once and read twice. -/
def twoBlocks : List FileRequest :=
  [sampleWrite 1 0 [1, 2],
    sampleRead 1 0 2,
    sampleWrite 1 4096 [3],
    sampleRead 1 4096 1,
    sampleRead 1 0 2]

theorem replies_eq_of_coherent_twoBlocks :
    Coherent memory 4096 ∅ twoBlocks ∧
      (start true 4096 .LRU ∅).replies memory twoBlocks =
        (start false 4096 .LRU ∅).replies memory twoBlocks := by
  have hCoherent : Coherent memory 4096 ∅ twoBlocks :=
    ⟨by decide +kernel, by decide +kernel⟩
  exact ⟨hCoherent,
    replies_eq_of_coherent memory 4096 (by decide) ∅
      twoBlocks hCoherent⟩

/- Two files of one directory. -/
def twoFiles : List FileRequest :=
  [sampleWrite 1 0 [1], sampleWrite 2 0 [2], sampleRead 2 0 1]

/- A file that is written again. -/
def overwritten : List FileRequest :=
  [sampleWrite 1 0 [1], sampleWrite 1 0 [2], sampleRead 1 0 1]

/- A read from inside a block. -/
def unaligned : List FileRequest :=
  [sampleWrite 1 0 [1, 2], sampleRead 1 1 1]

/- A file that is larger than the cache. -/
def oversized : List FileRequest :=
  [sampleWrite 1 0 (List.replicate 4097 1),
    sampleRead 1 0 4097]

set_option maxRecDepth 20000 in
theorem cached_replies_differ :
    List.Forall
      (fun qs =>
        (start true 4096 .LRU ∅).replies memory qs ≠
          (start false 4096 .LRU ∅).replies memory qs)
      [twoFiles, overwritten, unaligned, oversized] := by
  rw [List.forall_iff_forall_mem]
  decide +kernel

end ProxyCommand

end Slfs
