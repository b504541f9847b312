import Mathlib.Data.List.Perm.Basic
import Slfs.DataFunction.StorageConf
import Slfs.Lib.Wire

/-
  Reading a range of a file.

  `start_read` asks for every block of the range at once. The
  answer that fills the last slot joins the slots and hands
  them on. Answers come in any order.

  Main declarations:
    * `Cluster.Readable`
    * `Cluster.readBytes_eq_of_readable`
-/

----------
-- The Result Accumulator
----------

namespace Slfs

/- Slots of the accumulator and the calls of `next`. -/
structure Reader where
  results : List (Option Bytes)
  replies : List Bytes
deriving DecidableEq, Repr

namespace Reader

/- One empty slot per block. -/
def start (n : Nat) : Reader :=
  { results := List.replicate n none, replies := [] }

/- The slots, joined in the order of the blocks. -/
def collect (results : List (Option Bytes)) : Bytes :=
  results.flatMap (fun r => r.getD [])

def onResponse (r : Reader) (index : Nat) (buf : Bytes) :
    Reader :=
  let results := r.results.set index (some buf)
  if results.all Option.isSome then
    { results := results
      replies := r.replies ++ [collect results] }
  else
    { r with results := results }

/- Handle the answers of the requests in some order. -/
def onResponses
    (r : Reader)
    (answers : List Bytes)
    (order : List Nat) :
    Reader :=
  order.foldl
    (fun r i => r.onResponse i (answers.getD i [])) r

/- The slots after some of the answers have come in. -/
def filled (answers : List Bytes) (seen : List Nat) :
    List (Option Bytes) :=
  (List.range answers.length).map
    (fun i => if i ∈ seen then some (answers.getD i [])
      else none)

variable {seen : List Nat} {answers : List Bytes}

theorem filled_set
    {i : Nat} :
    (filled answers seen).set i (some (answers.getD i [])) =
      filled answers (i :: seen) := by
  apply List.ext_getElem
  · simp [filled]
  · intro j hj hj'
    simp only [filled, List.getElem_set, List.getElem_map,
      List.getElem_range, List.mem_cons]
    by_cases hEq : i = j
    · subst hEq
      simp
    · have hNe : ¬ j = i := fun h => hEq h.symm
      simp [hEq, hNe]

/- All slots are full when all answers have been seen. -/
theorem all_filled_iff :
    (filled answers seen).all Option.isSome = true ↔
      ∀ i < answers.length, i ∈ seen := by
  simp only [filled, List.all_map, List.all_eq_true,
    List.mem_range, Function.comp]
  constructor
  · intro h i hi
    by_contra hNot
    have hSome := h i hi
    simp [hNot] at hSome
  · intro h i hi
    simp [h i hi]

theorem collect_filled
    (hAll : ∀ i < answers.length, i ∈ seen) :
    collect (filled answers seen) = answers.flatten := by
  have hMap : filled answers seen = answers.map some := by
    apply List.ext_getElem
    · simp [filled]
    · intro i hi hi'
      have hLt : i < answers.length := by
        simpa using hi'
      simp [filled, hAll i hLt, List.getD_eq_getElem?_getD, hLt]
  rw [hMap]
  simp [collect, List.flatMap_map]

/-
  While answers are missing nothing is handed on. The answer
  that completes the slots hands on all of them.
-/
theorem replies_onResponses
    (answers : List Bytes) :
    ∀ (order seen : List Nat),
      (order ++ seen).Nodup →
      (∀ i ∈ order, i < answers.length) →
      (∀ i < answers.length, i ∈ order ∨ i ∈ seen) →
      order ≠ [] →
        (onResponses
          { results := filled answers seen, replies := [] }
          answers order).replies = [answers.flatten]
| [], _, _, _, _, hNe => absurd rfl hNe
| [i], seen, _, _, hAll, _ => by
    have hSeen : ∀ j < answers.length, j ∈ i :: seen := by
      intro j hj
      rcases hAll j hj with h | h
      · rw [List.mem_singleton.mp h]
        exact List.mem_cons_self
      · exact List.mem_cons_of_mem _ h
    simp only [onResponses, List.foldl_cons, List.foldl_nil,
      onResponse, filled_set]
    rw [if_pos (all_filled_iff.mpr hSeen),
      collect_filled hSeen]
    rfl
| i :: j :: rest, seen, hNodup, hLt, hAll, _ => by
    -- the answer to `j` is still missing
    have hMissing :
        ¬ ∀ l < answers.length, l ∈ i :: seen := by
      intro hSeen
      have hj : j < answers.length := hLt j (by simp)
      have hMem := hSeen j hj
      simp only [List.cons_append, List.nodup_cons,
        List.mem_cons, List.mem_append] at hNodup hMem
      rcases hMem with h | h
      · exact hNodup.1 (Or.inl h.symm)
      · exact hNodup.2.1 (Or.inr h)
    have hRest :=
      replies_onResponses answers (j :: rest) (i :: seen)
        (by
          have hPerm :
              (i :: (j :: rest) ++ seen).Perm
                ((j :: rest) ++ i :: seen) := by
            rw [List.cons_append]
            exact List.perm_middle.symm
          exact hPerm.nodup_iff.mp hNodup)
        (fun l hl => hLt l (List.mem_cons_of_mem _ hl))
        (by
          intro l hl
          rcases hAll l hl with h | h
          · rcases List.mem_cons.mp h with hEq | hIn
            · exact Or.inr (hEq ▸ List.mem_cons_self)
            · exact Or.inl hIn
          · exact Or.inr (List.mem_cons_of_mem _ h))
        (by simp)
    simp only [onResponses, List.foldl_cons] at hRest ⊢
    rw [show
      ({ results := filled answers seen, replies := [] } :
        Reader).onResponse i (answers.getD i []) =
        { results := filled answers (i :: seen)
          replies := [] } by
      simp only [onResponse, filled_set]
      rw [if_neg (fun h => hMissing (all_filled_iff.mp h))]]
    exact hRest

/- In any order the answers are handed on once, joined. -/
theorem replies_of_perm
    {order : List Nat}
    (hOrder : order.Perm (List.range answers.length))
    (hNe : answers ≠ []) :
    (onResponses (start answers.length) answers
      order).replies = [answers.flatten] := by
  have hStart :
      start answers.length =
        { results := filled answers [], replies := [] } := by
    have hSlots :
        List.replicate answers.length (none : Option Bytes) =
          filled answers [] := by
      apply List.ext_getElem
      · simp [filled]
      · intro i hi hi'
        simp [filled]
    rw [start, hSlots]
  rw [hStart]
  refine replies_onResponses answers order [] ?_ ?_ ?_ ?_
  · rw [List.append_nil]
    exact hOrder.nodup_iff.mpr List.nodup_range
  · intro i hi
    exact List.mem_range.mp (hOrder.subset hi)
  · intro i hi
    exact Or.inl (hOrder.symm.subset (List.mem_range.mpr hi))
  · intro hNil
    rw [hNil] at hOrder
    have hLength := hOrder.length_eq
    simp only [List.length_nil, List.length_range] at hLength
    exact hNe (List.length_eq_zero_iff.mp hLength.symm)

end Reader

----------
-- Reads Over The Servers
----------

namespace Cluster

variable (conf : StorageConf)

/- The blocks of a range; its end is computed in 32 bits. -/
def readChunks (position size : Nat) : List Chunk :=
  Chunks.chunks conf.blocksize position
    ((position + size) % 2 ^ 32)

def readRequest (uuid : Uuid) (chunk : Chunk) : Packet :=
  Packet.createRequest uuid .get 0 chunk.block chunk.offset
    chunk.size

/- The bytes that a server answers to a read request. -/
def readAnswer (c : Cluster) (uuid : Uuid) (chunk : Chunk) :
    Option Bytes :=
  (c.request conf (readRequest uuid chunk)).map
    (fun result => result.1.data)

def readAnswers
    (c : Cluster)
    (uuid : Uuid)
    (position size : Nat) :
    Option (List Bytes) :=
  (readChunks conf position size).mapM
    (c.readAnswer conf uuid)

/-
  The calls of `next` that a read makes when its answers are
  handled in the given order.
-/
def startRead
    (c : Cluster)
    (uuid : Uuid)
    (position size : Nat)
    (order : List Nat) :
    Option (List Bytes) :=
  if size = 0 then some [[]]
  else
    (c.readAnswers conf uuid position size).map
      (fun answers =>
        (Reader.onResponses (Reader.start answers.length)
          answers order).replies)

/- The bytes that a read hands on. -/
def readBytes
    (c : Cluster)
    (uuid : Uuid)
    (position size : Nat) :
    Option Bytes :=
  if size = 0 then some []
  else
    (c.readAnswers conf uuid position size).map List.flatten

/- Byte of a file, zero where nothing has been written. -/
def byteAt (c : Cluster) (uuid : Uuid) (x : Nat) : UInt8 :=
  Buffer.nth
    (c.block conf ⟨uuid, x / conf.blocksize⟩).bytes
    (x % conf.blocksize)

/-
  The blocks of a range exist and reach to the offset of the
  range in them.
-/
def Readable
    (c : Cluster)
    (uuid : Uuid)
    (position size : Nat) :
    Prop :=
  ∀ chunk ∈ readChunks conf position size,
    ∃ block,
      (c.block conf ⟨uuid, chunk.block⟩).content =
        some block ∧
      chunk.offset ≤ block.length

end Cluster

----------
-- Collecting Partial Results
----------

variable {α β : Type} {f g : α → Option β} {l : List α}
variable {m : List β}

theorem mapM_option_congr
    (h : ∀ a ∈ l, f a = g a) :
    l.mapM f = l.mapM g := by
  induction l with
  | nil => rfl
  | cons a rest ih =>
      rw [List.mapM_cons, List.mapM_cons,
        h a List.mem_cons_self,
        ih (fun d hd => h d (List.mem_cons_of_mem _ hd))]

theorem mapM_option_eq_some
    {g : α → β}
    (h : ∀ a ∈ l, f a = some (g a)) :
    l.mapM f = some (l.map g) := by
  induction l with
  | nil => rfl
  | cons a rest ih =>
      rw [List.mapM_cons, h a List.mem_cons_self,
        ih (fun d hd => h d (List.mem_cons_of_mem _ hd))]
      rfl

/- Where the first is defined the second gives the same. -/
theorem mapM_option_mono
    (h : ∀ a ∈ l, ∀ b, f a = some b → g a = some b)
    (hSome : l.mapM f = some m) :
    l.mapM g = some m := by
  rw [← hSome]
  refine mapM_option_congr ?_
  intro a ha
  have hHead : (f a).isSome := by
    by_contra hNone
    have hFail : l.mapM f = none :=
      mapM_option_eq_none ha (by simpa using hNone)
    rw [hFail] at hSome
    cases hSome
  rcases Option.isSome_iff_exists.mp hHead with ⟨b, hb⟩
  rw [hb, h a ha b hb]

theorem sum_length_of_mapM_option
    {γ : Type}
    {f : α → Option (List γ)}
    {bound : α → Nat}
    {m : List (List γ)}
    (h : ∀ a ∈ l, ∀ b, f a = some b → b.length ≤ bound a)
    (hSome : l.mapM f = some m) :
    (m.map List.length).sum ≤ (l.map bound).sum := by
  induction l generalizing m with
  | nil =>
      have hNil : m = [] := by simpa using hSome.symm
      simp [hNil]
  | cons a rest ih =>
      rw [List.mapM_cons] at hSome
      rcases Option.bind_eq_some_iff.mp hSome with
        ⟨b, hHead, hNext⟩
      rcases Option.bind_eq_some_iff.mp hNext with
        ⟨bs, hTail, hEq⟩
      cases hEq
      have hFirst := h a List.mem_cons_self b hHead
      have hRest := ih
        (fun d hd => h d (List.mem_cons_of_mem _ hd)) hTail
      simp only [List.map_cons, List.sum_cons]
      omega

theorem length_of_mapM_option
    (h : l.mapM f = some m) :
    m.length = l.length := by
  induction l generalizing m with
  | nil =>
      have hNil : m = [] := by simpa using h.symm
      rw [hNil]
      rfl
  | cons a rest ih =>
      rw [List.mapM_cons] at h
      cases hHead : f a with
      | none => simp [hHead] at h
      | some b =>
          cases hTail : rest.mapM f with
          | none => simp [hHead, hTail] at h
          | some bs =>
              have hEq : m = b :: bs := by
                simpa [hHead, hTail] using h.symm
              rw [hEq, List.length_cons, List.length_cons,
                ih hTail]

----------
-- What A Read Returns
----------

namespace Cluster

variable {conf : StorageConf}

/- Reading changes no server. -/
theorem request_get
    (c : Cluster)
    {pack : Packet}
    (hGet : pack.header.type = .get) :
    c.request conf pack =
      ((c.block conf pack.header.key).read pack).map
        (fun resp => (resp.serialize, c)) := by
  have hSame : pack.serialize = pack := by
    simp [Packet.serialize, hGet]
  have hUpdate :
      (fun i => if i = host conf pack.header.key then
        c (host conf pack.header.key) else c i) = c := by
    funext i
    by_cases hi : i = host conf pack.header.key
    · simp [hi]
    · simp [hi]
  unfold request
  simp only [hSame, Ssbd.startReadHeader, hGet,
    Ssbd.startDbRead_spec]
  unfold block
  cases ((c (host conf pack.header.key)).block
      pack.header.key).read pack with
  | none => rfl
  | some resp =>
      simp only [Option.map_some, hUpdate]

variable {position : Nat} {chunk : Chunk} {uuid : Uuid}
variable {c : Cluster} {size : Nat}

/- The header of a read request holds the chunk as it is. -/
theorem readRequest_header
    (uuid : Uuid)
    (hMem : chunk ∈ readChunks conf position size) :
    (readRequest uuid chunk).header.key =
        ⟨uuid, chunk.block⟩ ∧
      (readRequest uuid chunk).header.position =
        chunk.offset ∧
      (readRequest uuid chunk).header.datasize =
        chunk.size := by
  have hFit := Chunks.fits_of_mem_chunks conf.blocksize_pos hMem
  have hBlock := hFit.in_block
  have hSize := hFit.size_pos
  have hPos := hFit.position
  have hRange := hFit.in_range
  have hLe := conf.blocksize_le
  have hLast : (position + size) % 2 ^ 32 < 2 ^ 32 :=
    Nat.mod_lt _ (by decide)
  have hMul : chunk.block ≤ chunk.block * conf.blocksize :=
    Nat.le_mul_of_pos_right _ conf.blocksize_pos
  refine ⟨?_, ?_, ?_⟩
  · have hId : chunk.block % 2 ^ 32 = chunk.block :=
      Nat.mod_eq_of_lt (by omega)
    exact congrArg (BlockKey.mk uuid) hId
  · exact Nat.mod_eq_of_lt (by omega)
  · exact Nat.mod_eq_of_lt (by omega)

/- What a server answers to a read of its block. -/
theorem readAnswer_eq
    (c : Cluster)
    (hMem : chunk ∈ readChunks conf position size) :
    c.readAnswer conf uuid chunk =
      match (c.block conf ⟨uuid, chunk.block⟩).content with
      | none => some []
      | some block =>
          Ssbd.rawblocksRead block chunk.offset
            chunk.size := by
  rcases readRequest_header uuid hMem with
    ⟨hKey, hPosition, hSize⟩
  unfold readAnswer
  rw [request_get c rfl, hKey]
  unfold Block.read
  rw [hPosition, hSize]
  cases (c.block conf ⟨uuid, chunk.block⟩).content with
  | none => simp
  | some block =>
      simp only [Option.map_map]
      cases Ssbd.rawblocksRead block chunk.offset
          chunk.size with
      | none => rfl
      | some bytes => simp

/- A read depends on the answers of its servers only. -/
theorem readAnswers_congr
    {c' : Cluster}
    (h : ∀ chunk ∈ readChunks conf position size,
      c.readAnswer conf uuid chunk =
        c'.readAnswer conf uuid chunk) :
    c.readAnswers conf uuid position size =
      c'.readAnswers conf uuid position size :=
  mapM_option_congr h

/- The offset of a byte in the file and in its block. -/
theorem byteAt_of_mem
    (c : Cluster)
    (hMem : chunk ∈ readChunks conf position size)
    {i : Nat}
    (hi : i < chunk.size) :
    c.byteAt conf uuid (position + chunk.start + i) =
      Buffer.nth (c.block conf ⟨uuid, chunk.block⟩).bytes
        (chunk.offset + i) := by
  have hFit := Chunks.fits_of_mem_chunks conf.blocksize_pos hMem
  have hBlock := hFit.in_block
  have hPos := hFit.position
  have hSplit :
      position + chunk.start + i =
        chunk.block * conf.blocksize + (chunk.offset + i) := by
    omega
  rcases Chunks.div_mod_of_eq_mul_add
    (by omega : chunk.offset + i < conf.blocksize) hSplit with
    ⟨hDiv, hMod⟩
  unfold byteAt
  rw [hDiv, hMod]

/- A block that reaches to the offset answers in full. -/
theorem readAnswer_of_content
    (hMem : chunk ∈ readChunks conf position size)
    {block : Bytes}
    (hContent :
      (c.block conf ⟨uuid, chunk.block⟩).content = some block)
    (hReach : chunk.offset ≤ block.length) :
    c.readAnswer conf uuid chunk =
      some ((List.range chunk.size).map
        (fun i => c.byteAt conf uuid
          (position + chunk.start + i))) := by
  rw [readAnswer_eq c hMem, hContent]
  simp only
  rw [Ssbd.rawblocksRead_eq _ hReach, Buffer.window_eq_map]
  refine congrArg some (List.map_congr_left ?_)
  intro i hi
  rw [byteAt_of_mem c hMem (List.mem_range.mp hi)]
  simp [Block.bytes, hContent]

/- A readable range reads as the bytes of the file. -/
theorem readAnswers_of_readable
    (h : c.Readable conf uuid position size) :
    c.readAnswers conf uuid position size =
      some ((readChunks conf position size).map
        (fun chunk => (List.range chunk.size).map
          (fun i => c.byteAt conf uuid
            (position + chunk.start + i)))) := by
  refine mapM_option_eq_some ?_
  intro chunk hMem
  rcases h chunk hMem with ⟨block, hContent, hReach⟩
  exact readAnswer_of_content hMem hContent hReach

theorem readBytes_eq_of_readable
    (hRange : position + size < 2 ^ 32)
    (h : c.Readable conf uuid position size) :
    c.readBytes conf uuid position size =
      some ((List.range size).map
        (fun i => c.byteAt conf uuid (position + i))) := by
  unfold readBytes
  by_cases hZero : size = 0
  · simp [hZero]
  · rw [if_neg hZero, readAnswers_of_readable h, Option.map_some]
    have hFlat :=
      Chunks.flatMap_chunks conf.blocksize_pos position
        (position + size) (c.byteAt conf uuid)
    have hSize : position + size - position = size := by omega
    rw [hSize] at hFlat
    rw [readChunks, Nat.mod_eq_of_lt hRange, ← hFlat]
    rfl

/- A read returns no more than it was asked for. -/
theorem length_readBytes_le
    (hRange : position + size < 2 ^ 32)
    {buf : Bytes}
    (h : c.readBytes conf uuid position size = some buf) :
    buf.length ≤ size := by
  unfold readBytes at h
  by_cases hZero : size = 0
  · rw [if_pos hZero] at h
    cases h
    exact Nat.zero_le _
  rw [if_neg hZero] at h
  rcases Option.map_eq_some_iff.mp h with
    ⟨answers, hAnswers, hEq⟩
  -- an answer is as long as its chunk, or empty
  have hAnswer : ∀ chunk ∈ readChunks conf position size,
      ∀ answer, c.readAnswer conf uuid chunk = some answer →
        answer.length ≤ chunk.size := by
    intro chunk hMem answer hSome
    rw [readAnswer_eq c hMem] at hSome
    cases hBlock :
        (c.block conf ⟨uuid, chunk.block⟩).content with
    | none =>
        rw [hBlock] at hSome
        cases hSome
        exact Nat.zero_le _
    | some block =>
        rw [hBlock] at hSome
        exact Nat.le_of_eq (Ssbd.length_of_rawblocksRead hSome)
  have hSum : (answers.map List.length).sum ≤
      ((readChunks conf position size).map
        (fun chunk => chunk.size)).sum :=
    sum_length_of_mapM_option hAnswer hAnswers
  have hFlat := congrArg List.length
    (Chunks.flatMap_chunks conf.blocksize_pos position
      (position + size) (fun x => x))
  have hSize : position + size - position = size := by omega
  rw [← hEq, List.length_flatten]
  rw [readChunks, Nat.mod_eq_of_lt hRange] at hSum
  simp only [List.length_flatMap, List.length_map,
    List.length_range, hSize] at hFlat
  omega

/- What can be read of the start of a file. -/
theorem readable_zero_iff
    {m : Nat}
    (hm : m < 2 ^ 32) :
    c.Readable conf uuid 0 m ↔
      ∀ x < m, ∃ block,
        (c.block conf ⟨uuid, x / conf.blocksize⟩).content =
          some block := by
  have hb := conf.blocksize_pos
  have hChunks : readChunks conf 0 m =
      Chunks.chunks conf.blocksize 0 m := by
    rw [readChunks, Nat.zero_add, Nat.mod_eq_of_lt hm]
  constructor
  · intro h x hx
    rcases Chunks.exists_chunk hb (Nat.zero_le x) hx with
      ⟨chunk, hMem, hCovers⟩
    rcases h chunk (hChunks ▸ hMem) with ⟨block, hContent, _⟩
    rw [hCovers.block_eq] at hContent
    exact ⟨block, hContent⟩
  · intro h chunk hMem
    rw [hChunks] at hMem
    have hFit := Chunks.fits_of_mem_chunks hb hMem
    have hOffset := Chunks.offset_of_mem_chunks_zero hb hMem
    have hPos := hFit.position
    have hSizePos := hFit.size_pos
    have hEnd := hFit.in_range
    rcases h chunk.start (by omega) with ⟨block, hContent⟩
    rw [Chunks.start_div_of_mem_chunks_zero hb hMem] at hContent
    exact ⟨block, hContent, by omega⟩

/-
  A read from the start of a file begins with what can be
  read of it. Blocks that do not exist answer with nothing.
-/
theorem readBytes_prefix
    {m size : Nat}
    (hm : m ≤ size)
    (hSize : size < 2 ^ 32)
    (h : c.Readable conf uuid 0 m) :
    ∃ rest, c.readBytes conf uuid 0 size =
      some ((List.range m).map (c.byteAt conf uuid) ++
        rest) := by
  have hb := conf.blocksize_pos
  have hChunks : readChunks conf 0 size =
      Chunks.chunks conf.blocksize 0 size := by
    rw [readChunks, Nat.zero_add, Nat.mod_eq_of_lt hSize]
  let g : Chunk → Bytes := fun chunk =>
    (c.readAnswer conf uuid chunk).getD []
  have hAnswer : ∀ chunk ∈ readChunks conf 0 size,
      c.readAnswer conf uuid chunk = some (g chunk) := by
    intro chunk hMem
    have hOffset : chunk.offset = 0 := by
      rw [hChunks] at hMem
      exact Chunks.offset_of_mem_chunks_zero hb hMem
    have hSome : (c.readAnswer conf uuid chunk).isSome := by
      rw [readAnswer_eq c hMem, hOffset]
      cases (c.block conf ⟨uuid, chunk.block⟩).content with
      | none => rfl
      | some block => simp [Ssbd.rawblocksRead]
    rcases Option.isSome_iff_exists.mp hSome with ⟨bytes, hEq⟩
    simp [g, hEq]
  have hPrefix :
      (List.range m).map (c.byteAt conf uuid) <+:
        (readChunks conf 0 size).flatMap g := by
    have hJoin :
        (List.range (m - 0)).map
            (fun i => c.byteAt conf uuid (0 + i)) <+:
          (Chunks.chunks conf.blocksize 0 size).flatMap g := by
      refine Chunks.prefix_flatMap_chunks hb hm
        (c.byteAt conf uuid) g ?_
      intro chunk hMem hStart
      have hFit := Chunks.fits_of_mem_chunks hb hMem
      have hOffset := Chunks.offset_of_mem_chunks_zero hb hMem
      have hPos := hFit.position
      rcases (readable_zero_iff (by omega)).mp h chunk.start
        (by omega) with
        ⟨block, hContent⟩
      rw [Chunks.start_div_of_mem_chunks_zero hb hMem] at hContent
      have hFull := readAnswer_of_content
        (hChunks.symm ▸ hMem) hContent (by omega)
      simp only [g, hFull, Option.getD_some]
    rw [hChunks]
    simpa using hJoin
  rcases hPrefix with ⟨rest, hRest⟩
  refine ⟨rest, ?_⟩
  unfold readBytes
  by_cases hZero : size = 0
  · have hNone : readChunks conf 0 size = [] := by
      rw [hChunks, hZero]
      exact Chunks.chunks_of_le (Nat.le_refl _)
    rw [if_pos hZero, hRest, hNone]
    rfl
  · rw [if_neg hZero, readAnswers, mapM_option_eq_some hAnswer,
      Option.map_some, hRest, List.flatMap]

/- In any order of the answers a read hands on its bytes. -/
theorem startRead_of_perm
    (c : Cluster)
    {order : List Nat}
    (hSize : 0 < size)
    (hRange : position + size < 2 ^ 32)
    (hOrder : order.Perm
      (List.range (readChunks conf position size).length)) :
    c.startRead conf uuid position size order =
      (c.readBytes conf uuid position size).map
        (fun bytes => [bytes]) := by
  have hZero : size ≠ 0 := by omega
  unfold startRead readBytes
  rw [if_neg hZero, if_neg hZero]
  cases hAnswers : c.readAnswers conf uuid position size with
  | none => rfl
  | some answers =>
      have hLength := length_of_mapM_option hAnswers
      have hNe : answers ≠ [] := by
        intro hNil
        rcases Chunks.exists_chunk conf.blocksize_pos
          (Nat.le_refl position)
          (show position < position + size by omega) with
          ⟨chunk, hMem, _⟩
        rw [hNil, readChunks, Nat.mod_eq_of_lt hRange] at hLength
        rw [List.length_eq_zero_iff.mp hLength.symm] at hMem
        cases hMem
      rw [← hLength] at hOrder
      simp only [Option.map_some]
      rw [Reader.replies_of_perm hOrder hNe]

end Cluster

end Slfs
