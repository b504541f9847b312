import Slfs.DataFunction.Holes
import Slfs.DataFunction.Volume
import Slfs.Lib.Blocks

/-
  Stores as files.

  Every request writes a file from its start on, so the blocks
  of a file are always those of one buffer, and a commit lays
  its inputs over the buffers.

  Main declarations:
    * `Cluster.Contains`, servers that hold some files
    * `Cluster.Contains.readBytes_zero`
-/

----------
-- Files
----------

namespace Slfs

/- The bytes that are stored under each key. -/
abbrev Files := Uuid → Bytes

namespace Files

/- Inputs are laid over the files that they name. -/
def write (files : Files) (inputs : List Input) : Files :=
  fun uuid =>
    match inputs.find? (fun input => input.uuid = uuid) with
    | none => files uuid
    | some input => Buffer.overlay (files uuid) 0 input.data

variable {inputs : List Input}

theorem write_of_mem
    (files : Files)
    (hUuids : (inputs.map Input.uuid).Nodup)
    {input : Input}
    (hInput : input ∈ inputs) :
    files.write inputs input.uuid =
      Buffer.overlay (files input.uuid) 0 input.data := by
  have hFind :
      inputs.find? (fun other => other.uuid = input.uuid) =
        some input := by
    rcases hFirst : inputs.find?
        (fun other => other.uuid = input.uuid) with _ | other
    · have hNone := List.find?_eq_none.mp hFirst input hInput
      simp at hNone
    · have hUuid : other.uuid = input.uuid := by
        simpa using List.find?_some hFirst
      have hMem := List.mem_of_find?_eq_some hFirst
      exact hFirst.trans (congrArg some
        (List.inj_on_of_nodup_map hUuids hMem hInput hUuid))
  rw [write, hFind]

theorem write_of_not_mem
    (files : Files)
    {uuid : Uuid}
    (hUuid : uuid ∉ inputs.map Input.uuid) :
    files.write inputs uuid = files uuid := by
  have hFind :
      inputs.find? (fun input => input.uuid = uuid) = none := by
    refine List.find?_eq_none.mpr ?_
    intro input hInput hEq
    exact hUuid (List.mem_map.mpr
      ⟨input, hInput, of_decide_eq_true hEq⟩)
  rw [write, hFind]

end Files

/- Servers whose blocks are those of some files. -/
structure Cluster.Contains
    (conf : StorageConf)
    (c : Cluster)
    (files : Files) :
    Prop where
  content :
    ∀ uuid n,
      (c.block conf ⟨uuid, n⟩).content =
        Blocks.block conf.blocksize (files uuid) n
  length_lt : ∀ uuid, (files uuid).length < 2 ^ 32

----------
-- Writing Files
----------

namespace Input

variable {conf : StorageConf}

/- A piece of an input that starts at the start of a file. -/
theorem piece_of_whole
    {input : Input}
    (hZero : input.position = 0)
    (hLength : input.data.length < 2 ^ 32)
    {chunk : Chunk}
    (hMem : chunk ∈ Chunks.chunks conf.blocksize
      input.position input.endpos) :
    chunk.offset = 0 ∧
      chunk.block * conf.blocksize < input.data.length ∧
      (input.piece chunk).data =
        (input.data.drop (chunk.block * conf.blocksize)).take
          conf.blocksize := by
  have hb := conf.blocksize_pos
  have hFit := Chunks.fits_of_mem_chunks hb hMem
  have hSize := Chunks.size_of_mem_chunks hMem
  have hEnd := endpos_eq
    (by rw [hZero]; omega :
      input.position + input.data.length < 2 ^ 32)
  rw [hZero, Nat.zero_add] at hEnd
  rw [hZero, hEnd] at hMem hFit hSize
  have hOffset := Chunks.offset_of_mem_chunks_zero hb hMem
  have hPos := hFit.position
  have hSizePos := hFit.size_pos
  have hRange := hFit.in_range
  refine ⟨hOffset, by omega, ?_⟩
  have hStart :
      chunk.start = chunk.block * conf.blocksize := by
    omega
  unfold piece
  simp only [hSize, hOffset, hStart, Nat.zero_add, Nat.sub_zero]
  rw [← List.take_take, List.take_of_length_le (by simp)]

end Input

namespace Cluster

variable {conf : StorageConf} {c c' : Cluster}
variable {files : Files} {inputs : List Input}

theorem Contains.bytes
    (h : c.Contains conf files)
    (uuid : Uuid)
    (n : Nat) :
    (c.block conf ⟨uuid, n⟩).bytes =
      (Blocks.block conf.blocksize (files uuid) n).getD [] := by
  unfold Block.bytes
  rw [h.content]

/- A commit of whole inputs writes the files. -/
theorem Contains.wrote
    (h : c.Contains conf files)
    (hWhole : Input.Whole inputs)
    (hWrote : Wrote conf (piecesOf conf inputs) c c') :
    c'.Contains conf (files.write inputs) where
  content := by
    intro uuid n
    by_cases hUuid : uuid ∈ inputs.map Input.uuid
    · rcases List.mem_map.mp hUuid with ⟨input, hInput, hEq⟩
      subst hEq
      have hZero := hWhole.position input hInput
      have hLength := hWhole.length_lt input hInput
      have hRange :
          input.position + input.data.length < 2 ^ 32 := by
        omega
      rw [files.write_of_mem hWhole.nodup hInput,
        Blocks.block_overlay]
      by_cases hn : n * conf.blocksize < input.data.length
      · have hFirst : input.position ≤ n * conf.blocksize := by
          omega
        have hLast : n * conf.blocksize < input.endpos := by
          rw [Input.endpos_eq hRange]
          omega
        rcases Chunks.exists_chunk conf.blocksize_pos hFirst
          hLast with
          ⟨chunk, hMem, hCovers⟩
        have hBlock : chunk.block = n := by
          rw [hCovers.block_eq]
          exact Nat.mul_div_cancel n conf.blocksize_pos
        rcases Input.piece_of_whole hZero hLength hMem with
          ⟨hOffset, _, hData⟩
        rw [if_pos hn, ← h.bytes input.uuid n, ← hBlock,
          ← hData, ← hOffset]
        exact hWrote.block_of_chunk hInput hRange hMem
      · rw [if_neg hn, ← h.content, hWrote.block_of_no_chunk
          hInput hRange hWhole.nodup]
        intro chunk hMem hBlock
        have hLt :=
          (Input.piece_of_whole hZero hLength hMem).2.1
        rw [hBlock] at hLt
        exact hn hLt
    · rw [files.write_of_not_mem hUuid, ← h.content,
        hWrote.block_of_uuid hUuid]
  length_lt := by
    intro uuid
    have hOld := h.length_lt uuid
    by_cases hUuid : uuid ∈ inputs.map Input.uuid
    · rcases List.mem_map.mp hUuid with ⟨input, hInput, hEq⟩
      subst hEq
      have hLength := hWhole.length_lt input hInput
      rw [files.write_of_mem hWhole.nodup hInput,
        Buffer.length_overlay]
      omega
    · rw [files.write_of_not_mem hUuid]
      exact hOld

----------
-- Reading Files
----------

theorem Contains.byteAt
    (h : c.Contains conf files)
    (uuid : Uuid)
    (x : Nat) :
    c.byteAt conf uuid x = Buffer.nth (files uuid) x := by
  have hb := conf.blocksize_pos
  have hDiv := Nat.div_add_mod' x conf.blocksize
  unfold Cluster.byteAt
  rw [h.bytes]
  cases hBlock : Blocks.block conf.blocksize (files uuid)
      (x / conf.blocksize) with
  | some block =>
      rw [Option.getD_some, Blocks.nth_of_block hBlock
        (Nat.mod_lt x hb), hDiv]
  | none =>
      have hEnd : (files uuid).length ≤ x := by
        by_contra hNot
        rw [Blocks.block_of_lt (by omega)] at hBlock
        cases hBlock
      rw [Option.getD_none, Buffer.nth_of_length_le hEnd,
        Buffer.nth_of_length_le (by simp)]

variable {position : Nat} {uuid : Uuid} {size : Nat}

/- A server answers for a block of a file. -/
theorem Contains.readAnswer
    (h : c.Contains conf files)
    (uuid : Uuid)
    {chunk : Chunk}
    (hMem : chunk ∈ readChunks conf position size) :
    c.readAnswer conf uuid chunk =
      match Blocks.block conf.blocksize (files uuid)
          chunk.block with
      | none => some []
      | some block =>
          Ssbd.rawblocksRead block chunk.offset
            chunk.size := by
  rw [readAnswer_eq c hMem, h.content]
  rfl

/-
  A read from the start of a file sees it up to the end of
  its last block.
-/
theorem Contains.readBytes_zero
    (h : c.Contains conf files)
    (uuid : Uuid)
    (hSize : size < 2 ^ 32) :
    c.readBytes conf uuid 0 size =
      some (Buffer.resize (files uuid)
        (min size
          (Blocks.span conf.blocksize (files uuid)))) := by
  have hb := conf.blocksize_pos
  have hFound :
      ∀ x, (c.found conf uuid x).toList =
        if x / conf.blocksize * conf.blocksize <
            (files uuid).length then
          [Buffer.nth (files uuid) x]
        else [] := by
    intro x
    rw [found, h.content, h.byteAt]
    by_cases hLt : x / conf.blocksize * conf.blocksize <
        (files uuid).length
    · simp [Blocks.block_of_lt hLt, hLt]
    · simp [Blocks.block_of_le (Nat.le_of_not_lt hLt), hLt]
  rw [readBytes_zero_eq hSize, List.filterMap_eq_flatMap_toList]
  simp only [hFound]
  rw [Blocks.flatMap_range_span hb]

/-
  A range of a file reads as that of another one which has the
  same bytes there and the same blocks, as long as its blocks
  are not too short.
-/
theorem Contains.readBytes_of_blocks
    (h : c.Contains conf files)
    (h' : c'.Contains conf files')
    {uuid' : Uuid}
    (hNth : ∀ x, position ≤ x →
      Buffer.nth (files uuid) x = Buffer.nth (files' uuid') x)
    (hBlock : ∀ n,
      n * conf.blocksize < (files uuid).length ↔
        n * conf.blocksize < (files' uuid').length)
    (hReach : ∀ x,
      x / conf.blocksize * conf.blocksize <
        (files uuid).length →
      x ≤ (files uuid).length →
        x ≤ (files' uuid').length)
    {bytes : Bytes}
    (hRead :
      c.readBytes conf uuid position size = some bytes) :
    c'.readBytes conf uuid' position size = some bytes := by
  have hb := conf.blocksize_pos
  unfold readBytes at hRead ⊢
  by_cases hNone : size = 0
  · rw [if_pos hNone] at hRead ⊢
    exact hRead
  rw [if_neg hNone] at hRead ⊢
  rcases Option.map_eq_some_iff.mp hRead with
    ⟨answers, hAnswers, hEq⟩
  refine Option.map_eq_some_iff.mpr ⟨answers, ?_, hEq⟩
  refine mapM_option_mono ?_ hAnswers
  intro chunk hMem answer hAnswer
  have hFit := Chunks.fits_of_mem_chunks hb hMem
  have hIn := hFit.in_block
  have hStart := hFit.position
  have hPos := hFit.size_pos
  rw [h.readAnswer uuid hMem] at hAnswer
  rw [h'.readAnswer uuid' hMem]
  by_cases hThere :
      chunk.block * conf.blocksize < (files uuid).length
  · have hFirst := Blocks.block_of_lt hThere
    have hSecond := Blocks.block_of_lt
      ((hBlock chunk.block).mp hThere)
    have hLength := Blocks.length_of_block hFirst
    have hLength' := Blocks.length_of_block hSecond
    rw [hFirst] at hAnswer
    rw [hSecond]
    simp only at hAnswer ⊢
    by_cases hShort :
        min conf.blocksize ((files uuid).length -
          chunk.block * conf.blocksize) < chunk.offset
    · rw [Ssbd.rawblocksRead, if_pos (by rwa [hLength])]
        at hAnswer
      cases hAnswer
    · have hSplit := Chunks.div_mod_of_eq_mul_add
        (by omega : chunk.offset < conf.blocksize)
        (rfl : chunk.block * conf.blocksize + chunk.offset =
          _)
      have hEnd := hReach
        (chunk.block * conf.blocksize + chunk.offset)
        (by rw [hSplit.1]; exact hThere) (by omega)
      rw [Ssbd.rawblocksRead_eq _ (by rw [hLength]; omega)]
        at hAnswer
      rw [Ssbd.rawblocksRead_eq _ (by rw [hLength']; omega),
        ← hAnswer]
      refine congrArg some (Buffer.window_congr ?_)
      intro i hi
      rw [Blocks.nth_of_block hSecond (by omega),
        Blocks.nth_of_block hFirst (by omega),
        hNth _ (by omega)]
  · have hGone : ¬ chunk.block * conf.blocksize <
        (files' uuid').length :=
      fun hLt => hThere ((hBlock chunk.block).mpr hLt)
    rw [Blocks.block_of_le (Nat.le_of_not_lt hThere)] at hAnswer
    rw [Blocks.block_of_le (Nat.le_of_not_lt hGone)]
    exact hAnswer

/- Files of one length read alike where they agree. -/
theorem Contains.readBytes_of_agreeFrom
    (h : c.Contains conf files)
    (h' : c'.Contains conf files')
    (hAgree : Buffer.AgreeFrom position (files uuid)
      (files' uuid))
    (size : Nat) :
    c'.readBytes conf uuid position size =
      c.readBytes conf uuid position size := by
  ext bytes
  constructor
  · intro hRead
    exact h'.readBytes_of_blocks h
      (fun x hx => (hAgree.nth x hx).symm)
      (by simp [hAgree.length]) (by simp [hAgree.length])
      hRead
  · intro hRead
    exact h.readBytes_of_blocks h' hAgree.nth
      (by simp [hAgree.length]) (by simp [hAgree.length])
      hRead

end Cluster

end Slfs
