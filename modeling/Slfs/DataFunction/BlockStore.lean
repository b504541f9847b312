import Slfs.Lib.Transition
import Slfs.DataFunction.Read

/-
  Writing a range of a file and reading it back.

  A write sends a prepare and a commit for each of its pieces,
  which are on different blocks. What it leaves behind does
  not depend on the order in which they arrive.

  Main declarations:
    * `Cluster.Wrote`, what a committed write leaves behind
    * `Cluster.write_read_roundtrip`
-/

----------
-- Deliveries
----------

namespace Slfs

open Transition

/- A message of a write, by the number of its piece. -/
inductive Delivery where
| prepare (index : Nat) (quick : Bool)
| commitExecute (index : Nat)
deriving DecidableEq, Repr

namespace Delivery

def index : Delivery → Nat
| .prepare index _ => index
| .commitExecute index => index

def packet (p : Piece) (version : Version) :
    Delivery → Packet
| .prepare _ quick => p.prepareRequest quick version
| .commitExecute _ => p.commitRequest true version

theorem packet_key
    (p : Piece)
    (version : Version)
    (d : Delivery) :
    (d.packet p version).header.key = p.key := by
  cases d <;> rfl

theorem packet_ne_get
    (p : Piece)
    (version : Version)
    (d : Delivery) :
    (d.packet p version).header.type ≠ .get := by
  cases d with
  | prepare index quick =>
      exact p.prepareRequest_ne_get quick version
  | commitExecute index =>
      exact p.commitRequest_ne_get true version

theorem packet_fits
    {p : Piece}
    (hShort : p.data.length ≤ 2 ^ 16)
    (version : Version)
    (d : Delivery)
    (hCarries :
      (d.packet p version).header.type.carries = true) :
    (d.packet p version).serialize.Fits := by
  cases d with
  | prepare index quick =>
      exact p.prepareRequest_fits quick version hShort
  | commitExecute index => cases hCarries

end Delivery

namespace Cluster

variable (conf : StorageConf)

/- A message of a write is handled by its server. -/
def deliver
    (pieces : List Piece)
    (version : Version)
    (c : Cluster)
    (d : Delivery) :
    Option Cluster :=
  match pieces[d.index]? with
  | none => none
  | some p =>
      (c.request conf (d.packet p version)).map Prod.snd

/-
  Every piece is prepared and then committed, once each. The
  messages of different pieces interleave in any way.
-/
def Scheduled
    (pieces : List Piece)
    (schedule : List Delivery) :
    Prop :=
  (∀ d ∈ schedule, d.index < pieces.length) ∧
    ∀ i < pieces.length, ∃ quick,
      schedule.filter (fun d => d.index = i) =
        [.prepare i quick, .commitExecute i]

/- No block has an image pending in its log. -/
def NoPending (c : Cluster) : Prop :=
  ∀ k, (c.block conf k).havePending = false

/-
  A committed write: its blocks hold the new images and have
  nothing pending, and the other blocks are as before.
-/
structure Wrote
    (pieces : List Piece)
    (c c' : Cluster) :
    Prop where
  content :
    ∀ p ∈ pieces,
      (c'.block conf p.key).content =
        some (p.image (c.block conf p.key).bytes)
  pending :
    ∀ p ∈ pieces, (c'.block conf p.key).havePending = false
  frame :
    ∀ k, k ∉ pieces.map Piece.key →
      c'.block conf k = c.block conf k

----------
-- What The Deliveries Leave Behind
----------

variable {conf : StorageConf} {pieces : List Piece}
variable {version : Version} {c c' : Cluster}

/- One delivery is one step of one block. -/
theorem deliver_block
    {d : Delivery}
    (h : c.deliver conf pieces version d = some c') :
    ∃ p, pieces[d.index]? = some p ∧
      ∀ l, c'.block conf l =
        if l = p.key then
          (c.block conf l).step (d.packet p version).serialize
        else
          c.block conf l := by
  unfold deliver at h
  cases hPiece : pieces[d.index]? with
  | none => simp [hPiece] at h
  | some p =>
      simp only [hPiece, Option.map_eq_some_iff] at h
      rcases h with ⟨⟨resp, c''⟩, hRequest, hEq⟩
      have hSame : c'' = c' := hEq
      subst hSame
      refine ⟨p, rfl, ?_⟩
      intro l
      rw [request_block hRequest l, Delivery.packet_key]

variable {schedule : List Delivery}

/- Blocks that no piece names stay as they are. -/
theorem run_deliver_frame
    (hRun :
      run (deliver conf pieces version) c schedule =
        some c')
    {l : BlockKey}
    (hl : l ∉ pieces.map Piece.key) :
    c'.block conf l = c.block conf l := by
  refine invariant_of_any_run
    (I := fun t => Cluster.block conf t l = c.block conf l)
    ?_ rfl hRun
  intro t d t' hInv hStep
  rcases deliver_block hStep with ⟨p, hPiece, hBlock⟩
  have hNe : l ≠ p.key := by
    intro hEq
    exact hl (List.mem_map.mpr
      ⟨p, List.mem_of_getElem? hPiece, hEq.symm⟩)
  rw [hBlock l, if_neg hNe]
  exact hInv

/-
  A piece's block goes through the piece's own messages, in
  their order.
-/
theorem run_deliver_piece
    (hNodup : (pieces.map Piece.key).Nodup)
    {i : Nat}
    {p : Piece}
    (hPiece : pieces[i]? = some p)
    (hRun :
      run (deliver conf pieces version) c schedule =
        some c') :
    c'.block conf p.key =
      (schedule.filter (fun d => d.index = i)).foldl
        (fun b d => b.step (d.packet p version).serialize)
        (c.block conf p.key) := by
  induction schedule generalizing c with
  | nil =>
      have hSame : c = c' := by
        simpa [run] using hRun
      simp [hSame]
  | cons d rest ih =>
      rcases run_cons.mp hRun with
        ⟨m, hStep, hRest⟩
      rcases deliver_block hStep with ⟨q, hOther, hBlock⟩
      rw [ih hRest, hBlock p.key]
      by_cases hIndex : d.index = i
      · have hSame : q = p := by
          rw [hIndex, hPiece] at hOther
          exact (Option.some.inj hOther).symm
        subst hSame
        simp [hIndex]
      · have hNe : p.key ≠ q.key := by
          intro hEq
          have hi : (pieces.map Piece.key)[i]? = some p.key := by
            simp [hPiece]
          have hd : (pieces.map Piece.key)[d.index]? =
              some p.key := by
            simp [hOther, hEq]
          have hLt : i < (pieces.map Piece.key).length :=
            (List.getElem?_eq_some_iff.mp hi).1
          exact hIndex ((List.getElem?_inj hLt hNodup).mp
            (hi.trans hd.symm)).symm
        simp [hIndex, hNe]

/- A prepare and a commit in a block with nothing pending. -/
theorem step_prepare_commit
    (b : Block)
    (hPending : b.havePending = false)
    (p : Piece)
    (quick : Bool) :
    (b.step (p.prepareRequest quick version).serialize).step
        (p.commitRequest true version).serialize =
      (b.created.logged (p.image b.bytes) version).executed := by
  have hCreated := Block.havePending_created hPending
  cases quick with
  | true => rfl
  | false =>
      rw [Piece.step_prepareRequest, hCreated]
      rfl

/- Scheduled deliveries commit the write. -/
theorem wrote_of_scheduled
    (hNodup : (pieces.map Piece.key).Nodup)
    (hPending : c.NoPending conf)
    (hSchedule : Scheduled pieces schedule)
    (hRun :
      run (deliver conf pieces version) c schedule =
        some c') :
    Wrote conf pieces c c' := by
  have hPiece :
      ∀ p ∈ pieces,
        c'.block conf p.key =
          ((c.block conf p.key).created.logged
            (p.image (c.block conf p.key).bytes)
            version).executed := by
    intro p hp
    rcases List.getElem?_of_mem hp with ⟨i, hi⟩
    have hLt : i < pieces.length :=
      (List.getElem?_eq_some_iff.mp hi).1
    rcases hSchedule.2 i hLt with ⟨quick, hFilter⟩
    rw [run_deliver_piece hNodup hi hRun, hFilter]
    exact step_prepare_commit _ (hPending p.key) p quick
  refine
    { content := ?_
      pending := ?_
      frame := fun k hk => run_deliver_frame hRun hk }
  · intro p hp
    rw [hPiece p hp]
    rfl
  · intro p hp
    rw [hPiece p hp]
    simp [Block.executed, Block.logged, Block.havePending,
      LogEntry.havePending]

/- A committed write leaves nothing pending. -/
theorem Wrote.noPending
    {pieces : List Piece}
    (hWrote : Wrote conf pieces c c')
    (hPending : c.NoPending conf) :
    c'.NoPending conf := by
  intro k
  by_cases hk : k ∈ pieces.map Piece.key
  · rcases List.mem_map.mp hk with ⟨p, hp, hEq⟩
    rw [← hEq]
    exact hWrote.pending p hp
  · rw [hWrote.frame k hk]
    exact hPending k

end Cluster

----------
-- Bytes Of A Written File
----------

namespace Piece

/- The image of a piece is its data laid over the block. -/
theorem image_eq
    {p : Piece}
    (hPos : 0 < p.data.length)
    (hFits : p.offset + p.data.length ≤ 2 ^ 16)
    (oldBlock : Bytes) :
    p.image oldBlock =
      Buffer.overlay oldBlock p.offset p.data := by
  have hOffset : p.offset % 2 ^ 16 = p.offset :=
    Nat.mod_eq_of_lt (by omega)
  have hPosition :
      (p.prepareRequest false 0).serialize.header.position =
        p.offset := hOffset
  have hData :
      (p.prepareRequest false 0).serialize.data = p.data := rfl
  have hDatasize :
      (p.prepareRequest false 0).serialize.header.datasize =
        p.data.length := by
    apply Nat.mod_eq_of_lt
    have hBody : (p.prepareRequest false 0).data = p.data := rfl
    rw [hBody]
    omega
  unfold image
  rw [Ssbd.newImage_eq, hPosition, hData]
  rw [hDatasize, hData]

end Piece

namespace Input

variable {conf : StorageConf} {p : Piece}
variable {chunk : Chunk}

theorem mem_pieces_iff
    {input : Input} :
    p ∈ input.pieces conf ↔
      ∃ chunk ∈ Chunks.chunks conf.blocksize input.position
        input.endpos, p = input.piece chunk := by
  constructor
  · intro hp
    rcases List.mem_map.mp hp with ⟨chunk, hMem, hEq⟩
    exact ⟨chunk, hMem, hEq.symm⟩
  · rintro ⟨chunk, hMem, hEq⟩
    exact List.mem_map.mpr ⟨chunk, hMem, hEq.symm⟩

/- A piece has bytes, and they fit into its block. -/
theorem fits_of_mem_pieces
    {input : Input}
    (hMem : p ∈ input.pieces conf) :
    0 < p.data.length ∧
      p.offset + p.data.length ≤ conf.blocksize := by
  rcases mem_pieces_iff.mp hMem with ⟨chunk, hChunk, hEq⟩
  have hFit :=
    Chunks.fits_of_mem_chunks conf.blocksize_pos hChunk
  have hSize := hFit.size_pos
  have hBlock := hFit.in_block
  have hRange := hFit.in_range
  have hEnd :
      input.endpos ≤ input.position + input.data.length :=
    Nat.mod_le _ _
  subst hEq
  have hLength : (input.piece chunk).data.length = chunk.size := by
    simp only [piece, List.length_take, List.length_drop]
    omega
  have hOffset : (input.piece chunk).offset = chunk.offset := rfl
  omega

theorem length_of_mem_pieces
    {input : Input}
    (hMem : p ∈ input.pieces conf) :
    p.data.length ≤ 2 ^ 16 := by
  have hFits := fits_of_mem_pieces hMem
  have hLe := conf.blocksize_le
  omega

variable {input : Input} (hRange :
  input.position + input.data.length < 2 ^ 32)
include hRange

theorem endpos_eq :
    input.endpos = input.position + input.data.length :=
  Nat.mod_eq_of_lt hRange

section

variable
    (hMem : chunk ∈ Chunks.chunks conf.blocksize
      input.position input.endpos)
include hMem

/- The chunk of a piece carries its data in full. -/
theorem length_piece :
    (input.piece chunk).data.length = chunk.size := by
  have hFit := Chunks.fits_of_mem_chunks conf.blocksize_pos hMem
  have hEnd := hFit.in_range
  rw [endpos_eq hRange] at hEnd
  simp only [piece, List.length_take, List.length_drop]
  omega

theorem piece_key :
    (input.piece chunk).key = ⟨input.uuid, chunk.block⟩ := by
  have hFit := Chunks.fits_of_mem_chunks conf.blocksize_pos hMem
  have hPos := hFit.position
  have hEnd := hFit.in_range
  rw [endpos_eq hRange] at hEnd
  have hMul : chunk.block ≤ chunk.block * conf.blocksize :=
    Nat.le_mul_of_pos_right _ conf.blocksize_pos
  have hId : chunk.block % 2 ^ 32 = chunk.block :=
    Nat.mod_eq_of_lt (by omega)
  exact congrArg (BlockKey.mk input.uuid) hId

/- The image of a piece is its data laid over the block. -/
theorem image_piece
    (oldBlock : Bytes) :
    (input.piece chunk).image oldBlock =
      Buffer.overlay oldBlock chunk.offset
        (input.piece chunk).data := by
  have hFit := Chunks.fits_of_mem_chunks conf.blocksize_pos hMem
  have hBlock := hFit.in_block
  have hSize := hFit.size_pos
  have hLe := conf.blocksize_le
  have hLength := length_piece hRange hMem
  apply Piece.image_eq
  · rw [hLength]
    exact hSize
  · have hOffset :
        (input.piece chunk).offset = chunk.offset := rfl
    omega

end

end Input

namespace Cluster

variable {conf : StorageConf} {inputs : List Input}
variable {c c' : Cluster}

/- Pieces of several inputs. -/
def piecesOf (conf : StorageConf) (inputs : List Input) :
    List Piece :=
  inputs.flatMap (Input.pieces conf)

theorem length_of_mem_piecesOf
    {conf : StorageConf}
    {inputs : List Input}
    {p : Piece}
    (hMem : p ∈ piecesOf conf inputs) :
    p.data.length ≤ 2 ^ 16 := by
  rcases List.mem_flatMap.mp hMem with ⟨_, _, hPiece⟩
  exact Input.length_of_mem_pieces hPiece

variable {uuid : Uuid} {input : Input}

section

variable (hWrote : Wrote conf (piecesOf conf inputs) c c')
include hWrote

/- A block of a file that is not written stays as it is. -/
theorem Wrote.block_of_uuid
    (hUuid : uuid ∉ inputs.map Input.uuid)
    (n : Nat) :
    c'.block conf ⟨uuid, n⟩ = c.block conf ⟨uuid, n⟩ := by
  apply hWrote.frame
  intro hMem
  rcases List.mem_map.mp hMem with ⟨p, hp, hKey⟩
  rcases List.mem_flatMap.mp hp with ⟨input, hInput, hPiece⟩
  rcases Input.mem_pieces_iff.mp hPiece with ⟨chunk, _, hEq⟩
  have hSame : input.uuid = uuid := by
    rw [hEq] at hKey
    exact congrArg BlockKey.uuid hKey
  exact hUuid (List.mem_map.mpr ⟨input, hInput, hSame⟩)

/- The bytes of a file that no input writes. -/
theorem Wrote.byteAt_of_uuid
    (hUuid : uuid ∉ inputs.map Input.uuid)
    (x : Nat) :
    c'.byteAt conf uuid x = c.byteAt conf uuid x := by
  unfold Cluster.byteAt
  rw [hWrote.block_of_uuid hUuid]

/- A read of another file is not affected. -/
theorem Wrote.readAnswers_of_uuid
    (hUuid : uuid ∉ inputs.map Input.uuid)
    (position size : Nat) :
    c'.readAnswers conf uuid position size =
      c.readAnswers conf uuid position size := by
  refine readAnswers_congr ?_
  intro chunk hMem
  rw [readAnswer_eq c' hMem, readAnswer_eq c hMem,
    hWrote.block_of_uuid hUuid]

variable (hInput : input ∈ inputs) (hRange :
  input.position + input.data.length < 2 ^ 32)
include hInput hRange

/-
  A block of a written file is the old block with the data of
  the input's chunk laid over it, or is not touched.
-/
theorem Wrote.block_of_chunk
    {chunk : Chunk}
    (hMem : chunk ∈ Chunks.chunks conf.blocksize
      input.position input.endpos) :
    (c'.block conf ⟨input.uuid, chunk.block⟩).content =
      some (Buffer.overlay
        (c.block conf ⟨input.uuid, chunk.block⟩).bytes
        chunk.offset (input.piece chunk).data) := by
  have hPiece : input.piece chunk ∈ piecesOf conf inputs :=
    List.mem_flatMap.mpr
      ⟨input, hInput, Input.mem_pieces_iff.mpr
        ⟨chunk, hMem, rfl⟩⟩
  have hContent := hWrote.content _ hPiece
  rw [Input.piece_key hRange hMem,
    Input.image_piece hRange hMem] at hContent
  exact hContent

/- What was written can be read. -/
theorem Wrote.readable_self :
    c'.Readable conf input.uuid input.position
      input.data.length := by
  intro chunk hMem
  have hContent := hWrote.block_of_chunk hInput hRange hMem
  refine ⟨_, hContent, ?_⟩
  rw [Buffer.length_overlay]
  exact Nat.le_trans (Nat.le_add_right _ _)
    (Nat.le_max_left _ _)

variable (hUuids : (inputs.map Input.uuid).Nodup)
include hUuids

theorem Wrote.block_of_no_chunk
    {n : Nat}
    (hNone : ∀ chunk ∈ Chunks.chunks conf.blocksize
      input.position input.endpos, chunk.block ≠ n) :
    c'.block conf ⟨input.uuid, n⟩ =
      c.block conf ⟨input.uuid, n⟩ := by
  apply hWrote.frame
  intro hMem
  rcases List.mem_map.mp hMem with ⟨p, hp, hKey⟩
  rcases List.mem_flatMap.mp hp with ⟨other, hOther, hPiece⟩
  rcases Input.mem_pieces_iff.mp hPiece with
    ⟨chunk, hChunk, hEq⟩
  have hUuid : other.uuid = input.uuid := by
    rw [hEq] at hKey
    exact congrArg BlockKey.uuid hKey
  have hSame : other = input :=
    List.inj_on_of_nodup_map hUuids hOther hInput hUuid
  subst hSame
  rw [hEq, Input.piece_key hRange hChunk] at hKey
  exact hNone chunk hChunk (congrArg BlockKey.blockid hKey)

/- The bytes of a file that is written by one of the inputs. -/
theorem Wrote.byteAt
    (x : Nat) :
    c'.byteAt conf input.uuid x =
      if input.position ≤ x ∧
          x < input.position + input.data.length then
        Buffer.nth input.data (x - input.position)
      else
        c.byteAt conf input.uuid x := by
  have hb := conf.blocksize_pos
  by_cases hBlock : ∃ chunk ∈ Chunks.chunks conf.blocksize
      input.position input.endpos,
      chunk.block = x / conf.blocksize
  · rcases hBlock with ⟨chunk, hMem, hEq⟩
    have hContent :=
      hWrote.block_of_chunk hInput hRange hMem
    have hLength := Input.length_piece hRange hMem
    have hFit := Chunks.fits_of_mem_chunks hb hMem
    have hPos := hFit.position
    have hEnd := hFit.in_range
    rw [Input.endpos_eq hRange] at hEnd
    have hDiv := Nat.div_add_mod' x conf.blocksize
    rw [← hEq] at hDiv
    unfold Cluster.byteAt
    rw [← hEq]
    simp only [Block.bytes, hContent, Option.getD_some]
    rw [Buffer.nth_overlay, hLength]
    by_cases hIn : chunk.offset ≤ x % conf.blocksize ∧
        x % conf.blocksize < chunk.offset + chunk.size
    · rw [if_pos hIn, if_pos (by omega)]
      simp only [Input.piece, Buffer.nth_take, Buffer.nth_drop]
      rw [if_pos (by omega)]
      congr 1
      omega
    · -- a byte of the range lies in the chunk of its block
      have hOut : ¬ (input.position ≤ x ∧
          x < input.position + input.data.length) := by
        intro hx
        rcases Chunks.exists_chunk hb hx.1
          (show x < input.endpos by
            rw [Input.endpos_eq hRange]; exact hx.2) with
          ⟨other, hOther, hCovers⟩
        have hSame : other = chunk :=
          List.inj_on_of_nodup_map
            (Chunks.nodup_map_block_chunks hb) hOther hMem
            (by rw [hCovers.block_eq, hEq])
        subst hSame
        exact hIn ⟨hCovers.offset_le, hCovers.lt_end⟩
      rw [if_neg hIn, if_neg hOut]
  · have hNone : ∀ chunk ∈ Chunks.chunks conf.blocksize
        input.position input.endpos,
        chunk.block ≠ x / conf.blocksize := by
      intro chunk hMem hEq
      exact hBlock ⟨chunk, hMem, hEq⟩
    have hOut : ¬ (input.position ≤ x ∧
        x < input.position + input.data.length) := by
      intro hx
      rcases Chunks.exists_chunk hb hx.1
        (show x < input.endpos by
          rw [Input.endpos_eq hRange]; exact hx.2) with
        ⟨chunk, hMem, hCovers⟩
      exact hNone chunk hMem hCovers.block_eq
    rw [if_neg hOut]
    unfold Cluster.byteAt
    rw [hWrote.block_of_no_chunk hInput hRange hUuids hNone]

/- Writing makes no block shorter. -/
theorem Wrote.readable
    {position size : Nat}
    (h : c.Readable conf input.uuid position size) :
    c'.Readable conf input.uuid position size := by
  intro chunk hMem
  rcases h chunk hMem with ⟨block, hContent, hReach⟩
  by_cases hTouched : ∃ other ∈ Chunks.chunks conf.blocksize
      input.position input.endpos, other.block = chunk.block
  · rcases hTouched with ⟨other, hOther, hEq⟩
    have hNew := hWrote.block_of_chunk hInput hRange hOther
    rw [hEq] at hNew
    refine ⟨_, hNew, ?_⟩
    rw [Buffer.length_overlay]
    simp only [Block.bytes, hContent, Option.getD_some]
    exact Nat.le_trans hReach (Nat.le_max_right _ _)
  · have hSame :=
      hWrote.block_of_no_chunk hInput hRange hUuids
        (n := chunk.block)
        (fun other hOther hEq =>
          hTouched ⟨other, hOther, hEq⟩)
    exact ⟨block, by rw [hSame]; exact hContent, hReach⟩

/- Reading what was just written returns it. -/
theorem Wrote.readBytes_self :
    c'.readBytes conf input.uuid input.position
        input.data.length = some input.data := by
  rw [readBytes_eq_of_readable hRange
    (hWrote.readable_self hInput hRange)]
  refine congrArg some ?_
  rw [Buffer.eq_map_range input.data]
  simp only [List.length_map, List.length_range]
  refine List.map_congr_left ?_
  intro i hi
  have hLt : i < input.data.length := List.mem_range.mp hi
  rw [hWrote.byteAt hInput hRange hUuids, if_pos (by omega)]
  rw [show input.position + i - input.position = i by omega]

/- A read of a disjoint range of the file is as before. -/
theorem Wrote.readAnswers_of_disjoint
    {position size : Nat}
    (hDisjoint : ∀ x, position ≤ x → x < position + size →
      ¬ (input.position ≤ x ∧
        x < input.position + input.data.length))
    (h : c.Readable conf input.uuid position size) :
    c'.readAnswers conf input.uuid position size =
      c.readAnswers conf input.uuid position size := by
  rw [readAnswers_of_readable h, readAnswers_of_readable
    (hWrote.readable hInput hRange hUuids h)]
  refine congrArg some (List.map_congr_left ?_)
  intro chunk hMem
  refine List.map_congr_left ?_
  intro i hi
  have hLt : i < chunk.size := List.mem_range.mp hi
  have hFit := Chunks.fits_of_mem_chunks conf.blocksize_pos hMem
  have hEnd := hFit.in_range
  have hMod : (position + size) % 2 ^ 32 ≤ position + size :=
    Nat.mod_le _ _
  rw [hWrote.byteAt hInput hRange hUuids,
    if_neg (hDisjoint _ (by omega) (by omega))]

end

----------
-- Round Trip
----------

/- Messages of a write always find a server. -/
theorem run_deliver_isSome
    {pieces : List Piece}
    (version : Version)
    {schedule : List Delivery}
    (hShort : ∀ p ∈ pieces, p.data.length ≤ 2 ^ 16)
    (hIndex : ∀ d ∈ schedule, d.index < pieces.length)
    (c : Cluster) :
    ∃ c', run (deliver conf pieces version) c
      schedule = some c' := by
  induction schedule generalizing c with
  | nil => exact ⟨c, rfl⟩
  | cons d rest ih =>
      have hLt := hIndex d List.mem_cons_self
      have hPiece := List.getElem?_eq_getElem hLt
      rcases request_isSome conf c
        (d.packet_ne_get pieces[d.index] version)
        (d.packet_fits (hShort _ (List.getElem_mem hLt))
          version) with ⟨resp, m, hRequest⟩
      have hStep :
          c.deliver conf pieces version d = some m := by
        unfold deliver
        rw [hPiece]
        simp [hRequest]
      rcases ih (fun e he =>
        hIndex e (List.mem_cons_of_mem _ he)) m with
        ⟨c', hRun⟩
      exact ⟨c', run_cons.mpr ⟨m, hStep, hRun⟩⟩

theorem piecesOf_singleton
    (input : Input) :
    piecesOf conf [input] = input.pieces conf := by
  simp [piecesOf]

/-
  A write of `d` at `p` whose prepares and commits are all
  delivered can be read back, in one reply, in any order of
  the answers. Reads of other files and of readable ranges
  that the write does not touch are as before it.
-/
theorem write_read_roundtrip
    (conf : StorageConf)
    (c : Cluster)
    (uuid : Uuid)
    (p : Nat)
    (d : Bytes)
    (version : Version)
    (schedule : List Delivery)
    (hData : 0 < d.length)
    (hRange : p + d.length < 2 ^ 32)
    (hPending : c.NoPending conf)
    (hSchedule :
      Scheduled (Input.pieces conf ⟨uuid, p, d⟩) schedule) :
    ∃ c',
      run (deliver conf (Input.pieces conf ⟨uuid, p, d⟩)
            version) c schedule = some c' ∧
        (∀ order : List Nat,
          order.Perm (List.range
            (readChunks conf p d.length).length) →
          c'.startRead conf uuid p d.length order =
            some [d]) ∧
        (∀ other q n order, other ≠ uuid →
          c'.startRead conf other q n order =
            c.startRead conf other q n order) ∧
        (∀ q n order,
          (∀ x, q ≤ x → x < q + n →
            ¬ (p ≤ x ∧ x < p + d.length)) →
          c.Readable conf uuid q n →
          c'.startRead conf uuid q n order =
            c.startRead conf uuid q n order) := by
  rcases run_deliver_isSome version
    (fun _ => Input.length_of_mem_pieces) hSchedule.1 c with
    ⟨c', hRun⟩
  have hWrote :
      Wrote conf (piecesOf conf [⟨uuid, p, d⟩]) c c' := by
    rw [piecesOf_singleton]
    exact wrote_of_scheduled (Input.nodup_keys _) hPending
      hSchedule hRun
  have hUuids :
      ([⟨uuid, p, d⟩] : List Input).map Input.uuid |>.Nodup := by
    simp
  have hInput :
      (⟨uuid, p, d⟩ : Input) ∈ [(⟨uuid, p, d⟩ : Input)] := by
    simp
  refine ⟨c', hRun, ?_, ?_, ?_⟩
  · intro order hOrder
    rw [startRead_of_perm c' hData hRange hOrder,
      hWrote.readBytes_self hInput hRange hUuids]
    rfl
  · intro other q n order hOther
    unfold startRead
    rw [hWrote.readAnswers_of_uuid (by simpa using hOther)]
  · intro q n order hDisjoint hReadable
    unfold startRead
    rw [hWrote.readAnswers_of_disjoint hInput hRange hUuids
      hDisjoint hReadable]

/- A fresh store has nothing pending. -/
theorem noPending_empty
    (conf : StorageConf) :
    Cluster.empty.NoPending conf := by
  intro k
  rfl

/-
  Three bytes over the border of two blocks, with the commit
  of the second block overtaking that of the first.
-/
theorem write_read_roundtrip_two_blocks :
    ∃ c',
      run (deliver StorageConf.small
            (Input.pieces StorageConf.small
              ⟨Vector.replicate 32 7, 2, [1, 2, 3]⟩) 5)
          Cluster.empty
          [.prepare 0 false, .prepare 1 true,
            .commitExecute 1, .commitExecute 0] = some c' ∧
        c'.startRead StorageConf.small (Vector.replicate 32 7) 2 3
          [1, 0] = some [[1, 2, 3]] := by
  rcases write_read_roundtrip StorageConf.small Cluster.empty
    (Vector.replicate 32 7) 2 [1, 2, 3] 5
    [.prepare 0 false, .prepare 1 true, .commitExecute 1,
      .commitExecute 0]
    (by decide) (by decide) (noPending_empty StorageConf.small)
    (by unfold Scheduled; decide) with
    ⟨c', hRun, hRead, _, _⟩
  exact ⟨c', hRun, hRead [1, 0] (by decide)⟩

end Cluster

end Slfs
