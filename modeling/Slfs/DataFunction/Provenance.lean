import Slfs.DataFunction.QuickPrepare

/-
  What a block is made of.

  Rollbacks and quick prepares can lose an image, but bytes
  are never mixed up: a block holds what some of the prepares
  that its server has handled make of an empty block, in the
  order of the prepares.

  Main declarations:
    * `Sys.Made`
    * `Sys.made_of_run`
-/

----------
-- Bytes Of A Block
----------

namespace Slfs

open Transition

namespace Block

/- Content and logged image have a property. -/
structure Holds (P : Bytes → Prop) (b : Block) : Prop where
  bytes : P b.bytes
  data : P b.log.data

variable {P Q : Bytes → Prop} {b : Block}

theorem Holds.imp
    (h : Holds P b)
    (hImp : ∀ bytes, P bytes → Q bytes) :
    Holds Q b :=
  ⟨hImp _ h.bytes, hImp _ h.data⟩

/- Only a prepare brings bytes of its own. -/
theorem Holds.step
    {pack : Packet}
    (h : Holds P b)
    (hNil : P [])
    (hImage :
      pack.header.type = .twoPcPrepare ∨
          pack.header.type = .twoPcPrepareQuick →
        P (Ssbd.newImage b.bytes pack)) :
    Holds P (b.step pack) := by
  have hCreated : Holds P b.created := by
    unfold created
    cases b.content with
    | none => exact ⟨hNil, hNil⟩
    | some bytes => exact h
  unfold Block.step
  split
  · rename_i hType
    unfold prepare
    split
    · exact hCreated
    · exact ⟨hCreated.bytes, hImage (Or.inl hType)⟩
  · rename_i hType
    exact ⟨hCreated.bytes, hImage (Or.inr hType)⟩
  · exact ⟨h.data, h.data⟩
  · exact ⟨h.bytes, hNil⟩
  · exact h

end Block

----------
-- Prepares Of A Run
----------

namespace Sys

/- Write and piece of each prepare that was handled. -/
def prepares (es : List Event) : List (Nat × Nat) :=
  es.filterMap (fun e =>
    match e with
    | .prepare t i => some (t, i)
    | _ => none)

def piece (s : Sys) (m : Nat × Nat) : Option Piece := do
  let r ← s.txns[m.1]?
  r.txn.pieces[m.2]?

/-
  Some of the prepares, in their order, make the bytes of a
  block from an empty one.
-/
def Made
    (s : Sys)
    (ms : List (Nat × Nat))
    (k : BlockKey)
    (bytes : Bytes) : Prop :=
  ∃ (ns : List (Nat × Nat)) (ps : List Piece),
    ns.Sublist ms ∧
    List.Forall₂ (fun n p => s.piece n = some p ∧ p.key = k)
      ns ps ∧
    ps.foldl (fun block p => p.image block) [] = bytes

variable {conf : StorageConf} {s s' : Sys} {e : Event}
variable {ms : List (Nat × Nat)} {k : BlockKey}
variable {bytes : Bytes}

theorem made_nil : Made s ms k [] :=
  ⟨[], [], List.nil_sublist ms, .nil, rfl⟩

/- The next prepare may be among them. -/
theorem Made.image
    {m : Nat × Nat}
    {p : Piece}
    (h : Made s ms k bytes)
    (hPiece : s.piece m = some p)
    (hKey : p.key = k) :
    Made s (ms ++ [m]) k (p.image bytes) := by
  rcases h with ⟨ns, ps, hSub, hPieces, rfl⟩
  refine ⟨ns ++ [m], ps ++ [p], hSub.append_right [m],
    ?_, ?_⟩
  · exact List.rel_append hPieces
      (.cons ⟨hPiece, hKey⟩ .nil)
  · rw [List.foldl_append]
    rfl

/- Writes keep their pieces. -/
theorem Stepped.piece
    (h : Stepped conf s e s')
    {m : Nat × Nat}
    {p : Piece}
    (hPiece : s.piece m = some p) :
    s'.piece m = some p := by
  rcases Option.bind_eq_some_iff.mp hPiece with ⟨r, hr, hp⟩
  rcases h.exists_txn hr with
    ⟨r', hr', ⟨rfl, _⟩ | ⟨ev, _, hMoved⟩⟩
  · exact Option.bind_eq_some_iff.mpr ⟨r', hr', hp⟩
  · refine Option.bind_eq_some_iff.mpr ⟨r', hr', ?_⟩
    rw [hMoved.txn_eq]
    exact hp

theorem Made.stepped
    (h : Made s ms k bytes)
    (hStep : Stepped conf s e s')
    (ns : List (Nat × Nat)) :
    Made s' (ms ++ ns) k bytes := by
  rcases h with ⟨ls, ps, hSub, hPieces, hBytes⟩
  refine ⟨ls, ps, hSub.trans (List.sublist_append_left ms ns),
    hPieces.imp ?_, hBytes⟩
  rintro n p ⟨hPiece, hKey⟩
  exact ⟨hStep.piece hPiece, hKey⟩

----------
-- Blocks Of A Run
----------

/-
  A request that brings an image only for its own block
  leaves every block with bytes that were there, or with the
  image.
-/
theorem holds_request
    {P : BlockKey → Bytes → Prop}
    {c c' : Cluster}
    {pack resp : Packet}
    (h : ∀ k, (c.block conf k).Holds (P k))
    (hNil : ∀ k, P k [])
    (hRequest : c.request conf pack = some (resp, c'))
    (hImage :
      pack.serialize.header.type = .twoPcPrepare ∨
          pack.serialize.header.type = .twoPcPrepareQuick →
        P pack.header.key
          (Ssbd.newImage (c.block conf pack.header.key).bytes
            pack.serialize))
    (k : BlockKey) :
    (c'.block conf k).Holds (P k) := by
  rw [Cluster.request_block hRequest k]
  split
  · rename_i hKey
    subst hKey
    exact (h _).step (hNil _) hImage
  · exact h k

theorem made_stepped
    (hStep : Stepped conf s e s')
    (h : ∀ k, (s.block conf k).Holds (s.Made ms k))
    (k : BlockKey) :
    (s'.block conf k).Holds
      (s'.Made (ms ++ prepares [e]) k) := by
  have hKept : ∀ k, (s.block conf k).Holds
      (s'.Made (ms ++ prepares [e]) k) :=
    fun k => (h k).imp (fun _ hMade => hMade.stepped hStep _)
  have hStepped := hStep
  cases hStep with
  | start txn | send hTxn hPiece hSession hQuick =>
      exact hKept k
  | deadline hTxn hSession | timer hTxn hSession =>
      exact hKept k
  | response hTxn hHandled hSession =>
      simpa [block] using hKept k
  | @prepare t i r p quick resp servers hTxn hPiece hSent
      hRequest =>
      refine holds_request hKept (fun _ => made_nil) hRequest
        (fun _ => ?_) k
      have hNamed : s.piece (t, i) = some p :=
        Option.bind_eq_some_iff.mpr ⟨r, hTxn, hPiece⟩
      have hImage :=
        ((h p.key).bytes.image hNamed rfl).stepped hStepped []
      rw [List.append_nil] at hImage
      cases quick <;> exact hImage
  | @commit t i agree r p resp servers hTxn hPiece hOnWay
      hRequest =>
      refine holds_request hKept (fun _ => made_nil) hRequest
        (fun hPrepare => ?_) k
      cases agree <;> rcases hPrepare with hType | hType <;>
        cases hType

/-
  In every run, of any writes in any order, the content of a
  block and the image in its log are made of prepares that
  its server has handled, in their order.
-/
theorem made_of_run
    (conf : StorageConf)
    (es : List Event)
    (s : Sys)
    (hRun : run (step conf) init es = some s)
    (k : BlockKey) :
    s.Made (prepares es) k (s.block conf k).bytes ∧
      s.Made (prepares es) k (s.block conf k).log.data := by
  suffices h : ∀ k,
      (s.block conf k).Holds (s.Made (prepares es) k) from
    ⟨(h k).bytes, (h k).data⟩
  -- from the end, as the prepares are in the order of the run
  induction es using List.reverseRecOn generalizing s with
  | nil =>
      cases hRun
      exact fun k => ⟨made_nil, made_nil⟩
  | append_singleton es e ih =>
      rcases run_append.mp hRun with
        ⟨m, hFirst, hLast⟩
      have hStep := stepped_of_step
        (run_singleton.mp hLast)
      have hAll : prepares (es ++ [e]) =
          prepares es ++ prepares [e] :=
        List.filterMap_append
      rw [hAll]
      exact made_stepped hStep (ih m hFirst)

/- Two writes of one block, one after the other. -/
def overwritten : List Event :=
  [.start (blockWrite 0 1 [1, 2]), .send 0 false,
    .prepare 0 0, .response 0 0, .commit 0 0 true,
    .start (blockWrite 1 2 [3]), .send 1 false,
    .prepare 1 0, .response 1 0, .commit 1 0 true]

theorem made_of_overwritten :
    ∃ s,
      run (step .small) init overwritten = some s ∧
        s.Made (prepares overwritten)
          ⟨Vector.replicate 32 7, 0⟩ [3, 2] := by
  refine ⟨_, rfl, ?_⟩
  exact (made_of_run .small overwritten _ rfl
    ⟨Vector.replicate 32 7, 0⟩).1

end Sys

end Slfs
