import Slfs.Lib.Buffer
import Slfs.Ssbd.PersistentLog

/-
  The block server.

  Committed blocks are in one database and the write-ahead log
  in another. Handlers that are started with a body run after
  the body has been read.

  Main declarations:
    * `Ssbd.startTwoPcPrepare`
    * `Ssbd.startReadHeader`, the dispatch on the type
-/

----------
-- Server State
----------

namespace Slfs

/- The two databases of a server. -/
structure Ssbd where
  db : Db
  log : Db

namespace Ssbd

/- A server that has just created its databases. -/
def empty : Ssbd :=
  { db := fun _ => none, log := fun _ => none }

/-
  The old block, grown so that the write fits and with the
  request's bytes written over it.
-/
def newImage (oldBlock : Bytes) (pack : Packet) : Bytes :=
  let size :=
    max (pack.header.position + pack.header.datasize)
      oldBlock.length
  Buffer.copyInto (Buffer.resize oldBlock size)
    pack.header.position pack.data

/-
  The new size is computed in 32 bits. Where it wraps, the
  bytes are copied behind the end of the block, which is
  undefined.
-/
def newBlock (oldBlock : Bytes) (pack : Packet) :
    Option Bytes :=
  if pack.header.position + pack.header.datasize < 2 ^ 32 then
    some (newImage oldBlock pack)
  else none

/- A block that is written for the first time starts empty. -/
def createMissing (s : Ssbd) (key : Bytes) : Ssbd :=
  match s.db key with
  | some _ => s
  | none =>
      { db := s.db.put key []
        log :=
          PersistentLog.putPendingPrepare
            (PersistentLog.putCommittedVersion s.log key 0)
            key [] 0 }

----------
-- Two-Phase Commit
----------

/- Log the new block image, unless one is pending. -/
def startTwoPcPrepare (s : Ssbd) (pack : Packet) :
    Option (Packet × Ssbd) :=
  let key := pack.header.asString
  let s := s.createMissing key
  match s.db key with
  | none => some (pack.respond .twoPcPrepareAgree [], s)
  | some oldBlock =>
      let (pending, log) :=
        PersistentLog.havePendingLog s.log key
      if pending then
        -- the committed version is read again for the reply
        let log := (PersistentLog.getCommittedVersion log key).2
        some (pack.respond .twoPcPrepareAbort [],
          { s with log := log })
      else do
        let image ← newBlock oldBlock pack
        let log :=
          PersistentLog.putPendingPrepare log key image
            pack.header.version
        let log := (PersistentLog.getCommittedVersion log key).2
        some (pack.respond .twoPcPrepareAgree [],
          { s with log := log })

/- As above, without asking whether an image is pending. -/
def startTwoPcPrepareQuick (s : Ssbd) (pack : Packet) :
    Option (Packet × Ssbd) :=
  let key := pack.header.asString
  let s := s.createMissing key
  match s.db key with
  | none => some (pack.respond .twoPcPrepareAgree [], s)
  | some oldBlock => do
      let image ← newBlock oldBlock pack
      let log :=
        PersistentLog.putPendingPrepare s.log key image
          pack.header.version
      let log := (PersistentLog.getCommittedVersion log key).2
      some (pack.respond .twoPcPrepareAgree [],
        { s with log := log })

/- Install whatever image the log holds for the block. -/
def startTwoPcCommitExecute (s : Ssbd) (pack : Packet) :
    Packet × Ssbd :=
  let (log, db) :=
    PersistentLog.commitPendingPrepare s.log
      pack.header.asString s.db
  (pack.respond .twoPcCommitAck [], { db := db, log := log })

/- Empty the log of the block. -/
def startTwoPcCommitRollback (s : Ssbd) (pack : Packet) :
    Packet × Ssbd :=
  let log :=
    PersistentLog.putPendingPrepare s.log
      pack.header.asString [] 0
  (pack.respond .twoPcCommitAck [], { s with log := log })

----------
-- Replicas And Reads
----------

/- Replicas are kept next to the blocks under their own keys. -/
def startReplication (s : Ssbd) (pack : Packet) :
    Option (Packet × Ssbd) := do
  let key := pack.header.asString ++ Decimal.ascii "repl"
  let oldBlock := s.db.read key
  let block ← newBlock oldBlock pack
  some (pack.respond .ack [],
    { s with db := s.db.put key block })

/-
  `rawblocks::read` into a zeroed buffer. Starting behind the
  end of the block copies from outside of it, which is
  undefined.
-/
def rawblocksRead (block : Bytes) (position size : Nat) :
    Option Bytes :=
  if block.length < position then none
  else
    let count := min (block.length - position) size
    some (Buffer.copyInto (List.replicate size 0) 0
      ((block.drop position).take count))

def startDbRead (s : Ssbd) (pack : Packet) :
    Option Packet :=
  match s.db pack.header.asString with
  | none => some (pack.respond .err [])
  | some block =>
      (rawblocksRead block pack.header.position
        pack.header.datasize).map (pack.respond .ack)

/-
  Dispatch on the message type. Types that only a server
  sends are answered with an error.
-/
def startReadHeader (s : Ssbd) (pack : Packet) :
    Option (Packet × Ssbd) :=
  match pack.header.type with
  | .twoPcPrepare => s.startTwoPcPrepare pack
  | .twoPcPrepareQuick => s.startTwoPcPrepareQuick pack
  | .twoPcCommitExecute =>
      some (s.startTwoPcCommitExecute pack)
  | .twoPcCommitRollback =>
      some (s.startTwoPcCommitRollback pack)
  | .replication => s.startReplication pack
  | .get => (s.startDbRead pack).map (fun resp => (resp, s))
  | .err => some (pack.respond .err [], s)
  | .ack => some (pack.respond .err [], s)
  | .twoPcCommitAck => some (pack.respond .err [], s)
  | .twoPcPrepareAgree => some (pack.respond .err [], s)
  | .twoPcPrepareAbort => some (pack.respond .err [], s)

end Ssbd

end Slfs
