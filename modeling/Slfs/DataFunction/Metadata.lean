import Slfs.DataFunction.Directory
import Slfs.DataFunction.Prepare

/-
  The file and metadata operations of a data function.

  An operation reads the directory file of its request and
  decides on the bytes what to do next: reply, read again
  with another size, or write.

  Main declarations:
    * `DataFunction.withDirectory`, the part that all
      handlers share
    * `DataFunction.startWrite`
-/

----------
-- Requests
----------

namespace Slfs

namespace Jsre

/- A request as `request_parser` shows it. -/
structure Request where
  uuid : Uuid
  position : UInt32
  size : UInt32
  fileName : FileName
  fileKey : Uuid
  data : Bytes
deriving DecidableEq, Repr

namespace Request

def name (input : Request) : Bytes :=
  cstring input.fileName

/-
  The `size` bytes behind the header. Copying more than the
  packet holds is undefined.
-/
def payload (input : Request) : Option Bytes :=
  if input.data.length < input.size.toNat then none
  else some (input.data.take input.size.toNat)

end Request

end Jsre

/-
  What a handler finds when it runs: the clock, and the bytes
  of structures and members that it does not initialise.
-/
structure Ambient where
  now : UInt64
  reserved : Vector UInt8 60
  gap : Vector UInt8 2
  rest : Vector UInt8 6
deriving DecidableEq, Repr

/-
  What a handler does with a directory: reply, or go on with
  what to write.
-/
inductive Action (α : Type) where
| reply (buf : Bytes)
| undefined
| go (a : α)
deriving DecidableEq, Repr

/-
  What a handler does with the bytes that were read. A reply
  for a missing directory also erases the directory's record
  in the recoder.
-/
inductive Next (α : Type) where
| noSuchDirectory
| reread (size : Nat)
| act (action : Action α)
deriving DecidableEq, Repr

/- The writes of an operation, for one two-phase commit. -/
abbrev Writes := PrepareKind × List Input

----------
-- Handlers
----------

namespace DataFunction

open Jsre
open Coordinator (literal okReply)

def noSuchDirectory : Bytes :=
  literal "Error: No such directory"

/- The first read of a directory asks for this many bytes. -/
def readsize : Nat := 4096

/-
  The start of every handler. The size of the next read is
  cut to 32 bits.
-/
def withDirectory
    {α : Type}
    (content : Bytes)
    (body : Stats → Action α) :
    Next α :=
  if content.length < recordSize then .noSuchDirectory
  else
    let stat := Directory.stats content
    let size := Directory.size stat.fileCount.toNat
    if content.length < size then .reread (size % 2 ^ 32)
    else .act (body stat)

/- The first record of a new directory. -/
def emptyStats (amb : Ambient) : Stats :=
  { fileCount := 0, reserved := amb.reserved }

/- The entry of a new file or directory. -/
def newEntry (amb : Ambient) (m : Filemeta) (name : Bytes) :
    FilemetaServer :=
  { owner := m.owner
    permission := m.permission
    fileSize := 0
    gap := amb.gap
    creationTime := amb.now
    modificationTime := amb.now
    fileName := nameField name
    rest := amb.rest }

/- Initialising does not look at the directory. -/
def startMetaInit (amb : Ambient) (input : Request) : Writes :=
  (.single, [⟨input.uuid, 0, (emptyStats amb).serialize⟩])

def startMetaAddFile
    (amb : Ambient)
    (input : Request)
    (content : Bytes) :
    Next Writes :=
  withDirectory content fun stat =>
    match Filemeta.parse input.data with
    | none => .undefined
    | some m =>
        match Directory.find content stat.fileCount.toNat
            input.name with
        | some _ =>
            .reply (literal "Error: File already exists")
        | none =>
            .go (.single,
              [⟨input.uuid, 0, Directory.append content stat
                (newEntry amb m input.name)⟩])

/- Also writes the first record of the new directory. -/
def startMetaMkdir
    (amb : Ambient)
    (input : Request)
    (content : Bytes) :
    Next Writes :=
  withDirectory content fun stat =>
    match Directory.find content stat.fileCount.toNat
        input.name with
    | some _ =>
        .reply (literal "Error: Directory already exists")
    | none =>
        match Filemeta.parse input.data with
        | none => .undefined
        | some m =>
            .go (.multiInputs,
              [⟨input.uuid, 0, Directory.append content stat
                (newEntry amb m input.name)⟩,
                ⟨input.fileKey, 0,
                  (emptyStats amb).serialize⟩])

/- Also writes what follows the `filemeta` into the file. -/
def startCreateAndWriteFileSingleRequest
    (amb : Ambient)
    (input : Request)
    (content : Bytes) :
    Next Writes :=
  withDirectory content fun stat =>
    match Filemeta.parse input.data with
    | none => .undefined
    | some m =>
        match Directory.find content stat.fileCount.toNat
            input.name with
        | some _ =>
            .reply (literal "Error: File already exists")
        | none =>
            match input.payload with
            | none => .undefined
            | some payload =>
                if payload.length < 4 then .undefined
                else
                  .go (.multiInputs,
                    [⟨input.uuid, 0, Directory.append content
                      stat (newEntry amb m input.name)⟩,
                      ⟨input.fileKey, 0, payload.drop 4⟩])

def startMetaDeleteFile
    (input : Request)
    (content : Bytes) :
    Next Writes :=
  withDirectory content fun stat =>
    match Directory.find content stat.fileCount.toNat
        input.name with
    | none => .reply (literal "Error: File not found")
    | some i =>
        .go (.single,
          [⟨input.uuid, 0, Directory.remove content stat i⟩])

def startMetaOpenFile
    (input : Request)
    (content : Bytes) :
    Next Writes :=
  withDirectory content fun stat =>
    match Directory.find content stat.fileCount.toNat
        input.name with
    | none => .reply (literal "Error: File not found")
    | some _ => .reply okReply

----------
-- Listings
----------

open Coordinator (literal)
open Decimal (ascii)

-- The local time of a time stamp, as text.
variable (formatTime : UInt64 → Bytes)

/- Octal digits of a number. -/
def octal (n : Nat) : Bytes :=
  (Nat.toDigits 8 n).map (fun c => c.toNat.toUInt8)

def ownerText (r : FilemetaServer) : Bytes :=
  ascii "Owner: " ++ Decimal.toString r.owner.toNat ++
    ascii "\t  Permission: " ++ octal r.permission.toNat

def timesText (r : FilemetaServer) : Bytes :=
  ascii "Created: " ++ formatTime r.creationTime ++
    ascii "\t  Modified: " ++ formatTime r.modificationTime ++
    ascii "\t\n"

/- The line about an entry that follows its name. -/
def infoText (r : FilemetaServer) : Bytes :=
  ownerText r ++ ascii "\t  Size: " ++
    Decimal.toString r.fileSize.toNat ++ ascii " bytes\t  " ++
    timesText formatTime r

/- The lines of an entry in a listing. -/
def entryText (r : FilemetaServer) : Bytes :=
  r.name ++ ascii "\n" ++ infoText formatTime r

/- A listing of some entries. -/
def listing (count : Nat) (entries : List FilemetaServer) :
    Bytes :=
  ascii "Total: " ++ Decimal.toString count ++
    ascii " files/directories\n" ++
    entries.flatMap (entryText formatTime)

def startMetaLs (content : Bytes) : Next Writes :=
  withDirectory content fun stat =>
    .reply (listing formatTime stat.fileCount.toNat
      ((List.range stat.fileCount.toNat).map
        (Directory.entry content)))

/- A directory's line leaves out the size. -/
def startMetaGetStat
    (isDirectory : Bool)
    (input : Request)
    (content : Bytes) :
    Next Writes :=
  withDirectory content fun stat =>
    match Directory.find content stat.fileCount.toNat
        input.name with
    | none => .reply (literal "Error: File not found")
    | some i =>
        let r := Directory.entry content i
        if isDirectory then
          .reply (ascii "Directory name: " ++ input.name ++
            ascii "\n" ++ ownerText r ++ ascii "\t " ++
            timesText formatTime r)
        else
          .reply (ascii "File name: " ++ input.name ++
            ascii "\n" ++ infoText formatTime r)

----------
-- Writing To A File
----------

variable (conf : StorageConf)

/-
  The size that a write gives a file: the number of the last
  block times the block size, and the bytes written there.
-/
def newFileSize (position size : Nat) : Nat :=
  match (Chunks.chunks conf.blocksize position
      ((position + size) % 2 ^ 32)).getLast? with
  | none => 0
  | some last =>
      (last.block * conf.blocksize + last.size) % 2 ^ 32

/- A file never shrinks; its recorded size is 16 bits wide. -/
def writtenEntry
    (amb : Ambient)
    (input : Request)
    (r : FilemetaServer) :
    FilemetaServer :=
  let size :=
    newFileSize conf input.position.toNat input.size.toNat
  { r with
    fileSize :=
      if r.fileSize.toNat < size then UInt16.ofNat size
      else r.fileSize
    modificationTime := amb.now }

/-
  The directory is written back even when the name is not in
  it, and the data goes to the start of the file.
-/
def startWrite
    (amb : Ambient)
    (input : Request)
    (content : Bytes) :
    Next Writes :=
  withDirectory content fun stat =>
    let content :=
      match Directory.find content stat.fileCount.toNat
          input.name with
      | none =>
          Buffer.resize content
            (Directory.size stat.fileCount.toNat)
      | some i =>
          Directory.replace content stat i
            (writtenEntry conf amb input
              (Directory.entry content i))
    match input.payload with
    | none => .undefined
    | some payload =>
        .go (.multiInputs,
          [⟨input.uuid, 0, content⟩,
            ⟨input.fileKey, 0, payload⟩])

----------
-- Renaming
----------

/- Errors of the second part of a renaming. -/
inductive RenameSubOperation where
| fileNotFound
| directoryNotFound
| fileNameAlreadyExists
deriving DecidableEq, Repr

def RenameSubOperation.text : RenameSubOperation → Bytes
| .fileNotFound => Decimal.ascii "Error: File not found"
| .directoryNotFound =>
    Decimal.ascii "Error: No such directory"
| .fileNameAlreadyExists =>
    Decimal.ascii "Error: File name already exists"

def sameParentDir (input : Request) (info : RenameInfo) :
    Bool :=
  info.fileParentKey = input.uuid

/-
  The source directory without the file, or with its new name
  when the directory stays, and the renamed entry.
-/
def startMetaRenameFile
    (input : Request)
    (info : RenameInfo)
    (content : Bytes) :
    Next (Bytes × FilemetaServer) :=
  withDirectory content fun stat =>
    match Directory.find content stat.fileCount.toNat
        input.name with
    | none => .reply (literal "Error: File not found")
    | some i =>
        let newName := cstring info.newFileName
        let r :=
          { Directory.entry content i with
            fileName := nameField newName }
        if sameParentDir input info then
          if newName = input.name then
            .reply (literal "Error: File name already exists")
          else
            .go (Directory.replace content stat i r, r)
        else
          .go (Directory.remove content stat i, r)

/- The destination directory with the entry. -/
def startMetaRenamePart2
    (info : RenameInfo)
    (r : FilemetaServer)
    (content : Bytes) :
    Next (Except RenameSubOperation Bytes) :=
  withDirectory content fun stat =>
    match Directory.find content stat.fileCount.toNat
        (cstring info.newFileName) with
    | some _ => .go (.error .fileNameAlreadyExists)
    | none => .go (.ok (Directory.append content stat r))

end DataFunction

end Slfs
