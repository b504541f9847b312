import Slfs.DataFunction.Perform

/-
  The layout of a request, and its parser.

  A request starts with a structure of 80 bytes, four of which
  belong to no member. The proxy and a data function read the
  same layout, but a data function has no names for the codes
  of `lock` and `unlock`.

  Main declarations:
    * `Jsre.Layout`
    * `Jsre.Layout.parse_append`
-/

----------
-- Codes
----------

namespace Slfs

/- The metadata operations, in the order of their codes. -/
def MetaOperation.all : List MetaOperation :=
  [.init, .addfile, .ls, .mkdir, .deletefile,
    .renameSameproxy, .addfileWrite, .open, .close,
    .getstatfile, .getstatdir, .lock, .unlock]

def MetaOperation.code (op : MetaOperation) : UInt8 :=
  UInt8.ofNat (MetaOperation.all.idxOf op)

namespace Jsre

/- A type together with its operation. -/
inductive Command where
| file (op : Operation)
| metadata (op : MetaOperation)
| wakeup
| storagetest
deriving DecidableEq, Repr

namespace Command

/- The codes of the type and of the operation. -/
def codes : Command → UInt8 × UInt8
| .file .write => (0, 0)
| .file .read => (0, 1)
| .metadata op => (1, op.code)
| .wakeup => (2, 0)
| .storagetest => (3, 0)

/- Codes without a name are of no command. -/
def ofCodes (type operation : UInt8) : Option Command :=
  if type = 0 then
    if operation = 0 then some (.file .write)
    else if operation = 1 then some (.file .read)
    else none
  else if type = 1 then
    (MetaOperation.all[operation.toNat]?).map .metadata
  else if type = 2 then some .wakeup
  else if type = 3 then some .storagetest
  else none

theorem ofCodes_codes
    (command : Command) :
    ofCodes command.codes.1 command.codes.2 =
      some command := by
  cases command with
  | file op => cases op <;> rfl
  | metadata op => cases op <;> rfl
  | wakeup => rfl
  | storagetest => rfl

end Command

----------
-- The Parser
----------

/- Size of `struct request`, and where its arrays start. -/
def requestSize : Nat := 80

def fileNameOffset : Nat := 12

def fileKeyOffset : Nat := 46

/-
  What the parser shows of a packet. Reading behind the end
  of a body that is too short is undefined.
-/
def RequestParser.parse
    (uuid : Uuid)
    (body : Bytes) : Option (Command × Request) :=
  if body.length < requestSize then none
  else do
    let command ←
      Command.ofCodes (Buffer.nth body 0) (Buffer.nth body 1)
    some (command,
      { uuid := uuid
        position := UInt32.ofNat
          (Endian.decode (Buffer.window body 4 4))
        size := UInt32.ofNat
          (Endian.decode (Buffer.window body 8 4))
        fileName :=
          array 34 (Buffer.window body fileNameOffset 34)
        fileKey :=
          array 32 (Buffer.window body fileKeyOffset 32)
        data := body.drop requestSize })

/- The bytes of the structure that belong to no member. -/
structure Padding where
  gap : Vector UInt8 2
  rest : Vector UInt8 2
deriving DecidableEq, Repr

/-
  A structure with the codes and numbers of a command. Its
  arrays hold anything.
-/
structure Layout
    (command : Command)
    (position size : UInt32)
    (r : Bytes) : Prop where
  length : r.length = requestSize
  type : Buffer.nth r 0 = command.codes.1
  operation : Buffer.nth r 1 = command.codes.2
  position :
    Buffer.window r 4 4 = Endian.encode 4 position.toNat
  size :
    Buffer.window r 8 4 = Endian.encode 4 size.toNat

namespace Layout

variable {command : Command} {position size : UInt32}
variable {r : Bytes}

/- What is copied behind the numbers changes only arrays. -/
theorem copyInto
    (h : Layout command position size r)
    {pos : Nat}
    {src : Bytes}
    (hPos : fileNameOffset ≤ pos)
    (hFits : pos + src.length ≤ requestSize) :
    Layout command position size
      (Buffer.copyInto r pos src) := by
  have hLength : pos + src.length ≤ r.length := by
    rw [h.length]
    exact hFits
  have hSame :
      ∀ i, i < fileNameOffset →
        Buffer.nth (Buffer.copyInto r pos src) i =
          Buffer.nth r i := by
    intro i hi
    rw [Buffer.nth_copyInto hLength, if_neg (by omega)]
  unfold fileNameOffset at hSame
  refine
    { length := by rw [Buffer.length_copyInto hLength, h.length]
      type := by rw [hSame 0 (by omega), h.type]
      operation := by rw [hSame 1 (by omega), h.operation]
      position := ?_
      size := ?_ }
  · rw [← h.position]
    apply Buffer.window_congr
    intro i hi
    exact hSame (4 + i) (by omega)
  · rw [← h.size]
    apply Buffer.window_congr
    intro i hi
    exact hSame (8 + i) (by omega)

/- What the parser shows of a structure with data behind. -/
theorem parse_append
    (h : Layout command position size r)
    (uuid : Uuid)
    (data : Bytes) :
    RequestParser.parse uuid (r ++ data) =
      some (command,
        { uuid := uuid
          position := position
          size := size
          fileName :=
            array 34 (Buffer.window r fileNameOffset 34)
          fileKey :=
            array 32 (Buffer.window r fileKeyOffset 32)
          data := data }) := by
  have hNth :
      ∀ i, i < requestSize →
        Buffer.nth (r ++ data) i = Buffer.nth r i := by
    intro i hi
    rw [Buffer.nth_append, if_pos (by rw [h.length]; exact hi)]
  have hWindow :
      ∀ pos n, pos + n ≤ requestSize →
        Buffer.window (r ++ data) pos n =
          Buffer.window r pos n := by
    intro pos n hFits
    apply Buffer.window_congr
    intro i hi
    exact hNth (pos + i) (by omega)
  have hLong : ¬ (r ++ data).length < requestSize := by
    rw [List.length_append, h.length]
    omega
  have hData : (r ++ data).drop requestSize = data := by
    rw [← h.length, List.drop_left]
  unfold RequestParser.parse
  rw [if_neg hLong, hNth 0 (by decide), hNth 1 (by decide),
    h.type, h.operation, Command.ofCodes_codes,
    hWindow 4 4 (by decide), hWindow 8 4 (by decide),
    hWindow fileNameOffset 34 (by decide),
    hWindow fileKeyOffset 32 (by decide), h.position, h.size,
    uint32_ofNat_decode, uint32_ofNat_decode, hData]
  rfl

end Layout

end Jsre

end Slfs
