import Slfs.Lib.Buffer
import Slfs.Lib.Endian
import Slfs.Ssbd.Packet

/-
  Structures of a directory file and of metadata requests.

  A directory file is a row of 64-byte records, the first of
  which counts the others. Numbers are big-endian, and bytes
  that belong to no member are kept.

  Main declarations:
    * `Jsre.Stats`
    * `Jsre.FilemetaServer.parse_serialize`
-/

----------
-- Members
----------

namespace Slfs

namespace Jsre

/- An array member, from the bytes where it starts. -/
def array (n : Nat) (bytes : Bytes) : Vector UInt8 n :=
  Vector.ofFn (fun i => Buffer.nth bytes i.val)

/- A name field. -/
abbrev FileName := Vector UInt8 34

/- The string in a name field ends at its first zero. -/
def cstring (name : FileName) : Bytes :=
  name.toList.takeWhile (fun b => b != 0)

theorem array_toList
    {n : Nat}
    (v : Vector UInt8 n) :
    array n v.toList = v := by
  apply Vector.ext
  intro i hi
  simp [array, Buffer.nth, List.getD_eq_getElem?_getD]

theorem uint16_ofNat_decode
    (x : UInt16) :
    UInt16.ofNat (Endian.decode (Endian.encode 2 x.toNat)) =
      x := by
  rw [Endian.decode_encode x.toNat_lt, UInt16.ofNat_toNat]

theorem uint32_ofNat_decode
    (x : UInt32) :
    UInt32.ofNat (Endian.decode (Endian.encode 4 x.toNat)) =
      x := by
  rw [Endian.decode_encode x.toNat_lt, UInt32.ofNat_toNat]

theorem uint64_ofNat_decode
    (x : UInt64) :
    UInt64.ofNat (Endian.decode (Endian.encode 8 x.toNat)) =
      x := by
  rw [Endian.decode_encode x.toNat_lt, UInt64.ofNat_toNat]

----------
-- Records Of A Directory
----------

/- Size of every record of a directory file. -/
def recordSize : Nat := 64

/- The first record. -/
structure Stats where
  fileCount : UInt32
  reserved : Vector UInt8 60
deriving DecidableEq, Repr

/- An entry, with the bytes between and after its members. -/
structure FilemetaServer where
  owner : UInt16
  permission : UInt16
  fileSize : UInt16
  gap : Vector UInt8 2
  creationTime : UInt64
  modificationTime : UInt64
  fileName : FileName
  rest : Vector UInt8 6
deriving DecidableEq, Repr

namespace Stats

def fields (s : Stats) : List Bytes :=
  [Endian.encode 4 s.fileCount.toNat, s.reserved.toList]

def serialize (s : Stats) : Bytes :=
  s.fields.flatten

def parse (bytes : Bytes) : Stats :=
  { fileCount :=
      UInt32.ofNat (Endian.decode (Buffer.window bytes 0 4))
    reserved := array 60 (Buffer.window bytes 4 60) }

@[simp] theorem length_serialize
    (s : Stats) :
    s.serialize.length = recordSize := by
  simp [serialize, fields, recordSize]

theorem parse_serialize
    (s : Stats) :
    parse s.serialize = s := by
  have hCount : Buffer.window s.serialize 0 4 =
      Endian.encode 4 s.fileCount.toNat :=
    Buffer.window_flatten s.fields 0 0 4 rfl rfl (by simp)
  have hReserved : Buffer.window s.serialize 4 60 =
      s.reserved.toList :=
    Buffer.window_flatten s.fields 1 4 60 rfl
      (by simp [fields]) (by simp)
  unfold parse
  rw [hCount, hReserved, uint32_ofNat_decode, array_toList]

end Stats

namespace FilemetaServer

def fields (r : FilemetaServer) : List Bytes :=
  [Endian.encode 2 r.owner.toNat,
    Endian.encode 2 r.permission.toNat,
    Endian.encode 2 r.fileSize.toNat,
    r.gap.toList,
    Endian.encode 8 r.creationTime.toNat,
    Endian.encode 8 r.modificationTime.toNat,
    r.fileName.toList,
    r.rest.toList]

def serialize (r : FilemetaServer) : Bytes :=
  r.fields.flatten

def parse (bytes : Bytes) : FilemetaServer :=
  { owner :=
      UInt16.ofNat (Endian.decode (Buffer.window bytes 0 2))
    permission :=
      UInt16.ofNat (Endian.decode (Buffer.window bytes 2 2))
    fileSize :=
      UInt16.ofNat (Endian.decode (Buffer.window bytes 4 2))
    gap := array 2 (Buffer.window bytes 6 2)
    creationTime :=
      UInt64.ofNat (Endian.decode (Buffer.window bytes 8 8))
    modificationTime :=
      UInt64.ofNat (Endian.decode (Buffer.window bytes 16 8))
    fileName := array 34 (Buffer.window bytes 24 34)
    rest := array 6 (Buffer.window bytes 58 6) }

/- The name, up to the first zero. -/
def name (r : FilemetaServer) : Bytes :=
  cstring r.fileName

@[simp] theorem length_serialize
    (r : FilemetaServer) :
    r.serialize.length = recordSize := by
  simp [serialize, fields, recordSize]

/- A member of the serialized entry. -/
theorem window_serialize
    (r : FilemetaServer)
    (i pos n : Nat)
    {field : Bytes}
    (h : r.fields[i]? = some field)
    (hPos : ([2, 2, 2, 2, 8, 8, 34, 6].take i).sum = pos)
    (hLen : field.length = n) :
    Buffer.window r.serialize pos n = field := by
  refine Buffer.window_flatten r.fields i pos n h ?_ hLen
  rw [List.map_take, ← hPos]
  simp [fields]

theorem parse_serialize
    (r : FilemetaServer) :
    parse r.serialize = r := by
  unfold parse
  rw [r.window_serialize 0 0 2 rfl rfl (by simp),
    r.window_serialize 1 2 2 rfl rfl (by simp),
    r.window_serialize 2 4 2 rfl rfl (by simp),
    r.window_serialize 3 6 2 rfl rfl (by simp),
    r.window_serialize 4 8 8 rfl rfl (by simp),
    r.window_serialize 5 16 8 rfl rfl (by simp),
    r.window_serialize 6 24 34 rfl rfl (by simp),
    r.window_serialize 7 58 6 rfl rfl (by simp)]
  simp only [uint16_ofNat_decode, uint64_ofNat_decode,
    array_toList]

end FilemetaServer

----------
-- Names
----------

/- A string copied into a zeroed name field. -/
def nameField (name : Bytes) : FileName :=
  array 34 name

/- Names are no longer than their array. -/
theorem length_cstring_le
    (name : FileName) :
    (cstring name).length ≤ 34 := by
  have hLe := (List.takeWhile_sublist
    (l := name.toList) (fun b => b != 0)).length_le
  rwa [Vector.length_toList] at hLe

/- Names end before the first zero. -/
theorem zero_notMem_cstring
    (name : FileName) :
    (0 : UInt8) ∉ cstring name := by
  intro hMem
  have hNe := List.mem_takeWhile_imp hMem
  simp at hNe

/- A short string without zeros is read back. -/
theorem cstring_nameField
    {name : Bytes}
    (hLength : name.length ≤ 34)
    (hZero : (0 : UInt8) ∉ name) :
    cstring (nameField name) = name := by
  have hList : (nameField name).toList =
      name ++ List.replicate (34 - name.length) 0 := by
    apply Buffer.ext_nth
    · simp
      omega
    · intro i hi
      have hLt : i < 34 := by simpa using hi
      rw [Buffer.nth_append]
      by_cases hName : i < name.length
      · simp [nameField, array, Buffer.nth,
          List.getD_eq_getElem?_getD, hLt, hName]
      · have hRest : i - name.length < 34 - name.length := by
          omega
        simp [nameField, array, Buffer.nth,
          List.getD_eq_getElem?_getD, hLt, hName, hRest]
        rfl
  have hAll : ∀ b ∈ name, (b != 0) = true := by
    intro b hb
    have hNe : b ≠ 0 := fun hEq => hZero (hEq ▸ hb)
    simpa using hNe
  unfold cstring
  rw [hList, List.takeWhile_append_of_pos hAll]
  cases 34 - name.length with
  | zero => simp
  | succ n => simp [List.replicate_succ]

/- A name is read back as it was written. -/
theorem cstring_nameField_cstring
    (name : FileName) :
    cstring (nameField (cstring name)) = cstring name :=
  cstring_nameField (length_cstring_le name)
    (zero_notMem_cstring name)

----------
-- Request Bodies
----------

/- `meta::filemeta` and `meta::dirmeta`, which are alike. -/
structure Filemeta where
  owner : UInt16
  permission : UInt16
deriving DecidableEq, Repr

/- `meta::rename_info`. -/
structure RenameInfo where
  newFileKey : Uuid
  fileParentKey : Uuid
  newFileName : FileName
deriving DecidableEq, Repr

/- Copying from a body that is too short is undefined. -/
def Filemeta.parse (body : Bytes) : Option Filemeta :=
  if body.length < 4 then none
  else
    some
      { owner := UInt16.ofNat
          (Endian.decode (Buffer.window body 0 2))
        permission := UInt16.ofNat
          (Endian.decode (Buffer.window body 2 2)) }

def RenameInfo.parse (body : Bytes) : Option RenameInfo :=
  if body.length < 98 then none
  else
    some
      { newFileKey := array 32 (Buffer.window body 0 32)
        fileParentKey := array 32 (Buffer.window body 32 32)
        newFileName := array 34 (Buffer.window body 64 34) }

def Filemeta.serialize (m : Filemeta) : Bytes :=
  [Endian.encode 2 m.owner.toNat,
    Endian.encode 2 m.permission.toNat].flatten

def RenameInfo.serialize (info : RenameInfo) : Bytes :=
  [info.newFileKey.toList, info.fileParentKey.toList,
    info.newFileName.toList].flatten

/- Renamings are read back as they were written. -/
theorem RenameInfo.parse_serialize
    (info : RenameInfo) :
    RenameInfo.parse info.serialize = some info := by
  unfold RenameInfo.parse RenameInfo.serialize
  rw [if_neg (by simp),
    Buffer.window_flatten _ 0 0 32 rfl rfl (by simp),
    Buffer.window_flatten _ 1 32 32 rfl (by simp) (by simp),
    Buffer.window_flatten _ 2 64 34 rfl (by simp) (by simp),
    array_toList, array_toList, array_toList]

end Jsre

end Slfs
