import Slfs.Client.PacketCreate
import Slfs.Jsre.RequestParser

/-
  The packets that a client builds, byte by byte.

  A builder copies the name and the key into their arrays.
  How much is copied is bounded by the size of the structure,
  not of the array, so a long name runs into the key.

  Main declarations:
    * `PacketBody.build`, the part that all builders share
    * `PacketBody.Builder.decodes_iff_faithful`
-/

----------
-- Filling The Structure
----------

namespace Slfs

namespace PacketBody

open Jsre
open PacketCreate (slash splitPath findLastOf IsFilePath)

/- A structure with empty arrays. -/
def request
    (pad : Padding)
    (command : Command)
    (position size : UInt32) : Bytes :=
  [[command.codes.1, command.codes.2],
    pad.gap.toList,
    Endian.encode 4 position.toNat,
    Endian.encode 4 size.toNat,
    List.replicate 34 0,
    List.replicate 32 0,
    pad.rest.toList].flatten

/-
  Copy into the structure, at most as many bytes as it has.
  Writing behind its end is undefined.
-/
def copyField (r : Bytes) (field : Nat × Bytes) :
    Option Bytes :=
  let src := field.2.take requestSize
  if field.1 + src.length ≤ requestSize then
    some (Buffer.copyInto r field.1 src)
  else none

def fileName (name : Bytes) : Nat × Bytes :=
  (fileNameOffset, name)

def fileKey (key : Uuid) : Nat × Bytes :=
  (fileKeyOffset, key.toList)

/-
  Fill a structure in the given order and put data behind
  it. The result is the key of the packet and its body.
-/
def build
    (pad : Padding)
    (command : Command)
    (position size : UInt32)
    (fields : List (Nat × Bytes))
    (data : Bytes)
    (key : Uuid) : Option (Uuid × Bytes) := do
  let r ←
    fields.foldlM copyField (request pad command position size)
  some (key, r ++ data)

----------
-- Builders
----------

section

variable (pad : Padding)

/- Owner and permission of whatever is created. -/
def filemeta : Filemeta :=
  { owner := 0, permission := 16895 }

def lock (key : Uuid) : Option (Uuid × Bytes) :=
  build pad (.metadata .init) 0 0 [] [] key

def unlock (key : Uuid) : Option (Uuid × Bytes) :=
  build pad (.metadata .init) 0 0 [] [] key

/- The body has room for another structure behind it. -/
def mkdir
    (key : Uuid)
    (dirName : Bytes)
    (dirKey : Uuid) : Option (Uuid × Bytes) :=
  build pad (.metadata .mkdir) 0 4
    [fileName dirName, fileKey dirKey]
    (Buffer.resize filemeta.serialize requestSize) key

def deleteFile
    (key : Uuid)
    (name : Bytes)
    (file : Uuid) : Option (Uuid × Bytes) :=
  build pad (.metadata .deletefile) 0 0
    [fileKey file, fileName name] [] key

def renameFile
    (key file newFile : Uuid)
    (name : Bytes)
    (fileParent : Uuid)
    (newName : Bytes) : Option (Uuid × Bytes) := do
  let newName ← PacketCreate.copyName newName
  let info : RenameInfo :=
    { newFileKey := newFile
      fileParentKey := fileParent
      newFileName := newName }
  build pad (.metadata .renameSameproxy) 0 98
    [fileKey file, fileName name] info.serialize key

def addFile (key : Uuid) (name : Bytes) :
    Option (Uuid × Bytes) :=
  build pad (.metadata .addfile) 0 4 [fileName name]
    filemeta.serialize key

def «open»
    (key : Uuid)
    (name : Bytes)
    (file : Uuid) : Option (Uuid × Bytes) :=
  build pad (.metadata .open) 0 0
    [fileKey file, fileName name] [] key

def close (key file : Uuid) : Option (Uuid × Bytes) :=
  build pad (.metadata .close) 0 0 [fileKey file] [] key

def getStat
    (key : Uuid)
    (name : Bytes)
    (isDirectory : Bool) : Option (Uuid × Bytes) :=
  build pad
    (.metadata
      (if isDirectory then .getstatdir else .getstatfile))
    0 0 [fileName name] [] key

def writeV2
    (key : Uuid)
    (buf : Bytes)
    (file : Uuid)
    (name : Bytes)
    (position : UInt32) : Option (Uuid × Bytes) :=
  build pad (.file .write) position (UInt32.ofNat buf.length)
    [fileName name, fileKey file] buf key

def createAndWriteFileSingleRequest
    (parent : Uuid)
    (buf : Bytes)
    (file : Uuid)
    (name : Bytes) : Option (Uuid × Bytes) :=
  build pad (.metadata .addfileWrite) 0
    (UInt32.ofNat (filemeta.serialize.length + buf.length))
    [fileName name, fileKey file]
    (filemeta.serialize ++ buf) parent

def readV2
    (key file : Uuid)
    (size position : UInt32) : Option (Uuid × Bytes) :=
  build pad (.file .read) position size [fileKey file] [] key

end

----------
-- Builders On Paths
----------

section

/- The builders, with what they take besides a path. -/
inductive Builder where
| mkdir
| deleteFile
| renameFile (newFilePath : Bytes)
| addFileV2
| «open»
| close
| getStatFile
| getStatDir
| writeV2 (buf : Bytes) (position : UInt32)
| readV2 (size position : UInt32)
| createAndWriteFileSingleRequest (buf : Bytes)
| lock
| unlock
deriving DecidableEq, Repr

/- The path of a directory ends in a slash. -/
def directoryPath (path : Bytes) : Bytes :=
  if path ≠ [] ∧ path.getLast? ≠ some slash then
    path ++ [slash]
  else path

/- What is behind the last slash of a path. -/
def lastComponent (path : Bytes) : Bytes :=
  (path.reverse.takeWhile (fun b => b ≠ slash)).reverse

variable (getUuid : Bytes → Uuid) (pad : Padding)
variable (path : Bytes)

/- The packet for a path: its key and its body. -/
def Builder.build : Builder → Option (Uuid × Bytes)
| .mkdir =>
    let (parentPath, dirName) := splitPath (directoryPath path)
    PacketBody.mkdir pad (getUuid parentPath) dirName
      (getUuid (directoryPath path))
| .deleteFile =>
    let (parentPath, name) := splitPath path
    PacketBody.deleteFile pad (getUuid parentPath) name
      (getUuid path)
| .renameFile newFilePath =>
    let (newParentPath, newName) := splitPath newFilePath
    let (parentPath, name) := splitPath path
    PacketBody.renameFile pad (getUuid newParentPath)
      (getUuid path) (getUuid newFilePath) name
      (getUuid parentPath) newName
| .addFileV2 =>
    let (parentPath, name) := splitPath path
    PacketBody.addFile pad (getUuid parentPath) name
| .open =>
    let (parentPath, name) := splitPath path
    PacketBody.open pad (getUuid parentPath) name (getUuid path)
| .close =>
    let (parentPath, _) := splitPath path
    PacketBody.close pad (getUuid parentPath) (getUuid path)
| .getStatFile =>
    let (parentPath, name) := splitPath path
    PacketBody.getStat pad (getUuid parentPath) name false
| .getStatDir =>
    let (parentPath, name) := splitPath path
    PacketBody.getStat pad (getUuid parentPath) name true
| .writeV2 buf position =>
    let (parentPath, name) := splitPath path
    PacketBody.writeV2 pad (getUuid parentPath) buf
      (getUuid path) name position
| .readV2 size position =>
    let (parentPath, _) := splitPath path
    PacketBody.readV2 pad (getUuid parentPath) (getUuid path)
      size position
| .createAndWriteFileSingleRequest buf =>
    let (parentPath, name) := splitPath path
    PacketBody.createAndWriteFileSingleRequest pad
      (getUuid parentPath) buf (getUuid path) name
| .lock => PacketBody.lock pad (getUuid path)
| .unlock => PacketBody.unlock pad (getUuid path)

/-
  What a request is meant to say. Some requests carry no
  name or no key.
-/
structure Meant where
  command : Command
  position : Nat
  size : Nat
  payload : Bytes
  name : Option Bytes
  key : Option Uuid

def Builder.meant : Builder → Meant
| .mkdir =>
    ⟨.metadata .mkdir, 0, 4, filemeta.serialize,
      some (lastComponent path),
      some (getUuid (directoryPath path))⟩
| .deleteFile =>
    ⟨.metadata .deletefile, 0, 0, [],
      some (lastComponent path), some (getUuid path)⟩
| .renameFile newFilePath =>
    ⟨.metadata .renameSameproxy, 0, 98,
      RenameInfo.serialize
        { newFileKey := getUuid newFilePath
          fileParentKey :=
            getUuid (PacketCreate.getParentPath path)
          newFileName :=
            nameField (lastComponent newFilePath) },
      some (lastComponent path), some (getUuid path)⟩
| .addFileV2 =>
    ⟨.metadata .addfile, 0, 4, filemeta.serialize,
      some (lastComponent path), none⟩
| .open =>
    ⟨.metadata .open, 0, 0, [], some (lastComponent path),
      some (getUuid path)⟩
| .close =>
    ⟨.metadata .close, 0, 0, [], none, some (getUuid path)⟩
| .getStatFile =>
    ⟨.metadata .getstatfile, 0, 0, [],
      some (lastComponent path), none⟩
| .getStatDir =>
    ⟨.metadata .getstatdir, 0, 0, [],
      some (lastComponent path), none⟩
| .writeV2 buf position =>
    ⟨.file .write, position.toNat, buf.length, buf,
      some (lastComponent path), some (getUuid path)⟩
| .readV2 size position =>
    ⟨.file .read, position.toNat, size.toNat, [], none,
      some (getUuid path)⟩
| .createAndWriteFileSingleRequest buf =>
    ⟨.metadata .addfileWrite, 0, 4 + buf.length,
      filemeta.serialize ++ buf, some (lastComponent path),
      some (getUuid path)⟩
| .lock => ⟨.metadata .lock, 0, 0, [], none, none⟩
| .unlock => ⟨.metadata .unlock, 0, 0, [], none, none⟩

/-
  A command and a request say what was meant. A name field
  holds the first 34 bytes of a name.
-/
structure Meant.Says
    (m : Meant)
    (command : Command)
    (input : Jsre.Request) : Prop where
  command : command = m.command
  position : input.position.toNat = m.position
  size : input.size.toNat = m.size
  payload : m.payload <+: input.data
  name :
    input.name = (m.name.map (List.take 34)).getD []
  key : ∀ key ∈ m.key, input.fileKey = key

/- The parser finds what was meant. -/
def Builder.Decodes (b : Builder) : Prop :=
  ∃ key body command input,
    b.build getUuid pad path = some (key, body) ∧
    RequestParser.parse key body = some (command, input) ∧
    (b.meant getUuid path).Says command input

/- The name has no zero where it is carried. -/
def Readable : Prop :=
  (0 : UInt8) ∉ (lastComponent path).take 34

/- The part of a name that runs into a key agrees with it. -/
def Unclobbered : Prop :=
  ((lastComponent path).drop 34).take 32 <+:
    (getUuid path).toList

/- When a builder does what it is meant to do. -/
def Builder.Faithful : Builder → Prop
| .mkdir | .addFileV2 | .getStatFile | .getStatDir =>
    Readable path
| .deleteFile | .open =>
    Readable path ∧ Unclobbered getUuid path
| .renameFile newFilePath =>
    Readable path ∧ Unclobbered getUuid path ∧
      (lastComponent newFilePath).length ≤ 34
| .close | .readV2 _ _ => True
| .writeV2 buf _ => Readable path ∧ buf.length < 2 ^ 32
| .createAndWriteFileSingleRequest buf =>
    Readable path ∧ 4 + buf.length < 2 ^ 32
| .lock | .unlock => False

end

----------
-- Names Of Paths
----------

section

variable {path : Bytes}

theorem drop_of_findLastOf
    {i : Nat}
    (h : findLastOf path = some i) :
    path.drop (i + 1) = lastComponent path := by
  rcases Option.map_eq_some_iff.mp h with ⟨k, hFind, hIndex⟩
  rcases List.findIdx?_eq_some_iff_findIdx_eq.mp hFind with
    ⟨hk, hFindIdx⟩
  have hLt : k < path.length := by simpa using hk
  have hTake :
      path.reverse.takeWhile (fun b => b ≠ slash) =
        path.reverse.take k := by
    rw [List.takeWhile_eq_take_findIdx_not, ← hFindIdx]
    simp
  unfold lastComponent
  rw [hTake, List.take_reverse, List.reverse_reverse]
  congr 1
  omega

/- The name of a path is what is behind its last slash. -/
theorem splitPath_snd
    (h : IsFilePath path) :
    (splitPath path).2 = lastComponent path := by
  rcases PacketCreate.splitPath_of_isFilePath h with
    ⟨i, hFind, _, hSplit⟩
  rw [hSplit]
  exact drop_of_findLastOf hFind

theorem directoryPath_of_isFilePath
    (h : IsFilePath path) :
    directoryPath path = path ++ [slash] := by
  have hNe : path ≠ [] := by
    intro hNil
    have hHead := h.absolute
    rw [hNil] at hHead
    cases hHead
  unfold directoryPath
  rw [if_pos ⟨hNe, h.file⟩]

/- A slash at the end does not change the name. -/
theorem splitPath_directoryPath
    (h : IsFilePath path) :
    (splitPath (directoryPath path)).2 =
      lastComponent path := by
  have hMem : slash ∈ path := List.mem_of_head? h.absolute
  have hRoot : path ++ [slash] ≠ [slash] := by
    intro hEq
    have hNil : path = [] := by simpa using hEq
    rw [hNil] at hMem
    cases hMem
  have hLast : (path ++ [slash]).getLast? = some slash := by
    simp
  rcases PacketCreate.findLastOf_isSome hMem with ⟨i, hFind⟩
  have hDrop := drop_of_findLastOf hFind
  rw [directoryPath_of_isFilePath h]
  unfold splitPath
  rw [if_neg hRoot, if_pos hLast, List.dropLast_concat]
  simp only [hFind]
  cases i with
  | zero => exact hDrop
  | succ i => exact hDrop

end

----------
-- What The Structure Holds
----------

theorem layout_request
    (pad : Padding)
    (command : Command)
    (position size : UInt32) :
    Layout command position size
      (request pad command position size) := by
  refine
    { length := by simp [request, requestSize]
      type := by simp [request, Buffer.nth]
      operation := by simp [request, Buffer.nth]
      position := ?_
      size := ?_ }
  · apply Buffer.window_flatten _ 2
    · rfl
    · simp
    · simp
  · apply Buffer.window_flatten _ 3
    · rfl
    · simp
    · simp

/- A field that ends inside the structure is copied whole. -/
theorem copyField_of_fits
    {r : Bytes}
    {field : Nat × Bytes}
    (hFits : field.1 + field.2.length ≤ requestSize) :
    copyField r field =
      some (Buffer.copyInto r field.1 field.2) := by
  have hTake : field.2.take requestSize = field.2 :=
    List.take_of_length_le (by omega)
  simp only [copyField, hTake, if_pos hFits]

/- The name and the key that a structure holds. -/
def nameArray (r : Bytes) : Vector UInt8 34 :=
  array 34 (Buffer.window r fileNameOffset 34)

def keyArray (r : Bytes) : Uuid :=
  array 32 (Buffer.window r fileKeyOffset 32)

/- The structure after all fields have been copied. -/
def fill (r : Bytes) (fields : List (Nat × Bytes)) : Bytes :=
  fields.foldl (fun r f => Buffer.copyInto r f.1 f.2) r

/- A field that lies behind the numbers. -/
def Fits (field : Nat × Bytes) : Prop :=
  fileNameOffset ≤ field.1 ∧
    field.1 + field.2.length ≤ requestSize

variable {r : Bytes}

theorem layout_fill
    {command : Command}
    {position size : UInt32}
    {fields : List (Nat × Bytes)}
    (hFits : ∀ f ∈ fields, Fits f)
    (hLayout : Layout command position size r) :
    fields.foldlM copyField r = some (fill r fields) ∧
      Layout command position size (fill r fields) := by
  induction fields generalizing r with
  | nil => exact ⟨rfl, hLayout⟩
  | cons f fields ih =>
      have hFirst := hFits f List.mem_cons_self
      have hRest : ∀ f ∈ fields, Fits f := by
        intro f hMem
        exact hFits f (List.mem_cons_of_mem _ hMem)
      have hNext := hLayout.copyInto hFirst.1 hFirst.2
      rw [List.foldlM_cons, copyField_of_fits hFirst.2]
      exact ih hRest hNext

/- What the parser shows of a packet whose fields fit. -/
theorem parse_build
    (pad : Padding)
    (command : Command)
    (position size : UInt32)
    {fields : List (Nat × Bytes)}
    (hFits : ∀ f ∈ fields, Fits f)
    (data : Bytes)
    (key : Uuid) :
    ∃ r,
      r = fill (request pad command position size) fields ∧
      build pad command position size fields data key =
        some (key, r ++ data) ∧
      RequestParser.parse key (r ++ data) =
        some (command,
          { uuid := key
            position := position
            size := size
            fileName := nameArray r
            fileKey := keyArray r
            data := data }) := by
  rcases layout_fill hFits
      (layout_request pad command position size) with
    ⟨hFold, hLayout⟩
  refine ⟨_, rfl, ?_, hLayout.parse_append key data⟩
  simp [build, hFold]

theorem array_window_eq_iff
    {n pos : Nat}
    {v : Vector UInt8 n} :
    array n (Buffer.window r pos n) = v ↔
      ∀ i, i < n →
        Buffer.nth r (pos + i) = Buffer.nth v.toList i := by
  have hNth :
      ∀ (w : Vector UInt8 n) (i : Nat) (hi : i < n),
        Buffer.nth w.toList i = w[i] := by
    intro w i hi
    simp [Buffer.nth, List.getD_eq_getElem?_getD, hi]
  constructor
  · intro hEq i hi
    subst hEq
    rw [hNth _ i hi]
    simp [array, Buffer.nth_window]
  · intro hAll
    apply Vector.ext
    intro i hi
    have hAt := hAll i hi
    rw [hNth v i hi] at hAt
    simp [array, Buffer.nth_window, hAt]

----------
-- Names And Keys In The Structure
----------

theorem nth_nameField
    (name : Bytes)
    {i : Nat}
    (hi : i < 34) :
    Buffer.nth (nameField name).toList i =
      Buffer.nth name i := by
  simp [nameField, array, Buffer.nth,
    List.getD_eq_getElem?_getD, hi]

/- What is left of the arrays by a name and a key. -/
theorem nth_copyInto_fileName
    {name : Bytes}
    (hLength : r.length = requestSize)
    (hFits : name.length ≤ 68)
    (i : Nat) :
    Buffer.nth (Buffer.copyInto r fileNameOffset name)
        (fileNameOffset + i) =
      if i < name.length then Buffer.nth name i
      else Buffer.nth r (fileNameOffset + i) := by
  have hBound : fileNameOffset + name.length ≤ r.length := by
    rw [hLength]
    unfold fileNameOffset requestSize
    omega
  rw [Buffer.nth_copyInto hBound]
  by_cases hi : i < name.length
  · rw [if_pos (by omega), if_pos hi, Nat.add_sub_cancel_left]
  · rw [if_neg (by omega), if_neg hi]

theorem nth_copyInto_fileKey
    (hLength : r.length = requestSize)
    (key : Uuid)
    (i : Nat) :
    Buffer.nth (Buffer.copyInto r fileKeyOffset key.toList) i =
      if fileKeyOffset ≤ i ∧ i < 78 then
        Buffer.nth key.toList (i - fileKeyOffset)
      else Buffer.nth r i := by
  have hBound : fileKeyOffset + key.toList.length ≤ r.length := by
    rw [hLength, Vector.length_toList]
    decide
  rw [Buffer.nth_copyInto hBound, Vector.length_toList]
  rfl

theorem fits_fileName
    {name : Bytes}
    (hLength : name.length ≤ 68) :
    Fits (fileName name) := by
  constructor
  · exact Nat.le_refl _
  · simp only [fileName, fileNameOffset, requestSize]
    omega

theorem fits_fileKey
    (key : Uuid) :
    Fits (fileKey key) := by
  constructor
  · simp [fileKey, fileNameOffset, fileKeyOffset]
  · simp [fileKey, fileKeyOffset, requestSize]

/- Elements of a list that stand in front of another one. -/
theorem isPrefix_iff_nth
    {l m : Bytes} :
    l <+: m ↔
      l.length ≤ m.length ∧
        ∀ i, i < l.length →
          Buffer.nth l i = Buffer.nth m i := by
  constructor
  · intro hPrefix
    refine ⟨hPrefix.length_le, ?_⟩
    intro i hi
    rcases hPrefix with ⟨rest, hEq⟩
    rw [← hEq, Buffer.nth_append, if_pos hi]
  · rintro ⟨hLength, hAll⟩
    rw [List.prefix_iff_eq_take]
    apply Buffer.ext_nth
    · rw [List.length_take]
      omega
    · intro i hi
      rw [Buffer.nth_take, if_pos hi]
      exact hAll i hi

section

variable (hLength : r.length = requestSize)
include hLength

theorem keyArray_copyInto
    (key : Uuid) :
    keyArray (Buffer.copyInto r fileKeyOffset key.toList) =
      key := by
  apply array_window_eq_iff.mpr
  intro i hi
  rw [nth_copyInto_fileKey hLength,
    if_pos (by unfold fileKeyOffset; omega),
    Nat.add_sub_cancel_left]

/- A key leaves the name. -/
theorem nameArray_copyInto_fileKey
    (key : Uuid) :
    nameArray (Buffer.copyInto r fileKeyOffset key.toList) =
      nameArray r := by
  unfold nameArray
  congr 1
  apply Buffer.window_congr
  intro i hi
  rw [nth_copyInto_fileKey hLength,
    if_neg (by unfold fileNameOffset fileKeyOffset; omega)]

theorem nameArray_copyInto
    {name : Bytes}
    (hFits : name.length ≤ 68)
    (hEmpty : nameArray r = nameField []) :
    nameArray (Buffer.copyInto r fileNameOffset name) =
      nameField name := by
  apply array_window_eq_iff.mpr
  intro i hi
  rw [nth_nameField name hi,
    nth_copyInto_fileName hLength hFits]
  split
  · rfl
  · rename_i hBehind
    rw [array_window_eq_iff.mp hEmpty i hi,
      nth_nameField [] hi,
      Buffer.nth_of_length_le (Nat.le_of_not_lt hBehind)]
    rfl

/- A name may run into the key behind it. -/
theorem keyArray_copyInto_fileName
    {name : Bytes}
    (hFits : name.length ≤ 68) :
    keyArray (Buffer.copyInto r fileNameOffset name) =
        keyArray r ↔
      (name.drop 34).take 32 <+: (keyArray r).toList := by
  have hOld := array_window_eq_iff.mp (rfl : keyArray r = _)
  have hNth :
      ∀ i, i < 32 →
        Buffer.nth (Buffer.copyInto r fileNameOffset name)
            (fileKeyOffset + i) =
          if i < name.length - 34 then
            Buffer.nth (name.drop 34) i
          else Buffer.nth (keyArray r).toList i := by
    intro i hi
    have hShift :
        fileKeyOffset + i = fileNameOffset + (34 + i) := by
      unfold fileKeyOffset fileNameOffset
      omega
    rw [hShift, nth_copyInto_fileName hLength hFits, ← hShift]
    by_cases hIn : i < name.length - 34
    · rw [if_pos (by omega), if_pos hIn, Buffer.nth_drop]
    · rw [if_neg (by omega), if_neg hIn, hOld i hi]
  rw [keyArray, array_window_eq_iff, isPrefix_iff_nth]
  simp only [List.length_take, List.length_drop,
    Vector.length_toList, Buffer.nth_take]
  constructor
  · intro hAll
    refine ⟨by omega, ?_⟩
    intro i hi
    have hAt := hAll i (by omega)
    rw [hNth i (by omega), if_pos (by omega)] at hAt
    rw [if_pos (by omega), hAt]
  · rintro ⟨_, hAll⟩ i hi
    rw [hNth i hi]
    split
    · rename_i hIn
      have hAt := hAll i (by omega)
      rwa [if_pos (by omega)] at hAt
    · rfl

end

section

variable (pad : Padding) (command : Command)
variable (position size : UInt32)

theorem length_request :
    (request pad command position size).length =
      requestSize :=
  (layout_request pad command position size).length

/- Both arrays of a new structure are zero. -/
theorem nameArray_request :
    nameArray (request pad command position size) =
      nameField [] := by
  have hWindow :
      Buffer.window (request pad command position size)
          fileNameOffset 34 = List.replicate 34 0 := by
    apply Buffer.window_flatten _ 4
    · rfl
    · simp [fileNameOffset]
    · simp
  unfold nameArray
  rw [hWindow]
  decide

/- A name alone. -/
theorem fill_name
    {name : Bytes}
    (hFits : name.length ≤ 68) :
    nameArray
        (fill (request pad command position size)
          [fileName name]) =
      nameField name :=
  nameArray_copyInto (length_request pad command position size)
    hFits (nameArray_request pad command position size)

/- A key alone leaves the name empty. -/
theorem fill_key
    (key : Uuid) :
    nameArray
        (fill (request pad command position size)
          [fileKey key]) = nameField [] ∧
    keyArray
        (fill (request pad command position size)
          [fileKey key]) = key := by
  have hLength := length_request pad command position size
  refine ⟨?_, keyArray_copyInto hLength key⟩
  rw [← nameArray_request pad command position size]
  exact nameArray_copyInto_fileKey hLength key

theorem length_fill
    {field : Nat × Bytes}
    (hFits : Fits field) :
    (fill (request pad command position size)
      [field]).length = requestSize := by
  have hAll : ∀ f ∈ [field], Fits f := by simpa using hFits
  exact (layout_fill hAll
    (layout_request pad command position size)).2.length

/- A key that is copied last is safe from the name. -/
theorem fill_name_key
    {name : Bytes}
    (hFits : name.length ≤ 68)
    (key : Uuid) :
    nameArray
        (fill (request pad command position size)
          [fileName name, fileKey key]) = nameField name ∧
    keyArray
        (fill (request pad command position size)
          [fileName name, fileKey key]) = key := by
  have hLength :=
    length_fill pad command position size (fits_fileName hFits)
  refine ⟨?_, keyArray_copyInto hLength key⟩
  rw [← fill_name pad command position size hFits]
  exact nameArray_copyInto_fileKey hLength key

/- A name that is copied last may run into the key. -/
theorem fill_key_name
    {name : Bytes}
    (hFits : name.length ≤ 68)
    (key : Uuid) :
    nameArray
        (fill (request pad command position size)
          [fileKey key, fileName name]) = nameField name ∧
    (keyArray
        (fill (request pad command position size)
          [fileKey key, fileName name]) = key ↔
      (name.drop 34).take 32 <+: key.toList) := by
  have hLength :=
    length_fill pad command position size (fits_fileKey key)
  rcases fill_key pad command position size key with
    ⟨hName, hKey⟩
  have hRuns := keyArray_copyInto_fileName hLength hFits
  rw [hKey] at hRuns
  exact ⟨nameArray_copyInto hLength hFits hName, hRuns⟩

end

/- A name is read back, cut, if it holds no zero. -/
theorem cstring_nameField_iff
    (name : Bytes) :
    cstring (nameField name) = name.take 34 ↔
      (0 : UInt8) ∉ name.take 34 := by
  have hCut : nameField name = nameField (name.take 34) := by
    apply Vector.ext
    intro i hi
    simp [nameField, array, Buffer.nth_take]
  constructor
  · intro hEq
    rw [← hEq]
    exact zero_notMem_cstring _
  · intro hZero
    rw [hCut]
    exact cstring_nameField (by simp) hZero

theorem cstring_nameField_nil :
    cstring (nameField []) = [] := by
  decide

----------
-- Builders And Parser
----------

theorem Meant.says_iff
    {m : Meant}
    {command : Command}
    {input : Jsre.Request} :
    m.Says command input ↔
      command = m.command ∧
        input.position.toNat = m.position ∧
        input.size.toNat = m.size ∧
        m.payload <+: input.data ∧
        input.name = (m.name.map (List.take 34)).getD [] ∧
        ∀ key ∈ m.key, input.fileKey = key := by
  constructor
  · intro h
    exact ⟨h.command, h.position, h.size, h.payload, h.name,
      h.key⟩
  · rintro ⟨hCommand, hPosition, hSize, hPayload, hName, hKey⟩
    exact ⟨hCommand, hPosition, hSize, hPayload, hName, hKey⟩

/-
  The parts of a request besides its name and its key, which
  are as the builder gave them.
-/
def Meant.Carries
    (m : Meant)
    (command : Command)
    (position size : UInt32)
    (data : Bytes) : Prop :=
  command = m.command ∧ position.toNat = m.position ∧
    size.toNat = m.size ∧ m.payload <+: data

namespace Builder

variable {getUuid : Bytes → Uuid} {pad : Padding}
variable {path : Bytes}

/- A packet is decoded to what its structure holds. -/
theorem decodes_iff_meant
    {b : Builder}
    {command : Command}
    {position size : UInt32}
    {fields : List (Nat × Bytes)}
    {data : Bytes}
    {key : Uuid}
    (hBuild :
      b.build getUuid pad path =
        PacketBody.build pad command position size fields data
          key)
    (hFits : ∀ f ∈ fields, Fits f) :
    b.Decodes getUuid pad path ↔
      (b.meant getUuid path).Says command
        { uuid := key
          position := position
          size := size
          fileName :=
            nameArray
              (fill (request pad command position size) fields)
          fileKey :=
            keyArray
              (fill (request pad command position size) fields)
          data := data } := by
  rcases parse_build pad command position size hFits data
      key with ⟨r, hr, hSome, hParse⟩
  rw [← hBuild] at hSome
  subst hr
  constructor
  · rintro ⟨key', body, command', input, hBuilt, hParsed, hSays⟩
    rw [hSome] at hBuilt
    cases hBuilt
    rw [hParse] at hParsed
    cases hParsed
    exact hSays
  · intro hSays
    exact ⟨_, _, _, _, hSome, hParse, hSays⟩

theorem uint32_size_iff
    (n : Nat) :
    (UInt32.ofNat n).toNat = n ↔ n < 2 ^ 32 := by
  rw [UInt32.toNat_ofNat']
  constructor
  · intro hEq
    rw [← hEq]
    exact Nat.mod_lt _ (by decide)
  · intro hLt
    exact Nat.mod_eq_of_lt hLt

section

variable {b : Builder} {command : Command}
variable {position size : UInt32} {data name : Bytes}
variable {key file : Uuid}

theorem decodes_of_key_name
    (hBuild :
      b.build getUuid pad path =
        PacketBody.build pad command position size
          [fileKey file, fileName name] data key)
    (hLength : name.length ≤ 68)
    (hName : (b.meant getUuid path).name = some name)
    (hKey : (b.meant getUuid path).key = some file) :
    b.Decodes getUuid pad path ↔
      (b.meant getUuid path).Carries command position size
        data ∧
        (0 : UInt8) ∉ name.take 34 ∧
        (name.drop 34).take 32 <+: file.toList := by
  rcases fill_key_name pad command position size hLength
      file with ⟨hNameField, hKeyField⟩
  rw [decodes_iff_meant hBuild
      (by simp [fits_fileKey, fits_fileName hLength]),
    Meant.says_iff]
  simp [Meant.Carries, Jsre.Request.name, hName, hKey,
    hNameField, hKeyField, cstring_nameField_iff, and_assoc]

theorem decodes_of_name_key
    (hBuild :
      b.build getUuid pad path =
        PacketBody.build pad command position size
          [fileName name, fileKey file] data key)
    (hLength : name.length ≤ 68)
    (hName : (b.meant getUuid path).name = some name)
    (hKey : (b.meant getUuid path).key = some file) :
    b.Decodes getUuid pad path ↔
      (b.meant getUuid path).Carries command position size
        data ∧
        (0 : UInt8) ∉ name.take 34 := by
  rcases fill_name_key pad command position size hLength
      file with ⟨hNameField, hKeyField⟩
  rw [decodes_iff_meant hBuild
      (by simp [fits_fileKey, fits_fileName hLength]),
    Meant.says_iff]
  simp [Meant.Carries, Jsre.Request.name, hName, hKey,
    hNameField, hKeyField, cstring_nameField_iff, and_assoc]

theorem decodes_of_name
    (hBuild :
      b.build getUuid pad path =
        PacketBody.build pad command position size
          [fileName name] data key)
    (hLength : name.length ≤ 68)
    (hName : (b.meant getUuid path).name = some name)
    (hKey : (b.meant getUuid path).key = none) :
    b.Decodes getUuid pad path ↔
      (b.meant getUuid path).Carries command position size
        data ∧
        (0 : UInt8) ∉ name.take 34 := by
  have hNameField :=
    fill_name pad command position size hLength
  rw [decodes_iff_meant hBuild
      (by simp [fits_fileName hLength]),
    Meant.says_iff]
  simp [Meant.Carries, Jsre.Request.name, hName, hKey,
    hNameField, cstring_nameField_iff, and_assoc]

theorem decodes_of_key
    (hBuild :
      b.build getUuid pad path =
        PacketBody.build pad command position size
          [fileKey file] data key)
    (hName : (b.meant getUuid path).name = none)
    (hKey : (b.meant getUuid path).key = some file) :
    b.Decodes getUuid pad path ↔
      (b.meant getUuid path).Carries command position size
        data := by
  rcases fill_key pad command position size file with
    ⟨hNameField, hKeyField⟩
  rw [decodes_iff_meant hBuild (by simp [fits_fileKey]),
    Meant.says_iff]
  simp [Meant.Carries, Jsre.Request.name, hName, hKey,
    hNameField, hKeyField, cstring_nameField_nil]

/- A command that was not meant is not decoded to. -/
theorem not_decodes
    {fields : List (Nat × Bytes)}
    (hBuild :
      b.build getUuid pad path =
        PacketBody.build pad command position size fields data
          key)
    (hFits : ∀ f ∈ fields, Fits f)
    (hCommand : command ≠ (b.meant getUuid path).command) :
    ¬ b.Decodes getUuid pad path := by
  rw [decodes_iff_meant hBuild hFits]
  intro hSays
  exact hCommand hSays.command

end

/-
  For every file path whose name has at most 68 bytes, the
  parser finds what a builder was meant to say if and only
  if the builder is faithful for the path.
-/
theorem decodes_iff_faithful
    (getUuid : Bytes → Uuid)
    (pad : Padding)
    {path : Bytes}
    (hPath : IsFilePath path)
    (hLength : (lastComponent path).length ≤ 68)
    (b : Builder)
    (hNew :
      ∀ newFilePath, b = .renameFile newFilePath →
        IsFilePath newFilePath) :
    b.Decodes getUuid pad path ↔
      b.Faithful getUuid path := by
  have hSplit := splitPath_snd hPath
  cases b with
  | mkdir =>
      have hPayload : filemeta.serialize <+:
          Buffer.resize filemeta.serialize requestSize := by
        decide
      rw [decodes_of_name_key
        (by rw [← splitPath_directoryPath hPath]; rfl)
        hLength rfl rfl]
      simp [Meant.Carries, meant, Faithful, Readable, hPayload]
  | deleteFile =>
      rw [decodes_of_key_name (by rw [← hSplit]; rfl) hLength
        rfl rfl]
      simp [Meant.Carries, meant, Faithful, Readable,
        Unclobbered]
  | renameFile newFilePath =>
      have hNewSplit := splitPath_snd (hNew newFilePath rfl)
      by_cases hShort :
          (lastComponent newFilePath).length ≤ 34
      · rw [decodes_of_key_name
          (by
            rw [← hSplit]
            simp only [build, PacketBody.renameFile,
              PacketCreate.copyName, hNewSplit,
              if_pos hShort]
            rfl)
          hLength rfl rfl]
        simp [Meant.Carries, meant, Faithful, Readable,
          Unclobbered, hShort, PacketCreate.getParentPath]
      · -- the new name overflows its own structure
        have hNone :
            build getUuid pad path (.renameFile newFilePath) =
              none := by
          simp only [build, PacketBody.renameFile,
            PacketCreate.copyName, hNewSplit, if_neg hShort]
          rfl
        simp [Decodes, hNone, Faithful, hShort]
  | addFileV2 =>
      rw [decodes_of_name (by rw [← hSplit]; rfl) hLength
        rfl rfl]
      simp [Meant.Carries, meant, Faithful, Readable]
  | «open» =>
      rw [decodes_of_key_name (by rw [← hSplit]; rfl) hLength
        rfl rfl]
      simp [Meant.Carries, meant, Faithful, Readable,
        Unclobbered]
  | close =>
      rw [decodes_of_key rfl rfl rfl]
      simp [Meant.Carries, meant, Faithful]
  | getStatFile | getStatDir =>
      rw [decodes_of_name (by rw [← hSplit]; rfl) hLength
        rfl rfl]
      simp [Meant.Carries, meant, Faithful, Readable]
  | writeV2 buf position =>
      rw [decodes_of_name_key (by rw [← hSplit]; rfl) hLength
        rfl rfl]
      simp only [Meant.Carries, meant, Faithful, Readable,
        uint32_size_iff, List.prefix_rfl, true_and, and_true]
      exact And.comm
  | readV2 size position =>
      rw [decodes_of_key rfl rfl rfl]
      simp [Meant.Carries, meant, Faithful]
  | createAndWriteFileSingleRequest buf =>
      have hMeta : filemeta.serialize.length = 4 := by decide
      rw [decodes_of_name_key (by rw [← hSplit]; rfl) hLength
        rfl rfl]
      simp only [Meant.Carries, meant, Faithful, Readable, hMeta,
        uint32_size_iff, List.prefix_rfl, true_and, and_true]
      simp [And.comm]
  | lock | unlock =>
      simp only [Faithful, iff_false]
      apply not_decodes rfl
      · simp
      · simp [meant]

instance (path : Bytes) : Decidable (Readable path) := by
  unfold Readable
  infer_instance

instance (getUuid : Bytes → Uuid) (path : Bytes) :
    Decidable (Unclobbered getUuid path) := by
  unfold Unclobbered
  infer_instance

instance (getUuid : Bytes → Uuid) (path : Bytes) (b : Builder) :
    Decidable (b.Faithful getUuid path) := by
  unfold Faithful
  split <;> infer_instance

/- Keys and padding of the packets below. -/
def sampleUuid (path : Bytes) : Uuid :=
  array 32 path

def samplePadding : Padding :=
  { gap := Vector.replicate 2 7, rest := Vector.replicate 2 7 }

def samplePath : Bytes :=
  Decimal.ascii "/d/f"

/- A name of 35 bytes. -/
def longPath : Bytes :=
  Decimal.ascii "/aaaaaaaaaaaaaaaaaaaaaaaaaaaaaaaaaaa"

def sampleBuilders : List Builder :=
  [.mkdir, .deleteFile, .renameFile (Decimal.ascii "/e/g"),
    .addFileV2, .open, .close, .getStatFile, .getStatDir,
    .writeV2 [1, 2, 3] 5, .readV2 3 5,
    .createAndWriteFileSingleRequest [1, 2, 3]]

theorem decodes_samplePath :
    sampleBuilders.Forall
      (fun b =>
        b.Decodes sampleUuid samplePadding samplePath) := by
  rw [List.forall_iff_forall_mem]
  intro b hMem
  have hFaithful :
      ∀ b ∈ sampleBuilders,
        b.Faithful sampleUuid samplePath := by
    decide +kernel
  refine (decodes_iff_faithful sampleUuid samplePadding
    (by decide +kernel) (by decide +kernel) b ?_).mpr
    (hFaithful b hMem)
  intro newFilePath hRename
  subst hRename
  have hNew : newFilePath = Decimal.ascii "/e/g" := by
    simpa [sampleBuilders] using hMem
  subst hNew
  decide +kernel

/-
  A long name runs into the key of the file, and requests to
  lock and unlock are sent as another operation.
-/
theorem not_decodes_longPath :
    IsFilePath longPath ∧
      (lastComponent longPath).length = 35 ∧
      ∀ b ∈ [Builder.deleteFile, .open,
        .renameFile samplePath, .lock, .unlock],
        ¬ b.Decodes sampleUuid samplePadding longPath := by
  have hPath : IsFilePath longPath := by decide +kernel
  have hSplit := splitPath_snd hPath
  have hLength : (lastComponent longPath).length = 35 := by
    decide +kernel
  have hRuns :
      ¬ ((lastComponent longPath).drop 34).take 32 <+:
        (sampleUuid longPath).toList := by
    decide +kernel
  refine ⟨hPath, hLength, ?_⟩
  simp only [List.mem_cons, List.not_mem_nil, or_false,
    forall_eq_or_imp, forall_eq]
  refine ⟨?_, ?_, ?_, not_decodes rfl (by simp) (by decide),
    not_decodes rfl (by simp) (by decide)⟩
  all_goals
    intro hDecodes
    rw [decodes_of_key_name (by rw [← hSplit]; rfl)
      (by omega) rfl rfl] at hDecodes
    exact hRuns hDecodes.2.2

end Builder

end PacketBody

end Slfs
