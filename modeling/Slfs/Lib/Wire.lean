import Mathlib.Data.List.Forall2
import Slfs.Lib.Endian

/-
  Messages on a byte stream.

  A frame says how a reader cuts a stream: a header of a fixed
  size tells how many bytes of body follow. Nothing marks the
  end of a message, so one that is cut wrong shifts all that
  come after it.

  Main declarations:
    * `Wire.Frame`
    * `Wire.Frame.readAll_of_carries`
-/

----------
-- Codecs
----------

namespace Slfs

/- A list is not written if one of its elements is not. -/
theorem mapM_option_eq_none
    {α β : Type}
    {f : α → Option β}
    {l : List α}
    {a : α}
    (ha : a ∈ l)
    (hNone : f a = none) :
    l.mapM f = none := by
  induction l with
  | nil => cases ha
  | cons b rest ih =>
      rw [List.mapM_cons]
      rcases List.mem_cons.mp ha with hHead | hTail
      · rw [← hHead, hNone]
        rfl
      · cases f b with
        | none => rfl
        | some c => simp [ih hTail]

namespace Wire

/- The first bytes of a stream, if it has so many. -/
def take (n : Nat) (stream : List UInt8) :
    Option (List UInt8 × List UInt8) :=
  if stream.length < n then none
  else some (stream.take n, stream.drop n)

theorem take_append
    {n : Nat}
    {bytes : List UInt8}
    (h : bytes.length = n)
    (rest : List UInt8) :
    take n (bytes ++ rest) = some (bytes, rest) := by
  subst h
  have hNot : ¬ (bytes ++ rest).length < bytes.length := by
    rw [List.length_append]
    omega
  rw [take, if_neg hNot, List.take_left, List.drop_left]

/-
  A header and a body are written into a buffer whose size is
  counted in 32 bits. Bytes that it has no room for go behind
  its end, and then nothing is known.
-/
def join (header body : List UInt8) : Option (List UInt8) :=
  let size :=
    UInt32.ofNat header.length + UInt32.ofNat body.length
  if header.length + body.length ≤ size.toNat then
    some (header ++ body)
  else none

theorem join_eq_some_iff
    {header body bytes : List UInt8} :
    join header body = some bytes ↔
      header.length + body.length < 2 ^ 32 ∧
        header ++ body = bytes := by
  have hSize :
      (UInt32.ofNat header.length +
          UInt32.ofNat body.length).toNat =
        (header.length + body.length) % 2 ^ 32 := by
    simp
  have hFits : ∀ n : Nat, n ≤ n % 2 ^ 32 ↔ n < 2 ^ 32 := by
    omega
  unfold join
  simp only [hSize, hFits, Option.ite_none_right_eq_some,
    Option.some.injEq]

/- A type whose values take a fixed number of bytes. -/
structure Codec (α : Type) where
  width : Nat
  encode : α → List UInt8
  decode : List UInt8 → α
  length_encode : ∀ x, (encode x).length = width
  decode_encode : ∀ x, decode (encode x) = x

attribute [simp] Codec.length_encode

namespace Codec

variable {α : Type}

/- Read a value and go on behind it. -/
def read (c : Codec α) (stream : List UInt8) :
    Option (α × List UInt8) :=
  (take c.width stream).map
    (fun cut => (c.decode cut.1, cut.2))

@[simp] theorem read_append
    (c : Codec α)
    (x : α)
    (rest : List UInt8) :
    c.read (c.encode x ++ rest) = some (x, rest) := by
  rw [read, take_append (c.length_encode x), Option.map_some,
    c.decode_encode]

/- The last value of a stream. -/
@[simp] theorem read_encode
    (c : Codec α)
    (x : α) :
    c.read (c.encode x) = some (x, []) := by
  have h := c.read_append x []
  rwa [List.append_nil] at h

/- A single byte. -/
def byte : Codec UInt8 where
  width := 1
  encode := fun b => [b]
  decode := fun bytes => bytes.headD 0
  length_encode := fun _ => rfl
  decode_encode := fun _ => rfl

/- An array of bytes. -/
def array (n : Nat) : Codec (Vector UInt8 n) where
  width := n
  encode := Vector.toList
  decode := fun bytes =>
    Vector.ofFn (fun i => bytes.getD i.val 0)
  length_encode := fun v => by simp
  decode_encode := fun v => by
    apply Vector.ext
    intro i hi
    simp [List.getD_eq_getElem?_getD]

/- Numbers in network order. -/
def uint16 : Codec UInt16 where
  width := 2
  encode := fun x => Endian.encode 2 x.toNat
  decode := fun bytes => UInt16.ofNat (Endian.decode bytes)
  length_encode := fun _ => Endian.length_encode _ _
  decode_encode := fun x => by
    rw [Endian.decode_encode x.toNat_lt, UInt16.ofNat_toNat]

def uint32 : Codec UInt32 where
  width := 4
  encode := fun x => Endian.encode 4 x.toNat
  decode := fun bytes => UInt32.ofNat (Endian.decode bytes)
  length_encode := fun _ => Endian.length_encode _ _
  decode_encode := fun x => by
    rw [Endian.decode_encode x.toNat_lt, UInt32.ofNat_toNat]

/- The bytes of a value in the opposite order. -/
def reversed (c : Codec α) : Codec α where
  width := c.width
  encode := fun x => (c.encode x).reverse
  decode := fun bytes => c.decode bytes.reverse
  length_encode := fun x => by simp
  decode_encode := fun x => by
    rw [List.reverse_reverse, c.decode_encode]

end Codec

----------
-- Frames
----------

/- How a reader cuts a stream into messages. -/
structure Frame (η : Type) where
  size : Nat
  parse : List UInt8 → Option η
  body : η → Nat
  size_pos : 0 < size

namespace Frame

variable {η : Type} (f : Frame η)

/- Read a header and the body that it announces. -/
def readOne (stream : List UInt8) :
    Option ((η × List UInt8) × List UInt8) := do
  let (bytes, stream) ← take f.size stream
  let header ← f.parse bytes
  let (body, stream) ← take (f.body header) stream
  some ((header, body), stream)

/- Read at most `n` messages. -/
def readUpTo : Nat → List UInt8 →
    List (η × List UInt8) × List UInt8
| 0, stream => ([], stream)
| n + 1, stream =>
    match f.readOne stream with
    | none => ([], stream)
    | some (m, rest) =>
        let (ms, left) := readUpTo n rest
        (m :: ms, left)

/-
  Read while whole messages are there. The rest waits for
  the bytes that are missing.
-/
def readAll (stream : List UInt8) :
    List (η × List UInt8) × List UInt8 :=
  f.readUpTo stream.length stream

/- The bytes are those of a message. -/
structure Carries
    (m : η × List UInt8)
    (bytes : List UInt8) :
    Prop where
  parse : f.parse (bytes.take f.size) = some m.1
  body : bytes.drop f.size = m.2
  length : bytes.length = f.size + f.body m.1

variable {f}

theorem readOne_of_carries
    {m : η × List UInt8}
    {bytes : List UInt8}
    (h : f.Carries m bytes)
    (rest : List UInt8) :
    f.readOne (bytes ++ rest) = some (m, rest) := by
  have hLength := h.length
  have hHead : (bytes.take f.size).length = f.size := by
    rw [List.length_take]
    omega
  have hBody : m.2.length = f.body m.1 := by
    rw [← h.body, List.length_drop]
    omega
  have hSplit :
      bytes ++ rest = bytes.take f.size ++ (m.2 ++ rest) := by
    rw [← h.body, ← List.append_assoc, List.take_append_drop]
  rw [hSplit, readOne, take_append hHead]
  simp only [Option.bind_eq_bind, Option.bind_some, h.parse]
  rw [take_append hBody, Option.bind_some]

variable {ms : List (η × List UInt8)}
variable {parts : List (List UInt8)}

/- A reader that may read more messages than there are. -/
theorem readUpTo_of_carries
    (h : List.Forall₂ f.Carries ms parts)
    {n : Nat}
    (hn : parts.flatten.length ≤ n) :
    f.readUpTo n parts.flatten = (ms, []) := by
  induction h generalizing n with
  | nil =>
      cases n with
      | zero => rfl
      | succ n =>
          have hShort : take f.size [] = none := if_pos f.size_pos
          simp [readUpTo, readOne, hShort]
  | @cons m bytes ms parts hFirst hRest ih =>
      rw [List.flatten_cons, List.length_append,
        hFirst.length] at hn
      have hPos := f.size_pos
      cases n with
      | zero => omega
      | succ n =>
          rw [List.flatten_cons, readUpTo,
            readOne_of_carries hFirst]
          simp only [ih (n := n) (by omega)]

theorem readAll_of_carries
    (h : List.Forall₂ f.Carries ms parts) :
    f.readAll parts.flatten = (ms, []) :=
  readUpTo_of_carries h (Nat.le_refl _)

/- The same for a writer that may fail, but does not. -/
theorem readAll_of_write
    {α : Type}
    {write : α → Option (List UInt8)}
    {message : α → η × List UInt8}
    {xs : List α}
    (h :
      ∀ x ∈ xs, ∃ bytes,
        write x = some bytes ∧ f.Carries (message x) bytes) :
    ∃ parts,
      xs.mapM write = some parts ∧
        f.readAll parts.flatten = (xs.map message, []) := by
  have hParts :
      ∃ parts,
        xs.mapM write = some parts ∧
          List.Forall₂ f.Carries (xs.map message) parts := by
    induction xs with
    | nil => exact ⟨[], rfl, .nil⟩
    | cons x xs ih =>
        rcases h x List.mem_cons_self with
          ⟨bytes, hWrite, hCarries⟩
        rcases ih (fun y hy => h y (List.mem_cons_of_mem _ hy))
          with ⟨parts, hRest, hAll⟩
        refine ⟨bytes :: parts, ?_, .cons hCarries hAll⟩
        rw [List.mapM_cons, hWrite, hRest]
        rfl
  rcases hParts with ⟨parts, hWritten, hAll⟩
  exact ⟨parts, hWritten, readAll_of_carries hAll⟩

end Frame

end Wire

end Slfs
