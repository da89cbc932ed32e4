import QuantClassifier.Text.Utf8

/-!
# Chunks of PNG files

A chunk is the length of its data, its type, its data and a checksum. Its type is four letters.
-/

namespace QuantClassifier.Png

/-- The number that bytes stand for, the most significant byte first. -/
def bigEndian (bytes : List UInt8) : Nat := bytes.foldl (fun n b => n * 256 + b.toNat) 0

/-- A number of bytes and what follows them. -/
def take? (n : Nat) (bytes : List UInt8) : Option (List UInt8 × List UInt8) :=
  if n ≤ bytes.length then some (bytes.take n, bytes.drop n) else none

theorem length_of_take? {n : Nat} {bytes front rest : List UInt8}
    (h : take? n bytes = some (front, rest)) : rest.length + n = bytes.length := by
  unfold take? at h
  split at h
  · next hn =>
    simp only [Option.some.injEq, Prod.mk.injEq] at h
    rw [← h.2, List.length_drop]
    omega
  · simp at h

/-- One bit of the checksum's polynomial division. -/
def checksumBit (c : UInt32) : UInt32 :=
  if c &&& 1 = 1 then (c >>> 1) ^^^ 0xEDB88320 else c >>> 1

/-- One byte of the checksum. -/
def checksumByte (c : UInt32) (b : UInt8) : UInt32 :=
  Nat.repeat checksumBit 8 (c ^^^ b.toUInt32)

/-- The cyclic redundancy check of 32 bits. -/
def checksum (bytes : List UInt8) : UInt32 :=
  bytes.foldl checksumByte 0xFFFFFFFF ^^^ 0xFFFFFFFF

/-- A chunk: its type and its data. -/
structure Chunk where
  type : List UInt8
  data : List UInt8
  deriving DecidableEq

/-- The type of the chunk that bytes start with. -/
def chunkType? (bytes : List UInt8) : Option (List UInt8) := do
  let (lead, _) ← take? 8 bytes
  return lead.drop 4

namespace Chunk

/-- A bit of the first letter of its type marks a chunk that a reader may do without. -/
def isAncillary (c : Chunk) : Bool := c.type.head?.any fun b => b &&& 32 ≠ 0

/-- The checksum holds. It does not count for a chunk that a reader may do without. -/
def accepts (c : Chunk) (sum : Nat) : Bool :=
  c.isAncillary || sum = (checksum (c.type ++ c.data)).toNat

end Chunk

/-- The chunk that bytes start with, if it is whole and its checksum is accepted. -/
def readChunk? (bytes : List UInt8) : Option (Chunk × List UInt8) :=
  match take? 8 bytes with
  | none => none
  | some (lead, rest) =>
    match take? (bigEndian (lead.take 4)) rest with
    | none => none
    | some (data, rest) =>
      match take? 4 rest with
      | none => none
      | some (sum, rest) =>
        if Chunk.accepts ⟨lead.drop 4, data⟩ (bigEndian sum) then some (⟨lead.drop 4, data⟩, rest)
        else none

theorem length_of_readChunk? {bytes rest : List UInt8} {c : Chunk}
    (h : readChunk? bytes = some (c, rest)) : rest.length < bytes.length := by
  unfold readChunk? at h
  split at h
  · simp at h
  · next h₁ =>
    split at h
    · simp at h
    · next h₂ =>
      split at h
      · simp at h
      · next h₃ =>
        split at h
        · simp only [Option.some.injEq, Prod.mk.injEq] at h
          have := length_of_take? h₁
          have := length_of_take? h₂
          have := length_of_take? h₃
          rw [← h.2]
          omega
        · simp at h

/-- The chunks that a reader of images looks at. -/
inductive ChunkKind where
  | header
  | palette
  | data
  | finish
  | transparency
  | density
  | gamma
  | chromaticities
  | intent
  | animation
  | frame
  | frameData
  deriving DecidableEq, Repr

namespace ChunkKind

/-- The letters of a kind. -/
def letters : ChunkKind → String
  | header => "IHDR"
  | palette => "PLTE"
  | data => "IDAT"
  | finish => "IEND"
  | transparency => "tRNS"
  | density => "pHYs"
  | gamma => "gAMA"
  | chromaticities => "cHRM"
  | intent => "sRGB"
  | animation => "acTL"
  | frame => "fcTL"
  | frameData => "fdAT"

/-- All kinds. -/
def all : List ChunkKind :=
  [header, palette, data, finish, transparency, density, gamma, chromaticities, intent, animation,
    frame, frameData]

/-- The kind of a type. -/
def ofType? (type : List UInt8) : Option ChunkKind :=
  all.find? fun k => Text.encodeUtf8 k.letters = type

end ChunkKind

/-- The kind of a chunk. -/
def Chunk.kind? (c : Chunk) : Option ChunkKind := ChunkKind.ofType? c.type

end QuantClassifier.Png
