/-!
# Little-endian numbers

Numbers as bytes, the least significant byte first.
-/

namespace QuantClassifier.LittleEndian

/-- The number that bytes stand for. -/
def toNat (bytes : List UInt8) : Nat := bytes.foldr (fun b n => b.toNat + 256 * n) 0

/-- The low `width` bytes of a number. -/
def ofNat (width n : Nat) : List UInt8 :=
  (List.range width).map fun i => UInt8.ofNat (n / Nat.pow 256 i)

/-- The numbers that bytes stand for in groups of `width`; the last one must be whole. -/
def numbers? (width : Nat) (bytes : List UInt8) : Option (List Nat) :=
  if bytes.isEmpty then some []
  else if width = 0 ∨ bytes.length < width then none
  else (numbers? width (bytes.drop width)).map (toNat (bytes.take width) :: ·)
termination_by bytes.length
decreasing_by
  simp only [List.length_drop]
  omega

end QuantClassifier.LittleEndian
