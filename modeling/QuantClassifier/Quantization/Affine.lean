import QuantClassifier.Quantization.Params

/-!
# Quantizing single values

The map from real to stored values in double precision, and the way back.
-/

namespace QuantClassifier.QuantParams

/-- The place of a real value among the stored ones, rounded to a whole number with ties to even. -/
def affine (p : QuantParams) (x : Single) : Double :=
  (x.toDouble / p.scale + Binary.ofInt p.zeroPoint).roundTiesEven

/-- The stored value of a real one, kept in a range; a NaN is stored as zero. -/
def quantize (p : QuantParams) (lo hi : Int) (x : Single) : Int :=
  ((p.affine x).clamp (Binary.ofInt lo) (Binary.ofInt hi)).truncate lo hi

/-- The real value of a stored one. The distance to the zero point is a 64 bit word. -/
def dequantize (p : QuantParams) (q : Int) : Single :=
  (Binary.ofInt (Int.bmod (q - p.zeroPoint) 0x10000000000000000) * p.scale).toSingle

end QuantClassifier.QuantParams
