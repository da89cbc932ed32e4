import QuantClassifier.Binary.LittleEndian
import QuantClassifier.Onnx.Message

/-!
# Encoding messages

Every present field is written, by ascending number, each as a record in its shortest form. Numbers
are written in 64 bit two's complement, repeated numbers in one packed record.
-/

namespace QuantClassifier.Onnx

open Wire (Bytes Record Varint.encode)

/-- The varint of a number in 64 bit two's complement. -/
def encodeInt (n : Int) : Bytes := Varint.encode (n % 0x10000000000000000).toNat

mutual

/-- The record of a value under a field number. -/
def Value.record (number : Nat) : Value → Record
  | .int n => .plain number .varint (encodeInt n)
  | .float x => .plain number .thirtyTwoBit (LittleEndian.ofNat 4 x.toBits)
  | .double x => .plain number .sixtyFourBit (LittleEndian.ofNat 8 x.toBits)
  | .bytes b => .delimited number b
  | .ints ns => .delimited number (ns.flatMap encodeInt)
  | .floats xs => .delimited number (xs.flatMap fun x => LittleEndian.ofNat 4 x.toBits)
  | .doubles xs => .delimited number (xs.flatMap fun x => LittleEndian.ofNat 8 x.toBits)
  | .message m => .delimited number (Record.writeAll (fieldRecords m))

/-- The records of the fields of a message. -/
def fieldRecords : List (Nat × Value) → List Record
  | [] => []
  | (number, v) :: m => v.record number :: fieldRecords m

end

/-- The encoding of a message. -/
def encode (m : Message) : Bytes := Record.writeAll (fieldRecords m)

end QuantClassifier.Onnx
