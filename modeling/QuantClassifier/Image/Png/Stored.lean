/-!
# Stored streams

A compressed stream whose blocks are all stored as they are. What follows the stream does not count.
-/

namespace QuantClassifier.Png

/-- The contents of stored blocks up to the one that is marked as the last. Four bytes follow it,
which hold a checksum that is not looked at. -/
def storedBlocks? (bytes : List UInt8) : Option (List UInt8) :=
  match bytes with
  | mark :: low :: high :: low' :: high' :: rest =>
    let length := low.toNat + 256 * high.toNat
    let complement := low'.toNat + 256 * high'.toNat
    if mark &&& 6 = 0 ∧ length + complement = 65535 ∧ length ≤ rest.length then
      if mark &&& 1 = 1 then
        if length + 4 ≤ rest.length then some (rest.take length) else none
      else (storedBlocks? (rest.drop length)).map (rest.take length ++ ·)
    else none
  | _ => none
termination_by bytes.length
decreasing_by simp; omega

/-- The contents of a compressed stream, whose two bytes of header name the method and carry a
check. A preset dictionary is not known. -/
def contents? (bytes : List UInt8) : Option (List UInt8) :=
  match bytes with
  | method :: flags :: rest =>
    if method &&& 15 = 8 ∧ method.toNat / 16 ≤ 7 ∧ flags &&& 32 = 0 ∧
        (method.toNat * 256 + flags.toNat) % 31 = 0 then
      storedBlocks? rest
    else none
  | _ => none

end QuantClassifier.Png
