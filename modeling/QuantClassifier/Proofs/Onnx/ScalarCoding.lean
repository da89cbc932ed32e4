import QuantClassifier.Onnx.Decode
import QuantClassifier.Onnx.Encode
import QuantClassifier.Proofs.Binary.LittleEndian
import QuantClassifier.Proofs.Wire.Reading

/-!
# Scalars are read back

What a field of scalars may hold is a single value of its type (`Scalar.isOne`) or, where it is
repeated, all of its numbers or one of its texts (`Scalar.isEntry`). Either is read back from the
record that it is written in, floats with all their bits, and nothing else is ever read.
-/

namespace QuantClassifier.Onnx

open Wire

namespace Scalar

/-- A varint of the type can stand for the number. -/
def holdsInt (s : Scalar) (n : Int) : Bool :=
  match s with
  | int32 => -2 ^ 31 ≤ n && n < 2 ^ 31
  | int64 => -2 ^ 63 ≤ n && n < 2 ^ 63
  | uint64 => 0 ≤ n && n < 2 ^ 64
  | _ => false

/-- The bytes are a text, where the type is that of texts. -/
def holdsBytes (s : Scalar) (b : Bytes) : Bool :=
  match s with
  | string => (Text.decodeUtf8? b).isSome
  | bytes => true
  | _ => false

/-- A single value of the type. -/
def isOne (s : Scalar) : Value → Bool
  | .int n => s.holdsInt n
  | .float _ => s = .float
  | .double _ => s = .double
  | .bytes b => s.holdsBytes b
  | _ => false

/-- A value of a repeated field of the type: all of its numbers, of which there are some, or one of
its texts. -/
def isEntry (s : Scalar) : Value → Bool
  | .ints ns => !ns.isEmpty && ns.all s.holdsInt
  | .floats xs => s = .float && !xs.isEmpty
  | .doubles xs => s = .double && !xs.isEmpty
  | .bytes b => s.holdsBytes b
  | _ => false

variable {s : Scalar} {v w : Value} {n : Int} {payload : Bytes}

theorem ofVarint_int32 (n : Nat) : int32.ofVarint n = Int.bmod n 0x100000000 := rfl

theorem ofVarint_int64 (n : Nat) : int64.ofVarint n = Int.bmod n 0x10000000000000000 := rfl

theorem ofVarint_uint64 (n : Nat) : uint64.ofVarint n = n := rfl

theorem wireType_of_holdsInt (h : s.holdsInt n = true) : s.wireType = .varint := by
  cases s with
  | int32 | int64 | uint64 => rfl
  | _ => cases h

theorem read?_of_varint (hs : s.wireType = .varint) (payload : Bytes) :
    s.read? payload = (Varint.read payload).map fun t => .int (s.ofVarint t.value) := by
  cases s with
  | int32 | int64 | uint64 => rfl
  | _ => cases hs

theorem readPacked?_of_varint (hs : s.wireType = .varint) (payload : Bytes) :
    s.readPacked? payload = (readVarints payload).map fun ns => .ints (ns.map s.ofVarint) := by
  cases s with
  | int32 | int64 | uint64 => rfl
  | _ => cases hs

/-! ## What is written is read back -/

/-- A number is kept by 64 bits in two's complement. -/
theorem ofVarint_of_holdsInt (h : s.holdsInt n = true) :
    s.ofVarint (n % 0x10000000000000000).toNat = n := by
  have hnonneg : 0 ≤ n % 0x10000000000000000 := Int.emod_nonneg n (by decide)
  cases s with
  | int32 =>
    have hn : -2 ^ 31 ≤ n ∧ n < 2 ^ 31 := by simpa [holdsInt] using h
    rw [ofVarint_int32, Int.toNat_of_nonneg hnonneg, Int.bmod_def]
    split <;> omega
  | int64 =>
    have hn : -2 ^ 63 ≤ n ∧ n < 2 ^ 63 := by simpa [holdsInt] using h
    rw [ofVarint_int64, Int.toNat_of_nonneg hnonneg, Int.bmod_def]
    split <;> omega
  | uint64 =>
    have hn : 0 ≤ n ∧ n < 2 ^ 64 := by simpa [holdsInt] using h
    rw [ofVarint_uint64, Int.toNat_of_nonneg hnonneg]
    omega
  | _ => cases h

theorem read_encodeInt (n : Int) (rest : Bytes) : ∃ raw,
    Varint.read (encodeInt n ++ rest) = some ⟨(n % 0x10000000000000000).toNat, raw, rest⟩ :=
  ⟨_, Varint.read_encode (by omega) rest⟩

theorem readVarints_flatMap (ns : List Int) :
    readVarints (ns.flatMap encodeInt) =
      some (ns.map fun n => (n % 0x10000000000000000).toNat) := by
  induction ns with
  | nil => rw [List.flatMap_nil, readVarints, if_pos List.isEmpty_nil, List.map_nil]
  | cons n ns ih =>
    obtain ⟨raw, hread⟩ := read_encodeInt n (ns.flatMap encodeInt)
    have hne : ¬ (encodeInt n ++ ns.flatMap encodeInt).isEmpty = true := by
      simp [encodeInt, Varint.encode_ne_nil]
    rw [List.flatMap_cons, readVarints, if_neg hne]
    split
    · next hnone =>
      rw [hnone] at hread
      cases hread
    · next t ht =>
      cases ht.symm.trans hread
      rw [ih]
      rfl

/-- A single value is read back from its record. -/
theorem read?_record (h : s.isOne v = true) (number : Nat) :
    (v.record number).wireType = s.wireType ∧ s.read? (v.record number).payload = some v := by
  cases v with
  | int n =>
    obtain ⟨raw, hread⟩ := read_encodeInt n []
    rw [List.append_nil] at hread
    have hs := wireType_of_holdsInt h
    refine ⟨hs.symm, ?_⟩
    change s.read? (encodeInt n) = _
    rw [read?_of_varint hs, hread, Option.map_some, ofVarint_of_holdsInt h]
  | float x =>
    have hs : s = .float := by simpa [isOne] using h
    subst hs
    have hbits := LittleEndian.toNat_ofNat x.toBits_single_lt
    refine ⟨rfl, congrArg (fun x => some (Value.float x)) ?_⟩
    exact (congrArg Binary.ofBits hbits).trans (Binary.ofBits_toBits x)
  | double x =>
    have hs : s = .double := by simpa [isOne] using h
    subst hs
    have hbits := LittleEndian.toNat_ofNat x.toBits_double_lt
    refine ⟨rfl, congrArg (fun x => some (Value.double x)) ?_⟩
    exact (congrArg Binary.ofBits hbits).trans (Binary.ofBits_toBits x)
  | bytes b =>
    cases s with
    | string => exact ⟨rfl, if_pos h⟩
    | bytes => exact ⟨rfl, rfl⟩
    | _ => cases h
  | _ => cases h

/-- A text is the same by itself and in a repeated field. -/
theorem isEntry_iff_isOne (hs : s.isDelimited = true) :
    s.isEntry v = true ↔ s.isOne v = true := by
  cases s with
  | string | bytes =>
    cases v with
    | ints ns => cases ns <;> simp [isEntry, isOne, holdsInt]
    | _ => simp [isEntry, isOne, holdsInt]
  | _ => cases hs

/-- Floats of one width are read back from their bytes. -/
theorem numbers?_floats {fmt : Format} {width : Nat} (hwidth : 0 < width)
    (hlt : ∀ x : Binary fmt, x.toBits < 256 ^ width) (make : List (Binary fmt) → Value)
    (xs : List (Binary fmt)) :
    (LittleEndian.numbers? width (xs.flatMap fun x => LittleEndian.ofNat width x.toBits)).map
      (fun ns => make (ns.map Binary.ofBits)) = some (make xs) := by
  have hread : LittleEndian.numbers? width
      ((xs.map Binary.toBits).flatMap (LittleEndian.ofNat width)) = some (xs.map Binary.toBits) := by
    apply LittleEndian.numbers?_flatMap hwidth
    intro n hn
    obtain ⟨x, -, rfl⟩ := List.mem_map.1 hn
    exact hlt x
  have hback : (Binary.ofBits ∘ Binary.toBits : Binary fmt → Binary fmt) = id :=
    funext Binary.ofBits_toBits
  rw [List.flatMap_map] at hread
  rw [hread, Option.map_some, List.map_map, hback, List.map_id]

/-- All numbers of a field are read back from their record. -/
theorem readPacked?_record (h : s.isEntry v = true) (hs : s.isDelimited = false) (number : Nat) :
    (v.record number).wireType = .lengthDelimited ∧
      s.readPacked? (v.record number).payload = some v ∧ v.isDefault = false := by
  cases v with
  | ints ns =>
    obtain ⟨hne, hall⟩ : ns.isEmpty = false ∧ ∀ n ∈ ns, s.holdsInt n = true := by
      simpa [isEntry] using h
    have hback : (ns.map fun n => (n % 0x10000000000000000).toNat).map s.ofVarint = ns := by
      rw [List.map_map]
      exact (List.map_congr_left fun n hn => ofVarint_of_holdsInt (hall n hn)).trans ns.map_id
    obtain ⟨n, hn⟩ := List.exists_mem_of_ne_nil ns (by simpa using hne)
    have hvarint := wireType_of_holdsInt (hall n hn)
    refine ⟨rfl, ?_, hne⟩
    change s.readPacked? (ns.flatMap encodeInt) = _
    rw [readPacked?_of_varint hvarint, readVarints_flatMap, Option.map_some, hback]
  | floats xs =>
    obtain ⟨rfl, hne⟩ : s = .float ∧ xs.isEmpty = false := by simpa [isEntry] using h
    exact ⟨rfl, numbers?_floats (by decide) Binary.toBits_single_lt .floats xs, hne⟩
  | doubles xs =>
    obtain ⟨rfl, hne⟩ : s = .double ∧ xs.isEmpty = false := by simpa [isEntry] using h
    exact ⟨rfl, numbers?_floats (by decide) Binary.toBits_double_lt .doubles xs, hne⟩
  | bytes b =>
    cases s with
    | string => cases hs
    | bytes => cases hs
    | _ => cases h
  | _ => cases h

/-! ## What is read is of the type -/

/-- A varint of 64 bits stands for a number of its type. -/
theorem holdsInt_ofVarint {n : Nat} (hs : s.wireType = .varint) (hn : n < 2 ^ 64) :
    s.holdsInt (s.ofVarint n) = true := by
  cases s with
  | int32 =>
    rw [ofVarint_int32, Int.bmod_def, holdsInt, Bool.and_eq_true, decide_eq_true_eq,
      decide_eq_true_eq]
    split <;> omega
  | int64 =>
    rw [ofVarint_int64, Int.bmod_def, holdsInt, Bool.and_eq_true, decide_eq_true_eq,
      decide_eq_true_eq]
    split <;> omega
  | uint64 =>
    rw [ofVarint_uint64, holdsInt, Bool.and_eq_true, decide_eq_true_eq, decide_eq_true_eq]
    omega
  | _ => cases hs

theorem isOne_of_read? (h : s.read? payload = some v) : s.isOne v = true := by
  by_cases hs : s.wireType = .varint
  · rw [read?_of_varint hs] at h
    obtain ⟨t, ht, rfl⟩ := Option.map_eq_some_iff.1 h
    exact holdsInt_ofVarint hs (Varint.read_value_lt ht)
  · cases s with
    | float | double | bytes =>
      cases h
      rfl
    | string =>
      rw [read?] at h
      split at h
      · next htext =>
        cases h
        exact htext
      · cases h
    | _ => exact absurd rfl hs

theorem isEntry_of_readElement? (h : s.readElement? payload = some v) : s.isEntry v = true := by
  unfold readElement? at h
  split at h
  · next n hread =>
    cases h
    simpa [isEntry, isOne] using isOne_of_read? hread
  · next x hread =>
    cases h
    simpa [isEntry, isOne] using isOne_of_read? hread
  · next x hread =>
    cases h
    simpa [isEntry, isOne] using isOne_of_read? hread
  · next hint hfloat hdouble =>
    have hone := isOne_of_read? h
    cases v with
    | int n => exact absurd h (hint n)
    | float x => exact absurd h (hfloat x)
    | double x => exact absurd h (hdouble x)
    | bytes b => exact hone
    | _ => cases hone

theorem readVarints_lt {ns : List Nat} (h : readVarints payload = some ns) :
    ∀ n ∈ ns, n < 2 ^ 64 := by
  fun_induction readVarints payload generalizing ns with
  | case1 =>
    cases h
    nofun
  | case2 => cases h
  | case3 input hne t ht ih =>
    obtain ⟨ns', hns', rfl⟩ := Option.map_eq_some_iff.1 h
    exact List.forall_mem_cons.2 ⟨Varint.read_value_lt ht, ih hns'⟩

theorem isEntry_of_readPacked? (h : s.readPacked? payload = some v)
    (hdefault : v.isDefault = false) : s.isEntry v = true := by
  by_cases hs : s.wireType = .varint
  · rw [readPacked?_of_varint hs] at h
    obtain ⟨ns, hns, rfl⟩ := Option.map_eq_some_iff.1 h
    have hall : ∀ n ∈ ns, s.holdsInt (s.ofVarint n) = true :=
      fun n hn => holdsInt_ofVarint hs (readVarints_lt hns n hn)
    simpa [isEntry, Value.isDefault] using And.intro hdefault hall
  · cases s with
    | float | double =>
      obtain ⟨ns, hns, rfl⟩ := Option.map_eq_some_iff.1 h
      simpa [isEntry, Value.isDefault] using hdefault
    | string | bytes => cases h
    | _ => exact absurd rfl hs

theorem isEntry_append (hv : s.isEntry v = true) (hw : s.isEntry w = true) :
    s.isEntry (w.append v) = true := by
  cases v <;> cases w <;> try exact hv
  case ints.ints ns ns' =>
    simp only [isEntry, Value.append, Bool.and_eq_true, List.all_append] at hv hw ⊢
    refine ⟨?_, hw.2, hv.2⟩
    cases ns' with
    | nil => cases hw.1
    | cons n ns' => rfl
  all_goals simp_all [isEntry, Value.append]
end Scalar

end QuantClassifier.Onnx
