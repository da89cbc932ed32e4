import Mathlib.Algebra.Group.Int.Defs
import Mathlib.Algebra.Group.Nat.Defs
import QuantClassifier.Binary.Format
import QuantClassifier.Binary.LittleEndian

/-!
# Little-endian numbers are read back

Reading the low bytes of a number gives the number, if they hold all of it, also when many numbers of
one width stand behind each other (`numbers?_flatMap`). So floats are read back from their bytes, NaNs
with their payload.
-/

namespace QuantClassifier

namespace LittleEndian

theorem ofNat_succ (width n : Nat) :
    ofNat (width + 1) n = UInt8.ofNat n :: ofNat width (n / 256) := by
  unfold ofNat
  rw [List.range_succ_eq_map, List.map_cons, List.map_map]
  congr 1
  · rw [Nat.pow_eq, Nat.pow_zero, Nat.div_one]
  · apply List.map_congr_left
    intro i hi
    rw [Function.comp_apply, Nat.pow_eq, Nat.pow_eq, Nat.pow_succ', Nat.div_div_eq_div_mul]

@[simp] theorem length_ofNat (width n : Nat) : (ofNat width n).length = width := by
  simp [ofNat]

theorem toNat_ofNat {width n : Nat} (h : n < 256 ^ width) : toNat (ofNat width n) = n := by
  induction width generalizing n with
  | zero =>
    have hzero : n = 0 := Nat.lt_one_iff.1 h
    rw [hzero]
    rfl
  | succ width ih =>
    rw [Nat.pow_succ'] at h
    have hquotient : n / 256 < 256 ^ width := Nat.div_lt_of_lt_mul h
    calc toNat (ofNat (width + 1) n)
        = (UInt8.ofNat n).toNat + 256 * toNat (ofNat width (n / 256)) := by
          rw [ofNat_succ]
          rfl
      _ = n % 256 + 256 * (n / 256) := by rw [ih hquotient, UInt8.toNat_ofNat']
      _ = n := Nat.mod_add_div n 256

/-- Numbers of one width are read back one by one. -/
theorem numbers?_flatMap {width : Nat} {ns : List Nat} (hwidth : 0 < width)
    (h : ∀ n ∈ ns, n < 256 ^ width) : numbers? width (ns.flatMap (ofNat width)) = some ns := by
  induction ns with
  | nil =>
    rw [List.flatMap_nil, numbers?, if_pos List.isEmpty_nil]
  | cons n ns ih =>
    have hn := h n (List.mem_cons_self ..)
    have ih := ih fun n' hn' => h n' (List.mem_cons_of_mem _ hn')
    have hne : ¬ (ofNat width n ++ ns.flatMap (ofNat width)).isEmpty = true := by
      intro hempty
      have := congrArg List.length (List.isEmpty_iff.1 hempty)
      rw [List.length_append, length_ofNat, List.length_nil] at this
      omega
    have hwhole : ¬ (width = 0 ∨ (ofNat width n ++ ns.flatMap (ofNat width)).length < width) := by
      rw [List.length_append, length_ofNat]
      omega
    rw [List.flatMap_cons, numbers?, if_neg hne, if_neg hwhole,
      List.drop_left' (length_ofNat width n), List.take_left' (length_ofNat width n), ih,
      toNat_ofNat hn]
    rfl

end LittleEndian

namespace Binary

variable {fmt : Format}

theorem toBits_lt (x : Binary fmt) : x.toBits < 2 * fmt.magnitudeBound := by
  have hlt := x.magnitude_lt
  unfold toBits
  split <;> omega

theorem toBits_single_lt (x : Single) : x.toBits < 256 ^ 4 := x.toBits_lt

theorem toBits_double_lt (x : Double) : x.toBits < 256 ^ 8 := x.toBits_lt

end Binary

end QuantClassifier
