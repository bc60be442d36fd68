import Mathlib.Data.Nat.Bitwise
import Mathlib.Tactic.Ring

/-! # Bit strings

The low bits of a number, the lowest first, and the number that a bit string stands for.  A writer
that packs bits into bytes and a reader that takes them out again both hold a few bits in a buffer;
`bits_or_shift` says what the buffer stands for when a field is put on top of it.
-/

namespace BitString

open List Nat

variable (count n : Nat)

def bits : Nat → Nat → List Bool
  | 0, _ => []
  | count + 1, n => (n % 2 == 1) :: bits count (n / 2)

def value : List Bool → Nat
  | [] => 0
  | b :: word => b.toNat + 2 * value word

def byteBits (bytes : List UInt8) : List Bool := bytes.flatMap fun byte => bits 8 byte.toNat

@[simp] theorem bits_length : (bits count n).length = count := by
  induction count generalizing n with
  | zero => rfl
  | succ count ih => rw [bits, length_cons, ih]

theorem value_bits : value (bits count n) = n % 2 ^ count := by
  induction count generalizing n with
  | zero => rw [bits, value, pow_zero, mod_one]
  | succ count ih =>
    have hbit : (n % 2 == 1).toNat = n % 2 := by
      rcases mod_two_eq_zero_or_one n with h | h
      all_goals rw [h]; rfl
    rw [bits, value, ih, hbit, pow_succ', mod_mul]

theorem value_bits_of_lt {count n : Nat} (h : n < 2 ^ count) : value (bits count n) = n := by
  rw [value_bits, mod_eq_of_lt h]

theorem bits_add (more n : Nat) :
    bits (count + more) n = bits count n ++ bits more (n / 2 ^ count) := by
  induction count generalizing n with
  | zero => rw [Nat.zero_add, bits, nil_append, pow_zero, Nat.div_one]
  | succ count ih =>
    rw [Nat.add_right_comm, bits, ih, bits, cons_append, Nat.div_div_eq_div_mul, pow_succ']

theorem bits_mod : bits count (n % 2 ^ count) = bits count n := by
  induction count generalizing n with
  | zero => rfl
  | succ count ih =>
    have hlow : n % 2 ^ (count + 1) % 2 = n % 2 := by rw [pow_succ', mod_mul_right_mod]
    have hhigh : n % 2 ^ (count + 1) / 2 = n / 2 % 2 ^ count := by
      rw [pow_succ', mod_mul_right_div_self]
    rw [bits, bits, hlow, hhigh, ih]

theorem value_lt (word : List Bool) : value word < 2 ^ word.length := by
  induction word with
  | nil => exact one_pos
  | cons b word ih =>
    have hb : b.toNat < 2 := Bool.toNat_lt b
    rw [value, length_cons, pow_succ']
    omega

theorem value_append (front back : List Bool) :
    value (front ++ back) = value front + 2 ^ front.length * value back := by
  induction front with
  | nil => rw [nil_append, value, length_nil, pow_zero, one_mul, zero_add]
  | cons b front ih =>
    rw [cons_append, value, value, ih, length_cons]
    ring

theorem bits_value (word : List Bool) : bits word.length (value word) = word := by
  induction word with
  | nil => rfl
  | cons b word ih =>
    have hbit : ((b.toNat + 2 * value word) % 2 == 1) = b := by
      rw [add_mul_mod_self_left]
      cases b <;> rfl
    have hrest : (b.toNat + 2 * value word) / 2 = value word := by
      have hb : b.toNat < 2 := Bool.toNat_lt b
      omega
    rw [value, length_cons, bits, hbit, hrest, ih]

theorem bits_or_shift {count more n field : Nat} (hn : n < 2 ^ count) :
    bits (count + more) (n ||| field <<< count) = bits count n ++ bits more field := by
  have hsum : n ||| field <<< count = 2 ^ count * field + n := by
    rw [Nat.or_comm, Nat.shiftLeft_eq, Nat.mul_comm, Nat.two_pow_add_eq_or_of_lt hn]
  rw [bits_add, hsum, ← bits_mod count (2 ^ count * field + n), mul_add_mod,
    Nat.mod_eq_of_lt hn, Nat.mul_add_div (Nat.two_pow_pos count), Nat.div_eq_of_lt hn, Nat.add_zero]

theorem or_shift_lt {count more n field : Nat} (hn : n < 2 ^ count) (hfield : field < 2 ^ more) :
    n ||| field <<< count < 2 ^ (count + more) := by
  have hlow : n < 2 ^ (count + more) := hn.trans_le (Nat.pow_le_pow_right (by omega) (by omega))
  have hhigh : field <<< count < 2 ^ (count + more) := by
    rw [shiftLeft_eq, pow_add, mul_comm]
    exact Nat.mul_lt_mul_of_pos_left hfield (Nat.two_pow_pos count)
  exact or_lt_two_pow hlow hhigh

@[simp] theorem byteBits_nil : byteBits [] = [] := rfl

theorem byteBits_cons (byte : UInt8) (bytes : List UInt8) :
    byteBits (byte :: bytes) = bits 8 byte.toNat ++ byteBits bytes := rfl

theorem byteBits_append (front back : List UInt8) :
    byteBits (front ++ back) = byteBits front ++ byteBits back := flatMap_append

theorem byteBits_singleton : byteBits [UInt8.ofNat (n % 256)] = bits 8 n := by
  have hbyte : (UInt8.ofNat (n % 256)).toNat = n % 2 ^ 8 := by
    rw [UInt8.toNat_ofNat']
    exact mod_mod n 256
  rw [byteBits_cons, byteBits_nil, append_nil, hbyte, bits_mod]

theorem byteBits_length (bytes : List UInt8) : (byteBits bytes).length = 8 * bytes.length := by
  induction bytes with
  | nil => rfl
  | cons byte bytes ih =>
    rw [byteBits_cons, length_append, bits_length, ih, length_cons]
    omega

theorem byteBits_split {front bytes : List UInt8} {rest : List Bool}
    (h : byteBits bytes = byteBits front ++ rest) :
    ∃ back, bytes = front ++ back ∧ byteBits back = rest := by
  induction front generalizing bytes with
  | nil => exact ⟨bytes, rfl, h⟩
  | cons byte front ih =>
    rcases bytes with _ | ⟨first, bytes⟩
    · have hlength := congrArg List.length h
      rw [byteBits_cons, length_append, length_append, bits_length, byteBits_nil,
        length_nil] at hlength
      omega
    rw [byteBits_cons, byteBits_cons, append_assoc] at h
    obtain ⟨hbits, hrest⟩ := append_inj h (by rw [bits_length, bits_length])
    have hvalues := congrArg value hbits
    rw [value_bits_of_lt first.toNat_lt, value_bits_of_lt byte.toNat_lt] at hvalues
    obtain ⟨back, hback, hbackBits⟩ := ih hrest
    exact ⟨back, by rw [UInt8.toNat_inj.mp hvalues, hback]; rfl, hbackBits⟩

theorem byteBits_inj {bytes other : List UInt8} (h : byteBits bytes = byteBits other) :
    bytes = other := by
  rw [← append_nil (byteBits other)] at h
  obtain ⟨back, hback, hnil⟩ := byteBits_split h
  have hlength := congrArg List.length hnil
  rw [byteBits_length, length_nil] at hlength
  have hnone : back = [] := length_eq_zero_iff.mp (by omega)
  rw [hback, hnone, append_nil]

end BitString
