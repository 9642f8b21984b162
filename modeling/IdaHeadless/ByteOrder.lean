import Mathlib.Data.Nat.Notation
import Mathlib.Tactic.Common
import Mathlib.Tactic.Ring

/-!
# Fixed-width integers as bytes

The `w` bytes of a number, least significant first, and the number of a byte list; a number
and its bytes determine each other modulo `256 ^ w`. A big-endian list is the reverse. A
signed value is a number in two's complement.
-/

namespace IdaHeadless.ByteOrder

variable {w n : ℕ} {bs cs : List UInt8}

/- `to_le_bytes` of a number with `w` bytes. -/
def leBytes : ℕ → ℕ → List UInt8
  | 0, _ => []
  | w + 1, n => UInt8.ofNat (n % 256) :: leBytes w (n / 256)

/- `from_le_bytes`. -/
def ofLeBytes : List UInt8 → ℕ
  | [] => 0
  | b :: bs => b.toNat + 256 * ofLeBytes bs

@[simp] theorem length_leBytes (w n : ℕ) : (leBytes w n).length = w := by
  induction w generalizing n with
  | zero => rfl
  | succ w ih => rw [leBytes, List.length_cons, ih]

theorem ofLeBytes_leBytes (w n : ℕ) : ofLeBytes (leBytes w n) = n % 256 ^ w := by
  induction w generalizing n with
  | zero => simp [leBytes, ofLeBytes, Nat.mod_one]
  | succ w ih =>
    have hbyte : (UInt8.ofNat (n % 256)).toNat = n % 256 := by
      rw [UInt8.toNat_ofNat']
      exact Nat.mod_eq_of_lt (Nat.mod_lt n (by omega))
    rw [leBytes, ofLeBytes, ih, hbyte, Nat.pow_succ', Nat.mod_mul]

theorem leBytes_ofLeBytes (bs : List UInt8) : leBytes bs.length (ofLeBytes bs) = bs := by
  induction bs with
  | nil => rfl
  | cons b bs ih =>
    have hb : b.toNat < 256 := b.toNat_lt
    have hlow : (b.toNat + 256 * ofLeBytes bs) % 256 = b.toNat := by omega
    have hhigh : (b.toNat + 256 * ofLeBytes bs) / 256 = ofLeBytes bs := by omega
    rw [List.length_cons, ofLeBytes, leBytes, hlow, hhigh, ih, UInt8.ofNat_toNat]

theorem ofLeBytes_lt (bs : List UInt8) : ofLeBytes bs < 256 ^ bs.length := by
  have hround := ofLeBytes_leBytes bs.length (ofLeBytes bs)
  rw [leBytes_ofLeBytes] at hround
  rw [hround]
  exact Nat.mod_lt _ (Nat.pow_pos (by omega))

/- The first bytes of a longer encoding are a shorter one. -/
theorem take_leBytes (w k n : ℕ) : (leBytes (w + k) n).take w = leBytes w n := by
  induction w generalizing n with
  | zero => simp [leBytes]
  | succ w ih => rw [Nat.succ_add, leBytes, leBytes, List.take_succ_cons, ih]

theorem ofLeBytes_append (bs cs : List UInt8) :
    ofLeBytes (bs ++ cs) = ofLeBytes bs + 256 ^ bs.length * ofLeBytes cs := by
  induction bs with
  | nil => simp [ofLeBytes]
  | cons b bs ih =>
    rw [List.cons_append, ofLeBytes, ofLeBytes, ih, List.length_cons]
    ring

theorem ofLeBytes_zeros (k : ℕ) : ofLeBytes (List.replicate k 0) = 0 := by
  induction k with
  | zero => rfl
  | succ k ih => simp [List.replicate_succ, ofLeBytes, ih]

/- Padding behind the bytes, and in front of them, where it is shifted out. -/
theorem ofLeBytes_pad (bs : List UInt8) (k : ℕ) :
    ofLeBytes (bs ++ List.replicate k 0) = ofLeBytes bs := by
  rw [ofLeBytes_append, ofLeBytes_zeros, Nat.mul_zero, Nat.add_zero]

theorem ofLeBytes_pad_front (bs : List UInt8) (k : ℕ) :
    ofLeBytes (List.replicate k 0 ++ bs) >>> (8 * k) = ofLeBytes bs := by
  have hpow : (256 : ℕ) ^ k = 2 ^ (8 * k) := by
    rw [Nat.pow_mul]
  rw [ofLeBytes_append, ofLeBytes_zeros, List.length_replicate, Nat.zero_add,
    Nat.shiftRight_eq_div_pow, hpow, Nat.mul_div_cancel_left _ (Nat.pow_pos (by omega))]

/-! ### Two's complement -/

/-- The signed value of a number below `2 ^ bits`. -/
def toSigned (bits raw : ℕ) : Int :=
  if raw < 2 ^ (bits - 1) then (raw : Int) else (raw : Int) - 2 ^ bits

/-- The number of a value, modulo `2 ^ bits`. -/
def ofSigned (bits : ℕ) (v : Int) : ℕ := (v % 2 ^ bits).toNat

variable {bits raw : ℕ} {v : Int}

theorem two_pow_half (hb : 0 < bits) : (2 : Int) ^ bits = 2 * 2 ^ (bits - 1) := by
  obtain ⟨m, rfl⟩ : ∃ m, bits = m + 1 := ⟨bits - 1, by omega⟩
  rw [Nat.add_sub_cancel, Int.pow_succ, Int.mul_comm]

theorem ofSigned_cast (bits : ℕ) (v : Int) : (ofSigned bits v : Int) = v % 2 ^ bits := by
  have hpos : (2 : Int) ^ bits ≠ 0 := Int.ne_of_gt (Int.pow_pos (by omega))
  exact Int.toNat_of_nonneg (Int.emod_nonneg v hpos)

theorem ofSigned_lt (bits : ℕ) (v : Int) : ofSigned bits v < 2 ^ bits := by
  have hlt : v % 2 ^ bits < 2 ^ bits := Int.emod_lt_of_pos v (Int.pow_pos (by omega))
  have hcast : (ofSigned bits v : Int) < ((2 ^ bits : ℕ) : Int) := by
    rw [ofSigned_cast]
    simpa using hlt
  exact_mod_cast hcast

theorem ofSigned_natCast (h : raw < 2 ^ bits) : ofSigned bits (raw : Int) = raw := by
  have hmod : (raw : Int) % 2 ^ bits = raw := Int.emod_eq_of_lt (by omega) (by exact_mod_cast h)
  rw [ofSigned, hmod]
  simp

theorem ofSigned_mod {m : ℕ} (h : bits ≤ m) : ofSigned m v % 2 ^ bits = ofSigned bits v := by
  have hdvd : (2 : Int) ^ bits ∣ 2 ^ m := pow_dvd_pow 2 h
  have hcast : ((ofSigned m v % 2 ^ bits : ℕ) : Int) = (ofSigned bits v : Int) := by
    rw [Int.natCast_mod, ofSigned_cast, ofSigned_cast, Int.natCast_pow]
    exact Int.emod_emod_of_dvd v hdvd
  exact_mod_cast hcast

/- A value below zero is represented by its sum with the modulus. -/
theorem emod_of_neg (hneg : v < 0) (hge : -(2 ^ bits) ≤ v) : v % 2 ^ bits = v + 2 ^ bits := by
  have hself : (v + 2 ^ bits) % 2 ^ bits = v % 2 ^ bits := Int.add_emod_right v (2 ^ bits)
  rw [← hself]
  exact Int.emod_eq_of_lt (by omega) (by omega)

theorem toSigned_ofSigned (hb : 0 < bits) (hmin : -(2 ^ (bits - 1)) ≤ v)
    (hmax : v < 2 ^ (bits - 1)) : toSigned bits (ofSigned bits v) = v := by
  have hhalf := two_pow_half hb
  have hcast := ofSigned_cast bits v
  have hbound : (ofSigned bits v < 2 ^ (bits - 1)) ↔
      (ofSigned bits v : Int) < 2 ^ (bits - 1) := by exact_mod_cast Iff.rfl
  by_cases hneg : v < 0
  · have hmod := @emod_of_neg bits v hneg (by omega)
    have hhigh : ¬ ofSigned bits v < 2 ^ (bits - 1) := by
      rw [hbound]
      omega
    rw [toSigned, if_neg hhigh]
    omega
  · have hmod : v % 2 ^ bits = v := Int.emod_eq_of_lt (by omega) (by omega)
    have hlow : ofSigned bits v < 2 ^ (bits - 1) := by
      rw [hbound]
      omega
    rw [toSigned, if_pos hlow]
    omega

theorem toSigned_range (hb : 0 < bits) (h : raw < 2 ^ bits) :
    -(2 ^ (bits - 1)) ≤ toSigned bits raw ∧ toSigned bits raw < 2 ^ (bits - 1) := by
  have hhalf := two_pow_half hb
  have hraw : (raw : Int) < 2 ^ bits := by exact_mod_cast h
  have hpos : (0 : Int) < 2 ^ (bits - 1) := Int.pow_pos (by omega)
  by_cases hlow : raw < 2 ^ (bits - 1)
  · have hlt : (raw : Int) < 2 ^ (bits - 1) := by exact_mod_cast hlow
    rw [toSigned, if_pos hlow]
    omega
  · have hge : (2 : Int) ^ (bits - 1) ≤ raw := by exact_mod_cast Nat.le_of_not_lt hlow
    rw [toSigned, if_neg hlow]
    omega

theorem ofSigned_toSigned (h : raw < 2 ^ bits) : ofSigned bits (toSigned bits raw) = raw := by
  by_cases hlow : raw < 2 ^ (bits - 1)
  · rw [toSigned, if_pos hlow, ofSigned_natCast h]
  · have hmod : ((raw : Int) - 2 ^ bits) % 2 ^ bits = (raw : Int) % 2 ^ bits :=
      Int.sub_emod_right _ _
    rw [toSigned, if_neg hlow, ofSigned, hmod]
    exact ofSigned_natCast h

end IdaHeadless.ByteOrder
