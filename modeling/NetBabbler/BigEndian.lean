import Mathlib.Tactic

/-!
# Big-endian numbers

`toBE k n` is the number `n` in `k` bytes, most significant first, reduced modulo
`256 ^ k`; `ofBE` reads a number back. On numbers below `256 ^ k` and on byte strings of
length `k` they are inverse to each other (`ofBE_toBE`, `toBE_ofBE`).
-/

namespace BigEndian

/-- `n` in `k` bytes, most significant first. -/
def toBE : Nat → Nat → List UInt8
  | 0, _ => []
  | k + 1, n => UInt8.ofNat (n / 256 ^ k) :: toBE k n

/-- The number that the bytes spell. -/
def ofBE : List UInt8 → Nat
  | [] => 0
  | b :: bs => b.toNat * 256 ^ bs.length + ofBE bs

@[simp] theorem length_toBE : ∀ k n, (toBE k n).length = k
  | 0, _ => rfl
  | k + 1, n => by simp [toBE, length_toBE k n]

theorem ofBE_lt : ∀ bs, ofBE bs < 256 ^ bs.length
  | [] => by simp [ofBE]
  | b :: bs => by
    have hb : b.toNat + 1 ≤ 256 := b.toNat_lt
    have hbs := ofBE_lt bs
    calc b.toNat * 256 ^ bs.length + ofBE bs
        < b.toNat * 256 ^ bs.length + 256 ^ bs.length := by omega
      _ = (b.toNat + 1) * 256 ^ bs.length := by ring
      _ ≤ 256 * 256 ^ bs.length := Nat.mul_le_mul_right _ hb
      _ = 256 ^ (b :: bs).length := by rw [List.length_cons, pow_succ]; ring

/-- Reading back `k` bytes gives the number modulo `256 ^ k`. -/
theorem ofBE_toBE : ∀ k n, ofBE (toBE k n) = n % 256 ^ k
  | 0, n => by simp [toBE, ofBE, Nat.mod_one]
  | k + 1, n => by
    have hmod : n % 256 ^ (k + 1) = n % 256 ^ k + 256 ^ k * (n / 256 ^ k % 256) := Nat.mod_mul
    rw [toBE, ofBE, length_toBE, ofBE_toBE k n, UInt8.toNat_ofNat', hmod, Nat.mul_comm, Nat.add_comm]

theorem ofBE_toBE_of_lt {k n : Nat} (h : n < 256 ^ k) : ofBE (toBE k n) = n := by
  rw [ofBE_toBE, Nat.mod_eq_of_lt h]

/-- `toBE k` sees its number modulo `256 ^ k` only. -/
theorem toBE_mul_add : ∀ k a n, toBE k (a * 256 ^ k + n) = toBE k n
  | 0, _, _ => rfl
  | k + 1, a, n => by
    have hdiv : (a * 256 ^ (k + 1) + n) / 256 ^ k = n / 256 ^ k + a * 256 := by
      rw [pow_succ, ← Nat.mul_assoc, Nat.mul_right_comm, Nat.add_comm,
        Nat.add_mul_div_right _ _ (by positivity)]
    have hlow : toBE k (a * 256 ^ (k + 1) + n) = toBE k n := by
      rw [pow_succ, ← Nat.mul_assoc, Nat.mul_right_comm, toBE_mul_add k]
    rw [toBE, toBE, hdiv, hlow]
    congr 1
    rw [← UInt8.toNat_inj, UInt8.toNat_ofNat', UInt8.toNat_ofNat']
    omega

/-- Writing back a number read from bytes gives the bytes. -/
theorem toBE_ofBE : ∀ bs, toBE bs.length (ofBE bs) = bs
  | [] => rfl
  | b :: bs => by
    have hdiv : (b.toNat * 256 ^ bs.length + ofBE bs) / 256 ^ bs.length = b.toNat := by
      rw [Nat.add_comm, Nat.add_mul_div_right _ _ (by positivity), Nat.div_eq_of_lt (ofBE_lt bs),
        Nat.zero_add]
    rw [List.length_cons, toBE, ofBE, hdiv, toBE_mul_add, toBE_ofBE bs, UInt8.ofNat_toNat]

/-- Byte strings of one length are told apart by their numbers. -/
theorem ofBE_inj {as bs : List UInt8} (hlen : as.length = bs.length) (h : ofBE as = ofBE bs) :
    as = bs := by
  rw [← toBE_ofBE as, ← toBE_ofBE bs, h, hlen]

end BigEndian
