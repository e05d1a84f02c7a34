import Mathlib.Tactic

/-!
# Byte limits

`cRequestor::isLimitReached` of `requestor.hpp`, in the 64-bit signed and 32-bit unsigned
arithmetic of the source. `toNat_clip` and `isLimitReached_open` are the same in natural
numbers, for the sizes that the settings let through : a message is cut so that it does
not exceed the rest and leaves either nothing or room for another one, except in the
branch that the source believes to be unreachable (`clip_lt_iff`).
-/

namespace NetBabbler

/-- `MIN_LEN` of `protocol.hpp`. -/
def MIN_LEN : UInt32 := 32

/-- An `unsigned` as an `int_fast64_t`. -/
def toFast (x : UInt32) : Int64 :=
  x.toUInt64.toInt64

/-- An `int_fast64_t` stored into an `unsigned`. -/
def toUnsigned (v : Int64) : UInt32 :=
  v.toUInt64.toUInt32

/-- `toBeSentReceived` before it is compared with `MIN_LEN`. -/
def clip (rest : Int64) (toBeSentReceived : UInt32) : UInt32 :=
  let toBe := toUnsigned (min (toFast toBeSentReceived) rest)
  if rest - toFast toBe < toFast MIN_LEN ∧ toFast toBe < rest then
    toUnsigned (toFast toBe - (toFast MIN_LEN - (rest - toFast toBe)))
  else toBe

/-- `isLimitReached`; returns `toBeSentReceived` too. -/
def isLimitReached (limit sentRecvOctets : Int64) (toBeSentReceived : UInt32) : Bool × UInt32 :=
  if limit > 0 then
    if sentRecvOctets ≥ limit then (true, toBeSentReceived)
    else
      let toBe := clip (limit - sentRecvOctets) toBeSentReceived
      -- should never happen
      (false, if toBe < MIN_LEN then MIN_LEN else toBe)
  else (false, toBeSentReceived)

/-! ## The two arithmetics -/

@[simp] theorem toInt_toFast (x : UInt32) : (toFast x).toInt = x.toNat := by
  have hx := x.toNat_lt
  have h : x.toUInt64.toInt64 = Int64.ofNat x.toNat := by
    rw [← UInt64.toInt64_ofNat', ← UInt32.toNat_toUInt64, UInt64.ofNat_toNat]
  rw [toFast, h, Int64.toInt_ofNat_of_lt (by omega)]

theorem toInt_sub_of_le {a b : Int64} (hb : 0 ≤ b.toInt) (hle : b.toInt ≤ a.toInt) :
    (a - b).toInt = a.toInt - b.toInt := by
  have ha := a.toInt_lt
  rw [Int64.toInt_sub, Int.bmod_eq_of_le (by omega) (by omega)]

theorem toInt_add_of_lt {a b : Int64} (ha : 0 ≤ a.toInt) (hb : 0 ≤ b.toInt)
    (hlt : a.toInt + b.toInt < 2 ^ 63) : (a + b).toInt = a.toInt + b.toInt := by
  rw [Int64.toInt_add, Int.bmod_eq_of_le (by omega) (by omega)]

theorem toInt_min (a b : Int64) : (min a b).toInt = min a.toInt b.toInt := by
  show (if a ≤ b then a else b).toInt = _
  split_ifs with h
  · rw [Int64.le_iff_toInt_le] at h
    rw [min_eq_left h]
  · rw [Int64.le_iff_toInt_le] at h
    rw [min_eq_right (by omega)]

theorem toInt_minLen : (toFast MIN_LEN).toInt = 32 :=
  toInt_toFast MIN_LEN

theorem toNat_toUnsigned_emod (v : Int64) : ((toUnsigned v).toNat : Int) = v.toInt % 2 ^ 32 := by
  have hv : v.toInt = (v.toUInt64.toNat : Int).bmod (2 ^ 64) := by
    rw [← Int64.toInt_toBitVec, BitVec.toInt_eq_toNat_bmod]
    rfl
  rw [toUnsigned, UInt64.toNat_toUInt32, hv, Int.bmod]
  push_cast
  split_ifs <;> omega

theorem toNat_toUnsigned {v : Int64} (h0 : 0 ≤ v.toInt) (hlt : v.toInt < 2 ^ 32) :
    ((toUnsigned v).toNat : Int) = v.toInt := by
  rw [toNat_toUnsigned_emod, Int.emod_eq_of_lt h0 hlt]

/-! ## Clipping -/

/-- The scheduled message, or the rest where that is less. -/
theorem toNat_min_rest {rest : Int64} (hrest : 0 < rest.toInt) (size : UInt32) :
    ((toUnsigned (min (toFast size) rest)).toNat : Int) = min (size.toNat : Int) rest.toInt := by
  have hlt := size.toNat_lt
  rw [toNat_toUnsigned, toInt_min, toInt_toFast]
  · rw [toInt_min, toInt_toFast]
    omega
  · rw [toInt_min, toInt_toFast]
    omega

/-- The message that is left of a scheduled one, as the integer that is stored. -/
theorem toNat_clip_emod {rest : Int64} (hrest : 0 < rest.toInt) (size : UInt32) :
    ((clip rest size).toNat : Int) =
      if size.toNat < rest.toInt ∧ rest.toInt < size.toNat + 32 then (rest.toInt - 32) % 2 ^ 32
      else min (size.toNat : Int) rest.toInt := by
  have hlt := size.toNat_lt
  have hmin := toNat_min_rest hrest size
  unfold clip
  generalize toUnsigned (min (toFast size) rest) = toBe at hmin
  have hsub : (rest - toFast toBe).toInt = rest.toInt - toBe.toNat := by
    rw [toInt_sub_of_le, toInt_toFast]
    · rw [toInt_toFast]
      omega
    · rw [toInt_toFast]
      omega
  simp only [Int64.lt_iff_toInt_lt, hsub, toInt_minLen]
  rw [toInt_toFast]
  split_ifs with h₁ h₂ h₂
  · have hgap : (toFast MIN_LEN - (rest - toFast toBe)).toInt = 32 - (rest.toInt - toBe.toNat) := by
      rw [toInt_sub_of_le, toInt_minLen, hsub]
      · rw [hsub]
        omega
      · rw [hsub, toInt_minLen]
        omega
    have hcut : (toFast toBe - (toFast MIN_LEN - (rest - toFast toBe))).toInt = rest.toInt - 32 := by
      rw [Int64.toInt_sub, toInt_toFast, hgap, Int.bmod_eq_of_le (by omega) (by omega)]
      omega
    rw [toNat_toUnsigned_emod, hcut]
  · omega
  · omega
  · exact hmin

/-- The message that is left of a scheduled one, in natural numbers. -/
theorem toNat_clip {rest : Int64} (hrest : 0 < rest.toInt) {size : UInt32}
    (hsize : 32 ≤ size.toNat) :
    ((clip rest size).toNat : Int) =
      if size.toNat < rest.toInt ∧ rest.toInt < size.toNat + 32 then rest.toInt - 32
      else min (size.toNat : Int) rest.toInt := by
  have hlt := size.toNat_lt
  rw [toNat_clip_emod hrest]
  split_ifs
  · exact Int.emod_eq_of_lt (by omega) (by omega)
  · rfl

/-- The branch that should never be taken is taken for a small rest only. -/
theorem clip_lt_iff {rest : Int64} (hrest : 0 < rest.toInt) {size : UInt32}
    (hsize : 32 ≤ size.toNat) :
    clip rest size < MIN_LEN ↔
      rest.toInt < 32 ∨ size.toNat < rest.toInt ∧ rest.toInt < 64 := by
  have hclip := toNat_clip hrest hsize
  rw [UInt32.lt_iff_toNat_lt]
  show (clip rest size).toNat < 32 ↔ _
  split_ifs at hclip <;> omega

theorem isLimitReached_iff {limit octets : Int64} (size : UInt32) (hlimit : 0 < limit.toInt) :
    (isLimitReached limit octets size).1 = true ↔ limit.toInt ≤ octets.toInt := by
  have hpos : limit > 0 := Int64.lt_iff_toInt_lt.mpr hlimit
  rw [isLimitReached, if_pos hpos, ← Int64.le_iff_toInt_le]
  split_ifs with h
  · simpa using h
  · simpa using h

/-- A limit that is not positive limits nothing. -/
theorem isLimitReached_unlimited {limit : Int64} (octets : Int64) (size : UInt32)
    (hlimit : limit.toInt ≤ 0) : isLimitReached limit octets size = (false, size) := by
  have hpos : ¬limit > 0 := fun h => by
    have : 0 < limit.toInt := Int64.lt_iff_toInt_lt.mp h
    omega
  rw [isLimitReached, if_neg hpos]

/-- Below the limit the clipped message is used, unless it is too small. -/
theorem isLimitReached_open {limit octets : Int64} (size : UInt32) (hlimit : 0 < limit.toInt)
    (hopen : octets.toInt < limit.toInt) :
    isLimitReached limit octets size = (false, if clip (limit - octets) size < MIN_LEN then MIN_LEN
      else clip (limit - octets) size) := by
  have hpos : limit > 0 := Int64.lt_iff_toInt_lt.mpr hlimit
  have hlt : ¬octets ≥ limit := fun h => by
    have := Int64.le_iff_toInt_le.mp h
    omega
  rw [isLimitReached, if_pos hpos, if_neg hlt]

end NetBabbler
