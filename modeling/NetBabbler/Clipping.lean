import NetBabbler.Requestor

/-!
# Clipping and the size of a message

`isLimitReached` cuts a scheduled message to what a byte limit leaves. `clipped_iff` : the
result is a message of at least `MIN_LEN` bytes and no larger than scheduled, and the
subtraction on the way to it does not wrap, if and only if the rest is not both larger
than the scheduled size and smaller than `MIN_LEN` (`Tiny`). No request is that small, but
a response may be.
-/

namespace NetBabbler

open EStateM

/-- `toBeSentReceived -= MIN_LEN - (rest - toBeSentReceived)`, where it is reached, takes no more
than there is. -/
def ClipFits (rest : Int64) (size : UInt32) : Prop :=
  let toBe := toUnsigned (min (toFast size) rest)
  rest - toFast toBe < toFast MIN_LEN ∧ toFast toBe < rest →
    toFast MIN_LEN - (rest - toFast toBe) ≤ toFast toBe

/-- The limit leaves less than the smallest message, but more than the scheduled one. -/
def Tiny (limit octets : Int64) (size : UInt32) : Prop :=
  size.toNat < limit.toInt - octets.toInt ∧ limit.toInt - octets.toInt < 32

/-- What `isLimitReached` is meant to do below the limit. -/
structure Clipped (limit octets : Int64) (size : UInt32) : Prop where
  notReached : (isLimitReached limit octets size).1 = false
  least : 32 ≤ (isLimitReached limit octets size).2.toNat
  most : (isLimitReached limit octets size).2.toNat ≤ max size.toNat 32
  fits : ClipFits (limit - octets) size

instance (rest : Int64) (size : UInt32) : Decidable (ClipFits rest size) :=
  inferInstanceAs (Decidable (_ ∧ _ → _))

instance (limit octets : Int64) (size : UInt32) : Decidable (Tiny limit octets size) :=
  inferInstanceAs (Decidable (_ ∧ _))

theorem clipFits_iff {rest : Int64} (hrest : 0 < rest.toInt) (size : UInt32) :
    ClipFits rest size ↔ ¬(size.toNat < rest.toInt ∧ rest.toInt < 32) := by
  have hlt := size.toNat_lt
  have hmin := toNat_min_rest hrest size
  unfold ClipFits
  generalize toUnsigned (min (toFast size) rest) = toBe at hmin
  have hsub : (rest - toFast toBe).toInt = rest.toInt - toBe.toNat := by
    rw [toInt_sub_of_le, toInt_toFast]
    · rw [toInt_toFast]
      omega
    · rw [toInt_toFast]
      omega
  have hgap : rest.toInt - toBe.toNat < 32 →
      (toFast MIN_LEN - (rest - toFast toBe)).toInt = 32 - (rest.toInt - toBe.toNat) := by
    intro hnear
    rw [toInt_sub_of_le, toInt_minLen, hsub]
    · rw [hsub]
      omega
    · rw [hsub, toInt_minLen]
      omega
  simp only [Int64.lt_iff_toInt_lt, Int64.le_iff_toInt_le, hsub, toInt_minLen]
  rw [toInt_toFast]
  constructor
  · rintro hfits ⟨hsize, hrest32⟩
    have hle := hfits ⟨by omega, by omega⟩
    rw [hgap (by omega)] at hle
    omega
  · rintro htiny ⟨hnear, hmore⟩
    rw [hgap hnear]
    omega

/-- Below the limit the cut message is as large as it should be, unless the limit leaves a tiny
rest. -/
theorem isLimitReached_clipped_iff {limit octets : Int64} (size : UInt32)
    (hlimit : 0 < limit.toInt) (h0 : 0 ≤ octets.toInt) (hopen : octets.toInt < limit.toInt) :
    Clipped limit octets size ↔ ¬Tiny limit octets size := by
  have hsub : (limit - octets).toInt = limit.toInt - octets.toInt := toInt_sub_of_le h0 (by omega)
  have hrest : 0 < (limit - octets).toInt := by omega
  have hfits := clipFits_iff hrest size
  have hclip := toNat_clip_emod hrest size
  rw [hsub] at hfits hclip
  constructor
  · exact fun h => hfits.mp h.fits
  · intro htiny
    have hlarge : (clip (limit - octets) size).toNat ≤ max size.toNat 32 := by
      unfold Tiny at htiny
      split_ifs at hclip <;> omega
    have heq := isLimitReached_open size hlimit hopen
    refine ⟨by rw [heq], ?_, ?_, hfits.mpr htiny⟩
    · rw [heq]
      split_ifs with hsmall
      · exact Nat.le_refl 32
      · exact UInt32.not_lt.mp hsmall
    · rw [heq]
      split_ifs
      · exact Nat.le_max_right _ _
      · exact hlarge

/-- A tiny rest asks for a message that no peer ever sent. -/
theorem lt_of_tiny {limit octets : Int64} {size : UInt32} (h0 : 0 ≤ octets.toInt)
    (htiny : Tiny limit octets size) :
    max size.toNat 32 < (isLimitReached limit octets size).2.toNat := by
  obtain ⟨hsize, hrest⟩ := htiny
  have hsub : (limit - octets).toInt = limit.toInt - octets.toInt := toInt_sub_of_le h0 (by omega)
  have hclip := toNat_clip_emod (by omega : 0 < (limit - octets).toInt) size
  rw [hsub, if_pos (by omega)] at hclip
  rw [isLimitReached_open size (by omega) (by omega), if_neg]
  · show _ < (clip (limit - octets) size).toNat
    omega
  · rw [UInt32.lt_iff_toNat_lt]
    show ¬(clip (limit - octets) size).toNat < 32
    omega

namespace Requestor

/-- The response that a round of `doJob` asks for is no larger than scheduled, or than the
smallest message. -/
def AsksNoMore (r : Requestor) : Prop :=
  Ends checkLimits (fun _ r' => r'.currRespSize.toNat ≤ max r.currRespSize.toNat 32)
    (fun _ _ => True) r

theorem asksNoMore_iff {r : Requestor} (hoctets : 0 ≤ (r.octets .recv).toInt) :
    r.AsksNoMore ↔ ¬((∀ d, (r.check d).1 = false) ∧ 0 < (r.limit .recv).toInt ∧
      Tiny (r.limit .recv) (r.octets .recv) r.currRespSize) := by
  have hspec := checkLimits_spec r
  constructor
  · rintro hasks ⟨hopen, -, htiny⟩
    obtain ⟨_, r', -, hle, -, rfl⟩ := ((hasks.and hspec).mono (fun _ _ h => h) (fun _ _ hf => by
      obtain ⟨-, -, -, -, d, hd⟩ := hf
      rw [hopen d] at hd
      cases hd) : Ends _ _ (fun _ _ => False) r).exists_ok
    exact absurd hle (Nat.not_le_of_lt (lt_of_tiny hoctets htiny))
  · intro hnot
    refine hspec.mono ?_ fun _ _ _ => trivial
    rintro _ r' ⟨hopen, rfl⟩
    show (isLimitReached (r.limit .recv) (r.octets .recv) r.currRespSize).2.toNat ≤ _
    rcases lt_or_ge 0 (r.limit .recv).toInt with hpos | hneg
    · have hbelow : (r.octets .recv).toInt < (r.limit .recv).toInt := by
        rw [← Int.not_le, ← isLimitReached_iff (r.size .recv) hpos, Bool.not_eq_true]
        exact hopen .recv
      exact ((isLimitReached_clipped_iff _ hpos hoctets hbelow).mpr fun htiny =>
        hnot ⟨hopen, hpos, htiny⟩).most
    · rw [isLimitReached_unlimited _ _ hneg]
      exact Nat.le_max_left _ _

/-- Below a limit a message is cut as it should be, if and only if the limit leaves no tiny rest;
and a round asks for no larger response than scheduled, if and only if the limit on what is
received leaves none to it. -/
theorem clipped_iff {limit octets : Int64} (size : UInt32) (hlimit : 0 < limit.toInt)
    (h0 : 0 ≤ octets.toInt) (hopen : octets.toInt < limit.toInt) (r : Requestor)
    (hoctets : 0 ≤ (r.octets .recv).toInt) :
    (Clipped limit octets size ↔ ¬Tiny limit octets size) ∧
      (r.AsksNoMore ↔ ¬((∀ d, (r.check d).1 = false) ∧ 0 < (r.limit .recv).toInt ∧
        Tiny (r.limit .recv) (r.octets .recv) r.currRespSize)) :=
  ⟨isLimitReached_clipped_iff size hlimit h0 hopen, asksNoMore_iff hoctets⟩

/-- A requestor of requests of 100 bytes and responses of `size`, under a receive limit. -/
def receiving (size : UInt32) (recvLimit : Int64) : Requestor :=
  .init (.serving [] 1 0 4) (List.replicate 64 0) ⟨100, 100, size, size, 0, false⟩ (-1) recvLimit
    fun _ => 0

theorem clipped_fifty : Clipped 70 20 24 ∧ (receiving 24 50).AsksNoMore := by
  have hlimit : 0 < (70 : Int64).toInt := by decide
  have hopen : (20 : Int64).toInt < (70 : Int64).toInt := by decide
  have h := clipped_iff 24 hlimit (by decide) hopen (receiving 24 50) (by decide)
  exact ⟨h.1.mpr (by decide), h.2.mpr fun htiny => absurd htiny.2.2 (by decide)⟩

/-- A response of 24 bytes under a limit of 30 becomes one of `2 ^ 32 - 2` bytes. -/
theorem not_clipped :
    (¬∀ (limit octets : Int64) (size : UInt32), 0 < limit.toInt → 0 ≤ octets.toInt →
      octets.toInt < limit.toInt → size = 0 ∨ 24 ≤ size → Clipped limit octets size) ∧
    ¬∀ r : Requestor, 0 ≤ (r.octets .recv).toInt → r.AsksNoMore := by
  constructor
  · intro h
    exact absurd (h 30 0 24 (by decide) (by decide) (by decide) (.inr (by decide))).most (by decide)
  · intro h
    have hasks := h (receiving 24 30) (by decide)
    exact absurd hasks (by unfold AsksNoMore; decide)

end Requestor

end NetBabbler
