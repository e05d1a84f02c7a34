import NetBabbler.Settings

/-!
# The text of the settings

The constructor of `cComSettings` from a text against its constructors from numbers. The
text is read leniently : numbers may have a sign, other characters behind them and 64 bits,
of which 32 are kept, and a comma may follow the last one (`Lax`). A list of three numbers
is never read (`ofTokens_three`).

`means_iff` : the texts that mean what the constructors from numbers mean.
-/

namespace NetBabbler

namespace ComSettings

/-- The constructor that takes these numbers. -/
def ofNumbers : List UInt32 → Option ComSettings
  | [size] => some (ofFixed size)
  | [min, max] => some (ofRand min max)
  | [min, max, stepWidth] => some (ofSweep min max stepWidth)
  | [requestSizeMin, requestSizeMax, responseSizeMin, responseSizeMax] =>
    some (ofRandIndependent requestSizeMin requestSizeMax responseSizeMin responseSizeMax)
  | [requestSizeMin, requestSizeMax, responseSizeMin, responseSizeMax, stepWidth] =>
    some (ofSweepIndependent requestSizeMin requestSizeMax responseSizeMin responseSizeMax stepWidth)
  | _ => none

/-- The numbers `ns` stand for the settings `c`, with large enough requests. -/
structure Valid (ns : List UInt32) (c : ComSettings) : Prop where
  numbers : ofNumbers ns = some c
  requestSizeMin : 32 ≤ c.requestSizeMin
  requestSizeMax : 32 ≤ c.requestSizeMax

/-- `s` is the numerals of `ns`, joined by commas. -/
def Spells (s : String) (ns : List UInt32) : Prop :=
  ∃ items, s.toList = [','].intercalate items ∧
    List.Forall₂ (fun w n => Numeral w n.toNat) items ns

/-- The text `s` means what the constructors from numbers mean, and nothing else does. -/
structure Means (s : String) : Prop where
  accepts : ∀ ns c, Spells s ns → Valid ns c → ofString s = .ok c
  rejects : (¬∃ ns c, Spells s ns ∧ Valid ns c) → ∃ e, ofString s = .error e

/-- Each item begins with a number, of which 32 bits are kept, and a comma may stand behind
the last one. -/
def Lax (s : String) (ns : List UInt32) : Prop :=
  ∃ items vs, (s.toList = [','].intercalate items ∨ s.toList = [','].intercalate items ++ [',']) ∧
    List.Forall₂ (fun w v => ',' ∉ w ∧ Reads w v) items vs ∧ ns = vs.map UInt64.toUInt32

variable {s : String} {ns : List UInt32} {vec : List (List Char)} {c : ComSettings}

theorem unsignedAt_eq_ok_iff {i : Nat} {x : UInt32} :
    unsignedAt vec i = .ok x ↔ ∃ w n, vec[i]? = some w ∧ stoul w = .ok n ∧ n.toUInt32 = x := by
  rw [unsignedAt]
  cases vec[i]? with
  | none => simp
  | some w => cases hw : stoul w <;> simp [Except.map, hw]

/-- One, two, four or five tokens are read by `stoul`, one after the other. -/
theorem ofTokens_eq_ok_iff : ofTokens vec = .ok c ↔ vec.length ≠ 3 ∧
    ∃ vs, List.Forall₂ (fun w v => stoul w = .ok v) vec vs ∧
      ofNumbers (vs.map UInt64.toUInt32) = some c := by
  match vec with
  | [] => simp [ofTokens, ofNumbers]
  | [_] =>
    simp [ofTokens, ofNumbers, ofFixed, bind_eq_ok_iff, unsignedAt_eq_ok_iff,
      List.forall₂_cons_left_iff, pure, Except.pure]
  | [_, _] =>
    simp [ofTokens, ofNumbers, ofRand, bind_eq_ok_iff, unsignedAt_eq_ok_iff,
      List.forall₂_cons_left_iff, pure, Except.pure, and_assoc]
  | [a, b, d] =>
    obtain ⟨e, he⟩ := ofTokens_three (show [a, b, d].length = 3 from rfl)
    simp [he]
  | [_, _, _, _] =>
    simp [ofTokens, ofNumbers, ofRandIndependent, bind_eq_ok_iff, unsignedAt_eq_ok_iff,
      List.forall₂_cons_left_iff, pure, Except.pure, and_assoc]
  | [_, _, _, _, _] =>
    simp [ofTokens, ofNumbers, ofSweepIndependent, bind_eq_ok_iff, unsignedAt_eq_ok_iff,
      List.forall₂_cons_left_iff, pure, Except.pure, and_assoc]
  | _ :: _ :: _ :: _ :: _ :: _ :: _ => simp [ofTokens, ofNumbers, List.forall₂_cons_left_iff]

theorem ofString_eq_ok_iff_ofTokens : ofString s = .ok c ↔
    ofTokens (tokens s.toList) = .ok c ∧ 32 ≤ c.requestSizeMin ∧ 32 ≤ c.requestSizeMax := by
  constructor
  · intro h
    refine ⟨?_, ofString_requestSize h⟩
    obtain ⟨settings, hsettings, h⟩ := bind_eq_ok_iff.mp h
    split_ifs at h
    · cases h
    · cases h
      exact hsettings
  · rintro ⟨h, hmin, hmax⟩
    have hsmall : ¬(c.requestSizeMin < MIN_SIZE ∨ c.requestSizeMax < MIN_SIZE) :=
      not_or.mpr ⟨UInt32.not_lt.mpr hmin, UInt32.not_lt.mpr hmax⟩
    refine bind_eq_ok_iff.mpr ⟨c, h, ?_⟩
    rw [if_neg hsmall]
    rfl

theorem reads_of_numeral {w : List Char} {n : UInt32} (h : Numeral w n.toNat) :
    ',' ∉ w ∧ Reads w n.toUInt64 := by
  refine ⟨fun hmem => h.ne_of_mem hmem (by decide) rfl, stoul_eq_ok_iff.mp ?_⟩
  rw [stoul_numeral_eq_ok_iff h, UInt32.toNat_toUInt64]

/-- Numerals are read as their numbers. -/
theorem Spells.lax (h : Spells s ns) : Lax s ns := by
  obtain ⟨items, hs, hitems⟩ := h
  refine ⟨items, ns.map UInt32.toUInt64, .inl hs, ?_, ?_⟩
  · rw [List.forall₂_map_right_iff]
    exact hitems.imp fun w n hw => reads_of_numeral hw
  · rw [List.map_map]
    exact ((List.map_congr_left fun n _ => UInt32.toUInt32_toUInt64 n).trans (List.map_id _)).symm

theorem Valid.ne_nil (h : Valid ns c) : ns ≠ [] := by
  rintro rfl
  cases h.numbers

theorem reads_ne_nil {w : List Char} {v : UInt64} (h : Reads w v) : w ≠ [] := by
  rintro rfl
  have hread := stoul_eq_ok_iff.mpr h
  cases hread

/-- The items are the tokens. -/
theorem Lax.tokens (h : Lax s ns) (hne : ns ≠ []) :
    ∃ vs, List.Forall₂ Reads (tokens s.toList) vs ∧ ns = vs.map UInt64.toUInt32 := by
  obtain ⟨items, vs, hs, hitems, rfl⟩ := h
  have hitems_ne : items ≠ [] := by
    rintro rfl
    rw [List.forall₂_nil_left_iff] at hitems
    exact hne (by rw [hitems]; rfl)
  have hcomma : ∀ w ∈ items, w ≠ [] ∧ ',' ∉ w := fun w hw => by
    obtain ⟨v, hcomma, hreads⟩ := exists_of_forall₂ hitems w hw
    exact ⟨reads_ne_nil hreads, hcomma⟩
  rw [(tokens_eq_iff hitems_ne hcomma).mpr hs]
  exact ⟨vs, hitems.imp fun _ _ h => h.2, rfl⟩

theorem Lax.length_tokens (h : Lax s ns) (hne : ns ≠ []) :
    (NetBabbler.tokens s.toList).length = ns.length := by
  obtain ⟨vs, hitems, rfl⟩ := h.tokens hne
  rw [hitems.length_eq, List.length_map]

theorem mem_tokens {t w : List Char} (hw : w ∈ tokens t) : ',' ∉ w := by
  rw [tokens] at hw
  split_ifs at hw
  · exact not_mem_of_mem_splitOn t w (List.mem_of_mem_dropLast hw)
  · exact not_mem_of_mem_splitOn t w hw

theorem lax_of_tokens {vs : List UInt64} (hne : tokens s.toList ≠ [])
    (h : List.Forall₂ Reads (tokens s.toList) vs) : Lax s (vs.map UInt64.toUInt32) := by
  have hcomma : ∀ w ∈ tokens s.toList, w ≠ [] ∧ ',' ∉ w := fun w hw => by
    obtain ⟨v, hreads⟩ := exists_of_forall₂ h w hw
    exact ⟨reads_ne_nil hreads, mem_tokens hw⟩
  refine ⟨tokens s.toList, vs, (tokens_eq_iff hne hcomma).mp rfl, ?_, rfl⟩
  exact (List.forall₂_and_left _ _).mpr ⟨fun _ => mem_tokens, h⟩

/-- What the text is read as. -/
theorem ofString_eq_ok_iff :
    ofString s = .ok c ↔ ∃ ns, Lax s ns ∧ Valid ns c ∧ ns.length ≠ 3 := by
  rw [ofString_eq_ok_iff_ofTokens, ofTokens_eq_ok_iff]
  simp only [stoul_eq_ok_iff]
  constructor
  · rintro ⟨⟨hlen, vs, hreads, hnumbers⟩, hmin, hmax⟩
    have hvalid : Valid (vs.map UInt64.toUInt32) c := ⟨hnumbers, hmin, hmax⟩
    have hne : tokens s.toList ≠ [] := fun h => by
      rw [h, List.forall₂_nil_left_iff] at hreads
      exact hvalid.ne_nil (by rw [hreads]; rfl)
    exact ⟨_, lax_of_tokens hne hreads, hvalid, by rwa [List.length_map, ← hreads.length_eq]⟩
  · rintro ⟨ns, hlax, hvalid, hlen⟩
    rw [← hlax.length_tokens hvalid.ne_nil] at hlen
    obtain ⟨vs, hreads, rfl⟩ := hlax.tokens hvalid.ne_nil
    exact ⟨⟨hlen, vs, hreads, hvalid.numbers⟩, hvalid.requestSizeMin, hvalid.requestSizeMax⟩

/-- A text means what the constructors from numbers mean, if it spells other than three
numbers, or spells no settings and is not read leniently. -/
theorem means_iff (s : String) : Means s ↔
    (∃ ns c, Spells s ns ∧ Valid ns c ∧ ns.length ≠ 3) ∨
      (¬∃ ns c, Spells s ns ∧ Valid ns c) ∧ ¬∃ ns c, Lax s ns ∧ Valid ns c ∧ ns.length ≠ 3 := by
  constructor
  · intro h
    by_cases hspells : ∃ ns c, Spells s ns ∧ Valid ns c
    · obtain ⟨ns, c, hns, hvalid⟩ := hspells
      obtain ⟨ns', hlax, hvalid', hlen⟩ := ofString_eq_ok_iff.mp (h.accepts ns c hns hvalid)
      refine .inl ⟨ns, c, hns, hvalid, ?_⟩
      rwa [← hns.lax.length_tokens hvalid.ne_nil, hlax.length_tokens hvalid'.ne_nil]
    · refine .inr ⟨hspells, fun ⟨ns, c, hlax⟩ => ?_⟩
      obtain ⟨e, he⟩ := h.rejects hspells
      rw [ofString_eq_ok_iff.mpr ⟨ns, hlax⟩] at he
      cases he
  · rintro (⟨ns, c, hns, hvalid, hlen⟩ | ⟨hspells, hlax⟩)
    · refine ⟨fun ns' c' hns' hvalid' => ?_, fun h => absurd ⟨ns, c, hns, hvalid⟩ h⟩
      refine ofString_eq_ok_iff.mpr ⟨ns', hns'.lax, hvalid', ?_⟩
      rwa [← hns'.lax.length_tokens hvalid'.ne_nil, hns.lax.length_tokens hvalid.ne_nil]
    · refine ⟨fun ns c hns hvalid => absurd ⟨ns, c, hns, hvalid⟩ hspells, fun _ => ?_⟩
      cases hread : ofString s with
      | error e => exact ⟨e, rfl⟩
      | ok c =>
        obtain ⟨ns, h⟩ := ofString_eq_ok_iff.mp hread
        exact absurd ⟨ns, c, h⟩ hlax

/-- The sweep `32,64,8` is rejected. -/
theorem not_means : ¬∀ s, Means s := by
  intro h
  have hspells : Spells "32,64,8" [32, 64, 8] :=
    ⟨["32".toList, "64".toList, "8".toList], by decide +kernel,
      .cons (numeral_toDigits 32) (.cons (numeral_toDigits 64) (.cons (numeral_toDigits 8) .nil))⟩
  have hread := (h "32,64,8").accepts _ _ hspells ⟨rfl, by decide, by decide⟩
  exact absurd hread (by decide +kernel)

end ComSettings

end NetBabbler
