import Mathlib.Data.List.TakeWhile
import Mathlib.Tactic

/-!
# Text

What the program uses of the C++ library to read numbers off the command line:
`std::stoul` and the splitting of a string at its commas by a
`std::sregex_token_iterator`.

`stoul_numeral` : a complete numeral is read as the number it denotes. `stoul_eq_ok_iff` and
`tokens_eq_iff` : what else is read.
-/

namespace NetBabbler

/-- The exceptions of the parsers. -/
inductive ParseError where
  | invalidArgument
  | outOfRange
  | rangeError (what : String)
  deriving DecidableEq, Repr

instance decidableEqExcept {ε α : Type} [DecidableEq ε] [DecidableEq α] :
    DecidableEq (Except ε α)
  | .ok a, .ok b => decidable_of_iff (a = b) (by simp)
  | .error e, .error f => decidable_of_iff (e = f) (by simp)
  | .ok _, .error _ => isFalse (by simp)
  | .error _, .ok _ => isFalse (by simp)

/-- `isspace` in the "C" locale. -/
def isSpace (c : Char) : Bool :=
  c.toNat == 32 || 9 ≤ c.toNat && c.toNat ≤ 13

/-- The value of a row of decimal digits. -/
def decimal (ds : List Char) : Nat :=
  ds.foldl (fun n c => 10 * n + (c.toNat - 48)) 0

/-- `std::stoul` : leading white space, a sign and the digits up to the first other
character. A minus sign negates modulo `2 ^ 64`. -/
def stoul (s : List Char) : Except ParseError UInt64 :=
  let s := s.dropWhile isSpace
  let digits := (if s.head? = some '-' ∨ s.head? = some '+' then s.tail else s).takeWhile
    Char.isDigit
  if digits = [] then .error .invalidArgument
  else if 2 ^ 64 ≤ decimal digits then .error .outOfRange
  else
    let n := UInt64.ofNat (decimal digits)
    .ok (if s.head? = some '-' then -n else n)

/-- The tokens between the commas. An empty one after the last comma is not a token. -/
def tokens (s : List Char) : List (List Char) :=
  let ts := s.splitOn ','
  if 1 < ts.length ∧ ts.getLast? = some [] then ts.dropLast else ts

/-- `(unsigned)std::stoul (vec.at (i))`. -/
def unsignedAt (vec : List (List Char)) (i : Nat) : Except ParseError UInt32 :=
  match vec[i]? with
  | some token => (stoul token).map UInt64.toUInt32
  | none => .error .outOfRange

/-! ## Results of a row of parsers -/

section Except

variable {ε α β : Type}

theorem bind_eq_ok_iff {x : Except ε α} {f : α → Except ε β} {b : β} :
    x >>= f = .ok b ↔ ∃ a, x = .ok a ∧ f a = .ok b := by
  cases x <;> simp [bind, Except.bind]

theorem bind_eq_error_iff {x : Except ε α} {f : α → Except ε β} {e : ε} :
    x >>= f = .error e ↔ x = .error e ∨ ∃ a, x = .ok a ∧ f a = .error e := by
  cases x <;> simp [bind, Except.bind]

theorem mapM_eq_ok_iff {f : α → Except ε β} :
    ∀ {as : List α} {bs : List β}, as.mapM f = .ok bs ↔ List.Forall₂ (fun a b => f a = .ok b) as bs
  | [], bs => by
    rw [List.mapM_nil, List.forall₂_nil_left_iff]
    exact ⟨fun h => by cases h; rfl, fun h => by rw [h]; rfl⟩
  | a :: as, bs => by
    simp only [List.mapM_cons, bind_eq_ok_iff, mapM_eq_ok_iff, List.forall₂_cons_left_iff]
    constructor
    · rintro ⟨b, hb, bs', hbs, heq⟩
      cases heq
      exact ⟨b, bs', hb, hbs, rfl⟩
    · rintro ⟨b, bs', hb, hbs, rfl⟩
      exact ⟨b, hb, bs', hbs, rfl⟩

theorem mapM_eq_error {f : α → Except ε β} {e : ε} :
    ∀ {as : List α}, as.mapM f = .error e → ∃ a ∈ as, f a = .error e
  | [], h => by cases h
  | a :: as, h => by
    rw [List.mapM_cons, bind_eq_error_iff] at h
    rcases h with h | ⟨b, -, h⟩
    · exact ⟨a, by simp, h⟩
    rcases bind_eq_error_iff.mp h with h | ⟨bs, -, h⟩
    · obtain ⟨a', ha', he⟩ := mapM_eq_error h
      exact ⟨a', List.mem_cons_of_mem _ ha', he⟩
    · cases h

theorem exists_of_forall₂ {R : α → β → Prop} :
    ∀ {as : List α} {bs : List β}, List.Forall₂ R as bs → ∀ a ∈ as, ∃ b, R a b
  | _ :: _, _ :: _, .cons hab hrest, a, ha => by
    rcases List.mem_cons.mp ha with rfl | ha
    · exact ⟨_, hab⟩
    · exact exists_of_forall₂ hrest a ha

end Except

/-! ## Numerals -/

/-- `ds` is a complete decimal numeral of `n`. -/
structure Numeral (ds : List Char) (n : Nat) : Prop where
  ne : ds ≠ []
  digits : ∀ c ∈ ds, c.isDigit = true
  value : decimal ds = n

theorem numeral_decimal {ds : List Char} (hne : ds ≠ []) (hall : ∀ c ∈ ds, c.isDigit = true) :
    Numeral ds (decimal ds) :=
  ⟨hne, hall, rfl⟩

theorem numeral_toDigits (n : Nat) : Numeral (Nat.toDigits 10 n) n where
  ne := Nat.toDigits_ne_nil
  digits c hc := Nat.isDigit_of_mem_toDigits (by decide) (by decide) hc
  value := Nat.ofDigitChars_ten_toDigits

theorem isSpace_of_isDigit {c : Char} (h : c.isDigit = true) : isSpace c = false := by
  have hdigit : 48 ≤ c.toNat ∧ c.toNat ≤ 57 := by
    simpa [Char.isDigit, UInt32.le_iff_toNat_le] using h
  simp only [isSpace, Bool.or_eq_false_iff, Bool.and_eq_false_imp, beq_eq_false_iff_ne,
    decide_eq_true_eq, decide_eq_false_iff_not]
  omega

theorem Numeral.ne_of_mem {ds : List Char} {n : Nat} (h : Numeral ds n) {c d : Char} (hc : c ∈ ds)
    (hd : d.isDigit = false) : c ≠ d := by
  rintro rfl
  rw [h.digits c hc] at hd
  cases hd

/-- A complete numeral is read as its number, as long as that fits. -/
theorem stoul_numeral {ds : List Char} {n : Nat} (h : Numeral ds n) :
    stoul ds = if 2 ^ 64 ≤ n then .error .outOfRange else .ok (UInt64.ofNat n) := by
  obtain ⟨c, cs, rfl⟩ := List.exists_cons_of_ne_nil h.ne
  have hc := h.digits c (by simp)
  have hdrop : (c :: cs).dropWhile isSpace = c :: cs :=
    List.dropWhile_cons_of_neg (by simp [isSpace_of_isDigit hc])
  have hminus : c ≠ '-' := h.ne_of_mem (by simp) rfl
  have hplus : c ≠ '+' := h.ne_of_mem (by simp) rfl
  have hall : (c :: cs).takeWhile Char.isDigit = c :: cs := by
    rw [List.takeWhile_eq_self_iff]
    exact h.digits
  simp only [stoul, hdrop, List.head?_cons, Option.some.injEq, hminus, hplus, or_self, if_false,
    hall, reduceCtorEq, h.value]

theorem stoul_numeral_eq_ok_iff {ds : List Char} {n : Nat} (h : Numeral ds n) {x : UInt64} :
    stoul ds = .ok x ↔ n = x.toNat := by
  rw [stoul_numeral h]
  constructor
  · intro hx
    split_ifs at hx with hlarge
    cases hx
    exact (UInt64.toNat_ofNat_of_lt (by simpa using hlarge)).symm
  · rintro rfl
    rw [if_neg (by have := x.toNat_lt; omega), UInt64.ofNat_toNat]

/-! ## Numbers in front of other text -/

/-- `w` begins with white space, a sign and the digits of `m`, which is `n` modulo `2 ^ 64`. -/
def Reads (w : List Char) (n : UInt64) : Prop :=
  ∃ space sign digits junk m, w = space ++ (sign ++ (digits ++ junk)) ∧
    (∀ c ∈ space, isSpace c = true) ∧ (sign = [] ∨ sign = ['-'] ∨ sign = ['+']) ∧
    Numeral digits m ∧ (∀ c ∈ junk.head?, c.isDigit = false) ∧ m < 2 ^ 64 ∧
    n = if sign = ['-'] then -UInt64.ofNat m else UInt64.ofNat m

theorem takeWhile_isDigit {digits junk : List Char} (h : ∀ c ∈ digits, c.isDigit = true)
    (hjunk : ∀ c ∈ junk.head?, c.isDigit = false) :
    (digits ++ junk).takeWhile Char.isDigit = digits := by
  rw [List.takeWhile_append_of_pos h]
  cases junk with
  | nil => simp
  | cons c junk => simp [hjunk c rfl]

theorem head?_dropWhile (s : List Char) :
    ∀ c ∈ (s.dropWhile Char.isDigit).head?, c.isDigit = false := by
  intro c hc
  have h := List.head?_dropWhile_not Char.isDigit s
  rw [hc] at h
  exact h

theorem stoul_reads {w : List Char} {n : UInt64} (h : Reads w n) : stoul w = .ok n := by
  obtain ⟨space, sign, digits, junk, m, rfl, hspace, hsign, hdigits, hjunk, hm, rfl⟩ := h
  obtain ⟨d, ds, hds⟩ := List.exists_cons_of_ne_nil hdigits.ne
  have hd : d.isDigit = true := hdigits.digits d (by simp [hds])
  have hminus : d ≠ '-' := hdigits.ne_of_mem (by simp [hds]) rfl
  have hplus : d ≠ '+' := hdigits.ne_of_mem (by simp [hds]) rfl
  have hdrop : (space ++ (sign ++ (digits ++ junk))).dropWhile isSpace =
      sign ++ (digits ++ junk) := by
    rw [List.dropWhile_append_of_pos hspace, hds]
    rcases hsign with rfl | rfl | rfl
    · exact List.dropWhile_cons_of_neg (by simp [isSpace_of_isDigit hd])
    · rfl
    · rfl
  have hbody : (if (sign ++ (digits ++ junk)).head? = some '-' ∨
      (sign ++ (digits ++ junk)).head? = some '+' then (sign ++ (digits ++ junk)).tail
      else sign ++ (digits ++ junk)) = digits ++ junk := by
    rcases hsign with rfl | rfl | rfl
    · simp [hds, hminus, hplus]
    · rfl
    · rfl
  have hneg : (sign ++ (digits ++ junk)).head? = some '-' ↔ sign = ['-'] := by
    rcases hsign with rfl | rfl | rfl
    · simp [hds, hminus]
    · simp
    · simp
  simp only [stoul, hdrop, hbody, takeWhile_isDigit hdigits.digits hjunk, hdigits.ne,
    hdigits.value, Nat.not_le.mpr hm, if_false]
  simp only [hneg]

theorem reads_of_stoul {w : List Char} {n : UInt64} (h : stoul w = .ok n) : Reads w n := by
  have hw := List.takeWhile_append_dropWhile (p := isSpace) (l := w)
  simp only [stoul] at h
  generalize w.dropWhile isSpace = s at h hw
  obtain ⟨sign, body, hs, hsign, hbody, hneg⟩ : ∃ sign body, s = sign ++ body ∧
      (sign = [] ∨ sign = ['-'] ∨ sign = ['+']) ∧
      (if s.head? = some '-' ∨ s.head? = some '+' then s.tail else s) = body ∧
      (s.head? = some '-' ↔ sign = ['-']) := by
    cases s with
    | nil => exact ⟨[], [], by simp⟩
    | cons c s =>
      by_cases hminus : c = '-'
      · exact ⟨['-'], s, by simp [hminus]⟩
      by_cases hplus : c = '+'
      · exact ⟨['+'], s, by simp [hplus]⟩
      · exact ⟨[], c :: s, by simp [hminus, hplus]⟩
  simp only [hbody] at h
  simp only [hneg] at h
  by_cases hne : body.takeWhile Char.isDigit = []
  · rw [if_pos hne] at h
    cases h
  by_cases hlarge : 2 ^ 64 ≤ decimal (body.takeWhile Char.isDigit)
  · rw [if_neg hne, if_pos hlarge] at h
    cases h
  rw [if_neg hne, if_neg hlarge] at h
  have hsplit : w = w.takeWhile isSpace ++ (sign ++ (body.takeWhile Char.isDigit ++
      body.dropWhile Char.isDigit)) := by
    rw [List.takeWhile_append_dropWhile, ← hs, hw]
  exact ⟨_, sign, _, _, _, hsplit, fun c => List.mem_takeWhile_imp, hsign,
    numeral_decimal hne fun c => List.mem_takeWhile_imp, head?_dropWhile body,
    Nat.not_le.mp hlarge, (Except.ok.inj h).symm⟩

theorem stoul_eq_ok_iff {w : List Char} {n : UInt64} : stoul w = .ok n ↔ Reads w n :=
  ⟨reads_of_stoul, stoul_reads⟩

/-! ## Tokens -/

theorem not_mem_of_mem_splitOn {x : Char} (s : List Char) : ∀ w ∈ s.splitOn x, x ∉ w := by
  induction s with
  | nil => simp
  | cons c s ih =>
    intro w hw
    rw [List.splitOn_cons_eq_if_modifyHead] at hw
    split_ifs at hw with hc
    · rcases List.mem_cons.mp hw with rfl | hw
      · simp
      · exact ih w hw
    · obtain ⟨v, vs, hvs⟩ := List.exists_cons_of_ne_nil (List.splitOn_ne_nil x s)
      rw [hvs] at hw ih
      rcases List.mem_cons.mp hw with rfl | hw
      · simp only [List.mem_cons, not_or]
        exact ⟨fun h => hc (by simp [h]), ih v (by simp)⟩
      · exact ih w (by simp [hw])

theorem intercalate_concat_nil (x : Char) : ∀ {items : List (List Char)}, items ≠ [] →
    [x].intercalate (items ++ [[]]) = [x].intercalate items ++ [x]
  | [], h => absurd rfl h
  | [w], _ => by simp
  | w :: v :: items, _ => by
    have ih : [x].intercalate (v :: items ++ [[]]) = [x].intercalate (v :: items) ++ [x] :=
      intercalate_concat_nil x (by simp)
    rw [List.cons_append, List.cons_append, List.intercalate_cons_cons, ← List.cons_append, ih,
      List.intercalate_cons_cons]
    simp only [List.append_assoc]

/-- The tokens are what the commas separate. A comma behind the last one makes no difference. -/
theorem tokens_eq_iff {s : List Char} {items : List (List Char)} (hne : items ≠ [])
    (hitems : ∀ w ∈ items, w ≠ [] ∧ ',' ∉ w) :
    tokens s = items ↔ s = [','].intercalate items ∨ s = [','].intercalate items ++ [','] := by
  have hlast : items.getLast? ≠ some [] := fun h => (hitems [] (List.mem_of_getLast? h)).1 rfl
  constructor
  · intro h
    have hs : [','].intercalate (s.splitOn ',') = s := List.intercalate_splitOn ','
    rw [tokens] at h
    split_ifs at h with hempty
    · obtain ⟨ts, hts⟩ := List.getLast?_eq_some_iff.mp hempty.2
      rw [hts, List.dropLast_concat] at h
      rw [hts, h, intercalate_concat_nil ',' hne] at hs
      exact .inr hs.symm
    · rw [h] at hs
      exact .inl hs.symm
  · rintro (rfl | rfl)
    · rw [tokens, List.splitOn_intercalate ',' (fun w hw => (hitems w hw).2) hne]
      exact if_neg fun h => hlast h.2
    · have hcomma : ∀ w ∈ items ++ [[]], ',' ∉ w := fun w hw => by
        rcases List.mem_append.mp hw with hw | hw
        · exact (hitems w hw).2
        · rw [List.mem_singleton.mp hw]
          simp
      rw [← intercalate_concat_nil ',' hne, tokens, List.splitOn_intercalate ',' hcomma (by simp)]
      have hlen : 1 < (items ++ [[]]).length := by
        have hpos := List.length_pos_iff.mpr hne
        simpa using hpos
      rw [if_pos ⟨hlen, by simp⟩, List.dropLast_concat]

end NetBabbler
