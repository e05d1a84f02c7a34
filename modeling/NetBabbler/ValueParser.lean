import NetBabbler.Regex
import NetBabbler.Text

/-!
# Port ranges

`cValueParser::range` and `rangeList` of `valueparser.cpp`. Both check the whole text with
one regular expression and take it apart with another. `rangeList_grammar` : the two
passes agree on the grammar `item(,item)*` with an item `digits` or `digits-digits`, and
the list that they give has one range for each item.
-/

namespace NetBabbler

/-- The exceptions of `cValueParser`. -/
inductive ValueError where
  | invalidArgument (what : List Char)
  /-- Thrown by `std::stoul`. -/
  | stoul (e : ParseError)
  /-- `BUG_ON` fired. -/
  | bug
  deriving DecidableEq, Repr

namespace ValueParser

open Regex

/-! ## The parsers -/

/-- `\d+`. -/
def digits : Regex Char :=
  plus (cls Char.isDigit)

/-- `(\d+(-\d+)?)`. -/
def regexRange : Regex Char :=
  seq digits (opt (seq (chr '-') digits))

/-- `(\d+(-\d+)?)(,(\d+(-\d+)?))*`. -/
def regexRangeList : Regex Char :=
  seq regexRange (star (seq (chr ',') regexRange))

/-- `if (c) throw e`. -/
def raiseIf (c : Prop) [Decidable c] (e : ValueError) : Except ValueError Unit :=
  if c then .error e else .ok ()

/-- `std::stoul (vec[i])`. -/
def stoulAt (vec : List (List Char)) (i : Nat) : Except ValueError UInt64 :=
  (stoul (vec.getD i [])).mapError .stoul

/-- `cValueParser::range`. -/
def range (s : List Char) : Except ValueError (UInt64 × UInt64) := do
  raiseIf (regexRange.isMatch s = false) (.invalidArgument s)
  let vec := digits.findAll s
  let found := vec.length
  -- this would mean the expression above is buggy
  raiseIf (2 < found ∨ found = 0) .bug
  let a ← stoulAt vec 0
  let b ← (if found = 2 then stoulAt vec 1 else pure a)
  raiseIf (a > b)
    (.invalidArgument "The beginning of the range is greater than the end".toList)
  pure (a, b)

/-- `cValueParser::rangeList`. -/
def rangeList (s : List Char) : Except ValueError (List (UInt64 × UInt64)) := do
  raiseIf (regexRangeList.isMatch s = false) (.invalidArgument s)
  let vec := regexRange.findAll s
  let found := vec.length
  -- this would mean the expression above is buggy
  raiseIf (found < 1) .bug
  vec.mapM range

@[simp] theorem raiseIf_eq_ok_iff {c : Prop} [Decidable c] {e : ValueError} {u : Unit} :
    raiseIf c e = .ok u ↔ ¬c := by
  rw [raiseIf]
  split_ifs with h <;> simp [h]

@[simp] theorem raiseIf_eq_error_iff {c : Prop} [Decidable c] {e e' : ValueError} :
    raiseIf c e = .error e' ↔ c ∧ e = e' := by
  rw [raiseIf]
  split_ifs with h <;> simp [h]

/-! ## The grammar -/

/-- `w` is `digits` or `digits-digits` and spells the range from `a` to `b`. -/
def Item (w : List Char) (a b : Nat) : Prop :=
  (Numeral w a ∧ b = a) ∨ ∃ u v, w = u ++ '-' :: v ∧ Numeral u a ∧ Numeral v b

/-- `s` spells the ranges `rs`, each of which has its ends in order. -/
def Lists (s : List Char) (rs : List (UInt64 × UInt64)) : Prop :=
  ∃ items, items ≠ [] ∧ s = List.intercalate [','] items ∧
    List.Forall₂ (fun w r => Item w r.1.toNat r.2.toNat ∧ r.1 ≤ r.2) items rs

variable {s t u v w : List Char} {a b : Nat}

theorem mem_digits : w ∈ digits.language ↔ Numeral w (decimal w) := by
  rw [digits, mem_language_plus_cls]
  exact ⟨fun h => ⟨h.1, h.2, rfl⟩, fun h => ⟨h.ne, h.digits⟩⟩

theorem mem_digits_of_numeral (h : Numeral w a) : w ∈ digits.language :=
  mem_language_plus_cls.mpr ⟨h.ne, h.digits⟩

theorem mem_regexRange : w ∈ regexRange.language ↔ ∃ a b, Item w a b := by
  simp only [regexRange, mem_language_seq, mem_language_opt, mem_language_chr]
  constructor
  · rintro ⟨u, hu, v, ⟨_, rfl, v, hv, rfl⟩ | rfl, rfl⟩
    · exact ⟨_, _, .inr ⟨u, v, rfl, mem_digits.mp hu, mem_digits.mp hv⟩⟩
    · rw [List.append_nil]
      exact ⟨_, _, .inl ⟨mem_digits.mp hu, rfl⟩⟩
  · rintro ⟨a, b, ⟨hw, -⟩ | ⟨u, v, rfl, hu, hv⟩⟩
    · exact ⟨w, mem_digits_of_numeral hw, [], .inr rfl, List.append_nil w⟩
    · exact ⟨u, mem_digits_of_numeral hu, '-' :: v,
        .inl ⟨['-'], rfl, v, mem_digits_of_numeral hv, rfl⟩, rfl⟩

/-! ## Greed -/

theorem over_digits {P : Char → Prop} (h : ∀ c : Char, c.isDigit = true → P c) : digits.Over P :=
  Over.plus (r := cls _) h

theorem over_regexRange {P : Char → Prop} (h : ∀ c : Char, c.isDigit = true → P c) (h' : P '-') :
    regexRange.Over P :=
  ⟨over_digits h, (over_chr h').seq (over_digits h) |>.opt⟩

/-- Range lists are of digits, minus signs and commas. -/
theorem over_regexRangeList :
    regexRangeList.Over fun c => c.isDigit = true ∨ c = '-' ∨ c = ',' :=
  ⟨over_regexRange (fun _ => .inl) (.inr (.inl rfl)), over_chr (.inr (.inr rfl)),
    over_regexRange (fun _ => .inl) (.inr (.inl rfl))⟩

theorem forall_mem_of_mem_regexRange (h : w ∈ regexRange.language) :
    ∀ c ∈ w, c.isDigit = true ∨ c = '-' :=
  (over_regexRange (fun _ => .inl) (.inr rfl)).forall_mem h

theorem rests_chr_seq {c d : Char} (hc : c ≠ d) (r : Regex Char) (s : List Char) :
    rests (seq (chr d) r) (c :: s) = [] := by
  simp [rests, chr, hc]

theorem greedy_digits : Greedy digits :=
  (greedy_star_cls Char.isDigit).cls_seq _

theorem greedy_regexRange : Greedy regexRange := by
  have hnil : [] ∉ (seq (chr '-') digits).language := fun h => by
    obtain ⟨u, hu, v, -, heq⟩ := mem_language_seq.mp h
    rw [mem_language_chr.mp hu] at heq
    cases heq
  refine greedy_digits.seq ((greedy_digits.cls_seq _).opt hnil) fun u x hne _ hux t v hv => ?_
  obtain ⟨c, x, rfl⟩ := List.exists_cons_of_ne_nil hne
  have hc : c ≠ '-' := (mem_digits.mp hux).ne_of_mem (by simp) (by decide)
  rw [opt, rests, List.cons_append, rests_chr_seq hc, rests, List.nil_append] at hv
  exact List.mem_singleton.mp hv

theorem greedy_regexRangeList : Greedy regexRangeList := by
  have hcomma : ∀ c : Char, c.isDigit = true ∨ c = '-' → c ≠ ',' := by
    rintro c (hc | rfl)
    · rintro rfl
      exact absurd hc (by decide)
    · decide
  refine greedy_regexRange.seq ((greedy_regexRange.cls_seq _).star ?_) ?_
  · intro u x hne hu hux t
    obtain ⟨_, hu₀, u, -, rfl⟩ := mem_language_seq.mp hu
    obtain ⟨_, hw₀, w, hw, heq⟩ := mem_language_seq.mp hux
    rw [mem_language_chr.mp hu₀, mem_language_chr.mp hw₀] at heq
    obtain ⟨c, x, rfl⟩ := List.exists_cons_of_ne_nil hne
    have htail : w = u ++ c :: x := (List.cons.inj heq).2
    have hmem : c ∈ w := by
      rw [htail]
      simp
    exact rests_chr_seq (hcomma c (forall_mem_of_mem_regexRange hw c hmem)) _ _
  · intro u x hne _ hux t v hv
    obtain ⟨c, x, rfl⟩ := List.exists_cons_of_ne_nil hne
    have hc := hcomma c (forall_mem_of_mem_regexRange hux c (by simp))
    rw [rests_star, List.cons_append, rests_chr_seq hc] at hv
    exact List.mem_singleton.mp hv

/-! ## One range -/

theorem item_ne_nil (h : Item w a b) : w ≠ [] := by
  rcases h with ⟨hw, -⟩ | ⟨u, v, rfl, -, -⟩
  · exact hw.ne
  · simp

theorem first_digits (hw : Numeral w a) (ht : ∀ c ∈ t.head?, c.isDigit = false) :
    first digits (w ++ t) = some t :=
  first_plus_cls (mem_digits_of_numeral hw) ht

theorem first_digits_cons {c : Char} (hc : c.isDigit = false) : first digits (c :: t) = none := by
  rw [digits, first_plus_cls_cons, hc]
  rfl

/-- An item is found whole where neither a digit nor a minus follows. -/
theorem first_regexRange (h : Item w a b) (ht : ∀ c ∈ t.head?, c.isDigit = false ∧ c ≠ '-') :
    first regexRange (w ++ t) = some t := by
  have htotal : ∀ s, (first (opt (seq (chr '-') digits)) s).isSome := fun s => by
    rw [first_opt]
    rfl
  rw [regexRange, first_seq_of_total htotal]
  rcases h with ⟨hw, -⟩ | ⟨u, v, rfl, hu, hv⟩
  · rw [first_digits hw fun c hc => (ht c hc).1, Option.bind_some, first_opt]
    have hnone : first (seq (chr '-') digits) t = none := by
      cases t with
      | nil => rfl
      | cons c t =>
        rw [chr, first_seq_cls, first_cls_cons, if_neg (by simpa using (ht c rfl).2)]
        rfl
    rw [hnone]
    rfl
  · have hminus : first (seq (chr '-') digits) ('-' :: (v ++ t)) = some t := by
      rw [chr, first_seq_cls, first_cls_cons, if_pos (by simp)]
      exact first_digits hv fun c hc => (ht c hc).1
    rw [List.append_assoc, List.cons_append, first_digits hu (by simp), Option.bind_some,
      first_opt, hminus]
    rfl

theorem findAll_digits (hw : Numeral w a) : digits.findAll w = [w] := by
  have hall := findAll_of_first (t := []) (first_digits hw (by simp)) hw.ne
  rwa [List.append_nil, findAll_nil] at hall

theorem findAll_digits_digits (hu : Numeral u a) (hv : Numeral v b) :
    digits.findAll (u ++ '-' :: v) = [u, v] := by
  rw [findAll_of_first (first_digits hu (by simp)) hu.ne,
    findAll_cons_of_none (first_digits_cons (by decide)), findAll_digits hv]

theorem stoulAt_eq_ok_iff {vec : List (List Char)} {i : Nat} (h : Numeral (vec.getD i []) a)
    {x : UInt64} : stoulAt vec i = .ok x ↔ a = x.toNat := by
  rw [stoulAt, ← stoul_numeral_eq_ok_iff h]
  cases stoul (vec.getD i []) <;> simp [Except.mapError]

theorem stoulAt_ne_bug (vec : List (List Char)) (i : Nat) : stoulAt vec i ≠ .error .bug := by
  rw [stoulAt]
  cases stoul (vec.getD i []) <;> simp [Except.mapError]

/-- What `range` does with the digits that it finds. -/
theorem range_of_findAll {vec : List (List Char)} {x y : UInt64} (hw : ∃ a b, Item w a b)
    (hvec : digits.findAll w = vec) (hfound : ¬(2 < vec.length ∨ vec.length = 0)) :
    (range w = .ok (x, y) ↔ stoulAt vec 0 = .ok x ∧
      (if vec.length = 2 then stoulAt vec 1 else pure x) = .ok y ∧ x ≤ y) ∧
      range w ≠ .error .bug := by
  have hmatch : regexRange.isMatch w = true := isMatch_iff.mpr (mem_regexRange.mpr hw)
  simp only [range, hmatch, hvec, bind_eq_ok_iff, bind_eq_error_iff, raiseIf_eq_ok_iff,
    raiseIf_eq_error_iff, ne_eq]
  constructor
  · constructor
    · rintro ⟨-, -, -, -, x', hx, y', hy, -, hle, hxy⟩
      cases hxy
      exact ⟨hx, hy, UInt64.not_lt.mp hle⟩
    · rintro ⟨hx, hy, hle⟩
      exact ⟨(), by simp, (), hfound, x, hx, y, hy, (), UInt64.not_lt.mpr hle, rfl⟩
  · rintro (⟨h, -⟩ | ⟨-, -, ⟨h, -⟩ | ⟨-, -, hx | ⟨x', -, hy | ⟨y', -, ⟨-, h⟩ | ⟨-, -, h⟩⟩⟩⟩⟩)
    · cases h
    · exact hfound h
    · exact stoulAt_ne_bug _ _ hx
    · split_ifs at hy
      · exact stoulAt_ne_bug _ _ hy
      · cases hy
    · cases h
    · cases h

/-- `range` on an item. -/
theorem range_item (h : Item w a b) {x y : UInt64} :
    (range w = .ok (x, y) ↔ a = x.toNat ∧ b = y.toNat ∧ x ≤ y) ∧ range w ≠ .error .bug := by
  rcases h with ⟨hw, rfl⟩ | ⟨u, v, rfl, hu, hv⟩
  · obtain ⟨hok, hbug⟩ := range_of_findAll (x := x) (y := y) ⟨_, _, .inl ⟨hw, rfl⟩⟩
      (findAll_digits hw) (by simp)
    refine ⟨hok.trans ?_, hbug⟩
    rw [stoulAt_eq_ok_iff (a := b) (by simpa using hw), if_neg (by simp)]
    constructor
    · rintro ⟨rfl, hy, hle⟩
      cases hy
      exact ⟨rfl, rfl, hle⟩
    · rintro ⟨hx, hy, hle⟩
      exact ⟨hx, congrArg Except.ok (UInt64.toNat_inj.mp (hx.symm.trans hy)), hle⟩
  · obtain ⟨hok, hbug⟩ := range_of_findAll (x := x) (y := y) ⟨_, _, .inr ⟨u, v, rfl, hu, hv⟩⟩
      (findAll_digits_digits hu hv) (by simp)
    refine ⟨hok.trans ?_, hbug⟩
    rw [stoulAt_eq_ok_iff (a := a) (by simpa using hu), if_pos (by simp),
      stoulAt_eq_ok_iff (a := b) (by simpa using hv)]

/-- `range` gives the range that an item spells. -/
theorem range_eq_ok_iff {r : UInt64 × UInt64} :
    range w = .ok r ↔ Item w r.1.toNat r.2.toNat ∧ r.1 ≤ r.2 := by
  constructor
  · intro hr
    by_cases hmatch : regexRange.isMatch w = true
    · obtain ⟨a, b, h⟩ := mem_regexRange.mp (isMatch_iff.mp hmatch)
      obtain ⟨rfl, rfl, hle⟩ := (range_item h).1.mp hr
      exact ⟨h, hle⟩
    · simp only [range, bind_eq_ok_iff, raiseIf_eq_ok_iff, Bool.not_eq_false] at hr
      obtain ⟨-, h, -⟩ := hr
      exact absurd h hmatch
  · rintro ⟨h, hle⟩
    exact (range_item h).1.mpr ⟨rfl, rfl, hle⟩

theorem range_ne_bug (w : List Char) : range w ≠ .error .bug := by
  intro hr
  by_cases hmatch : regexRange.isMatch w = true
  · obtain ⟨a, b, h⟩ := mem_regexRange.mp (isMatch_iff.mp hmatch)
    exact (range_item h (x := 0) (y := 0)).2 hr
  · rw [range, raiseIf, if_pos (by simpa using hmatch)] at hr
    cases hr

/-! ## The list -/

/-- The search finds the items that the commas separate. -/
theorem findAll_items {items : List (List Char)} (h : ∀ w ∈ items, w ∈ regexRange.language) :
    regexRange.findAll (List.intercalate [','] items) = items := by
  have hcomma : ∀ t, first regexRange (',' :: t) = none := fun t => by
    rw [first_eq_none_iff]
    rintro w hw hpre
    obtain ⟨a, b, hitem⟩ := mem_regexRange.mp hw
    obtain ⟨c, w, rfl⟩ := List.exists_cons_of_ne_nil (item_ne_nil hitem)
    have hc := forall_mem_of_mem_regexRange hw c (by simp)
    rw [(List.cons_prefix_cons.mp hpre).1] at hc
    exact absurd hc (by decide)
  refine findAll_intercalate hcomma items fun w hw => ?_
  obtain ⟨a, b, hitem⟩ := mem_regexRange.mp (h w hw)
  refine ⟨item_ne_nil hitem, ?_, fun t => ?_⟩
  · simpa using first_regexRange (t := []) hitem (by simp)
  · exact first_regexRange hitem (by simp)

theorem mem_regexRangeList {ranges : List (UInt64 × UInt64)} (h : Lists s ranges) :
    s ∈ regexRangeList.language := by
  obtain ⟨items, hne, rfl, hitems⟩ := h
  refine mem_language_sepBy.mpr ⟨items, hne, rfl, fun w hw => ?_⟩
  obtain ⟨r, hr, -⟩ := exists_of_forall₂ hitems w hw
  exact mem_regexRange.mpr ⟨_, _, hr⟩

theorem rangeList_items {items : List (List Char)} (hne : items ≠ [])
    (h : ∀ w ∈ items, w ∈ regexRange.language) :
    rangeList (List.intercalate [','] items) = items.mapM range := by
  have hmatch : regexRangeList.isMatch (List.intercalate [','] items) = true :=
    isMatch_iff.mpr (mem_language_sepBy.mpr ⟨items, hne, rfl, h⟩)
  have hfound : ¬items.length < 1 := Nat.not_lt.mpr (List.length_pos_iff.mpr hne)
  simp only [rangeList, hmatch, findAll_items h, raiseIf, if_neg hfound, Bool.true_eq_false,
    if_false]
  rfl

theorem nil_not_mem_regexRangeList : [] ∉ regexRangeList.language := by
  intro h
  obtain ⟨u, hu, v, -, heq⟩ := mem_language_seq.mp h
  obtain ⟨rfl, -⟩ := List.append_eq_nil_iff.mp heq
  obtain ⟨a, b, hitem⟩ := mem_regexRange.mp hu
  exact item_ne_nil hitem rfl

/-- `rangeList` accepts the lists of its grammar and gives one range for each item, in order. -/
theorem rangeList_spec (s : List Char) :
    (∀ rs, rangeList s = .ok rs ↔ Lists s rs) ∧ rangeList s ≠ .error .bug := by
  by_cases hmatch : regexRangeList.isMatch s = true
  · obtain ⟨items, hne, rfl, h⟩ := mem_language_sepBy.mp (isMatch_iff.mp hmatch)
    refine ⟨fun rs => ⟨fun hrs => ?_, ?_⟩, fun hbug => ?_⟩
    · rw [rangeList_items hne h, mapM_eq_ok_iff] at hrs
      exact ⟨items, hne, rfl, hrs.imp fun _ _ hr => range_eq_ok_iff.mp hr⟩
    · rintro ⟨items', hne', hs, hall⟩
      have h' : ∀ w ∈ items', w ∈ regexRange.language := fun w hw => by
        obtain ⟨r, hr, -⟩ := exists_of_forall₂ hall w hw
        exact mem_regexRange.mpr ⟨_, _, hr⟩
      rw [hs, rangeList_items hne' h', mapM_eq_ok_iff]
      exact hall.imp fun _ _ hr => range_eq_ok_iff.mpr hr
    · rw [rangeList_items hne h] at hbug
      obtain ⟨w, -, hw⟩ := mapM_eq_error hbug
      exact range_ne_bug w hw
  · have hthrow : rangeList s = .error (.invalidArgument s) := by
      rw [rangeList, raiseIf, if_pos (by simpa using hmatch)]
      rfl
    refine ⟨fun rs => ⟨fun hrs => ?_, ?_⟩, by simp [hthrow]⟩
    · rw [hthrow] at hrs
      cases hrs
    · exact fun hlists => absurd (isMatch_iff.mpr (mem_regexRangeList hlists)) hmatch

/-- `rangeList` parses its grammar, and the assertions of both functions never fire. -/
theorem rangeList_grammar (s : List Char) :
    (∀ rs, rangeList s = .ok rs ↔ Lists s rs) ∧ rangeList s ≠ .error .bug ∧
      range s ≠ .error .bug :=
  ⟨(rangeList_spec s).1, (rangeList_spec s).2, range_ne_bug s⟩

example : rangeList "80,1000-1002".toList = .ok [(80, 80), (1000, 1002)] := by
  decide +kernel

end ValueParser

end NetBabbler
