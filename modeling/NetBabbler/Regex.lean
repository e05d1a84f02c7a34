import Mathlib.Computability.Language
import Mathlib.Tactic

/-!
# Regular expressions by backtracking

`Regex.rests r s` lists what a backtracking matcher for `r` at the start of `s` can leave
of `s`, in the order in which it tries : the left alternative before the right one, one
more round of a star before none, and no round of a star that consumes nothing. The head
of the list is what it settles for (`first`), and a match of the whole text is an entry
that leaves nothing (`isMatch`). `findAll` collects the matches of a search that goes on
where the last match ended.

`mem_rests` : the entries are the ways to split a word of the language off `s`. The rest
says which of them comes first : `first_seq` where what follows never fails,
`first_star_of_some`, `first_star_of_none` and `first_star_cls` for a star, and `Greedy` for
expressions whose entries come in the order of their length.
-/

/-- Regular expressions over an alphabet with classes of letters. -/
inductive Regex (α : Type*) where
  | eps
  | cls (p : α → Bool)
  | seq (r r' : Regex α)
  | alt (r r' : Regex α)
  | star (r : Regex α)

namespace Regex

variable {α : Type*}

/-! ## Derived expressions -/

/-- A letter that stands for itself. -/
def chr [DecidableEq α] (a : α) : Regex α :=
  cls fun b => decide (b = a)

/-- A word that stands for itself. -/
def word [DecidableEq α] : List α → Regex α
  | [] => eps
  | a :: as => seq (chr a) (word as)

/-- `r+`. -/
def plus (r : Regex α) : Regex α :=
  seq r (star r)

/-- `r?`. -/
def opt (r : Regex α) : Regex α :=
  alt r eps

/-- `r{n}`. -/
def times (r : Regex α) : Nat → Regex α
  | 0 => eps
  | n + 1 => seq r (times r n)

/-- `r{0,n}`. -/
def upTo (r : Regex α) : Nat → Regex α
  | 0 => eps
  | n + 1 => opt (seq r (upTo r n))

/-- `r{n,m}`. -/
def rep (r : Regex α) (n m : Nat) : Regex α :=
  seq (times r n) (upTo r (m - n))

/-- `r{n,}`. -/
def atLeast (r : Regex α) (n : Nat) : Regex α :=
  seq (times r n) (star r)

/-! ## Matching -/

/-- The rests after any number of rounds of what `f` matches, of which there are at most `n`. -/
def starRests (f : List α → List (List α)) : Nat → List α → List (List α)
  | 0, s => [s]
  | n + 1, s => ((f s).filter fun t => t.length < s.length).flatMap (starRests f n) ++ [s]

/-- What a match of `r` at the start of `s` can leave, in the order of the attempts. -/
def rests : Regex α → List α → List (List α)
  | eps, s => [s]
  | cls _, [] => []
  | cls p, a :: s => if p a then [s] else []
  | seq r r', s => (rests r s).flatMap (rests r')
  | alt r r', s => rests r s ++ rests r' s
  | star r, s => starRests (rests r) s.length s

/-- The rest that the matcher settles for. -/
def first (r : Regex α) (s : List α) : Option (List α) :=
  (rests r s).head?

/-- `r` matches the whole of `s`. -/
def isMatch (r : Regex α) (s : List α) : Bool :=
  (rests r s).any List.isEmpty

/-- `n` more letters of a search, which does not stop at an empty match. -/
def findAllLoop (r : Regex α) : Nat → List α → List (List α)
  | 0, _ => []
  | _ + 1, [] => []
  | n + 1, a :: s =>
    match (first r (a :: s)).filter fun t => t.length ≤ s.length with
    | some t => (a :: s).take (s.length + 1 - t.length) :: findAllLoop r n t
    | none => findAllLoop r n s

/-- The matches of `r` in `s`, one after the other. An empty match is passed over. -/
def findAll (r : Regex α) (s : List α) : List (List α) :=
  findAllLoop r s.length s

/-! ## The language -/

/-- The words that an expression matches. -/
def language : Regex α → Language α
  | eps => 1
  | cls p => {w | ∃ a, p a = true ∧ w = [a]}
  | seq r r' => r.language * r'.language
  | alt r r' => r.language + r'.language
  | star r => KStar.kstar r.language

variable {r r' : Regex α} {p q : α → Bool} {a : α} {s t : List α}

theorem mem_language_cls : s ∈ (cls p).language ↔ ∃ a, p a = true ∧ s = [a] := Iff.rfl

theorem mem_language_seq :
    s ∈ (seq r r').language ↔ ∃ u ∈ r.language, ∃ v ∈ r'.language, u ++ v = s :=
  Language.mem_mul

theorem mem_language_alt : s ∈ (alt r r').language ↔ s ∈ r.language ∨ s ∈ r'.language := Iff.rfl

theorem mem_language_opt : s ∈ (opt r).language ↔ s ∈ r.language ∨ s = [] := Iff.rfl

theorem mem_language_chr [DecidableEq α] : s ∈ (chr a).language ↔ s = [a] := by
  rw [chr, mem_language_cls]
  constructor
  · rintro ⟨b, hb, rfl⟩
    rw [of_decide_eq_true hb]
  · rintro rfl
    exact ⟨a, by simp, rfl⟩

theorem mem_language_word [DecidableEq α] {as : List α} : s ∈ (word as).language ↔ s = as := by
  induction as generalizing s with
  | nil => exact Iff.rfl
  | cons a as ih =>
    rw [word, mem_language_seq]
    constructor
    · rintro ⟨u, hu, v, hv, rfl⟩
      rw [mem_language_chr.mp hu, ih.mp hv]
      rfl
    · rintro rfl
      exact ⟨[a], mem_language_chr.mpr rfl, as, ih.mpr rfl, rfl⟩

theorem mem_language_star_cls : s ∈ (star (cls p)).language ↔ ∀ a ∈ s, p a = true := by
  constructor
  · intro hs a ha
    obtain ⟨words, rfl, hwords⟩ := Language.mem_kstar.mp hs
    obtain ⟨w, hw, haw⟩ := List.mem_flatten.mp ha
    obtain ⟨b, hb, rfl⟩ := hwords w hw
    rwa [List.mem_singleton.mp haw]
  · intro hs
    refine Language.mem_kstar.mpr ⟨s.map fun a => [a], ?_, ?_⟩
    · induction s with
      | nil => rfl
      | cons a s ih =>
        rw [List.map_cons, List.flatten_cons, ← ih fun b hb => hs b (by simp [hb])]
        rfl
    · intro w hw
      obtain ⟨a, ha, rfl⟩ := List.mem_map.mp hw
      exact ⟨a, hs a ha, rfl⟩

theorem mem_language_plus_cls :
    s ∈ (plus (cls p)).language ↔ s ≠ [] ∧ ∀ a ∈ s, p a = true := by
  rw [plus, mem_language_seq]
  constructor
  · rintro ⟨_, ⟨a, ha, rfl⟩, v, hv, rfl⟩
    refine ⟨by simp, fun b hb => ?_⟩
    rcases List.mem_cons.mp hb with rfl | hb
    · exact ha
    · exact mem_language_star_cls.mp hv b hb
  · rintro ⟨hne, hs⟩
    obtain ⟨a, v, rfl⟩ := List.exists_cons_of_ne_nil hne
    exact ⟨[a], ⟨a, hs a (by simp), rfl⟩, v,
      mem_language_star_cls.mpr fun b hb => hs b (by simp [hb]), rfl⟩

theorem mem_language_times_cls {n : Nat} :
    s ∈ (times (cls p) n).language ↔ s.length = n ∧ ∀ a ∈ s, p a = true := by
  induction n generalizing s with
  | zero =>
    refine ⟨?_, fun h => List.length_eq_zero_iff.mp h.1⟩
    rintro rfl
    simp
  | succ n ih =>
    rw [times, mem_language_seq]
    constructor
    · rintro ⟨_, ⟨a, ha, rfl⟩, v, hv, rfl⟩
      obtain ⟨hlen, hall⟩ := ih.mp hv
      refine ⟨by simp [hlen], fun b hb => ?_⟩
      rcases List.mem_cons.mp hb with rfl | hb
      · exact ha
      · exact hall b hb
    · rintro ⟨hlen, hs⟩
      obtain ⟨a, v, rfl⟩ := List.exists_cons_of_length_eq_add_one hlen
      exact ⟨[a], ⟨a, hs a (by simp), rfl⟩, v,
        ih.mpr ⟨by simpa using hlen, fun b hb => hs b (by simp [hb])⟩, rfl⟩

theorem mem_language_atLeast_cls {n : Nat} :
    s ∈ (atLeast (cls p) n).language ↔ n ≤ s.length ∧ ∀ a ∈ s, p a = true := by
  rw [atLeast, mem_language_seq]
  constructor
  · rintro ⟨u, hu, v, hv, rfl⟩
    obtain ⟨hlen, hall⟩ := mem_language_times_cls.mp hu
    refine ⟨by rw [List.length_append]; omega, fun a ha => ?_⟩
    rcases List.mem_append.mp ha with ha | ha
    · exact hall a ha
    · exact mem_language_star_cls.mp hv a ha
  · rintro ⟨hlen, hs⟩
    refine ⟨s.take n, mem_language_times_cls.mpr ⟨?_, ?_⟩, s.drop n,
      mem_language_star_cls.mpr ?_, List.take_append_drop n s⟩
    · rw [List.length_take, min_eq_left hlen]
    · exact fun a ha => hs a (List.mem_of_mem_take ha)
    · exact fun a ha => hs a (List.mem_of_mem_drop ha)

/-- `r(ar)*` matches words of `r` with `a` in between. -/
theorem mem_language_sepBy [DecidableEq α] :
    s ∈ (seq r (star (seq (chr a) r))).language ↔
      ∃ words, words ≠ [] ∧ s = List.intercalate [a] words ∧ ∀ w ∈ words, w ∈ r.language := by
  have hjoin : ∀ (words : List (List α)) (w : List α),
      List.intercalate [a] (w :: words) = w ++ (words.map (a :: ·)).flatten := by
    intro words
    induction words with
    | nil => simp
    | cons w' words ih =>
      intro w
      rw [List.intercalate_cons_cons, ih w', List.append_assoc]
      rfl
  have hchunks : ∀ chunks : List (List α), (∀ c ∈ chunks, c ∈ (seq (chr a) r).language) →
      ∃ words : List (List α), chunks = words.map (a :: ·) ∧ ∀ w ∈ words, w ∈ r.language := by
    intro chunks
    induction chunks with
    | nil => exact fun _ => ⟨[], rfl, by simp⟩
    | cons chunk chunks ih =>
      intro h
      obtain ⟨hchunk, h⟩ := List.forall_mem_cons.mp h
      obtain ⟨words, rfl, hwords⟩ := ih h
      obtain ⟨u, hu, v, hv, rfl⟩ := mem_language_seq.mp hchunk
      rw [mem_language_chr.mp hu]
      exact ⟨v :: words, rfl, List.forall_mem_cons.mpr ⟨hv, hwords⟩⟩
  rw [mem_language_seq]
  constructor
  · rintro ⟨w, hw, t, ht, rfl⟩
    obtain ⟨chunks, rfl, h⟩ := Language.mem_kstar.mp ht
    obtain ⟨words, rfl, hwords⟩ := hchunks chunks h
    exact ⟨w :: words, by simp, (hjoin words w).symm, List.forall_mem_cons.mpr ⟨hw, hwords⟩⟩
  · rintro ⟨words, hne, rfl, h⟩
    obtain ⟨w, words, rfl⟩ := List.exists_cons_of_ne_nil hne
    obtain ⟨hw, hwords⟩ := List.forall_mem_cons.mp h
    refine ⟨w, hw, _, Language.mem_kstar.mpr ⟨words.map (a :: ·), rfl, ?_⟩, (hjoin words w).symm⟩
    intro chunk hchunk
    obtain ⟨v, hv, rfl⟩ := List.mem_map.mp hchunk
    exact mem_language_seq.mpr ⟨[a], mem_language_chr.mpr rfl, v, hwords v hv, rfl⟩

/-! ### Letters -/

/-- Every letter that `r` matches is in `P`. -/
def Over (P : α → Prop) : Regex α → Prop
  | eps => True
  | cls p => ∀ a, p a = true → P a
  | seq r r' => Over P r ∧ Over P r'
  | alt r r' => Over P r ∧ Over P r'
  | star r => Over P r

theorem Over.forall_mem {P : α → Prop} {r : Regex α} (h : r.Over P) {w : List α}
    (hw : w ∈ r.language) : ∀ a ∈ w, P a := by
  induction r generalizing w with
  | eps =>
    intro a ha
    rw [show w = [] from hw] at ha
    cases ha
  | cls p =>
    obtain ⟨b, hb, rfl⟩ := hw
    intro a ha
    rw [List.mem_singleton.mp ha]
    exact h b hb
  | seq r r' ih ih' =>
    obtain ⟨u, hu, v, hv, rfl⟩ := mem_language_seq.mp hw
    exact List.forall_mem_append.mpr ⟨ih h.1 hu, ih' h.2 hv⟩
  | alt r r' ih ih' =>
    rcases hw with hw | hw
    · exact ih h.1 hw
    · exact ih' h.2 hw
  | star r ih =>
    obtain ⟨words, rfl, hwords⟩ := Language.mem_kstar.mp hw
    intro a ha
    obtain ⟨v, hv, hav⟩ := List.mem_flatten.mp ha
    exact ih h (hwords v hv) a hav

section Over

variable {P : α → Prop}

theorem over_chr [DecidableEq α] (h : P a) : (chr a).Over P := fun b hb => by
  rwa [of_decide_eq_true hb]

theorem over_word [DecidableEq α] : ∀ {as : List α}, (∀ a ∈ as, P a) → (word as).Over P
  | [], _ => trivial
  | _ :: _, h => ⟨over_chr (h _ (by simp)), over_word fun a ha => h a (by simp [ha])⟩

theorem Over.seq (h : r.Over P) (h' : r'.Over P) : (seq r r').Over P :=
  ⟨h, h'⟩

theorem Over.alt (h : r.Over P) (h' : r'.Over P) : (alt r r').Over P :=
  ⟨h, h'⟩

theorem Over.plus (h : r.Over P) : (plus r).Over P :=
  ⟨h, h⟩

theorem Over.opt (h : r.Over P) : (opt r).Over P :=
  ⟨h, trivial⟩

theorem Over.times (h : r.Over P) : ∀ n, (times r n).Over P
  | 0 => trivial
  | n + 1 => ⟨h, h.times n⟩

theorem Over.upTo (h : r.Over P) : ∀ n, (upTo r n).Over P
  | 0 => trivial
  | n + 1 => ⟨⟨h, h.upTo n⟩, trivial⟩

theorem Over.rep (h : r.Over P) (n m : Nat) : (rep r n m).Over P :=
  ⟨h.times n, h.upTo (m - n)⟩

theorem Over.atLeast (h : r.Over P) (n : Nat) : (atLeast r n).Over P :=
  ⟨h.times n, h⟩

end Over

/-! ## What the matcher finds -/

theorem mem_starRests {L : Language α} {f : List α → List (List α)}
    (hf : ∀ s t, t ∈ f s ↔ ∃ u ∈ L, s = u ++ t) (n : Nat) :
    ∀ s t, s.length ≤ n → (t ∈ starRests f n s ↔ ∃ u ∈ KStar.kstar L, s = u ++ t) := by
  induction n with
  | zero =>
    intro s t hlen
    rw [List.length_eq_zero_iff.mp (Nat.le_zero.mp hlen), starRests, List.mem_singleton]
    constructor
    · rintro rfl
      exact ⟨[], Language.nil_mem_kstar L, rfl⟩
    · rintro ⟨u, -, hu⟩
      exact (List.append_eq_nil_iff.mp hu.symm).2
  | succ n ih =>
    intro s t hlen
    simp only [starRests, List.mem_append, List.mem_flatMap, List.mem_filter, List.mem_singleton,
      decide_eq_true_eq]
    constructor
    · rintro (⟨t₁, ⟨ht₁, hlt⟩, ht⟩ | rfl)
      · obtain ⟨u, hu, rfl⟩ := (hf s t₁).mp ht₁
        obtain ⟨v, hv, rfl⟩ := (ih t₁ t (by omega)).mp ht
        obtain ⟨words, rfl, hwords⟩ := Language.mem_kstar.mp hv
        refine ⟨u ++ words.flatten, ?_, (List.append_assoc ..).symm⟩
        exact Language.mem_kstar.mpr ⟨u :: words, rfl, List.forall_mem_cons.mpr ⟨hu, hwords⟩⟩
      · exact ⟨[], Language.nil_mem_kstar L, rfl⟩
    · rintro ⟨u, hu, rfl⟩
      obtain ⟨words, rfl, hwords⟩ := Language.mem_kstar_iff_exists_nonempty.mp hu
      cases words with
      | nil => exact .inr rfl
      | cons w words =>
        obtain ⟨hw, hwords⟩ := List.forall_mem_cons.mp hwords
        have hpos := List.length_pos_iff.mpr hw.2
        have hrest : words.flatten ∈ KStar.kstar L :=
          Language.join_mem_kstar fun v hv => (hwords v hv).1
        rw [List.flatten_cons, List.append_assoc] at hlen ⊢
        rw [List.length_append] at hlen
        refine .inl ⟨words.flatten ++ t, ⟨(hf _ _).mpr ⟨w, hw.1, rfl⟩, ?_⟩, ?_⟩
        · simp only [List.length_append]
          omega
        · exact (ih _ _ (by omega)).mpr ⟨words.flatten, hrest, rfl⟩

/-- The matcher finds the words of the language. -/
theorem mem_rests (r : Regex α) (s t : List α) :
    t ∈ rests r s ↔ ∃ u ∈ r.language, s = u ++ t := by
  induction r generalizing s t with
  | eps =>
    rw [rests, List.mem_singleton]
    constructor
    · rintro rfl
      exact ⟨[], rfl, rfl⟩
    · rintro ⟨u, rfl, rfl⟩
      rfl
  | cls p =>
    constructor
    · intro ht
      cases s with
      | nil => simp [rests] at ht
      | cons a s =>
        rw [rests] at ht
        split_ifs at ht with hp
        · exact ⟨[a], ⟨a, hp, rfl⟩, by rw [List.mem_singleton.mp ht]; rfl⟩
        · cases ht
    · rintro ⟨_, ⟨a, hp, rfl⟩, rfl⟩
      simp [rests, hp]
  | seq r r' ih ih' =>
    simp only [rests, List.mem_flatMap, ih, ih', mem_language_seq]
    constructor
    · rintro ⟨_, ⟨u, hu, rfl⟩, v, hv, rfl⟩
      exact ⟨u ++ v, ⟨u, hu, v, hv, rfl⟩, (List.append_assoc ..).symm⟩
    · rintro ⟨_, ⟨u, hu, v, hv, rfl⟩, rfl⟩
      exact ⟨v ++ t, ⟨u, hu, List.append_assoc ..⟩, v, hv, rfl⟩
  | alt r r' ih ih' =>
    simp only [rests, List.mem_append, ih, ih', mem_language_alt]
    constructor
    · rintro (⟨u, hu, rfl⟩ | ⟨u, hu, rfl⟩)
      · exact ⟨u, .inl hu, rfl⟩
      · exact ⟨u, .inr hu, rfl⟩
    · rintro ⟨u, hu | hu, rfl⟩
      · exact .inl ⟨u, hu, rfl⟩
      · exact .inr ⟨u, hu, rfl⟩
  | star r ih => exact mem_starRests (fun s t => ih s t) s.length s t le_rfl

theorem isMatch_iff : r.isMatch s = true ↔ s ∈ r.language := by
  simp only [isMatch, List.any_eq_true, List.isEmpty_iff]
  constructor
  · rintro ⟨_, ht, rfl⟩
    obtain ⟨u, hu, rfl⟩ := (mem_rests r s []).mp ht
    rwa [List.append_nil]
  · exact fun hs => ⟨[], (mem_rests r s []).mpr ⟨s, hs, (List.append_nil s).symm⟩, rfl⟩

theorem mem_rests_of_first (h : first r s = some t) : t ∈ rests r s :=
  List.mem_of_mem_head? h

theorem first_eq_none_iff : first r s = none ↔ ∀ u ∈ r.language, ¬u <+: s := by
  rw [first, List.head?_eq_none_iff, List.eq_nil_iff_forall_not_mem]
  constructor
  · rintro h u hu ⟨t, rfl⟩
    exact h t ((mem_rests r _ t).mpr ⟨u, hu, rfl⟩)
  · intro h t ht
    obtain ⟨u, hu, rfl⟩ := (mem_rests r s t).mp ht
    exact h u hu (List.prefix_append u t)

/-! ## What the matcher prefers -/

@[simp] theorem first_eps (s : List α) : first eps s = some s := rfl

@[simp] theorem first_cls_nil (p : α → Bool) : first (cls p) [] = none := rfl

@[simp] theorem first_cls_cons (p : α → Bool) (a : α) (s : List α) :
    first (cls p) (a :: s) = if p a then some s else none := by
  rw [first, rests]
  split_ifs <;> rfl

theorem first_alt (r r' : Regex α) (s : List α) :
    first (alt r r') s = (first r s).or (first r' s) := by
  rw [first, rests, List.head?_append]
  rfl

theorem first_opt (r : Regex α) (s : List α) : first (opt r) s = some ((first r s).getD s) := by
  rw [opt, first_alt, first_eps]
  cases first r s <;> rfl

theorem first_seq (r r' : Regex α) (s : List α) :
    first (seq r r') s = (rests r s).findSome? (first r') :=
  List.head?_flatMap

/-- What follows never fails, so the matcher need not go back. -/
theorem first_seq_of_total (h : ∀ t, (first r' t).isSome) (s : List α) :
    first (seq r r') s = (first r s).bind (first r') := by
  rw [first_seq, first]
  cases rests r s with
  | nil => rfl
  | cons t ts =>
    obtain ⟨t', ht'⟩ := Option.isSome_iff_exists.mp (h t)
    rw [List.findSome?_cons, ht', List.head?_cons, Option.bind_some, ht']

theorem first_seq_cls (p : α → Bool) (r : Regex α) (s : List α) :
    first (seq (cls p) r) s = (first (cls p) s).bind (first r) := by
  rw [first_seq, first]
  cases s with
  | nil => rfl
  | cons a s =>
    rw [rests]
    split_ifs
    · rw [List.findSome?_singleton]
      rfl
    · rfl

/-! ### Stars -/

/-- Rounds beyond the length of the text make no difference. -/
theorem starRests_eq (f : List α → List (List α)) (n : Nat) :
    ∀ s : List α, s.length ≤ n → starRests f n s = starRests f s.length s := by
  induction n using Nat.strong_induction_on with
  | h n ih =>
    intro s hlen
    cases n with
    | zero => rw [Nat.le_zero.mp hlen]
    | succ n =>
      cases hs : s.length with
      | zero =>
        simp [starRests, hs]
      | succ k =>
        rw [starRests, starRests]
        congr 1
        refine List.flatMap_congr fun t ht => ?_
        have hlt := of_decide_eq_true (List.mem_filter.mp ht).2
        rw [ih n (Nat.lt_succ_self n) t (by omega), ih k (by omega) t (by omega)]

theorem rests_star (r : Regex α) (s : List α) :
    rests (star r) s = ((rests r s).filter fun t => t.length < s.length).flatMap
      (rests (star r)) ++ [s] := by
  rw [rests, ← starRests_eq (rests r) (s.length + 1) s (Nat.le_succ _), starRests]
  congr 1
  refine List.flatMap_congr fun t ht => ?_
  have hlt := of_decide_eq_true (List.mem_filter.mp ht).2
  rw [starRests_eq (rests r) s.length t (by omega)]
  rfl

theorem isSome_first_star (r : Regex α) (s : List α) : (first (star r) s).isSome := by
  rw [first, rests_star, List.head?_append]
  cases List.head? _ <;> rfl

/-- A star goes on where another round matches. -/
theorem first_star_of_some (h : first r s = some t) (hlt : t.length < s.length) :
    first (star r) s = first (star r) t := by
  obtain ⟨ts, hts⟩ : ∃ ts, rests r s = t :: ts := List.head?_eq_some_iff.mp h
  obtain ⟨t', ht'⟩ := Option.isSome_iff_exists.mp (isSome_first_star r t)
  rw [ht', first, rests_star, hts, List.filter_cons_of_pos (by simpa using hlt),
    List.flatMap_cons, List.append_assoc, List.head?_append]
  rw [first] at ht'
  rw [ht']
  rfl

theorem first_star_of_none (h : first r s = none) : first (star r) s = some s := by
  rw [first, rests_star, List.head?_eq_none_iff.mp h]
  rfl

/-- A star of single letters takes all that there are. -/
theorem first_star_cls (p : α → Bool) (s : List α) :
    first (star (cls p)) s = some (s.dropWhile p) := by
  induction s with
  | nil => exact first_star_of_none rfl
  | cons a s ih =>
    by_cases hp : p a = true
    · rw [first_star_of_some (t := s) (by simp [hp]) (Nat.lt_succ_self _), ih,
        List.dropWhile_cons_of_pos hp]
    · rw [first_star_of_none (by simp [hp]), List.dropWhile_cons_of_neg hp]

theorem first_plus_cls_cons (p : α → Bool) (a : α) (s : List α) :
    first (plus (cls p)) (a :: s) = if p a then some (s.dropWhile p) else none := by
  rw [plus, first_seq_cls, first_cls_cons]
  split_ifs
  · exact first_star_cls p s
  · rfl

/-- All letters of a row are taken, up to one that is not of the class. -/
theorem first_plus_cls {w : List α} (hw : w ∈ (plus (cls p)).language)
    (ht : ∀ a ∈ t.head?, p a = false) : first (plus (cls p)) (w ++ t) = some t := by
  obtain ⟨hne, hall⟩ := mem_language_plus_cls.mp hw
  obtain ⟨a, w, rfl⟩ := List.exists_cons_of_ne_nil hne
  obtain ⟨ha, hall⟩ := List.forall_mem_cons.mp hall
  rw [List.cons_append, first_plus_cls_cons, if_pos ha, List.dropWhile_append_of_pos hall]
  cases t with
  | nil => rfl
  | cons b t => rw [List.dropWhile_cons_of_neg (by simp [ht b rfl])]

/-! ### Greedy expressions -/

/-- Longer matches are tried before shorter ones. -/
def Greedy (r : Regex α) : Prop :=
  ∀ s, (rests r s).Pairwise fun t t' => t.length < t'.length

theorem Greedy.first_eq_some_iff (h : Greedy r) : first r s = some t ↔
    t ∈ rests r s ∧ ∀ t' ∈ rests r s, t.length ≤ t'.length := by
  have hsorted := h s
  rw [first]
  cases hrests : rests r s with
  | nil => simp
  | cons t₀ ts =>
    rw [hrests] at hsorted
    obtain ⟨hhead, -⟩ := List.pairwise_cons.mp hsorted
    rw [List.head?_cons, Option.some_inj]
    constructor
    · rintro rfl
      refine ⟨by simp, fun t' ht' => ?_⟩
      rcases List.mem_cons.mp ht' with rfl | ht'
      · exact le_rfl
      · exact (hhead t' ht').le
    · rintro ⟨ht, hmin⟩
      rcases List.mem_cons.mp ht with rfl | ht
      · rfl
      · exact absurd (hmin t₀ (by simp)) (by have := hhead t ht; omega)

theorem greedy_cls (p : α → Bool) : Greedy (cls p) := by
  intro s
  cases s with
  | nil => exact .nil
  | cons a s =>
    rw [rests]
    split_ifs
    · exact List.pairwise_singleton _ _
    · exact .nil

theorem Greedy.cls_seq (h : Greedy r) (p : α → Bool) : Greedy (seq (cls p) r) := by
  intro s
  rw [rests]
  cases s with
  | nil => exact .nil
  | cons a s =>
    rw [rests]
    split_ifs
    · rw [List.flatMap_singleton]
      exact h s
    · exact .nil

/-- One letter behind a greedy expression. -/
theorem Greedy.seq_cls (h : Greedy r) (p : α → Bool) : Greedy (seq r (cls p)) := by
  intro s
  rw [rests, List.pairwise_flatMap]
  refine ⟨fun t _ => greedy_cls p t, (h s).imp ?_⟩
  intro t t' hlt u hu u' hu'
  obtain ⟨_, ⟨a, -, rfl⟩, rfl⟩ := (mem_rests _ _ _).mp hu
  obtain ⟨_, ⟨a', -, rfl⟩, rfl⟩ := (mem_rests _ _ _).mp hu'
  simpa using hlt

theorem greedy_star_cls (p : α → Bool) : Greedy (star (cls p)) := by
  intro s
  induction s with
  | nil => exact List.pairwise_singleton _ _
  | cons a s ih =>
    rw [rests_star, List.pairwise_append]
    have hone : ((rests (cls p) (a :: s)).filter fun t => t.length < (a :: s).length) =
        if p a then [s] else [] := by
      rw [rests]
      split_ifs <;> simp
    rw [hone]
    split_ifs
    · rw [List.flatMap_singleton]
      refine ⟨ih, List.pairwise_singleton _ _, fun t ht t' ht' => ?_⟩
      obtain ⟨u, -, rfl⟩ := (mem_rests _ _ _).mp ht
      rw [List.mem_singleton.mp ht', List.length_cons, List.length_append]
      omega
    · exact ⟨.nil, List.pairwise_singleton _ _, fun _ ht => absurd ht (by simp)⟩

theorem greedy_atLeast_cls (p : α → Bool) (n : Nat) : Greedy (atLeast (cls p) n) := by
  induction n with
  | zero =>
    intro s
    rw [atLeast, rests, times, rests, List.flatMap_singleton]
    exact greedy_star_cls p s
  | succ n ih =>
    intro s
    have hassoc : rests (atLeast (cls p) (n + 1)) s = rests (seq (cls p) (atLeast (cls p) n)) s := by
      simp only [atLeast, times, rests, List.flatMap_assoc]
    rw [hassoc]
    exact ih.cls_seq p s

/-- What a shorter match leaves goes on with the rest of a longer one. -/
theorem exists_append_of_rests (ht : t ∈ rests r s) {t' : List α} (ht' : t' ∈ rests r s)
    (hlt : t.length < t'.length) :
    ∃ u' x, x ≠ [] ∧ u' ∈ r.language ∧ u' ++ x ∈ r.language ∧ t' = x ++ t := by
  obtain ⟨u, hu, rfl⟩ := (mem_rests r s t).mp ht
  obtain ⟨u', hu', heq⟩ := (mem_rests r _ t').mp ht'
  rcases List.append_eq_append_iff.mp heq with ⟨x, rfl, rfl⟩ | ⟨x, rfl, rfl⟩
  · simp at hlt
  · refine ⟨u', x, ?_, hu', hu, rfl⟩
    rintro rfl
    simp at hlt

theorem Greedy.opt (h : Greedy r) (hr : [] ∉ r.language) : Greedy (opt r) := by
  intro s
  rw [Regex.opt, rests, rests, List.pairwise_append]
  refine ⟨h s, List.pairwise_singleton _ _, fun t ht t' ht' => ?_⟩
  obtain ⟨u, hu, rfl⟩ := (mem_rests r s t).mp ht
  have hne : u ≠ [] := fun h => hr (h ▸ hu)
  have hpos := List.length_pos_iff.mpr hne
  rw [List.mem_singleton.mp ht', List.length_append]
  omega

/-- Where `r` stops short, `r'` matches nothing. -/
theorem Greedy.seq (h : Greedy r) (h' : Greedy r')
    (hshort : ∀ u x, x ≠ [] → u ∈ r.language → u ++ x ∈ r.language →
      ∀ t, ∀ v ∈ rests r' (x ++ t), v = x ++ t) : Greedy (seq r r') := by
  intro s
  rw [rests, List.pairwise_flatMap]
  refine ⟨fun t _ => h' t, (List.Pairwise.and_mem.mp (h s)).imp ?_⟩
  rintro t t' ⟨ht, ht', hlt⟩ v hv v' hv'
  obtain ⟨u', x, hne, hu', hux, rfl⟩ := exists_append_of_rests ht ht' hlt
  obtain ⟨y, -, rfl⟩ := (mem_rests r' _ v).mp hv
  rw [hshort u' x hne hu' hux _ v' hv']
  simp only [List.length_append] at hlt ⊢
  omega

/-- Where a round stops short, there is no other. -/
theorem Greedy.star (h : Greedy r)
    (hshort : ∀ u x, x ≠ [] → u ∈ r.language → u ++ x ∈ r.language →
      ∀ t, rests r (x ++ t) = []) : Greedy (star r) := by
  intro s
  induction hn : s.length using Nat.strong_induction_on generalizing s with
  | h n ih =>
    rw [rests_star, List.pairwise_append, List.pairwise_flatMap]
    refine ⟨⟨fun t ht => ?_, ?_⟩, List.pairwise_singleton _ _, fun v hv v' hv' => ?_⟩
    · have hlt := of_decide_eq_true (List.mem_filter.mp ht).2
      exact ih t.length (by omega) t rfl
    · refine (List.Pairwise.and_mem.mp ((h s).filter _)).imp ?_
      rintro t t' ⟨ht, ht', hlt⟩ v hv v' hv'
      obtain ⟨u', x, hne, hu', hux, rfl⟩ := exists_append_of_rests (List.mem_filter.mp ht).1
        (List.mem_filter.mp ht').1 hlt
      obtain ⟨y, -, rfl⟩ := (mem_rests _ _ v).mp hv
      rw [rests_star, hshort u' x hne hu' hux _] at hv'
      rw [List.mem_singleton.mp hv']
      simp only [List.length_append] at hlt ⊢
      omega
    · obtain ⟨t, ht, hv⟩ := List.mem_flatMap.mp hv
      have hlt := of_decide_eq_true (List.mem_filter.mp ht).2
      obtain ⟨y, -, rfl⟩ := (mem_rests _ _ v).mp hv
      rw [List.mem_singleton.mp hv']
      rw [List.length_append] at hlt
      omega

/-- `u` is the longest word of `r` at the start of `u ++ t`. -/
def Longest (r : Regex α) (u t : List α) : Prop :=
  u ∈ r.language ∧ ∀ u' ∈ r.language, u' <+: u ++ t → u'.length ≤ u.length

/-- A greedy expression finds the longest of its words. -/
theorem Greedy.first_eq_some_iff_longest (h : Greedy r) :
    first r s = some t ↔ ∃ u, s = u ++ t ∧ Longest r u t := by
  rw [h.first_eq_some_iff, mem_rests]
  constructor
  · rintro ⟨⟨u, hu, rfl⟩, hmin⟩
    refine ⟨u, rfl, hu, fun u' hu' ⟨t', heq⟩ => ?_⟩
    have hlen := hmin t' ((mem_rests r _ _).mpr ⟨u', hu', heq.symm⟩)
    have hboth := congrArg List.length heq
    simp only [List.length_append] at hboth
    omega
  · rintro ⟨u, rfl, hu, hmax⟩
    refine ⟨⟨u, hu, rfl⟩, fun t' ht' => ?_⟩
    obtain ⟨u', hu', heq⟩ := (mem_rests r _ t').mp ht'
    have hlen := hmax u' hu' ⟨t', heq.symm⟩
    have hboth := congrArg List.length heq
    simp only [List.length_append] at hboth
    omega

/-- The whole of a text is preferred. -/
theorem Greedy.first_eq_nil (h : Greedy r) (hs : s ∈ r.language) : first r s = some [] :=
  h.first_eq_some_iff.mpr ⟨(mem_rests r s []).mpr ⟨s, hs, (List.append_nil s).symm⟩, by simp⟩

/-! ## Searching on -/

theorem findAllLoop_eq (r : Regex α) (n : Nat) :
    ∀ s : List α, s.length ≤ n → findAllLoop r n s = findAll r s := by
  induction n using Nat.strong_induction_on with
  | h n ih =>
    intro s hlen
    cases n with
    | zero =>
      rw [List.length_eq_zero_iff.mp (Nat.le_zero.mp hlen)]
      rfl
    | succ n =>
      cases s with
      | nil => rfl
      | cons a s =>
        rw [List.length_cons] at hlen
        rw [findAll, List.length_cons, findAllLoop, findAllLoop]
        cases hfirst : (first r (a :: s)).filter fun t => decide (t.length ≤ s.length) with
        | none => exact ih n (Nat.lt_succ_self n) s (by omega)
        | some t =>
          have hle : t.length ≤ s.length :=
            of_decide_eq_true (Option.filter_eq_some_iff.mp hfirst).2
          dsimp only
          rw [ih n (Nat.lt_succ_self n) t (by omega), ih s.length (by omega) t (by omega)]

@[simp] theorem findAll_nil (r : Regex α) : findAll r [] = [] := rfl

theorem findAll_of_first {w : List α} (h : first r (w ++ t) = some t) (hw : w ≠ []) :
    findAll r (w ++ t) = w :: findAll r t := by
  obtain ⟨a, w, rfl⟩ := List.exists_cons_of_ne_nil hw
  rw [List.cons_append] at h ⊢
  have hcut : (a :: (w ++ t)).take ((w ++ t).length + 1 - t.length) = a :: w := by
    rw [List.length_append, show w.length + t.length + 1 - t.length = (a :: w).length by
      rw [List.length_cons]; omega]
    show ((a :: w) ++ t).take (a :: w).length = a :: w
    exact List.take_left
  rw [findAll, List.length_cons, findAllLoop, h, Option.filter_some, if_pos (by simp)]
  show (a :: (w ++ t)).take _ :: findAllLoop r _ t = _
  rw [hcut, findAllLoop_eq r _ t (by simp)]

theorem findAll_cons_of_none (h : first r (a :: s) = none) : findAll r (a :: s) = findAll r s := by
  rw [findAll, List.length_cons, findAllLoop, h]
  exact findAllLoop_eq r _ s le_rfl

/-- Matches with one letter in between that starts none are found one by one. -/
theorem findAll_intercalate {sep : α} (hsep : ∀ t, first r (sep :: t) = none) :
    ∀ words : List (List α), (∀ w ∈ words, w ≠ [] ∧ first r w = some [] ∧
      ∀ t, first r (w ++ sep :: t) = some (sep :: t)) →
      findAll r (List.intercalate [sep] words) = words
  | [], _ => rfl
  | [w], h => by
    obtain ⟨hne, hw, -⟩ := h w (by simp)
    rw [List.intercalate_singleton]
    simpa using findAll_of_first (w := w) (t := []) (by simpa using hw) hne
  | w :: w' :: words, h => by
    obtain ⟨hne, -, hw⟩ := h w (by simp)
    rw [List.intercalate_cons_cons, List.append_assoc]
    show findAll r (w ++ sep :: List.intercalate [sep] (w' :: words)) = _
    rw [findAll_of_first (hw _) hne, findAll_cons_of_none (hsep _),
      findAll_intercalate hsep (w' :: words) fun v hv => h v (List.mem_cons_of_mem _ hv)]

end Regex
