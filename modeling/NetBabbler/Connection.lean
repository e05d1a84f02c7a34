import NetBabbler.Properties
import NetBabbler.ValueParser

/-!
# The destination

`cValueParser::clientConnection` : an optional protocol, a host and optional port ranges.
Each part is cut off the front of the text by a search for an anchored regular expression,
and what is behind the port ranges is not looked at.

`clientConnection_render` : the text of a destination is read as that destination.
-/

namespace NetBabbler

open Regex ValueParser

/-- The reference parameters of `clientConnection`. -/
structure Connection where
  proto : Properties
  remoteHost : List Char
  remotePorts : List (UInt64 × UInt64)
  localAddress : List Char
  localPort : UInt16
  deriving DecidableEq, Repr

namespace ValueParser

/-! ## The parser -/

/-- `(tcp|udp|ip|sctp|dccp)`. -/
def regexProtocol : Regex Char :=
  alt (word "tcp".toList) (alt (word "udp".toList) (alt (word "ip".toList)
    (alt (word "sctp".toList) (word "dccp".toList))))

/-- `(tcp|udp|ip|sctp|dccp):\/\/`. -/
def regexScheme : Regex Char :=
  seq regexProtocol (word "://".toList)

/-- `[0-9a-zA-z:%]`. The range from `A` to `z` takes in `[\]^_` and the backquote. -/
def isBracketChar (c : Char) : Bool :=
  c.isDigit || c.isLower || (65 ≤ c.toNat && c.toNat ≤ 122) || c == ':' || c == '%'

/-- `\[[0-9a-zA-z:%]{3,}\]`. -/
def regexBracket : Regex Char :=
  seq (chr '[') (seq (atLeast (cls isBracketChar) 3) (chr ']'))

/-- `[a-zA-Z0-9.-]`. -/
def isNameChar (c : Char) : Bool :=
  c.isAlphanum || c == '.' || c == '-'

/-- `[a-zA-Z0-9.-]+`. -/
def regexName : Regex Char :=
  plus (cls isNameChar)

/-- `match[0]` where a match at the start of `s` leaves `rest`. -/
def matched (s rest : List Char) : List Char :=
  s.take (s.length - rest.length)

/-- The protocol, and what is behind it. -/
def scheme (s : List Char) : Properties × List Char :=
  match first regexScheme s with
  | none => (.tcp, s)
  | some rest =>
    (if s.take 3 = "udp".toList then .udp
      else if s.take 4 = "sctp".toList then .sctp
      else if s.take 4 = "dccp".toList then .dccp
      else if s.take 2 = "ip".toList then .raw 253
      else .tcp, rest)

/-- The host at the start of the remainder of `s`, and what is behind it. -/
def host (s remainder : List Char) : Except ValueError (List Char × List Char) :=
  match first regexBracket remainder with
  | some rest =>
    let offset := (matched remainder rest).length
    pure (((matched remainder rest).drop 1).take (offset - 2), rest)
  | none =>
    match first regexName remainder with
    | some rest => pure (matched remainder rest, rest)
    | none => throw (.invalidArgument s)

/-- The ports behind the host, `remotePorts` if there are none. -/
def ports (remotePorts : List (UInt64 × UInt64)) :
    List Char → Except ValueError (List (UInt64 × UInt64))
  | [] => pure remotePorts
  | c :: remainder => do
    raiseIf (c ≠ ':') (.invalidArgument "expected ':'".toList)
    match first regexRangeList remainder with
    | none => throw (.invalidArgument remainder)
    | some rest => rangeList (matched remainder rest)

/-- `cValueParser::clientConnection`. -/
def clientConnection (s : List Char) (out : Connection) : Except ValueError Connection := do
  let (proto, remainder) := scheme s
  let (remoteHost, remainder) ← host s remainder
  let remotePorts ← ports out.remotePorts remainder
  pure { out with proto := proto, remoteHost := remoteHost, remotePorts := remotePorts }

/-! ## Searches at the start of a text -/

variable {s t u v w : List Char} {a b : Nat}

theorem matched_append (u t : List Char) : matched (u ++ t) t = u := by
  rw [matched, List.length_append, Nat.add_sub_cancel, List.take_left]

/-- What is in front of the first `c` is in front of the first `c`. -/
theorem append_cons_inj {c : Char} (hu : c ∉ u) (hv : c ∉ v) :
    u ++ c :: s = v ++ c :: t ↔ u = v ∧ s = t := by
  constructor
  · intro h
    have hfront : ∀ {u s : List Char}, c ∉ u → (u ++ c :: s).takeWhile (· ≠ c) = u := by
      intro u s hu
      rw [List.takeWhile_append_of_pos fun b hb => by
        simp only [ne_eq, decide_not, Bool.not_eq_true', decide_eq_false_iff_not]
        rintro rfl
        exact hu hb]
      simp
    have huv : u = v := by rw [← hfront (s := s) hu, h, hfront hv]
    subst huv
    exact ⟨rfl, (List.cons.inj (List.append_cancel_left h)).2⟩
  · rintro ⟨rfl, rfl⟩
    rfl

theorem greedy_regexBracket : Greedy regexBracket :=
  ((greedy_atLeast_cls isBracketChar 3).seq_cls _).cls_seq _

theorem greedy_regexName : Greedy regexName :=
  (greedy_star_cls isNameChar).cls_seq _

/-- A bracket that holds no bracket is found whole, where none follows. -/
theorem first_regexBracket (h3 : 3 ≤ w.length) (hw : ∀ c ∈ w, isBracketChar c = true)
    (ht : ']' ∉ t) : first regexBracket ('[' :: (w ++ ']' :: t)) = some t := by
  rw [greedy_regexBracket.first_eq_some_iff]
  constructor
  · refine (mem_rests _ _ _).mpr ⟨'[' :: (w ++ [']']), ?_, by simp⟩
    exact mem_language_seq.mpr ⟨['['], mem_language_chr.mpr rfl, w ++ [']'],
      mem_language_seq.mpr ⟨w, mem_language_atLeast_cls.mpr ⟨h3, hw⟩, [']'],
        mem_language_chr.mpr rfl, rfl⟩, rfl⟩
  · intro t' ht'
    by_contra hlt
    obtain ⟨u, hu, heq⟩ := (mem_rests _ _ _).mp ht'
    obtain ⟨x₀, -, v, hv, rfl⟩ := mem_language_seq.mp hu
    obtain ⟨x, -, y, hy, rfl⟩ := mem_language_seq.mp hv
    rw [mem_language_chr.mp hy] at heq
    -- a shorter rest would leave a closing bracket in `t`
    have hlonger : ']' :: t' <:+ '[' :: (w ++ ']' :: t) := by
      rw [heq]
      exact ⟨x₀ ++ x, by simp⟩
    have hrest : t <:+ '[' :: (w ++ ']' :: t) := ⟨'[' :: (w ++ [']']), by simp⟩
    have hsuffix := List.suffix_of_suffix_length_le hlonger hrest
      (Nat.succ_le_of_lt (Nat.lt_of_not_le hlt))
    exact ht (hsuffix.subset (by simp))

theorem first_regexBracket_cons {c : Char} (hc : c ≠ '[') : first regexBracket (c :: s) = none := by
  rw [regexBracket, chr, first_seq_cls, first_cls_cons, if_neg (by simpa using hc)]
  rfl

/-- A name is found whole, up to a character that is not of it. -/
theorem first_regexName (hne : w ≠ []) (hw : ∀ c ∈ w, isNameChar c = true)
    (ht : ∀ c ∈ t.head?, isNameChar c = false) : first regexName (w ++ t) = some t :=
  first_plus_cls (mem_language_plus_cls.mpr ⟨hne, hw⟩) ht

/-- The words of the protocols are of letters. -/
theorem isAlpha_of_mem_regexProtocol (hu : u ∈ regexProtocol.language) :
    u ≠ [] ∧ ∀ c ∈ u, c.isAlpha = true := by
  simp only [regexProtocol, mem_language_alt, mem_language_word] at hu
  rcases hu with rfl | rfl | rfl | rfl | rfl <;>
    exact ⟨by decide, List.all_eq_true.mp (by decide)⟩

/-- No protocol is in front where a colon comes late, or no slash behind it. -/
theorem first_regexScheme_name (hw : ':' ∉ w) (ht : ∀ c ∈ t.head?, c = ':')
    (hslash : ∀ v, t ≠ ':' :: '/' :: v) : first regexScheme (w ++ t) = none := by
  rw [first_eq_none_iff]
  rintro u hu ⟨v, heq⟩
  obtain ⟨p, hp, q, hq, rfl⟩ := mem_language_seq.mp hu
  obtain ⟨-, hletters⟩ := isAlpha_of_mem_regexProtocol hp
  have hcolon : ':' ∉ p := fun hmem => absurd (hletters _ hmem) (by decide)
  have hq' : q = "://".toList := mem_language_word.mp hq
  rw [hq', List.append_assoc] at heq
  cases t with
  | nil =>
    rw [List.append_nil] at heq
    exact hw (heq ▸ by simp)
  | cons c t =>
    obtain rfl := ht c rfl
    obtain ⟨-, htail⟩ := (append_cons_inj hcolon hw).mp heq
    exact hslash _ (congrArg _ htail.symm)

theorem first_regexScheme_cons {c : Char} (hc : c.isAlpha = false) :
    first regexScheme (c :: t) = none := by
  rw [first_eq_none_iff]
  rintro u hu ⟨v, heq⟩
  obtain ⟨p, hp, q, -, rfl⟩ := mem_language_seq.mp hu
  obtain ⟨hne, hletters⟩ := isAlpha_of_mem_regexProtocol hp
  obtain ⟨d, p, rfl⟩ := List.exists_cons_of_ne_nil hne
  have hd := hletters d (by simp)
  rw [(List.cons.inj heq).1, hc] at hd
  cases hd

/-! ## Destinations -/

/-- What a destination can have in front of `://`. -/
inductive Scheme where
  | protocol (p : Protocol)
  | ip
  deriving DecidableEq, Repr

/-- The text of a scheme. -/
def Scheme.name : Scheme → List Char
  | protocol .tcp => "tcp".toList
  | protocol .udp => "udp".toList
  | protocol .sctp => "sctp".toList
  | protocol .dccp => "dccp".toList
  | ip => "ip".toList

/-- What a scheme stands for. -/
def Scheme.properties : Scheme → Properties
  | protocol p => p.properties AF_UNSPEC
  | ip => .raw 253

/-- A host of a destination. -/
inductive Host where
  | name (w : List Char) (ne : w ≠ []) (chars : ∀ c ∈ w, isNameChar c = true)
  | bracketed (w : List Char) (length : 3 ≤ w.length)
      (chars : ∀ c ∈ w, c.isAlphanum = true ∨ c = ':' ∨ c = '%')

/-- The host as it stands in the text. -/
def Host.text : Host → List Char
  | name w _ _ => w
  | bracketed w _ _ => '[' :: (w ++ [']'])

/-- The host without its brackets. -/
def Host.value : Host → List Char
  | name w _ _ => w
  | bracketed w _ _ => w

/-- `w` is the range `r` in print : `a-b`, or `a` alone for a single number. -/
def Prints (w : List Char) (r : UInt64 × UInt64) : Prop :=
  (w = Nat.toDigits 10 r.1.toNat ∧ r.2 = r.1) ∨
    w = Nat.toDigits 10 r.1.toNat ++ '-' :: Nat.toDigits 10 r.2.toNat

/-- `proto://host:ranges`. -/
def destination (proto : Option Scheme) (host : Host) (items : List (List Char)) : List Char :=
  (proto.elim [] fun p => p.name ++ "://".toList) ++ host.text ++
    ':' :: List.intercalate [','] items

theorem scheme_name (p : Scheme) (t : List Char) :
    scheme (p.name ++ "://".toList ++ t) = (p.properties, t) := by
  cases p with
  | protocol p => cases p <;> rfl
  | ip => rfl

theorem scheme_of_none (h : first regexScheme s = none) : scheme s = (.tcp, s) := by
  rw [scheme, h]

theorem isBracketChar_of_alphanum {c : Char} (h : c.isAlphanum = true ∨ c = ':' ∨ c = '%') :
    isBracketChar c = true := by
  rcases h with h | rfl | rfl
  · have hupper : c.isUpper = true → 65 ≤ c.toNat ∧ c.toNat ≤ 122 := fun h => by
      have hc : c.val ≥ 'A'.val ∧ c.val ≤ 'Z'.val := of_decide_eq_true h
      exact ⟨hc.1, Nat.le_trans hc.2 (by decide)⟩
    have hcases : (c.isUpper = true ∨ c.isLower = true) ∨ c.isDigit = true :=
      (Bool.or_eq_true_iff.mp h).imp_left Bool.or_eq_true_iff.mp
    simp only [isBracketChar, Bool.or_eq_true, Bool.and_eq_true, decide_eq_true_eq]
    rcases hcases with (h | h) | h
    · exact .inl (.inl (.inr (hupper h)))
    · exact .inl (.inl (.inl (.inr h)))
    · exact .inl (.inl (.inl (.inl h)))
  · decide
  · decide

/-- The host in front of the ports is found whole. -/
theorem host_text (h : Host) (s t : List Char) (ht : ']' ∉ t) :
    host s (h.text ++ ':' :: t) = .ok (h.value, ':' :: t) := by
  cases h with
  | name w hne hchars =>
    obtain ⟨c, w, rfl⟩ := List.exists_cons_of_ne_nil hne
    have hc : c ≠ '[' := by
      rintro rfl
      exact absurd (hchars '[' (by simp)) (by decide)
    have hfirst := first_regexName (t := ':' :: t) hne hchars (by simp; decide)
    rw [host, Host.text, List.cons_append, first_regexBracket_cons hc, ← List.cons_append, hfirst]
    simp only [matched_append]
    rfl
  | bracketed w hlen hchars =>
    have hfirst := first_regexBracket hlen (fun c hc => isBracketChar_of_alphanum (hchars c hc))
      (t := ':' :: t) (by simpa using ht)
    have htext : Host.text (.bracketed w hlen hchars) ++ ':' :: t = '[' :: (w ++ ']' :: ':' :: t) := by
      simp [Host.text]
    have hmatched : matched ('[' :: (w ++ ']' :: ':' :: t)) (':' :: t) = '[' :: (w ++ [']']) := by
      rw [show '[' :: (w ++ ']' :: ':' :: t) = '[' :: (w ++ [']']) ++ ':' :: t by simp]
      exact matched_append _ _
    rw [host, htext, hfirst]
    simp only [hmatched]
    simp [Host.value]
    rfl

theorem ports_lists {ranges : List (UInt64 × UInt64)} (h : Lists s ranges)
    (remotePorts : List (UInt64 × UInt64)) : ports remotePorts (':' :: s) = .ok ranges := by
  have hmatched := matched_append s []
  rw [List.append_nil] at hmatched
  rw [ports, raiseIf, if_neg (by simp),
    greedy_regexRangeList.first_eq_nil (mem_regexRangeList h)]
  simp only [hmatched]
  exact ((rangeList_spec _).1 _).mpr h

theorem item_of_prints {r : UInt64 × UInt64} (h : Prints w r) : Item w r.1.toNat r.2.toNat := by
  rcases h with ⟨rfl, heq⟩ | rfl
  · exact .inl ⟨numeral_toDigits _, congrArg UInt64.toNat heq⟩
  · exact .inr ⟨_, _, rfl, numeral_toDigits _, numeral_toDigits _⟩

theorem lists_of_prints {items : List (List Char)} {ranges : List (UInt64 × UInt64)}
    (hne : ranges ≠ []) (hle : ∀ r ∈ ranges, r.1 ≤ r.2) (h : List.Forall₂ Prints items ranges) :
    Lists (List.intercalate [','] items) ranges := by
  refine ⟨items, ?_, rfl, ?_⟩
  · rintro rfl
    exact hne (List.forall₂_nil_left_iff.mp h)
  · clear hne
    induction h with
    | nil => exact .nil
    | cons hprints _ ih =>
      obtain ⟨hr, hle⟩ := List.forall_mem_cons.mp hle
      exact .cons ⟨item_of_prints hprints, hr⟩ (ih hle)

/-- No protocol is read off a host with what may follow it. -/
theorem first_regexScheme_host (hw : ':' ∉ w ∨ w.head? = some '[') (ht : ∀ c ∈ t.head?, c = ':')
    (hslash : ∀ v, t ≠ ':' :: '/' :: v) : first regexScheme (w ++ t) = none := by
  rcases hw with hw | hw
  · exact first_regexScheme_name hw ht hslash
  · obtain ⟨w, rfl⟩ := List.head?_eq_some_iff.mp hw
    exact first_regexScheme_cons (by decide)

theorem Host.front (h : Host) : ':' ∉ h.text ∨ h.text.head? = some '[' := by
  cases h with
  | name w _ hchars => exact .inl fun hmem => absurd (hchars _ hmem) (by decide)
  | bracketed w _ _ => exact .inr rfl

/-- A destination is read back from its text. -/
theorem clientConnection_render (proto : Option Scheme) (host : Host)
    {items : List (List Char)} {ranges : List (UInt64 × UInt64)} (hne : ranges ≠ [])
    (hle : ∀ r ∈ ranges, r.1 ≤ r.2) (hitems : List.Forall₂ Prints items ranges)
    (out : Connection) :
    clientConnection (destination proto host items) out = .ok { out with
      proto := (proto.getD (.protocol .tcp)).properties
      remoteHost := host.value
      remotePorts := ranges } := by
  have hlists := lists_of_prints hne hle hitems
  rw [destination]
  generalize List.intercalate [','] items = text at hlists ⊢
  have hchars := over_regexRangeList.forall_mem (mem_regexRangeList hlists)
  have hbracket : ']' ∉ text := fun h => absurd (hchars _ h) (by decide)
  have hscheme : scheme ((proto.elim [] fun p => p.name ++ "://".toList) ++ host.text ++
      ':' :: text) = ((proto.getD (.protocol .tcp)).properties, host.text ++ ':' :: text) := by
    cases proto with
    | some p => exact (congrArg scheme (List.append_assoc ..)).trans (scheme_name p _)
    | none =>
      refine scheme_of_none (first_regexScheme_host host.front (by simp) fun v hv => ?_)
      rw [(List.cons.inj hv).2] at hchars
      exact absurd (hchars '/' (by simp)) (by decide)
  rw [clientConnection, hscheme]
  simp only [host_text host _ text hbracket]
  show (ports out.remotePorts (':' :: text) >>= _) = _
  rw [ports_lists hlists]
  rfl

theorem clientConnection_render_dccp :
    clientConnection "dccp://[::1%lo]:80-82,443".toList ⟨.udp, [], [], [], 0⟩ =
      .ok ⟨.dccp, "::1%lo".toList, [(80, 82), (443, 443)], [], 0⟩ :=
  @clientConnection_render (some (.protocol .dccp))
    (.bracketed "::1%lo".toList (by decide) (List.forall_iff_forall_mem.mp (by decide)))
    ["80-82".toList, "443".toList] _ (by simp) (List.forall_iff_forall_mem.mp (by decide))
    (.cons (.inr (by decide +kernel)) (.cons (.inl (by decide +kernel)) .nil)) ⟨.udp, [], [], [], 0⟩

end ValueParser

end NetBabbler
