import NetBabbler.Connection

/-!
# The documented destinations

`clientConnection` documents `[proto://]dst_host[:dst_ports][:local_addr][:local_port]`, with
regular expressions for the parts that it never applies. What it accepts is another
language (`accepted_iff`) : it stops behind the destination ports, so that the local parts
are never read and any text may follow, a name may start with a dot or a minus, and the
class for the brackets takes in more than addresses, but neither a dot nor `::` alone.

`conforms_iff` : the texts on which the code keeps to its documentation.
-/

namespace NetBabbler

open Regex

/-- The exceptions of the documentation. -/
def ValueError.Expected (e : ValueError) : Prop :=
  (∃ what, e = .invalidArgument what) ∨ e = .stoul .invalidArgument ∨ e = .stoul .outOfRange

namespace ValueParser

/-! ## The documented syntax -/

/-- `(\d{1,5})`. -/
def regexPort : Regex Char :=
  rep (cls Char.isDigit) 1 5

/-- `[0-9]{1,3}\.[0-9]{1,3}\.[0-9]{1,3}\.[0-9]{1,3}`. -/
def regexIPv4Address : Regex Char :=
  let part := rep (cls Char.isDigit) 1 3
  seq part (seq (chr '.') (seq part (seq (chr '.') (seq part (seq (chr '.') part)))))

/-- `[0-9a-fA-F]`. -/
def isHexDigit (c : Char) : Bool :=
  c.isDigit || ('a' ≤ c && c ≤ 'f') || ('A' ≤ c && c ≤ 'F')

/-- `[0-9a-fA-F]{1,4}`. -/
def group : Regex Char :=
  rep (cls isHexDigit) 1 4

/-- `([0-9a-fA-F]{1,4}:){n,m}`. -/
def groupsColon (n m : Nat) : Regex Char :=
  rep (seq group (chr ':')) n m

/-- `(:[0-9a-fA-F]{1,4}){n,m}`. -/
def colonGroups (n m : Nat) : Regex Char :=
  rep (seq (chr ':') group) n m

/-- `25[0-5]|(2[0-4]|1{0,1}[0-9]){0,1}[0-9]`. -/
def octet : Regex Char :=
  alt (seq (word "25".toList) (cls fun c => '0' ≤ c && c ≤ '5'))
    (seq (rep (alt (seq (chr '2') (cls fun c => '0' ≤ c && c ≤ '4'))
      (seq (rep (chr '1') 0 1) (cls Char.isDigit))) 0 1) (cls Char.isDigit))

/-- `((octet)\.){3,3}(octet)`. -/
def octets : Regex Char :=
  seq (rep (seq octet (chr '.')) 3 3) octet

/-- An address of IPv6 in print, with at most one `::`. -/
def regexIPv6Address : Regex Char :=
  alt (seq (groupsColon 7 7) group) <|
  alt (seq (groupsColon 1 7) (chr ':')) <|
  alt (seq (groupsColon 1 6) (seq (chr ':') group)) <|
  alt (seq (groupsColon 1 5) (colonGroups 1 2)) <|
  alt (seq (groupsColon 1 4) (colonGroups 1 3)) <|
  alt (seq (groupsColon 1 3) (colonGroups 1 4)) <|
  alt (seq (groupsColon 1 2) (colonGroups 1 5)) <|
  alt (seq group (seq (chr ':') (colonGroups 1 6))) <|
  alt (seq (chr ':') (alt (colonGroups 1 7) (chr ':'))) <|
  alt (seq (word "fe80:".toList) (seq (rep (seq (chr ':') (rep (cls isHexDigit) 0 4)) 0 4)
    (seq (chr '%') (atLeast (cls Char.isAlphanum) 1)))) <|
  alt (seq (word "::".toList) (seq (rep (seq (word "ffff".toList)
    (seq (rep (seq (chr ':') (rep (chr '0') 1 4)) 0 1) (chr ':'))) 0 1) octets)) <|
  seq (groupsColon 1 4) (seq (chr ':') octets)

/-- `[a-zA-Z0-9]+([a-zA-Z0-9.\-])*`. -/
def regexHost : Regex Char :=
  seq (plus (cls Char.isAlphanum)) (star (cls isNameChar))

/-- An address in numbers. -/
inductive Address where
  | ipv4 (a : List Char) (mem : a ∈ regexIPv4Address.language)
  | ipv6 (a : List Char) (mem : a ∈ regexIPv6Address.language)

/-- The address as it stands in the text. -/
def Address.text : Address → List Char
  | ipv4 a _ => a
  | ipv6 a _ => '[' :: (a ++ [']'])

/-- The address without brackets. -/
def Address.value : Address → List Char
  | ipv4 a _ => a
  | ipv6 a _ => a

/-- `dst_host`. -/
inductive DstHost where
  | address (a : Address)
  | name (w : List Char) (mem : w ∈ regexHost.language)

/-- The host as it stands in the text. -/
def DstHost.text : DstHost → List Char
  | address a => a.text
  | name w _ => w

/-- `dst_ports`. -/
structure DstPorts where
  text : List Char
  ranges : List (UInt64 × UInt64)
  lists : Lists text ranges

/-- `local_port`. -/
structure LocalPort where
  text : List Char
  port : UInt16
  mem : text ∈ regexPort.language
  numeral : Numeral text port.toNat

/-- `[proto://]dst_host[:dst_ports][:local_addr][:local_port]`. A number directly behind the
host is a destination port. -/
structure Documented where
  proto : Option Scheme
  dstHost : DstHost
  dstPorts : Option DstPorts
  localAddr : Option Address
  localPort : Option LocalPort
  ports_first : dstPorts = none → localAddr = none → localPort = none

/-- A part of the text behind its colon, if it is there. -/
def behind {α : Type} (text : α → List Char) : Option α → List Char
  | none => []
  | some part => ':' :: text part

/-- What follows the host. -/
def Documented.tail (d : Documented) : List Char :=
  behind DstPorts.text d.dstPorts ++
    (behind Address.text d.localAddr ++ behind LocalPort.text d.localPort)

/-- The destination as it stands in the text. -/
def Documented.text (d : Documented) : List Char :=
  (d.proto.elim [] fun p => p.name ++ "://".toList) ++ (d.dstHost.text ++ d.tail)

/-- On `s` the code keeps to its documentation. -/
structure Conforms (s : List Char) : Prop where
  accepts : ∀ out, (∃ c, clientConnection s out = .ok c) ↔ ∃ d : Documented, d.text = s
  localAddress : ∀ (d : Documented) out c, d.text = s → clientConnection s out = .ok c →
    ∀ a ∈ d.localAddr, c.localAddress = a.value
  localPort : ∀ (d : Documented) out c, d.text = s → clientConnection s out = .ok c →
    ∀ p ∈ d.localPort, c.localPort = p.port
  throws : ∀ out e, clientConnection s out = .error e → e.Expected

/-! ## The accepted texts -/

/-- What the code takes behind the host : nothing, or a colon and a text with port ranges in
front. -/
def AcceptedTail (t : List Char) : Prop :=
  t = [] ∨ ∃ u more ranges, t = ':' :: (u ++ more) ∧ Longest regexRangeList u more ∧ Lists u ranges

/-- What the code takes. -/
def Accepted (s : List Char) : Prop :=
  ∃ front host tail, s = front ++ (host ++ tail) ∧ (front = [] ∨ front ∈ regexScheme.language) ∧
    (Longest regexBracket host tail ∨ Longest regexName host tail) ∧ AcceptedTail tail

/-- An address in brackets that the class for the brackets covers. -/
def DstHost.Covered : DstHost → Prop
  | address (.ipv6 a _) => 3 ≤ a.length ∧ '.' ∉ a
  | _ => True

variable {s t u v w : List Char}

/-! ### Letters -/

/-- The characters of an address. -/
def AddressChar (c : Char) : Prop :=
  c.isAlphanum = true ∨ c = ':' ∨ c = '%' ∨ c = '.'

instance (c : Char) : Decidable (AddressChar c) :=
  inferInstanceAs (Decidable (_ ∨ _))

theorem isAlphanum_of_isDigit {c : Char} (h : c.isDigit = true) : c.isAlphanum = true := by
  rw [Char.isAlphanum, h, Bool.or_true]

theorem isAlphanum_of_isHexDigit {c : Char} (h : isHexDigit c = true) : c.isAlphanum = true := by
  simp only [isHexDigit, Bool.or_eq_true, Bool.and_eq_true, decide_eq_true_eq] at h
  refine Bool.or_eq_true_iff.mpr ?_
  rcases h with (h | ⟨hle, hge⟩) | ⟨hle, hge⟩
  · exact .inr h
  · have hlower : c.isLower = true := Bool.and_eq_true_iff.mpr
      ⟨decide_eq_true hle, decide_eq_true (UInt32.le_trans hge (by decide))⟩
    exact .inl (Bool.or_eq_true_iff.mpr (.inr hlower))
  · have hupper : c.isUpper = true :=
      decide_eq_true ⟨hle, UInt32.le_trans hge (by decide)⟩
    exact .inl (Bool.or_eq_true_iff.mpr (.inl hupper))

theorem isDigit_of_le {c d : Char} (h : ('0' ≤ c && c ≤ d) = true) (hd : d ≤ '9') :
    c.isDigit = true := by
  simp only [Bool.and_eq_true, decide_eq_true_eq] at h
  simp only [Char.isDigit, Bool.and_eq_true, decide_eq_true_eq]
  exact ⟨h.1, UInt32.le_trans h.2 hd⟩

theorem over_alphanum {p : Char → Bool} (h : ∀ c, p c = true → c.isAlphanum = true) :
    (cls p).Over AddressChar :=
  fun c hc => .inl (h c hc)

theorem over_isDigit : (cls Char.isDigit).Over AddressChar :=
  over_alphanum fun _ => isAlphanum_of_isDigit

theorem over_addressWord (h : w.Forall AddressChar) : (word w).Over AddressChar :=
  over_word (List.forall_iff_forall_mem.mp h)

theorem over_colon : (chr ':').Over AddressChar :=
  over_chr (by decide)

theorem over_dot : (chr '.').Over AddressChar :=
  over_chr (by decide)

theorem over_group : group.Over AddressChar :=
  (over_alphanum fun _ => isAlphanum_of_isHexDigit).rep 1 4

theorem over_groupsColon (n m : Nat) : (groupsColon n m).Over AddressChar :=
  (over_group.seq over_colon).rep n m

theorem over_colonGroups (n m : Nat) : (colonGroups n m).Over AddressChar :=
  (over_colon.seq over_group).rep n m

theorem over_octet : octet.Over AddressChar := by
  have hlast {d : Char} (hd : d ≤ '9') : (cls fun c => '0' ≤ c && c ≤ d).Over AddressChar :=
    over_alphanum fun _ hc => isAlphanum_of_isDigit (isDigit_of_le hc hd)
  have htens : (rep (alt (seq (chr '2') (cls fun c => '0' ≤ c && c ≤ '4'))
      (seq (rep (chr '1') 0 1) (cls Char.isDigit))) 0 1).Over AddressChar :=
    (((over_chr (by decide)).seq (hlast (by decide))).alt
      (((over_chr (by decide)).rep 0 1).seq over_isDigit)).rep 0 1
  exact ((over_addressWord (by decide)).seq (hlast (by decide))).alt (htens.seq over_isDigit)

theorem over_octets : octets.Over AddressChar :=
  ((over_octet.seq over_dot).rep 3 3).seq over_octet

theorem over_regexIPv6Address : regexIPv6Address.Over AddressChar := by
  have hlink : (seq (word "fe80:".toList) (seq (rep (seq (chr ':') (rep (cls isHexDigit) 0 4)) 0 4)
      (seq (chr '%') (atLeast (cls Char.isAlphanum) 1)))).Over AddressChar := by
    have hgroup := (over_alphanum fun _ => isAlphanum_of_isHexDigit).rep 0 4
    exact (over_addressWord (by decide)).seq (((over_colon.seq hgroup).rep 0 4).seq
      ((over_chr (by decide)).seq ((over_alphanum fun _ => id).atLeast 1)))
  have hmapped : (seq (word "::".toList) (seq (rep (seq (word "ffff".toList)
      (seq (rep (seq (chr ':') (rep (chr '0') 1 4)) 0 1) (chr ':'))) 0 1) octets)).Over
        AddressChar := by
    have hzeros := (over_colon.seq ((over_chr (a := '0') (by decide)).rep 1 4)).rep 0 1
    exact (over_addressWord (by decide)).seq
      ((((over_addressWord (by decide)).seq (hzeros.seq over_colon)).rep 0 1).seq over_octets)
  exact ⟨⟨over_groupsColon 7 7, over_group⟩, ⟨over_groupsColon 1 7, over_colon⟩,
    ⟨over_groupsColon 1 6, over_colon, over_group⟩, ⟨over_groupsColon 1 5, over_colonGroups 1 2⟩,
    ⟨over_groupsColon 1 4, over_colonGroups 1 3⟩, ⟨over_groupsColon 1 3, over_colonGroups 1 4⟩,
    ⟨over_groupsColon 1 2, over_colonGroups 1 5⟩, ⟨over_group, over_colon, over_colonGroups 1 6⟩,
    ⟨over_colon, over_colonGroups 1 7, over_colon⟩, hlink, hmapped,
    ⟨over_groupsColon 1 4, over_colon, over_octets⟩⟩

/-- IPv4 addresses are of digits and dots. -/
theorem over_regexIPv4Address : regexIPv4Address.Over fun c => c.isDigit = true ∨ c = '.' := by
  have hpart := (show (cls Char.isDigit).Over fun c => c.isDigit = true ∨ c = '.' from
    fun _ => .inl).rep 1 3
  have hdot : (chr '.').Over fun c => c.isDigit = true ∨ c = '.' := over_chr (.inr rfl)
  exact ⟨hpart, hdot, hpart, hdot, hpart, hdot, hpart⟩

/-! ### The parts -/

theorem dot_mem_of_mem_regexIPv4Address (h : w ∈ regexIPv4Address.language) : '.' ∈ w := by
  obtain ⟨u, -, v, hv, rfl⟩ := mem_language_seq.mp h
  obtain ⟨x, hx, y, -, rfl⟩ := mem_language_seq.mp hv
  rw [mem_language_chr.mp hx]
  simp

theorem isNameChar_of_isAlphanum {c : Char} (h : c.isAlphanum = true) : isNameChar c = true := by
  simp [isNameChar, h]

theorem isNameChar_of_mem_regexIPv4Address (h : w ∈ regexIPv4Address.language) :
    ∀ c ∈ w, isNameChar c = true := fun c hc => by
  rcases over_regexIPv4Address.forall_mem h c hc with hdigit | rfl
  · exact isNameChar_of_isAlphanum (isAlphanum_of_isDigit hdigit)
  · decide

theorem regexHost_spec (h : w ∈ regexHost.language) : w ≠ [] ∧ ∀ c ∈ w, isNameChar c = true := by
  obtain ⟨u, hu, v, hv, rfl⟩ := mem_language_seq.mp h
  obtain ⟨hne, hu⟩ := mem_language_plus_cls.mp hu
  refine ⟨by simp [hne], fun c hc => ?_⟩
  rcases List.mem_append.mp hc with hc | hc
  · exact isNameChar_of_isAlphanum (hu c hc)
  · exact mem_language_star_cls.mp hv c hc

theorem not_mem_of_mem_regexIPv6Address {c : Char} (h : w ∈ regexIPv6Address.language)
    (hc : ¬AddressChar c) : c ∉ w :=
  fun hmem => hc (over_regexIPv6Address.forall_mem h c hmem)

theorem Address.slash_not_mem (a : Address) : '/' ∉ a.text := by
  cases a with
  | ipv4 a ha => exact fun hmem => absurd (isNameChar_of_mem_regexIPv4Address ha _ hmem) (by decide)
  | ipv6 a ha => simp [text, not_mem_of_mem_regexIPv6Address (c := '/') ha (by decide)]

/-- No address is a list of port ranges. -/
theorem Address.mark_mem (a : Address) : '.' ∈ a.text ∨ '[' ∈ a.text := by
  cases a with
  | ipv4 a ha => exact .inl (dot_mem_of_mem_regexIPv4Address ha)
  | ipv6 a ha => exact .inr (by simp [text])

/-- A host is of the characters of names, or an address in brackets. -/
theorem DstHost.text_cases (h : DstHost) :
    (h.Covered ∧ h.text ≠ [] ∧ ∀ c ∈ h.text, isNameChar c = true) ∨
      ∃ a ha, h = .address (.ipv6 a ha) := by
  rcases h with (⟨a, ha⟩ | ⟨a, ha⟩) | ⟨w, hw⟩
  · exact .inl ⟨trivial, List.ne_nil_of_mem (dot_mem_of_mem_regexIPv4Address ha),
      isNameChar_of_mem_regexIPv4Address ha⟩
  · exact .inr ⟨a, ha, rfl⟩
  · exact .inl ⟨trivial, regexHost_spec hw⟩

theorem colon_not_mem (hw : ∀ c ∈ w, isNameChar c = true) : ':' ∉ w :=
  fun hmem => absurd (hw _ hmem) (by decide)

theorem DstHost.front (h : DstHost) : ':' ∉ h.text ∨ h.text.head? = some '[' := by
  rcases h.text_cases with ⟨-, -, hchars⟩ | ⟨a, ha, rfl⟩
  · exact .inl (colon_not_mem hchars)
  · exact .inr rfl

theorem DstPorts.forall_mem (ports : DstPorts) :
    ∀ c ∈ ports.text, c.isDigit = true ∨ c = '-' ∨ c = ',' :=
  over_regexRangeList.forall_mem (mem_regexRangeList ports.lists)

theorem head?_behind {α : Type} (text : α → List Char) (part : Option α) (t : List Char)
    (ht : ∀ c ∈ t.head?, c = ':') : ∀ c ∈ (behind text part ++ t).head?, c = ':' := by
  cases part with
  | none => exact ht
  | some part =>
    intro c hc
    exact (Option.some.inj hc).symm

theorem not_mem_behind {α : Type} {text : α → List Char} {c : Char} (hc : c ≠ ':')
    (h : ∀ part, c ∉ text part) (part : Option α) : c ∉ behind text part := by
  cases part with
  | none => simp [behind]
  | some part => simp [behind, hc, h]

theorem behind_eq_nil {α : Type} {text : α → List Char} {part : Option α} :
    behind text part = [] ↔ part = none := by
  cases part <;> simp [behind]

theorem Documented.head?_tail (d : Documented) : ∀ c ∈ d.tail.head?, c = ':' := by
  refine head?_behind _ _ _ (head?_behind _ _ _ ?_)
  rw [← List.append_nil (behind _ _)]
  exact head?_behind _ _ _ (by simp)

theorem Documented.slash_not_mem_tail (d : Documented) : '/' ∉ d.tail := by
  have hports : ∀ ports : DstPorts, '/' ∉ ports.text :=
    fun ports hmem => absurd (ports.forall_mem _ hmem) (by decide)
  have hport : ∀ port : LocalPort, '/' ∉ port.text :=
    fun port hmem => absurd (port.numeral.digits _ hmem) (by decide)
  simp only [tail, List.mem_append, not_or]
  exact ⟨not_mem_behind (by decide) hports _, not_mem_behind (by decide) Address.slash_not_mem _,
    not_mem_behind (by decide) hport _⟩

/-- The protocol is read off a documented text. -/
theorem scheme_text (d : Documented) :
    scheme d.text = ((d.proto.getD (.protocol .tcp)).properties, d.dstHost.text ++ d.tail) := by
  rw [Documented.text]
  cases d.proto with
  | some p => exact scheme_name p _
  | none =>
    refine scheme_of_none (s := d.dstHost.text ++ d.tail)
      (first_regexScheme_host d.dstHost.front d.head?_tail fun v hv => d.slash_not_mem_tail ?_)
    simp [hv]

/-! ### What the code takes -/

theorem first_regexBracket_of_name (h : first regexName s = some t) :
    first regexBracket s = none := by
  cases s with
  | nil => rfl
  | cons c s =>
    rw [regexName, first_plus_cls_cons] at h
    split_ifs at h with hc
    refine first_regexBracket_cons ?_
    rintro rfl
    exact absurd hc (by decide)

theorem exists_host_iff (s : List Char) : (∃ v, host s u = .ok (v, t)) ↔
    first regexBracket u = some t ∨ first regexName u = some t := by
  constructor
  · rintro ⟨v, hv⟩
    rw [host] at hv
    cases hbracket : first regexBracket u with
    | some t' =>
      simp only [hbracket] at hv
      cases hv
      exact .inl rfl
    | none =>
      cases hname : first regexName u with
      | some t' =>
        simp only [hbracket, hname] at hv
        cases hv
        exact .inr rfl
      | none =>
        simp only [hbracket, hname] at hv
        cases hv
  · rintro (hbracket | hname)
    · rw [host, hbracket]
      exact ⟨_, rfl⟩
    · rw [host, first_regexBracket_of_name hname, hname]
      exact ⟨_, rfl⟩

theorem exists_ports_iff (remotePorts : List (UInt64 × UInt64)) :
    (∃ ranges, ports remotePorts t = .ok ranges) ↔ AcceptedTail t := by
  cases t with
  | nil => exact ⟨fun _ => .inl rfl, fun _ => ⟨remotePorts, rfl⟩⟩
  | cons c t =>
    rw [ports]
    constructor
    · rintro ⟨ranges, h⟩
      obtain ⟨u, hc, h⟩ := bind_eq_ok_iff.mp h
      have hc' : c = ':' := not_not.mp (raiseIf_eq_ok_iff.mp hc)
      subst hc'
      cases hfirst : first regexRangeList t with
      | none =>
        rw [hfirst] at h
        cases h
      | some more =>
        rw [hfirst] at h
        obtain ⟨u, rfl, hu⟩ := greedy_regexRangeList.first_eq_some_iff_longest.mp hfirst
        simp only [matched_append] at h
        exact .inr ⟨u, more, ranges, rfl, hu, ((rangeList_spec u).1 ranges).mp h⟩
    · rintro (h | ⟨u, more, ranges, h, hu, hlists⟩)
      · cases h
      · obtain ⟨rfl, rfl⟩ := List.cons.inj h
        have hfirst := greedy_regexRangeList.first_eq_some_iff_longest.mpr ⟨u, rfl, hu⟩
        refine ⟨ranges, bind_eq_ok_iff.mpr ⟨(), by simp, ?_⟩⟩
        simp only [hfirst, matched_append]
        exact ((rangeList_spec u).1 ranges).mpr hlists

/-- What the three searches leave of the text decides. -/
theorem exists_ok_iff (s : List Char) (out : Connection) :
    (∃ c, clientConnection s out = .ok c) ↔ ∃ t, (first regexBracket (scheme s).2 = some t ∨
      first regexName (scheme s).2 = some t) ∧ AcceptedTail t := by
  simp only [← exists_host_iff s, ← exists_ports_iff out.remotePorts]
  rw [clientConnection]
  constructor
  · rintro ⟨c, hc⟩
    obtain ⟨⟨v, t⟩, hhost, hc⟩ := bind_eq_ok_iff.mp hc
    obtain ⟨ranges, hports, -⟩ := bind_eq_ok_iff.mp hc
    exact ⟨t, ⟨v, hhost⟩, ranges, hports⟩
  · rintro ⟨t, ⟨v, hhost⟩, ranges, hports⟩
    exact ⟨_, bind_eq_ok_iff.mpr ⟨(v, t), hhost, bind_eq_ok_iff.mpr ⟨ranges, hports, rfl⟩⟩⟩

theorem acceptedTail_cons (h : AcceptedTail t) :
    (∀ c ∈ t.head?, c = ':') ∧ ∀ v, t ≠ ':' :: '/' :: v := by
  rcases h with rfl | ⟨u, more, ranges, rfl, hu, -⟩
  · simp
  · refine ⟨by simp, fun v hv => ?_⟩
    have hchars := over_regexRangeList.forall_mem hu.1
    cases u with
    | nil => exact nil_not_mem_regexRangeList hu.1
    | cons c u =>
      obtain ⟨rfl, -⟩ := List.cons.inj (List.cons.inj hv).2
      exact absurd (hchars '/' (by simp)) (by decide)

theorem host_front (h : Longest regexBracket u t ∨ Longest regexName u t) :
    ':' ∉ u ∨ u.head? = some '[' := by
  rcases h with ⟨hu, -⟩ | ⟨hu, -⟩
  · obtain ⟨x, hx, y, -, rfl⟩ := mem_language_seq.mp hu
    rw [mem_language_chr.mp hx]
    exact .inr rfl
  · exact .inl (colon_not_mem (mem_language_plus_cls.mp hu).2)

theorem exists_scheme_of_mem_regexScheme (h : u ∈ regexScheme.language) :
    ∃ p : Scheme, u = p.name ++ "://".toList := by
  obtain ⟨x, hx, y, hy, rfl⟩ := mem_language_seq.mp h
  simp only [regexProtocol, mem_language_alt, mem_language_word] at hx
  have hy' : y = "://".toList := mem_language_word.mp hy
  rw [hy']
  rcases hx with rfl | rfl | rfl | rfl | rfl
  · exact ⟨.protocol .tcp, rfl⟩
  · exact ⟨.protocol .udp, rfl⟩
  · exact ⟨.ip, rfl⟩
  · exact ⟨.protocol .sctp, rfl⟩
  · exact ⟨.protocol .dccp, rfl⟩

/-- The code accepts the accepted texts. -/
theorem accepted_iff (s : List Char) (out : Connection) :
    (∃ c, clientConnection s out = .ok c) ↔ Accepted s := by
  rw [exists_ok_iff]
  simp only [greedy_regexBracket.first_eq_some_iff_longest,
    greedy_regexName.first_eq_some_iff_longest]
  constructor
  · rintro ⟨t, ht, htail⟩
    obtain ⟨front, hfront, hs⟩ : ∃ front, (front = [] ∨ front ∈ regexScheme.language) ∧
        s = front ++ (scheme s).2 := by
      cases hfirst : first regexScheme s with
      | none => exact ⟨[], .inl rfl, by rw [scheme_of_none hfirst]; rfl⟩
      | some rest =>
        obtain ⟨u, hu, rfl⟩ := (mem_rests _ _ _).mp (mem_rests_of_first hfirst)
        exact ⟨u, .inr hu, by rw [scheme, hfirst]⟩
    rcases ht with ⟨u, hu, hlongest⟩ | ⟨u, hu, hlongest⟩
    · exact ⟨front, u, t, by rw [← hu, ← hs], hfront, .inl hlongest, htail⟩
    · exact ⟨front, u, t, by rw [← hu, ← hs], hfront, .inr hlongest, htail⟩
  · rintro ⟨front, u, t, rfl, hfront, hlongest, htail⟩
    have hscheme : (scheme (front ++ (u ++ t))).2 = u ++ t := by
      rcases hfront with rfl | hfront
      · obtain ⟨hhead, hslash⟩ := acceptedTail_cons htail
        rw [List.nil_append,
          scheme_of_none (first_regexScheme_host (host_front hlongest) hhead hslash)]
      · obtain ⟨p, rfl⟩ := exists_scheme_of_mem_regexScheme hfront
        rw [scheme_name]
    refine ⟨t, ?_, htail⟩
    rw [hscheme]
    rcases hlongest with hlongest | hlongest
    · exact .inl ⟨u, rfl, hlongest⟩
    · exact .inr ⟨u, rfl, hlongest⟩

/-! ### Local parts -/

theorem takeWhile_append {c : Char} (hw : c ∉ w) (ht : ∀ b ∈ t.head?, b = c) :
    (w ++ t).takeWhile (· ≠ c) = w := by
  rw [List.takeWhile_append_of_pos fun b hb => by simpa using ne_of_mem_of_not_mem hb hw]
  cases t with
  | nil => simp
  | cons b t => simp [ht b rfl]

/-- Hosts are told from what follows them. -/
theorem DstHost.tail_inj {h h' : DstHost} (ht : ∀ c ∈ t.head?, c = ':')
    (ht' : ∀ c ∈ u.head?, c = ':') (heq : h.text ++ t = h'.text ++ u) : t = u := by
  have hbracket : ∀ {h : DstHost} {a v t : List Char}, (h.text ≠ [] ∧ ∀ c ∈ h.text,
      isNameChar c = true) → h.text ++ t ≠ '[' :: (a ++ v) := by
    rintro h a v t ⟨hne, hchars⟩ heq
    obtain ⟨c, w, hw⟩ := List.exists_cons_of_ne_nil hne
    rw [hw] at heq hchars
    rw [(List.cons.inj heq).1] at hchars
    exact absurd (hchars '[' (by simp)) (by decide)
  rcases h.text_cases with ⟨-, hname⟩ | ⟨a, ha, rfl⟩ <;>
    rcases h'.text_cases with ⟨-, hname'⟩ | ⟨a', ha', rfl⟩
  · have hfront : h.text = h'.text := by
      rw [← takeWhile_append (colon_not_mem hname.2) ht, heq,
        takeWhile_append (colon_not_mem hname'.2) ht']
    rw [hfront] at heq
    exact List.append_cancel_left heq
  · exact absurd heq (by simpa [text, Address.text] using hbracket hname)
  · exact absurd heq.symm (by simpa [text, Address.text] using hbracket hname')
  · simp only [text, Address.text, List.cons_append, List.append_assoc, List.cons.injEq,
      true_and, List.nil_append] at heq
    have hinner := not_mem_of_mem_regexIPv6Address (c := ']') ha (by decide)
    have hinner' := not_mem_of_mem_regexIPv6Address (c := ']') ha' (by decide)
    exact ((append_cons_inj hinner hinner').mp heq).2

/-- A text has local parts in all its readings or in none. -/
theorem no_local_parts {d d' : Documented} (h : d.text = d'.text) (haddr : d.localAddr = none)
    (hport : d.localPort = none) : d'.localAddr = none ∧ d'.localPort = none := by
  have hrest : d.dstHost.text ++ d.tail = d'.dstHost.text ++ d'.tail := by
    have hscheme := congrArg (fun s => (scheme s).2) h
    simpa only [scheme_text] using hscheme
  have htail := DstHost.tail_inj d.head?_tail d'.head?_tail hrest
  have hfirst := d'.ports_first
  rw [Documented.tail, Documented.tail, haddr, hport, behind, behind, List.append_nil,
    List.append_nil] at htail
  cases hports : d.dstPorts with
  | none =>
    rw [hports, behind] at htail
    obtain ⟨-, hlocal⟩ := List.append_eq_nil_iff.mp htail.symm
    obtain ⟨haddr', hport'⟩ := List.append_eq_nil_iff.mp hlocal
    exact ⟨behind_eq_nil.mp haddr', behind_eq_nil.mp hport'⟩
  | some ports =>
    rw [hports, behind] at htail
    have hnot : ∀ {c : Char}, ¬(c.isDigit = true ∨ c = '-' ∨ c = ',') → c ∉ ports.text :=
      fun hc hmem => hc (ports.forall_mem _ hmem)
    cases hports' : d'.dstPorts with
    | none =>
      cases haddr' : d'.localAddr with
      | none => exact ⟨rfl, hfirst hports' haddr'⟩
      | some a =>
        rw [hports', haddr', behind, behind, List.nil_append, List.cons_append,
          List.cons.injEq] at htail
        rcases a.mark_mem with hmem | hmem
        · exact absurd (by simp [htail.2, hmem]) (hnot (c := '.') (by decide))
        · exact absurd (by simp [htail.2, hmem]) (hnot (c := '[') (by decide))
    | some ports' =>
      rw [hports', behind, List.cons_append, List.cons.injEq] at htail
      constructor
      · cases haddr' : d'.localAddr with
        | none => rfl
        | some a => exact absurd (by simp [htail.2, haddr', behind]) (hnot (c := ':') (by decide))
      · cases hport' : d'.localPort with
        | none => rfl
        | some p => exact absurd (by simp [htail.2, hport', behind]) (hnot (c := ':') (by decide))

theorem local_eq {s : List Char} {out c : Connection} (h : clientConnection s out = .ok c) :
    c.localAddress = out.localAddress ∧ c.localPort = out.localPort := by
  rw [clientConnection] at h
  obtain ⟨_, -, h⟩ := bind_eq_ok_iff.mp h
  obtain ⟨_, -, h⟩ := bind_eq_ok_iff.mp h
  cases h
  exact ⟨rfl, rfl⟩

/-- The code never gives a local part. -/
theorem Conforms.no_local_parts {s : List Char} (h : Conforms s) {d : Documented}
    (hd : d.text = s) : d.localAddr = none ∧ d.localPort = none := by
  have hread : ∀ out, ∃ c, clientConnection s out = .ok c ∧ c.localAddress = out.localAddress ∧
      c.localPort = out.localPort := fun out => by
    obtain ⟨c, hc⟩ := (h.accepts out).mpr ⟨d, hd⟩
    exact ⟨c, hc, local_eq hc⟩
  constructor
  · cases haddr : d.localAddr with
    | none => rfl
    | some a =>
      obtain ⟨c, hc, hlocal, -⟩ := hread ⟨.tcp, [], [], 'x' :: a.value, 0⟩
      have heq := h.localAddress d _ c hd hc a haddr
      rw [hlocal] at heq
      exact absurd heq (by simp)
  · cases hport : d.localPort with
    | none => rfl
    | some p =>
      obtain ⟨c, hc, -, hlocal⟩ := hread ⟨.tcp, [], [], [], p.port + 1⟩
      have heq := h.localPort d _ c hd hc p hport
      rw [hlocal] at heq
      exact absurd heq (by simp)

/-! ### Addresses in brackets -/

theorem isBracketChar_of_addressChar {c : Char} (h : AddressChar c) (hdot : c ≠ '.') :
    isBracketChar c = true := by
  rcases h with h | h | h | h
  · exact isBracketChar_of_alphanum (.inl h)
  · exact isBracketChar_of_alphanum (.inr (.inl h))
  · exact isBracketChar_of_alphanum (.inr (.inr h))
  · exact absurd h hdot

/-- Where there is one closing bracket, the search ends there. -/
theorem mem_bracket_of_first {a : List Char} (ha : ']' ∉ a) (ht : ']' ∉ t)
    (h : first regexBracket ('[' :: (a ++ ']' :: t)) = some u) :
    3 ≤ a.length ∧ ∀ c ∈ a, isBracketChar c = true := by
  obtain ⟨w, hw, heq⟩ := (mem_rests _ _ _).mp (mem_rests_of_first h)
  obtain ⟨x, hx, v, hv, rfl⟩ := mem_language_seq.mp hw
  obtain ⟨y, hy, z, hz, rfl⟩ := mem_language_seq.mp hv
  rw [mem_language_chr.mp hx, mem_language_chr.mp hz] at heq
  have heq' : a ++ ']' :: t = y ++ ']' :: u := by simpa using heq
  have hy' : ']' ∉ y := by
    have hcount := congrArg (List.count ']') heq'
    rw [List.count_append, List.count_append, List.count_cons_self, List.count_cons_self,
      List.count_eq_zero_of_not_mem ha, List.count_eq_zero_of_not_mem ht] at hcount
    exact List.count_eq_zero.mp (by omega)
  rw [((append_cons_inj ha hy').mp heq').1]
  exact mem_language_atLeast_cls.mp hy

theorem bracket_not_mem_tail {d : Documented} (haddr : d.localAddr = none)
    (hport : d.localPort = none) : ']' ∉ d.tail := by
  have hports : ∀ ports : DstPorts, ']' ∉ ports.text :=
    fun ports hmem => absurd (ports.forall_mem _ hmem) (by decide)
  rw [Documented.tail, haddr, hport, behind, behind, List.append_nil, List.append_nil]
  exact not_mem_behind (by decide) hports _

/-- The code takes documented texts without local parts where it covers the host. -/
theorem exists_ok_iff_covered {d : Documented} (haddr : d.localAddr = none)
    (hport : d.localPort = none) (out : Connection) :
    (∃ c, clientConnection d.text out = .ok c) ↔ d.dstHost.Covered := by
  have hbracket := bracket_not_mem_tail haddr hport
  have htail : AcceptedTail d.tail := by
    rw [Documented.tail, haddr, hport, behind, behind, List.append_nil, List.append_nil]
    cases d.dstPorts with
    | none => exact .inl rfl
    | some ports => exact (exists_ports_iff []).mp ⟨_, ports_lists ports.lists []⟩
  rw [exists_ok_iff, scheme_text]
  rcases d.dstHost.text_cases with ⟨hcovered, hne, hchars⟩ | ⟨a, ha, hhost⟩
  · have hname : first regexName (d.dstHost.text ++ d.tail) = some d.tail :=
      first_regexName hne hchars fun c hc => by
        rw [d.head?_tail c hc]
        decide
    exact iff_of_true ⟨d.tail, .inr hname, htail⟩ hcovered
  · have hinner := not_mem_of_mem_regexIPv6Address (c := ']') ha (by decide)
    have htext : d.dstHost.text ++ d.tail = '[' :: (a ++ ']' :: d.tail) := by
      rw [hhost]
      simp [DstHost.text, Address.text]
    rw [htext, hhost]
    constructor
    · rintro ⟨t, hfirst | hfirst, -⟩
      · obtain ⟨hlen, hchars⟩ := mem_bracket_of_first hinner hbracket hfirst
        exact ⟨hlen, fun hmem => absurd (hchars _ hmem) (by decide)⟩
      · rw [regexName, first_plus_cls_cons, if_neg (by decide)] at hfirst
        cases hfirst
    · rintro ⟨hlen, hdot⟩
      have hchars : ∀ c ∈ a, isBracketChar c = true := fun c hc =>
        isBracketChar_of_addressChar (over_regexIPv6Address.forall_mem ha c hc)
          (ne_of_mem_of_not_mem hc hdot)
      exact ⟨d.tail, .inl (first_regexBracket hlen hchars hbracket), htail⟩

/-! ### Errors -/

theorem stoul_error {e : ParseError} (h : stoul s = .error e) :
    e = .invalidArgument ∨ e = .outOfRange := by
  simp only [stoul] at h
  split_ifs at h <;> cases h <;> decide

theorem stoulAt_expected {vec : List (List Char)} {i : Nat} {e : ValueError}
    (h : stoulAt vec i = .error e) : e.Expected := by
  rw [stoulAt] at h
  cases hstoul : stoul (vec.getD i []) with
  | ok x =>
    rw [hstoul] at h
    cases h
  | error e' =>
    rw [hstoul] at h
    cases h
    rcases stoul_error hstoul with rfl | rfl
    · exact .inr (.inl rfl)
    · exact .inr (.inr rfl)

theorem raiseIf_expected {c : Prop} [Decidable c] {what : List Char} {e : ValueError}
    (h : raiseIf c (.invalidArgument what) = .error e) : e.Expected :=
  .inl ⟨what, (raiseIf_eq_error_iff.mp h).2.symm⟩

theorem range_expected {e : ValueError} (h : range w = .error e) : e.Expected := by
  have hbug : e ≠ .bug := fun he => range_ne_bug w (he ▸ h)
  simp only [range, bind_eq_error_iff] at h
  rcases h with h | ⟨-, -, h | ⟨-, -, h | ⟨a, -, h | ⟨b, -, h | ⟨-, -, h⟩⟩⟩⟩⟩
  · exact raiseIf_expected h
  · exact absurd (raiseIf_eq_error_iff.mp h).2.symm hbug
  · exact stoulAt_expected h
  · split_ifs at h
    · exact stoulAt_expected h
    · cases h
  · exact raiseIf_expected h
  · cases h

theorem rangeList_expected {e : ValueError} (h : rangeList s = .error e) : e.Expected := by
  have hbug : e ≠ .bug := fun he => (rangeList_spec s).2 (he ▸ h)
  simp only [rangeList, bind_eq_error_iff] at h
  rcases h with h | ⟨-, -, h | ⟨-, -, h⟩⟩
  · exact raiseIf_expected h
  · exact absurd (raiseIf_eq_error_iff.mp h).2.symm hbug
  · obtain ⟨w, -, hw⟩ := mapM_eq_error h
    exact range_expected hw

theorem host_expected {e : ValueError} (h : host s t = .error e) : e.Expected := by
  rw [host] at h
  cases hbracket : first regexBracket t with
  | some rest =>
    simp only [hbracket] at h
    cases h
  | none =>
    cases hname : first regexName t with
    | some rest =>
      simp only [hbracket, hname] at h
      cases h
    | none =>
      simp only [hbracket, hname] at h
      exact .inl ⟨s, (Except.error.inj h).symm⟩

theorem ports_expected {remotePorts : List (UInt64 × UInt64)} {e : ValueError}
    (h : ports remotePorts t = .error e) : e.Expected := by
  cases t with
  | nil => cases h
  | cons c t =>
    rw [ports] at h
    rcases bind_eq_error_iff.mp h with h | ⟨-, -, h⟩
    · exact raiseIf_expected h
    · cases hfirst : first regexRangeList t with
      | none =>
        rw [hfirst] at h
        exact .inl ⟨t, (Except.error.inj h).symm⟩
      | some rest =>
        rw [hfirst] at h
        exact rangeList_expected h

theorem clientConnection_expected {out : Connection} {e : ValueError}
    (h : clientConnection s out = .error e) : e.Expected := by
  rw [clientConnection] at h
  rcases bind_eq_error_iff.mp h with h | ⟨_, -, h⟩
  · exact host_expected h
  rcases bind_eq_error_iff.mp h with h | ⟨_, -, h⟩
  · exact ports_expected h
  · cases h

/-- The code keeps to its documentation on the documented texts without local parts whose
host it covers, and on the texts that are neither documented nor accepted. -/
theorem conforms_iff (s : List Char) : Conforms s ↔
    (∃ d : Documented, d.text = s ∧ d.localAddr = none ∧ d.localPort = none ∧ d.dstHost.Covered) ∨
      (¬∃ d : Documented, d.text = s) ∧ ¬Accepted s := by
  constructor
  · intro h
    by_cases hdoc : ∃ d : Documented, d.text = s
    · obtain ⟨d, rfl⟩ := hdoc
      obtain ⟨haddr, hport⟩ := h.no_local_parts rfl
      have hok := (h.accepts ⟨.tcp, [], [], [], 0⟩).mpr ⟨d, rfl⟩
      exact .inl ⟨d, rfl, haddr, hport, (exists_ok_iff_covered haddr hport _).mp hok⟩
    · refine .inr ⟨hdoc, fun haccepted => hdoc ?_⟩
      exact (h.accepts ⟨.tcp, [], [], [], 0⟩).mp ((accepted_iff s _).mpr haccepted)
  · rintro (⟨d, rfl, haddr, hport, hcovered⟩ | ⟨hdoc, haccepted⟩)
    · have hlocal : ∀ d' : Documented, d'.text = d.text → d'.localAddr = none ∧
          d'.localPort = none := fun d' hd' => no_local_parts hd'.symm haddr hport
      refine ⟨fun out => iff_of_true ?_ ⟨d, rfl⟩, ?_, ?_, fun _ _ => clientConnection_expected⟩
      · exact (exists_ok_iff_covered haddr hport out).mpr hcovered
      · intro d' out c hd' _ a ha
        rw [(hlocal d' hd').1] at ha
        cases ha
      · intro d' out c hd' _ p hp
        rw [(hlocal d' hd').2] at hp
        cases hp
    · refine ⟨fun out => iff_of_false ?_ hdoc, ?_, ?_, fun _ _ => clientConnection_expected⟩
      · exact fun hok => haccepted ((accepted_iff s out).mp hok)
      · exact fun d _ _ hd => absurd ⟨d, hd⟩ hdoc
      · exact fun d _ _ hd => absurd ⟨d, hd⟩ hdoc

/-- In `a:1:2` the local port is passed over. -/
theorem not_conforms : ¬∀ s, Conforms s := by
  intro h
  let d : Documented :=
    { proto := none
      dstHost := .name "a".toList (isMatch_iff.mp (by decide +kernel))
      dstPorts := some ⟨"1".toList, [(1, 1)], ((rangeList_spec _).1 _).mp (by decide +kernel)⟩
      localAddr := none
      localPort := some ⟨"2".toList, 2, isMatch_iff.mp (by decide +kernel),
        ⟨by decide, List.all_eq_true.mp (by decide), rfl⟩⟩
      ports_first := fun h => by cases h }
  have hd : d.text = "a:1:2".toList := rfl
  exact absurd ((h "a:1:2".toList).no_local_parts hd).2 (by simp [d])

end ValueParser

end NetBabbler
