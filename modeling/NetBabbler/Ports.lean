import NetBabbler.Properties
import NetBabbler.ValueParser

/-!
# The ports of a run

The loops of `cApplication::execute` that create a client or the servers for each port of
the ranges on the command line. A range has ends of 64 bits and a port has 16.

`used_iff` : the loops end and use the ports that the ranges denote, if and only if all of
these are below 65536.
-/

namespace NetBabbler

namespace Application

/-! ## The loops -/

section Loops

variable {β : Type}

/-- `for (auto port = first; port <= second; port++)` with what each round creates, if it ends
within so many rounds. -/
def portLoop (body : UInt16 → List β) (second : UInt64) : Nat → UInt64 → Option (List β)
  | 0, _ => none
  | rounds + 1, port =>
    if port ≤ second then
      (portLoop body second rounds (port + 1)).map (body port.toUInt16 ++ ·)
    else some []

/-- `for (const auto& range : ranges)` around it. -/
def rangeLoop (body : UInt16 → List β) (rounds : Nat) :
    List (UInt64 × UInt64) → Option (List β)
  | [] => some []
  | range :: ranges => do
    let here ← portLoop body range.2 rounds range.1
    let rest ← rangeLoop body rounds ranges
    pure (here ++ rest)

end Loops

/-- `n` more rounds of `for (int n = 0; n < m_options.clientConnections; n++)`. -/
def connectionLoop (rounds : Nat) (remotePorts : List (UInt64 × UInt64)) :
    Nat → Option (List UInt16)
  | 0 => some []
  | n + 1 => do
    let here ← rangeLoop (fun dport => [dport]) rounds remotePorts
    let rest ← connectionLoop rounds remotePorts n
    pure (here ++ rest)

/-- The remote ports of the clients, in the order of their creation. -/
def clients (rounds : Nat) (remotePorts : List (UInt64 × UInt64)) (clientConnections : Int) :
    Option (List UInt16) :=
  connectionLoop rounds remotePorts clientConnections.toNat

/-- The servers with their ports, in the order of their creation. -/
def servers (rounds : Nat) (portList : List (UInt64 × UInt64)) :
    Option (List (Protocol × UInt16)) :=
  rangeLoop (fun port => [(.tcp, port), (.sctp, port), (.dccp, port), (.udp, port)]) rounds portList

/-! ## The ports that are meant -/

/-- The numbers of the ranges. -/
def denoted (ranges : List (UInt64 × UInt64)) : List Nat :=
  ranges.flatMap fun range => List.range' range.1.toNat (range.2.toNat + 1 - range.1.toNat)

/-- For any number of connections the loops end, and they create clients and servers for the
numbers of the ranges. -/
structure Used (ranges : List (UInt64 × UInt64)) : Prop where
  clients : ∀ connections : Int, ∃ rounds ports, clients rounds ranges connections = some ports ∧
    ports.map UInt16.toNat = (List.replicate connections.toNat (denoted ranges)).flatten
  servers : ∃ rounds ports, servers rounds ranges = some ports ∧
    ports.map (fun server => (server.1, server.2.toNat)) = (denoted ranges).flatMap fun port =>
      [(.tcp, port), (.sctp, port), (.dccp, port), (.udp, port)]

/-! ## Runs of the loops -/

section Loops

variable {β : Type} {body : UInt16 → List β} {second port : UInt64}
  {ranges : List (UInt64 × UInt64)}

/-- A loop that does not go up to the last number of 64 bits ends behind its last port. -/
theorem portLoop_eq (hsecond : second.toNat + 1 < 2 ^ 64) :
    ∀ {rounds : Nat} {port : UInt64}, second.toNat + 1 - port.toNat < rounds →
      portLoop body second rounds port =
        some ((List.range' port.toNat (second.toNat + 1 - port.toNat)).flatMap fun n =>
          body (UInt16.ofNat n))
  | rounds + 1, port, hrounds => by
    rw [portLoop]
    split_ifs with hle
    · have hport : port.toNat ≤ second.toNat := hle
      have hnext : (port + 1).toNat = port.toNat + 1 := by
        rw [UInt64.toNat_add, UInt64.toNat_one]
        omega
      have hcut : port.toUInt16 = UInt16.ofNat port.toNat := rfl
      rw [portLoop_eq hsecond (by omega), hnext, Option.map_some,
        show second.toNat + 1 - port.toNat = (second.toNat - port.toNat) + 1 by omega,
        List.range'_succ, List.flatMap_cons, hcut, Nat.add_sub_add_right]
    · have hport : ¬port.toNat ≤ second.toNat := hle
      rw [Nat.sub_eq_zero_of_le (by omega)]
      rfl

/-- The loops make what their bodies make for the numbers of the ranges. -/
theorem rangeLoop_eq {rounds : Nat} (h : ∀ r ∈ ranges, r.2.toNat + 1 < 2 ^ 64)
    (hrounds : ∀ r ∈ ranges, r.2.toNat + 1 < rounds) :
    rangeLoop body rounds ranges =
      some ((denoted ranges).flatMap fun n => body (UInt16.ofNat n)) := by
  induction ranges with
  | nil => rfl
  | cons r ranges ih =>
    obtain ⟨hr, hranges⟩ := List.forall_mem_cons.mp h
    obtain ⟨hr', hranges'⟩ := List.forall_mem_cons.mp hrounds
    have hdenoted : denoted (r :: ranges) =
        List.range' r.1.toNat (r.2.toNat + 1 - r.1.toNat) ++ denoted ranges := List.flatMap_cons
    rw [rangeLoop, portLoop_eq hr (by omega), ih hranges hranges', hdenoted, List.flatMap_append]
    rfl

end Loops

variable {ranges : List (UInt64 × UInt64)}

theorem connectionLoop_eq {rounds : Nat} {ports : List UInt16}
    (h : rangeLoop (fun dport => [dport]) rounds ranges = some ports) (n : Nat) :
    connectionLoop rounds ranges n = some (List.replicate n ports).flatten := by
  induction n with
  | zero => rfl
  | succ n ih =>
    rw [connectionLoop, h, ih, List.replicate_succ, List.flatten_cons]
    rfl

/-- A port below 65536 survives the cast. -/
theorem toNat_ofNat_of_mem (h : ∀ r ∈ ranges, r.2.toNat < 65536) {n : Nat}
    (hn : n ∈ denoted ranges) : (UInt16.ofNat n).toNat = n := by
  obtain ⟨r, hr, hn⟩ := List.mem_flatMap.mp hn
  have hsecond := h r hr
  have hrange := List.mem_range'_1.mp hn
  have hsize : UInt16.size = 65536 := rfl
  exact UInt16.toNat_ofNat_of_lt' (by omega)

theorem second_mem_denoted {r : UInt64 × UInt64} (hr : r ∈ ranges) (hle : r.1 ≤ r.2) :
    r.2.toNat ∈ denoted ranges := by
  have hle' : r.1.toNat ≤ r.2.toNat := hle
  exact List.mem_flatMap.mpr ⟨r, hr, List.mem_range'_1.mpr ⟨hle', by omega⟩⟩

/-- The ports of an accepted list of ranges are used, if and only if they are ports. -/
theorem used_iff {s : List Char} (hs : ValueParser.rangeList s = .ok ranges) :
    Used ranges ↔ ∀ r ∈ ranges, r.2 < 65536 := by
  obtain ⟨items, -, -, hitems⟩ := ((ValueParser.rangeList_spec s).1 ranges).mp hs
  have hordered : ∀ r ∈ ranges, r.1 ≤ r.2 := fun r hr => by
    obtain ⟨w, -, hle⟩ := exists_of_forall₂ hitems.flip r hr
    exact hle
  constructor
  · intro hused r hr
    obtain ⟨_, ports, -, hports⟩ := hused.clients 1
    rw [Int.toNat_one, List.replicate_one, List.flatten_singleton] at hports
    obtain ⟨port, -, hport⟩ := List.mem_map.mp (hports ▸ second_mem_denoted hr (hordered r hr))
    show r.2.toNat < 65536
    rw [← hport]
    exact port.toNat_lt
  · intro hsmall
    have h : ∀ r ∈ ranges, r.2.toNat < 65536 := hsmall
    have hcast : ∀ n ∈ denoted ranges, (UInt16.ofNat n).toNat = n := fun n => toNat_ofNat_of_mem h
    have hlast : ∀ r ∈ ranges, r.2.toNat + 1 < 2 ^ 64 := fun r hr => by
      have hr' := h r hr
      omega
    have hrounds : ∀ r ∈ ranges, r.2.toNat + 1 < 65538 := fun r hr => by
      have hr' := h r hr
      omega
    refine ⟨fun _ => ⟨65538, _, connectionLoop_eq (rangeLoop_eq hlast hrounds) _, ?_⟩,
      65538, _, rangeLoop_eq hlast hrounds, ?_⟩
    · have hclient : ((denoted ranges).flatMap fun n => [UInt16.ofNat n]).map UInt16.toNat =
          denoted ranges := by
        rw [← List.map_eq_flatMap, List.map_map]
        exact (List.map_congr_left hcast).trans (List.map_id _)
      rw [List.map_flatten, List.map_replicate, hclient]
    · rw [List.map_flatMap]
      refine List.flatMap_congr fun n hn => ?_
      simp only [List.map_cons, List.map_nil, hcast n hn]

theorem used_web : Used [(80, 82), (443, 443)] :=
  (used_iff (s := "80-82,443".toList) (by decide +kernel)).mpr
    (List.forall_iff_forall_mem.mp (by decide))

/-- Port 65536 becomes port 0. -/
theorem not_used : ¬∀ s ranges, ValueParser.rangeList s = .ok ranges → Used ranges := by
  intro h
  have hused := h "65536".toList [(65536, 65536)] (by decide +kernel)
  obtain ⟨_, ports, -, hports⟩ := hused.clients 1
  have hmem : 65536 ∈ ports.map UInt16.toNat := by
    rw [hports]
    decide
  obtain ⟨port, -, hport⟩ := List.mem_map.mp hmem
  exact absurd port.toNat_lt (by omega)

end Application

end NetBabbler
