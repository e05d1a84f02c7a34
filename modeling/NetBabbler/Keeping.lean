import NetBabbler.Protocol

/-!
# What the socket keeps, the protocol keeps

`cBabblerProtocol` reaches its socket through `recv` and `send` alone. An invariant of the
socket that `recv` keeps is kept by `receive`, and one that `send` keeps is kept by
`sendRequest` and `sendResponse`; the same goes for the faults that the calls may end in.
`recv_keeps` and `send_keeps` reduce that to one answer of the kernel at a time.

Three kernels are used later on : one without a cancel event (`Uncancelled`), one that
fails sooner or later (`Closing`), and one after the cancel event (`Cancelled`).
-/

namespace NetBabbler

open EStateM

/-! ## Calls on the socket -/

namespace Socket

/-- What `recv` keeps of the answers to come, if one answer after the other does. -/
structure KeepsPolls (P : List Poll → Prop) (F : Fault → Prop) : Prop where
  next : ∀ revents polls, P (.ready revents :: polls) → revents.hangup = false →
    (revents.cancel = true → F .eventException) ∧ P polls
  blocked : P [] → F .blocked
  errorException : ∀ what, F (.errorException what)
  bug : F .bug

/-- What `send` keeps of the answers to come. -/
structure KeepsSendtos (P : List Sendto → Prop) (F : Fault → Prop) : Prop where
  next : ∀ n sendtos, P (.accepted n :: sendtos) → P sendtos
  blocked : P [] → F .blocked
  errorException : ∀ what, F (.errorException what)

theorem length_take {asked n : Nat} {c rest : Channel} {bs : List UInt8}
    {src : Option SockAddr} (h : c.take asked n = some (bs, src, rest)) : bs.length ≤ asked := by
  rcases c with incoming | _ | ⟨⟨peer, d⟩, queue⟩
  · rw [Channel.take] at h
    split at h
    · cases h
    · cases h
      rw [List.length_take]
      omega
  · cases h
  · cases h
    exact List.length_take_le _ _

theorem recvfrom_frame (asked : Nat) (answer : Recvfrom) (s : Socket) :
    (recvfrom asked answer s).2.polls = s.polls ∧
      (recvfrom asked answer s).2.sendtos = s.sendtos ∧
      ((recvfrom asked answer s).1.getD []).length ≤ asked := by
  cases answer with
  | data n =>
    rw [recvfrom]
    split
    · rename_i bs src rest h
      exact ⟨rfl, rfl, length_take h⟩
    · exact ⟨rfl, rfl, Nat.zero_le _⟩
  | _ => exact ⟨rfl, rfl, Nat.zero_le _⟩

variable {P : List Poll → Prop} {R : List Sendto → Prop} {F : Fault → Prop}

theorem recvReady_frame (h : KeepsPolls P F) {len : Nat} {received : List UInt8}
    (hlen : received.length ≤ len) (answer : Option Recvfrom) (s : Socket) :
    Ends (recvReady len received answer)
      (fun out s' => s'.polls = s.polls ∧ s'.sendtos = s.sendtos ∧ out.length ≤ len)
      (fun f _ => F f) s := by
  cases answer with
  | none =>
    rw [recvReady, ends_pure]
    exact ⟨rfl, rfl, hlen⟩
  | some answer =>
    obtain ⟨hpolls, hsendtos, hret⟩ := recvfrom_frame (len - received.length) answer s
    simp only [ends_recvReady]
    split
    · exact h.errorException _
    · refine ⟨hpolls, hsendtos, ?_⟩
      rw [List.length_append]
      omega

theorem recvLoop_keeps (h : KeepsPolls P F) (len atleast : Nat) :
    ∀ (polls : List Poll) {s : Socket} {received : List UInt8}, P polls → R s.sendtos →
      received.length ≤ len →
      Ends (recvLoop len atleast received polls)
        (fun out s' => (P s'.polls ∧ R s'.sendtos) ∧ out.length ≤ len) (fun f _ => F f) s
  | [], s, received, hP, _, _ => by
    rw [recvLoop, ends_throw]
    exact h.blocked hP
  | poll :: polls, s, received, hP, hR, hlen => by
    simp only [recvLoop, ends_bind, ends_modify]
    rcases poll with err | _ | revents
    · simp only [ends_bind, ends_modify, ends_throw]
      exact h.errorException _
    · rw [ends_throw]
      exact h.errorException _
    · simp only [ends_bind, ends_throwIf]
      by_cases hup : revents.hangup = true
      · rw [if_pos hup]
        exact h.errorException _
      obtain ⟨hcancel, hnext⟩ := h.next revents polls hP (by simpa using hup)
      rw [if_neg hup]
      refine (recvReady_frame h hlen revents.input _).mono ?_ fun _ _ he => he
      rintro received' s' ⟨hpolls, hsendtos, hlen'⟩
      split_ifs with hc hmore
      · exact hcancel hc
      · exact recvLoop_keeps h len atleast polls hnext (hsendtos ▸ hR) hlen'
      · rw [ends_pure]
        exact ⟨⟨hpolls ▸ hnext, hsendtos ▸ hR⟩, hlen'⟩

theorem recv_keeps (h : KeepsPolls P F) (len atleast : Nat) :
    Keeps (fun s => P s.polls ∧ R s.sendtos) F (recv len atleast) := by
  intro s hs
  simp only [recv, ends_bind, ends_bugOn, ends_get]
  split_ifs
  · exact h.bug
  · exact (recvLoop_keeps h len atleast s.polls hs.1 hs.2 (Nat.zero_le _)).mono
      (fun _ _ he => he.1) fun _ _ he => he

/-- `recv` brings no more than was asked for, whatever the channel. -/
theorem recv_length (len atleast : Nat) (s : Socket) :
    Ends (recv len atleast) (fun out _ => out.length ≤ len) (fun _ _ => True) s := by
  simp only [recv, ends_bind, ends_bugOn, ends_get]
  split_ifs
  refine (recvLoop_keeps (P := fun _ => True) (R := fun _ => True) (F := fun _ => True)
    ⟨fun _ _ _ _ => ⟨fun _ => trivial, trivial⟩, fun _ => trivial, fun _ => trivial, trivial⟩
    len atleast s.polls trivial trivial (Nat.zero_le _)).mono (fun _ _ he => he.2) fun _ _ he => he

theorem sendtoLoop_keeps (h : KeepsSendtos R F) (dest : Option SockAddr) :
    ∀ (answers : List Sendto) {s : Socket} {data : List UInt8}, R answers →
      Ends (sendtoLoop dest data answers)
        (fun _ s' => s'.polls = s.polls ∧ R s'.sendtos ∧ s'.sendtos.length < answers.length)
        (fun f _ => F f) s
  | [], s, data, hR => by
    rw [sendtoLoop, ends_throw]
    exact h.blocked hR
  | answer :: answers, s, data, hR => by
    simp only [sendtoLoop, ends_bind, ends_modify]
    rcases answer with n | err
    · have hnext := h.next n answers hR
      simp only [ends_bind, ends_modify, ends_ite, ends_pure, List.length_cons]
      split_ifs
      · refine (sendtoLoop_keeps h dest answers hnext).mono ?_ fun _ _ he => he
        rintro _ s' ⟨hpolls, hR', hlt⟩
        exact ⟨hpolls, hR', by omega⟩
      · exact ⟨trivial, hnext, Nat.lt_succ_self _⟩
    · simp only [ends_bind, ends_modify, ends_throw]
      exact h.errorException _

theorem send_keeps (h : KeepsSendtos R F) (data : List UInt8) (dest : Option SockAddr) :
    Keeps (fun s => P s.polls ∧ R s.sendtos) F (send data dest) := by
  intro s hs
  simp only [send, ends_bind, ends_get, ends_pure]
  refine (sendtoLoop_keeps h dest s.sendtos hs.2).mono ?_ fun _ _ he => he
  rintro _ s' ⟨hpolls, hR, -⟩
  exact ⟨hpolls ▸ hs.1, hR⟩

/-- `send` calls `sendto` at least once. -/
theorem send_consumes (data : List UInt8) (dest : Option SockAddr) (s : Socket) :
    Ends (send data dest) (fun _ s' => s'.sendtos.length < s.sendtos.length)
      (fun _ _ => True) s := by
  simp only [send, ends_bind, ends_get, ends_pure]
  refine (sendtoLoop_keeps (R := fun _ => True) ⟨fun _ _ h => h, fun _ => trivial,
    fun _ => trivial⟩ dest s.sendtos trivial).mono ?_ fun _ _ he => he
  exact fun _ s' hs' => hs'.2.2

/-! ### Three kernels -/

/-- No cancel event is signalled, as where none is set. -/
def Uncancelled (s : Socket) : Prop :=
  ∀ revents, .ready revents ∈ s.polls → revents.cancel = false

end Socket

/-- After this answer `recv` throws. -/
def Poll.Fails : Poll → Prop
  | .error _ | .timeout => True
  | .ready revents => revents.hangup = true

namespace Socket

/-- The connection fails sooner or later, for reading and for writing. -/
structure Closing (s : Socket) : Prop where
  polls : ∃ p ∈ s.polls, p.Fails
  sendtos : ∃ err, .error err ∈ s.sendtos

theorem closing_iff (s : Socket) :
    s.Closing ↔ (∃ p ∈ s.polls, p.Fails) ∧ ∃ err, .error err ∈ s.sendtos :=
  ⟨fun h => ⟨h.polls, h.sendtos⟩, fun h => ⟨h.1, h.2⟩⟩

theorem keepsPolls_uncancelled :
    KeepsPolls (fun polls => ∀ revents, .ready revents ∈ polls → revents.cancel = false)
      (· ≠ .eventException) where
  next revents polls h _ := by
    refine ⟨fun hcancel => ?_, fun r hr => h r (List.mem_cons_of_mem _ hr)⟩
    rw [h revents List.mem_cons_self] at hcancel
    cases hcancel
  blocked _ := by simp
  errorException _ := by simp
  bug := by simp

theorem keepsPolls_closing : KeepsPolls (fun polls => ∃ p ∈ polls, p.Fails) (· ≠ .blocked) where
  next revents polls h hup := by
    obtain ⟨p, hp, hfails⟩ := h
    refine ⟨fun _ => by simp, p, ?_, hfails⟩
    rcases List.mem_cons.mp hp with rfl | hp
    · simp [Poll.Fails, hup] at hfails
    · exact hp
  blocked := by simp
  errorException _ := by simp
  bug := by simp

theorem keepsSendtos_closing :
    KeepsSendtos (fun sendtos => ∃ err, .error err ∈ sendtos) (· ≠ .blocked) where
  next n sendtos h := by
    obtain ⟨err, herr⟩ := h
    exact ⟨err, by simpa using herr⟩
  blocked := by simp
  errorException _ := by simp

/-- Whatever holds of the answers to come holds with fewer of them. -/
theorem keepsSendtos_length (k : Nat) :
    KeepsSendtos (fun sendtos => sendtos.length < k) fun _ => True where
  next _ _ h := Nat.lt_of_succ_lt h
  blocked _ := trivial
  errorException _ := trivial

theorem keepsSendtos_trivial (F : Fault → Prop) (hblocked : F .blocked)
    (herror : ∀ what, F (.errorException what)) : KeepsSendtos (fun _ => True) F :=
  ⟨fun _ _ h => h, fun _ => hblocked, herror⟩

end Socket

/-! ## Calls on the protocol object -/

namespace BabblerProtocol

variable {J : Socket → Prop} {F : Fault → Prop}

theorem keeps_onSocket {α : Type} {m : EStateM Fault Socket α} (h : Keeps J F m) :
    Keeps (fun s => J s.socket) F (onSocket m) :=
  Keeps.zoom (fun _ _ => rfl) h

theorem keeps_throwIf {c : Prop} [Decidable c] {f : Fault} (h : F f) :
    Keeps (fun s : BabblerProtocol => J s.socket) F (throwIf c f) :=
  .ite (fun _ => keeps_throw h) fun _ => keeps_pure _

theorem keeps_bugOn {c : Prop} [Decidable c] (h : F .bug) :
    Keeps (fun s : BabblerProtocol => J s.socket) F (bugOn c) :=
  .ite (fun _ => keeps_throw h) fun _ => keeps_pure _

section Receiving

/-- `recv` keeps `J`, and the faults of `receive` itself are of `F`. -/
structure Receives (J : Socket → Prop) (F : Fault → Prop) : Prop where
  recv : ∀ len atleast, Keeps J F (Socket.recv len atleast)
  own : ∀ f : Fault, ¬f.OfSocket → F f

variable (h : Receives J F)
include h

theorem Receives.recvInto (len atleast : Nat) :
    Keeps (fun s => J s.socket) F (recvInto len atleast) :=
  .bind (keeps_onSocket (h.recv len atleast)) fun _ => .bind (keeps_modify fun _ hs => hs) fun _ =>
    .bind (keeps_modify fun _ hs => hs) fun _ => keeps_pure _

theorem Receives.receiveHeader : Keeps (fun s => J s.socket) F receiveHeader := by
  have hrcvLen : Keeps (fun s => J s.socket) F rcvLen :=
    .bind keeps_get fun s => .ite (fun _ => h.recvInto _ _) fun _ => keeps_pure _
  have hheaderAt : Keeps (fun s => J s.socket) F headerAt :=
    .bind keeps_get fun s => .bind (keeps_throwIf (h.own _ id)) fun _ => keeps_pure _
  refine .bind hrcvLen fun n => .bind (keeps_bugOn (h.own _ id)) fun _ =>
    .bind hheaderAt fun header => ?_
  exact .bind (keeps_throwIf (h.own _ id)) fun _ => .bind (keeps_throwIf (h.own _ id)) fun _ =>
    keeps_pure _

theorem Receives.checkPayload (incr : Bool) : ∀ (data : List UInt8) (len : Nat) (v : UInt8),
    Keeps (fun s => J s.socket) F (checkPayload incr data len v)
  | _, 0, v => by
    rw [BabblerProtocol.checkPayload]
    exact keeps_pure v
  | [], _ + 1, _ => keeps_throw (h.own _ id)
  | _ :: data, len + 1, v =>
    .bind (keeps_throwIf (h.own _ id)) fun _ => Receives.checkPayload incr data len _

theorem Receives.receiveRest (isRequest : Bool) : ∀ (fuel : Nat) (n : Int) (v : UInt8),
    Keeps (fun s => J s.socket) F (receiveRest isRequest fuel n v)
  | 0, _, _ => keeps_throw (h.own _ id)
  | fuel + 1, n, v => by
    rw [BabblerProtocol.receiveRest]
    refine .ite (fun _ => ?_) fun _ => keeps_pure n
    exact .bind keeps_get fun _ => .bind (h.recvInto _ _) fun _ => .bind keeps_get fun _ =>
      .bind (h.checkPayload _ _ _ _) fun _ => Receives.receiveRest isRequest fuel _ _

theorem Receives.receive : Keeps (fun s => J s.socket) F receive := by
  have hconsume : ∀ len n, Keeps (fun s => J s.socket) F (consume len n) := fun len n =>
    .ite (fun _ => .bind (keeps_modify fun _ hs => hs) fun _ => .bind keeps_get fun _ =>
      keeps_bugOn (h.own _ id)) fun _ => keeps_modify fun _ hs => hs
  have hpayload : ∀ header n, Keeps (fun s => J s.socket) F (receivePayload header n) :=
    fun header n => .bind keeps_get fun _ => .bind (h.checkPayload _ _ _ _) fun _ =>
      .bind (h.receiveRest _ _ _ _) fun _ => hconsume _ _
  exact .bind h.receiveHeader fun _ => .bind (hpayload _ _) fun _ =>
    .bind (keeps_modify fun _ hs => hs) fun _ => keeps_pure _

theorem Receives.recvRequest : Keeps (fun s => J s.socket) F recvRequest :=
  .bind h.receive fun _ => .bind (keeps_throwIf (h.own _ id)) fun _ => keeps_pure _

theorem Receives.recvResponse (expSeq : UInt64) :
    Keeps (fun s => J s.socket) F (recvResponse expSeq) :=
  .bind h.receive fun _ => .bind (keeps_throwIf (h.own _ id)) fun _ =>
    keeps_throwIf (h.own _ id)

end Receiving

section Sending

/-- `send` keeps `J`, and the faults of `sendRequest` itself are of `F`. -/
structure Sends (J : Socket → Prop) (F : Fault → Prop) : Prop where
  send : ∀ data dest, Keeps J F (Socket.send data dest)
  own : ∀ f : Fault, ¬f.OfSocket → F f

variable (h : Sends J F)
include h

theorem Sends.sendLoop (totalLen : Nat) (incr : Bool) (dest : Option SockAddr) :
    ∀ (fuel p sent : Nat) (v : UInt8),
      Keeps (fun s => J s.socket) F (sendLoop totalLen incr dest fuel p sent v)
  | 0, _, _, _ => keeps_throw (h.own _ id)
  | fuel + 1, p, sent, v => by
    rw [BabblerProtocol.sendLoop]
    refine .ite (fun _ => ?_) fun _ => keeps_pure _
    exact .bind keeps_get fun _ => .bind (keeps_modify fun _ hs => hs) fun _ =>
      .bind (keeps_onSocket (h.send _ dest)) fun _ => .bind (keeps_modify fun _ hs => hs) fun _ =>
        Sends.sendLoop totalLen incr dest fuel _ _ _

theorem Sends.sendRequest (seq : UInt64) (reqSize respSize : UInt32) :
    Keeps (fun s => J s.socket) F (sendRequest seq reqSize respSize) :=
  .bind (keeps_bugOn (h.own _ id)) fun _ => .bind (keeps_bugOn (h.own _ id)) fun _ =>
    .bind (keeps_modify fun _ hs => hs) fun _ => h.sendLoop _ _ _ _ _ _ _

theorem Sends.sendResponse (seq : UInt64) (respSize : UInt32) (dest : Option SockAddr) :
    Keeps (fun s => J s.socket) F (sendResponse seq respSize dest) :=
  .bind (keeps_modify fun _ hs => hs) fun _ => h.sendLoop _ _ _ _ _ _ _

end Sending

/-! ### Under the three kernels -/

theorem receives_uncancelled : Receives Socket.Uncancelled (· ≠ .eventException) where
  recv len atleast := (Socket.recv_keeps (R := fun _ => True) Socket.keepsPolls_uncancelled len
    atleast).congr fun _ => and_iff_left trivial
  own f hf := by
    rintro rfl
    exact hf trivial

theorem sends_uncancelled : Sends Socket.Uncancelled (· ≠ .eventException) where
  send data dest := (Socket.send_keeps (P := fun polls => ∀ revents, .ready revents ∈ polls →
    revents.cancel = false) (Socket.keepsSendtos_trivial _ (by simp) (by simp)) data dest).congr
      fun _ => and_iff_left trivial
  own f hf := by
    rintro rfl
    exact hf trivial

theorem receives_closing : Receives Socket.Closing (· ≠ .blocked) where
  recv len atleast := (Socket.recv_keeps (R := fun sendtos => ∃ err, .error err ∈ sendtos)
    Socket.keepsPolls_closing len atleast).congr fun s => (Socket.closing_iff s).symm
  own f hf := by
    rintro rfl
    exact hf trivial

theorem sends_closing : Sends Socket.Closing (· ≠ .blocked) where
  send data dest := (Socket.send_keeps (P := fun polls => ∃ p ∈ polls, p.Fails)
    Socket.keepsSendtos_closing data dest).congr fun s => (Socket.closing_iff s).symm
  own f hf := by
    rintro rfl
    exact hf trivial

theorem sends_cancelled : Sends Socket.Cancelled fun _ => True where
  send data dest := (Socket.send_keeps (P := fun polls => ∀ revents, .ready revents ∈ polls →
    revents.cancel = true) (Socket.keepsSendtos_trivial _ trivial fun _ => trivial) data dest).congr
      fun _ => and_iff_left trivial
  own _ _ := trivial

/-- A loop of `send` that has something to send calls `sendto`. -/
theorem sendLoop_consumes {totalLen sent : Nat} (h : sent < totalLen) (incr : Bool)
    (dest : Option SockAddr) (fuel p : Nat) (v : UInt8) (s : BabblerProtocol) :
    Ends (sendLoop totalLen incr dest (fuel + 1) p sent v)
      (fun _ s' => s'.socket.sendtos.length < s.socket.sendtos.length) (fun _ _ => True) s := by
  have hsends : Sends (fun sock => sock.sendtos.length < s.socket.sendtos.length)
      fun _ => True :=
    ⟨fun data dest => (Socket.send_keeps (P := fun _ => True) (Socket.keepsSendtos_length _) data
      dest).congr fun _ => and_iff_right trivial, fun _ _ => trivial⟩
  simp only [sendLoop, if_pos h, ends_bind, ends_get, ends_modify, onSocket, ends_zoom,
    updateTransmitStats]
  refine (Socket.send_consumes _ _ _).mono ?_ fun _ _ he => he
  intro n sock hlt
  exact hsends.sendLoop _ _ _ _ _ _ _ _ hlt

/-- `sendRequest` with a payload calls `sendto`. -/
theorem sendRequest_consumes (s : BabblerProtocol) (seq : UInt64) (reqSize respSize : UInt32) :
    Ends (sendRequest seq reqSize respSize)
      (fun _ s' => 24 < reqSize.toNat → s'.socket.sendtos.length < s.socket.sendtos.length)
      (fun _ _ => True) s := by
  by_cases h : 24 < reqSize.toNat
  swap
  · exact ends_of_forall (fun _ _ hlt => (h hlt).elim) fun _ _ => trivial
  have hlen : (reqSize - 24 + 24).toNat = reqSize.toNat := by
    rw [UInt32.sub_add_cancel]
  simp only [sendRequest, send, ProtocolHeader.ofNat_size, hlen, ends_bind, ends_bugOn,
    ends_modify]
  by_cases hresp : respSize ≠ 0 ∧ respSize < 24
  · rw [if_pos hresp]
    trivial
  by_cases hreq : reqSize < 24
  · rw [if_neg hresp, if_pos hreq]
    trivial
  rw [if_neg hresp, if_neg hreq]
  exact (sendLoop_consumes h _ _ _ _ _ _).mono (fun _ _ hlt _ => hlt) fun _ _ he => he

end BabblerProtocol

end NetBabbler
