import NetBabbler.Network
import NetBabbler.Interleaving

/-!
# Exchanges over the network

What a client of the network sees of it : its own question, and what is under way between it
and the server (`Network.view`). `step_view` : as long as the network brings nothing twice,
every step is one of `RequestReply`, for every client.
-/

namespace NetBabbler

open EStateM BabblerProtocol Interleaving
open RequestReply (Status State Step Steps)

namespace Network

/-! ## What a client sees -/

/-- The server answers a request, given by the number and the size after the header, if the size
is not zero. -/
def Wanted (r : UInt64 × UInt32) : Prop :=
  r.2 ≠ 0

instance : DecidablePred Wanted := fun r =>
  inferInstanceAs (Decidable (r.2 ≠ 0))

/-- What a datagram from the client `i` asks for : the number, and the size after the header. -/
def asked (i : Nat) (d : Datagram) : Multiset (UInt64 × UInt32) :=
  let h := ProtocolHeader.ofBytes d.2
  if d.1 = i then {(h.seq, h.options)} else 0

/-- What a response answers. -/
def answer (bs : List UInt8) : UInt64 × UInt32 :=
  let h := ProtocolHeader.ofBytes bs
  (h.seq, h.length - 24)

/-- The same for a datagram to the client `i`. -/
def answered (i : Nat) (d : Datagram) : Multiset (UInt64 × UInt32) :=
  if d.1 = i then {answer d.2} else 0

/-- What a thread has in hand for the client `i`. -/
def inHand (i : Nat) (t : DatagramThread) : Multiset (UInt64 × UInt32) :=
  t.request.elim 0 fun r => if t.protocol.socket.peer = some i then {r} else 0

/-- What is on its way to the server, is in its receive queue, or in the hands of a thread. -/
def requestsOf (i : Nat) (n : Network) : Multiset (UInt64 × UInt32) :=
  (n.requests.map (asked i)).sum + (n.queue.map (asked i)).sum + (n.threads.map (inHand i)).sum

/-- What is in the receive queue of a client. -/
def received (c : DatagramClient) : Multiset (UInt64 × UInt32) :=
  (c.queue.map fun d => ({answer d.2} : Multiset (UInt64 × UInt32))).sum

/-- The client `i` and what is under way between it and the server. -/
def view (i : Nat) (n : Network) : State (UInt64 × UInt32) where
  status := (n.clients[i]?).elim .gone (·.status)
  requests := n.requestsOf i
  replies := (n.responses.map (answered i)).sum + (n.clients[i]?).elim 0 received

variable {limit i : Nat} {n n' : Network} {e : Event}

theorem asked_encode (i src : Nat) (m : Message) :
    asked i (src, m.encode) = if src = i then {(m.seq, m.options)} else 0 := by
  rw [asked, Message.ofBytes_of_isPrefix (List.prefix_refl _), Message.header_options,
    Message.header_seq]

theorem answer_encode (m : Message) : answer m.encode = (m.seq, UInt32.ofNat m.payloadLen) := by
  rw [answer, Message.ofBytes_of_isPrefix (List.prefix_refl _), Message.header_seq]
  have hlen : m.header.length - 24 = UInt32.ofNat m.payloadLen := by
    have hfits := m.fits
    rw [← UInt32.toNat_inj, UInt32.toNat_sub_of_le _ _ (by
      show 24 ≤ m.header.length.toNat
      rw [Message.header_length]
      omega), Message.header_length, UInt32.toNat_ofNat']
    show m.payloadLen + 24 - 24 = _
    omega
  rw [hlen]

theorem asked_of_ne {src : Nat} (h : src ≠ i) (bs : List UInt8) : asked i (src, bs) = 0 :=
  if_neg h

theorem inHand_of_free {t : DatagramThread} (h : t.request = none) : inHand i t = 0 := by
  rw [inHand, h]
  rfl

theorem view_of_client {c : DatagramClient} (hc : n.clients[i]? = some c) :
    n.view i = ⟨c.status, n.requestsOf i, (n.responses.map (answered i)).sum + received c⟩ := by
  rw [view, hc]
  rfl

theorem status_between {c : DatagramClient} (hc : n.clients[i]? = some c)
    (hphase : c.phase = .between) : (n.view i).status = .idle := by
  rw [view_of_client hc]
  show c.status = .idle
  rw [DatagramClient.status, hphase]

theorem status_awaiting {c : DatagramClient} (hc : n.clients[i]? = some c)
    (hphase : c.phase = .awaiting) :
    (n.view i).status = .waiting (c.requestor.seq, c.requestor.currRespSize - 24) := by
  rw [view_of_client hc]
  show c.status = _
  rw [DatagramClient.status, hphase]

/-- A client that steps is replaced in its place. -/
theorem getElem?_set {c : DatagramClient} (c' : DatagramClient) (hc : n.clients[i]? = some c) :
    (n.clients.set i c')[i]? = some c' := by
  rw [List.getElem?_set_self (List.getElem?_eq_some_iff.mp hc).choose]

/-- A step of another client that sends nothing to `i` is not seen. -/
theorem view_set_ne {j : Nat} (hne : j ≠ i) (c' : DatagramClient) (n : Network) :
    { n with clients := n.clients.set j c' }.view i = n.view i := by
  simp only [view, requestsOf, List.getElem?_set_ne hne]

/-! ## Every step -/

theorem view_ask {j : Nat} {c c' : DatagramClient} {sent : List Datagram}
    (hc : n.clients[j]? = some c) (h : DatagramClient.Asked limit j c sent c') (i : Nat) :
    Steps Wanted (n.view i)
      ({ n with clients := n.clients.set j c', requests := n.requests ++ sent }.view i) := by
  by_cases hij : j = i
  · subst hij
    have hreceived : received c' = received c := by rw [received, h.queue, received]
    have hview : { n with clients := n.clients.set j c', requests := n.requests ++ sent }.view j =
        { n.view j with
          status := c'.status
          requests := (sent.map (asked j)).sum + (n.view j).requests } := by
      rw [view_of_client (getElem?_set c' hc), view_of_client hc, hreceived, requestsOf, requestsOf]
      simp only [List.map_append, List.sum_append, State.mk.injEq, true_and, and_true]
      abel
    have hidle : (n.view j).status = .idle := status_between hc h.phase
    rw [hview]
    rcases h.sent with rfl | ⟨m, rfl, -, hwanted⟩
    · rw [List.map_nil, List.sum_nil, zero_add]
      exact .lapse hidle _
    · rw [List.map_singleton, List.sum_singleton, asked_encode, if_pos rfl,
        Multiset.singleton_add]
      rcases hwanted with hwaits | ⟨hsame, hnone⟩
      · rw [hwaits]
        exact .single (.ask _ _ hidle)
      · rw [hsame, ← hidle]
        exact .single (.tell _ _ hidle fun hopt => hopt hnone)
  · have hsame : { n with clients := n.clients.set j c', requests := n.requests ++ sent }.view i =
        n.view i := by
      have hnone : (sent.map (asked i)).sum = 0 := by
        rcases h.sent with rfl | ⟨m, rfl, -⟩
        · rfl
        · rw [List.map_singleton, List.sum_singleton, asked_of_ne hij]
      rw [← view_set_ne hij c' n]
      simp only [view, requestsOf, List.map_append, List.sum_append, hnone, add_zero]
    rw [hsame]

theorem view_await {j : Nat} {c c' : DatagramClient} (hc : n.clients[j]? = some c)
    (hphase : c.phase = .awaiting) {polls : List Poll} (h : DatagramClient.Awaited polls c c')
    (i : Nat) (hcurrent : (n.view i).Current Wanted) :
    Steps Wanted (n.view i) ({ n with clients := n.clients.set j c' }.view i) := by
  by_cases hij : j = i
  · subst hij
    have hview : { n with clients := n.clients.set j c' }.view j =
        { n.view j with
          status := c'.status
          replies := (n.responses.map (answered j)).sum + received c' } := by
      rw [view_of_client (getElem?_set c' hc), view_of_client hc]
      rfl
    have hreplies : (n.view j).replies = (n.responses.map (answered j)).sum + received c := by
      rw [view_of_client hc]
    have hstatus := status_awaiting hc hphase
    -- what the first datagram of the queue adds
    have htook : ∀ d : Datagram, c.queue = d :: c'.queue →
        (n.view j).replies = answer d.2 ::ₘ ((n.responses.map (answered j)).sum + received c') := by
      intro d hd
      rw [hreplies, received, hd, List.map_cons, List.sum_cons, ← received,
        ← Multiset.singleton_add]
      abel
    rw [hview]
    cases h with
    | response src m hqueue hseq hphase' =>
      have hrep := htook _ hqueue
      have hthis := (hcurrent.reply hrep).2.2.2 _ hstatus
      rw [hthis] at hrep
      rw [DatagramClient.status, hphase']
      exact .single (.accept _ _ _ hstatus hrep)
    | failed f hf hqueue hkernel hphase' =>
      rw [DatagramClient.status, hphase']
      rcases hqueue with hsame | htail
      · rw [received, hsame, ← received, ← hreplies]
        exact .single (.giveUp _)
      · rcases hcons : c.queue with _ | ⟨d, rest⟩
        · rw [hcons] at htail
          have hsame : received c' = received c := by rw [received, htail, received, hcons]; rfl
          rw [hsame, ← hreplies]
          exact .single (.giveUp _)
        · rw [hcons, List.tail_cons] at htail
          refine .head (.loseReply _ _ _ (htook d ?_)) (.single (.giveUp _))
          rw [hcons, htail]
    | unexpected src m hqueue hseq hphase' =>
      rw [DatagramClient.status, hphase']
      exact .head (.loseReply _ _ _ (htook _ hqueue)) (.single (.giveUp _))
  · rw [view_set_ne hij]

/-- A request only changes hands when a thread takes it. -/
theorem view_take_request {j : Nat} {t t' : DatagramThread} {rest : List Datagram}
    (ht : n.threads[j]? = some t) (hfree : t.request = none) {src : SockAddr} {m : Message}
    (hqueue : n.queue = (src, m.encode) :: rest) (hrequest : t'.request = some (m.seq, m.options))
    (hpeer : t'.protocol.socket.peer = some src) (i : Nat) :
    { n with threads := n.threads.set j t', queue := rest }.view i = n.view i := by
  have hthreads := sum_map_set (inHand i) t' ht
  have hmove : inHand i t' = asked i (src, m.encode) := by
    rw [inHand, hrequest, asked_encode, hpeer]
    simp only [Option.elim_some, Option.some.injEq]
  rw [inHand_of_free hfree, add_zero, hmove] at hthreads
  simp only [view, requestsOf, hthreads, hqueue, List.map_cons, List.sum_cons, State.mk.injEq,
    true_and, and_true]
  abel

theorem view_take {j : Nat} {t t' : DatagramThread} {rest : List Datagram} {polls : List Poll}
    (ht : n.threads[j]? = some t) (hfree : t.request = none)
    (h : DatagramThread.Taken polls n.queue rest t') (i : Nat) :
    Steps Wanted (n.view i) ({ n with threads := n.threads.set j t', queue := rest }.view i) := by
  cases h with
  | request src m hqueue hrequest hpeer =>
    rw [view_take_request ht hfree hqueue hrequest hpeer]
  | failed hqueue hkernel hrequest =>
    have hthreads := sum_map_set (inHand i) t' ht
    rw [inHand_of_free hfree, inHand_of_free hrequest, add_zero, add_zero] at hthreads
    have hview : { n with threads := n.threads.set j t', queue := rest }.view i =
        { n.view i with requests := (n.requests.map (asked i)).sum + (rest.map (asked i)).sum +
          (n.threads.map (inHand i)).sum } := by
      rw [← hthreads]
      rfl
    have hlost : ∃ lost, (n.queue.map (asked i)).sum = lost + (rest.map (asked i)).sum := by
      rcases hqueue with rfl | rfl
      · exact ⟨0, (zero_add _).symm⟩
      · rcases n.queue with _ | ⟨d, queue⟩
        · exact ⟨0, (zero_add _).symm⟩
        · exact ⟨asked i d, by rw [List.map_cons, List.sum_cons, List.tail_cons]⟩
    obtain ⟨lost, hlost⟩ := hlost
    rw [hview]
    refine Steps.lose (n.view i) lost 0 _ _ ?_ (zero_add _).symm
    show _ + _ + _ = _
    rw [hlost]
    abel

/-- What a thread had in hand leaves the requests, and what it sent joins the replies. -/
theorem view_answer_eq {j : Nat} {t t' : DatagramThread} (sent : List Datagram)
    (ht : n.threads[j]? = some t) (hfree : t'.request = none) (i : Nat) :
    ∃ rest, (n.view i).requests = inHand i t + rest ∧
      { n with threads := n.threads.set j t', responses := n.responses ++ sent }.view i =
        { n.view i with
          requests := rest
          replies := (sent.map (answered i)).sum + (n.view i).replies } := by
  have hthreads := sum_map_set (inHand i) t' ht
  rw [inHand_of_free hfree, add_zero] at hthreads
  refine ⟨(n.requests.map (asked i)).sum + (n.queue.map (asked i)).sum +
    ((n.threads.set j t').map (inHand i)).sum, ?_, ?_⟩
  · show _ + _ + (n.threads.map (inHand i)).sum = _
    rw [← hthreads]
    abel
  · simp only [view, requestsOf, List.map_append, List.sum_append, State.mk.injEq, true_and]
    abel

/-- What a thread has in hand for `i`, against what it sends to `i`. -/
theorem answered_of_answer {t t' : DatagramThread} {seq : UInt64} {options : UInt32}
    {sent : List Datagram} {sendtos : List Sendto} (hrequest : t.request = some (seq, options))
    (h : DatagramThread.Answered limit sendtos t seq options sent t') (i : Nat) :
    (sent.map (answered i)).sum = inHand i t ∧ options ≠ 0 ∨ sent = [] := by
  rcases h.letters with rfl | ⟨hopt, peer, m, hpeer, rfl, hm, rfl, hlen⟩
  · exact .inr rfl
  · refine .inl ⟨?_, hopt⟩
    rw [List.map_singleton, List.sum_singleton, answered, answer_encode, hlen, UInt32.ofNat_toNat,
      inHand, hrequest, hpeer, Option.elim_some]
    simp only [Option.some.injEq]

/-- All that a thread has in hand is one request. -/
theorem eq_of_mem_inHand {t : DatagramThread} {r r' : UInt64 × UInt32}
    (hrequest : t.request = some r) (hr' : r' ∈ inHand i t) : r' = r := by
  rw [inHand, hrequest, Option.elim_some] at hr'
  split_ifs at hr'
  · exact Multiset.mem_singleton.mp hr'
  · exact absurd hr' (Multiset.notMem_zero _)

theorem view_answer {j : Nat} {t t' : DatagramThread} {seq : UInt64} {options : UInt32}
    {sent : List Datagram} {sendtos : List Sendto} (ht : n.threads[j]? = some t)
    (hrequest : t.request = some (seq, options))
    (h : DatagramThread.Answered limit sendtos t seq options sent t') (i : Nat) :
    Steps Wanted (n.view i)
      ({ n with threads := n.threads.set j t', responses := n.responses ++ sent }.view i) := by
  obtain ⟨rest, hrequests, hview⟩ := view_answer_eq sent ht h.request i
  rw [hview]
  rcases answered_of_answer hrequest h i with ⟨hsame, hopt⟩ | rfl
  · rw [hsame]
    refine Steps.answer _ _ _ hrequests fun r hr => ?_
    rw [eq_of_mem_inHand hrequest hr]
    exact hopt
  · rw [List.map_nil, List.sum_nil, zero_add]
    exact Steps.lose (n.view i) (inHand i t) 0 _ _ hrequests (zero_add _).symm

theorem view_requestArrives {k : Nat} {d : Datagram} (hd : n.requests[k]? = some d) (i : Nat) :
    { n with requests := n.requests.eraseIdx k, queue := n.queue ++ [d] }.view i = n.view i := by
  have hsum := sum_map_eraseIdx (asked i) hd
  simp only [view, requestsOf, List.map_append, List.sum_append, List.map_singleton,
    List.sum_singleton, State.mk.injEq, true_and, and_true, ← hsum]
  abel

theorem view_responseArrives {k : Nat} {d : Datagram} {c : DatagramClient}
    (hfits : n.Fits limit) (hd : n.responses[k]? = some d) (hc : n.clients[d.1]? = some c)
    (i : Nat) :
    { n with
      responses := n.responses.eraseIdx k
      clients := n.clients.set d.1 (c.arrive (n.server, d.2)) }.view i = n.view i := by
  have hsum := sum_map_eraseIdx (answered i) hd
  by_cases hi : d.1 = i
  · subst hi
    have hqueue := (DatagramClient.arrive_spec (d := (n.server, d.2))
      (hfits.clients c (List.mem_of_getElem? hc)) (hfits.responses d (List.mem_of_getElem? hd))).2
    have hreceived : received (c.arrive (n.server, d.2)) = received c + {answer d.2} := by
      rw [received, hqueue, List.map_append, List.sum_append, List.map_singleton,
        List.sum_singleton, received]
    rw [answered, if_pos rfl] at hsum
    rw [view_of_client (getElem?_set _ hc), view_of_client hc, hreceived, ← hsum]
    simp only [requestsOf, State.mk.injEq, true_and]
    exact ⟨rfl, by abel⟩
  · rw [answered, if_neg hi, add_zero] at hsum
    simp only [view, requestsOf, List.getElem?_set_ne hi, hsum]

theorem step_view (hfits : n.Fits limit) (h : Moves limit n e n') (hsingle : e.Single) (i : Nat)
    (hcurrent : (n.view i).Current Wanted) : Steps Wanted (n.view i) (n'.view i) := by
  cases h with
  | ask j answers c c' sent hc h => exact view_ask hc h i
  | await j polls c c' hc hphase hseq h => exact view_await hc hphase h i hcurrent
  | take j polls t t' rest ht hfree h => exact view_take ht hfree h i
  | answer j answers t t' seq options sent ht hrequest h => exact view_answer ht hrequest h i
  | requestArrives k d hd => rw [view_requestArrives hd]
  | responseArrives k d c hd hc => rw [view_responseArrives hfits hd hc]
  | loseRequest k d hd =>
    have hsum := sum_map_eraseIdx (asked i) hd
    refine Steps.lose (n.view i) (asked i d) 0 _ _ ?_ (zero_add _).symm
    show _ + _ + _ = _ + (_ + _ + _)
    rw [← hsum]
    abel
  | loseResponse k d hd =>
    have hsum := sum_map_eraseIdx (answered i) hd
    refine Steps.lose (n.view i) 0 (answered i d) _ _ (zero_add _).symm ?_
    show _ + _ = _ + (_ + _)
    rw [← hsum]
    abel
  | duplicateRequest k d hd => exact hsingle.elim
  | duplicateResponse k d hd => exact hsingle.elim

/-! ## Runs -/

/-- Before the first round. No client has byte limits, and in all rounds its requests have at least
24 bytes, its responses none or at least 24, and all of them fit (`Requestor.Within`). -/
structure Started (limit : Nat) (n : Network) : Prop where
  clients : ∀ c ∈ n.clients, c.phase = .between ∧
    c.requestor.protocol.socket.input = .datagrams [] ∧
    c.requestor.protocol.Rested limit ∧ c.requestor.Within limit
  threads : ∀ t ∈ n.threads, t.ended = none ∧ t.request = none ∧ t.protocol.Rested limit
  requests : n.requests = []
  queue : n.queue = []
  responses : n.responses = []

/-- A client ends in its socket, or by a first datagram that it does not wait for. -/
theorem Moves.forall_faults {P : Fault → Prop} (h : Moves limit n e n')
    (hfaults : ∀ c ∈ n.clients, ∀ f, c.phase = .ended f → P f) (hsocket : ∀ f, f.OfSocket → P f)
    (hunexpected : ∀ (j : Nat) (c : DatagramClient), n.clients[j]? = some c → c.phase = .awaiting →
      ∀ src m rest, c.queue = (src, Message.encode m) :: rest → m.seq ≠ c.requestor.seq →
      P (.protocolException "Unexpected sequence number")) :
    ∀ c ∈ n'.clients, ∀ f, c.phase = .ended f → P f := by
  cases h with
  | ask j answers c c' sent hc h =>
    exact forall_mem_set hfaults fun f hf => hsocket f (h.fault f hf)
  | await j polls c c' hc hphase hseq h =>
    refine forall_mem_set hfaults fun f hf => ?_
    cases h with
    | response src m hqueue hseq' hphase' => rw [hphase'] at hf; cases hf
    | failed f' hf' hqueue hkernel hphase' =>
      rw [hphase'] at hf
      cases hf
      exact hsocket _ hf'
    | unexpected src m hqueue hseq' hphase' =>
      rw [hphase'] at hf
      cases hf
      exact hunexpected j c hc hphase src m _ hqueue hseq'
  | responseArrives k d c hd hc =>
    exact forall_mem_set hfaults (hfaults c (List.mem_of_getElem? hc))
  | take j polls t t' rest ht hfree h => exact hfaults
  | answer j answers t t' seq options sent ht hrequest h => exact hfaults
  | requestArrives k d hd => exact hfaults
  | loseRequest k d hd => exact hfaults
  | loseResponse k d hd => exact hfaults
  | duplicateRequest k d hd => exact hfaults
  | duplicateResponse k d hd => exact hfaults

/-- What all networks that bring nothing twice have in common. -/
structure Live (limit : Nat) (n : Network) : Prop where
  fits : n.Fits limit
  current : ∀ i, (n.view i).Current Wanted
  faults : ∀ c ∈ n.clients, ∀ f, c.phase = .ended f → f.OfSocket

theorem Started.fits (h : n.Started limit) : n.Fits limit := by
  refine ⟨fun c hc => ?_, fun t ht => ?_, by simp [h.requests], by simp [h.queue],
    by simp [h.responses]⟩
  · obtain ⟨-, hin, hrested, hwithin⟩ := h.clients c hc
    exact (DatagramClient.fits_of_input hin (by simp) fun _ => ⟨hrested, hwithin⟩).1
  · obtain ⟨hlive, hfree, hrested⟩ := h.threads t ht
    exact ⟨fun _ => hrested, by simp [hfree], by simp [hlive]⟩

theorem Started.live (h : n.Started limit) : n.Live limit := by
  refine ⟨h.fits, fun i => .of_due ?_, fun c hc f hf => ?_⟩
  · have hthreads : (n.threads.map (inHand i)).sum = 0 := by
      refine List.sum_eq_zero fun r hr => ?_
      obtain ⟨t, ht, rfl⟩ := List.mem_map.mp hr
      exact inHand_of_free (h.threads t ht).2.1
    have hrequests : n.requestsOf i = 0 := by
      rw [requestsOf, hthreads, h.requests, h.queue]
      rfl
    have hreplies : (n.view i).replies = 0 := by
      rw [view, h.responses]
      rcases hc : n.clients[i]? with _ | c
      · rfl
      · have hin := (h.clients c (List.mem_of_getElem? hc)).2.1
        have hqueue : c.queue = [] := Socket.queue_of_input hin
        show 0 + received c = 0
        rw [received, hqueue]
        rfl
    rw [State.due, hreplies, add_zero]
    show (n.requestsOf i).filter Wanted = 0
    rw [hrequests, Multiset.filter_zero]
  · rw [(h.clients c hc).1] at hf
    cases hf

/-- The first datagram of a client that waits is what it waits for. -/
theorem Live.first (h : n.Live limit) {c : DatagramClient} (hc : n.clients[i]? = some c)
    (hphase : c.phase = .awaiting) {src : SockAddr} {m : Message} {rest : List Datagram}
    (hqueue : c.queue = (src, m.encode) :: rest) : m.seq = c.requestor.seq := by
  have hmem : answer m.encode ∈ (n.view i).replies := by
    rw [view_of_client hc]
    refine Multiset.mem_add.mpr (.inr ?_)
    rw [received, hqueue, List.map_cons, List.sum_cons]
    exact Multiset.mem_add.mpr (.inl (Multiset.mem_singleton_self _))
  have hthis := (h.current i).same _ (Multiset.mem_add.mpr (.inr hmem)) _
    (status_awaiting hc hphase)
  rw [answer_encode] at hthis
  exact congrArg Prod.fst hthis

theorem Live.next (h : n.Live limit) (hstep : n.step e = some n') (hsingle : e.Single) :
    n'.Live limit ∧ ∀ i, Steps Wanted (n.view i) (n'.view i) := by
  obtain ⟨hfits, hmoves⟩ := step_spec h.fits hstep
  have hview := fun i => step_view h.fits hmoves hsingle i (h.current i)
  refine ⟨⟨hfits, fun i => (hview i).current (h.current i), ?_⟩, hview⟩
  refine hmoves.forall_faults h.faults (fun _ hf => hf) ?_
  exact fun j c hc hphase src m rest hqueue hne => absurd (h.first hc hphase hqueue) hne

theorem Live.run {events : List Event} (h : n.Live limit) (hsingle : ∀ e ∈ events, e.Single)
    (hrun : events.foldlM step n = some n') :
    n'.Live limit ∧ ∀ i, Steps Wanted (n.view i) (n'.view i) :=
  foldlM_invariant_of (I := fun n' => n'.Live limit ∧ ∀ i, Steps Wanted (n.view i) (n'.view i))
    (fun _ _ _ hstep hsingle hI => ((hI.1.next hstep hsingle).imp id
      fun hview i => (hI.2 i).trans (hview i))) events hsingle hrun ⟨h, fun _ => .refl⟩

/-- What all networks have in common. -/
structure Copied (limit : Nat) (n : Network) : Prop where
  fits : n.Fits limit
  faults : ∀ c ∈ n.clients, ∀ f, c.phase = .ended f →
    f.OfSocket ∨ f = .protocolException "Unexpected sequence number"

theorem Started.copied (h : n.Started limit) : n.Copied limit :=
  ⟨h.fits, fun c hc f hf => .inl (h.live.faults c hc f hf)⟩

theorem Copied.next (h : n.Copied limit) (hstep : n.step e = some n') : n'.Copied limit := by
  obtain ⟨hfits, hmoves⟩ := step_spec h.fits hstep
  exact ⟨hfits, hmoves.forall_faults h.faults (fun _ hf => .inl hf)
    fun _ _ _ _ _ _ _ _ _ => .inr rfl⟩

/-! ## Getting an answer -/

/-- A kernel that hands over a datagram at once. -/
def ready : List Poll :=
  [.ready ⟨false, some (.data 0), false⟩]

theorem handsOver_ready : Socket.HandsOver ready :=
  ⟨0, [], rfl⟩

theorem takesOver_none : Socket.TakesOver ([none].map datagramSendto) :=
  ⟨_, [], rfl⟩

/-- A thread of the server is there to answer. -/
def Alive (n : Network) : Prop :=
  ∃ t ∈ n.threads, t.ended = none

/-- What the network and the server still have to do. -/
def work (n : Network) : ℕ :=
  4 * n.requests.length + 3 * n.queue.length +
    2 * (n.threads.map fun t => t.request.toList.length).sum + n.responses.length

/-- The network got on, and the client `i` still waits for the same. -/
structure Nearer (i : Nat) (n n' : Network) : Prop where
  client : ∃ c, n'.clients[i]? = some c ∧ c.phase = .awaiting
  due : (n'.view i).due Wanted = (n.view i).due Wanted
  alive : n'.Alive
  work : n'.work < n.work

theorem alive_set {j : Nat} {t t' : DatagramThread} (ht : n.threads[j]? = some t)
    (hlive : t'.ended = none) : ∃ t'' ∈ n.threads.set j t', t''.ended = none := by
  obtain ⟨hj, -⟩ := List.getElem?_eq_some_iff.mp ht
  exact ⟨t', List.mem_of_getElem? (List.getElem?_set_self hj), hlive⟩

theorem nearer_requestArrives {c : DatagramClient} (hc : n.clients[i]? = some c)
    (hphase : c.phase = .awaiting) (halive : n.Alive) {d : Datagram} {rest : List Datagram}
    (hd : n.requests = d :: rest) :
    ∃ n', n.step (.requestArrives 0) = some n' ∧ Nearer i n n' := by
  have hd0 : n.requests[0]? = some d := by rw [hd]; rfl
  refine ⟨{ n with requests := n.requests.eraseIdx 0, queue := n.queue ++ [d] },
    by simp only [step, hd0]; rfl, ⟨c, hc, hphase⟩, ?_, halive, ?_⟩
  · rw [view_requestArrives hd0]
  · simp only [work, hd, List.eraseIdx_cons_zero, List.length_append, List.length_cons,
      List.length_nil]
    omega

theorem nearer_responseArrives (h : n.Live limit) {c : DatagramClient}
    (hc : n.clients[i]? = some c) (hphase : c.phase = .awaiting) (halive : n.Alive) {k : Nat}
    {d : Datagram} (hd : n.responses[k]? = some d) (hi : d.1 = i) :
    ∃ n', n.step (.responseArrives k) = some n' ∧ Nearer i n n' := by
  subst hi
  obtain ⟨hk, -⟩ := List.getElem?_eq_some_iff.mp hd
  refine ⟨{ n with
      responses := n.responses.eraseIdx k
      clients := n.clients.set d.1 (c.arrive (n.server, d.2)) }, ?_,
    ⟨_, getElem?_set _ hc, hphase⟩, ?_, halive, ?_⟩
  · simp only [step, hd, hc, Option.bind_eq_bind, Option.bind_some]
  · rw [view_responseArrives h.fits hd hc]
  · simp only [work, List.length_eraseIdx, if_pos hk]
    omega

/-- A thread that has nothing in hand takes the next request. -/
theorem nearer_take (h : n.Live limit) {c : DatagramClient} (hc : n.clients[i]? = some c)
    (hphase : c.phase = .awaiting) {j : Nat} {t : DatagramThread} (ht : n.threads[j]? = some t)
    (hlive : t.ended = none) (hfree : t.request = none) (hqueue : n.queue ≠ []) :
    ∃ n', n.step (.take j ready) = some n' ∧ Nearer i n n' := by
  obtain ⟨hready, hspec⟩ := DatagramThread.take_spec (h.fits.threads t (List.mem_of_getElem? ht))
    hlive hfree h.fits.queue ready
  obtain ⟨rest, t', htake⟩ := hready hqueue handsOver_ready
  obtain ⟨hfits, htaken⟩ := hspec rest t' htake
  refine ⟨{ n with threads := n.threads.set j t', queue := rest }, ?_, ?_⟩
  · simp only [step, ht, htake, Option.bind_eq_bind, Option.bind_some]
  cases htaken with
  | failed hqueue' hkernel hrequest => exact absurd handsOver_ready (hkernel hqueue)
  | request src m hqueue' hrequest hpeer =>
    refine ⟨⟨c, hc, hphase⟩, ?_, alive_set ht (hfits.request _ hrequest).1, ?_⟩
    · rw [view_take_request ht hfree hqueue' hrequest hpeer]
    · have hsum := sum_map_set (fun t => t.request.toList.length) t' ht
      simp only [hfree, hrequest, Option.toList_none, Option.toList_some, List.length_nil,
        List.length_singleton] at hsum
      simp only [work, hqueue', List.length_cons]
      omega

/-- A thread answers the request that it has in hand. -/
theorem nearer_answer (h : n.Live limit) {c : DatagramClient} (hc : n.clients[i]? = some c)
    (hphase : c.phase = .awaiting) {j : Nat} {t : DatagramThread} (ht : n.threads[j]? = some t)
    {seq : UInt64} {options : UInt32} (hrequest : t.request = some (seq, options)) :
    ∃ n', n.step (.answer j [none]) = some n' ∧ Nearer i n n' := by
  obtain ⟨hready, hspec⟩ := DatagramThread.answer_spec
    (h.fits.threads t (List.mem_of_getElem? ht)) hrequest [none]
  obtain ⟨sent, t', hanswer⟩ := hready takesOver_none
  obtain ⟨hfits, hanswered⟩ := hspec sent t' hanswer
  obtain ⟨hlive, hcomplete⟩ := hanswered.complete takesOver_none
  refine ⟨{ n with threads := n.threads.set j t', responses := n.responses ++ sent }, ?_,
    ⟨c, hc, hphase⟩, ?_, alive_set ht hlive, ?_⟩
  · simp only [step, ht, hanswer, Option.bind_eq_bind, Option.bind_some]
  · -- what was in hand for the client is on its way to it, if it wants it
    have hsame : (sent.map (answered i)).sum = (inHand i t).filter Wanted := by
      rcases answered_of_answer hrequest hanswered i with ⟨hsame, hopt⟩ | rfl
      · rw [hsame, Multiset.filter_eq_self.mpr]
        intro r hr
        rw [eq_of_mem_inHand hrequest hr]
        exact hopt
      · refine (Multiset.filter_eq_nil.mpr fun r hr hopt => ?_).symm
        have hpeer : t.protocol.socket.peer = some i := by
          by_contra hne
          rw [inHand, hrequest, Option.elim_some, if_neg hne] at hr
          exact Multiset.notMem_zero _ hr
        rw [eq_of_mem_inHand hrequest hr] at hopt
        exact hcomplete hopt i hpeer rfl
    obtain ⟨rest, hrequests, hview⟩ := view_answer_eq sent ht hanswered.request i
    rw [hview, hsame, State.due, State.due, hrequests, Multiset.filter_add]
    show rest.filter Wanted + ((inHand i t).filter Wanted + (n.view i).replies) = _
    rw [add_assoc, add_left_comm]
  · have hsum := sum_map_set (fun t => t.request.toList.length) t' ht
    have hlen : sent.length ≤ 1 := by
      rcases hanswered.letters with rfl | ⟨-, peer, m, -, rfl, -⟩
      · exact Nat.zero_le 1
      · exact le_rfl
    simp only [hrequest, hanswered.request, Option.toList_none, Option.toList_some,
      List.length_nil, List.length_singleton] at hsum
    simp only [work, List.length_append]
    omega

/-- A client whose response is there takes it. -/
theorem step_await (h : n.Live limit) {c : DatagramClient} (hc : n.clients[i]? = some c)
    (hphase : c.phase = .awaiting) (hqueue : c.queue ≠ []) :
    ∃ n', n.step (.await i ready) = some n' ∧
      ∃ c', n'.clients[i]? = some c' ∧ c'.phase = .between := by
  obtain ⟨hready, hspec⟩ :=
    DatagramClient.await_spec (h.fits.clients c (List.mem_of_getElem? hc)) hphase ready
  obtain ⟨c', hc'⟩ := hready hqueue handsOver_ready
  refine ⟨{ n with clients := n.clients.set i c' }, ?_, c', getElem?_set c' hc, ?_⟩
  · simp only [step, hc, hc', Option.bind_eq_bind, Option.bind_some]
  · cases (hspec c' hc').2.2 with
    | response src m hqueue hseq hphase' => exact hphase'
    | failed f hf hqueue' hkernel hphase' => exact absurd handsOver_ready (hkernel hqueue)
    | unexpected src m hqueue hseq hphase' => exact absurd (h.first hc hphase hqueue) hseq

/-- As long as something is under way for a client that waits, it can get it, or come nearer to
it. -/
theorem exists_nearer (h : n.Live limit) {c : DatagramClient} (hc : n.clients[i]? = some c)
    (hphase : c.phase = .awaiting) (hdue : (n.view i).due Wanted ≠ 0) (halive : n.Alive) :
    ∃ e n', e.Single ∧ n.step e = some n' ∧
      ((∃ c', n'.clients[i]? = some c' ∧ c'.phase = .between) ∨ Nearer i n n') := by
  by_cases hqueue : c.queue ≠ []
  · obtain ⟨n', hstep, hdone⟩ := step_await h hc hphase hqueue
    exact ⟨.await i ready, n', trivial, hstep, .inl hdone⟩
  by_cases hresponse : ∃ d ∈ n.responses, d.1 = i
  · obtain ⟨d, hd, hi⟩ := hresponse
    obtain ⟨k, hk⟩ := List.getElem?_of_mem hd
    obtain ⟨n', hstep, hnearer⟩ := nearer_responseArrives h hc hphase halive hk hi
    exact ⟨.responseArrives k, n', trivial, hstep, .inr hnearer⟩
  by_cases hhand : ∃ t ∈ n.threads, t.request ≠ none
  · obtain ⟨t, ht, hrequest⟩ := hhand
    obtain ⟨j, hj⟩ := List.getElem?_of_mem ht
    obtain ⟨⟨seq, options⟩, hrequest⟩ := Option.ne_none_iff_exists'.mp hrequest
    obtain ⟨n', hstep, hnearer⟩ := nearer_answer h hc hphase hj hrequest
    exact ⟨.answer j [none], n', trivial, hstep, .inr hnearer⟩
  have hfree : ∀ t ∈ n.threads, t.request = none := fun t ht => by
    by_contra hrequest
    exact hhand ⟨t, ht, hrequest⟩
  rcases hnq : n.queue with _ | ⟨d, rest⟩
  · rcases hnr : n.requests with _ | ⟨d, rest⟩
    · -- nothing is left that could be under way
      refine absurd ?_ hdue
      have hthreads : (n.threads.map (inHand i)).sum = 0 := by
        refine List.sum_eq_zero fun r hr => ?_
        obtain ⟨t, ht, rfl⟩ := List.mem_map.mp hr
        exact inHand_of_free (hfree t ht)
      have hresponses : (n.responses.map (answered i)).sum = 0 := by
        refine List.sum_eq_zero fun r hr => ?_
        obtain ⟨d, hd, rfl⟩ := List.mem_map.mp hr
        exact if_neg fun hi => hresponse ⟨d, hd, hi⟩
      rw [view_of_client hc, State.due, requestsOf, hthreads, hresponses, hnq, hnr, received,
        not_not.mp hqueue]
      rfl
    · obtain ⟨n', hstep, hnearer⟩ := nearer_requestArrives hc hphase halive hnr
      exact ⟨.requestArrives 0, n', trivial, hstep, .inr hnearer⟩
  · obtain ⟨t, ht, hlive⟩ := halive
    obtain ⟨j, hj⟩ := List.getElem?_of_mem ht
    obtain ⟨n', hstep, hnearer⟩ :=
      nearer_take h hc hphase hj hlive (hfree t ht) (by rw [hnq]; simp)
    exact ⟨.take j ready, n', trivial, hstep, .inr hnearer⟩

theorem exists_run_between (h : n.Live limit)
    (hclient : ∃ c, n.clients[i]? = some c ∧ c.phase = .awaiting)
    (hdue : (n.view i).due Wanted ≠ 0) (halive : n.Alive) :
    ∃ (events : List Event) (n' : Network), (∀ e ∈ events, e.Single) ∧
      events.foldlM step n = some n' ∧
      ∃ c', n'.clients[i]? = some c' ∧ c'.phase = .between := by
  refine exists_foldlM_of_lt (I := fun w n => n.Live limit ∧
    (∃ c, n.clients[i]? = some c ∧ c.phase = .awaiting) ∧ (n.view i).due Wanted ≠ 0 ∧ n.Alive ∧
    n.work = w) ?_ _ ⟨h, hclient, hdue, halive, rfl⟩
  rintro w n ⟨h, ⟨c, hc, hphase⟩, hdue, halive, rfl⟩ -
  obtain ⟨e, n', hsingle, hstep, hdone | hnearer⟩ := exists_nearer h hc hphase hdue halive
  · exact ⟨e, n', hsingle, hstep, .inl hdone⟩
  · exact ⟨e, n', hsingle, hstep, .inr ⟨_, hnearer.work, (h.next hstep hsingle).1, hnearer.client,
      hnearer.due.trans_ne hdue, hnearer.alive, rfl⟩⟩

/-! ## A network -/

/-- A client and a thread, with messages of 40 bytes. -/
def smallNetwork : Network where
  server := 1000
  clients := [⟨.init ⟨.datagrams [], none, [], [], [], 0, []⟩ (List.replicate 64 0)
    (.ofFixed 40) 0 0 fun _ => 0, .between⟩]
  threads := [⟨.init ⟨.datagrams [], none, [], [], [], 0, []⟩ (List.replicate 64 0), none, none⟩]
  queue := []
  requests := []
  responses := []

theorem started_smallNetwork : smallNetwork.Started 64 := by
  have hrested : (init ⟨.datagrams [], none, [], [], [], 0, []⟩ (List.replicate 64 0)).Rested 64 :=
    rested_init (by simp) (by simp) (by simp) rfl
  have hfixed : ∀ Ok : UInt32 → Prop, Ok 40 → (ComSettings.ofFixed 40).Stays 40 40 Ok := by
    refine fun Ok hok => ⟨UInt32.le_refl _, ?_⟩
    rw [if_neg (by decide), if_neg (by decide)]
    exact hok
  refine ⟨fun c hc => ?_, fun t ht => ?_, rfl, rfl, rfl⟩
  · obtain rfl := List.mem_singleton.mp hc
    exact ⟨rfl, rfl, hrested, Requestor.within_init (by decide) (hfixed _ (by decide))
      (by decide) (hfixed _ (by decide)) _ _ _⟩
  · obtain rfl := List.mem_singleton.mp ht
    exact ⟨rfl, rfl, hrested⟩

/-- One round. -/
def smallRun : List Event :=
  [.ask 0 [none], .requestArrives 0, .take 0 ready, .answer 0 [none], .responseArrives 0,
    .await 0 ready]

theorem single_smallRun : ∀ e ∈ smallRun, e.Single := by
  simp [smallRun, Event.Single]

theorem exists_smallRun (k : Nat) (phase : ClientPhase)
    (h : ((smallRun.take k).foldlM step smallNetwork).map
      (fun n => (n.clients[0]?.map (·.phase), n.threads.map (·.ended))) =
        some (some phase, [none])) :
    ∃ n' c, (smallRun.take k).foldlM step smallNetwork = some n' ∧ n'.clients[0]? = some c ∧
      c.phase = phase ∧ n'.Alive := by
  obtain ⟨n', hrun, hn'⟩ := Option.map_eq_some_iff.mp h
  obtain ⟨hclient, hthreads⟩ := Prod.ext_iff.mp hn'
  obtain ⟨c, hc, hphase⟩ := Option.map_eq_some_iff.mp hclient
  have hmem : none ∈ n'.threads.map (·.ended) := by
    rw [show n'.threads.map (·.ended) = [none] from hthreads]
    exact List.mem_singleton_self none
  obtain ⟨t, ht, hlive⟩ := List.mem_map.mp hmem
  exact ⟨n', c, hrun, hc, hphase, t, ht, hlive⟩

theorem single_take (k : Nat) : ∀ e ∈ smallRun.take k, e.Single := fun e he =>
  single_smallRun e (List.mem_of_mem_take he)

/-! ## Whole runs -/

/-- Nobody fails but in the socket. -/
theorem run_ofSocket (h : n.Started limit) {events : List Event}
    (hsingle : ∀ e ∈ events, e.Single) (hrun : events.foldlM step n = some n') :
    (∀ c ∈ n'.clients, ∀ f, c.phase = .ended f → f.OfSocket) ∧
      ∀ t ∈ n'.threads, ∀ f, t.ended = some f → f.OfSocket := by
  obtain ⟨hlive, -⟩ := h.live.run hsingle hrun
  exact ⟨hlive.faults, fun t ht => (hlive.fits.threads t ht).fault⟩

theorem run_ofSocket_small : ∃ n', (smallRun.take 6).foldlM step smallNetwork = some n' ∧
    (∀ c ∈ n'.clients, ∀ f, c.phase = .ended f → f.OfSocket) ∧
    ∀ t ∈ n'.threads, ∀ f, t.ended = some f → f.OfSocket := by
  obtain ⟨n', -, hrun, -⟩ := exists_smallRun 6 .between (by decide +kernel)
  exact ⟨n', hrun, run_ofSocket started_smallNetwork (single_take 6) hrun⟩

/-- With copies in the network too, a client may only meet a response twice, and a thread nothing
that is not from a client. -/
theorem run_duplicates (h : n.Started limit) {events : List Event}
    (hrun : events.foldlM step n = some n') :
    (∀ c ∈ n'.clients, ∀ f, c.phase = .ended f →
        f.OfSocket ∨ f = .protocolException "Unexpected sequence number") ∧
      ∀ t ∈ n'.threads, ∀ f, t.ended = some f → f.OfSocket := by
  obtain ⟨hfits, hfaults⟩ := foldlM_invariant (I := Copied limit)
    (fun _ _ _ hstep hI => hI.next hstep) events hrun h.copied
  exact ⟨hfaults, fun t ht => (hfits.threads t ht).fault⟩

/-- A client gets a response twice. -/
def copiedRun : List Event :=
  smallRun.take 4 ++ [.duplicateResponse 0, .responseArrives 0, .responseArrives 0,
    .await 0 ready, .ask 0 [none], .await 0 ready]

theorem run_duplicates_copied : ∃ n', copiedRun.foldlM step smallNetwork = some n' ∧
    (∀ c ∈ n'.clients, ∀ f, c.phase = .ended f →
      f.OfSocket ∨ f = .protocolException "Unexpected sequence number") ∧
    ∀ t ∈ n'.threads, ∀ f, t.ended = some f → f.OfSocket := by
  have hsome : (copiedRun.foldlM step smallNetwork).isSome = true := by decide +kernel
  obtain ⟨n', hrun⟩ := Option.isSome_iff_exists.mp hsome
  exact ⟨n', hrun, run_duplicates started_smallNetwork hrun⟩

/-- At most one thing is due to a client : what it asked for last, and as much of it. -/
theorem run_openQuestion (h : n.Started limit) {events : List Event}
    (hsingle : ∀ e ∈ events, e.Single) (hrun : events.foldlM step n = some n')
    {c : DatagramClient} (hc : n'.clients[i]? = some c) :
    ((n'.view i).due Wanted).card ≤ 1 ∧
      (c.phase = .between → (n'.view i).due Wanted = 0) ∧
      (c.phase = .awaiting → ∀ r ∈ (n'.view i).due Wanted,
        r = (c.requestor.seq, c.requestor.currRespSize - 24)) := by
  obtain ⟨hlive, -⟩ := h.live.run hsingle hrun
  obtain ⟨hone, hidle, hsame⟩ := hlive.current i
  refine ⟨hone, fun hphase => ?_, fun hphase r hr => ?_⟩
  · exact hidle (status_between hc hphase)
  · exact hsame r hr _ (status_awaiting hc hphase)

theorem run_openQuestion_small : ∃ (n' : Network) (c : DatagramClient),
    (smallRun.take 3).foldlM step smallNetwork = some n' ∧ n'.clients[0]? = some c ∧
    ((n'.view 0).due Wanted).card ≤ 1 ∧
    (c.phase = .between → (n'.view 0).due Wanted = 0) ∧
    (c.phase = .awaiting → ∀ r ∈ (n'.view 0).due Wanted,
      r = (c.requestor.seq, c.requestor.currRespSize - 24)) := by
  obtain ⟨n', c, hrun, hc, -⟩ := exists_smallRun 3 .awaiting (by decide +kernel)
  exact ⟨n', c, hrun, hc, run_openQuestion started_smallNetwork (single_take 3) hrun hc⟩

/-- A client that waits for what is not due waits for good, or its socket fails. -/
theorem Live.forsaken (h : n.Live limit) {c : DatagramClient} (hc : n.clients[i]? = some c)
    (hphase : c.phase = .awaiting) (hdue : (n.view i).due Wanted = 0) {events : List Event}
    (hsingle : ∀ e ∈ events, e.Single) (hrun : events.foldlM step n = some n')
    {c' : DatagramClient} (hc' : n'.clients[i]? = some c') :
    c'.phase = .awaiting ∨ ∃ f, c'.phase = .ended f ∧ f.OfSocket := by
  obtain ⟨hlive, hsteps⟩ := h.run hsingle hrun
  have hsilent : (n.view i).Silent Wanted := by
    refine ⟨?_, hdue⟩
    rw [status_awaiting hc hphase]
    exact nofun
  have hbusy := ((hsteps i).silent hsilent).1.busy
  cases hphase' : c'.phase with
  | between => exact absurd (status_between hc' hphase') hbusy
  | awaiting => exact .inl rfl
  | ended f => exact .inr ⟨f, rfl, hlive.faults c' (List.mem_of_getElem? hc') f hphase'⟩

/-- A client that waits can still get its response exactly as long as something is due to it, and
else it waits for good, or its socket fails. -/
theorem run_answered_iff (h : n.Started limit) {events : List Event}
    (hsingle : ∀ e ∈ events, e.Single) (hrun : events.foldlM step n = some n')
    (hawaits : ∃ c, n'.clients[i]? = some c ∧ c.phase = .awaiting) (halive : n'.Alive) :
    ((∃ (more : List Event) (n'' : Network), (∀ e ∈ more, e.Single) ∧
      more.foldlM step n' = some n'' ∧ ∃ c, n''.clients[i]? = some c ∧ c.phase = .between) ↔
      (n'.view i).due Wanted ≠ 0) ∧
    ((n'.view i).due Wanted = 0 → ∀ (more : List Event) (n'' : Network),
      (∀ e ∈ more, e.Single) → more.foldlM step n' = some n'' →
      ∀ c, n''.clients[i]? = some c →
        c.phase = .awaiting ∨ ∃ f, c.phase = .ended f ∧ f.OfSocket) := by
  obtain ⟨hlive, -⟩ := h.live.run hsingle hrun
  have hforsaken : (n'.view i).due Wanted = 0 → ∀ (more : List Event) (n'' : Network),
      (∀ e ∈ more, e.Single) → more.foldlM step n' = some n'' →
      ∀ c, n''.clients[i]? = some c →
        c.phase = .awaiting ∨ ∃ f, c.phase = .ended f ∧ f.OfSocket := by
    intro hdue more n'' hmore hrun' c' hc'
    obtain ⟨c, hc, hphase⟩ := hawaits
    exact hlive.forsaken hc hphase hdue hmore hrun' hc'
  refine ⟨⟨?_, fun hdue => exists_run_between hlive hawaits hdue halive⟩, hforsaken⟩
  rintro ⟨more, n'', hmore, hrun', c', hc', hphase'⟩ hdue
  rcases hforsaken hdue more n'' hmore hrun' c' hc' with hawaiting | ⟨f, hended, -⟩
  · rw [hphase'] at hawaiting
    cases hawaiting
  · rw [hphase'] at hended
    cases hended

theorem run_answered_small : ∃ n', (smallRun.take 2).foldlM step smallNetwork = some n' ∧
    ((∃ (more : List Event) (n'' : Network), (∀ e ∈ more, e.Single) ∧
      more.foldlM step n' = some n'' ∧ ∃ c, n''.clients[0]? = some c ∧ c.phase = .between) ↔
      (n'.view 0).due Wanted ≠ 0) ∧
    ((n'.view 0).due Wanted = 0 → ∀ (more : List Event) (n'' : Network),
      (∀ e ∈ more, e.Single) → more.foldlM step n' = some n'' →
      ∀ c, n''.clients[0]? = some c →
        c.phase = .awaiting ∨ ∃ f, c.phase = .ended f ∧ f.OfSocket) := by
  obtain ⟨n', c, hrun, hc, hphase, halive⟩ := exists_smallRun 2 .awaiting (by decide +kernel)
  exact ⟨n', hrun, run_answered_iff started_smallNetwork (single_take 2) hrun ⟨c, hc, hphase⟩
    halive⟩

end Network

end NetBabbler
