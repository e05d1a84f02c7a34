import NetBabbler.Connection
import NetBabbler.Handles
import NetBabbler.Socket

/-!
# Connecting

`cSocket::connect` over the addresses that `getaddrinfo` found. An `Attempt` is an address
with what the system calls on it return. The socket of an attempt is an object of the
`Process`, whose handle closes the descriptor when it goes out of scope.

`triesAll_iff` : the first address that takes the connection gets it and the descriptors of
the others are closed, where `socket` fails on no address before it.
-/

namespace NetBabbler

namespace Process

variable {p : Process} {fd : Int}

/-- No count is left on a descriptor that is not open. -/
def Tidy (p : Process) : Prop :=
  ∀ fd, 0 ≤ fd → ¬p.IsOpen fd → p.fdRefs fd = 0

theorem Counted.tidy (h : Counted p) : p.Tidy := by
  intro fd hfd hopen
  have hclosed := h.closed fd hfd
  have hrefs := h.refs fd hfd
  rw [IsOpen, Nat.not_lt] at hopen
  split_ifs at hclosed with hlive
  · omega
  · rw [Nat.eq_zero_of_not_pos hlive] at hrefs
    exact UInt32.toNat_inj.mp hrefs

/-! ## The socket of an attempt -/

/-- With the socket of an attempt on `fd`. -/
def opening (p : Process) (fd : Int) : Process :=
  { p with
    handles := p.handles ++ [some fd, none]
    fdRefs := Function.update p.fdRefs fd 1
    opened := p.opened ++ [fd] }

/-- With the socket of an attempt moved to the result. -/
def returning (p : Process) (fd : Int) : Process :=
  { p.opening fd with handles := p.handles ++ [none, none, some fd] }

/-- Behind an attempt whose socket is gone, with what it closed. -/
def gone (p : Process) (fds : List Int) : Process :=
  { p with
    handles := p.handles ++ [none, none]
    opened := p.opened ++ fds
    closed := p.closed ++ fds }

theorem socketOps_error (p : Process) :
    (socketOps p.handles.length (-1)).foldlM step p = some (p.gone []) := by
  simp [socketOps, step, construct, handle, moveAssign, destroy, List.set_append, gone]

theorem socketOps_ok (hfd : 0 ≤ fd) (hrefs : p.Tidy) :
    (socketOps p.handles.length fd).foldlM step p =
      if p.IsOpen fd then none else some (p.opening fd) := by
  have hneg : ¬fd < 0 := by omega
  by_cases hopen : p.IsOpen fd
  · have hcount : p.closed.count fd < p.opened.count fd := hopen
    rw [if_pos hopen]
    simp [socketOps, step, construct, IsOpen, hneg, hcount]
  · have hcount : ¬p.closed.count fd < p.opened.count fd := hopen
    have hzero := hrefs fd hfd hopen
    rw [if_neg hopen]
    simp [socketOps, step, construct, IsOpen, handle, moveAssign, destroy, opening, hneg, hcount,
      hfd, hzero]

theorem opening_destroy (hfd : 0 ≤ fd) (hzero : p.fdRefs fd = 0) :
    (p.opening fd).step (.destroy p.handles.length) = some (p.gone [fd]) := by
  have hrefs : Function.update p.fdRefs fd 0 = p.fdRefs := by
    rw [← hzero, Function.update_eq_self]
  simp [step, handle, destroy, opening, gone, hfd, hrefs]

theorem opening_return (p : Process) (fd : Int) :
    [.moveConstruct p.handles.length, .destroy p.handles.length].foldlM step (p.opening fd) =
      some (p.returning fd) := by
  simp [step, handle, moveConstruct, destroy, opening, returning]

theorem handle_returning (p : Process) (fd : Int) :
    (p.returning fd).handle (p.handles.length + 2) = some fd := by
  simp [handle, returning]

theorem isOpen_gone (p : Process) (fds : List Int) (fd : Int) :
    (p.gone fds).IsOpen fd ↔ p.IsOpen fd := by
  simp [IsOpen, gone]

theorem Tidy.gone (h : p.Tidy) (fds : List Int) : (p.gone fds).Tidy := by
  intro fd hfd hopen
  rw [isOpen_gone] at hopen
  exact h fd hfd hopen

end Process

/-! ## `cSocket::connect` -/

/-- `cSocket::info`. -/
structure Info where
  family : Nat
  socktype : Nat
  protocol : Nat
  addr : SockAddr

/-- The socket behind a descriptor. -/
structure Endpoint where
  kind : Properties
  /-- The family and the port it is bound to. -/
  name : Option (Nat × UInt16) := none
  peer : Option SockAddr := none

/-- The socket that `socket` makes for an address. -/
def Info.endpoint (info : Info) : Endpoint where
  kind := ⟨info.family, info.socktype, info.protocol⟩

/-- An address and what the system calls on it return. -/
structure Attempt where
  info : Info
  /-- A descriptor, or `errno`. -/
  socket : Except Nat Nat
  /-- `errno`, if it fails. -/
  bind : Option Nat
  connect : Bool

/-- `socket` and `connect` do. -/
def Attempt.succeeds (a : Attempt) : Bool :=
  a.socket.isOk && a.connect

theorem Attempt.succeeds_of_ok {a : Attempt} {fd : Nat} (hsocket : a.socket = .ok fd)
    (hconnect : a.connect = true) : a.succeeds = true := by
  rw [Attempt.succeeds, hsocket, hconnect]
  rfl

/-- The process, and the sockets behind its descriptors. -/
structure Host where
  process : Process
  endpoints : Int → Option Endpoint

namespace Host

open Process

/-- The operations on the objects of the process, `none` where the kernel cannot answer so. -/
def perform (h : Host) (ops : List Op) : Option Host :=
  (ops.foldlM step h.process).map fun p => { h with process := p }

/-- With another socket behind a descriptor. -/
def setEndpoint (h : Host) (fd : Int) (e : Endpoint) : Host :=
  { h with endpoints := Function.update h.endpoints fd (some e) }

/-- `connect`, from the addresses on. The result is an object, or what is thrown. -/
def connect (prop : Properties) (localPort : UInt16) :
    List Attempt → Host → Option (Except SocketError Nat × Host)
  | [], h => do
    -- return cSocket ()
    let h' ← h.perform [.create (-1)]
    some (.ok h.process.handles.length, h')
  | a :: attempts, h => do
    let s := h.process.handles.length
    match a.socket with
    | .error err =>
      let h ← h.perform (socketOps s (-1))
      some (.error (.errno err), h)
    | .ok fd =>
      let h ← h.perform (socketOps s fd)
      let e := a.info.endpoint
      match if localPort = 0 then none else a.bind with
      | some err =>
        let h ← (h.setEndpoint fd e).perform [.destroy s]
        some (.error (.errno err), h)
      | none =>
        let family := if prop.family = AF_INET then AF_INET else AF_INET6
        let e := if localPort = 0 then e else { e with name := some (family, localPort) }
        if a.connect = true then
          -- the result is behind `s` and the temporary of its constructor
          let h ← h.perform [.moveConstruct s, .destroy s]
          some (.ok (s + 2), h.setEndpoint fd { e with peer := some a.info.addr })
        else
          let h ← (h.setEndpoint fd e).perform [.destroy s]
          connect prop localPort attempts h

/-- The descriptor in the hands of the caller. -/
def held (r : Except SocketError Nat) (h : Host) : List Int :=
  match r with
  | .ok s => (h.process.handle s).toList.filter fun fd => 0 ≤ fd
  | .error _ => []

/-- `connect` tried the addresses one after the other. -/
structure TriesAll (attempts : List Attempt) (h : Host) (r : Except SocketError Nat) (h' : Host) :
    Prop where
  connected : ∀ a, attempts.find? Attempt.succeeds = some a → ∃ s fd : Nat, r = .ok s ∧
    a.socket = .ok fd ∧ h'.process.handle s = some fd ∧
    h'.endpoints fd = some { a.info.endpoint with peer := some a.info.addr }
  invalid : attempts.find? Attempt.succeeds = none →
    ∃ s, r = .ok s ∧ h'.process.handle s = some (-1)
  /-- What `connect` opened and does not return it closed, each once. -/
  closed : ∃ fds, h'.process.closed = h.process.closed ++ fds ∧
    h'.process.opened = h.process.opened ++ fds ++ held r h'

/-- Each address that is tried before one succeeds has a socket. -/
def HaveSockets (attempts : List Attempt) : Prop :=
  ∀ a ∈ attempts.takeWhile (fun a => !a.succeeds), ∃ fd, a.socket = .ok fd

/-! ## One address -/

variable {prop : Properties} {a : Attempt} {attempts : List Attempt} {h h' : Host}
  {r : Except SocketError Nat}

/-- `h` behind an attempt that failed, with the descriptors it closed. -/
def fail (h : Host) (a : Attempt) (fds : List Nat) : Host where
  process := h.process.gone (fds.map Nat.cast)
  endpoints := fds.foldl (fun e fd => Function.update e fd (some a.info.endpoint)) h.endpoints

theorem connect_nil (prop : Properties) (h : Host) : connect prop 0 [] h =
    some (.ok h.process.handles.length, { h with process := h.process.construct (-1) }) := rfl

theorem connect_error {err : Nat} (hsocket : a.socket = .error err) :
    connect prop 0 (a :: attempts) h = some (.error (.errno err), h.fail a []) := by
  simp [connect, hsocket, perform, socketOps_error, fail]

theorem connect_refused {fd : Nat} (htidy : h.process.Tidy) (hsocket : a.socket = .ok fd)
    (hconnect : a.connect = false) : connect prop 0 (a :: attempts) h =
      if h.process.IsOpen fd then none else connect prop 0 attempts (h.fail a [fd]) := by
  have hfd : 0 ≤ (fd : Int) := Int.natCast_nonneg fd
  by_cases hopen : h.process.IsOpen fd
  · simp [connect, hsocket, perform, socketOps_ok hfd htidy, hopen]
  · simp [connect, hsocket, perform, socketOps_ok hfd htidy, hopen, hconnect, setEndpoint,
      opening_destroy hfd (htidy fd hfd hopen), fail]

theorem connect_accepted {fd : Nat} (htidy : h.process.Tidy) (hsocket : a.socket = .ok fd)
    (hconnect : a.connect = true) : connect prop 0 (a :: attempts) h =
      if h.process.IsOpen fd then none else some (.ok (h.process.handles.length + 2),
        { process := h.process.returning fd
          endpoints := Function.update h.endpoints fd
            (some { a.info.endpoint with peer := some a.info.addr }) }) := by
  have hfd : 0 ≤ (fd : Int) := Int.natCast_nonneg fd
  by_cases hopen : h.process.IsOpen fd
  · simp [connect, hsocket, perform, socketOps_ok hfd htidy, hopen]
  · simp [connect, hsocket, perform, socketOps_ok hfd htidy, hopen, hconnect, setEndpoint,
      opening_return, -List.foldlM_cons]

/-- All that one address does to the rest of the call. -/
theorem connect_cons (htidy : h.process.Tidy)
    (hrun : connect prop 0 (a :: attempts) h = some (r, h')) :
    (∃ err, a.socket = .error err ∧ r = .error (.errno err) ∧ h' = h.fail a []) ∨
    (∃ fd, a.socket = .ok fd ∧ a.connect = false ∧
      connect prop 0 attempts (h.fail a [fd]) = some (r, h')) ∨
    ∃ fd : Nat, a.socket = .ok fd ∧ a.connect = true ∧ r = .ok (h.process.handles.length + 2) ∧
      h'.process = h.process.returning fd ∧
      h'.endpoints fd = some { a.info.endpoint with peer := some a.info.addr } := by
  cases hsocket : a.socket with
  | error err =>
    rw [connect_error hsocket] at hrun
    obtain ⟨rfl, rfl⟩ := Prod.mk.inj (Option.some.inj hrun)
    exact .inl ⟨err, rfl, rfl, rfl⟩
  | ok fd =>
    cases hconnect : a.connect with
    | false =>
      rw [connect_refused htidy hsocket hconnect] at hrun
      split_ifs at hrun
      exact .inr (.inl ⟨fd, rfl, rfl, hrun⟩)
    | true =>
      rw [connect_accepted htidy hsocket hconnect] at hrun
      split_ifs at hrun
      obtain ⟨rfl, rfl⟩ := Prod.mk.inj (Option.some.inj hrun)
      exact .inr (.inr ⟨fd, rfl, rfl, rfl, rfl, Function.update_self ..⟩)

/-! ## All addresses -/

/-- A call ends, if the kernel returns no descriptor that is open. -/
theorem exists_connect (prop : Properties) (htidy : h.process.Tidy)
    (hfresh : ∀ a ∈ attempts, ∀ fd : Nat, a.socket = .ok fd → ¬h.process.IsOpen fd) :
    ∃ r h', connect prop 0 attempts h = some (r, h') := by
  induction attempts generalizing h with
  | nil => exact ⟨_, _, connect_nil prop h⟩
  | cons a attempts ih =>
    cases hsocket : a.socket with
    | error err => exact ⟨_, _, connect_error hsocket⟩
    | ok fd =>
      have hopen := hfresh a List.mem_cons_self fd hsocket
      cases hconnect : a.connect with
      | false =>
        rw [connect_refused htidy hsocket hconnect, if_neg hopen]
        refine ih (htidy.gone _) fun b hb fd' hfd' hopen' => ?_
        exact hfresh b (List.mem_cons_of_mem a hb) fd' hfd' ((isOpen_gone ..).mp hopen')
      | true =>
        rw [connect_accepted htidy hsocket hconnect, if_neg hopen]
        exact ⟨_, _, rfl⟩

/-- Whatever fails, `connect` closes what it does not return. -/
theorem connect_closed (htidy : h.process.Tidy)
    (hrun : connect prop 0 attempts h = some (r, h')) :
    ∃ fds, h'.process.closed = h.process.closed ++ fds ∧
      h'.process.opened = h.process.opened ++ fds ++ held r h' := by
  induction attempts generalizing h with
  | nil =>
    obtain ⟨rfl, rfl⟩ := Prod.mk.inj (Option.some.inj hrun)
    exact ⟨[], by simp [held, construct, handle]⟩
  | cons a attempts ih =>
    rcases connect_cons htidy hrun with ⟨err, -, rfl, rfl⟩ | ⟨fd, -, -, hrest⟩ |
      ⟨fd, -, -, rfl, hprocess, -⟩
    · exact ⟨[], by simp [held, fail, gone]⟩
    · obtain ⟨fds, hclosed, hopened⟩ := ih (htidy.gone _) hrest
      exact ⟨(fd : Int) :: fds, by simp [hclosed, fail, gone], by simp [hopened, fail, gone]⟩
    · have hheld : held (.ok (h.process.handles.length + 2)) h' = [(fd : Int)] := by
        simp [held, hprocess, handle_returning]
      exact ⟨[], by simp [hprocess, returning, opening], by
        simp [hheld, hprocess, returning, opening]⟩

theorem haveSockets_cons : HaveSockets (a :: attempts) ↔
    (∃ fd, a.socket = .ok fd) ∧ (a.succeeds = false → HaveSockets attempts) := by
  cases hsucceeds : a.succeeds with
  | false => simp [HaveSockets, hsucceeds]
  | true =>
    have hsocket : a.socket.isOk = true := (Bool.and_eq_true_iff.mp hsucceeds).1
    cases ha : a.socket with
    | error err => simp [ha, Except.isOk, Except.toBool] at hsocket
    | ok fd => simp [HaveSockets, hsucceeds]

/-- Where each address that is tried has a socket, the first that succeeds is connected. -/
theorem connect_connected (htidy : h.process.Tidy)
    (hrun : connect prop 0 attempts h = some (r, h')) (hsockets : HaveSockets attempts) :
    (∀ a, attempts.find? Attempt.succeeds = some a → ∃ s fd : Nat, r = .ok s ∧
      a.socket = .ok fd ∧ h'.process.handle s = some (fd : Int) ∧
      h'.endpoints fd = some { a.info.endpoint with peer := some a.info.addr }) ∧
    (attempts.find? Attempt.succeeds = none →
      ∃ s, r = .ok s ∧ h'.process.handle s = some (-1)) := by
  induction attempts generalizing h with
  | nil =>
    obtain ⟨rfl, rfl⟩ := Prod.mk.inj (Option.some.inj hrun)
    exact ⟨by simp, fun _ => ⟨_, rfl, by simp [construct, handle]⟩⟩
  | cons a attempts ih =>
    rcases connect_cons htidy hrun with ⟨err, hsocket, -, -⟩ | ⟨fd, hsocket, hconnect, hrest⟩ |
      ⟨fd, hsocket, hconnect, rfl, hprocess, hpeer⟩
    · obtain ⟨⟨fd, hfd⟩, -⟩ := haveSockets_cons.mp hsockets
      rw [hsocket] at hfd
      cases hfd
    · have hfails : a.succeeds = false := by simp [Attempt.succeeds, hconnect]
      rw [List.find?_cons_of_neg (by simp [hfails])]
      exact ih (htidy.gone _) hrest ((haveSockets_cons.mp hsockets).2 hfails)
    · rw [List.find?_cons_of_pos (Attempt.succeeds_of_ok hsocket hconnect)]
      refine ⟨fun b hb => ?_, by simp⟩
      obtain rfl := Option.some.inj hb
      exact ⟨_, fd, rfl, hsocket, by rw [hprocess, handle_returning], hpeer⟩

/-- A `socket` that fails ends the call. -/
theorem connect_throws (htidy : h.process.Tidy)
    (hrun : connect prop 0 attempts h = some (r, h')) (hsockets : ¬HaveSockets attempts) :
    ∃ err, r = .error (.errno err) := by
  induction attempts generalizing h with
  | nil => exact absurd (fun _ ha => nomatch ha) hsockets
  | cons a attempts ih =>
    rcases connect_cons htidy hrun with ⟨err, -, rfl, -⟩ | ⟨fd, hsocket, -, hrest⟩ |
      ⟨fd, hsocket, hconnect, -⟩
    · exact ⟨err, rfl⟩
    · refine ih (htidy.gone _) hrest fun hrest' => hsockets ?_
      exact haveSockets_cons.mpr ⟨⟨fd, hsocket⟩, fun _ => hrest'⟩
    · have hsucceeds := Attempt.succeeds_of_ok hsocket hconnect
      refine absurd (haveSockets_cons.mpr ⟨⟨fd, hsocket⟩, fun hfails => ?_⟩) hsockets
      rw [hsucceeds] at hfails
      cases hfails

/-- `connect` tries all addresses if no `socket` fails on its way. -/
theorem triesAll_iff (htidy : h.process.Tidy) (hrun : connect prop 0 attempts h = some (r, h')) :
    TriesAll attempts h r h' ↔ HaveSockets attempts := by
  constructor
  · intro htries
    by_contra hsockets
    obtain ⟨err, rfl⟩ := connect_throws htidy hrun hsockets
    cases hfind : attempts.find? Attempt.succeeds with
    | none =>
      obtain ⟨_, hok, -⟩ := htries.invalid hfind
      cases hok
    | some a =>
      obtain ⟨_, _, hok, -⟩ := htries.connected a hfind
      cases hok
  · intro hsockets
    obtain ⟨hconnected, hinvalid⟩ := connect_connected htidy hrun hsockets
    exact ⟨hconnected, hinvalid, connect_closed htidy hrun⟩

/-- A host where nothing is open. -/
def idle : Host where
  process := {}
  endpoints := fun _ => none

theorem tidy_idle : idle.process.Tidy :=
  fun _ _ _ => rfl

/-- `localhost`, where `::1` takes no connection. -/
def localhost (socket : Except Nat Nat) : List Attempt := [
  { info := ⟨AF_INET6, SOCK_STREAM, 6, 1⟩, socket := socket, bind := none, connect := false },
  { info := ⟨AF_INET, SOCK_STREAM, 6, 2⟩, socket := .ok 3, bind := none, connect := true }]

theorem triesAll_localhost : ∃ r h', connect .tcp 0 (localhost (.ok 3)) idle = some (r, h') ∧
    TriesAll (localhost (.ok 3)) idle r h' := by
  have hfresh : ∀ a ∈ localhost (.ok 3), ∀ fd : Nat, a.socket = .ok fd → ¬idle.process.IsOpen fd :=
    fun _ _ _ _ => Nat.lt_irrefl 0
  obtain ⟨r, h', hrun⟩ := exists_connect .tcp tidy_idle hfresh
  refine ⟨r, h', hrun, (triesAll_iff tidy_idle hrun).mpr ?_⟩
  exact haveSockets_cons.mpr ⟨⟨3, rfl⟩, fun _ => haveSockets_cons.mpr ⟨⟨3, rfl⟩, nofun⟩⟩

/-- Where the kernel has no IPv6 the other address of `localhost` is not tried. -/
theorem not_triesAll : ¬∀ (attempts : List Attempt) (h : Host) (r : Except SocketError Nat)
    (h' : Host), h.process.Tidy → connect .tcp 0 attempts h = some (r, h') →
    TriesAll attempts h r h' := by
  intro hall
  have htries := hall (localhost (.error 97)) idle _ _ tidy_idle (connect_error rfl)
  obtain ⟨_, _, hok, -⟩ := htries.connected _ rfl
  cases hok

end Host

end NetBabbler
