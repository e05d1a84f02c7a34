import Mathlib.Data.Multiset.Count
import Mathlib.Logic.Relation
import Mathlib.Tactic

/-!
# Requests and replies over an unreliable network

One client, and what is under way between it and the servers that answer it. The network
and the servers lose requests and replies and bring them in any order, but make up none and
bring none twice. Some requests want a reply, and a server answers no other. A client asks one
thing at a time and nothing more once it gave up; that it tells something, which wants no reply,
does not keep it from going on.

`Step.current` : what is due, in requests that want a reply and in replies, belongs to the
question that is open, and there is at most one of it, so a reply that arrives is the one that is
waited for. `Step.silent` : with nothing due, a client that waits waits for good.
-/

namespace RequestReply

variable {ρ : Type*} (wants : ρ → Prop)

/-- Where the client is. -/
inductive Status (ρ : Type*) where
  | idle
  | waiting (n : ρ)
  | gone

/-- The client and the network. -/
@[ext]
structure State (ρ : Type*) where
  status : Status ρ
  /-- What is asked or told, in the requests under way. -/
  requests : Multiset ρ
  /-- What is answered, in the replies under way. -/
  replies : Multiset ρ

/-- What the client, the network and the servers do. -/
inductive Step : State ρ → State ρ → Prop where
  | ask (s : State ρ) (n : ρ) (h : s.status = .idle) :
      Step s { s with status := .waiting n, requests := n ::ₘ s.requests }
  | tell (s : State ρ) (n : ρ) (h : s.status = .idle) (hn : ¬wants n) :
      Step s { s with requests := n ::ₘ s.requests }
  | loseRequest (s : State ρ) (n : ρ) (rest : Multiset ρ) (h : s.requests = n ::ₘ rest) :
      Step s { s with requests := rest }
  | answer (s : State ρ) (n : ρ) (rest : Multiset ρ) (h : s.requests = n ::ₘ rest)
      (hn : wants n) : Step s { s with requests := rest, replies := n ::ₘ s.replies }
  | loseReply (s : State ρ) (n : ρ) (rest : Multiset ρ) (h : s.replies = n ::ₘ rest) :
      Step s { s with replies := rest }
  | accept (s : State ρ) (n : ρ) (rest : Multiset ρ) (hn : s.status = .waiting n)
      (h : s.replies = n ::ₘ rest) : Step s { s with status := .idle, replies := rest }
  | giveUp (s : State ρ) : Step s { s with status := .gone }

/-- Any number of steps. -/
abbrev Steps : State ρ → State ρ → Prop :=
  Relation.ReflTransGen (Step wants)

/-! ## Several steps -/

variable {wants}

/-- The network may lose any part of the requests, and of the replies. -/
theorem Steps.lose (s : State ρ) :
    ∀ (requests replies restRequests restReplies : Multiset ρ),
      s.requests = requests + restRequests → s.replies = replies + restReplies →
      Steps wants s { s with requests := restRequests, replies := restReplies } := by
  intro requests replies restRequests restReplies hrequests hreplies
  induction requests using Multiset.induction generalizing s with
  | cons n requests ih =>
    refine .head (.loseRequest s n _ (hrequests.trans (Multiset.cons_add ..))) ?_
    exact ih { s with requests := requests + restRequests } rfl hreplies
  | empty =>
    rw [zero_add] at hrequests
    subst hrequests
    induction replies using Multiset.induction generalizing s with
    | empty =>
      rw [zero_add] at hreplies
      subst hreplies
      exact .refl
    | cons n replies ih =>
      refine .head (.loseReply s n _ (hreplies.trans (Multiset.cons_add ..))) ?_
      exact ih { s with replies := replies + restReplies } rfl

/-- The servers may answer any requests that want a reply. -/
theorem Steps.answer (s : State ρ) (requests rest : Multiset ρ)
    (h : s.requests = requests + rest) (hwants : ∀ n ∈ requests, wants n) :
    Steps wants s { s with requests := rest, replies := requests + s.replies } := by
  induction requests using Multiset.induction generalizing s with
  | empty =>
    rw [zero_add] at h
    subst h
    rw [zero_add]
  | cons n requests ih =>
    obtain ⟨hn, hmore⟩ := Multiset.forall_mem_cons.mp hwants
    refine .head (.answer s n _ (h.trans (Multiset.cons_add ..)) hn) ?_
    have hrest := ih { s with requests := requests + rest, replies := n ::ₘ s.replies } rfl hmore
    rwa [Multiset.add_cons, ← Multiset.cons_add] at hrest

/-- An idle client gets anywhere with nothing more under way. -/
theorem Steps.lapse {s : State ρ} (h : s.status = .idle) (status : Status ρ) :
    Steps wants s { s with status := status } := by
  cases status with
  | idle =>
    rw [← h]
  | waiting n =>
    refine .head (.ask s n h) (.single ?_)
    exact .loseRequest _ n s.requests rfl
  | gone => exact .single (.giveUp s)

/-! ## What is due -/

section Due

variable (wants) [DecidablePred wants]

namespace State

/-- What may still become a reply, or is one. -/
def due (s : State ρ) : Multiset ρ :=
  s.requests.filter wants + s.replies

/-- All that is due belongs to the open question. -/
structure Current (s : State ρ) : Prop where
  card : (s.due wants).card ≤ 1
  idle : s.status = .idle → s.due wants = 0
  same : ∀ n ∈ s.due wants, ∀ n', s.status = .waiting n' → n = n'

/-- The client is not idle, and nothing is due that it could get. -/
structure Silent (s : State ρ) : Prop where
  busy : s.status ≠ .idle
  due : s.due wants = 0

variable {wants} {s s' : State ρ}

theorem Current.of_due (h : s.due wants = 0) : s.Current wants :=
  ⟨by simp [h], fun _ => h, by simp [h]⟩

theorem Current.of_le (hs : s.Current wants) (hstatus : s'.status = s.status)
    (hle : s'.due wants ≤ s.due wants) : s'.Current wants := by
  refine ⟨(Multiset.card_le_card hle).trans hs.card, fun h => ?_, fun n hn n' hn' => ?_⟩
  · rw [hs.idle (hstatus ▸ h)] at hle
    exact Multiset.le_zero.mp hle
  · exact hs.same n (Multiset.mem_of_le hle hn) n' (hstatus ▸ hn')

theorem mem_due_of_reply {n : ρ} {rest : Multiset ρ} (h : s.replies = n ::ₘ rest) :
    s.due wants = n ::ₘ ({ s with replies := rest }.due wants) := by
  rw [due, h, Multiset.add_cons, due]

end State

open State

variable {wants} {s s' : State ρ}

/-- Only a question adds something that is due. -/
theorem Step.due_le (h : Step wants s s') : s'.due wants ≤ s.due wants ∨
    ∃ n, s.status = .idle ∧ s'.status = .waiting n ∧ s'.due wants ≤ n ::ₘ s.due wants := by
  cases h with
  | ask n hidle =>
    refine .inr ⟨n, hidle, rfl, ?_⟩
    rw [due, due, ← Multiset.cons_add]
    refine Multiset.add_le_add_right ?_
    by_cases hn : wants n
    · rw [Multiset.filter_cons_of_pos _ hn]
    · rw [Multiset.filter_cons_of_neg _ hn]
      exact Multiset.le_cons_self _ _
  | tell n hidle hn =>
    rw [due, due, Multiset.filter_cons_of_neg _ hn]
    exact .inl le_rfl
  | loseRequest n rest h =>
    rw [due, due, h]
    refine .inl (Multiset.add_le_add_right ?_)
    exact Multiset.filter_le_filter _ (Multiset.le_cons_self _ _)
  | answer n rest h hn =>
    rw [due, due, h, Multiset.filter_cons_of_pos _ hn, Multiset.add_cons, Multiset.cons_add]
    exact .inl le_rfl
  | loseReply n rest h | accept n rest hn h =>
    rw [mem_due_of_reply h]
    exact .inl (Multiset.le_cons_self _ _)
  | giveUp => exact .inl le_rfl

/-- Every step keeps what is due to the open question. -/
theorem Step.current (h : Step wants s s') (hs : s.Current wants) : s'.Current wants := by
  rcases h.due_le with hle | ⟨n, hidle, hwaits, hle⟩
  · cases h with
    | ask n hidle | tell n hidle =>
      rw [hs.idle hidle] at hle
      exact .of_due (Multiset.le_zero.mp hle)
    | loseRequest | answer | loseReply => exact hs.of_le rfl hle
    | accept n rest _ hn =>
      refine .of_due (Multiset.card_eq_zero.mp ?_)
      have hone := hs.card
      rw [mem_due_of_reply hn, Multiset.card_cons] at hone
      exact Nat.eq_zero_of_le_zero (Nat.le_of_succ_le_succ hone)
    | giveUp => exact ⟨hs.card, nofun, nofun⟩
  · rw [hs.idle hidle] at hle
    refine ⟨(Multiset.card_le_card hle).trans (Multiset.card_singleton n).le, ?_, ?_⟩
    · rw [hwaits]
      exact nofun
    · intro n₁ hn₁ n' hn'
      rw [Multiset.mem_singleton.mp (Multiset.mem_of_le hle hn₁)]
      rw [hwaits] at hn'
      exact Status.waiting.inj hn'

theorem Steps.current (h : Steps wants s s') (hs : s.Current wants) : s'.Current wants := by
  induction h with
  | refl => exact hs
  | tail _ hstep ih => exact hstep.current ih

/-- A reply that is under way to a client that waits is the only thing due, and the one that is
waited for. -/
theorem State.Current.reply (h : s.Current wants) {n : ρ} {rest : Multiset ρ}
    (hn : s.replies = n ::ₘ rest) : s.requests.filter wants = 0 ∧ rest = 0 ∧ s.status ≠ .idle ∧
      ∀ n', s.status = .waiting n' → n = n' := by
  have hdue : s.due wants = n ::ₘ ({ s with replies := rest }.due wants) := mem_due_of_reply hn
  have hone := h.card
  rw [hdue, Multiset.card_cons] at hone
  have hzero := Multiset.card_eq_zero.mp (Nat.eq_zero_of_le_zero (Nat.le_of_succ_le_succ hone))
  obtain ⟨hrequests, hrest⟩ := add_eq_zero.mp hzero
  refine ⟨hrequests, hrest, fun hidle => ?_, h.same n (hdue ▸ Multiset.mem_cons_self _ _)⟩
  rw [h.idle hidle] at hdue
  exact Multiset.zero_ne_cons hdue

/-- With nothing due, a client that waits goes on waiting for the same reply, or leaves. -/
theorem Step.silent (h : Step wants s s') (hs : s.Silent wants) :
    s'.Silent wants ∧ (s'.status = s.status ∨ s'.status = .gone) := by
  obtain ⟨hbusy, hzero⟩ := hs
  have hdue : s'.due wants = 0 := by
    rcases h.due_le with hle | ⟨n, hidle, -⟩
    · rw [hzero] at hle
      exact Multiset.le_zero.mp hle
    · exact absurd hidle hbusy
  cases h with
  | ask n hidle | tell n hidle => exact absurd hidle hbusy
  | loseRequest | answer | loseReply => exact ⟨⟨hbusy, hdue⟩, .inl rfl⟩
  | accept n rest _ hn =>
    rw [mem_due_of_reply hn] at hzero
    exact absurd hzero Multiset.cons_ne_zero
  | giveUp => exact ⟨⟨nofun, hdue⟩, .inr rfl⟩

theorem Steps.silent (h : Steps wants s s') (hs : s.Silent wants) :
    s'.Silent wants ∧ (s'.status = s.status ∨ s'.status = .gone) := by
  induction h with
  | refl => exact ⟨hs, .inl rfl⟩
  | tail _ hstep ih =>
    obtain ⟨hsilent, hstatus⟩ := hstep.silent ih.1
    refine ⟨hsilent, ?_⟩
    rcases hstatus with hsame | hgone
    · rw [hsame]
      exact ih.2
    · exact .inr hgone

end Due

end RequestReply
