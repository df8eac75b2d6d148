import TickToTrade.Library.Run

/-! The network thread: an edge-triggered `epoll` loop with the two descriptors that Main registers.
The kernel marks a descriptor ready when data arrives and `epoll_wait` clears the mark when it
reports the descriptor; each report calls the descriptor's callback once, and each callback makes
one `recv`. -/
namespace TickToTrade.NetworkEventLoop

/-- The registered descriptors; both have a callback. -/
inductive Fd
  | tcp
  | udp
  deriving DecidableEq, Repr

/-- Where the thread is in `run`; `events` are the reported descriptors still to be dispatched. -/
inductive LoopPc
  | waiting
  | dispatching (events : List Fd)
  | inCallback (events : List Fd)
  deriving DecidableEq, Repr

structure State where
  datagrams : List (List UInt8)
  stream : List UInt8
  ready : Fd → Bool
  pc : LoopPc

/-- When `run` is entered; data that was there before the registration makes a descriptor ready. -/
def init (datagrams : List (List UInt8)) (stream : List UInt8) : State where
  datagrams := datagrams
  stream := stream
  ready fd := match fd with
    | .udp => !datagrams.isEmpty
    | .tcp => !stream.isEmpty
  pc := .waiting

inductive Action
  | datagramArrives (datagram : List UInt8)
  | bytesArrive (bytes : List UInt8)
  | epollWait (events : List Fd)
  | recv
  | callbackReturns

/-- What `recv` hands to the callback, cut to the callback's buffer; nothing for other steps and
where the socket is empty. -/
abbrev Received := Option (Fd × List UInt8)

def udpBuffer : ℕ := 2048

def tcpBuffer : ℕ := 1024

/-- The next event of the `for` loop, or `epoll_wait` again. -/
def dispatch : List Fd → LoopPc
  | [] => .waiting
  | events => .dispatching events

/-- `epoll_wait` returns the ready descriptors in some order, and blocks while there are none. -/
def step (s : State) : Action → Option (Received × State)
  | .datagramArrives datagram =>
    some (none,{ s with datagrams := s.datagrams ++ [datagram], ready := Function.update s.ready .udp true })
  | .bytesArrive bytes =>
    some (none,{ s with stream := s.stream ++ bytes, ready := Function.update s.ready .tcp true })
  | .epollWait events =>
    if s.pc = .waiting ∧ events ≠ [] ∧ events.Nodup ∧ (.udp ∈ events ↔ s.ready .udp = true) ∧
        (.tcp ∈ events ↔ s.ready .tcp = true) then
      some (none,{ s with ready := fun _ => false, pc := .dispatching events })
    else none
  | .recv =>
    match s.pc with
    | .dispatching (.udp :: events) =>
      match s.datagrams with
      | [] => some (none,{ s with pc := .inCallback events })
      | datagram :: datagrams =>
        some (some (.udp,datagram.take udpBuffer),{ s with datagrams := datagrams, pc := .inCallback events })
    | .dispatching (.tcp :: events) =>
      some (if s.stream = [] then none else some (.tcp,s.stream.take tcpBuffer),
        { s with stream := s.stream.drop tcpBuffer, pc := .inCallback events })
    | _ => none
  | .callbackReturns =>
    match s.pc with
    | .inCallback events => some (none,{ s with pc := dispatch events })
    | _ => none

/-- In `epoll_wait` with a datagram waiting that no event will announce; events on the other socket
may still come. -/
def State.Stranded (s : State) : Prop := s.pc = .waiting ∧ s.ready .udp = false ∧ s.datagrams ≠ []

/-- The next `recv` is that of the market-data callback. -/
def LoopPc.atUdp : LoopPc → Bool
  | .dispatching (.udp :: _) => true
  | _ => false

/-- A `recv` of the market-data callback takes the last datagram, or another one has been
announced in the meantime. -/
def Drains (s : State) : Action → Prop
  | .recv => s.pc.atUdp = true → s.ready .udp = true ∨ s.datagrams.length ≤ 1
  | _ => True

instance (s : State) (a : Action) : Decidable (Drains s a) :=
  match a with
  | .recv => inferInstanceAs (Decidable (_ → _ ∨ _))
  | .datagramArrives _ => inferInstanceAs (Decidable True)
  | .bytesArrive _ => inferInstanceAs (Decidable True)
  | .epollWait _ => inferInstanceAs (Decidable True)
  | .callbackReturns => inferInstanceAs (Decidable True)

/-- Reported descriptors whose callback has not yet been called. -/
def LoopPc.pending : LoopPc → List Fd
  | .waiting => []
  | .dispatching events => events
  | .inCallback events => events

@[simp] lemma pending_dispatch (events : List Fd) : (dispatch events).pending = events := by
  cases events <;> rfl

/-- Everything one step can do. -/
inductive Effect (s : State) : Action → State → Prop
  | datagram (d : List UInt8) : Effect s (.datagramArrives d)
      { s with datagrams := s.datagrams ++ [d], ready := Function.update s.ready .udp true }
  | bytes (b : List UInt8) : Effect s (.bytesArrive b)
      { s with stream := s.stream ++ b, ready := Function.update s.ready .tcp true }
  | reported (events : List Fd) (at_pc : s.pc = .waiting) (nodup : events.Nodup)
      (reports : .udp ∈ events ↔ s.ready .udp = true) :
      Effect s (.epollWait events) { s with ready := fun _ => false, pc := .dispatching events }
  | udp (events : List Fd) (at_pc : s.pc = .dispatching (.udp :: events)) :
      Effect s .recv { s with datagrams := s.datagrams.tail, pc := .inCallback events }
  | tcp (events : List Fd) (at_pc : s.pc = .dispatching (.tcp :: events)) :
      Effect s .recv { s with stream := s.stream.drop tcpBuffer, pc := .inCallback events }
  | returned (events : List Fd) (at_pc : s.pc = .inCallback events) :
      Effect s .callbackReturns { s with pc := dispatch events }

variable {s s' : State} {a : Action} {r : Received}

theorem step_cases (h : step s a = some (r,s')) : Effect s a s' := by
  cases a with
  | datagramArrives d =>
    obtain ⟨_,rfl⟩ := Prod.mk.inj (Option.some.inj h)
    exact .datagram d
  | bytesArrive b =>
    obtain ⟨_,rfl⟩ := Prod.mk.inj (Option.some.inj h)
    exact .bytes b
  | epollWait events =>
    simp only [step] at h
    split at h
    · rename_i henabled
      obtain ⟨hpc,_,hnodup,hudp,_⟩ := henabled
      obtain ⟨_,rfl⟩ := Prod.mk.inj (Option.some.inj h)
      exact .reported events hpc hnodup hudp
    · contradiction
  | recv =>
    simp only [step] at h
    split at h
    · rename_i events hpc
      split at h
      · rename_i hempty
        obtain ⟨_,rfl⟩ := Prod.mk.inj (Option.some.inj h)
        have heffect := Effect.udp events hpc
        rwa [hempty,List.tail_nil,← hempty] at heffect
      · rename_i d ds hdatagrams
        obtain ⟨_,rfl⟩ := Prod.mk.inj (Option.some.inj h)
        have heffect := Effect.udp events hpc
        rwa [hdatagrams,List.tail_cons] at heffect
    · rename_i events hpc
      obtain ⟨_,rfl⟩ := Prod.mk.inj (Option.some.inj h)
      exact .tcp events hpc
    · contradiction
  | callbackReturns =>
    simp only [step] at h
    split at h
    · rename_i events hpc
      obtain ⟨_,rfl⟩ := Prod.mk.inj (Option.some.inj h)
      exact .returned events hpc
    · contradiction

/-- While every `recv` drains, a waiting datagram is announced or its callback is still to come. -/
def Announced (s : State) : Prop := s.ready .udp = true ∨ s.datagrams = [] ∨ .udp ∈ s.pc.pending

lemma announced_init (datagrams : List (List UInt8)) (stream : List UInt8) : Announced (init datagrams stream) := by
  cases datagrams with
  | nil => exact .inr (.inl rfl)
  | cons d datagrams => exact .inl rfl

lemma Announced.not_stranded (h : Announced s) : ¬ s.Stranded := by
  rintro ⟨hpc,hready,hdatagrams⟩
  rcases h with h | h | h
  · rw [hready] at h
    contradiction
  · exact hdatagrams h
  · rw [hpc] at h
    contradiction

theorem Announced.step (h : Announced s) (hdrains : Drains s a) (heffect : Effect s a s') : Announced s' := by
  cases heffect with
  | datagram d => exact .inl (Function.update_self Fd.udp true s.ready)
  | bytes b => exact h
  | reported events hpc hnodup hreports =>
    rcases h with h | h | h
    · exact .inr (.inr (hreports.mpr h))
    · exact .inr (.inl h)
    · rw [hpc] at h
      contradiction
  | udp events hpc =>
    rcases hdrains (by rw [hpc]; rfl) with hready | hlength
    · exact .inl hready
    · refine .inr (.inl ?_)
      apply List.eq_nil_of_length_eq_zero
      rw [List.length_tail]
      omega
  | tcp events hpc =>
    rcases h with h | h | h
    · exact .inl h
    · exact .inr (.inl h)
    · rw [hpc] at h
      exact .inr (.inr ((List.mem_cons.mp h).resolve_left (by simp)))
  | returned events hpc =>
    rcases h with h | h | h
    · exact .inl h
    · exact .inr (.inl h)
    · rw [hpc] at h
      exact .inr (.inr ((pending_dispatch events).symm ▸ h))

lemma Effect.pending_nodup (heffect : Effect s a s') (h : s.pc.pending.Nodup) : s'.pc.pending.Nodup := by
  cases heffect with
  | datagram d => exact h
  | bytes b => exact h
  | reported events hpc hnodup hreports => exact hnodup
  | udp events hpc =>
    rw [hpc] at h
    exact h.of_cons
  | tcp events hpc =>
    rw [hpc] at h
    exact h.of_cons
  | returned events hpc =>
    rw [hpc] at h
    exact (pending_dispatch events).symm ▸ h

/-- The other callbacks return without touching the market data. -/
lemma run_to_waiting {events : List Fd} (hudp : .udp ∉ events) (hpc : s.pc = .inCallback events) :
    ∃ actions rs u, run NetworkEventLoop.step s actions = some (rs,u) ∧ u.pc = .waiting ∧ u.ready = s.ready ∧
      u.datagrams = s.datagrams := by
  induction events generalizing s with
  | nil =>
    refine ⟨[.callbackReturns],[none],{ s with pc := .waiting },?_,rfl,rfl,rfl⟩
    exact run_cons_eq_some.mpr ⟨none,_,[],by simp [NetworkEventLoop.step,hpc,dispatch],rfl,rfl⟩
  | cons fd events ih =>
    have hfd : fd = .tcp := by
      cases fd with
      | tcp => rfl
      | udp => exact absurd List.mem_cons_self hudp
    subst hfd
    obtain ⟨actions,rs,u,hrun,hwaiting,hready,hdatagrams⟩ :=
      ih (s := { s with stream := s.stream.drop tcpBuffer, pc := .inCallback events })
        (fun hmem => hudp (List.mem_cons_of_mem _ hmem)) rfl
    have hreturned : NetworkEventLoop.step s .callbackReturns =
        some (none,{ s with pc := .dispatching (.tcp :: events) }) := by
      simp [NetworkEventLoop.step,hpc,dispatch]
    exact ⟨.callbackReturns :: .recv :: actions,_,u,run_cons_eq_some.mpr ⟨none,_,_,hreturned,
      run_cons_eq_some.mpr ⟨_,_,rs,rfl,hrun,rfl⟩,rfl⟩,hwaiting,hready,hdatagrams⟩

/-- A run in which every `recv` drains never strands a datagram; a `recv` that does not drain can
be followed by the thread going back to `epoll_wait` with a datagram stranded. -/
theorem run_never_stranded (datagrams : List (List UInt8)) (stream : List UInt8) (actions : List Action) :
    ((∀ pre a post, actions = pre ++ a :: post →
        ∀ rs u, run NetworkEventLoop.step (init datagrams stream) pre = some (rs,u) → Drains u a) →
      ∀ pre post, actions = pre ++ post →
        ∀ rs u, run NetworkEventLoop.step (init datagrams stream) pre = some (rs,u) → ¬ u.Stranded) ∧
    ∀ rs u, run NetworkEventLoop.step (init datagrams stream) actions = some (rs,u) →
      ∀ a r u', NetworkEventLoop.step u a = some (r,u') → ¬ Drains u a →
      ∃ more rs' t, run NetworkEventLoop.step (init datagrams stream) (actions ++ a :: more) = some (rs',t) ∧
        t.Stranded := by
  refine ⟨?_,?_⟩
  · rintro hdrains pre post rfl rs u hrun
    have hannounced : Announced u := by
      refine run_induction (I := fun _ _ u => Announced u) (announced_init datagrams stream) ?_ hrun
      rintro pre' a post' rs' v r v' rfl hpre hI hstep
      exact hI.step (hdrains pre' a (post' ++ post) (by simp) rs' v hpre) (step_cases hstep)
    exact hannounced.not_stranded
  · intro rs u hrun a r u' hstep hnot
    have hnodup : u.pc.pending.Nodup :=
      run_invariant (I := fun u => u.pc.pending.Nodup) (fun _ _ _ _ h hstep => (step_cases hstep).pending_nodup h)
        List.nodup_nil hrun
    cases step_cases hstep with
    | udp events hpc =>
      simp only [Drains,not_forall,not_or,Bool.not_eq_true,Nat.not_le] at hnot
      obtain ⟨_,hready,hlength⟩ := hnot
      rw [hpc] at hnodup
      obtain ⟨more,rs',t,hmore,hwaiting,hready',hdatagrams⟩ := run_to_waiting
        (s := { u with datagrams := u.datagrams.tail, pc := .inCallback events })
        (List.nodup_cons.mp hnodup).1 rfl
      refine ⟨more,rs ++ r :: rs',t,?_,hwaiting,by rw [hready']; exact hready,?_⟩
      · exact run_append_eq_some.mpr ⟨u,rs,r :: rs',hrun,run_cons_eq_some.mpr ⟨r,_,rs',hstep,hmore,rfl⟩,rfl⟩
      · rw [hdatagrams]
        intro hnil
        have hzero := congrArg List.length hnil
        rw [List.length_tail,List.length_nil] at hzero
        omega
    | tcp events hpc =>
      simp [Drains,hpc,LoopPc.atUdp] at hnot
    | _ => exact absurd trivial hnot

lemma drains_of_take {datagrams : List (List UInt8)} {stream : List UInt8} {actions : List Action}
    (h : ∀ n (hn : n < actions.length), (run NetworkEventLoop.step (init datagrams stream) (actions.take n)).all
      fun p => decide (Drains p.2 actions[n])) :
    ∀ pre a post, actions = pre ++ a :: post →
      ∀ rs u, run NetworkEventLoop.step (init datagrams stream) pre = some (rs,u) → Drains u a := by
  apply forall_split_of_take
  intro n hn rs u hrun
  exact of_run_all (P := fun u => Drains u actions[n]) (h n hn) hrun

/-- A second datagram that arrives while the first is being handled is announced again. -/
theorem run_never_stranded_one_by_one :
    ∃ rs s, run NetworkEventLoop.step (init [] []) [.datagramArrives [65],.epollWait [.udp],.recv,
      .datagramArrives [68],.callbackReturns] = some (rs,s) ∧ s.pc = .waiting ∧ s.datagrams = [[68]] ∧
      ¬ s.Stranded := by
  refine ⟨_,_,rfl,rfl,rfl,?_⟩
  exact (run_never_stranded [] [] [.datagramArrives [65],.epollWait [.udp],.recv,.datagramArrives [68],
    .callbackReturns]).1 (drains_of_take (by decide +kernel)) [.datagramArrives [65],.epollWait [.udp],.recv,
    .datagramArrives [68],.callbackReturns] [] rfl _ _ rfl

/-- Two datagrams arrive before the thread is woken: it takes one and waits for ever. -/
theorem second_datagram_stranded :
    ∃ rs s, run NetworkEventLoop.step (init [] []) [.datagramArrives [65],.datagramArrives [68],.epollWait [.udp],.recv,
      .callbackReturns] = some (rs,s) ∧ s.Stranded ∧ s.datagrams = [[68]] :=
  ⟨_,_,rfl,⟨rfl,rfl,by simp⟩,rfl⟩

end TickToTrade.NetworkEventLoop
