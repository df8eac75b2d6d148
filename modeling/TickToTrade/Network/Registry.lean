import Mathlib.Data.Finset.Insert
import Mathlib.Data.Finset.Basic
import TickToTrade.Library.Run

/-! The descriptors of the event loop. Sockets are opened, registered with a callback in the vector
`fd_callbacks_` and in the kernel's interest list, and closed; the kernel hands out the numbers of
closed descriptors again, and the vector is never cleaned. All the same each event reaches the callback
that came with the socket, and an `add` that fails leaves no descriptor behind. What is accepted is
another matter: the loop has no way to register it. -/
namespace TickToTrade.EventRegistry

/-- What the loop and the kernel know of descriptors; `events` are reported and still to be
dispatched, `inCallback` is the descriptor whose callback is running. -/
structure State (C : Type) where
  opened : Finset ℕ
  interest : Finset ℕ
  fdCallbacks : List (Option C)
  events : List ℕ
  inCallback : Option ℕ

/-- Results of `connect`, by its value and `errno`. -/
inductive Connect
  | connected
  | inProgress
  | failed
  deriving DecidableEq, Repr

/-- The calls with what the kernel answers: `none` for no socket, else its number, and whether each
further call succeeds. -/
inductive Action (C : Type)
  | addUDPMulticastListener (callback : C) (sock : Option ℕ) (bound joined epollCtl : Bool)
  | addTCPListener (callback : C) (sock : Option ℕ) (bound listening epollCtl : Bool)
  | addTCPClient (callback : C) (sock : Option ℕ) (validIp : Bool) (connect : Connect) (epollCtl : Bool)
  | accept (clientFd : ℕ)
  | epollWait (events : List ℕ)
  | dispatch
  | closeOwn
  | callbackReturns

inductive Event (C : Type)
  | silent
  | added (fd : ℕ) (callback : C)
  | refused
  | accepted (fd : ℕ)
  | called (fd : ℕ) (callback : Option C)
  | closed (fd : ℕ)
  deriving DecidableEq, Repr

variable {C : Type}

/-- `before` are the descriptors that the process has already, that of `epoll` among them. -/
def init (before : Finset ℕ) : State C := ⟨before,∅,List.replicate 1024 none,[],none⟩

/-- `std::vector::resize`. -/
def resize (callbacks : List (Option C)) (n : ℕ) : List (Option C) :=
  callbacks.take n ++ List.replicate (n - callbacks.length) none

namespace State

/-- The kernel forgets a closed descriptor. -/
def close (s : State C) (fd : ℕ) : State C :=
  { s with opened := s.opened.erase fd, interest := s.interest.erase fd }

/-- `none` is a write outside the vector. The product is an `int`: descriptors are taken to be below
`2 ^ 30`. -/
def registerFd (s : State C) (fd : ℕ) (callback : C) (epollCtl : Bool) : Option (Bool × State C) :=
  let fdCallbacks := if s.fdCallbacks.length ≤ fd then resize s.fdCallbacks (fd * 2) else s.fdCallbacks
  if fd < fdCallbacks.length then
    let s := { s with fdCallbacks := fdCallbacks.set fd (some callback) }
    -- the kernel refuses a descriptor that is registered already
    if epollCtl ∧ fd ∉ s.interest then some (true,{ s with interest := insert fd s.interest })
    else some (false,s)
  else none

/-- The common course of the three `add` functions: a socket, some calls on it, and `registerFd`;
whatever fails behind the first step closes the socket. -/
def addSocket (s : State C) (callback : C) (sock : Option ℕ) (calls : List Bool) (epollCtl : Bool) :
    Option (Option ℕ × State C) :=
  match sock with
  | none => some (none,s)
  | some sock =>
    let s := { s with opened := insert sock s.opened }
    if calls.all id then do
      let (registered,s) ← s.registerFd sock callback epollCtl
      if registered then some (some sock,s) else some (none,s.close sock)
    else some (none,s.close sock)

/-- A failure to set `SO_REUSEADDR` is only logged. -/
def addUDPMulticastListener (s : State C) (callback : C) (sock : Option ℕ) (bound joined epollCtl : Bool) :
    Option (Option ℕ × State C) :=
  s.addSocket callback sock [bound,joined] epollCtl

def addTCPListener (s : State C) (callback : C) (sock : Option ℕ) (bound listening epollCtl : Bool) :
    Option (Option ℕ × State C) :=
  s.addSocket callback sock [bound,listening] epollCtl

def addTCPClient (s : State C) (callback : C) (sock : Option ℕ) (validIp : Bool) (connect : Connect)
    (epollCtl : Bool) : Option (Option ℕ × State C) :=
  s.addSocket callback sock [validIp,connect ≠ .failed] epollCtl

/-- A new descriptor is none of the open ones. -/
def Fresh (s : State C) (sock : Option ℕ) : Prop := ∀ fd ∈ sock, fd ∉ s.opened

instance (s : State C) (sock : Option ℕ) : Decidable (s.Fresh sock) := inferInstanceAs (Decidable (∀ _ ∈ sock, _))

end State

/-- What an `add` function returns, as an event. -/
def answer (callback : C) : Option ℕ × State C → Event C × State C
  | (some fd,s) => (.added fd callback,s)
  | (none,s) => (.refused,s)

/-- One step of the thread. Callbacks may add sockets and accept connections, and close their own
descriptor before they return. -/
def step (s : State C) : Action C → Option (Event C × State C)
  | .addUDPMulticastListener callback sock bound joined epollCtl =>
    if s.Fresh sock then (s.addUDPMulticastListener callback sock bound joined epollCtl).map (answer callback) else none
  | .addTCPListener callback sock bound listening epollCtl =>
    if s.Fresh sock then (s.addTCPListener callback sock bound listening epollCtl).map (answer callback) else none
  | .addTCPClient callback sock validIp connect epollCtl =>
    if s.Fresh sock then (s.addTCPClient callback sock validIp connect epollCtl).map (answer callback) else none
  | .accept clientFd =>
    if s.inCallback.isSome ∧ clientFd ∉ s.opened then
      some (.accepted clientFd,{ s with opened := insert clientFd s.opened })
    else none
  | .epollWait events =>
    if s.events = [] ∧ s.inCallback = none ∧ events.Nodup ∧ events.length ≤ 64 ∧ ∀ fd ∈ events, fd ∈ s.interest then
      some (.silent,{ s with events := events })
    else none
  | .dispatch =>
    match s.events, s.inCallback with
    | fd :: events, none =>
      match s.fdCallbacks[fd]?.join with
      | some callback => some (.called fd (some callback),{ s with events := events, inCallback := some fd })
      | none => some (.called fd none,{ s with events := events })
    | _, _ => none
  | .closeOwn =>
    match s.inCallback with
    | some fd => some (.closed fd,{ s.close fd with inCallback := none })
    | none => none
  | .callbackReturns =>
    match s.inCallback with
    | some _ => some (.silent,{ s with inCallback := none })
    | none => none

/-- The map that the loop stands for. -/
def register (m : ℕ → Option C) : Event C → ℕ → Option C
  | .added fd callback => Function.update m fd (some callback)
  | .closed fd => Function.update m fd none
  | _ => m

/-- The callback that came with the socket that a descriptor now is. -/
def registered (es : List (Event C)) : ℕ → Option C := es.foldl register fun _ => none

lemma registered_concat (es : List (Event C)) (e : Event C) : registered (es ++ [e]) = register (registered es) e := by
  simp [registered]

/-- An event finds the callback of its socket, and is not of an accepted connection. -/
def Dispatched (pre : List (Event C)) : Event C → Prop
  | .called fd callback => callback = registered pre fd ∧ callback.isSome ∧ .accepted fd ∉ pre
  | _ => True

variable {s s' : State C} {fd : ℕ} {callback : C} {epollCtl : Bool} {e : Event C} {es : List (Event C)}
  {before : Finset ℕ}

lemma length_resize (callbacks : List (Option C)) (n : ℕ) : (resize callbacks n).length = n := by
  simp only [resize,List.length_append,List.length_take,List.length_replicate]
  omega

lemma getElem?_resize {callbacks : List (Option C)} {n : ℕ} (hn : callbacks.length ≤ n) {i : ℕ} {c : Option C}
    (h : callbacks[i]? = some c) : (resize callbacks n)[i]? = some c := by
  have hi : i < callbacks.length := (List.getElem?_eq_some_iff.mp h).1
  rw [resize,List.take_of_length_le hn,List.getElem?_append_left hi,h]

/-- The vector is long enough after the resize, and the callbacks of other descriptors stay. -/
lemma State.registerFd_spec (hsize : 0 < s.fdCallbacks.length) (fd : ℕ) (callback : C) (epollCtl : Bool) :
    ∃ callbacks : List (Option C), 0 < callbacks.length ∧ callbacks[fd]? = some (some callback) ∧
      (∀ fd' c, fd' ≠ fd → s.fdCallbacks[fd']? = some c → callbacks[fd']? = some c) ∧
      s.registerFd fd callback epollCtl = some (if epollCtl ∧ fd ∉ s.interest then
        (true,{ s with fdCallbacks := callbacks, interest := insert fd s.interest })
        else (false,{ s with fdCallbacks := callbacks })) := by
  let grown := if s.fdCallbacks.length ≤ fd then resize s.fdCallbacks (fd * 2) else s.fdCallbacks
  have hfd : fd < grown.length := by
    simp only [grown]
    split
    · rw [length_resize]
      omega
    · omega
  have hkept : ∀ (fd' : ℕ) (c : Option C), s.fdCallbacks[fd']? = some c → grown[fd']? = some c := by
    intro fd' c h
    simp only [grown]
    split
    · exact getElem?_resize (by omega) h
    · exact h
  refine ⟨grown.set fd (some callback),?_,?_,?_,?_⟩
  · rw [List.length_set]
    omega
  · rw [List.getElem?_set_self hfd]
  · intro fd' c hne h
    rw [List.getElem?_set_ne (Ne.symm hne)]
    exact hkept fd' c h
  · simp only [registerFd]
    rw [if_pos hfd]
    split <;> rfl

/-- An `add` returns. If it fails everything open and registered is as before; else there is one more
socket, which has its callback. The callbacks of open descriptors stay in any case. -/
theorem State.addSocket_spec (hsize : 0 < s.fdCallbacks.length) (hinterest : s.interest ⊆ s.opened) {sock : Option ℕ}
    (hfresh : s.Fresh sock) (callback : C) (calls : List Bool) (epollCtl : Bool) :
    ∃ outcome s', s.addSocket callback sock calls epollCtl = some (outcome,s') ∧ s'.events = s.events ∧
      s'.inCallback = s.inCallback ∧ 0 < s'.fdCallbacks.length ∧
      (∀ fd ∈ s.opened, ∀ c, s.fdCallbacks[fd]? = some c → s'.fdCallbacks[fd]? = some c) ∧
      ((outcome = none ∧ s'.opened = s.opened ∧ s'.interest = s.interest) ∨
        ∃ fd, outcome = some fd ∧ fd ∉ s.opened ∧ s'.opened = insert fd s.opened ∧
          s'.interest = insert fd s.interest ∧ s'.fdCallbacks[fd]? = some (some callback)) := by
  cases sock with
  | none => exact ⟨none,s,rfl,rfl,rfl,hsize,fun _ _ _ h => h,.inl ⟨rfl,rfl,rfl⟩⟩
  | some fd =>
    have hnew : fd ∉ s.opened := hfresh fd rfl
    have hnot : fd ∉ s.interest := fun h => hnew (hinterest h)
    have hopened : (insert fd s.opened).erase fd = s.opened := Finset.erase_insert hnew
    have herase : s.interest.erase fd = s.interest := Finset.erase_eq_of_notMem hnot
    by_cases hcalls : calls.all id = true
    · obtain ⟨callbacks,hpos,hself,hothers,hregister⟩ :=
        registerFd_spec (s := { s with opened := insert fd s.opened }) hsize fd callback epollCtl
      have hkept : ∀ fd' ∈ s.opened, ∀ c : Option C, s.fdCallbacks[fd']? = some c → callbacks[fd']? = some c :=
        fun fd' hfd' c h => hothers fd' c (fun heq => hnew (heq ▸ hfd')) h
      cases epollCtl with
      | true =>
        refine ⟨some fd,{ s with opened := insert fd s.opened, interest := insert fd s.interest, fdCallbacks := callbacks },
          ?_,rfl,rfl,hpos,hkept,.inr ⟨fd,rfl,hnew,rfl,rfl,hself⟩⟩
        simp [addSocket,hcalls,hregister,hnot]
      | false =>
        refine ⟨none,{ s with fdCallbacks := callbacks },?_,rfl,rfl,hpos,hkept,.inl ⟨rfl,rfl,rfl⟩⟩
        simp [addSocket,hcalls,hregister,close,hopened,herase]
    · refine ⟨none,s,?_,rfl,rfl,hsize,fun _ _ _ h => h,.inl ⟨rfl,rfl,rfl⟩⟩
      simp only [addSocket,if_neg hcalls,close,hopened,herase]

/-- How vector and kernel stand to the map: registered descriptors are those of interest and have
their callbacks, and open ones are registered, accepted, or from before. -/
structure Agrees (before : Finset ℕ) (es : List (Event C)) (s : State C) : Prop where
  interest : ∀ fd, fd ∈ s.interest ↔ (registered es fd).isSome
  callbacks : ∀ fd callback, registered es fd = some callback → s.fdCallbacks[fd]? = some (some callback)
  opened : ∀ fd, fd ∈ s.opened ↔ fd ∈ before ∨ (registered es fd).isSome ∨ .accepted fd ∈ es
  apart : ∀ fd, fd ∈ before ∨ .accepted fd ∈ es → registered es fd = none
  size : 0 < s.fdCallbacks.length
  nodup : s.events.Nodup
  events : ∀ fd ∈ s.events, fd ∈ s.interest ∧ s.inCallback ≠ some fd
  inCallback : ∀ fd ∈ s.inCallback, fd ∈ s.interest
  dispatched : ∀ pre e post, es = pre ++ e :: post → Dispatched pre e

lemma agrees_init (before : Finset ℕ) : Agrees before [] (init before : State C) where
  interest fd := ⟨fun h => absurd h (Finset.notMem_empty fd),fun h => absurd h Bool.false_ne_true⟩
  callbacks _ _ h := absurd h (Option.some_ne_none _).symm
  opened fd := by simp [registered,show (init before : State C).opened = before from rfl]
  apart _ _ := rfl
  size := Nat.lt_of_lt_of_eq (by decide) List.length_replicate.symm
  nodup := List.nodup_nil
  events _ h := absurd h List.not_mem_nil
  inCallback _ h := absurd h (Option.some_ne_none _).symm
  dispatched := by simp

namespace Agrees

lemma interest_subset (h : Agrees before es s) : s.interest ⊆ s.opened :=
  fun fd hfd => (h.opened fd).mpr (.inr (.inl ((h.interest fd).mp hfd)))

lemma dispatched_concat (h : Agrees before es s) (he : Dispatched es e) :
    ∀ pre e' post, es ++ [e] = pre ++ e' :: post → Dispatched pre e' := by
  intro pre e' post hsplit
  rcases List.eq_nil_or_concat' post with rfl | ⟨post,last,rfl⟩
  · obtain ⟨rfl,hlast⟩ := List.append_inj' hsplit rfl
    obtain rfl := List.singleton_inj.mp hlast
    exact he
  · rw [← List.cons_append,← List.append_assoc] at hsplit
    exact h.dispatched pre e' post (List.append_inj' hsplit rfl).1

lemma frame (h : Agrees before es s) (he : ∀ m : ℕ → Option C, register m e = m) (hnot : ∀ fd, e ≠ .accepted fd)
    (hdispatched : Dispatched es e) {events : List ℕ} {inCallback : Option ℕ} (hnodup : events.Nodup)
    (hevents : ∀ fd ∈ events, fd ∈ s.interest ∧ inCallback ≠ some fd)
    (hinCallback : ∀ fd ∈ inCallback, fd ∈ s.interest) :
    Agrees before (es ++ [e]) { s with events := events, inCallback := inCallback } := by
  have hsame : registered (es ++ [e]) = registered es := by rw [registered_concat,he]
  have hmem : ∀ fd, .accepted fd ∈ es ++ [e] ↔ .accepted fd ∈ es := by
    intro fd
    simp [(hnot fd).symm]
  refine ⟨?_,?_,?_,?_,h.size,hnodup,hevents,hinCallback,h.dispatched_concat hdispatched⟩
  · rw [hsame]
    exact h.interest
  · rw [hsame]
    exact h.callbacks
  · simp only [hsame,hmem]
    exact h.opened
  · simp only [hsame,hmem]
    exact h.apart

lemma add (h : Agrees before es s) {sock : Option ℕ} (hfresh : s.Fresh sock) {calls : List Bool}
    (hadd : (s.addSocket callback sock calls epollCtl).map (answer callback) = some (e,s')) :
    Agrees before (es ++ [e]) s' := by
  obtain ⟨outcome,t,hspec,hevents,hinCallback,hsize,hkept,houtcome⟩ :=
    State.addSocket_spec h.size h.interest_subset hfresh callback calls epollCtl
  rw [hspec,Option.map_some] at hadd
  have hanswer := Option.some.inj hadd
  have hcallbacks : ∀ fd callback, registered es fd = some callback → t.fdCallbacks[fd]? = some (some callback) := by
    intro fd callback hfd
    refine hkept fd ?_ _ (h.callbacks fd callback hfd)
    exact (h.opened fd).mpr (.inr (.inl (by rw [hfd]; rfl)))
  rcases houtcome with ⟨rfl,hopened,hinterest⟩ | ⟨fd,rfl,hnew,hopened,hinterest,hself⟩
  · obtain ⟨rfl,rfl⟩ := Prod.mk.inj hanswer
    have hsame : registered (es ++ [Event.refused]) = registered es := registered_concat ..
    refine ⟨?_,?_,?_,?_,hsize,hevents ▸ h.nodup,?_,?_,h.dispatched_concat trivial⟩
    · rw [hsame,hinterest]
      exact h.interest
    · rw [hsame]
      exact hcallbacks
    · simpa [hsame,hopened] using h.opened
    · simpa [hsame] using h.apart
    · rw [hevents,hinterest,hinCallback]
      exact h.events
    · rw [hinCallback,hinterest]
      exact h.inCallback
  · obtain ⟨rfl,rfl⟩ := Prod.mk.inj hanswer
    have hregister : registered (es ++ [.added fd callback]) = Function.update (registered es) fd (some callback) :=
      registered_concat ..
    obtain ⟨hnotBefore,hnotRegistered,hnotAccepted⟩ : fd ∉ before ∧ ¬ (registered es fd).isSome ∧ .accepted fd ∉ es := by
      simpa [h.opened fd] using hnew
    refine ⟨?_,?_,?_,?_,hsize,hevents ▸ h.nodup,?_,?_,h.dispatched_concat trivial⟩
    · intro fd'
      rw [hregister,hinterest,Finset.mem_insert,h.interest]
      by_cases heq : fd' = fd
      · simp [heq]
      · simp [heq]
    · intro fd' callback' hfd'
      rw [hregister] at hfd'
      by_cases heq : fd' = fd
      · subst heq
        rw [Function.update_self] at hfd'
        rw [hself,hfd']
      · rw [Function.update_of_ne heq] at hfd'
        exact hcallbacks fd' callback' hfd'
    · intro fd'
      rw [hregister,hopened,Finset.mem_insert,h.opened]
      by_cases heq : fd' = fd
      · simp [heq]
      · simp [heq]
    · intro fd' hfd'
      have hold : fd' ∈ before ∨ .accepted fd' ∈ es := by simpa using hfd'
      have hne : fd' ≠ fd := by
        rintro rfl
        exact hold.elim hnotBefore hnotAccepted
      rw [hregister,Function.update_of_ne hne]
      exact h.apart fd' hold
    · rw [hevents,hinterest,hinCallback]
      exact fun fd' hfd' => ⟨Finset.mem_insert_of_mem (h.events fd' hfd').1,(h.events fd' hfd').2⟩
    · rw [hinCallback,hinterest]
      exact fun fd' hfd' => Finset.mem_insert_of_mem (h.inCallback fd' hfd')

lemma accept (h : Agrees before es s) (hnew : fd ∉ s.opened) :
    Agrees before (es ++ [.accepted fd]) { s with opened := insert fd s.opened } := by
  have hsame : registered (es ++ [.accepted fd]) = registered es := registered_concat ..
  obtain ⟨hnotBefore,hnotRegistered,hnotAccepted⟩ : fd ∉ before ∧ ¬ (registered es fd).isSome ∧ .accepted fd ∉ es := by
    simpa [h.opened fd] using hnew
  refine ⟨?_,?_,?_,?_,h.size,h.nodup,h.events,h.inCallback,h.dispatched_concat trivial⟩
  · rw [hsame]
    exact h.interest
  · rw [hsame]
    exact h.callbacks
  · intro fd'
    rw [hsame,Finset.mem_insert,h.opened]
    simp only [List.mem_append,List.mem_singleton,Event.accepted.injEq]
    tauto
  · intro fd' hfd'
    rw [hsame]
    by_cases heq : fd' = fd
    · rw [heq]
      simpa using hnotRegistered
    · exact h.apart fd' (by simpa [heq] using hfd')

lemma closeOwn (h : Agrees before es s) (hfd : s.inCallback = some fd) :
    Agrees before (es ++ [.closed fd]) { s.close fd with inCallback := none } := by
  have hregister : registered (es ++ [.closed fd]) = Function.update (registered es) fd none := registered_concat ..
  have hsome := (h.interest fd).mp (h.inCallback fd hfd)
  have hnot : ¬ (fd ∈ before ∨ .accepted fd ∈ es) := by
    intro hold
    rw [h.apart fd hold] at hsome
    contradiction
  refine ⟨?_,?_,?_,?_,h.size,h.nodup,?_,by simp,h.dispatched_concat trivial⟩
  · intro fd'
    rw [hregister,State.close,Finset.mem_erase,h.interest]
    by_cases heq : fd' = fd
    · simp [heq]
    · simp [heq]
  · intro fd' callback hfd'
    rw [hregister] at hfd'
    by_cases heq : fd' = fd
    · rw [heq,Function.update_self] at hfd'
      contradiction
    · rw [Function.update_of_ne heq] at hfd'
      exact h.callbacks fd' callback hfd'
  · intro fd'
    rw [hregister,State.close,Finset.mem_erase,h.opened]
    by_cases heq : fd' = fd
    · subst heq
      simpa using hnot
    · simp [heq]
  · intro fd' hfd'
    have hold : fd' ∈ before ∨ .accepted fd' ∈ es := by simpa using hfd'
    rw [hregister]
    by_cases heq : fd' = fd
    · rw [heq,Function.update_self]
    · rw [Function.update_of_ne heq]
      exact h.apart fd' hold
  · intro fd' hfd'
    obtain ⟨hinterest,hne⟩ := h.events fd' hfd'
    rw [hfd] at hne
    exact ⟨Finset.mem_erase.mpr ⟨fun heq => hne (by rw [heq]),hinterest⟩,by simp⟩

theorem step {a : Action C} (h : Agrees before es s) (hstep : EventRegistry.step s a = some (e,s')) :
    Agrees before (es ++ [e]) s' := by
  cases a with
  | addUDPMulticastListener callback sock bound joined epollCtl =>
    simp only [EventRegistry.step] at hstep
    split at hstep
    · exact h.add ‹_› hstep
    · contradiction
  | addTCPListener callback sock bound listening epollCtl =>
    simp only [EventRegistry.step] at hstep
    split at hstep
    · exact h.add ‹_› hstep
    · contradiction
  | addTCPClient callback sock validIp connect epollCtl =>
    simp only [EventRegistry.step] at hstep
    split at hstep
    · exact h.add ‹_› hstep
    · contradiction
  | accept clientFd =>
    simp only [EventRegistry.step] at hstep
    split at hstep
    · rename_i henabled
      obtain ⟨rfl,rfl⟩ := Prod.mk.inj (Option.some.inj hstep)
      exact h.accept henabled.2
    · contradiction
  | epollWait events =>
    simp only [EventRegistry.step] at hstep
    split at hstep
    · rename_i henabled
      obtain ⟨_,hidle,hnodup,_,hinterest⟩ := henabled
      obtain ⟨rfl,rfl⟩ := Prod.mk.inj (Option.some.inj hstep)
      have hnext : Agrees before (es ++ [.silent]) { s with events := events, inCallback := none } :=
        h.frame (e := .silent) (fun _ => rfl) (by simp) trivial hnodup
          (fun fd hfd => ⟨hinterest fd hfd,by simp⟩) (by simp)
      rwa [← hidle] at hnext
    · contradiction
  | dispatch =>
    simp only [EventRegistry.step] at hstep
    split at hstep
    · rename_i fd events hevents hidle
      have hfd : fd ∈ s.interest := (h.events fd (by rw [hevents]; exact List.mem_cons_self)).1
      obtain ⟨callback,hcallback⟩ := Option.isSome_iff_exists.mp ((h.interest fd).mp hfd)
      have hvector : s.fdCallbacks[fd]?.join = some callback := by
        rw [h.callbacks fd callback hcallback]
        rfl
      have hnodup := h.nodup
      rw [hevents,List.nodup_cons] at hnodup
      rw [hvector] at hstep
      obtain ⟨rfl,rfl⟩ := Prod.mk.inj (Option.some.inj hstep)
      refine h.frame (e := .called fd (some callback)) (fun _ => rfl) (by simp)
        ⟨hcallback.symm,rfl,fun haccepted => ?_⟩ hnodup.2 ?_ ?_
      · rw [h.apart fd (.inr haccepted)] at hcallback
        contradiction
      · intro fd' hfd'
        refine ⟨(h.events fd' (by rw [hevents]; exact List.mem_cons_of_mem _ hfd')).1,fun heq => ?_⟩
        rw [Option.some.inj heq] at hnodup
        exact hnodup.1 hfd'
      · intro fd' hfd'
        rwa [← Option.some.inj hfd']
    · contradiction
  | closeOwn =>
    simp only [EventRegistry.step] at hstep
    split at hstep
    · rename_i fd hfd
      obtain ⟨rfl,rfl⟩ := Prod.mk.inj (Option.some.inj hstep)
      exact h.closeOwn hfd
    · contradiction
  | callbackReturns =>
    simp only [EventRegistry.step] at hstep
    split at hstep
    · obtain ⟨rfl,rfl⟩ := Prod.mk.inj (Option.some.inj hstep)
      exact h.frame (e := .silent) (fun _ => rfl) (by simp) trivial h.nodup
        (fun fd hfd => ⟨(h.events fd hfd).1,by simp⟩) (by simp)
    · contradiction

end Agrees

/-- In every run each event calls the callback that came with the socket; what is open is what was
open before, what is registered and what was accepted; and an accepted connection stays open and is
never read. -/
theorem run_dispatches_registered (before : Finset ℕ) (actions : List (Action C)) (es : List (Event C)) (s : State C)
    (hrun : run step (init before) actions = some (es,s)) :
    (∀ pre fd callback post, es = pre ++ .called fd callback :: post →
      callback = registered pre fd ∧ callback.isSome) ∧
    (∀ fd, fd ∈ s.opened ↔ fd ∈ before ∨ (registered es fd).isSome ∨ .accepted fd ∈ es) ∧
    (∀ pre fd post, es = pre ++ .accepted fd :: post →
      fd ∈ s.opened ∧ ∀ callback, .called fd callback ∉ post) ∧
    ∀ sock, s.Fresh sock → ∀ callback calls epollCtl, (s.addSocket callback sock calls epollCtl).isSome := by
  have h : Agrees before es s := run_history_invariant (I := Agrees before)
    (fun es s a e s' hI hstep => hI.step hstep) (agrees_init before) hrun
  refine ⟨?_,h.opened,?_,?_⟩
  · intro pre fd callback post hes
    obtain ⟨hcallback,hsome,_⟩ := h.dispatched pre _ post hes
    exact ⟨hcallback,hsome⟩
  · rintro pre fd post rfl
    refine ⟨(h.opened fd).mpr (.inr (.inr (by simp))),fun callback hmem => ?_⟩
    obtain ⟨between,rest,rfl⟩ := List.mem_iff_append.mp hmem
    have hdispatched := h.dispatched (pre ++ .accepted fd :: between) (.called fd callback) rest (by simp)
    exact hdispatched.2.2 (by simp)
  · intro sock hfresh callback calls epollCtl
    obtain ⟨_,_,hadd,_⟩ := State.addSocket_spec h.size h.interest_subset hfresh callback calls epollCtl
    rw [hadd]
    rfl

/-- The emulator with two clients: a listener accepts 6 and adds the socket 7, whose callback closes it;
the next connection gets the number 7 again. Both connections stay open and neither is read. -/
theorem run_dispatches_registered_two_clients :
    let accept (clientFd : ℕ) (sock : Option ℕ) : List (Action String) :=
      [.epollWait [5],.dispatch,.accept clientFd,.addTCPClient "client" sock true .inProgress true,.callbackReturns]
    ∃ s, run step (init {3}) (.addTCPListener "listener" (some 5) true true true :: accept 6 (some 7) ++
        [.epollWait [7],.dispatch,.closeOwn] ++ accept 7 none) =
      some ([.added 5 "listener",.silent,.called 5 (some "listener"),.accepted 6,.added 7 "client",.silent,
        .silent,.called 7 (some "client"),.closed 7,
        .silent,.called 5 (some "listener"),.accepted 7,.refused,.silent],s) ∧
      6 ∈ s.opened ∧ 7 ∈ s.opened := by
  intro accept
  refine run_exists_of_answers (by decide +kernel) fun s hrun => ?_
  obtain ⟨_,_,haccepted,_⟩ := run_dispatches_registered _ _ _ _ hrun
  exact ⟨(haccepted [.added 5 "listener",.silent,.called 5 (some "listener")] 6 _ rfl).1,
    (haccepted [.added 5 "listener",.silent,.called 5 (some "listener"),.accepted 6,.added 7 "client",.silent,
      .silent,.called 7 (some "client"),.closed 7,.silent,.called 5 (some "listener")] 7 _ rfl).1⟩

end TickToTrade.EventRegistry
