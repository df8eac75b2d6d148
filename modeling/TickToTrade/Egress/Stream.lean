import TickToTrade.Egress.Gateway
import TickToTrade.Library.Run

/-! The byte stream of the gateway over many calls. A call that fails after the kernel has taken a
part of its buffer leaves that part in the stream, and every later message stands behind it. -/
namespace TickToTrade.TCPEgressGateway

structure SendCall where
  fd : ℤ
  buffer : List UInt8
  deriving DecidableEq, Repr

def call (kernel : KernelSend) (g : TCPEgressGateway) (c : SendCall) : Option (Bool × TCPEgressGateway) :=
  g.send kernel c.fd c.buffer

/-- The buffers of the calls that returned true, one after another. -/
def wholeBuffers (calls : List SendCall) (answers : List Bool) : List UInt8 :=
  (calls.zip answers).flatMap fun (c,ok) => if ok then c.buffer else []

/-- Nothing of the buffer can be left behind: there is no descriptor, the kernel refuses the buffer
at once, or it takes all of it. -/
def WholeOrNothing (kernel : KernelSend) (g : TCPEgressGateway) (c : SendCall) : Prop :=
  c.fd < 0 ∨ kernel.result g.kernelCalls c.buffer.length = none ∨ kernel.Accepts g.kernelCalls c.buffer.length

/-- After any number of the calls the socket has taken exactly the buffers of the calls that
returned true, and a call that returned false has added nothing. -/
def StreamIntact (kernel : KernelSend) (calls : List SendCall) : Prop :=
  (∀ pre post, calls = pre ++ post → ∃ answers g,
    run (call kernel) init pre = some (answers,g) ∧ g.accepted = wholeBuffers pre answers) ∧
  ∀ pre c post, calls = pre ++ c :: post → ∀ answers g, run (call kernel) init pre = some (answers,g) →
    ∀ g', g.call kernel c = some (false,g') → g'.accepted = g.accepted

variable {kernel : KernelSend} {g g' : TCPEgressGateway} {c : SendCall} {ok : Bool}

lemma wholeBuffers_append {calls calls' : List SendCall} {answers answers' : List Bool}
    (h : answers.length = calls.length) : wholeBuffers (calls ++ calls') (answers ++ answers') =
      wholeBuffers calls answers ++ wholeBuffers calls' answers' := by
  rw [wholeBuffers,List.zip_append h.symm,List.flatMap_append]
  rfl

lemma wholeBuffers_singleton (c : SendCall) (ok : Bool) : wholeBuffers [c] [ok] = if ok then c.buffer else [] := by
  simp [wholeBuffers]

lemma call_isSome (kernel : KernelSend) (g : TCPEgressGateway) (c : SendCall) : (g.call kernel c).isSome := by
  unfold call send
  split
  · rfl
  · obtain ⟨ok,g',k,hloop,_⟩ := sendLoop_spec kernel c.buffer.length g c.buffer (Nat.le_refl _)
    rw [hloop]
    rfl

/-- The loop has added nothing exactly when the kernel's first answer was an error. -/
lemma sendLoop_adds_nothing_iff {fuel : ℕ} {byte : UInt8} {rest : List UInt8}
    (hfuel : (byte :: rest).length ≤ fuel) (hloop : sendLoop kernel fuel g (byte :: rest) = some (ok,g')) :
    g'.accepted = g.accepted ↔ kernel.result g.kernelCalls (byte :: rest).length = none := by
  cases fuel with
  | zero => simp at hfuel
  | succ fuel =>
    rw [sendLoop] at hloop
    cases hresult : kernel.result g.kernelCalls (byte :: rest).length with
    | none =>
      rw [hresult] at hloop
      obtain ⟨rfl,rfl⟩ := Prod.mk.inj (Option.some.inj hloop)
      simp
    | some count =>
      rw [hresult] at hloop
      obtain ⟨hpos,hle⟩ := kernel.bounded _ _ _ hresult
      have hspec := sendLoop_spec kernel fuel ⟨g.kernelCalls + 1,g.accepted ++ (byte :: rest).take count⟩
        ((byte :: rest).drop count) (by rw [List.length_drop]; omega)
      obtain ⟨ok',g'',k,hloop',haccepted,_⟩ := hspec
      obtain ⟨rfl,rfl⟩ := Prod.mk.inj (Option.some.inj (hloop.symm.trans hloop'))
      simp only [reduceCtorEq,iff_false]
      intro hsame
      have hlength := congrArg List.length (haccepted.symm.trans hsame)
      simp only [List.length_append,List.length_take] at hlength
      omega

theorem call_whole_iff (hcall : g.call kernel c = some (ok,g')) :
    (g'.accepted = g.accepted ++ if ok then c.buffer else []) ↔ WholeOrNothing kernel g c := by
  unfold call send at hcall
  unfold WholeOrNothing
  split at hcall
  · rename_i hfd
    obtain ⟨rfl,rfl⟩ := Prod.mk.inj (Option.some.inj hcall)
    simp [hfd]
  · rename_i hfd
    have hspec := sendLoop_spec kernel c.buffer.length g c.buffer (Nat.le_refl _)
    obtain ⟨ok',g'',k,hloop,haccepted,hk,hok,haccepts⟩ := hspec
    obtain ⟨rfl,rfl⟩ := Prod.mk.inj (Option.some.inj (hcall.symm.trans hloop))
    cases ok with
    | true =>
      have hall := hok.mp rfl
      simp [haccepted,hall,haccepts.mp hall]
    | false =>
      have hnot : ¬ kernel.Accepts g.kernelCalls c.buffer.length := by
        intro h
        exact Bool.false_ne_true (hok.mpr (haccepts.mpr h))
      simp only [Bool.false_eq_true,if_false,List.append_nil,hfd,hnot,or_false,false_or]
      cases hbuffer : c.buffer with
      | nil =>
        rw [hbuffer] at hnot
        exact absurd (.done _) hnot
      | cons byte rest =>
        rw [hbuffer] at hcall
        exact sendLoop_adds_nothing_iff (Nat.le_refl _) hcall

/-- The stream stays whole exactly when every call sends its whole buffer or nothing of it. -/
theorem run_streamIntact_iff (kernel : KernelSend) (calls : List SendCall) :
    StreamIntact kernel calls ↔ ∀ pre c post, calls = pre ++ c :: post →
      ∀ answers g, run (call kernel) init pre = some (answers,g) → WholeOrNothing kernel g c := by
  constructor
  · rintro ⟨hintact,_⟩ pre c post hcalls answers g hrun
    obtain ⟨⟨ok,g'⟩,hcall⟩ := Option.isSome_iff_exists.mp (call_isSome kernel g c)
    rw [← call_whole_iff hcall]
    obtain ⟨answers₁,g₁,hrun₁,hbefore⟩ := hintact pre (c :: post) hcalls
    obtain ⟨rfl,rfl⟩ := Prod.mk.inj (Option.some.inj (hrun.symm.trans hrun₁))
    obtain ⟨answers₂,g₂,hrun₂,hafter⟩ := hintact (pre ++ [c]) post (by simp [hcalls])
    obtain ⟨rfl,rfl⟩ := Prod.mk.inj (Option.some.inj ((run_concat hrun hcall).symm.trans hrun₂))
    rw [hafter,wholeBuffers_append (run_length hrun),wholeBuffers_singleton,hbefore]
  · intro hwhole
    refine ⟨?_,fun pre c post hcalls answers g hrun g' hcall => ?_⟩
    · rintro pre post rfl
      have hreturns : (run (call kernel) init pre).isSome :=
        run_isSome_iff.mpr fun _ a _ _ _ u _ => call_isSome kernel u a
      obtain ⟨⟨answers,g⟩,hrun⟩ := Option.isSome_iff_exists.mp hreturns
      refine ⟨answers,g,hrun,run_induction (I := fun as rs u => u.accepted = wholeBuffers as rs) rfl ?_ hrun⟩
      rintro pre' c post' answers' u ok u' rfl hpre hI hcall
      rw [(call_whole_iff hcall).mpr (hwhole pre' c (post' ++ post) (by simp) answers' u hpre),
        wholeBuffers_append (run_length hpre),wholeBuffers_singleton,hI]
    · simpa using (call_whole_iff hcall).mpr (hwhole pre c post hcalls answers g hrun)

/-- A socket with room for one more byte that is drained after the error. -/
def nearlyFull : KernelSend where
  result n requested := if n = 0 then (if requested = 0 then none else some 1)
    else if n = 1 ∨ requested = 0 then none else some requested
  bounded := by
    intro n requested count h
    split at h
    · split at h
      · contradiction
      · obtain rfl := Option.some.inj h
        omega
    · split at h
      · contradiction
      · obtain rfl := Option.some.inj h
        omega

/-- The first message is torn after one byte and the second follows it. -/
theorem torn_message_stays_in_stream :
    run (call nearlyFull) init [⟨3,[79,49,50]⟩,⟨3,[79,51,52]⟩] = some ([false,true],⟨3,[79,79,51,52]⟩) ∧
    ¬ StreamIntact nearlyFull [⟨3,[79,49,50]⟩,⟨3,[79,51,52]⟩] := by
  refine ⟨rfl,fun ⟨hintact,_⟩ => ?_⟩
  obtain ⟨answers,g,hrun,haccepted⟩ := hintact [⟨3,[79,49,50]⟩,⟨3,[79,51,52]⟩] [] rfl
  obtain ⟨rfl,rfl⟩ : [false,true] = answers ∧ (⟨3,[79,79,51,52]⟩ : TCPEgressGateway) = g :=
    Prod.mk.inj (Option.some.inj hrun)
  revert haccepted
  decide

end TickToTrade.TCPEgressGateway
