import Mathlib.Data.List.Basic
import Mathlib.Data.Int.Order.Basic

/-! The TCP gateway over the kernel's `send`. The kernel may take any nonempty part of what it is
offered, or fail; the gateway offers the rest until all is taken and gives up at the first error. -/
namespace TickToTrade

/-- Results of the kernel's `send`, by the number of the call and the bytes requested: `none` for
an error, else how many bytes were taken. -/
structure KernelSend where
  result : ℕ → ℕ → Option ℕ
  bounded : ∀ n requested count, result n requested = some count → 1 ≤ count ∧ count ≤ requested

/-- The kernel takes all requested bytes without an error, starting with its call `n`. -/
inductive KernelSend.Accepts (kernel : KernelSend) : ℕ → ℕ → Prop
  | done (n) : Accepts kernel n 0
  | part {n requested count} (taken : kernel.result n requested = some count)
      (rest : Accepts kernel (n + 1) (requested - count)) : Accepts kernel n requested

namespace KernelSend
variable {kernel : KernelSend} {n requested count : ℕ}

lemma accepts_iff_of_taken (taken : kernel.result n requested = some count) :
    kernel.Accepts n requested ↔ kernel.Accepts (n + 1) (requested - count) := by
  constructor
  · intro h
    cases h with
    | done =>
      have := kernel.bounded _ _ _ taken
      omega
    | part taken' rest =>
      obtain rfl := Option.some.inj (taken.symm.trans taken')
      exact rest
  · exact .part taken

lemma not_accepts_of_error (error : kernel.result n requested = none) (hpos : 0 < requested) :
    ¬ kernel.Accepts n requested := by
  intro h
  cases h with
  | done => omega
  | part taken rest =>
    rw [error] at taken
    contradiction

/-- The kernel of a socket with room for everything. -/
def takesAll : KernelSend where
  result _ requested := if requested = 0 then none else some requested
  bounded := by
    intro n requested count h
    split at h
    · contradiction
    · obtain rfl := Option.some.inj h
      omega

lemma takesAll_accepts (n : ℕ) {requested : ℕ} (hpos : 0 < requested) :
    takesAll.Accepts n requested := by
  have taken : takesAll.result n requested = some requested := if_neg (by omega)
  refine .part taken ?_
  rw [Nat.sub_self]
  exact .done (n + 1)

end KernelSend

/-- What the gateway has caused so far: calls of the kernel, and bytes the socket has taken. -/
structure TCPEgressGateway where
  kernelCalls : ℕ
  accepted : List UInt8
  deriving DecidableEq, Repr

namespace TCPEgressGateway

def init : TCPEgressGateway := ⟨0,[]⟩

/-- The loop of `send` while `rest` is left; `none` when the fuel is used up. -/
def sendLoop (kernel : KernelSend) : ℕ → TCPEgressGateway → List UInt8 → Option (Bool × TCPEgressGateway)
  | _, g, [] => some (true,g)
  | 0, _, _ :: _ => none
  | fuel+1, g, byte :: rest =>
    match kernel.result g.kernelCalls (byte :: rest).length with
    | none => some (false,{ g with kernelCalls := g.kernelCalls + 1 })
    | some count =>
      sendLoop kernel fuel ⟨g.kernelCalls + 1,g.accepted ++ (byte :: rest).take count⟩
        ((byte :: rest).drop count)

/-- `send` on the descriptor that `setSocketFd` has last stored. -/
def send (kernel : KernelSend) (g : TCPEgressGateway) (fd : ℤ) (buffer : List UInt8) :
    Option (Bool × TCPEgressGateway) :=
  if fd < 0 then some (false,g) else sendLoop kernel buffer.length g buffer

variable {kernel : KernelSend}

/-- The loop ends: all of the rest is taken and `Accepts` holds, or a proper part of it is taken
and `Accepts` fails. -/
theorem sendLoop_spec (kernel : KernelSend) (fuel : ℕ) (g : TCPEgressGateway) (rest : List UInt8)
    (hfuel : rest.length ≤ fuel) :
    ∃ ok g' k, sendLoop kernel fuel g rest = some (ok,g') ∧ g'.accepted = g.accepted ++ rest.take k ∧
      k ≤ rest.length ∧ (ok = true ↔ k = rest.length) ∧
      (k = rest.length ↔ kernel.Accepts g.kernelCalls rest.length) := by
  induction fuel generalizing g rest with
  | zero =>
    obtain rfl : rest = [] := List.length_eq_zero_iff.mp (Nat.le_zero.mp hfuel)
    exact ⟨true,g,0,rfl,by simp,Nat.le_refl 0,by simp,by simp [KernelSend.Accepts.done]⟩
  | succ fuel ih =>
    cases rest with
    | nil => exact ⟨true,g,0,by rw [sendLoop],by simp,Nat.le_refl 0,by simp,by simp [KernelSend.Accepts.done]⟩
    | cons byte rest =>
      cases hresult : kernel.result g.kernelCalls (byte :: rest).length with
      | none =>
        have hnot := KernelSend.not_accepts_of_error hresult (by simp)
        exact ⟨false,_,0,by rw [sendLoop,hresult],by simp,by simp,by simp,by simpa using hnot⟩
      | some count =>
        obtain ⟨hpos,hle⟩ := kernel.bounded _ _ _ hresult
        obtain ⟨ok,g',k,hloop,haccepted,hk,hok,hiff⟩ :=
          ih ⟨g.kernelCalls + 1,g.accepted ++ (byte :: rest).take count⟩ ((byte :: rest).drop count)
            (by rw [List.length_drop]; omega)
        rw [List.length_drop] at hk hok hiff
        have hsum : count + k = (byte :: rest).length ↔ k = (byte :: rest).length - count := by omega
        refine ⟨ok,g',count + k,?_,?_,by omega,?_,?_⟩
        · rw [sendLoop,hresult]
          exact hloop
        · rw [haccepted,List.append_assoc,← List.take_add]
        · rw [hok,hsum]
        · rw [hsum,hiff,KernelSend.accepts_iff_of_taken hresult]

/-- `send` returns, and the socket has taken the whole buffer exactly when there is a descriptor
and the kernel makes no error before the end of the buffer. -/
theorem send_spec (kernel : KernelSend) (g : TCPEgressGateway) (fd : ℤ) (buffer : List UInt8)
    (hbuffer : buffer ≠ []) :
    ∃ ok g' k, g.send kernel fd buffer = some (ok,g') ∧ g'.accepted = g.accepted ++ buffer.take k ∧
      k ≤ buffer.length ∧ (ok = true ↔ k = buffer.length) ∧
      (k = buffer.length ↔ 0 ≤ fd ∧ kernel.Accepts g.kernelCalls buffer.length) := by
  unfold send
  split
  · rename_i hfd
    have hlen := List.length_pos_iff.mpr hbuffer
    refine ⟨false,g,0,rfl,by simp,Nat.zero_le _,?_,?_⟩
    · simp only [Bool.false_eq_true,false_iff]
      omega
    · constructor
      · intro h
        omega
      · rintro ⟨h,_⟩
        omega
  · rename_i hfd
    obtain ⟨ok,g',k,hloop,haccepted,hk,hok,hiff⟩ := sendLoop_spec kernel buffer.length g buffer (Nat.le_refl _)
    refine ⟨ok,g',k,hloop,haccepted,hk,hok,?_⟩
    rw [hiff]
    exact ⟨fun h => ⟨by omega,h⟩,fun h => h.2⟩

end TCPEgressGateway
end TickToTrade
