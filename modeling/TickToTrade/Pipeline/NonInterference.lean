import Mathlib.Data.List.ReduceOption
import TickToTrade.Pipeline.Threads

/-! Schedules, stack contents and the socket do not influence trading. A message is compared with
the fields that its type does not carry cleared; in every run the messages consumed, popped, in the
ring and in the callback are, in this order, those of the datagrams received so far. -/
namespace TickToTrade
open Bytes Itch SPSCQueue

/-- The book switch of `Main` reads of a message what its type carries. -/
lemma mainDispatch_canonical (lob : LimitOrderBook) (msg : InternalMessage) :
    mainDispatch lob msg.canonical = mainDispatch lob msg := by
  by_cases hA : msg.type = 'A'.toUInt8
  · rw [msg.canonical_of_add hA]
  · by_cases hD : msg.type = 'D'.toUInt8
    · rw [mainDispatch,mainDispatch,msg.canonical_type,if_neg hA,if_neg hA,if_pos hD,if_pos hD,msg.canonical_id]
    · simp [mainDispatch,hA,hD,msg.canonical_quantity hD]

namespace Main

variable {kernel kernel' : KernelSend} {deviates : UInt32 → UInt32 → Bool} {start : Trading}

/-- What can be seen of trading: the book, the EMS and its order ids, the position, the strategies
with their flags, and the buffers handed to the gateway. -/
structure Trading.Agrees (t u : Trading) : Prop where
  lob : t.lob = u.lob
  strategyEngine : t.strategyEngine.SameTrading u.strategyEngine
  strategies : t.strategies = u.strategies
  handed : t.handed = u.handed

lemma Trading.Agrees.refl (t : Trading) : t.Agrees t := ⟨rfl,⟨rfl,rfl,rfl⟩,rfl,rfl⟩

lemma Trading.update_canonical (kernel : KernelSend) (deviates : UInt32 → UInt32 → Bool) (site : ℕ → CallSite)
    (t : Trading) (msg : InternalMessage) :
    t.update kernel deviates site msg.canonical = t.update kernel deviates site msg := by
  simp only [Trading.update,mainDispatch_canonical,StrategyEngine.onMarketDataUpdate_canonical]

/-- Two messages that carry the same have the same effect, whatever the socket and the stack. -/
theorem Trading.Agrees.update {t t' u u' : Trading} {site site' : ℕ → CallSite} {msg msg' : InternalMessage}
    (h : t.Agrees u) (hmsg : msg.canonical = msg'.canonical)
    (ht : t.update kernel deviates site msg = some t') (hu : u.update kernel' deviates site' msg' = some u') :
    t'.Agrees u' := by
  rw [← Trading.update_canonical,hmsg] at ht
  rw [← Trading.update_canonical] at hu
  obtain ⟨lob,hlob,ht⟩ := Option.bind_eq_some_iff.mp ht
  obtain ⟨lob',hlob',hu⟩ := Option.bind_eq_some_iff.mp hu
  obtain ⟨⟨handed,strategies,engine⟩,hengine,ht⟩ := Option.bind_eq_some_iff.mp ht
  obtain ⟨⟨handed',strategies',engine'⟩,hengine',hu⟩ := Option.bind_eq_some_iff.mp hu
  obtain rfl := Option.some.inj ht
  obtain rfl := Option.some.inj hu
  rw [← h.lob,hlob] at hlob'
  rw [← h.strategies] at hengine'
  obtain ⟨rfl,rfl,hsame⟩ := h.strategyEngine.update hengine hengine'
  exact ⟨Option.some.inj hlob',hsame,rfl,by rw [h.handed]⟩

/-- The messages have been applied one after another, each under some circumstances. -/
inductive Applied (kernel : KernelSend) (deviates : UInt32 → UInt32 → Bool) (start : Trading) :
    List InternalMessage → Trading → Prop
  | nil : Applied kernel deviates start [] start
  | snoc {msgs t site msg u} (before : Applied kernel deviates start msgs t)
      (last : t.update kernel deviates site msg = some u) : Applied kernel deviates start (msgs ++ [msg]) u

theorem Applied.agrees {msgs msgs' : List InternalMessage} {t u : Trading}
    (ht : Applied kernel deviates start msgs t) (hu : Applied kernel' deviates start msgs' u)
    (hmsgs : msgs.map InternalMessage.canonical = msgs'.map InternalMessage.canonical) : t.Agrees u := by
  induction ht generalizing msgs' u with
  | nil =>
    cases hu with
    | nil => exact .refl start
    | snoc before last => simp at hmsgs
  | snoc before last ih =>
    cases hu with
    | nil => simp at hmsgs
    | snoc before' last' =>
      rw [List.map_append,List.map_append,List.map_singleton,List.map_singleton] at hmsgs
      obtain ⟨hbefore,hlast⟩ := List.append_inj' hmsgs rfl
      exact (ih before' hbefore).update (by simpa using hlast) last last'

/-- What the callback makes of a datagram does not depend on the stack. -/
theorem udpCallback_canonical (buffer buffer' : ℕ → UInt8) (prior prior' : InternalMessage) (datagram : List UInt8) :
    (udpCallback buffer prior datagram).map InternalMessage.canonical =
      (udpCallback buffer' prior' datagram).map InternalMessage.canonical := by
  unfold udpCallback
  dsimp only
  generalize datagram.take 2048 = bytes
  have hread : ∀ i < bytes.length, store buffer 0 bytes i = store buffer' 0 bytes i := by
    intro i hi
    simp [store,hi]
  rw [parse_congr hread prior]
  obtain ⟨haccepted,hcarried⟩ := parse_canonical (store buffer' 0 bytes) bytes.length prior prior'
  generalize parse (store buffer' 0 bytes) bytes.length prior = outcome at haccepted hcarried
  generalize parse (store buffer' 0 bytes) bytes.length prior' = outcome' at haccepted hcarried
  obtain ⟨accepted,msg⟩ := outcome
  obtain ⟨accepted',msg'⟩ := outcome'
  obtain rfl : accepted = accepted' := haccepted
  cases accepted with
  | false => rfl
  | true => simp [hcarried rfl]

/-- The messages that the datagrams carry. -/
def carried (datagrams : List (List UInt8)) : List InternalMessage :=
  datagrams.filterMap fun datagram => (udpCallback (fun _ => 0) ⟨0,0,0,0,.buy⟩ datagram).map InternalMessage.canonical

lemma carried_append (datagrams more : List (List UInt8)) :
    carried (datagrams ++ more) = carried datagrams ++ carried more :=
  List.filterMap_append ..

/-- A datagram adds what its callback pushes, whatever the stack holds. -/
lemma carried_append_singleton (datagrams : List (List UInt8)) (buffer : ℕ → UInt8) (prior : InternalMessage)
    (datagram : List UInt8) : carried (datagrams ++ [datagram]) =
      carried datagrams ++ (udpCallback buffer prior datagram).toList.map InternalMessage.canonical := by
  have hlast := udpCallback_canonical buffer (fun _ => 0) prior ⟨0,0,0,0,.buy⟩ datagram
  rw [carried_append,← Option.toList_map,hlast]
  rfl

/-- The callback is at its message while a push is under way. -/
def Pushing (parsedMsg : Option InternalMessage) : ProducerPc InternalMessage → Prop
  | .idle => True
  | .loaded item _ => parsedMsg = some item
  | .checked item _ => parsedMsg = some item
  | .written item _ => parsedMsg = some item

/-- The last message has been applied when the next pop starts. -/
def Popping (msg : Option InternalMessage) : ConsumerPc InternalMessage → Prop
  | .idle => True
  | _ => msg = none

/-- How a run stands to what it has received: the messages consumed have been applied, and with
those still under way they are the messages of the datagrams received. -/
structure Tracks (kernel : KernelSend) (deviates : UInt32 → UInt32 → Bool) (datagrams : List (List UInt8))
    (start : Trading) (msgs : List InternalMessage) (s : State) : Prop where
  applied : Applied kernel deviates start msgs s.trading
  pushing : Pushing s.parsedMsg s.queue.producer
  popping : Popping s.msg s.queue.consumer
  inOrder : ∃ base queue, Holds queueCapacity base queue s.queue ∧
    ∃ received, datagrams = received ++ s.datagrams ∧
      (msgs ++ s.msg.toList ++ queue ++ s.parsedMsg.toList).map InternalMessage.canonical = carried received

lemma tracks_init (data : ℕ → InternalMessage) (datagrams : List (List UInt8)) (start : Trading) :
    Tracks kernel deviates datagrams start [] (init data datagrams start) where
  applied := .nil
  pushing := trivial
  popping := trivial
  inOrder := ⟨0,[],holds_init (by decide) data,[],rfl,rfl⟩

/-- A step of the ring keeps both threads in step with their messages. -/
lemma enabled_step {s : State} {a : SPSCQueue.Action InternalMessage} {e : Event InternalMessage}
    {queue : SPSCQueue.State InternalMessage} (hpush : Pushing s.parsedMsg s.queue.producer)
    (hpop : Popping s.msg s.queue.consumer) (ha : s.enables a = true)
    (hstep : SPSCQueue.step queueCapacity s.queue a = some (e,queue)) :
    Pushing (({ s with queue := queue } : State).observe e).parsedMsg queue.producer ∧
    Popping (({ s with queue := queue } : State).observe e).msg queue.consumer ∧
    (∀ item, e = .pushed item → s.parsedMsg = some item) ∧ ∀ item, e = .popped item → s.msg = none := by
  cases step_cases hstep with
  | loadWrite item hpc =>
    have hmsg : s.parsedMsg = some item := by simpa [State.enables] using ha
    exact ⟨hmsg,hpop,by simp,by simp⟩
  | full item w hpc hfull => exact ⟨trivial,hpop,by simp,by simp⟩
  | room item w hpc hroom =>
    rw [hpc] at hpush
    exact ⟨hpush,hpop,by simp,by simp⟩
  | writeData item w hpc =>
    rw [hpc] at hpush
    exact ⟨hpush,hpop,by simp,by simp⟩
  | storeWrite item w hpc =>
    rw [hpc] at hpush
    refine ⟨trivial,hpop,?_,by simp⟩
    intro x hx
    obtain rfl : item = x := by simpa using hx
    exact hpush
  | loadRead hpc =>
    have hmsg : s.msg = none := by simpa [State.enables] using ha
    exact ⟨hpush,hmsg,by simp,by simp⟩
  | empty r hpc hempty => exact ⟨hpush,trivial,by simp,by simp⟩
  | items r hpc hitems =>
    rw [hpc] at hpop
    exact ⟨hpush,hpop,by simp,by simp⟩
  | readData r hpc =>
    rw [hpc] at hpop
    exact ⟨hpush,hpop,by simp,by simp⟩
  | storeRead r item hpc =>
    rw [hpc] at hpop
    exact ⟨hpush,trivial,by simp,fun _ _ => hpop⟩

variable {datagrams : List (List UInt8)} {msgs : List InternalMessage} {s s' : State}

/-- A step of the ring moves a message along or does nothing to the order. -/
theorem Tracks.queue {a : SPSCQueue.Action InternalMessage} {e : Event InternalMessage}
    {queue : SPSCQueue.State InternalMessage} (h : Tracks kernel deviates datagrams start msgs s)
    (ha : s.enables a = true) (hstep : SPSCQueue.step queueCapacity s.queue a = some (e,queue)) :
    Tracks kernel deviates datagrams start msgs (({ s with queue := queue } : State).observe e) := by
  obtain ⟨hpush,hpop,hpushed,hpopped⟩ := enabled_step h.pushing h.popping ha hstep
  obtain ⟨base,content,hholds,received,hreceived,horder⟩ := h.inOrder
  obtain ⟨base',content',hfifo,hholds'⟩ := hholds.step hstep
  cases hfifo with
  | silent => exact ⟨h.applied,hpush,hpop,base',content,hholds',received,hreceived,horder⟩
  | full => exact ⟨h.applied,hpush,hpop,base',content,hholds',received,hreceived,horder⟩
  | empty => exact ⟨h.applied,hpush,hpop,base',[],hholds',received,hreceived,horder⟩
  | push room =>
    rename_i item
    refine ⟨h.applied,hpush,hpop,base',content ++ [item],hholds',received,hreceived,?_⟩
    rw [hpushed item rfl] at horder
    simpa [State.observe] using horder
  | pop item =>
    refine ⟨h.applied,hpush,hpop,base',content',hholds',received,hreceived,?_⟩
    rw [hpopped item rfl] at horder
    simpa [State.observe] using horder

theorem Tracks.step {a : Action} {r : Option InternalMessage} (h : Tracks kernel deviates datagrams start msgs s)
    (hstep : Main.step kernel deviates s a = some (r,s')) :
    Tracks kernel deviates datagrams start (msgs ++ r.toList) s' := by
  cases a with
  | receive buffer prior =>
    simp only [Main.step] at hstep
    split at hstep
    · rename_i datagram rest hidle hrest
      obtain ⟨rfl,rfl⟩ := Prod.mk.inj (Option.some.inj hstep)
      obtain ⟨base,content,hholds,received,hreceived,horder⟩ := h.inOrder
      have hpushing := h.pushing
      rw [Option.toList_none,List.append_nil]
      refine ⟨h.applied,?_,h.popping,base,content,hholds,received ++ [datagram],?_,?_⟩
      · -- without a message in the callback no push is under way
        rw [hidle] at hpushing
        cases hpc : s.queue.producer <;> simp_all [Pushing]
      · rw [hreceived,hrest,List.append_assoc]
        rfl
      · rw [carried_append_singleton received buffer prior,← horder,hidle]
        simp
    · contradiction
  | queue a =>
    simp only [Main.step] at hstep
    split at hstep
    · rename_i ha
      obtain ⟨⟨e,queue⟩,hqueue,hstep⟩ := Option.bind_eq_some_iff.mp hstep
      obtain ⟨rfl,rfl⟩ := Prod.mk.inj (Option.some.inj hstep)
      rw [Option.toList_none,List.append_nil]
      exact h.queue ha hqueue
    · contradiction
  | update site =>
    obtain ⟨msg,hmsg,hstep⟩ := Option.bind_eq_some_iff.mp hstep
    obtain ⟨trading,htrading,hstep⟩ := Option.bind_eq_some_iff.mp hstep
    obtain ⟨rfl,rfl⟩ := Prod.mk.inj (Option.some.inj hstep)
    obtain ⟨base,content,hholds,received,hreceived,horder⟩ := h.inOrder
    refine ⟨h.applied.snoc htrading,h.pushing,?_,base,content,hholds,received,hreceived,?_⟩
    · have hpopping := h.popping
      cases hpc : s.queue.consumer <;> simp_all [Popping]
    · rw [hmsg] at horder
      simpa using horder

theorem tracks_of_run {data : ℕ → InternalMessage} {actions : List Action} {answers : List (Option InternalMessage)}
    (h : run (Main.step kernel deviates) (init data datagrams start) actions = some (answers,s)) :
    Tracks kernel deviates datagrams start (consumed answers) s := by
  refine run_history_invariant (I := fun answers s => Tracks kernel deviates datagrams start (consumed answers) s)
    ?_ (tracks_init data datagrams start) h
  intro answers s a r s' hI hstep
  have hnext := hI.step hstep
  rw [consumed,List.reduceOption_append]
  cases r with
  | none => exact hnext
  | some msg => exact hnext

lemma Tracks.consumed_prefix (h : Tracks kernel deviates datagrams start msgs s) :
    msgs.map InternalMessage.canonical <+: carried datagrams := by
  obtain ⟨base,content,_,received,rfl,horder⟩ := h.inOrder
  refine ⟨(s.msg.toList ++ content ++ s.parsedMsg.toList).map InternalMessage.canonical ++ carried s.datagrams,?_⟩
  rw [carried_append,← horder]
  simp

/-- Two runs over one stream of datagrams that have consumed equally many messages have traded the
same, whatever the schedules, the kernel, the contents of the ring and of the stack. -/
theorem run_noninterference (deviates : UInt32 → UInt32 → Bool) (datagrams : List (List UInt8)) (start : Trading)
    (kernel kernel' : KernelSend) (data data' : ℕ → InternalMessage) (actions actions' : List Action)
    (answers answers' : List (Option InternalMessage)) (s s' : State)
    (hrun : run (Main.step kernel deviates) (init data datagrams start) actions = some (answers,s))
    (hrun' : run (Main.step kernel' deviates) (init data' datagrams start) actions' = some (answers',s'))
    (hn : (consumed answers).length = (consumed answers').length) :
    s.trading.lob = s'.trading.lob ∧
    s.trading.strategyEngine.ems = s'.trading.strategyEngine.ems ∧
    s.trading.strategyEngine.riskEngine = s'.trading.strategyEngine.riskEngine ∧
    s.trading.strategies.map MarketMakerStrategy.positionTaken =
      s'.trading.strategies.map MarketMakerStrategy.positionTaken ∧
    s.trading.handed = s'.trading.handed := by
  have htracks := tracks_of_run hrun
  have htracks' := tracks_of_run hrun'
  have hmsgs : (consumed answers).map InternalMessage.canonical =
      (consumed answers').map InternalMessage.canonical := by
    apply List.IsPrefix.eq_of_length
    · exact List.prefix_of_prefix_length_le htracks.consumed_prefix htracks'.consumed_prefix (by simp [hn])
    · simp [hn]
  have hagrees := htracks.applied.agrees htracks'.applied hmsgs
  exact ⟨hagrees.lob,hagrees.strategyEngine.ems,hagrees.strategyEngine.riskEngine,by rw [hagrees.strategies],
    hagrees.handed⟩

/-- A push and a pop that no step of the other thread interrupts. -/
def push (msg : InternalMessage) : List Action :=
  [.queue (.loadWrite msg),.queue .checkFull,.queue .writeData,.queue .storeWrite]

def pop : List Action := [.queue .loadRead,.queue .checkEmpty,.queue .readData,.queue .storeRead]

/-- A bid of 100 shares at 15000 and its deletion. -/
def bidAndDelete : List (List UInt8) :=
  [[65,0,0,0,0,0,0,0,0,0,0,0,0,0,0,0,0,0,1,66,0,0,0,100,65,65,80,76,32,32,32,32,0,0,58,152],
    [68,0,0,0,0,0,0,0,0,0,0,0,0,0,0,0,0,0,1]]

lemma zero_notMem_aapl : 0 ∉ ['A'.toUInt8,'A'.toUInt8,'P'.toUInt8,'L'.toUInt8] := by decide

/-- One market maker for bids from 15000 on, over an empty book. -/
def oneMaker : Trading :=
  ⟨.init 2 20000,.init 4 ⟨500,10000⟩,[.init 15000 100 ⟨_,zero_notMem_aapl⟩],[]⟩

/-- The threads take turns, message by message. -/
def oneByOne : List Action :=
  [.receive (fun _ => 0) ⟨0,0,0,0,.buy⟩] ++ push ⟨65,1,15000,100,.buy⟩ ++ pop ++ [.update fun _ => ⟨fun _ => 0,5⟩] ++
    [.receive (fun _ => 0) ⟨0,0,0,0,.buy⟩] ++ push ⟨68,1,0,0,.buy⟩ ++ pop ++ [.update fun _ => ⟨fun _ => 0,5⟩]

/-- Both messages are pushed before the first is popped; the second one carries a bid that the stack
held, and there is no socket. -/
def bothAtOnce : List Action :=
  [.receive (fun _ => 1) ⟨1,2,3,4,.sell⟩] ++ push ⟨65,1,15000,100,.buy⟩ ++
    [.receive (fun _ => 2) ⟨65,9,15000,8,.buy⟩] ++ push ⟨68,1,15000,8,.buy⟩ ++ pop ++
    [.update fun _ => ⟨fun _ => 3,-1⟩] ++ pop ++ [.update fun _ => ⟨fun _ => 4,-1⟩]

/-- Both schedules sell once and end with the same book. -/
theorem run_noninterference_bid_and_delete : ∃ answers s answers' s',
    run (Main.step .takesAll fun _ _ => false) (init (fun _ => ⟨0,0,0,0,.buy⟩) bidAndDelete oneMaker) oneByOne =
      some (answers,s) ∧
    run (Main.step .takesAll fun _ _ => false) (init (fun _ => ⟨7,7,7,7,.sell⟩) bidAndDelete oneMaker) bothAtOnce =
      some (answers',s') ∧
    (consumed answers).length = 2 ∧ s.trading.handed.length = 1 ∧ s.trading.lob = s'.trading.lob ∧
    s.trading.handed = s'.trading.handed := by
  have hfirst : (run (Main.step .takesAll fun _ _ => false) (init (fun _ => ⟨0,0,0,0,.buy⟩) bidAndDelete oneMaker)
      oneByOne).map (fun p => ((consumed p.1).length,p.2.trading.handed.length)) = some (2,1) := by
    decide +kernel
  have hsecond : (run (Main.step .takesAll fun _ _ => false)
      (init (fun _ => ⟨7,7,7,7,.sell⟩) bidAndDelete oneMaker) bothAtOnce).map (fun p => (consumed p.1).length) =
        some 2 := by
    decide +kernel
  obtain ⟨⟨answers,s⟩,hrun,hcounts⟩ := Option.map_eq_some_iff.mp hfirst
  obtain ⟨⟨answers',s'⟩,hrun',hcount'⟩ := Option.map_eq_some_iff.mp hsecond
  obtain ⟨hcount,hhanded⟩ := Prod.mk.inj hcounts
  have hsame := run_noninterference _ _ _ _ _ _ _ _ _ _ _ _ _ hrun hrun' (hcount.trans hcount'.symm)
  exact ⟨answers,s,answers',s',hrun,hrun',hcount,hhanded,hsame.1,hsame.2.2.2.2⟩

end Main
end TickToTrade
