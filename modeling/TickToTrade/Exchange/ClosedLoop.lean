import TickToTrade.Exchange.Feedback
import TickToTrade.Pipeline.NonInterference

/-! `Main` and the emulator in a loop: orders reach the emulator over TCP, and what it announces comes
back to `Main` on the multicast channel among the datagrams of the market-data feed. The channel may
lose, repeat and reorder datagrams, the socket may tear messages, and `recv` may cut the stream
anywhere. Still nothing that comes back makes a market maker trade. That the emulator's callback reads
what `Main` has sent is the intended wiring; the source registers it for a new socket instead of the
accepted one (`Network/Registry`). The largest order is assumed to be below `2 ^ 24`; `Main` has 500. -/
namespace TickToTrade.ClosedLoop
open Main ExchangeEmulator

/-- Who has sent a datagram. -/
inductive Source
  | feed
  | emulator
  deriving DecidableEq, Repr

/-- `received` is how much of the stream the emulator has read, `arrivals` what has reached `Main`. -/
structure State where
  main : Main.State
  emulator : ExchangeEmulator
  received : ℕ
  arrivals : List (Source × List UInt8)

def init (data : ℕ → InternalMessage) (start : Trading) : State :=
  ⟨Main.init data [] start,ExchangeEmulator.init,0,[]⟩

inductive Action
  | main (a : Main.Action)
  | feed (datagram : List UInt8)
  | echo (i : ℕ)
  | client (recv : RecvResult) (around : Surroundings)

def State.arrive (s : State) (source : Source) (datagram : List UInt8) : State :=
  { s with
    main := { s.main with datagrams := s.main.datagrams ++ [datagram] }
    arrivals := s.arrivals ++ [(source,datagram)] }

/-- What the bytes of a result take off the stream. -/
def taken : RecvResult → ℕ
  | .data bytes => bytes.length
  | _ => 0

/-- `recv` returns some of the bytes that come next, at most a buffer of them. -/
def State.Receives (s : State) : RecvResult → Prop
  | .data bytes => bytes ≠ [] ∧ bytes.length ≤ 1024 ∧
      bytes <+: s.main.trading.strategyEngine.tcpEgress.accepted.drop s.received
  | _ => True

instance (s : State) (recv : RecvResult) : Decidable (s.Receives recv) :=
  match recv with
  | .data _ => inferInstanceAs (Decidable (_ ∧ _ ∧ _))
  | .disconnected => inferInstanceAs (Decidable True)
  | .error => inferInstanceAs (Decidable True)

/-- A step of `Main`, a datagram from the feed, one of the emulator's datagrams arriving for the
first or another time, or a call of the emulator's callback. -/
def step (kernel : KernelSend) (deviates : UInt32 → UInt32 → Bool) (s : State) :
    Action → Option (Option InternalMessage × State)
  | .main a => do
    let (r,main) ← Main.step kernel deviates s.main a
    some (r,{ s with main := main })
  | .feed datagram => some (none,s.arrive .feed datagram)
  | .echo i => do
    let datagram ← s.emulator.broadcast[i]?
    some (none,s.arrive .emulator datagram)
  | .client recv around =>
    if s.emulator.clientOpen ∧ s.Receives recv then do
      let emulator ← s.emulator.clientCallback recv around
      some (none,{ s with emulator := emulator, received := s.received + taken recv })
    else none

/-- The datagrams of the feed. -/
def feedOf (arrivals : List (Source × List UInt8)) : List (List UInt8) :=
  (arrivals.filter fun p => p.1 = .feed).map Prod.snd

/-- The messages that have arrived, with their sources. -/
def carriedFrom (arrivals : List (Source × List UInt8)) : List (Source × InternalMessage) :=
  arrivals.filterMap fun p =>
    (udpCallback (fun _ => 0) ⟨0,0,0,0,.buy⟩ p.2).map fun msg => (p.1,msg.canonical)

/-- How many of the first `n` messages are from the feed. -/
def fedAmong (n : ℕ) (arrivals : List (Source × List UInt8)) : ℕ :=
  ((carriedFrom arrivals).take n).countP fun p => p.1 = .feed

/-- The trading is the same; the books may differ. -/
structure TradesAs (t u : Trading) : Prop where
  strategyEngine : t.strategyEngine.SameTrading u.strategyEngine
  strategies : t.strategies = u.strategies
  handed : t.handed = u.handed

lemma carriedFrom_map_snd (arrivals : List (Source × List UInt8)) :
    (carriedFrom arrivals).map Prod.snd = carried (arrivals.map Prod.snd) := by
  rw [carriedFrom,carried,List.map_filterMap,List.filterMap_map]
  congr 1
  funext p
  simp [Option.map_map,Function.comp_def]

lemma carriedFrom_feed (arrivals : List (Source × List UInt8)) :
    ((carriedFrom arrivals).filter fun p => p.1 = .feed).map Prod.snd = carried (feedOf arrivals) := by
  induction arrivals with
  | nil => rfl
  | cons p arrivals ih =>
    obtain ⟨source,datagram⟩ := p
    simp only [carriedFrom,carried,feedOf] at ih ⊢
    rw [List.filterMap_cons,List.filter_cons]
    cases source with
    | feed =>
      cases hmsg : udpCallback (fun _ => 0) ⟨0,0,0,0,.buy⟩ datagram <;> simp [hmsg,ih]
    | emulator =>
      cases udpCallback (fun _ => 0) ⟨0,0,0,0,.buy⟩ datagram <;> simp [ih]

variable {kernel kernel' : KernelSend} {deviates : UInt32 → UInt32 → Bool} {start t t' u u' : Trading}
  {msg msg' : InternalMessage} {msgs msgs' : List InternalMessage} {s s' : State}

lemma canonical_bids : msg.canonical.Bids ↔ msg.Bids := by
  by_cases hA : msg.type = 'A'.toUInt8
  · rw [msg.canonical_of_add hA]
  · simp [InternalMessage.Bids,hA]

lemma update_cases {site : ℕ → CallSite} (h : t.update kernel deviates site msg = some t') :
    ∃ handed, t.strategyEngine.onMarketDataUpdate kernel deviates msg site t.strategies =
      some (handed,t'.strategies,t'.strategyEngine) ∧ t'.handed = t.handed ++ handed := by
  obtain ⟨lob,_,h⟩ := Option.bind_eq_some_iff.mp h
  obtain ⟨⟨handed,strategies,engine⟩,hengine,h⟩ := Option.bind_eq_some_iff.mp h
  obtain rfl := Option.some.inj h
  exact ⟨handed,hengine,rfl⟩

lemma TradesAs.of_not_bids {site : ℕ → CallSite} (htrades : TradesAs t u) (hmsg : ¬ msg.Bids)
    (h : t.update kernel deviates site msg = some t') : TradesAs t' u := by
  obtain ⟨handed,hengine,hhanded⟩ := update_cases h
  rw [StrategyEngine.onMarketDataUpdate_of_not_bids hmsg,Option.some.injEq,Prod.mk.injEq,Prod.mk.injEq] at hengine
  obtain ⟨rfl,hstrategies,hsame⟩ := hengine
  exact ⟨by rw [← hsame]; exact htrades.strategyEngine,by rw [← hstrategies]; exact htrades.strategies,
    by rw [hhanded,List.append_nil]; exact htrades.handed⟩

lemma TradesAs.update {site site' : ℕ → CallSite} (htrades : TradesAs t u) (hmsg : msg.canonical = msg'.canonical)
    (ht : t.update kernel deviates site msg = some t') (hu : u.update kernel' deviates site' msg' = some u') :
    TradesAs t' u' := by
  rw [← Trading.update_canonical,hmsg] at ht
  rw [← Trading.update_canonical] at hu
  obtain ⟨handed,hengine,hhanded⟩ := update_cases ht
  obtain ⟨handed',hengine',hhanded'⟩ := update_cases hu
  rw [← htrades.strategies] at hengine'
  obtain ⟨rfl,hstrategies,hsame⟩ := htrades.strategyEngine.update hengine hengine'
  exact ⟨hsame,hstrategies,by rw [hhanded,hhanded',htrades.handed]⟩

/-- A stream with messages among it that are no bids leads to the same trading as the rest alone. -/
theorem TradesAs.applied {tagged : List (Source × InternalMessage)} (ht : Applied kernel deviates start msgs t)
    (hu : Applied kernel' deviates start msgs' u) (hmsgs : msgs.map InternalMessage.canonical = tagged.map Prod.snd)
    (hquiet : ∀ p ∈ tagged, p.1 = .emulator → ¬ p.2.Bids)
    (hmsgs' : msgs'.map InternalMessage.canonical = (tagged.filter fun p => p.1 = .feed).map Prod.snd) :
    TradesAs t u := by
  induction ht generalizing tagged msgs' u with
  | nil =>
    obtain rfl : tagged = [] := by simpa using hmsgs.symm
    cases hu with
    | nil => exact ⟨⟨rfl,rfl,rfl⟩,rfl,rfl⟩
    | snoc before last => simp at hmsgs'
  | snoc before last ih =>
    rename_i msgs t site msg t'
    obtain ⟨tagged,⟨source,canonical⟩,rfl⟩ := (List.eq_nil_or_concat' tagged).resolve_left (by
      rintro rfl
      simp at hmsgs)
    rw [List.map_append,List.map_append,List.map_singleton,List.map_singleton] at hmsgs
    obtain ⟨hbefore,hlast⟩ := List.append_inj' hmsgs rfl
    obtain rfl : msg.canonical = canonical := by simpa using hlast
    obtain ⟨hearlier,hsource⟩ := List.forall_mem_append.mp hquiet
    rw [List.filter_append,List.map_append] at hmsgs'
    cases source with
    | feed =>
      cases hu with
      | nil => simp at hmsgs'
      | snoc before' last' =>
        rw [List.map_append,List.map_singleton] at hmsgs'
        obtain ⟨hbefore',hlast'⟩ := List.append_inj' hmsgs' rfl
        exact (ih before' hbefore hearlier hbefore').update (by simpa using hlast'.symm) last last'
    | emulator =>
      have hnot : ¬ msg.Bids := by
        rw [← canonical_bids]
        exact hsource _ (List.mem_singleton_self _) rfl
      exact (ih hu hbefore hearlier (by simpa using hmsgs')).of_not_bids hnot last

/-- How a run of the loop stands to what has arrived. -/
structure Follows (kernel : KernelSend) (deviates : UInt32 → UInt32 → Bool) (start : Trading)
    (msgs : List InternalMessage) (s : State) : Prop where
  tracks : Tracks kernel deviates (s.arrivals.map Prod.snd) start msgs s.main
  sellsOnly : s.main.trading.strategyEngine.SellsOnly
  noBids : ∀ datagram ∈ s.emulator.broadcast, NoBid datagram
  echoes : ∀ p ∈ s.arrivals, p.1 = .emulator → NoBid p.2

lemma Follows.arrive (h : Follows kernel deviates start msgs s) {source : Source} {datagram : List UInt8}
    (hecho : source = .emulator → NoBid datagram) : Follows kernel deviates start msgs (s.arrive source datagram) where
  tracks := by
    obtain ⟨happlied,hpushing,hpopping,base,queue,hholds,received,hreceived,horder⟩ := h.tracks
    refine ⟨happlied,hpushing,hpopping,base,queue,hholds,received,?_,horder⟩
    rw [State.arrive,List.map_append,hreceived,List.append_assoc]
    rfl
  sellsOnly := h.sellsOnly
  noBids := h.noBids
  echoes := by
    refine List.forall_mem_append.mpr ⟨h.echoes,?_⟩
    rintro p hp
    obtain rfl := List.mem_singleton.mp hp
    exact hecho

lemma sellsOnly_step {a : Main.Action} {r : Option InternalMessage} {main main' : Main.State}
    (h : main.trading.strategyEngine.SellsOnly) (hstep : Main.step kernel deviates main a = some (r,main')) :
    main'.trading.strategyEngine.SellsOnly := by
  cases a with
  | receive buffer prior =>
    simp only [Main.step] at hstep
    split at hstep
    · obtain ⟨_,rfl⟩ := Prod.mk.inj (Option.some.inj hstep)
      exact h
    · contradiction
  | queue a =>
    simp only [Main.step] at hstep
    split at hstep
    · obtain ⟨⟨e,queue⟩,_,hstep⟩ := Option.bind_eq_some_iff.mp hstep
      obtain ⟨_,rfl⟩ := Prod.mk.inj (Option.some.inj hstep)
      cases e <;> exact h
    · contradiction
  | update site =>
    obtain ⟨msg,_,hstep⟩ := Option.bind_eq_some_iff.mp hstep
    obtain ⟨trading,htrading,hstep⟩ := Option.bind_eq_some_iff.mp hstep
    obtain ⟨_,rfl⟩ := Prod.mk.inj (Option.some.inj hstep)
    obtain ⟨_,hengine,_⟩ := update_cases htrading
    exact h.update hengine

theorem Follows.step {a : Action} {r : Option InternalMessage} (h : Follows kernel deviates start msgs s)
    (hstep : ClosedLoop.step kernel deviates s a = some (r,s')) :
    Follows kernel deviates start (msgs ++ r.toList) s' := by
  cases a with
  | main a =>
    obtain ⟨⟨r,main⟩,hmain,hstep⟩ := Option.bind_eq_some_iff.mp hstep
    obtain ⟨rfl,rfl⟩ := Prod.mk.inj (Option.some.inj hstep)
    exact ⟨h.tracks.step hmain,sellsOnly_step h.sellsOnly hmain,h.noBids,h.echoes⟩
  | feed datagram =>
    obtain ⟨rfl,rfl⟩ := Prod.mk.inj (Option.some.inj hstep)
    rw [Option.toList_none,List.append_nil]
    exact h.arrive (by simp)
  | echo i =>
    obtain ⟨datagram,hdatagram,hstep⟩ := Option.bind_eq_some_iff.mp hstep
    obtain ⟨rfl,rfl⟩ := Prod.mk.inj (Option.some.inj hstep)
    rw [Option.toList_none,List.append_nil]
    exact h.arrive fun _ => h.noBids datagram (List.mem_of_getElem? hdatagram)
  | client recv around =>
    simp only [ClosedLoop.step] at hstep
    split at hstep
    · rename_i henabled
      obtain ⟨emulator,hcallback,hstep⟩ := Option.bind_eq_some_iff.mp hstep
      obtain ⟨rfl,rfl⟩ := Prod.mk.inj (Option.some.inj hstep)
      rw [Option.toList_none,List.append_nil]
      refine ⟨h.tracks,h.sellsOnly,?_,h.echoes⟩
      dsimp only
      cases recv with
      | data bytes =>
        rcases clientCallback_noBid h.sellsOnly.stream henabled.2.2.2 hcallback with hsame | ⟨datagram,hnew,hno⟩
        · rw [hsame]
          exact h.noBids
        · rw [hnew]
          exact List.forall_mem_append.mpr ⟨h.noBids,by simpa using hno⟩
      | disconnected =>
        obtain rfl := Option.some.inj hcallback
        exact h.noBids
      | error =>
        obtain rfl := Option.some.inj hcallback
        exact h.noBids
    · contradiction

theorem follows_of_run {data : ℕ → InternalMessage} {actions : List Action} {answers : List (Option InternalMessage)}
    (hfresh : start.strategyEngine.tcpEgress.accepted = [])
    (hlimit : start.strategyEngine.riskEngine.config.maxOrderSize.toNat < 2 ^ 24)
    (hrun : run (ClosedLoop.step kernel deviates) (init data start) actions = some (answers,s)) :
    Follows kernel deviates start (consumed answers) s := by
  refine run_history_invariant (I := fun answers s => Follows kernel deviates start (consumed answers) s) ?_ ?_ hrun
  · intro answers s a r s' hI hstep
    have hnext := hI.step hstep
    rw [consumed,List.reduceOption_append]
    cases r with
    | none => exact hnext
    | some msg => exact hnext
  · refine ⟨tracks_init data [] start,⟨?_,hlimit⟩,by simp [init,ExchangeEmulator.init],by simp [init]⟩
    exact hfresh ▸ Framing.guarded_nil _ _ _

lemma not_bids_of_echo (h : Follows kernel deviates start msgs s) :
    ∀ p ∈ carriedFrom s.arrivals, p.1 = .emulator → ¬ p.2.Bids := by
  intro p hp hsource
  obtain ⟨⟨source,datagram⟩,harrival,hcarried⟩ := List.mem_filterMap.mp hp
  obtain ⟨msg,hmsg,rfl⟩ := Option.map_eq_some_iff.mp hcarried
  rw [canonical_bids]
  exact h.echoes _ harrival hsource _ _ msg hmsg

/-- In every run of the loop no datagram of the emulator is ever a bid, and `Main` trades as it does
without the emulator's datagrams: orders, position, EMS and strategies are those of any run on the
feed alone that has consumed as many of its messages. -/
theorem trades_as_feed_alone (deviates : UInt32 → UInt32 → Bool) (start : Trading)
    (hfresh : start.strategyEngine.tcpEgress.accepted = [])
    (hlimit : start.strategyEngine.riskEngine.config.maxOrderSize.toNat < 2 ^ 24) (kernel kernel' : KernelSend)
    (data data' : ℕ → InternalMessage) (actions : List Action) (actions' : List Main.Action)
    (answers answers' : List (Option InternalMessage)) (s : State) (t : Main.State)
    (hrun : run (ClosedLoop.step kernel deviates) (init data start) actions = some (answers,s))
    (halone : run (Main.step kernel' deviates) (Main.init data' (feedOf s.arrivals) start) actions' =
      some (answers',t))
    (hn : (consumed answers').length = fedAmong (consumed answers).length s.arrivals) :
    (∀ datagram ∈ s.emulator.broadcast, NoBid datagram) ∧ TradesAs s.main.trading t.trading := by
  have hfollows := follows_of_run hfresh hlimit hrun
  have htracks := tracks_of_run halone
  refine ⟨hfollows.noBids,?_⟩
  have hmsgs : (consumed answers).map InternalMessage.canonical =
      ((carriedFrom s.arrivals).take (consumed answers).length).map Prod.snd := by
    rw [List.map_take,carriedFrom_map_snd]
    simpa using List.prefix_iff_eq_take.mp hfollows.tracks.consumed_prefix
  refine .applied hfollows.tracks.applied htracks.applied hmsgs
    (fun p hp => not_bids_of_echo hfollows p (List.mem_of_mem_take hp)) ?_
  have hprefix : (((carriedFrom s.arrivals).take (consumed answers).length).filter fun p => p.1 = .feed).map Prod.snd <+:
      carried (feedOf s.arrivals) := by
    rw [← carriedFrom_feed]
    exact ((List.take_prefix _ _).filter _).map _
  apply List.IsPrefix.eq_of_length
  · refine List.prefix_of_prefix_length_le htracks.consumed_prefix hprefix ?_
    rw [List.length_map,List.length_map,hn,fedAmong,List.countP_eq_length_filter]
  · rw [List.length_map,List.length_map,hn,fedAmong,List.countP_eq_length_filter]

/-- A bid of 100 shares at 15000. -/
def bid : List UInt8 :=
  [65,0,0,0,0,0,0,0,0,0,0,0,0,0,0,0,0,0,1,66,0,0,0,100,65,65,80,76,32,32,32,32,0,0,58,152]

/-- `Main` takes the next datagram and is done with its message before anything else happens. -/
def handle (msg : InternalMessage) : List Main.Action :=
  [.receive (fun _ => 0) ⟨0,0,0,0,.buy⟩] ++ push msg ++ pop ++ [.update fun _ => ⟨fun _ => 0,5⟩]

/-- The bid is sold to; the emulator reads the order, and its datagram arrives twice. -/
def soldAndHeard : List Action :=
  [.feed bid] ++ (handle ⟨65,1,15000,100,.buy⟩).map .main ++
    [.client (.data (StrategyEngine.wireBytes ((MarketMakerStrategy.init 15000 100 ⟨_,zero_notMem_aapl⟩).order
      (fun _ _ => false) ⟨65,1,15000,100,.buy⟩ ⟨fun _ => 0,5⟩) 1000)) ⟨⟨0,[],0,0,[],0,0,[],0,0,0,0,0,0⟩,fun _ => 0,7⟩,
    .echo 0,.echo 0] ++ (handle ⟨65,500000,15000,100,.sell⟩).map .main

/-- One message of the feed and one of the emulator are consumed, and one order is sent. -/
theorem trades_as_feed_alone_sold_and_heard : ∃ answers s answers' t,
    run (step .takesAll fun _ _ => false) (init (fun _ => ⟨0,0,0,0,.buy⟩) oneMaker) soldAndHeard = some (answers,s) ∧
    run (Main.step .takesAll fun _ _ => false) (Main.init (fun _ => ⟨0,0,0,0,.buy⟩) [bid] oneMaker)
      (handle ⟨65,1,15000,100,.buy⟩) = some (answers',t) ∧
    (consumed answers).length = 2 ∧ s.emulator.broadcast.length = 1 ∧ TradesAs s.main.trading t.trading := by
  have hloop : (run (step .takesAll fun _ _ => false) (init (fun _ => ⟨0,0,0,0,.buy⟩) oneMaker) soldAndHeard).map
      (fun p => ((consumed p.1).length,p.2.emulator.broadcast.length,feedOf p.2.arrivals,fedAmong 2 p.2.arrivals)) =
        some (2,1,[bid],1) := by
    decide +kernel
  have halone : (run (Main.step .takesAll fun _ _ => false) (Main.init (fun _ => ⟨0,0,0,0,.buy⟩) [bid] oneMaker)
      (handle ⟨65,1,15000,100,.buy⟩)).map (fun p => (consumed p.1).length) = some 1 := by
    decide +kernel
  obtain ⟨⟨answers,s⟩,hrun,hcounts⟩ := Option.map_eq_some_iff.mp hloop
  obtain ⟨⟨answers',t⟩,hrun',hcount'⟩ := Option.map_eq_some_iff.mp halone
  simp only [Prod.mk.injEq] at hcounts
  obtain ⟨hcount,hbroadcast,hfeed,hfed⟩ := hcounts
  refine ⟨answers,s,answers',t,hrun,hrun',hcount,hbroadcast,?_⟩
  rw [← hfeed] at hrun'
  exact (trades_as_feed_alone _ oneMaker rfl (by decide) _ _ _ _ _ _ _ _ _ _ hrun hrun'
    (by rw [hcount',hcount,hfed])).2

end TickToTrade.ClosedLoop
