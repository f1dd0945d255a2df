import VNet.Agent.Program
import VNet.Memory

namespace VNet.Agent.EventLoop
open Protocol NetQueue

abbrev State := Memory ℤ AgentState ConnRole

def closedState (m : State) (p : ℕ) : AgentState where
  conductor := if m.state.conductor = some p then none else m.state.conductor
  sw := if m.state.sw = some p then none else m.state.sw

def onClose (m : State) (data : CloseData) : Reaction State :=
  .done (if data.ptrData = 0 then m
    else m.deref data.ptrData fun _ =>
      (m.withState (closedState m data.ptrData)).delete data.ptrData)

/-- `makeNetworkQueueHandler(&dispatch)`: no packet has a handler. -/
def handler : NetworkQueueHandler State where
  onClose := onClose
  onSocketReady m _ := .done m
  onTunReady m _ := .done m

variable {κ : Type} (kernel : Kernel κ) (fuel : ℕ)

def addConn (fd : Fd) (role : ConnRole) (enter : AgentState → ℕ → AgentState)
    (added stored : Bool) : NetQueue.Run κ State Unit :=
  Exec.change fun w => { w with
    queue := (w.queue.put fd w.user.nextInfo .sckHeader added stored).2
    user := (w.user.tick.withState (enter w.user.state w.user.nextInfo)).alloc
      ⟨fd, w.user.now, role⟩ }

/-- The two connections, and whether epoll and the map take each. -/
structure Sockets where
  cdtSock : Fd
  swSock : Fd
  cdtAdded : Bool
  cdtStored : Bool
  swAdded : Bool
  swStored : Bool
  deriving DecidableEq, Repr

def listed (g : AgentState) : List ℕ := g.conductor.toList ++ g.sw.toList

def round (reported : List (Fd × Events)) : NetQueue.Run κ State Unit := do
  NetQueue.waitAndProcess kernel handler fuel reported
  VNet.sendHeartbeats kernel id listed

def mainLoop (x : Sockets) (rounds : List (List (Fd × Events))) : NetQueue.Run κ State Unit := do
  addConn x.cdtSock .conductor (fun g p => { g with conductor := some p }) x.cdtAdded x.cdtStored
  addConn x.swSock .switch (fun g p => { g with sw := some p }) x.swAdded x.swStored
  Exec.forEach (round kernel fuel) rounds

def start (k : κ) (clock : ℕ → ℤ) : World κ State :=
  .start k ⟨⟨none, none⟩, ∅, 1, [], clock, false⟩

def Sockets.cdtPut (x : Sockets) : Bool := x.cdtAdded && x.cdtStored

def Sockets.swPut (x : Sockets) : Bool := x.swAdded && x.swStored

def Sockets.entry (x : Sockets) (clock : ℕ → ℤ) : Entry :=
  ⟨x.cdtSock, x.swSock, clock 0, clock 1, x.cdtPut, x.swPut⟩

def event (_ : ℤ) : Called → Option Event
  | .onSocketReady data => some (.packet data)
  | .onClose data => some (.closed data)
  | .onTunReady _ => none

/-- The two connections are there as long as they are not reported closed. -/
def Sound (en : Entry) (s : Program) : Prop := ∃ c w, Shape en c w s

variable {en : Entry} {s : Program}

theorem Sound.wired (h : Sound en s) : s.Wired := by
  obtain ⟨c, w, hs⟩ := h
  exact hs.wired

theorem Sound.alive (h : Sound en s) :
    ∀ p ∈ listed s.state, ∃ info, s.infos.lookup p = some info := by
  obtain ⟨c, w, hs⟩ := h
  intro p hp
  rw [← Option.isSome_iff_exists, hs.isSome_iff]
  simpa [listed, Option.mem_toList] using hp

theorem onClose_agrees (codec : Codec) {v v' : View State} {data : CloseData} (hw : s.Wired)
    (h : Agrees v s) (hh : s.Holds data.fd data.ptrData)
    (hreacts : View.Reacts (onClose v.user data) v v') :
    Agrees (v'.drop data.fd) (step codec s (.closed data)) := by
  obtain ⟨info, hinfo, -⟩ := hw.alive _ _ hh
  have hne : data.ptrData ≠ 0 := Nat.pos_iff_ne_zero.mp (hw.fresh _ _ hinfo).1
  have hclosed := h.closed hne hinfo fun _ => closedState v.user data.ptrData
  have hdropped := hclosed.drop data.fd
  rw [step, closed_eq codec hw hh, reacts_done hreacts]
  simp only [closedState, ← h.state] at hdropped ⊢
  exact hdropped

theorem onClose_reads {v v' : View State} {data : CloseData}
    (hreacts : View.Reacts (onClose v.user data) v v') :
    Reads v.user.answers v'.user.answers [v.user.answer] :=
  reads_done hreacts (reads_closed _ _ _)

/-- What `AgentDispatch` does in a callback is what the program does on the event. -/
theorem handler_simulates (codec : Codec) (hne : en.cdtSock ≠ en.swSock) :
    Simulates handler event (step codec) (fun _ _ => True) (Sound en) where
  sound s e hs _ := by
    obtain ⟨c, w, hs⟩ := hs
    exact ⟨_, _, hs.step hne codec e⟩
  reads {v v' c} _ hcall := by
    obtain ⟨-, -, m, hreacts, rfl⟩ := hcall
    rw [View.returned_user]
    cases c with
    | onClose data => exact onClose_reads hreacts
    | onSocketReady data => exact reads_done hreacts (.ahead _)
    | onTunReady data => exact reads_done hreacts (.ahead _)
  agrees {v v' s c} _ hs h hcall := by
    obtain ⟨-, hheld, m, hreacts, rfl⟩ := hcall
    cases c with
    | onClose data => exact onClose_agrees codec hs.wired h (h.holds.mpr hheld) hreacts
    | onSocketReady data =>
      have hsame : step codec s (.packet data) = s := by rw [step, packet_eq]
      change Agrees m (step codec s (.packet data))
      rw [hsame]
      exact nothing_agrees h hreacts
    | onTunReady data => exact nothing_agrees h hreacts

/-- What a round saw: the callbacks, each with the time, and the time at which it
sent heartbeats. -/
structure Seen where
  calls : List (ℤ × Called)
  beat : ℤ

def Saw (reported : List (Fd × Events)) (x : Seen) : Prop :=
  ∀ c ∈ x.calls, c.2.fd ∈ reported.map (·.1)

def Seen.events (x : Seen) : List Event :=
  eventsOf event x.calls ++ [.sendHeartbeats x.beat fun _ => true]

def Seen.times (x : Seen) : List ℤ := x.calls.map (·.1) ++ [x.beat]

abbrev Follows {κ : Type} (codec : Codec) (en : Entry) (w w' : World κ State) (es : List Event)
    (cs : List Called) (times : List ℤ) : Prop :=
  VNet.Follows (step codec) (fun _ _ => True) (Sound en) w w' es cs times

section
variable {κ : Type} {w : World κ State}

theorem addConn_agrees (hinv : w.queue.Inv) {fd : Fd}
    (hfree : w.queue.fdToNetworkElement.lookup fd = none) (role : ConnRole)
    (enter : AgentState → ℕ → AgentState) (added stored : Bool) :
    Exec.Ends (· = w) (addConn fd role enter added stored) fun _ w' =>
      Passes w w' [] [w.user.now] ∧ ∀ s : Program, Agrees w.view s →
        Agrees w'.view (Agent.addConn fd w.user.now role enter (added && stored) s).2 := by
  apply Exec.Triple.change
  rintro v rfl
  refine ⟨.silent (hinv.put _ _ _ _ _) rfl (.once _), fun s h => ?_⟩
  have hheld := h.held_put hinv hfree s.nextInfo added stored
  have hstate : v.user.state = s.state := h.state.symm
  have hnext : v.user.nextInfo = s.nextInfo := h.nextInfo.symm
  rw [hstate, hnext]
  refine ⟨rfl, ?_, congrArg (· + 1) h.nextInfo, h.sent, hheld, h.used⟩
  change s.infos.insert _ _ = v.user.infos.insert _ _
  rw [h.infos, h.nextInfo]
  rfl

theorem round_follows (codec : Codec) (hne : en.cdtSock ≠ en.swSock) (kernel : Kernel κ)
    (fuel : ℕ) (reported : List (Fd × Events)) (hinv : w.queue.Inv) :
    Exec.Ends (· = w) (round kernel fuel reported) fun _ w' => ∃ x : Seen, Saw reported x ∧
      Follows codec en w w' x.events (x.calls.map (·.2)) x.times := by
  have hsim := handler_simulates codec hne
  apply Exec.Ends.intro
  rintro v rfl _ w' hround
  obtain ⟨_, u, hwait, hbeat⟩ := Exec.bind_eq_ok hround
  obtain ⟨calls, hreported, hu⟩ :=
    (hsim.waitAndProcess kernel fuel reported hinv).of_eq rfl hwait
  obtain ⟨hw', hagrees⟩ :=
    (sendHeartbeats_agrees kernel id listed (fun _ => true) hu.inv).of_eq rfl hbeat
  have hlast : Follows codec en u w' [.sendHeartbeats u.user.now fun _ => true] []
      [u.user.now] :=
    hw'.follows fun s hs h => hagrees s h hs.alive
  refine ⟨⟨calls, u.user.now⟩, hreported, ?_⟩
  simpa [Seen.times, Seen.events] using hu.trans hsim.sound hlast

/-- The loop of the agent on its queue is the program of the agent. -/
theorem mainLoop_follows (codec : Codec) (kernel : Kernel κ) (fuel : ℕ) (k : κ) (clock : ℕ → ℤ)
    {x : Sockets} (hne : x.cdtSock ≠ x.swSock) (rounds : List (List (Fd × Events)))
    (h : mainLoop kernel fuel x rounds (start k clock) = (.ok (), w)) :
    ∃ seen : List Seen, List.Forall₂ Saw rounds seen ∧
      Passes (start k clock) w (seen.flatMap fun y => y.calls.map (·.2))
        ([clock 0, clock 1] ++ seen.flatMap Seen.times) ∧
      Agrees w.view (run codec (Agent.start (x.entry clock)) (seen.flatMap Seen.events)) := by
  obtain ⟨_, u, hcdt, hrest⟩ := Exec.bind_eq_ok h
  obtain ⟨_, v, hsw, hloop⟩ := Exec.bind_eq_ok hrest
  have hstart : Agrees (start k clock).view (⟨⟨none, none⟩, ∅, 1, ∅, []⟩ : Program) :=
    ⟨rfl, rfl, rfl, rfl, fun _ => rfl, rfl⟩
  obtain ⟨hu, hagrees⟩ := (addConn_agrees Queue.Inv.empty rfl .conductor
    (fun g p => { g with conductor := some p }) x.cdtAdded x.cdtStored).of_eq rfl hcdt
  have hua := hagrees _ hstart
  have hfree : u.queue.fdToNetworkElement.lookup x.swSock = none := by
    rw [← hu.inv.ptrOf_eq_none]
    refine (hua.held x.swSock).symm.trans ((lookup_put ∅ _ x.cdtSock x.swSock 1).trans ?_)
    rw [if_neg (fun hsame => hne hsame.1.symm)]
    rfl
  obtain ⟨hv, hagrees'⟩ := (addConn_agrees hu.inv hfree .switch
    (fun g p => { g with sw := some p }) x.swAdded x.swStored).of_eq rfl hsw
  have hen : (x.entry clock).cdtSock ≠ (x.entry clock).swSock := hne
  have hs : Sound (x.entry clock) (Agent.start (x.entry clock)) := ⟨true, true, .start hen⟩
  obtain ⟨-, rfl⟩ := Prod.mk.inj hcdt
  have hentered : Agrees v.view (Agent.start (x.entry clock)) := hagrees' _ hua
  obtain ⟨seen, hsaw, hseen⟩ := ((handler_simulates codec hen).forEach Saw Seen.events
    (fun y => y.calls.map (·.2)) Seen.times
    (fun reported w => round_follows codec hen kernel fuel reported) rounds hv.inv).of_eq rfl
    hloop
  exact ⟨seen, hsaw, (hu.trans hv).trans hseen.toPasses, hseen.always hs hentered⟩

end

def closing (fd : Fd) (p : ℕ) : Called → Bool
  | .onClose data => data.fd = fd && data.ptrData = p
  | _ => false

def wasClosed (log : List Callback) (put : Bool) (fd : Fd) (p : ℕ) : Bool :=
  put && log.any fun c => closing fd p c.called

theorem any_closes (fd : Fd) (p : ℕ) (seen : List Seen) :
    (seen.flatMap Seen.events).any (closes fd p) =
      (seen.flatMap fun x => x.calls.map (·.2)).any (closing fd p) := by
  have hcalls : ∀ calls : List (ℤ × Called), (eventsOf event calls).any (closes fd p) =
      (calls.map (·.2)).any (closing fd p) := by
    intro calls
    induction calls with
    | nil => rfl
    | cons c calls ih =>
      obtain ⟨t, called⟩ := c
      cases called with
      | onTunReady data => simpa [eventsOf, event, closing] using ih
      | onClose data => simpa [eventsOf, event, closing, closes] using congrArg _ ih
      | onSocketReady data => simpa [eventsOf, event, closing, closes] using ih
  induction seen with
  | nil => rfl
  | cons x seen ih =>
    rw [List.flatMap_cons, List.flatMap_cons, List.any_append, List.any_append, ih, Seen.events,
      List.any_append, hcalls]
    simp [closes]

/-- The agent's pointers on its queue. In every run of the loop whose rounds
return, whatever the kernel answers, no `ConnInfo` is used that is not allocated;
the allocated ones are those `g_state` points to, a pointer is null exactly when
`onClose` was called for its connection, and the queue holds exactly the
connections that were put and are still pointed to. -/
theorem loop_keeps_pointers {κ : Type} (kernel : Kernel κ) (fuel : ℕ) (k : κ) (clock : ℕ → ℤ)
    {x : Sockets} (hne : x.cdtSock ≠ x.swSock) (rounds : List (List (Fd × Events)))
    {w : World κ State} (h : mainLoop kernel fuel x rounds (start k clock) = (.ok (), w)) :
    w.user.misused = false ∧
      w.user.state.conductor =
        (if wasClosed w.log x.cdtPut x.cdtSock 1 then none else some 1) ∧
      w.user.state.sw = (if wasClosed w.log x.swPut x.swSock 2 then none else some 2) ∧
      (∀ p, (w.user.infos.lookup p).isSome ↔
        w.user.state.conductor = some p ∨ w.user.state.sw = some p) ∧
      ∀ fd p, w.view.held fd = some p ↔
        (w.user.state.conductor = some p ∧ fd = x.cdtSock ∧ x.cdtPut) ∨
          (w.user.state.sw = some p ∧ fd = x.swSock ∧ x.swPut) := by
  obtain ⟨seen, -, hseen, hagrees⟩ := mainLoop_follows .sample kernel fuel k clock hne rounds h
  have hen : (x.entry clock).cdtSock ≠ (x.entry clock).swSock := hne
  have hshape := Shape.run hen .sample (seen.flatMap Seen.events)
  have hlog : seen.flatMap (fun x => x.calls.map (·.2)) = w.log.map (·.called) :=
    hseen.log_eq.symm
  have hclosed : ∀ put fd p,
      Agent.closed put fd p (seen.flatMap Seen.events) = wasClosed w.log put fd p := by
    intro put fd p
    rw [Agent.closed, any_closes, hlog, List.any_map]
    rfl
  have hpointer : ∀ (b : Bool) (p : ℕ),
      (if !b then some p else none) = if b then none else some p := by
    intro b p
    cases b <;> rfl
  have hstate : w.user.state = _ := hagrees.state.symm
  have hinfos : w.user.infos = _ := hagrees.infos.symm
  rw [hstate, hinfos]
  refine ⟨hagrees.used, ?_, ?_, hshape.isSome_iff, fun fd p => ?_⟩
  · rw [hshape.conductor, hclosed]
    exact hpointer _ 1
  · rw [hshape.sw, hclosed]
    exact hpointer _ 2
  · rw [← hagrees.held fd]
    exact hshape.holds_iff hen fd p

/-- The conductor hangs up: `read()` on its socket gives nothing. -/
theorem loop_keeps_pointers_hangup :
    let x : Sockets := ⟨3, 4, true, true, true, true⟩
    let w := (mainLoop scriptedKernel 9 x [[(3, ⟨true, false, false, false⟩)]]
      (start [.bytes []] fun n => n)).2
    w.user.state = ⟨none, some 2⟩ ∧ (w.user.infos.lookup 1).isSome = false ∧
      w.view.held 4 = some 2 := by
  intro x w
  have hdone : (mainLoop scriptedKernel 9 x [[(3, ⟨true, false, false, false⟩)]]
      (start [.bytes []] fun n => n)).1 = .ok () := by decide +kernel
  obtain ⟨-, hcdt, hsw, hinfos, hheld⟩ :=
    @loop_keeps_pointers _ scriptedKernel 9 [.bytes []] (fun n => n) x (by decide) _ w
      (Exec.eq_ok_of_fst hdone)
  have hstate : w.user.state = ⟨none, some 2⟩ := by decide +kernel
  refine ⟨hstate, ?_, ?_⟩
  · rw [Bool.eq_false_iff, ne_eq, hinfos, hstate]
    simp
  · rw [hheld, hstate]
    exact .inr ⟨rfl, rfl, rfl⟩

end VNet.Agent.EventLoop
