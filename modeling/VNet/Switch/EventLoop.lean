import VNet.Memory
import VNet.Switch.AgentList

namespace VNet.Switch.EventLoop
open Protocol NetQueue

abbrev State := Memory ℤ SwitchState Peer

variable (codec : Codec)

def onAgentConnectionToken (m : State) (pkt : PacketAgentConnectionToken) : Reaction State :=
  .done (m.tick.withState { m.state with
    pendingTokens := m.state.pendingTokens.insert pkt.connectionToken ⟨pkt.agentName, m.now⟩ })

def onAuthConnectToSwitch (m : State) (data : SocketData) (pkt : PacketAuthConnectToSwitch) :
    Reaction State :=
  match m.state.pendingTokens.lookup pkt.connectionToken with
  | none => .close data.fd (.done m)
  | some token =>
    let marked := (m.assign data.ptrData fun info =>
      { info with peer := ⟨.agentAuthenticated, token.agentName⟩ }).withState { m.state with
        pendingTokens := m.state.pendingTokens.erase pkt.connectionToken
        agents := m.state.agents ++ [data.ptrData] }
    let ack := codec.connectionAccepted.serializeToString ⟨⟩
    queueSend data.fd .connectionAccepted ack
      (.done (marked.note (data.ptrData, data.fd, .connectionAccepted, ack.getD [])))

def closedState (m : State) (p : ℕ) (info : ConnInfo Peer) : SwitchState :=
  { m.state with
    agents := if info.peer.role = .agentAuthenticated then m.state.agents.filter (· ≠ p)
      else m.state.agents
    conductor := if m.state.conductor = some p then none else m.state.conductor }

def onClose (m : State) (data : CloseData) : Reaction State :=
  .done (if data.ptrData = 0 then m
    else m.deref data.ptrData fun info =>
      (m.withState (closedState m data.ptrData info)).delete data.ptrData)

def onSocketReady (m : State) (data : SocketData) : Reaction State :=
  match data.packetType with
  | .agentConnectionToken =>
    match codec.agentConnectionToken.parseFromArray data.packetBuffer with
    | some pkt => onAgentConnectionToken m pkt
    | none => .done m
  | .authConnectToSwitch =>
    match codec.authConnectToSwitch.parseFromArray data.packetBuffer with
    | some pkt => onAuthConnectToSwitch codec m data pkt
    | none => .done m
  | _ => .done m

/-- `makeNetworkQueueHandler(&dispatch)`. -/
def handler : NetworkQueueHandler State where
  onClose := onClose
  onSocketReady := onSocketReady codec
  onTunReady m _ := .done m

variable {κ : Type} (kernel : Kernel κ) (fuel : ℕ)

structure Round where
  clients : List Client
  reported : List (Fd × Events)
  deriving DecidableEq, Repr

def expireTokens : NetQueue.Run κ State Unit :=
  Exec.change fun w => { w with
    user := w.user.tick.withState (w.user.state.expireTokens w.user.now) }

def listed (g : SwitchState) : List ℕ := g.conductor.toList ++ g.agents

def round (r : Round) : NetQueue.Run κ State Unit := do
  Exec.forEach (acceptClient id ⟨.agentPending, []⟩) r.clients
  NetQueue.waitAndProcess kernel (handler codec) fuel r.reported
  expireTokens
  VNet.sendHeartbeats kernel id listed

def mainLoop (rounds : List Round) : NetQueue.Run κ State Unit :=
  Exec.forEach (round codec kernel fuel) rounds

def start (k : κ) (clock : ℕ → ℤ) (cdtSock : Fd) : World κ State where
  queue := (Queue.put .empty cdtSock 1 .sckHeader true true).2
  kernel := k
  user :=
    let m : State := ⟨⟨∅, [], some 1⟩, ∅, 1, [], clock, false⟩
    m.tick.alloc ⟨cdtSock, m.now, .conductor, "conductor".toList⟩
  upcoming := []
  log := []
  calling := none
  overflows := []

/-- Every `ConnInfo` the program gets hold of is allocated: those of the queue
and those of `g_state`. -/
structure Sound (s : Program) : Prop where
  wired : s.Wired
  agents : ∀ p ∈ s.state.agents, role s p = some .agentAuthenticated
  conductor : ∀ p, s.state.conductor = some p → role s p ≠ none

variable {codec} {s s' : Program}

theorem alive_of_role {p : ℕ} (h : role s p ≠ none) : ∃ info, s.infos.lookup p = some info := by
  rw [role, Ne, Option.map_eq_none_iff] at h
  exact Option.ne_none_iff_exists'.mp h

theorem Sound.alive (h : Sound s) : ∀ p ∈ listed s.state, ∃ info, s.infos.lookup p = some info := by
  intro p hp
  rcases List.mem_append.mp hp with hcond | hagent
  · exact alive_of_role (h.conductor p (Option.mem_toList.mp hcond))
  · apply alive_of_role
    rw [h.agents p hagent]
    simp

/-- Only the list, the pointer and the roles matter. -/
theorem Sound.congr (h : Sound s) (hw : s'.Wired) (hagents : s'.state.agents = s.state.agents)
    (hconductor : s'.state.conductor = s.state.conductor)
    (hrole : ∀ p, role s p ≠ none → role s' p = role s p) : Sound s' where
  wired := hw
  agents p hp := by
    rw [hagents] at hp
    have hr := h.agents p hp
    rw [hrole p (by simp [hr]), hr]
  conductor p hp := by
    rw [hconductor] at hp
    rw [hrole p (h.conductor p hp)]
    exact h.conductor p hp

theorem Sound.step (h : Sound s) (codec : Codec) (e : Event) : Sound (step codec s e) := by
  have ht := step_transition codec h.wired e
  generalize Switch.step codec s e = s' at ht ⊢
  have hw := ht.wired h.wired
  cases ht with
  | idle => exact h
  | accepted fd now =>
    apply h.congr hw rfl rfl
    intro p hp
    obtain ⟨info, hinfo⟩ := alive_of_role hp
    have hlt := (h.wired.fresh p info hinfo).2
    rw [role_enroll, if_neg (by omega)]
  | notPut => exact h.congr hw rfl rfl fun _ _ => rfl
  | token => exact h.congr hw rfl rfl fun _ _ => rfl
  | refused => exact h.congr hw rfl rfl fun _ _ => rfl
  | authenticated _ data pkt token info call =>
    refine ⟨hw, fun p hp => ?_, fun p hp => ?_⟩
    · rw [role_mark]
      split_ifs with heq
      · rfl
      · rcases List.mem_append.mp hp with hold | hnew
        · exact h.agents p hold
        · exact absurd (List.mem_singleton.mp hnew) heq
    · rw [role_mark]
      split_ifs
      · simp
      · exact h.conductor p hp
  | closed data info hh hinfo =>
    refine ⟨hw, fun p hp => ?_, fun p hp => ?_⟩
    · have hmem : p ∈ s.state.agents ∧ p ≠ data.ptrData := by
        simp only [forget] at hp
        split_ifs at hp with hrole
        · simpa using List.mem_filter.mp hp
        · -- one that is listed is marked, so the one that is closed was not listed
          refine ⟨hp, ?_⟩
          rintro rfl
          have hr := h.agents _ hp
          rw [role_eq_of_lookup hinfo] at hr
          exact hrole (Option.some.inj hr)
      rw [role_forget, if_neg hmem.2]
      exact h.agents p hmem.1
    · simp only [forget] at hp
      split_ifs at hp with hcond
      have hne : p ≠ data.ptrData := by
        rintro rfl
        exact hcond hp
      rw [role_forget, if_neg hne]
      exact h.conductor p hp
  | expired => exact h.congr hw rfl rfl fun _ _ => rfl
  | heartbeats now ok s' hk =>
    exact h.congr hw (by rw [hk.state_eq]) (by rw [hk.state_eq]) fun p _ => role_of_kept hk p

theorem Sound.start (cdtSock : Fd) (now : ℤ) : Sound (Switch.start cdtSock now) where
  wired := wired_start cdtSock now
  agents := by simp [Switch.start]
  conductor p hp := by
    rw [← Option.some.inj hp, role, Switch.start, AList.lookup_insert]
    simp

def event (now : ℤ) : Called → Option Event
  | .onSocketReady data => some (.packet data now true)
  | .onClose data => some (.closed data)
  | .onTunReady _ => none

section
variable {data : SocketData} (hh : s.Holds data.fd data.ptrData)

include hh

theorem step_token (ht : data.packetType = .agentConnectionToken) (now : ℤ) :
    step codec s (.packet data now true) =
      match codec.agentConnectionToken.parseFromArray data.packetBuffer with
      | some pkt => remember s pkt now
      | none => s := by
  simp only [Switch.step, handle, Server.socketReady, if_pos hh, Dispatch.onSocketReady, ht,
    MessageCodec.ifParsed]
  cases codec.agentConnectionToken.parseFromArray data.packetBuffer <;> rfl

theorem step_auth (ht : data.packetType = .authConnectToSwitch) (now : ℤ) :
    step codec s (.packet data now true) =
      match codec.authConnectToSwitch.parseFromArray data.packetBuffer with
      | some pkt => (Switch.onAuthConnectToSwitch codec true data pkt s).2
      | none => s := by
  simp only [Switch.step, handle, Server.socketReady, if_pos hh, Dispatch.onSocketReady, ht,
    MessageCodec.ifParsed]
  cases codec.authConnectToSwitch.parseFromArray data.packetBuffer <;> rfl

theorem step_other (htoken : data.packetType ≠ .agentConnectionToken)
    (hauth : data.packetType ≠ .authConnectToSwitch) (now : ℤ) :
    step codec s (.packet data now true) = s := by
  simp only [Switch.step, handle, Server.socketReady, if_pos hh, Dispatch.onSocketReady]
  cases ht : data.packetType with
  | agentConnectionToken => exact absurd ht htoken
  | authConnectToSwitch => exact absurd ht hauth
  | _ => simp only [dispatch, MessageCodec.ifParsed_nothing, Exec.pure_apply]

end

theorem step_closed {close : CloseData} {info : ConnInfo Peer} (hw : s.Wired)
    (hheld : s.Holds close.fd close.ptrData) (hinfo : s.infos.lookup close.ptrData = some info) :
    step codec s (.closed close) = forget s close info := by
  have hne : close.ptrData ≠ 0 := Nat.pos_iff_ne_zero.mp (hw.fresh _ _ hinfo).1
  simp only [Switch.step, handle, Server.socketClosed, if_pos hheld, dispatch]
  rw [onClose_eq hne hinfo]

theorem onAuthConnectToSwitch_apply (codec : Codec) {data : SocketData}
    {pkt : PacketAuthConnectToSwitch} {token : PendingToken} {info : ConnInfo Peer}
    (hsome : s.state.pendingTokens.lookup pkt.connectionToken = some token)
    (hinfo : s.infos.lookup data.ptrData = some info) :
    ∃ ok, (Switch.onAuthConnectToSwitch codec true data pkt s).2 =
      mark s data pkt.connectionToken token.agentName info
        ⟨data.ptrData, data.fd, .connectionAccepted,
          (codec.connectionAccepted.serializeToString ⟨⟩).getD [], ok⟩ := by
  refine ⟨s.sends data.fd (codec.connectionAccepted.serializeToString ⟨⟩) true, ?_⟩
  rw [Switch.onAuthConnectToSwitch, Exec.bind_ok (Server.look_apply s), hsome]
  simp only
  rw [Exec.bind_ok (Server.assign_ok hinfo _), Exec.bind_ok (Server.modify_apply _ _),
    Exec.bind_ok (Server.send_apply _ _ _ _ _ _)]
  rfl

section
variable {v v' : View State} {data : SocketData}

theorem onAgentConnectionToken_agrees (h : Agrees v s) (pkt : PacketAgentConnectionToken)
    (hreacts : View.Reacts (onAgentConnectionToken v.user pkt) v v') :
    Agrees v' (remember s pkt v.user.now) := by
  rw [reacts_done hreacts]
  have hagrees := h.tick.withState { v.user.state with
    pendingTokens := v.user.state.pendingTokens.insert pkt.connectionToken
      ⟨pkt.agentName, v.user.now⟩ }
  rw [← h.state] at hagrees ⊢
  exact hagrees

theorem onAuthConnectToSwitch_agrees (codec : Codec) (hs : Sound s) (h : Agrees v s)
    (hh : s.Holds data.fd data.ptrData) (pkt : PacketAuthConnectToSwitch)
    (hreacts : View.Reacts (onAuthConnectToSwitch codec v.user data pkt) v v') :
    Agrees v' (Switch.onAuthConnectToSwitch codec true data pkt s).2 := by
  unfold onAuthConnectToSwitch at hreacts
  rw [← h.state] at hreacts
  cases htoken : s.state.pendingTokens.lookup pkt.connectionToken with
  | none =>
    rw [htoken] at hreacts
    rw [onAuthConnectToSwitch_unknown htoken, reacts_close hreacts]
    exact h.drop data.fd
  | some token =>
    rw [htoken] at hreacts
    obtain ⟨info, hinfo, -⟩ := hs.wired.alive _ _ hh
    obtain ⟨ok, heq⟩ := onAuthConnectToSwitch_apply codec htoken hinfo
    rw [heq, reacts_done (reacts_queueSend hreacts)]
    have hassigned := h.assign hinfo fun info =>
      { info with peer := ⟨.agentAuthenticated, token.agentName⟩ }
    have hmarked := hassigned.withState { s.state with
      pendingTokens := s.state.pendingTokens.erase pkt.connectionToken
      agents := s.state.agents ++ [data.ptrData] }
    exact hmarked.note ⟨data.ptrData, data.fd, .connectionAccepted, _, ok⟩

theorem onClose_agrees {close : CloseData} (hs : Sound s) (h : Agrees v s)
    (hh : s.Holds close.fd close.ptrData) (hreacts : View.Reacts (onClose v.user close) v v') :
    Agrees (v'.drop close.fd) (step codec s (.closed close)) := by
  obtain ⟨info, hinfo, -⟩ := hs.wired.alive _ _ hh
  have hne : close.ptrData ≠ 0 := Nat.pos_iff_ne_zero.mp (hs.wired.fresh _ _ hinfo).1
  have hdropped := (h.closed hne hinfo (closedState v.user close.ptrData)).drop close.fd
  rw [step_closed hs.wired hh hinfo, reacts_done hreacts]
  simp only [closedState, ← h.state] at hdropped ⊢
  exact hdropped

theorem onSocketReady_agrees (codec : Codec) (hs : Sound s) (h : Agrees v s)
    (hh : s.Holds data.fd data.ptrData)
    (hreacts : View.Reacts (onSocketReady codec v.user data) v v') :
    Agrees v' (step codec s (.packet data v.user.now true)) := by
  unfold onSocketReady at hreacts
  by_cases htoken : data.packetType = .agentConnectionToken
  · rw [step_token hh htoken]
    rw [htoken] at hreacts
    cases hparse : codec.agentConnectionToken.parseFromArray data.packetBuffer with
    | none =>
      simp only [hparse] at hreacts
      exact nothing_agrees h hreacts
    | some pkt =>
      simp only [hparse] at hreacts
      exact onAgentConnectionToken_agrees h pkt hreacts
  · by_cases hauth : data.packetType = .authConnectToSwitch
    · rw [step_auth hh hauth]
      rw [hauth] at hreacts
      cases hparse : codec.authConnectToSwitch.parseFromArray data.packetBuffer with
      | none =>
        simp only [hparse] at hreacts
        exact nothing_agrees h hreacts
      | some pkt =>
        simp only [hparse] at hreacts
        exact onAuthConnectToSwitch_agrees codec hs h hh pkt hreacts
    · rw [step_other hh htoken hauth]
      apply nothing_agrees h
      cases ht : data.packetType with
      | agentConnectionToken => exact absurd ht htoken
      | authConnectToSwitch => exact absurd ht hauth
      | _ => simpa only [ht] using hreacts

theorem onSocketReady_reads (codec : Codec)
    (hreacts : View.Reacts (onSocketReady codec v.user data) v v') :
    Reads v.user.answers v'.user.answers [v.user.answer] := by
  unfold onSocketReady at hreacts
  split at hreacts
  · split at hreacts
    · exact reads_done hreacts (.once _)
    · exact reads_done hreacts (.ahead _)
  · split at hreacts
    · unfold onAuthConnectToSwitch at hreacts
      split at hreacts
      · rw [reacts_close hreacts]
        exact .ahead _
      · refine reads_done (reacts_queueSend hreacts) ?_
        simp only [Memory.note, Memory.withState, Memory.answers_assign]
        exact .ahead _
    · exact reads_done hreacts (.ahead _)
  · exact reads_done hreacts (.ahead _)

theorem onClose_reads {close : CloseData} (hreacts : View.Reacts (onClose v.user close) v v') :
    Reads v.user.answers v'.user.answers [v.user.answer] :=
  reads_done hreacts (reads_closed _ _ _)

end

/-- What `SwitchDispatch` does in a callback is what the program does on the
event. -/
theorem handler_simulates (codec : Codec) :
    Simulates (handler codec) event (step codec) (fun _ _ => True) Sound where
  sound s e hs _ := hs.step codec e
  reads {v v' c} _ hcall := by
    obtain ⟨-, -, m, hreacts, rfl⟩ := hcall
    rw [View.returned_user]
    cases c with
    | onClose data => exact onClose_reads hreacts
    | onSocketReady data => exact onSocketReady_reads codec hreacts
    | onTunReady data => exact reads_done hreacts (.ahead _)
  agrees {v v' s c} _ hs h hcall := by
    obtain ⟨-, hheld, m, hreacts, rfl⟩ := hcall
    cases c with
    | onClose data => exact onClose_agrees hs h (h.holds.mpr hheld) hreacts
    | onSocketReady data => exact onSocketReady_agrees codec hs h (h.holds.mpr hheld) hreacts
    | onTunReady data => exact nothing_agrees h hreacts

/-- What a round saw: the clients it accepted and the callbacks, each with the
time, and the times at which it expired tokens and sent heartbeats. -/
structure Seen where
  clients : List (ℤ × Client)
  calls : List (ℤ × Called)
  expired : ℤ
  beat : ℤ

/-- The clients are those of the round, and the callbacks are for descriptors that
were reported in it. -/
structure Round.Saw (r : Round) (x : Seen) : Prop where
  clients : x.clients.map (·.2) = r.clients
  calls : ∀ c ∈ x.calls, c.2.fd ∈ r.reported.map (·.1)

def accepted (now : ℤ) (c : Client) : Event := .accept c.fd now c.put

def Seen.events (x : Seen) : List Event :=
  x.clients.map (fun c => accepted c.1 c.2) ++ eventsOf event x.calls ++
    [.expireTokens x.expired, .sendHeartbeats x.beat fun _ => true]

def Seen.times (x : Seen) : List ℤ :=
  x.clients.map (·.1) ++ x.calls.map (·.1) ++ [x.expired, x.beat]

abbrev Follows {κ : Type} (codec : Codec) (w w' : World κ State) (es : List Event)
    (cs : List Called) (times : List ℤ) : Prop :=
  VNet.Follows (step codec) (fun _ _ => True) Sound w w' es cs times

section
variable {κ : Type} {w : World κ State}

theorem expireTokens_follows (codec : Codec) (hinv : w.queue.Inv) :
    Exec.Ends (· = w) expireTokens fun _ w' =>
      Follows codec w w' [.expireTokens w.user.now] [] [w.user.now] := by
  apply Exec.Triple.change
  rintro v rfl
  have hpasses : Passes v { v with
      user := v.user.tick.withState (v.user.state.expireTokens v.user.now) } [] [v.user.now] :=
    .silent hinv rfl (.once _)
  refine hpasses.follows fun s _ h => ?_
  have hstate : v.user.state = s.state := h.state.symm
  have hagrees := h.tick.withState (v.user.state.expireTokens v.user.now)
  rw [hstate] at hagrees ⊢
  exact hagrees

theorem sendHeartbeats_follows (codec : Codec) (kernel : Kernel κ) (hinv : w.queue.Inv) :
    Exec.Ends (· = w) (VNet.sendHeartbeats kernel id listed) fun _ w' =>
      Follows codec w w' [.sendHeartbeats w.user.now fun _ => true] [] [w.user.now] := by
  apply (sendHeartbeats_agrees kernel id listed (fun _ => true) hinv).values
  rintro _ w' ⟨hw', hagrees⟩
  exact hw'.follows fun s hs h => hagrees s h hs.alive

theorem round_follows (codec : Codec) (kernel : Kernel κ) (fuel : ℕ) (r : Round)
    (hinv : w.queue.Inv) :
    Exec.Ends (· = w) (round codec kernel fuel r) fun _ w' => ∃ x : Seen, r.Saw x ∧
      Follows codec w w' x.events (x.calls.map (·.2)) x.times := by
  have hsim := handler_simulates codec
  apply Exec.Ends.intro
  rintro v rfl _ w' hround
  obtain ⟨_, u, hclients, hround⟩ := Exec.bind_eq_ok hround
  obtain ⟨_, t, hwait, hround⟩ := Exec.bind_eq_ok hround
  obtain ⟨_, t', hexpire, hbeat⟩ := Exec.bind_eq_ok hround
  obtain ⟨clients, hmap, hu⟩ := (hsim.acceptClients id ⟨.agentPending, []⟩ accepted
    (fun _ _ _ => rfl) r.clients hinv).of_eq rfl hclients
  obtain ⟨calls, hreported, ht⟩ :=
    (hsim.waitAndProcess kernel fuel r.reported hu.inv).of_eq rfl hwait
  have ht' := (expireTokens_follows codec ht.inv).of_eq rfl hexpire
  have hlast := (sendHeartbeats_follows codec kernel ht'.inv).of_eq rfl hbeat
  refine ⟨⟨clients, calls, t.user.now, t'.user.now⟩, ⟨hmap, hreported⟩, ?_⟩
  have hall := ((hu.trans hsim.sound ht).trans hsim.sound ht').trans hsim.sound hlast
  simpa [Seen.times, Seen.events] using hall

end

theorem start_agrees {κ : Type} (k : κ) (clock : ℕ → ℤ) (cdtSock : Fd) :
    Agrees (start k clock cdtSock).view (Switch.start cdtSock (clock 0)) where
  state := rfl
  infos := rfl
  nextInfo := rfl
  sent := rfl
  held fd := by
    change (Switch.start cdtSock (clock 0)).queue.lookup fd =
      (Queue.put .empty cdtSock 1 .sckHeader true true).2.ptrOf fd
    rw [Queue.Inv.empty.ptrOf_put, if_pos ⟨rfl, rfl, rfl⟩, Function.update_apply]
    exact FiniteMap.lookup_insert_eq _ _ _ _
  used := rfl

/-- The loop of the switch on its queue is the program of the switch. In every
run whose rounds return, whatever the kernel answers, the memory and the table of
descriptors at the end are those of a run of the program over these events, round
by round: an `accept` for each client, a `packet` or `closed` for each callback in
its order, then `expireTokens` and `sendHeartbeats`; their times are what the
clock said, in order, and no `ConnInfo` was used that was not allocated. -/
theorem loop_runs_program {κ : Type} (codec : Codec) (kernel : Kernel κ) (fuel : ℕ) (k : κ)
    (clock : ℕ → ℤ) (cdtSock : Fd) (rounds : List Round) {w : World κ State}
    (h : mainLoop codec kernel fuel rounds (start k clock cdtSock) = (.ok (), w)) :
    ∃ seen : List Seen, List.Forall₂ Round.Saw rounds seen ∧
      seen.flatMap (fun x => x.calls.map (·.2)) = w.log.map (·.called) ∧
      Reads clock w.user.answers (clock 0 :: seen.flatMap Seen.times) ∧
      Agrees w.view (run codec (Switch.start cdtSock (clock 0)) (seen.flatMap Seen.events)) := by
  have hinv : (start k clock cdtSock).queue.Inv := Queue.Inv.empty.put _ _ _ _ _
  obtain ⟨seen, hsaw, hseen⟩ := ((handler_simulates codec).forEach Round.Saw Seen.events
    (fun x => x.calls.map (·.2)) Seen.times
    (fun r w => round_follows codec kernel fuel r) rounds hinv).of_eq rfl h
  refine ⟨seen, hsaw, hseen.log_eq.symm, ?_, ?_⟩
  · exact (Reads.once clock).append hseen.reads
  · exact hseen.always (Sound.start cdtSock (clock 0)) (start_agrees k clock cdtSock)

def joiningReads : List ReadResult := [
  .bytes (packetHeader 12 .agentConnectionToken),
  .bytes [0x0a, 1, 0x61, 0x11, 7, 0, 0, 0, 0, 0, 0, 0], .eagain,
  .bytes (packetHeader 9 .authConnectToSwitch), .bytes [0x09, 7, 0, 0, 0, 0, 0, 0, 0], .eagain]

def joiningRounds : List Round :=
  [⟨[⟨5, true, true⟩], [(3, ⟨true, false, false, false⟩), (5, ⟨true, false, false, false⟩)]⟩]

theorem loop_runs_program_joining :
    let clock : ℕ → ℤ := fun n => n
    let w := (mainLoop .sample scriptedKernel 9 joiningRounds (start joiningReads clock 3)).2
    w.user.state.agents = [2] ∧ ∃ seen : List Seen,
      List.Forall₂ Round.Saw joiningRounds seen ∧
        seen.flatMap (fun x => x.calls.map (·.2)) = w.log.map (·.called) ∧
        Reads clock w.user.answers (clock 0 :: seen.flatMap Seen.times) ∧
        Agrees w.view (run .sample (Switch.start 3 (clock 0)) (seen.flatMap Seen.events)) := by
  intro clock w
  have hdone : (mainLoop .sample scriptedKernel 9 joiningRounds
      (start joiningReads clock 3)).1 = .ok () := by decide +kernel
  refine ⟨by decide +kernel, ?_⟩
  exact loop_runs_program .sample scriptedKernel 9 joiningReads clock 3 joiningRounds
    (Exec.eq_ok_of_fst hdone)

end VNet.Switch.EventLoop
