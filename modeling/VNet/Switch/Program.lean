import VNet.Server

namespace VNet.Switch
open Protocol NetQueue

inductive ConnRole
  | conductor
  | agentPending
  | agentAuthenticated
  deriving DecidableEq, Repr

structure Peer where
  role : ConnRole
  name : Text
  deriving DecidableEq, Repr

structure PendingToken where
  agentName : Text
  created : ℤ
  deriving DecidableEq, Repr

structure SwitchState where
  pendingTokens : FiniteMap UInt64 PendingToken
  agents : List ℕ
  conductor : Option ℕ
  deriving DecidableEq

def tokenExpiry : ℤ := 60 * 10 ^ 9

/-- One round of the loop in `expire_tokens`, at the entry under `token`. -/
def expireToken (now : ℤ) (m : FiniteMap UInt64 PendingToken) (token : UInt64) :
    FiniteMap UInt64 PendingToken :=
  match m.lookup token with
  | some t => if tokenExpiry < now - t.created then m.erase token else m
  | none => m

def SwitchState.expireTokens (now : ℤ) (g : SwitchState) : SwitchState :=
  { g with pendingTokens := g.pendingTokens.keys.foldl (expireToken now) g.pendingTokens }

abbrev Program := Server SwitchState Peer

abbrev Run (α : Type) := Server.Run SwitchState Peer α

def onAgentConnectionToken (now : ℤ) (_ : SocketData) (pkt : PacketAgentConnectionToken) :
    Run Unit :=
  Server.modify fun g =>
    { g with pendingTokens := g.pendingTokens.insert pkt.connectionToken ⟨pkt.agentName, now⟩ }

def onAuthConnectToSwitch (codec : Codec) (ok : Bool) (data : SocketData)
    (pkt : PacketAuthConnectToSwitch) : Run Unit := do
  let g ← Exec.look Server.state
  match g.pendingTokens.lookup pkt.connectionToken with
  | none => Server.queueClose data.fd
  | some token =>
    Server.assign data.ptrData fun info =>
      { info with peer := ⟨.agentAuthenticated, token.agentName⟩ }
    Server.modify fun g =>
      { g with
        pendingTokens := g.pendingTokens.erase pkt.connectionToken
        agents := g.agents ++ [data.ptrData] }
    let _ ← Server.send data.ptrData data.fd .connectionAccepted
      (codec.connectionAccepted.serializeToString ⟨⟩) ok
    pure ()

def onClose (data : CloseData) : Run Unit :=
  if data.ptrData = 0 then pure ()
  else do
    let info ← Server.deref data.ptrData
    if info.peer.role = .agentAuthenticated then
      Server.modify fun g => { g with agents := g.agents.filter (· ≠ data.ptrData) }
    else pure ()
    Server.modify fun g =>
      { g with conductor := if g.conductor = some data.ptrData then none else g.conductor }
    Server.delete data.ptrData

/-- `SwitchDispatch`; `now` and `ok` answer `clk::now()` and the send. -/
def dispatch (codec : Codec) (now : ℤ) (ok : Bool) : Dispatch Program Server.Fault where
  onAgentConnectionToken := onAgentConnectionToken now
  onAuthConnectToSwitch := onAuthConnectToSwitch codec ok
  onClose := onClose

def sendHeartbeats (now : ℤ) (ok : Fd → Bool) : Run Unit := do
  let g ← Exec.look Server.state
  Exec.forEach (Server.tryHb now ok) (g.conductor.toList ++ g.agents)

/-- What happens to the switch in its event loop, with the answers of the
clock and of the kernel. -/
inductive Event
  | accept (fd : Fd) (now : ℤ) (put : Bool)
  | packet (data : SocketData) (now : ℤ) (ok : Bool)
  | closed (data : CloseData)
  | expireTokens (now : ℤ)
  | sendHeartbeats (now : ℤ) (ok : Fd → Bool)

def handle (codec : Codec) : Event → Run Unit
  | .accept fd now put => Server.accept fd ⟨fd, now, .agentPending, []⟩ put
  | .packet data now ok => Server.socketReady codec (dispatch codec now ok) data
  | .closed data => Server.socketClosed (dispatch codec 0 true) data
  | .expireTokens now => Server.modify (SwitchState.expireTokens now)
  | .sendHeartbeats now ok => sendHeartbeats now ok

def step (codec : Codec) (s : Program) (e : Event) : Program := (handle codec e s).2

abbrev run (codec : Codec) (s : Program) (es : List Event) : Program := Runs.run (step codec) s es

def start (cdtSock : Fd) (now : ℤ) : Program where
  state := ⟨∅, [], some 1⟩
  infos := (∅ : FiniteMap ℕ _).insert 1 ⟨cdtSock, now, .conductor, "conductor".toList⟩
  nextInfo := 2
  queue := (∅ : FiniteMap Fd ℕ).insert cdtSock 1
  sent := []

def tokenPacket (codec : Codec) (s : Program) :
    Event → Option (SocketData × PacketAgentConnectionToken × ℤ)
  | .packet data now _ =>
    if s.Holds data.fd data.ptrData ∧ data.packetType = .agentConnectionToken then
      (codec.agentConnectionToken.parseFromArray data.packetBuffer).map (data, ·, now)
    else none
  | _ => none

def authPacket (codec : Codec) (s : Program) :
    Event → Option (SocketData × PacketAuthConnectToSwitch)
  | .packet data _ _ =>
    if s.Holds data.fd data.ptrData ∧ data.packetType = .authConnectToSwitch then
      (codec.authConnectToSwitch.parseFromArray data.packetBuffer).map (data, ·)
    else none
  | _ => none

def enroll (s : Program) (fd : Fd) (now : ℤ) : Program :=
  { s with
    infos := s.infos.insert s.nextInfo ⟨fd, now, .agentPending, []⟩
    nextInfo := s.nextInfo + 1
    queue := s.queue.insert fd s.nextInfo }

def remember (s : Program) (pkt : PacketAgentConnectionToken) (now : ℤ) : Program :=
  { s with state := { s.state with
      pendingTokens := s.state.pendingTokens.insert pkt.connectionToken ⟨pkt.agentName, now⟩ } }

/-- A connection that showed an unknown token leaves the queue. -/
def refuse (s : Program) (fd : Fd) : Program := { s with queue := s.queue.erase fd }

def mark (s : Program) (data : SocketData) (token : UInt64) (name : Text)
    (info : ConnInfo Peer) (call : SendCall) : Program :=
  { s with
    state := { s.state with
      pendingTokens := s.state.pendingTokens.erase token
      agents := s.state.agents ++ [data.ptrData] }
    infos := s.infos.insert data.ptrData { info with peer := ⟨.agentAuthenticated, name⟩ }
    sent := s.sent ++ [call] }

def forget (s : Program) (data : CloseData) (info : ConnInfo Peer) : Program :=
  { s with
    state := { s.state with
      agents := if info.peer.role = .agentAuthenticated then
        s.state.agents.filter (· ≠ data.ptrData) else s.state.agents
      conductor := if s.state.conductor = some data.ptrData then none else s.state.conductor }
    infos := s.infos.erase data.ptrData
    queue := s.queue.erase data.fd }

/-- Everything an event can do to the switch. -/
inductive Transition (codec : Codec) (s : Program) : Event → Program → Prop
  | idle (e : Event) (htoken : tokenPacket codec s e = none) (hauth : authPacket codec s e = none)
      (hexpire : ∀ now, e ≠ .expireTokens now) : Transition codec s e s
  | accepted (fd : Fd) (now : ℤ) (hfd : 0 ≤ fd) (hfree : s.queue.lookup fd = none) :
      Transition codec s (.accept fd now true) (enroll s fd now)
  | notPut (fd : Fd) (now : ℤ) :
      Transition codec s (.accept fd now false) { s with nextInfo := s.nextInfo + 1 }
  | token (e : Event) (data : SocketData) (pkt : PacketAgentConnectionToken) (now : ℤ)
      (h : tokenPacket codec s e = some (data, pkt, now)) :
      Transition codec s e (remember s pkt now)
  | refused (e : Event) (data : SocketData) (pkt : PacketAuthConnectToSwitch)
      (h : authPacket codec s e = some (data, pkt))
      (hnone : s.state.pendingTokens.lookup pkt.connectionToken = none) :
      Transition codec s e (refuse s data.fd)
  | authenticated (e : Event) (data : SocketData) (pkt : PacketAuthConnectToSwitch)
      (token : PendingToken) (info : ConnInfo Peer) (call : SendCall)
      (h : authPacket codec s e = some (data, pkt))
      (hsome : s.state.pendingTokens.lookup pkt.connectionToken = some token)
      (hinfo : s.infos.lookup data.ptrData = some info)
      (hcall : call.fd = data.fd ∧ call.type = .connectionAccepted) :
      Transition codec s e (mark s data pkt.connectionToken token.agentName info call)
  | closed (data : CloseData) (info : ConnInfo Peer) (h : s.Holds data.fd data.ptrData)
      (hinfo : s.infos.lookup data.ptrData = some info) :
      Transition codec s (.closed data) (forget s data info)
  | expired (now : ℤ) :
      Transition codec s (.expireTokens now) { s with state := s.state.expireTokens now }
  | heartbeats (now : ℤ) (ok : Fd → Bool) (s' : Program)
      (h : Server.Kept (s.state.conductor.toList ++ s.state.agents) s s') :
      Transition codec s (.sendHeartbeats now ok) s'

variable {codec : Codec} {s : Program} {e : Event}

theorem tokenPacket_eq_some {data : SocketData} {pkt : PacketAgentConnectionToken} {now : ℤ}
    (h : tokenPacket codec s e = some (data, pkt, now)) : ∃ ok, e = .packet data now ok ∧
      s.Holds data.fd data.ptrData ∧ data.packetType = .agentConnectionToken ∧
      codec.agentConnectionToken.parseFromArray data.packetBuffer = some pkt := by
  cases e with
  | packet d n ok =>
    simp only [tokenPacket] at h
    split_ifs at h with hh
    obtain ⟨pkt', hparse, heq⟩ := Option.map_eq_some_iff.mp h
    obtain ⟨rfl, hrest⟩ := Prod.mk.inj heq
    obtain ⟨rfl, rfl⟩ := Prod.mk.inj hrest
    exact ⟨ok, rfl, hh.1, hh.2, hparse⟩
  | _ => simp [tokenPacket] at h

theorem authPacket_eq_some {data : SocketData} {pkt : PacketAuthConnectToSwitch}
    (h : authPacket codec s e = some (data, pkt)) : ∃ now ok, e = .packet data now ok ∧
      s.Holds data.fd data.ptrData ∧ data.packetType = .authConnectToSwitch ∧
      codec.authConnectToSwitch.parseFromArray data.packetBuffer = some pkt := by
  cases e with
  | packet d n ok =>
    simp only [authPacket] at h
    split_ifs at h with hh
    obtain ⟨pkt', hparse, heq⟩ := Option.map_eq_some_iff.mp h
    obtain ⟨rfl, rfl⟩ := Prod.mk.inj heq
    exact ⟨n, ok, rfl, hh.1, hh.2, hparse⟩
  | _ => simp [authPacket] at h

theorem tokenPacket_packet (codec : Codec) {data : SocketData} (now : ℤ) (ok : Bool)
    (hh : s.Holds data.fd data.ptrData) (ht : data.packetType = .agentConnectionToken) :
    tokenPacket codec s (.packet data now ok) =
      (codec.agentConnectionToken.parseFromArray data.packetBuffer).map (data, ·, now) :=
  if_pos ⟨hh, ht⟩

theorem authPacket_packet (codec : Codec) {data : SocketData} (now : ℤ) (ok : Bool)
    (hh : s.Holds data.fd data.ptrData) (ht : data.packetType = .authConnectToSwitch) :
    authPacket codec s (.packet data now ok) =
      (codec.authConnectToSwitch.parseFromArray data.packetBuffer).map (data, ·) :=
  if_pos ⟨hh, ht⟩

/-- A packet that is not handed to one of the two handlers. -/
theorem Transition.unhandled {data : SocketData} {now : ℤ} {ok : Bool}
    (htoken : ¬ (s.Holds data.fd data.ptrData ∧ data.packetType = .agentConnectionToken))
    (hauth : ¬ (s.Holds data.fd data.ptrData ∧ data.packetType = .authConnectToSwitch)) :
    Transition codec s (.packet data now ok) s :=
  .idle _ (if_neg htoken) (if_neg hauth) (by simp)

theorem step_tokenPacket (data : SocketData) (now : ℤ) (ok : Bool)
    (hh : s.Holds data.fd data.ptrData) (ht : data.packetType = .agentConnectionToken) :
    Transition codec s (.packet data now ok) (step codec s (.packet data now ok)) := by
  have hpacket := tokenPacket_packet codec now ok hh ht
  simp only [step, handle, Server.socketReady, if_pos hh, Dispatch.onSocketReady, ht,
    MessageCodec.ifParsed]
  cases hparse : codec.agentConnectionToken.parseFromArray data.packetBuffer with
  | none =>
    rw [hparse, Option.map_none] at hpacket
    exact .idle _ hpacket (if_neg (by simp [ht])) (by simp)
  | some pkt =>
    rw [hparse, Option.map_some] at hpacket
    exact .token _ data pkt now hpacket

theorem onAuthConnectToSwitch_unknown {data : SocketData} {pkt : PacketAuthConnectToSwitch}
    (h : s.state.pendingTokens.lookup pkt.connectionToken = none) (ok : Bool) :
    onAuthConnectToSwitch codec ok data pkt s = (.ok (), refuse s data.fd) := by
  rw [onAuthConnectToSwitch, Exec.bind_ok (Server.look_apply s), h]
  rfl

theorem onAuthConnectToSwitch_known (codec : Codec) {data : SocketData}
    {pkt : PacketAuthConnectToSwitch} {token : PendingToken} {info : ConnInfo Peer}
    (h : s.state.pendingTokens.lookup pkt.connectionToken = some token)
    (hinfo : s.infos.lookup data.ptrData = some info) (ok : Bool) :
    ∃ call, call.fd = data.fd ∧ call.type = .connectionAccepted ∧
      onAuthConnectToSwitch codec ok data pkt s =
        (.ok (), mark s data pkt.connectionToken token.agentName info call) := by
  refine ⟨⟨data.ptrData, data.fd, .connectionAccepted,
    (codec.connectionAccepted.serializeToString ⟨⟩).getD [],
    s.sends data.fd (codec.connectionAccepted.serializeToString ⟨⟩) ok⟩, rfl, rfl, ?_⟩
  rw [onAuthConnectToSwitch, Exec.bind_ok (Server.look_apply s), h]
  simp only
  rw [Exec.bind_ok (Server.assign_ok hinfo _), Exec.bind_ok (Server.modify_apply _ _),
    Exec.bind_ok (Server.send_apply _ _ _ _ _ _)]
  rfl

theorem step_authPacket (hw : s.Wired) (data : SocketData) (now : ℤ) (ok : Bool)
    (hh : s.Holds data.fd data.ptrData) (ht : data.packetType = .authConnectToSwitch) :
    Transition codec s (.packet data now ok) (step codec s (.packet data now ok)) := by
  have hpacket := authPacket_packet codec now ok hh ht
  simp only [step, handle, Server.socketReady, if_pos hh, Dispatch.onSocketReady, ht,
    MessageCodec.ifParsed, dispatch]
  cases hparse : codec.authConnectToSwitch.parseFromArray data.packetBuffer with
  | none =>
    rw [hparse, Option.map_none] at hpacket
    exact .idle _ (if_neg (by simp [ht])) hpacket (by simp)
  | some pkt =>
    rw [hparse, Option.map_some] at hpacket
    simp only
    cases hlook : s.state.pendingTokens.lookup pkt.connectionToken with
    | none =>
      rw [onAuthConnectToSwitch_unknown hlook]
      exact .refused _ data pkt hpacket hlook
    | some token =>
      obtain ⟨info, hinfo, -⟩ := hw.alive _ _ hh
      obtain ⟨call, hfd, htype, heq⟩ := onAuthConnectToSwitch_known codec hlook hinfo ok
      rw [heq]
      exact .authenticated _ data pkt token info call hpacket hlook hinfo ⟨hfd, htype⟩

theorem onClose_eq {data : CloseData} {info : ConnInfo Peer} (hne : data.ptrData ≠ 0)
    (hinfo : s.infos.lookup data.ptrData = some info) :
    (do onClose data; Server.queueClose data.fd : Run Unit) s = (.ok (), forget s data info) := by
  have hclose : onClose data s = (.ok (), { forget s data info with queue := s.queue }) := by
    rw [onClose, if_neg hne, Exec.bind_ok (Server.deref_ok hinfo)]
    by_cases hrole : info.peer.role = .agentAuthenticated
    · simp only [if_pos hrole]
      rw [Exec.bind_ok (Server.modify_apply _ _), Exec.bind_ok (Server.modify_apply _ _),
        Server.withState_withState, Server.delete_withState hinfo]
      simp only [forget, if_pos hrole, Server.withState]
      rfl
    · simp only [if_neg hrole]
      rw [Exec.bind_ok (Server.modify_apply _ _), Server.delete_withState hinfo]
      simp only [forget, if_neg hrole]
  rw [Exec.bind_ok hclose]
  rfl

/-- One event takes the switch over one of the transitions. -/
theorem step_transition (codec : Codec) (hw : s.Wired) (e : Event) :
    Transition codec s e (step codec s e) := by
  cases e with
  | accept fd now put =>
    simp only [step, handle, Server.accept, Exec.change_apply]
    split_ifs with hfd hput
    · exact .idle _ rfl rfl (by simp)
    · rw [not_or, not_lt, Option.not_isSome_iff_eq_none] at hfd
      rw [hput]
      exact .accepted fd now hfd.1 hfd.2
    · rw [Bool.eq_false_iff.mpr hput]
      exact .notPut fd now
  | packet data now ok =>
    by_cases hh : s.Holds data.fd data.ptrData
    · by_cases htoken : data.packetType = .agentConnectionToken
      · exact step_tokenPacket data now ok hh htoken
      · by_cases hauth : data.packetType = .authConnectToSwitch
        · exact step_authPacket hw data now ok hh hauth
        · -- the switch has no handler for the other types
          have hsame : step codec s (.packet data now ok) = s := by
            simp only [step, handle, Server.socketReady, if_pos hh, Dispatch.onSocketReady]
            cases ht : data.packetType with
            | agentConnectionToken => exact absurd ht htoken
            | authConnectToSwitch => exact absurd ht hauth
            | _ => simp only [dispatch, MessageCodec.ifParsed_nothing, Exec.pure_apply]
          rw [hsame]
          exact .unhandled (fun h => htoken h.2) fun h => hauth h.2
    · -- the queue has no such connection to call back for
      have hsame : step codec s (.packet data now ok) = s := by
        simp only [step, handle, Server.socketReady, if_neg hh]
      rw [hsame]
      exact .unhandled (fun h => hh h.1) fun h => hh h.1
  | closed data =>
    by_cases hh : s.Holds data.fd data.ptrData
    · obtain ⟨info, hinfo, -⟩ := hw.alive _ _ hh
      have hne : data.ptrData ≠ 0 := Nat.pos_iff_ne_zero.mp (hw.fresh _ _ hinfo).1
      have heq : step codec s (.closed data) = forget s data info := by
        simp only [step, handle, Server.socketClosed, if_pos hh, dispatch]
        rw [onClose_eq hne hinfo]
      rw [heq]
      exact .closed data info hh hinfo
    · have hsame : step codec s (.closed data) = s := by
        simp only [step, handle, Server.socketClosed, if_neg hh]
      rw [hsame]
      exact .idle _ rfl rfl (by simp)
  | expireTokens now => exact .expired now
  | sendHeartbeats now ok =>
    apply Transition.heartbeats
    exact Server.forEach_tryHb_kept s now ok _

theorem Transition.wired {s' : Program} (h : Transition codec s e s') (hw : s.Wired) :
    s'.Wired := by
  cases h with
  | idle => exact hw
  | accepted fd now => exact hw.accept rfl
  | notPut => exact hw.skip
  | token => exact hw.congr rfl rfl rfl
  | refused e data => exact hw.queue_erase data.fd
  | authenticated e data pkt token info call h hsome hinfo =>
    have hnew : ({ info with peer := ⟨.agentAuthenticated, token.agentName⟩ } :
        ConnInfo Peer).fd = info.fd := rfl
    exact (hw.insert hinfo hnew).congr rfl rfl rfl
  | closed data info hh => exact (hw.erase hh).congr rfl rfl rfl
  | expired => exact hw.congr rfl rfl rfl
  | heartbeats now ok s' hk => exact hw.kept hk

theorem wired_step (codec : Codec) (hw : s.Wired) (e : Event) : (step codec s e).Wired :=
  (step_transition codec hw e).wired hw

theorem wired_start (cdtSock : Fd) (now : ℤ) : (start cdtSock now).Wired where
  alive fd p hp := by
    simp only [Server.Holds, start, FiniteMap.lookup_insert_eq] at hp
    split_ifs at hp with hfd
    · rw [← Option.some.inj hp, hfd]
      exact ⟨_, FiniteMap.lookup_insert_eq _ _ _ _, rfl⟩
    · simp at hp
  fresh p info hp := by
    simp only [start, FiniteMap.lookup_insert_eq] at hp
    split_ifs at hp with heq
    · rw [heq]
      exact ⟨Nat.one_pos, Nat.one_lt_two⟩
    · simp at hp
  nextInfo_pos := Nat.succ_pos _

theorem wired_run (codec : Codec) (cdtSock : Fd) (now : ℤ) (es : List Event) :
    (run codec (start cdtSock now) es).Wired :=
  Runs.invariant_always (I := Server.Wired) (fun _ e hw => wired_step codec hw e)
    (wired_start cdtSock now) es

end VNet.Switch
