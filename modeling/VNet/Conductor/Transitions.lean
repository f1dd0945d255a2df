import VNet.Conductor.Program

namespace VNet.Conductor
open Protocol NetQueue

variable {codec : Codec} {s s' : Program} {e : Event} {p : ℕ} {info : ConnInfo Peer}

def ListsAlive (s : Program) : Prop :=
  ∀ p ∈ s.state.switches ++ s.state.agents, (s.infos.lookup p).isSome

instance (s : Program) : Decidable (ListsAlive s) :=
  inferInstanceAs (Decidable (∀ p ∈ s.state.switches ++ s.state.agents, _))

def SwitchesAlive (s : Program) : Prop :=
  ∀ p ∈ s.state.switches, ∃ info, s.infos.lookup p = some info

theorem ListsAlive.switch (h : ListsAlive s) (hp : p ∈ s.state.switches) :
    ∃ info, s.infos.lookup p = some info :=
  Option.isSome_iff_exists.mp (h p (List.mem_append_left _ hp))

theorem ListsAlive.switches (h : ListsAlive s) : SwitchesAlive s := fun _ hp => h.switch hp

theorem ListsAlive.agent (h : ListsAlive s) (hp : p ∈ s.state.agents) :
    ∃ info, s.infos.lookup p = some info :=
  Option.isSome_iff_exists.mp (h p (List.mem_append_right _ hp))

def withRr (s : Program) (rr : ℕ) : Program := s.withState { s.state with rrIndex := rr }

theorem getD_mod_mem {ps : List ℕ} (hne : ps ≠ []) (n : ℕ) : ps.getD (n % ps.length) 0 ∈ ps := by
  have hlt : n % ps.length < ps.length := Nat.mod_lt _ (List.length_pos_iff.mpr hne)
  rw [List.getD_eq_getElem _ _ hlt]
  exact List.getElem_mem hlt

/-- What is chosen depends on the list, the cursor and the `ConnInfo`s only. -/
theorem pickFrom_ok (network : Text) {switches : List ℕ} (hne : switches ≠ [])
    (halive : ∀ p ∈ switches, ∃ info, s.infos.lookup p = some info) (start : ℕ) (is : List ℕ) :
    ∃ p rr, p ∈ switches ∧ ∀ t : Program, t.infos = s.infos →
      pickFrom network switches start is t = (.ok p, withRr t rr) := by
  induction is with
  | nil => exact ⟨_, _, getD_mod_mem hne start, fun _ _ => rfl⟩
  | cons i is ih =>
    have hmem := getD_mod_mem hne ((start + i) % sizeRange)
    obtain ⟨sw, hsw⟩ := halive _ hmem
    by_cases hr : reachable network sw = true
    · refine ⟨_, ((start + i) % sizeRange % switches.length + 1) % sizeRange, hmem, fun t ht => ?_⟩
      rw [← ht] at hsw
      rw [pickFrom, Exec.bind_ok (Server.deref_ok hsw), if_pos hr]
      rfl
    · obtain ⟨p, rr, hp, hpick⟩ := ih
      refine ⟨p, rr, hp, fun t ht => ?_⟩
      rw [← ht] at hsw
      rw [pickFrom, Exec.bind_ok (Server.deref_ok hsw), if_neg hr]
      exact hpick t ht

theorem pickSwitch_none {network : Text} (h : s.state.switches = []) :
    pickSwitch network s = (.ok none, s) := by
  rw [pickSwitch, Exec.bind_ok (Server.look_apply s), if_pos h]
  rfl

theorem pickSwitch_some (network : Text) (hne : s.state.switches ≠ []) (halive : SwitchesAlive s) :
    ∃ p rr, p ∈ s.state.switches ∧ ∀ t : Program, t.state = s.state → t.infos = s.infos →
      pickSwitch network t = (.ok (some p), withRr t rr) := by
  obtain ⟨p, rr, hp, hpick⟩ := pickFrom_ok network hne halive s.state.rrIndex
    (List.range s.state.switches.length)
  refine ⟨p, rr, hp, fun t hstate hinfos => ?_⟩
  rw [← hstate] at hne hpick
  rw [pickSwitch, Exec.bind_ok (Server.look_apply t), if_neg hne, Exec.bind_ok (hpick t hinfos)]
  rfl

def toAgentBody (codec : Codec) (a : Answers) (sw : ConnInfo Peer) : Option Bytes :=
  codec.connectToSwitch.serializeToString
    ⟨sw.peer.name, sw.peer.swIpv4, a.token, sw.peer.swPort.toUInt32⟩

def toSwitchBody (codec : Codec) (a : Answers) (pkt : PacketAgentMip) : Option Bytes :=
  codec.agentConnectionToken.serializeToString ⟨pkt.name, a.token⟩

def toAgentCall (codec : Codec) (a : Answers) (data : SocketData) (sw : ConnInfo Peer)
    (s : Program) : SendCall :=
  ⟨data.ptrData, data.fd, .connectToSwitch, (toAgentBody codec a sw).getD [],
    s.sends data.fd (toAgentBody codec a sw) a.toAgent⟩

def toSwitchCall (codec : Codec) (a : Answers) (pkt : PacketAgentMip) (p : ℕ) (sw : ConnInfo Peer)
    (s : Program) : SendCall :=
  ⟨p, sw.fd, .agentConnectionToken, (toSwitchBody codec a pkt).getD [],
    s.sends sw.fd (toSwitchBody codec a pkt) a.toSwitch⟩

/-- A token is drawn, the agent is answered, and when that went well the switch
is told; only when both went well the agent is listed. -/
def assigned (codec : Codec) (a : Answers) (data : SocketData) (pkt : PacketAgentMip) (p : ℕ)
    (sw : ConnInfo Peer) (s : Program) : Program :=
  let toAgent := toAgentCall codec a data sw s
  let toSwitch := toSwitchCall codec a pkt p sw s
  { s with
    state := { s.state with
      drawn := s.state.drawn ++ [(a.token, a.now)]
      pendingTokens := if toAgent.ok && toSwitch.ok then
        s.state.pendingTokens ++ [⟨pkt.name, sw.peer.name, a.nowMs, a.token⟩]
        else s.state.pendingTokens
      agents := if toAgent.ok && toSwitch.ok then s.state.agents ++ [data.ptrData]
        else s.state.agents }
    sent := s.sent ++ (toAgent :: if toAgent.ok then [toSwitch] else []) }

theorem assigned_agents (codec : Codec) (a : Answers) (data : SocketData) (pkt : PacketAgentMip)
    (p : ℕ) (sw : ConnInfo Peer) (s : Program) :
    (assigned codec a data pkt p sw s).state.agents = s.state.agents ∨
      (assigned codec a data pkt p sw s).state.agents = s.state.agents ++ [data.ptrData] := by
  simp only [assigned]
  split_ifs
  · exact .inr rfl
  · exact .inl rfl

theorem assignSwitch_eq {a : Answers} {data : SocketData} {pkt : PacketAgentMip}
    {sw : ConnInfo Peer} (hp : s.infos.lookup p = some sw) :
    assignSwitch codec a data pkt p s = (.ok (), assigned codec a data pkt p sw s) := by
  have hp' : (s.withState { s.state with
      drawn := s.state.drawn ++ [(a.token, a.now)] }).infos.lookup p = some sw := hp
  rw [assignSwitch, Exec.bind_ok (Server.modify_apply _ s), Exec.bind_ok (Server.deref_ok hp'),
    Exec.bind_ok (Server.send_apply _ _ _ _ _ _), Server.sends_withState]
  by_cases hagent : s.sends data.fd (toAgentBody codec a sw) a.toAgent = true
  · rw [toAgentBody] at hagent
    rw [if_pos hagent, Exec.bind_ok (Server.send_apply _ _ _ _ _ _), Server.sends_record,
      Server.sends_withState]
    by_cases hswitch : s.sends sw.fd (toSwitchBody codec a pkt) a.toSwitch = true
    · rw [toSwitchBody] at hswitch
      rw [if_pos hswitch]
      simp [assigned, toAgentCall, toSwitchCall, toAgentBody, toSwitchBody, hagent, hswitch,
        Server.modify_apply, Server.withState, Server.record]
    · rw [toSwitchBody] at hswitch
      rw [if_neg hswitch]
      simp [assigned, toAgentCall, toSwitchCall, toAgentBody, toSwitchBody, hagent, hswitch,
        Exec.pure_apply, Server.withState, Server.record]
  · rw [toAgentBody] at hagent
    rw [if_neg hagent]
    simp [assigned, toAgentCall, toSwitchCall, toAgentBody, toSwitchBody, hagent,
      Exec.pure_apply, Server.withState, Server.record]

/-- The packet of this type that comes in with an event, and the answers it is
handled with. -/
def received {M : Type} (c : MessageCodec M) (type : PacketType) (s : Program) :
    Event → Option (SocketData × M × Answers)
  | .packet data a =>
    if s.Holds data.fd data.ptrData ∧ data.packetType = type then
      (c.parseFromArray data.packetBuffer).map (data, ·, a)
    else none
  | _ => none

theorem received_eq_some {M : Type} {c : MessageCodec M} {type : PacketType} {data : SocketData}
    {pkt : M} {a : Answers} (h : received c type s e = some (data, pkt, a)) :
    e = .packet data a ∧ s.Holds data.fd data.ptrData ∧ data.packetType = type ∧
      c.parseFromArray data.packetBuffer = some pkt := by
  cases e with
  | packet d b =>
    simp only [received] at h
    split_ifs at h with hh
    obtain ⟨pkt', hparse, heq⟩ := Option.map_eq_some_iff.mp h
    obtain ⟨rfl, hrest⟩ := Prod.mk.inj heq
    obtain ⟨rfl, rfl⟩ := Prod.mk.inj hrest
    exact ⟨rfl, hh.1, hh.2, hparse⟩
  | _ => simp [received] at h

theorem received_packet {M : Type} {c : MessageCodec M} {type : PacketType} {data : SocketData}
    {pkt : M} (hh : s.Holds data.fd data.ptrData) (ht : data.packetType = type)
    (hparse : c.parseFromArray data.packetBuffer = some pkt) (a : Answers) :
    received c type s (.packet data a) = some (data, pkt, a) := by
  rw [received, if_pos ⟨hh, ht⟩, hparse]
  rfl

def enroll (s : Program) (fd : Fd) (now : ℤ) : Program :=
  { s with
    infos := s.infos.insert s.nextInfo ⟨fd, now, {}⟩
    nextInfo := s.nextInfo + 1
    queue := s.queue.insert fd s.nextInfo }

def rewrite (s : Program) (p : ℕ) (info : ConnInfo Peer) : Program :=
  { s with infos := s.infos.insert p info }

def listSwitch (s : Program) (p : ℕ) : Program :=
  s.withState { s.state with switches := s.state.switches ++ [p] }

def listAgent (s : Program) (p : ℕ) : Program :=
  s.withState { s.state with agents := s.state.agents ++ [p] }

/-- What `onClose` does to the lists; only the last role counts. -/
def unlist (g : ConductorState) (p : ℕ) (info : ConnInfo Peer) : ConductorState :=
  match info.peer.role with
  | .switchConn => g.removeSwitch p info.peer.name
  | .agentConn => g.removeAgent p
  | .unknown => g

def forget (s : Program) (data : CloseData) (info : ConnInfo Peer) : Program :=
  { s with
    state := unlist s.state data.ptrData info
    infos := s.infos.erase data.ptrData
    queue := s.queue.erase data.fd }

/-- Everything an event can do to the conductor. -/
inductive Transition (codec : Codec) (s : Program) : Event → Program → Prop
  | idle (e : Event) : Transition codec s e s
  | accepted (fd : Fd) (now : ℤ) (hfd : 0 ≤ fd) (hfree : s.queue.lookup fd = none) :
      Transition codec s (.accept fd now true) (enroll s fd now)
  | notPut (fd : Fd) (now : ℤ) :
      Transition codec s (.accept fd now false) { s with nextInfo := s.nextInfo + 1 }
  | switchMip (e : Event) (data : SocketData) (pkt : PacketSwitchMip) (a : Answers)
      (info : ConnInfo Peer) (h : received codec.switchMip .switchMip s e = some (data, pkt, a))
      (hinfo : s.infos.lookup data.ptrData = some info) :
      Transition codec s e
        (listSwitch (rewrite s data.ptrData (switchInfo a data pkt info)) data.ptrData)
  | noSwitch (e : Event) (data : SocketData) (pkt : PacketAgentMip) (a : Answers)
      (info : ConnInfo Peer) (h : received codec.agentMip .agentMip s e = some (data, pkt, a))
      (hinfo : s.infos.lookup data.ptrData = some info) (hnil : s.state.switches = []) :
      Transition codec s e
        { rewrite s data.ptrData (agentInfo a data pkt info) with queue := s.queue.erase data.fd }
  | assigned (e : Event) (data : SocketData) (pkt : PacketAgentMip) (a : Answers)
      (info : ConnInfo Peer) (p rr : ℕ) (sw : ConnInfo Peer)
      (h : received codec.agentMip .agentMip s e = some (data, pkt, a))
      (hinfo : s.infos.lookup data.ptrData = some info) (hp : p ∈ s.state.switches)
      (hsw : (rewrite s data.ptrData (agentInfo a data pkt info)).infos.lookup p = some sw) :
      Transition codec s e
        (assigned codec a data pkt p sw
          (withRr (rewrite s data.ptrData (agentInfo a data pkt info)) rr))
  | agentMrp (e : Event) (data : SocketData) (pkt : PacketAgentMrp) (a : Answers)
      (info : ConnInfo Peer) (h : received codec.agentMrp .agentMrp s e = some (data, pkt, a))
      (hinfo : s.infos.lookup data.ptrData = some info) :
      Transition codec s e
        (listAgent (rewrite s data.ptrData (mrpInfo a data pkt info)) data.ptrData)
  | closed (data : CloseData) (info : ConnInfo Peer) (h : s.Holds data.fd data.ptrData)
      (hinfo : s.infos.lookup data.ptrData = some info) :
      Transition codec s (.closed data) (forget s data info)
  | heartbeats (now : ℤ) (ok : Fd → Bool) (s' : Program)
      (h : Server.Kept (s.state.switches ++ s.state.agents) s s') :
      Transition codec s (.sendHeartbeats now ok) s'

theorem assign_eq (hinfo : s.infos.lookup p = some info) (f : ConnInfo Peer → ConnInfo Peer) :
    (Server.assign p f : Run Unit) s = (.ok (), rewrite s p (f info)) :=
  Server.assign_ok hinfo f

theorem onSwitchMip_eq {a : Answers} {data : SocketData} {pkt : PacketSwitchMip}
    (hinfo : s.infos.lookup data.ptrData = some info) : onSwitchMip a data pkt s =
      (.ok (), listSwitch (rewrite s data.ptrData (switchInfo a data pkt info)) data.ptrData) := by
  rw [onSwitchMip, Exec.bind_ok (assign_eq hinfo _)]
  rfl

theorem onAgentMrp_eq {a : Answers} {data : SocketData} {pkt : PacketAgentMrp}
    (hinfo : s.infos.lookup data.ptrData = some info) : onAgentMrp a data pkt s =
      (.ok (), listAgent (rewrite s data.ptrData (mrpInfo a data pkt info)) data.ptrData) := by
  rw [onAgentMrp, Exec.bind_ok (assign_eq hinfo _)]
  rfl

theorem onAgentMip_none {a : Answers} {data : SocketData} {pkt : PacketAgentMip}
    (hinfo : s.infos.lookup data.ptrData = some info) (hnil : s.state.switches = []) :
    onAgentMip codec a data pkt s = (.ok (),
      { rewrite s data.ptrData (agentInfo a data pkt info) with
        queue := s.queue.erase data.fd }) := by
  have hnil' : (rewrite s data.ptrData (agentInfo a data pkt info)).state.switches = [] := hnil
  rw [onAgentMip, Exec.bind_ok (assign_eq hinfo _),
    Exec.bind_ok (pickSwitch_none hnil')]
  rfl

/-- The switches are alive whatever is written into a `ConnInfo`. -/
theorem rewrite_alive (hswitches : SwitchesAlive s) (q : ℕ) (new : ConnInfo Peer) :
    SwitchesAlive (rewrite s q new) := by
  intro p hp
  rw [rewrite]
  simp only [FiniteMap.lookup_insert_eq]
  split_ifs
  · exact ⟨new, rfl⟩
  · exact hswitches p hp

theorem onAgentMip_some (codec : Codec) {a : Answers} {data : SocketData} {pkt : PacketAgentMip}
    (hinfo : s.infos.lookup data.ptrData = some info) (hne : s.state.switches ≠ [])
    (halive : SwitchesAlive s) :
    ∃ p rr sw, p ∈ s.state.switches ∧
      (rewrite s data.ptrData (agentInfo a data pkt info)).infos.lookup p = some sw ∧
      (∀ t : Program, t.state = s.state →
        t.infos = (rewrite s data.ptrData (agentInfo a data pkt info)).infos →
        pickSwitch pkt.network t = (.ok (some p), withRr t rr)) ∧
      onAgentMip codec a data pkt s = (.ok (), assigned codec a data pkt p sw
        (withRr (rewrite s data.ptrData (agentInfo a data pkt info)) rr)) := by
  have hne' : (rewrite s data.ptrData (agentInfo a data pkt info)).state.switches ≠ [] := hne
  have halive' := rewrite_alive halive data.ptrData (agentInfo a data pkt info)
  obtain ⟨p, rr, hp, hpick⟩ := pickSwitch_some pkt.network hne' halive'
  obtain ⟨sw, hsw⟩ := halive' p hp
  have hsw' : (withRr (rewrite s data.ptrData (agentInfo a data pkt info)) rr).infos.lookup p =
      some sw := hsw
  refine ⟨p, rr, sw, hp, hsw, hpick, ?_⟩
  rw [onAgentMip, Exec.bind_ok (assign_eq hinfo _), Exec.bind_ok (hpick _ rfl rfl)]
  exact assignSwitch_eq hsw'

theorem onClose_eq {data : CloseData} (hne : data.ptrData ≠ 0)
    (hinfo : s.infos.lookup data.ptrData = some info) :
    (do onClose data; Server.queueClose data.fd : Run Unit) s = (.ok (), forget s data info) := by
  have hclose : onClose data s = (.ok (), { forget s data info with queue := s.queue }) := by
    rw [onClose, if_neg hne, Exec.bind_ok (Server.deref_ok hinfo)]
    cases hrole : info.peer.role with
    | unknown =>
      simp only [forget, unlist, hrole]
      exact Server.delete_ok hinfo
    | switchConn =>
      simp only [forget, unlist, hrole]
      rw [Exec.bind_ok (Server.modify_apply _ _), Server.delete_withState hinfo]
    | agentConn =>
      simp only [forget, unlist, hrole]
      rw [Exec.bind_ok (Server.modify_apply _ _), Server.delete_withState hinfo]
  rw [Exec.bind_ok hclose]
  rfl

theorem step_packet {data : SocketData} {a : Answers} (hh : s.Holds data.fd data.ptrData) :
    step codec s (.packet data a) = (Dispatch.onSocketReady codec (dispatch codec a) data s).2 := by
  simp only [step, handle, Server.socketReady, if_pos hh]

/-- A packet that comes in on a connection of the queue. -/
theorem packet_transition (hw : s.Wired) (halive : SwitchesAlive s) {data : SocketData}
    (hh : s.Holds data.fd data.ptrData) (a : Answers) :
    Transition codec s (.packet data a) (step codec s (.packet data a)) := by
  obtain ⟨info, hinfo, -⟩ := hw.alive _ _ hh
  rw [step_packet hh, Dispatch.onSocketReady]
  cases ht : data.packetType with
  | switchMip =>
    simp only [MessageCodec.ifParsed]
    cases hparse : codec.switchMip.parseFromArray data.packetBuffer with
    | none => exact .idle _
    | some pkt =>
      simp only [dispatch]
      rw [onSwitchMip_eq hinfo]
      exact .switchMip _ data pkt a info (received_packet hh ht hparse a) hinfo
  | agentMip =>
    simp only [MessageCodec.ifParsed]
    cases hparse : codec.agentMip.parseFromArray data.packetBuffer with
    | none => exact .idle _
    | some pkt =>
      simp only [dispatch]
      by_cases hnil : s.state.switches = []
      · rw [onAgentMip_none hinfo hnil]
        exact .noSwitch _ data pkt a info (received_packet hh ht hparse a) hinfo hnil
      · -- `pick_switch` takes a listed switch, and all of these are allocated
        obtain ⟨p, rr, sw, hp, hsw, -, heq⟩ :=
          onAgentMip_some codec hinfo hnil halive
        rw [heq]
        exact .assigned _ data pkt a info p rr sw (received_packet hh ht hparse a) hinfo hp hsw
  | agentMrp =>
    simp only [MessageCodec.ifParsed]
    cases hparse : codec.agentMrp.parseFromArray data.packetBuffer with
    | none => exact .idle _
    | some pkt =>
      simp only [dispatch]
      rw [onAgentMrp_eq hinfo]
      exact .agentMrp _ data pkt a info (received_packet hh ht hparse a) hinfo
  | _ =>
    simp only [dispatch, MessageCodec.ifParsed_nothing, Exec.pure_apply]
    exact .idle _

theorem dumpInfo_state (s : Program) (p : ℕ) :
    Exec.Triple (· = s) (dumpInfo p) (fun _ => (· = s)) fun _ => (· = s) := by
  rintro t rfl
  cases hp : t.infos.lookup p with
  | none =>
    have hd : (Server.deref p : Run _) t = (.error (.freed p), t) := by simp only [Server.deref, hp]
    rw [dumpInfo, Exec.bind_error hd]
  | some info =>
    rw [dumpInfo, Exec.bind_ok (Server.deref_ok hp)]
    rfl

theorem writeDump_state (s : Program) : (writeDump s).2 = s := by
  have h := Exec.Triple.forEach (I := fun _ => (· = s)) (fun _ p => dumpInfo_state s p) []
    (s.state.switches ++ s.state.agents)
  rw [writeDump, Exec.bind_ok (Server.look_apply s)]
  exact h.snd rfl

/-- A connection of the queue is reported closed. -/
theorem step_closed (codec : Codec) (hw : s.Wired) {data : CloseData}
    (hh : s.Holds data.fd data.ptrData) :
    ∃ info, s.infos.lookup data.ptrData = some info ∧
      step codec s (.closed data) = forget s data info := by
  obtain ⟨info, hinfo, -⟩ := hw.alive _ _ hh
  have hne : data.ptrData ≠ 0 := Nat.pos_iff_ne_zero.mp (hw.fresh _ _ hinfo).1
  refine ⟨info, hinfo, ?_⟩
  simp only [step, handle, Server.socketClosed, if_pos hh, dispatch]
  rw [onClose_eq hne hinfo]

/-- One that is not in the queue is not reported. -/
theorem step_closed_gone (codec : Codec) {data : CloseData} (hh : ¬ s.Holds data.fd data.ptrData) :
    step codec s (.closed data) = s := by
  simp only [step, handle, Server.socketClosed, if_neg hh]

/-- One event takes the conductor over one of the transitions. -/
theorem step_transition (codec : Codec) (hw : s.Wired) (halive : SwitchesAlive s) (e : Event) :
    Transition codec s e (step codec s e) := by
  cases e with
  | accept fd now put =>
    simp only [step, handle, Server.accept, Exec.change_apply]
    split_ifs with hfd hput
    · exact .idle _
    · rw [not_or, not_lt, Option.not_isSome_iff_eq_none] at hfd
      rw [hput]
      exact .accepted fd now hfd.1 hfd.2
    · rw [Bool.eq_false_iff.mpr hput]
      exact .notPut fd now
  | packet data a =>
    by_cases hh : s.Holds data.fd data.ptrData
    · exact packet_transition hw halive hh a
    · have hsame : step codec s (.packet data a) = s := by
        simp only [step, handle, Server.socketReady, if_neg hh]
      rw [hsame]
      exact .idle _
  | closed data =>
    by_cases hh : s.Holds data.fd data.ptrData
    · obtain ⟨info, hinfo, heq⟩ := step_closed codec hw hh
      rw [heq]
      exact .closed data info hh hinfo
    · rw [step_closed_gone codec hh]
      exact .idle _
  | sendHeartbeats now ok =>
    apply Transition.heartbeats
    exact Server.forEach_tryHb_kept s now ok _
  | writeDump =>
    have hsame : step codec s .writeDump = s := writeDump_state s
    rw [hsame]
    exact .idle _

/-- The handlers write `data.fd` over the descriptor that is there. -/
theorem wired_rewrite (hw : s.Wired) {fd : Fd} (hh : s.Holds fd p)
    {new : ConnInfo Peer} (hfd : new.fd = fd) : Server.Wired (rewrite s p new) := by
  obtain ⟨info, hinfo, hold⟩ := hw.alive _ _ hh
  exact hw.insert hinfo (hfd.trans hold.symm)

theorem Transition.wired (h : Transition codec s e s') (hw : s.Wired) : s'.Wired := by
  cases h with
  | idle => exact hw
  | accepted => exact hw.accept rfl
  | notPut => exact hw.skip
  | switchMip _ data pkt a info h =>
    obtain ⟨-, hh, -⟩ := received_eq_some h
    exact (wired_rewrite hw hh rfl).congr rfl rfl rfl
  | noSwitch _ data pkt a info h =>
    obtain ⟨-, hh, -⟩ := received_eq_some h
    exact (wired_rewrite hw hh rfl).queue_erase data.fd
  | assigned _ data pkt a info p rr sw h =>
    obtain ⟨-, hh, -⟩ := received_eq_some h
    have hw' : Server.Wired (Conductor.rewrite s data.ptrData (agentInfo a data pkt info)) :=
      wired_rewrite hw hh rfl
    exact hw'.congr rfl rfl rfl
  | agentMrp _ data pkt a info h =>
    obtain ⟨-, hh, -⟩ := received_eq_some h
    exact (wired_rewrite hw hh rfl).congr rfl rfl rfl
  | closed data info hh => exact (hw.erase hh).congr rfl rfl rfl
  | heartbeats now ok s' hk => exact hw.kept hk

theorem wired_start : start.Wired where
  alive fd p hp := by simp [Server.Holds, start] at hp
  fresh p info hp := by simp [start] at hp
  nextInfo_pos := Nat.one_pos

end VNet.Conductor
