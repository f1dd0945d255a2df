import VNet.Network.ConductorPart

namespace VNet.Network
open Protocol NetQueue Connections

variable {setup : Setup} {k k' : Conns} {w : World} {s : ℕ} {node : SwitchNode}

/-- A switch's descriptors are its connections, and its pending tokens were
announced to it. -/
structure SwitchOk (setup : Setup) (k : Conns) (s : ℕ) (node : SwitchNode) : Prop where
  wired : node.program.Wired
  fds : ∀ fd p, node.program.Holds fd p → ∃ id c, node.fds fd = some id ∧ k id = some c ∧
    (c.ends = ⟨.switch s, .conductor⟩ ∨ c.ends.server = .switch s)
  pending : ∀ t token, node.program.state.pendingTokens.lookup t = some token →
    ReadToken setup k s ⟨token.agentName, t⟩

theorem SwitchOk.mono (hg : Grows k k') (h : SwitchOk setup k s node) :
    SwitchOk setup k' s node := by
  refine ⟨h.wired, fun fd p hh => ?_, fun t token ht => (h.pending t token ht).mono hg⟩
  obtain ⟨id, c, hid, hc, hends⟩ := h.fds fd p hh
  obtain ⟨c', hc', hends', -⟩ := hg id c hc
  exact ⟨id, c', hid, hc', by rw [hends']; exact hends⟩

def SwitchReads (setup : Setup) (k : Conns) (s : ℕ) (fds : Fd → Option ℕ) : Switch.Event → Prop
  | .accept fd _ _ => ∃ id c, fds fd = some id ∧ k id = some c ∧ c.ends.server = .switch s
  | .packet data _ _ => data.packetType = .agentConnectionToken → ∀ pkt,
      setup.codec.agentConnectionToken.parseFromArray data.packetBuffer = some pkt →
      ReadToken setup k s pkt
  | _ => True

/-- A descriptor gets into the queue only when a connection is accepted. -/
theorem holds_of_transition {codec : Codec} {p p' : Switch.Program} {e : Switch.Event}
    (ht : Switch.Transition codec p e p') {fd : Fd} {q : ℕ} (hh : p'.Holds fd q) :
    p.Holds fd q ∨ ∃ now, e = .accept fd now true := by
  cases ht with
  | accepted fd' now =>
    simp only [Server.Holds, Switch.enroll, FiniteMap.lookup_insert_eq] at hh
    split_ifs at hh with hfd
    · exact .inr ⟨now, by rw [hfd]⟩
    · exact .inl hh
  | refused _ data =>
    simp only [Server.Holds, Switch.refuse, FiniteMap.lookup_erase_eq] at hh
    split_ifs at hh
    exact .inl hh
  | closed data info =>
    simp only [Server.Holds, Switch.forget, FiniteMap.lookup_erase_eq] at hh
    split_ifs at hh
    exact .inl hh
  | heartbeats now ok p' hk =>
    rw [Server.Holds, hk.queue_eq] at hh
    exact .inl hh
  | _ => exact .inl hh

theorem SwitchOk.transition (h : SwitchOk setup k s node) {e : Switch.Event}
    {program : Switch.Program} (hr : SwitchReads setup k s node.fds e)
    (ht : Switch.Transition setup.codec node.program e program) :
    SwitchOk setup k s { node with program := program } := by
  refine ⟨ht.wired h.wired, fun fd p hh => ?_, fun t token hp => ?_⟩
  · rcases holds_of_transition ht hh with hold | ⟨now, rfl⟩
    · exact h.fds fd p hold
    · obtain ⟨id, c, hid, hc, hserver⟩ := hr
      exact ⟨id, c, hid, hc, .inr hserver⟩
  · rcases ht.pending hp with ⟨data, hrec⟩ | ⟨hold, -⟩
    · obtain ⟨ok, rfl, -, htype, hparse⟩ := Switch.tokenPacket_eq_some hrec
      exact hr htype _ hparse
    · exact h.pending t token hold

/-- A switch sends acceptances and heartbeats. -/
theorem switch_calls {codec : Codec} {p p' : Switch.Program} {e : Switch.Event}
    (ht : Switch.Transition codec p e p') :
    ∀ c ∈ newCalls p p', c.type = .heartbeat ∨ c.type = .connectionAccepted := by
  cases ht with
  | authenticated _ data pkt token info call _ _ _ hcall =>
    intro c hc
    rw [newCalls_append (s := p) rfl, List.mem_singleton] at hc
    rw [hc]
    exact .inr hcall.2
  | heartbeats now ok p' hk => exact fun c hc => .inl (newCalls_kept hk c hc)
  | _ => exact fun c hc => absurd hc (not_mem_newCalls rfl)

/-- The connections an agent waits on are its own, and its assignment is an answer
of the conductor. -/
def AgentOk (setup : Setup) (k : Conns) (a : ℕ) : Phase → Prop
  | .waiting cdt => ∃ c, k cdt = some c ∧ c.ends = ⟨.agent a, .conductor⟩
  | .assigned cdt m => OpenedBy k cdt (.agent a) ∧ Answered setup k cdt m
  | .authenticating _ sw _ => OpenedBy k sw (.agent a)
  | _ => True

theorem AgentOk.mono (hg : Grows k k') {a : ℕ} {phase : Phase} (h : AgentOk setup k a phase) :
    AgentOk setup k' a phase := by
  cases phase with
  | waiting cdt =>
    obtain ⟨c, hc, hends⟩ := h
    obtain ⟨c', hc', hends', -⟩ := hg cdt c hc
    exact ⟨c', hc', hends'.trans hends⟩
  | assigned cdt m => exact ⟨h.1.mono hg, h.2.mono hg⟩
  | authenticating cdt sw m => exact OpenedBy.mono hg h
  | _ => trivial

structure Inv (setup : Setup) (w : World) : Prop where
  history : History setup w.conns w.conductor.state.drawn
  fresh : ∀ id, w.nextConn ≤ id → w.conns id = none
  conductor : ConductorOk setup w.conns w.conductorFds w.conductor
  switches : ∀ s node, w.switches s = .running node → SwitchOk setup w.conns s node
  agents : ∀ a, AgentOk setup w.conns a (w.agents a)

theorem Inv.lt_nextConn (h : Inv setup w) {id : ℕ} {c : Connection Ends Packet}
    (hc : w.conns id = some c) : id < w.nextConn := by
  by_contra hle
  rw [h.fresh id (not_lt.mp hle)] at hc
  simp at hc

theorem fresh_of_within {newSent newRead : ℕ → Side → Packet → Prop} {n : ℕ}
    (hw : Within k k' newSent newRead) (h : ∀ id, n ≤ id → k id = none) :
    ∀ id, n ≤ id → k' id = none := by
  intro id hid
  by_contra hne
  obtain ⟨c', hc'⟩ := Option.ne_none_iff_exists'.mp hne
  obtain ⟨c, hc, -⟩ := hw id c' hc'
  rw [h id hid] at hc
  simp at hc

theorem Inv.start (setup : Setup) (clock : ℤ) : Inv setup (start clock) where
  history := by
    refine ⟨?_, ?_, ?_, ?_, ?_⟩
    all_goals simp [Network.start, Answered]
  fresh _ _ := rfl
  conductor := ⟨Conductor.wired_start, by simp [Network.start, Conductor.start],
    by simp [Network.start, Conductor.start],
    by simp [Network.start, Conductor.start, Server.Holds]⟩
  switches s node h := by simp [Network.start] at h
  agents a := trivial

abbrev Nothing : ℕ → Side → Packet → Prop := fun _ _ _ => False

/-- Nothing was read or sent. -/
theorem within_same (k : Conns) : Within k k Nothing Nothing := .refl k

theorem Inv.conductorStep (h : Inv setup w) (hsound : setup.codec.Sound)
    {newRead : ℕ → Side → Packet → Prop} (hg : Grows w.conns k)
    (hw : Within w.conns k Nothing newRead) {e : Conductor.Event}
    (hr : Reads setup k w.conductorFds e) : Inv setup (w.conductorStep setup k e) := by
  have hk := h.conductor.mono hg
  have ht := Conductor.step_transition setup.codec hk.wired hk.listsAlive.switches e
  have hist := h.history.plain hg hw (fun _ _ _ hnew => hnew.elim)
  let calls := posts w.conductorFds
    (newCalls w.conductor (Conductor.step setup.codec w.conductor e))
  have hg' : Grows k (k.postAll (fun _ => .server) calls) := grows_postAll _ k calls
  have hw' : Within k (k.postAll (fun _ => .server) calls)
      (fun id side x => (id, x) ∈ calls ∧ side = .server) Nothing :=
    (Within.postAll (fun _ => .server) k calls).imp fun id side x hnew =>
      ⟨hnew.1, hnew.2.elim fun _ hc => hc.2⟩
  refine ⟨?_, fresh_of_within hw' (fresh_of_within hw h.fresh), ?_, fun s node hs => ?_,
    fun a => ?_⟩
  · rcases hk.posts hsound hr ht with ⟨hdrawn, hplain⟩ | ⟨idA, idS, m, pkt, data, a, -, hdrawn, hi⟩
    · change History setup _ (Conductor.step setup.codec w.conductor e).state.drawn
      rw [hdrawn]
      exact hist.plain hg' hw' fun id side x hnew => hplain id x hnew.1
    · change History setup _ (Conductor.step setup.codec w.conductor e).state.drawn
      rw [hdrawn]
      exact hist.issued hg' hw' hi a.now
  · exact (hk.transition hsound hr ht).mono hg'
  · exact ((h.switches s node hs).mono hg).mono hg'
  · exact ((h.agents a).mono hg).mono hg'

theorem Inv.switchStep (h : Inv setup w) {newRead : ℕ → Side → Packet → Prop}
    (hg : Grows w.conns k) (hw : Within w.conns k Nothing newRead) (hnode : SwitchOk setup k s node)
    {e : Switch.Event} (hr : SwitchReads setup k s node.fds e) :
    Inv setup (w.switchStep setup s node k e) := by
  have ht := Switch.step_transition setup.codec hnode.wired e
  let calls := posts node.fds (newCalls node.program (Switch.step setup.codec node.program e))
  have hist := h.history.plain hg hw (fun _ _ _ hnew => hnew.elim)
  have hg' : Grows k (k.postAll (switchSide s) calls) := grows_postAll _ k calls
  have hw' := Within.postAll (switchSide s) k calls
  refine ⟨?_, fresh_of_within hw' (fresh_of_within hw h.fresh), ?_, fun s' node' hs' => ?_,
    fun a => ?_⟩
  · exact hist.plain hg' hw' fun id side x hnew => plain_of_calls (switch_calls ht) id x hnew.1
  · exact (h.conductor.mono hg).mono hg'
  · simp only [World.switchStep] at hs'
    by_cases heq : s' = s
    · subst heq
      rw [Function.update_self, SwitchStatus.running.injEq] at hs'
      rw [← hs']
      exact (hnode.transition hr ht).mono hg'
    · rw [Function.update_of_ne heq] at hs'
      exact ((h.switches s' node' hs').mono hg).mono hg'
  · exact ((h.agents a).mono hg).mono hg'

theorem Inv.setPhase (h : Inv setup w) {a : ℕ} {phase : Phase}
    (hp : AgentOk setup w.conns a phase) : Inv setup (w.setPhase a phase) := by
  refine ⟨h.history, h.fresh, h.conductor, h.switches, fun a' => ?_⟩
  simp only [World.setPhase]
  by_cases heq : a' = a
  · subst heq
    rw [Function.update_self]
    exact hp
  · rw [Function.update_of_ne heq]
    exact h.agents a'

theorem Inv.setSwitch (h : Inv setup w) {status : SwitchStatus}
    (hs : ∀ node, status = .running node → SwitchOk setup w.conns s node) :
    Inv setup { w with switches := Function.update w.switches s status } := by
  refine ⟨h.history, h.fresh, h.conductor, fun s' node hs' => ?_, h.agents⟩
  simp only at hs'
  by_cases heq : s' = s
  · subst heq
    rw [Function.update_self] at hs'
    exact hs node hs'
  · rw [Function.update_of_ne heq] at hs'
    exact h.switches s' node hs'

theorem Inv.openConn (h : Inv setup w) {ends : Ends} {first : List Packet}
    (hends : ∀ s, ends.server = .switch s → ∃ a, ends.client = .agent a)
    (hfirst : ∀ x ∈ first, FromClient setup w.conns ends x) :
    Inv setup (w.openConn ends first) := by
  have hfree := h.fresh w.nextConn le_rfl
  have hg := grows_update hfree (⟨ends, ⟨[], first⟩, .empty⟩ : Connection Ends Packet)
  refine ⟨h.history.opened hfree hends hfirst, fun id hid => ?_, h.conductor.mono hg,
    fun s node hs => (h.switches s node hs).mono hg, fun a => (h.agents a).mono hg⟩
  simp only [World.openConn] at hid ⊢
  rw [Function.update_of_ne (by omega)]
  exact h.fresh id (by omega)

/-- Packets are read, or plain ones are sent. -/
theorem Inv.withConns (h : Inv setup w) {newSent newRead : ℕ → Side → Packet → Prop}
    (hg : Grows w.conns k) (hw : Within w.conns k newSent newRead)
    (hplain : ∀ id side x, newSent id side x → Plain x) : Inv setup { w with conns := k } where
  history := h.history.plain hg hw hplain
  fresh := fresh_of_within hw h.fresh
  conductor := h.conductor.mono hg
  switches s node hs := (h.switches s node hs).mono hg
  agents a := (h.agents a).mono hg

theorem Inv.conductorAccept (h : Inv setup w) (hsound : setup.codec.Sound) (id : ℕ) (fd : Fd)
    (put : Bool) : Inv setup (w.conductorAccept setup id fd put) := by
  unfold World.conductorAccept
  split_ifs with hc
  · obtain ⟨⟨-, hserver⟩, -, hfree⟩ := hc
    obtain ⟨c, hk, hserver⟩ := Option.map_eq_some_iff.mp hserver
    have hfds : ConductorOk setup w.conns (Function.update w.conductorFds fd (some id))
        w.conductor := by
      refine h.conductor.congr_fds fun fd' p hh => Function.update_of_ne ?_ _ _
      rintro rfl
      rw [Server.Holds, hfree] at hh
      simp at hh
    have hinv : Inv setup { w with
        conductorFds := Function.update w.conductorFds fd (some id)
        backlog := w.backlog.filter (· ≠ id) } :=
      ⟨h.history, h.fresh, hfds, h.switches, h.agents⟩
    apply hinv.conductorStep hsound (.refl _) (within_same _)
    exact ⟨id, c, Function.update_self _ _ _, hk, hserver⟩
  · exact h

theorem mem_sent_of_inFlight {ch : Channel Packet} {x : Packet} {rest : List Packet}
    (h : ch.inFlight = x :: rest) : x ∈ ch.sent := by
  rw [Channel.sent, h]
  exact List.mem_append_right _ (List.mem_cons_self ..)

theorem Inv.conductorPacket (h : Inv setup w) (hsound : setup.codec.Sound) (fd : Fd)
    (a : ConductorAnswers) : Inv setup (w.conductorPacket setup fd a) := by
  unfold World.conductorPacket
  split
  · exact h
  · rename_i d hd
    obtain ⟨-, hconn, c, rest, hc, -, hflight⟩ := delivery_eq_some hd
    -- the conductor is the server of every connection it has
    have hmem : d.packet ∈ c.toServer.sent := mem_sent_of_inFlight hflight
    have hg := grows_take w.conns d.conn .client
    obtain ⟨c', hc', hends, hsub⟩ := hg _ c hc
    apply h.conductorStep hsound hg (Within.take hc hflight)
    refine ⟨d.conn, c', hconn, hc', (hsub .client).1 _ hmem, ?_⟩
    rw [hends]
    exact (h.history.fromClient _ c hc _ hmem).mono hg

/-- What a switch gets next comes from the conductor, or from an agent that
connected to it. -/
theorem Inv.switchDelivery (h : Inv setup w) (hs : w.switches s = .running node) {fd : Fd}
    {d : Delivery} (hd : w.switchDelivery s node fd = some d) :
    node.program.Holds fd d.ptr ∧ ∃ c rest, w.conns d.conn = some c ∧ c.ends = d.ends ∧
      ((d.ends = ⟨.switch s, .conductor⟩ ∧ switchPeer s d.ends = .server ∧
        c.toClient.inFlight = d.packet :: rest ∧
        FromConductor setup w.conductor.state.drawn d.packet) ∨
      ∃ a, d.ends = ⟨.agent a, .switch s⟩ ∧ switchPeer s d.ends = .client ∧
        c.toServer.inFlight = d.packet :: rest ∧ FromClient setup w.conns d.ends d.packet) := by
  obtain ⟨hptr, hconn, c, rest, hc, hends, hflight⟩ := delivery_eq_some hd
  refine ⟨hptr, c, rest, hc, hends, ?_⟩
  obtain ⟨id, c', hid, hc', hside⟩ := (h.switches s node hs).fds fd d.ptr hptr
  rw [hconn, Option.some.injEq] at hid
  rw [← hid, hc, Option.some.injEq] at hc'
  rw [← hc', hends] at hside
  rcases hside with hside | hside
  · -- the connection the switch opened itself
    left
    have hpeer : switchPeer s d.ends = .server := by rw [hside, switchPeer, if_pos rfl]
    rw [hpeer] at hflight
    refine ⟨hside, hpeer, hflight, h.history.fromConductor _ c hc (by rw [hends, hside]) _ ?_⟩
    exact mem_sent_of_inFlight hflight
  · -- a connection to the switch: only agents open one
    right
    obtain ⟨a, ha⟩ := h.history.ends _ c hc s (by rw [hends, hside])
    rw [hends] at ha
    have hpeer : switchPeer s d.ends = .client := by
      rw [switchPeer, ha]
      exact if_neg (by simp)
    rw [hpeer] at hflight
    refine ⟨a, ?_, hpeer, hflight, ?_⟩
    · rw [← ha, ← hside]
    · rw [← hends]
      exact h.history.fromClient _ c hc _ (mem_sent_of_inFlight hflight)

theorem Inv.switchAccept (h : Inv setup w) (s id : ℕ) (fd : Fd) (put : Bool) :
    Inv setup (w.switchAccept setup s id fd put) := by
  unfold World.switchAccept
  split
  · rename_i node hs
    split_ifs with hc
    · obtain ⟨⟨-, hserver⟩, -, hfree⟩ := hc
      obtain ⟨c, hk, hserver⟩ := Option.map_eq_some_iff.mp hserver
      have hnode := h.switches s node hs
      have hinv : Inv setup { w with backlog := w.backlog.filter (· ≠ id) } :=
        ⟨h.history, h.fresh, h.conductor, h.switches, h.agents⟩
      apply hinv.switchStep (.refl _) (within_same _)
      · refine ⟨hnode.wired, fun fd' p hh => ?_, hnode.pending⟩
        have hne : fd' ≠ fd := by
          rintro rfl
          rw [Server.Holds, hfree] at hh
          simp at hh
        simp only [Function.update_of_ne hne]
        exact hnode.fds fd' p hh
      · exact ⟨id, c, Function.update_self _ _ _, hk, hserver⟩
    · exact h
  · exact h

theorem Inv.switchPacket (h : Inv setup w) (s : ℕ) (fd : Fd) (ok : Bool) :
    Inv setup (w.switchPacket setup s fd ok) := by
  unfold World.switchPacket
  split
  · rename_i node hs
    split
    · exact h
    · rename_i d hd
      obtain ⟨-, c, rest, hc, hends, hfrom⟩ := h.switchDelivery hs hd
      have hg := grows_take w.conns d.conn (switchPeer s d.ends)
      have hflight : (c.out (switchPeer s d.ends)).inFlight = d.packet :: rest := by
        rcases hfrom with ⟨-, hpeer, hflight, -⟩ | ⟨a, -, hpeer, hflight, -⟩
        · rw [hpeer]
          exact hflight
        · rw [hpeer]
          exact hflight
      apply h.switchStep hg (Within.take hc hflight) ((h.switches s node hs).mono hg)
      intro htype pkt hparse
      rcases hfrom with ⟨hcdt, hpeer, -, -⟩ | ⟨a, -, -, -, hclient⟩
      · -- the handler does not look where a token comes from, but only the conductor sends any
        obtain ⟨c', hc', hends', hread⟩ := mem_read_take hc hflight
        rw [hpeer] at hc' hread ⊢
        refine ⟨d.conn, c', d.packet.2, hc', by rw [hends', hends, hcdt], ?_, hparse⟩
        have htype' : d.packet.1 = .agentConnectionToken := htype
        rw [← htype']
        exact hread
      · have htype' : d.packet.1 = .agentConnectionToken := htype
        rw [FromClient, htype'] at hclient
        exact hclient.elim
  · exact h

/-- Events in which the switch reads nothing. -/
theorem Inv.switchLocal (h : Inv setup w) (s : ℕ) {e : Switch.Event}
    (hr : ∀ fds, SwitchReads setup w.conns s fds e) : Inv setup (w.switchLocal setup s e) := by
  unfold World.switchLocal
  split
  · rename_i node hs
    exact h.switchStep (.refl _) (within_same _) (h.switches s node hs) (hr _)
  · exact h

theorem Inv.startSwitch (h : Inv setup w) (s : ℕ) (cdtSock : Fd) (sent : Bool) :
    Inv setup (w.startSwitch setup s cdtSock sent) := by
  unfold World.startSwitch
  split
  · refine Inv.setSwitch (h.openConn ?_ ?_) fun node hnode => ?_
    · simp
    · intro x hx
      obtain ⟨htype, hbody⟩ := mem_firstPacket hx
      rw [FromClient, htype]
      exact ⟨s, rfl, hbody⟩
    · split_ifs at hnode
      obtain rfl := SwitchStatus.running.inj hnode
      refine ⟨Switch.wired_start _ _, fun fd p hh => ?_, fun t token ht => ?_⟩
      · simp only [Server.Holds, Switch.start, FiniteMap.lookup_insert_eq] at hh
        split_ifs at hh with hfd
        · refine ⟨w.nextConn, _, ?_, w.openConn_conns _ _, .inl rfl⟩
          simp only [hfd, Function.update_self]
        · simp at hh
      · simp [Switch.start] at ht
  · exact h

theorem Inv.startAgent (h : Inv setup w) (a : ℕ) (sent : Bool) :
    Inv setup (w.startAgent setup a sent) := by
  unfold World.startAgent
  split
  · refine (h.openConn (by simp) fun x hx => ?_).setPhase ?_
    · obtain ⟨htype, hbody⟩ := mem_firstPacket hx
      rw [FromClient, htype]
      exact ⟨a, rfl, hbody⟩
    · split_ifs
      · exact ⟨_, w.openConn_conns _ _, rfl⟩
      · trivial
  · exact h

theorem inFlight_of_head {id : ℕ} {packet : Packet}
    (h : ((k id).bind fun c => c.toClient.inFlight.head?) = some packet) :
    ∃ c rest, k id = some c ∧ (c.out .server).inFlight = packet :: rest := by
  obtain ⟨c, hc, hhead⟩ := Option.bind_eq_some_iff.mp h
  obtain ⟨rest, hrest⟩ := List.head?_eq_some_iff.mp hhead
  exact ⟨c, rest, hc, hrest⟩

theorem Inv.readAssignment (h : Inv setup w) (hsound : setup.codec.Sound) (a : ℕ) :
    Inv setup (w.readAssignment setup a) := by
  unfold World.readAssignment
  split
  · rename_i cdt hphase
    split
    · exact h
    · rename_i packet hpacket
      obtain ⟨c, rest, hc, hflight⟩ := inFlight_of_head hpacket
      have hg := grows_take w.conns cdt .server
      have hwait := h.agents a
      rw [hphase] at hwait
      have hinv : Inv setup { w with conns := w.conns.take cdt .server } :=
        h.withConns hg (Within.take hc hflight) fun _ _ _ hnew => hnew.elim
      apply hinv.setPhase
      split
      · exact hwait.mono hg
      · trivial
      · -- the agent has read an answer of the conductor
        rename_i m hread
        obtain ⟨c₀, hc₀, hends⟩ := hwait
        rw [hc, Option.some.injEq] at hc₀
        obtain ⟨-, htype, hm⟩ := readProtobufPacket_eq_message.mp hread
        have hparse : setup.codec.connectToSwitch.parseFromArray packet.2 = some m := by
          split_ifs at hm with hempty
          · rw [hempty, ← Option.some.inj hm]
            exact hsound.connectToSwitch_empty
          · exact hm
        have hopen : OpenedBy w.conns cdt (.agent a) := ⟨c, hc, by rw [hc₀, hends]⟩
        have hans : Answered setup w.conns cdt m := by
          refine ⟨c, packet.2, hc, by rw [hc₀, hends], ?_, hparse⟩
          rw [← htype]
          exact mem_sent_of_inFlight hflight
        exact ⟨hopen.mono hg, hans.mono hg⟩
  · exact h

theorem Inv.connectSwitch (h : Inv setup w) (a s : ℕ) (sent : Bool) :
    Inv setup (w.connectSwitch setup a s sent) := by
  unfold World.connectSwitch
  split
  · rename_i cdt m node hphase hs
    split_ifs with hleads
    · have hassigned := h.agents a
      rw [hphase] at hassigned
      refine (h.openConn (fun _ _ => ⟨a, rfl⟩) fun x hx => ?_).setPhase ?_
      · obtain ⟨htype, hbody⟩ := mem_firstPacket hx
        rw [FromClient, htype]
        exact ⟨a, s, cdt, m, rfl, hassigned.1, hassigned.2, hleads, hbody⟩
      · split_ifs
        · exact ⟨_, w.openConn_conns _ _, rfl⟩
        · trivial
    · exact h
  · exact h

theorem Inv.readAccepted (h : Inv setup w) (a : ℕ) : Inv setup (w.readAccepted setup a) := by
  unfold World.readAccepted
  split
  · rename_i cdt sw m hphase
    split
    · exact h
    · rename_i packet hpacket
      obtain ⟨c, rest, hc, hflight⟩ := inFlight_of_head hpacket
      have hg := grows_take w.conns sw .server
      have hauth := h.agents a
      rw [hphase] at hauth
      refine (h.withConns hg (Within.take hc hflight) fun _ _ _ hnew => hnew.elim).setPhase ?_
      split
      · exact hauth.mono hg
      · trivial
      · trivial
  · exact h

theorem Inv.agentHeartbeats (h : Inv setup w) (a : ℕ) (toConductor toSwitch : Bool) :
    Inv setup (w.agentHeartbeats a toConductor toSwitch) := by
  unfold World.agentHeartbeats
  split
  · refine h.withConns (grows_postAll _ _ _) (Within.postAll _ _ _) fun id side x hnew => ?_
    rcases List.mem_append.mp hnew.1 with hmem | hmem
    · split_ifs at hmem
      · rw [List.mem_singleton, Prod.mk.injEq] at hmem
        rw [hmem.2]
        exact .inl rfl
      · simp at hmem
    · split_ifs at hmem
      · rw [List.mem_singleton, Prod.mk.injEq] at hmem
        rw [hmem.2]
        exact .inl rfl
      · simp at hmem
  · exact h

theorem Inv.step (hsound : setup.codec.Sound) (w : World) (e : Event) (h : Inv setup w) :
    Inv setup (step setup w e) := by
  cases e with
  | tick ns => exact ⟨h.history, h.fresh, h.conductor, h.switches, h.agents⟩
  | startSwitch s cdtSock sent => exact h.startSwitch s cdtSock sent
  | stopSwitch s => exact h.setSwitch (by simp)
  | switchAccept s id fd put => exact h.switchAccept s id fd put
  | switchPacket s fd ok => exact h.switchPacket s fd ok
  | switchClosed s data => exact h.switchLocal s fun _ => trivial
  | switchExpire s => exact h.switchLocal s fun _ => trivial
  | switchHeartbeats s ok => exact h.switchLocal s fun _ => trivial
  | conductorAccept id fd put => exact h.conductorAccept hsound id fd put
  | conductorPacket fd a => exact h.conductorPacket hsound fd a
  | conductorClosed data => exact h.conductorStep hsound (.refl _) (within_same _) trivial
  | conductorHeartbeats ok => exact h.conductorStep hsound (.refl _) (within_same _) trivial
  | startAgent a sent => exact h.startAgent a sent
  | readAssignment a => exact h.readAssignment hsound a
  | connectSwitch a s sent => exact h.connectSwitch a s sent
  | readAccepted a => exact h.readAccepted a
  | agentHeartbeats a toConductor toSwitch => exact h.agentHeartbeats a toConductor toSwitch
  | stopAgent a => exact h.setPhase trivial

theorem Inv.run (hsound : setup.codec.Sound) (clock : ℤ) (es : List Event) :
    Inv setup (run setup clock es) :=
  Runs.invariant_always (Inv.step hsound) (Inv.start setup clock) es

end VNet.Network
