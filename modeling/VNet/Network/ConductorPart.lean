import VNet.Conductor.Lists
import VNet.Network.History

namespace VNet.Network
open Protocol NetQueue Connections

variable {setup : Setup} {k k' : Conns} {fds fds' : Fd → Option ℕ} {s s' : Conductor.Program}

structure PeerOk (setup : Setup) (peer : Conductor.Peer) (client : Client) : Prop where
  switch : peer.role = .switchConn → ∃ n, client = .switch n ∧ peer.name = (setup.switch n).name
  agent : peer.role = .agentConn → ∃ a, client = .agent a

structure ConductorOk (setup : Setup) (k : Conns) (fds : Fd → Option ℕ) (s : Conductor.Program) :
    Prop where
  wired : s.Wired
  switches : ∀ p ∈ s.state.switches, ∃ info, s.infos.lookup p = some info ∧
    info.peer.role = .switchConn ∧ s.Holds info.fd p
  agents : ∀ p ∈ s.state.agents, ∃ info, s.infos.lookup p = some info ∧
    info.peer.role = .agentConn
  peers : ∀ fd p info, s.Holds fd p → s.infos.lookup p = some info → ∃ id c, fds fd = some id ∧
    k id = some c ∧ c.ends.server = .conductor ∧ PeerOk setup info.peer c.ends.client

theorem ConductorOk.listsAlive (h : ConductorOk setup k fds s) : Conductor.ListsAlive s := by
  intro p hp
  rcases List.mem_append.mp hp with hp | hp
  · obtain ⟨info, hinfo, -⟩ := h.switches p hp
    rw [hinfo]
    rfl
  · obtain ⟨info, hinfo, -⟩ := h.agents p hp
    rw [hinfo]
    rfl

theorem ConductorOk.mono (hg : Grows k k') (h : ConductorOk setup k fds s) :
    ConductorOk setup k' fds s := by
  refine ⟨h.wired, h.switches, h.agents, fun fd p info hh hinfo => ?_⟩
  obtain ⟨id, c, hfd, hc, hserver, hpeer⟩ := h.peers fd p info hh hinfo
  obtain ⟨c', hc', hends, -⟩ := hg id c hc
  exact ⟨id, c', hfd, hc', by rw [hends, hserver], by rw [hends]; exact hpeer⟩

theorem ConductorOk.congr (h : ConductorOk setup k fds s) (hinfos : s'.infos = s.infos)
    (hqueue : s'.queue = s.queue) (hnext : s'.nextInfo = s.nextInfo)
    (hswitches : s'.state.switches = s.state.switches)
    (hagents : s'.state.agents = s.state.agents) : ConductorOk setup k fds s' := by
  refine ⟨h.wired.congr hqueue hinfos hnext, fun p hp => ?_, fun p hp => ?_,
    fun fd p info hh hinfo => ?_⟩
  · rw [hswitches] at hp
    simp only [hinfos, Server.Holds, hqueue]
    exact h.switches p hp
  · rw [hagents] at hp
    rw [hinfos]
    exact h.agents p hp
  · rw [Server.Holds, hqueue] at hh
    rw [hinfos] at hinfo
    exact h.peers fd p info hh hinfo

/-- What the descriptors that are not in the queue stand for does not matter. -/
theorem ConductorOk.congr_fds (h : ConductorOk setup k fds s)
    (hfds : ∀ fd p, s.Holds fd p → fds' fd = fds fd) : ConductorOk setup k fds' s := by
  refine ⟨h.wired, h.switches, h.agents, fun fd p info hh hinfo => ?_⟩
  rw [hfds fd p hh]
  exact h.peers fd p info hh hinfo

variable {fd : Fd} {p : ℕ} {new : ConnInfo Conductor.Peer}

/-- A connection registers as what its client is. -/
theorem ConductorOk.rewrite (h : ConductorOk setup k fds s) (hh : s.Holds fd p)
    (hfd : new.fd = fd) {id : ℕ} {c : Connection Ends Packet} (hid : fds fd = some id)
    (hc : k id = some c) (hpeer : PeerOk setup new.peer c.ends.client)
    (hswitch : p ∈ s.state.switches → new.peer.role = .switchConn)
    (hagent : p ∈ s.state.agents → new.peer.role = .agentConn) :
    ConductorOk setup k fds (Conductor.rewrite s p new) := by
  obtain ⟨old, hold, -⟩ := h.wired.alive _ _ hh
  obtain ⟨id', c', hid', hc', hserver, -⟩ := h.peers fd p old hh hold
  rw [hid, Option.some.injEq] at hid'
  rw [← hid', hc, Option.some.injEq] at hc'
  refine ⟨Conductor.wired_rewrite h.wired hh hfd, fun q hq => ?_, fun q hq => ?_,
    fun fd' q info hh' hinfo => ?_⟩
  · simp only [Conductor.rewrite, FiniteMap.lookup_insert_eq]
    split_ifs with hqp
    · refine ⟨new, rfl, hswitch (hqp ▸ hq), ?_⟩
      rw [hqp, hfd]
      exact hh
    · exact h.switches q hq
  · simp only [Conductor.rewrite, FiniteMap.lookup_insert_eq]
    split_ifs with hqp
    · exact ⟨new, rfl, hagent (hqp ▸ hq)⟩
    · exact h.agents q hq
  · simp only [Conductor.rewrite, FiniteMap.lookup_insert_eq] at hinfo
    have hh'' : s.Holds fd' q := hh'
    split_ifs at hinfo with hqp
    · rw [hqp] at hh''
      rw [h.wired.fd_unique hh'' hh, ← Option.some.inj hinfo]
      exact ⟨id, c, hid, hc, by rw [hc', hserver], hpeer⟩
    · exact h.peers fd' q info hh'' hinfo

theorem ConductorOk.listSwitch (h : ConductorOk setup k fds s)
    (hp : ∃ info, s.infos.lookup p = some info ∧ info.peer.role = .switchConn ∧
      s.Holds info.fd p) : ConductorOk setup k fds (Conductor.listSwitch s p) := by
  refine ⟨h.wired.congr rfl rfl rfl, fun q hq => ?_, h.agents, h.peers⟩
  rcases List.mem_append.mp hq with hq | hq
  · exact h.switches q hq
  · rw [List.mem_singleton.mp hq]
    exact hp

theorem ConductorOk.listAgent (h : ConductorOk setup k fds s)
    (hp : ∃ info, s.infos.lookup p = some info ∧ info.peer.role = .agentConn) :
    ConductorOk setup k fds (Conductor.listAgent s p) := by
  refine ⟨h.wired.congr rfl rfl rfl, h.switches, fun q hq => ?_, h.peers⟩
  rcases List.mem_append.mp hq with hq | hq
  · exact h.agents q hq
  · rw [List.mem_singleton.mp hq]
    exact hp

theorem ConductorOk.enroll (h : ConductorOk setup k fds s) {now : ℤ}
    (hfree : s.queue.lookup fd = none) {id : ℕ} {c : Connection Ends Packet}
    (hid : fds fd = some id) (hc : k id = some c) (hserver : c.ends.server = .conductor) :
    ConductorOk setup k fds (Conductor.enroll s fd now) := by
  have hkeep : ∀ {fd' : Fd} {q : ℕ}, s.Holds fd' q → (Conductor.enroll s fd now).Holds fd' q := by
    intro fd' q hh
    have hne : fd' ≠ fd := by
      rintro rfl
      rw [Server.Holds, hfree] at hh
      simp at hh
    rw [Server.Holds, Conductor.enroll]
    simp only [FiniteMap.lookup_insert_eq, if_neg hne]
    exact hh
  have hlookup : ∀ {q : ℕ} {info : ConnInfo Conductor.Peer}, s.infos.lookup q = some info →
      (Conductor.enroll s fd now).infos.lookup q = some info := by
    intro q info hinfo
    have hlt := (h.wired.fresh q info hinfo).2
    simp only [Conductor.enroll, FiniteMap.lookup_insert_eq]
    rw [if_neg (by omega)]
    exact hinfo
  refine ⟨h.wired.accept rfl, fun q hq => ?_, fun q hq => ?_, fun fd' q info hh hinfo => ?_⟩
  · obtain ⟨info, hinfo, hrole, hh⟩ := h.switches q hq
    exact ⟨info, hlookup hinfo, hrole, hkeep hh⟩
  · obtain ⟨info, hinfo, hrole⟩ := h.agents q hq
    exact ⟨info, hlookup hinfo, hrole⟩
  · simp only [Server.Holds, Conductor.enroll, FiniteMap.lookup_insert_eq] at hh hinfo
    split_ifs at hh with hfd
    · rw [Option.some.injEq] at hh
      rw [if_pos hh.symm, Option.some.injEq] at hinfo
      rw [hfd, ← hinfo]
      exact ⟨id, c, hid, hc, hserver, by simp, by simp⟩
    · have hq : q ≠ s.nextInfo := by
        rintro rfl
        exact h.wired.not_holds_nextInfo fd' hh
      rw [if_neg hq] at hinfo
      exact h.peers fd' q info hh hinfo

/-- A connection leaves the queue; what is still listed is still in it. -/
theorem ConductorOk.erase_queue (h : ConductorOk setup k fds s) (hh : s.Holds fd p)
    (hp : p ∉ s.state.switches) :
    ConductorOk setup k fds { s with queue := s.queue.erase fd } := by
  refine ⟨h.wired.queue_erase fd, fun q hq => ?_, h.agents, fun fd' q info hh' hinfo => ?_⟩
  · obtain ⟨info, hinfo, hrole, hheld⟩ := h.switches q hq
    refine ⟨info, hinfo, hrole, ?_⟩
    have hne : info.fd ≠ fd := by
      intro heq
      rw [heq, Server.Holds, hh, Option.some.injEq] at hheld
      exact hp (hheld ▸ hq)
    rw [Server.Holds, FiniteMap.lookup_erase_eq, if_neg hne]
    exact hheld
  · rw [Server.Holds, FiniteMap.lookup_erase_eq] at hh'
    split_ifs at hh' with hfd
    exact h.peers fd' q info hh' hinfo

/-- A `ConnInfo` that is on no list and not in the queue is deleted. -/
theorem ConductorOk.erase_info (h : ConductorOk setup k fds s) (hheld : ∀ fd, ¬ s.Holds fd p)
    (hswitch : p ∉ s.state.switches) (hagent : p ∉ s.state.agents) :
    ConductorOk setup k fds { s with infos := s.infos.erase p } := by
  have hne : ∀ {q : ℕ} {ps : List ℕ}, q ∈ ps → p ∉ ps → q ≠ p := by
    rintro q ps hq hp rfl
    exact hp hq
  refine ⟨⟨fun fd' q hh => ?_, fun q info hq => ?_, h.wired.nextInfo_pos⟩, fun q hq => ?_,
    fun q hq => ?_, fun fd' q info hh hinfo => ?_⟩
  · obtain ⟨info, hinfo, hfd⟩ := h.wired.alive fd' q hh
    have hqp : q ≠ p := by
      rintro rfl
      exact hheld fd' hh
    rw [FiniteMap.lookup_erase_eq, if_neg hqp]
    exact ⟨info, hinfo, hfd⟩
  · rw [FiniteMap.lookup_erase_eq] at hq
    split_ifs at hq
    exact h.wired.fresh q info hq
  · rw [FiniteMap.lookup_erase_eq, if_neg (hne hq hswitch)]
    exact h.switches q hq
  · rw [FiniteMap.lookup_erase_eq, if_neg (hne hq hagent)]
    exact h.agents q hq
  · rw [FiniteMap.lookup_erase_eq] at hinfo
    split_ifs at hinfo
    exact h.peers fd' q info hh hinfo

theorem ConductorOk.sublists (h : ConductorOk setup k fds s) {g : Conductor.ConductorState}
    (hswitches : ∀ q ∈ g.switches, q ∈ s.state.switches)
    (hagents : ∀ q ∈ g.agents, q ∈ s.state.agents) :
    ConductorOk setup k fds (s.withState g) :=
  ⟨h.wired.congr rfl rfl rfl, fun q hq => h.switches q (hswitches q hq),
    fun q hq => h.agents q (hagents q hq), h.peers⟩

theorem ConductorOk.forget (h : ConductorOk setup k fds s) {data : CloseData}
    {info : ConnInfo Conductor.Peer} (hh : s.Holds data.fd data.ptrData)
    (hinfo : s.infos.lookup data.ptrData = some info) :
    ConductorOk setup k fds (Conductor.forget s data info) := by
  -- the last role is the only one it had, so it is taken off the list it is on
  have hswitch : data.ptrData ∉ (Conductor.unlist s.state data.ptrData info).switches := by
    rw [Conductor.mem_unlist_switches]
    rintro ⟨hmem, hne⟩
    obtain ⟨info', hinfo', hrole, -⟩ := h.switches _ hmem
    rw [hinfo, Option.some.injEq] at hinfo'
    exact hne (hinfo' ▸ hrole) rfl
  have hagent : data.ptrData ∉ (Conductor.unlist s.state data.ptrData info).agents := by
    rw [Conductor.mem_unlist_agents]
    rintro ⟨hmem, hne⟩
    obtain ⟨info', hinfo', hrole⟩ := h.agents _ hmem
    rw [hinfo, Option.some.injEq] at hinfo'
    exact hne (hinfo' ▸ hrole) rfl
  have hlists : ConductorOk setup k fds
      (s.withState (Conductor.unlist s.state data.ptrData info)) :=
    h.sublists (fun q hq => ((Conductor.mem_unlist_switches _ _ _ _).mp hq).1)
      fun q hq => ((Conductor.mem_unlist_agents _ _ _ _).mp hq).1
  have hheld : (s.withState (Conductor.unlist s.state data.ptrData info)).Holds data.fd
      data.ptrData := hh
  refine (hlists.erase_queue hheld hswitch).erase_info (fun fd hq => ?_) hswitch hagent
  rw [Server.Holds, FiniteMap.lookup_erase_eq] at hq
  split_ifs at hq with hfd
  exact hfd (h.wired.fd_unique hq hh)

theorem ConductorOk.kept (h : ConductorOk setup k fds s) {ps : List ℕ}
    (hk : Server.Kept ps s s') : ConductorOk setup k fds s' := by
  refine ⟨h.wired.kept hk, fun q hq => ?_, fun q hq => ?_, fun fd' q info hh hinfo => ?_⟩
  · rw [hk.state_eq] at hq
    obtain ⟨info, hinfo, hrole, hh⟩ := h.switches q hq
    obtain ⟨new, hnew, hfd, hpeer⟩ := hk.after hinfo
    refine ⟨new, hnew, by rw [hpeer, hrole], ?_⟩
    rw [Server.Holds, hk.queue_eq, hfd]
    exact hh
  · rw [hk.state_eq] at hq
    obtain ⟨info, hinfo, hrole⟩ := h.agents q hq
    obtain ⟨new, hnew, -, hpeer⟩ := hk.after hinfo
    exact ⟨new, hnew, by rw [hpeer, hrole]⟩
  · rw [Server.Holds, hk.queue_eq] at hh
    obtain ⟨old, hold, -, hpeer⟩ := hk.before hinfo
    rw [← hpeer]
    exact h.peers fd' q old hh hold

/-- An event is about a connection to the conductor, and a packet that comes in
was written by its client. -/
def Reads (setup : Setup) (k : Conns) (fds : Fd → Option ℕ) : Conductor.Event → Prop
  | .accept fd _ _ => ∃ id c, fds fd = some id ∧ k id = some c ∧ c.ends.server = .conductor
  | .packet data _ => ∃ id c, fds data.fd = some id ∧ k id = some c ∧
      (data.packetType, data.packetBuffer) ∈ c.toServer.sent ∧
      FromClient setup k c.ends (data.packetType, data.packetBuffer)
  | _ => True

variable {e : Conductor.Event} {data : SocketData} {a : Conductor.Answers}

theorem Reads.switchMip (hsound : setup.codec.Sound) (hr : Reads setup k fds e)
    {pkt : PacketSwitchMip}
    (h : Conductor.received setup.codec.switchMip .switchMip s e = some (data, pkt, a)) :
    ∃ id c n, fds data.fd = some id ∧ k id = some c ∧ c.ends.client = .switch n ∧
      pkt.name = (setup.switch n).name := by
  obtain ⟨rfl, -, ht, hparse⟩ := Conductor.received_eq_some h
  obtain ⟨id, c, hid, hc, -, hfrom⟩ := hr
  rw [FromClient, ht] at hfrom
  obtain ⟨n, hclient, hser⟩ := hfrom
  have hback := hsound.switchMip _ _ hser
  rw [hparse, Option.some.injEq] at hback
  exact ⟨id, c, n, hid, hc, hclient, by rw [hback]⟩

theorem Reads.agentMip (hsound : setup.codec.Sound) (hr : Reads setup k fds e)
    {pkt : PacketAgentMip}
    (h : Conductor.received setup.codec.agentMip .agentMip s e = some (data, pkt, a)) :
    ∃ id c n, fds data.fd = some id ∧ k id = some c ∧ c.ends.client = .agent n ∧
      pkt.name = (setup.agent n).name ∧ Asked setup k id n := by
  obtain ⟨rfl, -, ht, hparse⟩ := Conductor.received_eq_some h
  obtain ⟨id, c, hid, hc, hmem, hfrom⟩ := hr
  rw [FromClient, ht] at hfrom
  obtain ⟨n, hends, hser⟩ := hfrom
  have hback := hsound.agentMip _ _ hser
  rw [hparse, Option.some.injEq] at hback
  rw [ht] at hmem
  refine ⟨id, c, n, hid, hc, by rw [hends], by rw [hback], ?_⟩
  exact ⟨c, data.packetBuffer, pkt, hc, hends, hmem, hparse, by rw [hback]⟩

theorem Reads.agentMrp (hr : Reads setup k fds e) {pkt : PacketAgentMrp}
    (h : Conductor.received setup.codec.agentMrp .agentMrp s e = some (data, pkt, a)) : False := by
  obtain ⟨rfl, -, ht, -⟩ := Conductor.received_eq_some h
  obtain ⟨id, c, -, -, -, hfrom⟩ := hr
  rw [FromClient, ht] at hfrom
  exact hfrom

/-- A connection of the queue whose client is a switch is on no list of agents,
and the other way round. -/
theorem ConductorOk.client (h : ConductorOk setup k fds s) (hh : s.Holds fd p) {id : ℕ}
    {c : Connection Ends Packet} (hid : fds fd = some id) (hc : k id = some c) :
    (p ∈ s.state.switches → ∃ n, c.ends.client = .switch n) ∧
      (p ∈ s.state.agents → ∃ n, c.ends.client = .agent n) := by
  obtain ⟨info, hinfo, -⟩ := h.wired.alive _ _ hh
  obtain ⟨id', c', hid', hc', -, hpeer⟩ := h.peers fd p info hh hinfo
  rw [hid, Option.some.injEq] at hid'
  rw [← hid', hc, Option.some.injEq] at hc'
  rw [hc']
  constructor
  · intro hp
    obtain ⟨info', hinfo', hrole, -⟩ := h.switches p hp
    rw [hinfo, Option.some.injEq] at hinfo'
    obtain ⟨n, hn, -⟩ := hpeer.switch (hinfo' ▸ hrole)
    exact ⟨n, hn⟩
  · intro hp
    obtain ⟨info', hinfo', hrole⟩ := h.agents p hp
    rw [hinfo, Option.some.injEq] at hinfo'
    exact hpeer.agent (hinfo' ▸ hrole)

/-- An agent that asks is not listed as a switch. -/
theorem ConductorOk.rewrite_agent (h : ConductorOk setup k fds s) (hsound : setup.codec.Sound)
    (hr : Reads setup k fds e) {pkt : PacketAgentMip}
    (hp : Conductor.received setup.codec.agentMip .agentMip s e = some (data, pkt, a))
    (info : ConnInfo Conductor.Peer) : data.ptrData ∉ s.state.switches ∧ ConductorOk setup k fds
      (Conductor.rewrite s data.ptrData (Conductor.agentInfo a data pkt info)) := by
  obtain ⟨-, hh, -⟩ := Conductor.received_eq_some hp
  obtain ⟨id, c, n, hid, hc, hclient, -⟩ := hr.agentMip hsound hp
  have hnot : data.ptrData ∉ s.state.switches := by
    intro hmem
    obtain ⟨n', hn'⟩ := (h.client hh hid hc).1 hmem
    rw [hclient] at hn'
    simp at hn'
  refine ⟨hnot, h.rewrite hh rfl hid hc ⟨fun hrole => ?_, fun _ => ⟨n, hclient⟩⟩
    (fun hmem => absurd hmem hnot) fun _ => rfl⟩
  simp [Conductor.agentInfo] at hrole

theorem ConductorOk.transition (h : ConductorOk setup k fds s) (hsound : setup.codec.Sound)
    (hr : Reads setup k fds e) (ht : Conductor.Transition setup.codec s e s') :
    ConductorOk setup k fds s' := by
  cases ht with
  | idle => exact h
  | accepted fd now hfd hfree =>
    obtain ⟨id, c, hid, hc, hserver⟩ := hr
    exact h.enroll hfree hid hc hserver
  | notPut => exact ⟨h.wired.skip, h.switches, h.agents, h.peers⟩
  | switchMip _ data pkt a info hp hinfo =>
    obtain ⟨-, hh, -⟩ := Conductor.received_eq_some hp
    obtain ⟨id, c, n, hid, hc, hclient, hname⟩ := hr.switchMip hsound hp
    -- `onSwitchMIP` takes the connection off no list; an honest one is on none
    have hnot : data.ptrData ∉ s.state.agents := by
      intro hmem
      obtain ⟨n', hn'⟩ := (h.client hh hid hc).2 hmem
      rw [hclient] at hn'
      simp at hn'
    have hok : ConductorOk setup k fds
        (Conductor.rewrite s data.ptrData (Conductor.switchInfo a data pkt info)) :=
      h.rewrite hh rfl hid hc
        ⟨fun _ => ⟨n, hclient, hname⟩, fun hrole => by simp [Conductor.switchInfo] at hrole⟩
        (fun _ => rfl) fun hmem => absurd hmem hnot
    exact hok.listSwitch ⟨_, AList.lookup_insert _, rfl, hh⟩
  | noSwitch _ data pkt a info hp =>
    obtain ⟨-, hh, -⟩ := Conductor.received_eq_some hp
    obtain ⟨hnot, hok⟩ := h.rewrite_agent hsound hr hp info
    have hheld : (Conductor.rewrite s data.ptrData (Conductor.agentInfo a data pkt info)).Holds
        data.fd data.ptrData := hh
    exact hok.erase_queue hheld hnot
  | assigned _ data pkt a info p rr sw hp =>
    obtain ⟨-, hok⟩ := h.rewrite_agent hsound hr hp info
    rcases Conductor.assigned_agents setup.codec a data pkt p sw (Conductor.withRr
      (Conductor.rewrite s data.ptrData (Conductor.agentInfo a data pkt info)) rr) with heq | heq
    · exact hok.congr rfl rfl rfl rfl heq
    · have hlist := hok.listAgent (p := data.ptrData) ⟨_, AList.lookup_insert _, rfl⟩
      exact hlist.congr rfl rfl rfl rfl heq
  | agentMrp _ data pkt a info hp => exact (hr.agentMrp hp).elim
  | closed data info hh hinfo => exact h.forget hh hinfo
  | heartbeats now ok s' hk => exact h.kept hk

theorem mem_posts {calls : List SendCall} {id : ℕ} {x : Packet} (h : (id, x) ∈ posts fds calls) :
    ∃ c ∈ calls, c.ok = true ∧ fds c.fd = some id ∧ x = (c.type, c.body) := by
  rw [posts, List.mem_filterMap] at h
  obtain ⟨c, hc, heq⟩ := h
  split_ifs at heq with hok
  obtain ⟨id', hid', hpair⟩ := Option.map_eq_some_iff.mp heq
  obtain ⟨rfl, rfl⟩ := Prod.mk.inj hpair
  exact ⟨c, hc, hok, hid', rfl⟩

theorem not_mem_newCalls {σ ρ : Type} {s s' : Server σ ρ} (h : s'.sent = s.sent) {c : SendCall} :
    c ∉ newCalls s s' := by
  rw [newCalls, h, List.drop_length]
  exact List.not_mem_nil

theorem newCalls_append {σ ρ : Type} {s s' : Server σ ρ} {calls : List SendCall}
    (h : s'.sent = s.sent ++ calls) : newCalls s s' = calls := by
  rw [newCalls, h, List.drop_left]

/-- Heartbeats are plain. -/
theorem newCalls_kept {σ ρ : Type} {s s' : Server σ ρ} {ps : List ℕ} (h : Server.Kept ps s s') :
    ∀ c ∈ newCalls s s', c.type = .heartbeat := by
  obtain ⟨calls, hsent, hcalls⟩ := h.sent_eq
  rw [newCalls_append hsent]
  exact fun c hc => (hcalls c hc).1

theorem plain_of_calls {calls : List SendCall}
    (h : ∀ c ∈ calls, c.type = .heartbeat ∨ c.type = .connectionAccepted) :
    ∀ id x, (id, x) ∈ posts fds calls → Plain x := by
  intro id x hx
  obtain ⟨c, hc, -, -, rfl⟩ := mem_posts hx
  exact h c hc

/-- A packet that was sent is the message it was made from. -/
theorem parse_of_sends {M : Type} {c : MessageCodec M} (hround : c.RoundTrips) {m : M} {fd : Fd}
    {ok : Bool} (h : s.sends fd (c.serializeToString m) ok = true) :
    c.parseFromArray ((c.serializeToString m).getD []) = some m := by
  rw [Server.sends, Bool.and_eq_true, Bool.and_eq_true] at h
  obtain ⟨b, hb⟩ := Option.isSome_iff_exists.mp h.1.2
  rw [hb, Option.getD_some]
  exact hround m b hb

/-- Answering an agent: the connections of both packets, and what they come from. -/
theorem ConductorOk.issue (h : ConductorOk setup k fds s) (hsound : setup.codec.Sound)
    (hr : Reads setup k fds e) {pkt : PacketAgentMip} {info sw : ConnInfo Conductor.Peer}
    (hp : Conductor.received setup.codec.agentMip .agentMip s e = some (data, pkt, a))
    (hmem : p ∈ s.state.switches)
    (hsw : (Conductor.rewrite s data.ptrData
      (Conductor.agentInfo a data pkt info)).infos.lookup p = some sw) (rr : ℕ) :
    ∃ idA idS, Issue setup k (fun id side x => (id, x) ∈ Network.posts fds (newCalls s
        (Conductor.assigned setup.codec a data pkt p sw (Conductor.withRr
          (Conductor.rewrite s data.ptrData (Conductor.agentInfo a data pkt info)) rr))) ∧
        side = .server) idA idS
      ⟨sw.peer.name, sw.peer.swIpv4, a.token, sw.peer.swPort.toUInt32⟩ ⟨pkt.name, a.token⟩ := by
  obtain ⟨hnot, -⟩ := h.rewrite_agent hsound hr hp info
  obtain ⟨idA, cA, n, hidA, hcA, hclient, hname, hask⟩ := hr.agentMip hsound hp
  -- the switch that was picked is in the queue, under its own name
  have hne : p ≠ data.ptrData := by
    rintro rfl
    exact hnot hmem
  have hsw' : s.infos.lookup p = some sw := by
    simp only [Conductor.rewrite, FiniteMap.lookup_insert_eq, if_neg hne] at hsw
    exact hsw
  obtain ⟨sw', hinfo', hrole, hheld⟩ := h.switches p hmem
  obtain rfl : sw = sw' := Option.some.inj (hsw'.symm.trans hinfo')
  obtain ⟨idS, cS, hidS, hcS, -, hpeer⟩ := h.peers sw.fd p sw hheld hsw'
  obtain ⟨n', hclient', hname'⟩ := hpeer.switch hrole
  refine ⟨idA, idS, rfl, ⟨n, n', hask, hname.symm, ⟨cS, hcS, hclient'⟩, hname'⟩, ?_⟩
  rintro id side x ⟨hx, hside⟩
  refine ⟨hside, ?_⟩
  obtain ⟨call, hcall, hok, hfd, rfl⟩ := mem_posts hx
  rw [newCalls_append (s := s) rfl] at hcall
  rcases List.mem_cons.mp hcall with rfl | hcall
  · left
    refine ⟨?_, rfl, parse_of_sends hsound.connectToSwitch hok⟩
    have hfd' : fds data.fd = some id := hfd
    rw [hidA, Option.some.injEq] at hfd'
    exact hfd'.symm
  · right
    split_ifs at hcall with hagent
    · rw [List.mem_singleton] at hcall
      subst hcall
      refine ⟨?_, rfl, parse_of_sends hsound.agentConnectionToken hok⟩
      have hfd' : fds sw.fd = some id := hfd
      rw [hidS, Option.some.injEq] at hfd'
      exact hfd'.symm
    · simp at hcall

/-- The conductor sends only heartbeats, or draws a token and answers the agent
that asked and tells the switch it names. -/
theorem ConductorOk.posts (h : ConductorOk setup k fds s) (hsound : setup.codec.Sound)
    (hr : Reads setup k fds e) (ht : Conductor.Transition setup.codec s e s') :
    (s'.state.drawn = s.state.drawn ∧
      ∀ id x, (id, x) ∈ posts fds (newCalls s s') → Plain x) ∨
    ∃ idA idS m pkt data a, e = .packet data a ∧
      s'.state.drawn = s.state.drawn ++ [(m.connectionToken, a.now)] ∧
      Issue setup k (fun id side x => (id, x) ∈ posts fds (newCalls s s') ∧ side = .server)
        idA idS m pkt := by
  have hquiet : s'.state.drawn = s.state.drawn → s'.sent = s.sent →
      s'.state.drawn = s.state.drawn ∧
        ∀ id x, (id, x) ∈ Network.posts fds (newCalls s s') → Plain x := by
    intro hdrawn hsent
    exact ⟨hdrawn, plain_of_calls fun c hc => absurd hc (not_mem_newCalls hsent)⟩
  cases ht with
  | idle => exact .inl (hquiet rfl rfl)
  | accepted => exact .inl (hquiet rfl rfl)
  | notPut => exact .inl (hquiet rfl rfl)
  | switchMip => exact .inl (hquiet rfl rfl)
  | noSwitch => exact .inl (hquiet rfl rfl)
  | agentMrp => exact .inl (hquiet rfl rfl)
  | closed data info =>
    refine .inl (hquiet ?_ rfl)
    simp only [Conductor.forget, Conductor.unlist]
    split <;> rfl
  | heartbeats now ok s' hk =>
    exact .inl ⟨by rw [hk.state_eq], plain_of_calls fun c hc => .inl (newCalls_kept hk c hc)⟩
  | assigned _ data pkt a info p rr sw hp hinfo hmem hsw =>
    obtain ⟨idA, idS, hissue⟩ := h.issue hsound hr hp hmem hsw rr
    obtain ⟨he, -⟩ := Conductor.received_eq_some hp
    exact .inr ⟨idA, idS, _, _, data, a, he, rfl, hissue⟩

end VNet.Network
