import VNet.Network.Agreement

namespace VNet.Network
open Protocol NetQueue Connections

variable {setup : Setup} {k k' : Conns} {w w' : World} {s : ℕ} {node : SwitchNode}
  {newSent newRead : ℕ → Side → Packet → Prop}

def World.Young (w : World) (t : UInt64) : Prop :=
  ∀ τ, (t, τ) ∈ w.conductor.state.drawn → w.clock - τ < Switch.tokenExpiry

/-- An announced token that nobody has shown is pending while it is young. -/
def SwitchReady (setup : Setup) (w : World) (s : ℕ) (g : Switch.SwitchState) : Prop :=
  ∀ n t, ReadToken setup w.conns s ⟨n, t⟩ → ¬ ReadAuth setup w.conns s t → w.Young t →
    ∃ token, g.pendingTokens.lookup t = some token ∧
      ∃ τ, (t, τ) ∈ w.conductor.state.drawn ∧ τ ≤ token.created

structure Ready (setup : Setup) (w : World) : Prop where
  drawn : ∀ x ∈ w.conductor.state.drawn, x.2 ≤ w.clock
  notStarted : ∀ s, w.switches s = .notStarted → ∀ id, ¬ OpenedBy w.conns id (.switch s)
  pending : ∀ s node, w.switches s = .running node → SwitchReady setup w s node.program.state

theorem Ready.start (setup : Setup) (clock : ℤ) : Ready setup (start clock) where
  drawn x hx := by simp [Network.start, Conductor.start] at hx
  notStarted s _ id := by simp [Network.start, OpenedBy]
  pending s node h := by simp [Network.start] at h

theorem SwitchReady.later {g : Switch.SwitchState} (h : SwitchReady setup w s g)
    (hl : Later w w')
    (hread : ∀ pkt, ReadToken setup w'.conns s pkt → ReadToken setup w.conns s pkt) :
    SwitchReady setup w' s g := by
  intro n t hr hfirst hyoung
  have hyoung' : w.Young t := by
    intro τ hτ
    have hlt := hyoung τ (hl.drawn.subset hτ)
    have hle := hl.clock
    omega
  obtain ⟨token, hp, τ, hτ, hle⟩ :=
    h n t (hread _ hr) (fun ha => hfirst (ha.mono hl.conns)) hyoung'
  exact ⟨token, hp, τ, hl.drawn.subset hτ, hle⟩

theorem Ready.quiet (h : Ready setup w) (hq : Quiet setup w w') : Ready setup w' where
  drawn x hx := by
    have hclock := hq.later.clock
    rcases hq.draws x hx with hold | hnew
    · exact (h.drawn x hold).trans hclock
    · exact hnew.trans hclock
  notStarted s hs id hopen := by
    rw [hq.switches] at hs
    exact h.notStarted s hs id (hq.opened id s hopen)
  pending s node hs := by
    rw [hq.switches] at hs
    exact (h.pending s node hs).later hq.later (hq.read s)

/-- What a switch reads with an event, and at what time. -/
structure Hears (setup : Setup) (w : World) (s : ℕ) (node : SwitchNode) (k : Conns)
    (e : Switch.Event) : Prop where
  shown : ∀ data t, Switch.authPacket setup.codec node.program e = some (data, ⟨t⟩) →
    ReadAuth setup k s t
  brought : ∀ data pkt now, Switch.tokenPacket setup.codec node.program e = some (data, pkt, now) →
    now = w.clock
  expired : ∀ now, e = .expireTokens now → now = w.clock
  read : ∀ n t, ReadToken setup k s ⟨n, t⟩ → ReadToken setup w.conns s ⟨n, t⟩ ∨
    (t ∈ w.conductor.state.drawn.map Prod.fst ∧ ∃ data,
      Switch.tokenPacket setup.codec node.program e = some (data, ⟨n, t⟩, w.clock))
  others : ∀ s' pkt, s' ≠ s → ReadToken setup k s' pkt → ReadToken setup w.conns s' pkt

/-- An event in which nothing is read. -/
theorem Hears.of_silent {e : Switch.Event}
    (hauth : Switch.authPacket setup.codec node.program e = none)
    (htoken : Switch.tokenPacket setup.codec node.program e = none)
    (hexpired : ∀ now, e = .expireTokens now → now = w.clock) :
    Hears setup w s node w.conns e where
  shown data t h := by
    rw [hauth] at h
    simp at h
  brought data pkt now h := by
    rw [htoken] at h
    simp at h
  expired := hexpired
  read n t h := .inl h
  others s' pkt _ h := h

theorem SwitchReady.switchStep (h : Ready setup w)
    (hnode : SwitchReady setup w s node.program.state) (hwired : node.program.Wired)
    (hg : Grows w.conns k) {e : Switch.Event} (hh : Hears setup w s node k e) :
    SwitchReady setup (w.switchStep setup s node k e) s
      (Switch.step setup.codec node.program e).state := by
  have ht := Switch.step_transition setup.codec hwired e
  intro n t hr hfirst hyoung
  have hfirst' : ¬ ReadAuth setup k s t := fun ha => hfirst (ha.mono (grows_postAll _ _ _))
  rcases hh.read n t (ReadToken.of_postAll hr) with hold | ⟨hdrawn, data, hrec⟩
  · -- it was pending with the time it came in, which is after it was drawn, so an
    -- expiry that would drop it comes too late for a young token
    obtain ⟨token, hp, τ, hτ, hle⟩ := hnode n t hold (fun ha => hfirst' (ha.mono hg)) hyoung
    have hstill : ∀ now, e = .expireTokens now → now - token.created ≤ Switch.tokenExpiry := by
      intro now he
      have hlt : w.clock - τ < Switch.tokenExpiry := hyoung τ hτ
      rw [hh.expired now he]
      omega
    rcases ht.stays hp (fun data ha => hfirst' (hh.shown data t ha)) hstill with hstay | ⟨new, hnew⟩
    · exact ⟨token, hstay, τ, hτ, hle⟩
    · obtain ⟨data, hrec⟩ := hnew
      refine ⟨new, ht.received ⟨data, hrec⟩, τ, hτ, ?_⟩
      rw [hh.brought _ _ _ hrec]
      exact h.drawn _ hτ
  · -- the announcement has just been read
    obtain ⟨⟨t', τ⟩, hτ, rfl⟩ := List.mem_map.mp hdrawn
    exact ⟨⟨n, w.clock⟩, ht.received ⟨data, hrec⟩, τ, hτ, h.drawn _ hτ⟩

theorem Ready.switchStep (h : Ready setup w)
    (hnode : SwitchReady setup w s node.program.state) (hwired : node.program.Wired)
    (hg : Grows w.conns k) (hw : Within w.conns k Nothing newRead) {e : Switch.Event}
    (hh : Hears setup w s node k e) : Ready setup (w.switchStep setup s node k e) where
  drawn := h.drawn
  notStarted s' hs' id hopen := by
    simp only [World.switchStep] at hs'
    by_cases heq : s' = s
    · rw [heq, Function.update_self] at hs'
      simp at hs'
    · rw [Function.update_of_ne heq] at hs'
      exact h.notStarted s' hs' id ((OpenedBy.within (Within.postAll _ _ _) hopen).within hw)
  pending s' node' hs' := by
    simp only [World.switchStep] at hs'
    by_cases heq : s' = s
    · rw [heq, Function.update_self, SwitchStatus.running.injEq] at hs'
      rw [heq, ← hs']
      exact hnode.switchStep h hwired hg hh
    · rw [Function.update_of_ne heq] at hs'
      refine (h.pending s' node' hs').later (later_switchStep hg s node e) fun pkt hr => ?_
      exact hh.others s' pkt heq (ReadToken.of_postAll hr)

/-- A packet that a switch gets: an announcement on its connection to the
conductor, or what an agent writes. -/
theorem Inv.hears (h : Inv setup w) (hs : w.switches s = .running node) {fd : Fd} {d : Delivery}
    (hd : w.switchDelivery s node fd = some d) (ok : Bool) :
    Hears setup w s node (w.conns.take d.conn (switchPeer s d.ends)) (w.switchEvent fd ok d) := by
  obtain ⟨hheld, c, rest, hc, hends, hfrom⟩ := h.switchDelivery hs hd
  have hbrought : ∀ data pkt now, Switch.tokenPacket setup.codec node.program
      (w.switchEvent fd ok d) = some (data, pkt, now) → now = w.clock := by
    intro data pkt now htoken
    obtain ⟨ok', he, -⟩ := Switch.tokenPacket_eq_some htoken
    exact (Switch.Event.packet.inj he).2.1.symm
  have hexpired : ∀ now, w.switchEvent fd ok d = .expireTokens now → now = w.clock := by
    intro now he
    simp [World.switchEvent] at he
  rcases hfrom with ⟨hcdt, hpeer, hflight, hfrom⟩ | ⟨a, hjoin, hpeer, hflight, hfrom⟩
  · -- from the conductor: what is newly read is the packet the event hands over
    rw [hpeer]
    have hflight' : (c.out .server).inFlight = d.packet :: rest := hflight
    have hw := Within.take hc hflight'
    refine ⟨fun data t hauth => ?_, hbrought, hexpired, fun n t hr => ?_, fun s' pkt hne hr => ?_⟩
    · obtain ⟨now, ok', he, -, htype, -⟩ := Switch.authPacket_eq_some hauth
      obtain ⟨rfl, -, -⟩ := Switch.Event.packet.inj he
      have htype' : d.packet.1 = .authConnectToSwitch := htype
      rw [FromConductor, htype'] at hfrom
      exact hfrom.elim
    · refine (hr.within hw).imp_right ?_
      rintro ⟨id, c', body, -, -, ⟨-, -, hx⟩, hparse⟩
      rw [← hx] at hfrom
      refine ⟨hfrom _ hparse, Server.packetData fd d.ptr d.packet.1 d.packet.2, ?_⟩
      rw [World.switchEvent, ← hx]
      refine (Switch.tokenPacket_packet setup.codec w.clock ok hheld rfl).trans ?_
      exact congrArg _ hparse
    · rcases hr.within hw with hold | ⟨id, c', body, hc', hends', ⟨rfl, -⟩, -⟩
      · exact hold
      · rw [hc, Option.some.injEq] at hc'
        rw [← hc', hends, hcdt, Ends.mk.injEq] at hends'
        exact absurd (Client.switch.inj hends'.1).symm hne
  · -- from an agent: nothing new was read from the conductor
    rw [hpeer]
    have hflight' : (c.out .client).inFlight = d.packet :: rest := hflight
    have hw := Within.take hc hflight'
    have hold : ∀ s' pkt, ReadToken setup (w.conns.take d.conn .client) s' pkt →
        ReadToken setup w.conns s' pkt := by
      intro s' pkt hr
      rcases hr.within hw with hold | ⟨id, c', body, -, -, ⟨-, hside, -⟩, -⟩
      · exact hold
      · simp at hside
    refine ⟨fun data t hauth => ?_, hbrought, hexpired, fun n t hr => .inl (hold _ _ hr),
      fun s' pkt _ hr => hold _ _ hr⟩
    obtain ⟨now, ok', he, -, htype, hparse⟩ := Switch.authPacket_eq_some hauth
    obtain ⟨rfl, -, -⟩ := Switch.Event.packet.inj he
    have htype' : d.packet.1 = .authConnectToSwitch := htype
    obtain ⟨c', hc', hends', hread⟩ := mem_read_take hc hflight'
    refine ⟨d.conn, c', d.packet.2, hc', by rw [hends', hends, hjoin], ?_, hparse⟩
    rw [← htype']
    exact hread

theorem Ready.startSwitch (h : Ready setup w) (hi : Inv setup w) (s : ℕ) (cdtSock : Fd)
    (sent : Bool) : Ready setup (w.startSwitch setup s cdtSock sent) := by
  unfold World.startSwitch
  split
  · rename_i hs
    refine ⟨h.drawn, fun s' hs' id hopen => ?_, fun s' node hs' => ?_⟩
    · simp only at hs'
      by_cases heq : s' = s
      · rw [heq, Function.update_self] at hs'
        split_ifs at hs'
      · rw [Function.update_of_ne heq] at hs'
        refine h.notStarted s' hs' id (hopen.of_openConn fun hclient => ?_)
        exact heq (Client.switch.inj hclient).symm
    · simp only at hs'
      by_cases heq : s' = s
      · -- no announcement was read yet
        intro n t hr
        have hr' : ReadToken setup w.conns s ⟨n, t⟩ := by
          rw [heq] at hr
          exact ReadToken.of_openConn hr
        obtain ⟨id, -, hopen⟩ := hr'.announced
        exact absurd hopen (h.notStarted s hs id)
      · rw [Function.update_of_ne heq] at hs'
        have hl := hi.later_openConn ⟨.switch s, .conductor⟩ (firstPacket .switchMip
          (setup.codec.switchMip.serializeToString ⟨(setup.switch s).name,
            (setup.switch s).authKey, "::internet".toList, (setup.switch s).port.toUInt32⟩) sent)
        refine (h.pending s' node hs').later ⟨hl.conns, hl.drawn, hl.clock⟩ fun pkt hr => ?_
        exact ReadToken.of_openConn hr
  · exact h

theorem Ready.switchLocal (h : Ready setup w) (hi : Inv setup w) (s : ℕ) {e : Switch.Event}
    (hauth : ∀ p, Switch.authPacket setup.codec p e = none)
    (htoken : ∀ p, Switch.tokenPacket setup.codec p e = none)
    (hexpired : ∀ now, e = .expireTokens now → now = w.clock) :
    Ready setup (w.switchLocal setup s e) := by
  unfold World.switchLocal
  split
  · rename_i node hs
    exact h.switchStep (h.pending s node hs) (hi.switches s node hs).wired (.refl _)
      (within_same _) (Hears.of_silent (hauth _) (htoken _) hexpired)
  · exact h

theorem Ready.switchAccept (h : Ready setup w) (hi : Inv setup w) (s id : ℕ) (fd : Fd)
    (put : Bool) : Ready setup (w.switchAccept setup s id fd put) := by
  unfold World.switchAccept
  split
  · rename_i node hs
    split_ifs
    · have hready : Ready setup { w with backlog := w.backlog.filter (· ≠ id) } :=
        ⟨h.drawn, h.notStarted, h.pending⟩
      apply hready.switchStep _ _ (.refl _) (within_same _)
      · exact Hears.of_silent rfl rfl (by simp)
      · exact h.pending s node hs
      · exact (hi.switches s node hs).wired
    · exact h
  · exact h

theorem Ready.switchPacket (h : Ready setup w) (hi : Inv setup w) (s : ℕ) (fd : Fd) (ok : Bool) :
    Ready setup (w.switchPacket setup s fd ok) := by
  unfold World.switchPacket
  split
  · rename_i node hs
    split
    · exact h
    · rename_i d hd
      obtain ⟨-, -, c, rest, hc, -, hflight⟩ := delivery_eq_some hd
      exact h.switchStep (h.pending s node hs) (hi.switches s node hs).wired (grows_take _ _ _)
        (Within.take hc hflight) (hi.hears hs hd ok)
  · exact h

theorem Ready.stopSwitch (h : Ready setup w) (s : ℕ) :
    Ready setup { w with switches := Function.update w.switches s .stopped } := by
  refine ⟨h.drawn, fun s' hs' => ?_, fun s' node hs' => ?_⟩
  · simp only at hs'
    by_cases heq : s' = s
    · rw [heq, Function.update_self] at hs'
      simp at hs'
    · rw [Function.update_of_ne heq] at hs'
      exact h.notStarted s' hs'
  · simp only at hs'
    by_cases heq : s' = s
    · rw [heq, Function.update_self] at hs'
      simp at hs'
    · rw [Function.update_of_ne heq] at hs'
      exact h.pending s' node hs'

theorem Ready.step (h : Ready setup w) (hi : Inv setup w) (e : Event) :
    Ready setup (Network.step setup w e) := by
  cases e with
  | tick ns =>
    exact h.quiet ⟨hi.later (.tick ns), fun _ hx => .inl hx, rfl, fun _ _ h => h, fun _ _ h => h⟩
  | startSwitch s cdtSock sent => exact h.startSwitch hi s cdtSock sent
  | stopSwitch s => exact h.stopSwitch s
  | switchAccept s id fd put => exact h.switchAccept hi s id fd put
  | switchPacket s fd ok => exact h.switchPacket hi s fd ok
  | switchClosed s data =>
    exact h.switchLocal hi s (fun _ => rfl) (fun _ => rfl) (by simp)
  | switchExpire s =>
    exact h.switchLocal hi s (fun _ => rfl) (fun _ => rfl)
      fun now he => (Switch.Event.expireTokens.inj he).symm
  | switchHeartbeats s ok =>
    exact h.switchLocal hi s (fun _ => rfl) (fun _ => rfl) (by simp)
  | conductorAccept id fd put => exact h.quiet (hi.quiet_conductorAccept id fd put)
  | conductorPacket fd a => exact h.quiet (hi.quiet_conductorPacket fd a)
  | conductorClosed data =>
    refine h.quiet (hi.quiet_conductorStep (.refl _) (within_same _) ?_ (by simp))
    exact fun _ _ hnew => hnew
  | conductorHeartbeats ok =>
    refine h.quiet (hi.quiet_conductorStep (.refl _) (within_same _) ?_ (by simp))
    exact fun _ _ hnew => hnew
  | startAgent a sent => exact h.quiet (hi.quiet_startAgent a sent)
  | readAssignment a => exact h.quiet (hi.quiet_readAssignment a)
  | connectSwitch a s sent => exact h.quiet (hi.quiet_connectSwitch a s sent)
  | readAccepted a => exact h.quiet (hi.quiet_readAccepted a)
  | agentHeartbeats a toConductor toSwitch =>
    exact h.quiet (quiet_agentHeartbeats a toConductor toSwitch)
  | stopAgent a => exact h.quiet ((Quiet.refl w).setPhase _ _)

theorem Ready.run (hsound : setup.codec.Sound) (clock : ℤ) (es : List Event) :
    Ready setup (run setup clock es) := by
  induction es using List.reverseRecOn with
  | nil => exact Ready.start setup clock
  | append_singleton es e ih =>
    rw [Network.run, Runs.run_concat]
    exact ih.step (Inv.run hsound clock es) e

def Shows (setup : Setup) (w : World) (e : Event) (s id : ℕ) (t : UInt64) : Prop :=
  ∃ fd ok node d, e = .switchPacket s fd ok ∧ w.switches s = .running node ∧
    w.switchDelivery s node fd = some d ∧ d.conn = id ∧ d.packet.1 = .authConnectToSwitch ∧
    setup.codec.authConnectToSwitch.parseFromArray d.packet.2 = some ⟨t⟩

/-- A token that is shown while it is pending is accepted. -/
theorem Shows.authenticates {e : Event} {id : ℕ} {t : UInt64} (h : Shows setup w e s id t)
    (hp : ∀ node, w.switches s = .running node →
      ∃ token, node.program.state.pendingTokens.lookup t = some token) :
    ∃ n, Authenticates setup w e s id t n := by
  obtain ⟨fd, ok, node, d, he, hs, hd, hid, htype, hparse⟩ := h
  obtain ⟨token, hp⟩ := hp node hs
  have hheld : node.program.Holds fd d.ptr := (delivery_eq_some hd).1
  refine ⟨token.agentName, fd, ok, node, d, he, hs, hd, hid,
    Server.packetData fd d.ptr d.packet.1 d.packet.2, token.created, ?_, rfl, hp⟩
  refine (Switch.authPacket_packet setup.codec w.clock ok hheld htype).trans ?_
  exact congrArg _ hparse

theorem Inv.not_readAuth (h : Inv setup w) {t : UInt64}
    (hunread : ∀ id < w.nextConn, ∀ c ∈ w.conns id, c.ends.server = .switch s →
      c.toServer.read = []) : ¬ ReadAuth setup w.conns s t := by
  rintro ⟨id, c, body, hc, hserver, hmem, -⟩
  rw [hunread id (h.lt_nextConn hc) c hc hserver] at hmem
  simp at hmem

theorem young_of_drawn {t : UInt64} {τ : ℤ} (hdrawn : w.conductor.state.drawn = [(t, τ)])
    (hclock : w.clock - τ < Switch.tokenExpiry) : w.Young t := by
  intro τ' hτ'
  rw [hdrawn, List.mem_singleton, Prod.mk.injEq] at hτ'
  rwa [hτ'.2]

/-- The order of the two packets decides. A token that is shown for the first
time, while it is young, is accepted exactly when the conductor's announcement of
it was read before. -/
theorem token_accepted_iff_announced (hsound : setup.codec.Sound) (clock : ℤ) (es : List Event)
    (e : Event) (s id : ℕ) (t : UInt64) (hshow : Shows setup (run setup clock es) e s id t)
    (hfirst : ¬ ReadAuth setup (run setup clock es).conns s t)
    (hyoung : (run setup clock es).Young t) :
    (∃ n, Authenticates setup (run setup clock es) e s id t n) ↔
      ∃ n, ReadToken setup (run setup clock es).conns s ⟨n, t⟩ := by
  constructor
  · rintro ⟨n, ha⟩
    exact ⟨n, ((Inv.run hsound clock es).authenticates hsound ha).1⟩
  · rintro ⟨n, hr⟩
    refine hshow.authenticates fun node hs => ?_
    obtain ⟨token, hp, -⟩ := (Ready.run hsound clock es).pending s node hs n t hr hfirst hyoung
    exact ⟨token, hp⟩

/-- The announcement is read, and then the token is shown. -/
theorem token_accepted_iff_announced_joining :
    let w := run joiningSetup 0 (joining ++ [.switchPacket 0 3 true])
    (∃ n, ReadToken joiningSetup w.conns 0 ⟨n, 7⟩) ∧
      ∃ n, Authenticates joiningSetup w (.switchPacket 0 4 true) 0 2 7 n := by
  have hshow : Shows joiningSetup (run joiningSetup 0 (joining ++ [.switchPacket 0 3 true]))
      (.switchPacket 0 4 true) 0 2 7 :=
    ⟨4, true, _, ⟨2, ⟨.agent 0, .switch 0⟩, 2,
      (.authConnectToSwitch, [0x09, 7, 0, 0, 0, 0, 0, 0, 0])⟩,
      rfl, rfl, by decide +kernel, rfl, rfl, rfl⟩
  have hfirst : ¬ ReadAuth joiningSetup
      (run joiningSetup 0 (joining ++ [.switchPacket 0 3 true])).conns 0 7 :=
    (@Inv.run joiningSetup Codec.sample_sound 0 _).not_readAuth (by decide +kernel)
  have hyoung : (run joiningSetup 0 (joining ++ [.switchPacket 0 3 true])).Young 7 :=
    young_of_drawn (τ := 0) (by decide +kernel) (by decide +kernel)
  have hconn : ∃ c ∈ (run joiningSetup 0 (joining ++ [.switchPacket 0 3 true])).conns 0,
      c.ends = ⟨.switch 0, .conductor⟩ ∧
        (.agentConnectionToken, [0x0a, 1, 0x61, 0x11, 7, 0, 0, 0, 0, 0, 0, 0]) ∈
          c.toClient.read := by decide +kernel
  have hread : ∃ n, ReadToken joiningSetup
      (run joiningSetup 0 (joining ++ [.switchPacket 0 3 true])).conns 0 ⟨n, 7⟩ := by
    obtain ⟨c, hc, hends, hmem⟩ := hconn
    exact ⟨['a'], 0, c, _, hc, hends, hmem, rfl⟩
  exact ⟨hread, (@token_accepted_iff_announced joiningSetup Codec.sample_sound 0 _ _ 0 2 7 hshow
    hfirst hyoung).mpr hread⟩

def Event.closes : Event → Bool
  | .switchClosed _ _ | .conductorClosed _ | .stopSwitch _ | .stopAgent _ => true
  | _ => false

/-- The agent is answered first, connects and shows its token while the
announcement is still on its way; nothing was closed and no time has passed. -/
theorem token_refused_before_announced :
    ¬ ∀ (setup : Setup) (clock : ℤ) (es : List Event) (e : Event) (s id : ℕ) (t : UInt64),
      setup.codec.Sound → es.all (fun e => !e.closes) →
      (∃ a, Joins (run setup clock es).conns id a s ∧
        Assigned setup (run setup clock es).conns a s t) →
      Shows setup (run setup clock es) e s id t →
      ¬ ReadAuth setup (run setup clock es).conns s t → (run setup clock es).Young t →
      ∃ n, Authenticates setup (run setup clock es) e s id t n := by
  intro h
  have hinv := @Inv.run joiningSetup Codec.sample_sound 0 joining
  have hassigned : ∃ a, Joins (run joiningSetup 0 joining).conns 2 a 0 ∧
      Assigned joiningSetup (run joiningSetup 0 joining).conns a 0 7 := by
    refine ⟨0, ⟨_, rfl, rfl⟩, 1, ⟨"s1".toList, 0x0200000a, 7, 7000⟩, ?_, ?_, rfl, rfl, rfl, rfl⟩
    · exact ⟨_, _, _, rfl, rfl, List.mem_cons_self .., rfl, rfl⟩
    · exact ⟨_, _, rfl, rfl, List.mem_cons_self .., rfl⟩
  have hshow : Shows joiningSetup (run joiningSetup 0 joining) (.switchPacket 0 4 true) 0 2 7 :=
    ⟨4, true, _, ⟨2, ⟨.agent 0, .switch 0⟩, 2,
      (.authConnectToSwitch, [0x09, 7, 0, 0, 0, 0, 0, 0, 0])⟩,
      rfl, rfl, by decide +kernel, rfl, rfl, rfl⟩
  have hfirst : ¬ ReadAuth joiningSetup (run joiningSetup 0 joining).conns 0 7 :=
    hinv.not_readAuth (by decide +kernel)
  have hyoung : (run joiningSetup 0 joining).Young 7 :=
    young_of_drawn (τ := 0) (by decide +kernel) (by decide +kernel)
  obtain ⟨n, ha⟩ := h joiningSetup 0 joining (.switchPacket 0 4 true) 0 2 7 Codec.sample_sound
    (by decide) hassigned hshow hfirst hyoung
  -- an authentication would go back to an announcement that was read
  obtain ⟨id, c, body, hc, hends, hmem, -⟩ := (hinv.authenticates Codec.sample_sound ha).1
  have hlt : id < 3 := hinv.lt_nextConn hc
  have hall : ∀ id < 3, ∀ c ∈ (run joiningSetup 0 joining).conns id,
      c.ends = ⟨.switch 0, .conductor⟩ → c.toClient.read = [] := by decide +kernel
  rw [hall id hlt c hc hends] at hmem
  simp at hmem

end VNet.Network
