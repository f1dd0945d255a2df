import VNet.Network.Agreement

namespace VNet.Network
open Protocol NetQueue Connections

variable {setup : Setup} {k k' : Conns} {w w' : World} {e : Event}
  {newSent newRead : ℕ → Side → Packet → Prop}

def Accepted (k : Conns) (s id : ℕ) : Prop :=
  ∃ c body, k id = some c ∧ c.ends.server = .switch s ∧
    (.connectionAccepted, body) ∈ c.toClient.sent

def Shown (k : Conns) (id : ℕ) (body : Bytes) : Prop :=
  ∃ c, k id = some c ∧ (.authConnectToSwitch, body) ∈ c.toServer.sent

theorem Joins.mono (hg : Grows k k') {id a s : ℕ} (h : Joins k id a s) : Joins k' id a s := by
  obtain ⟨c, hc, hends⟩ := h
  obtain ⟨c', hc', hends', -⟩ := hg id c hc
  exact ⟨c', hc', hends'.trans hends⟩

theorem Joins.unique {id a a' s s' : ℕ} (h : Joins k id a s) (h' : Joins k id a' s') :
    a = a' ∧ s = s' := by
  obtain ⟨c, hc, hends⟩ := h
  obtain ⟨c', hc', hends'⟩ := h'
  rw [hc, Option.some.injEq] at hc'
  rw [← hc', hends, Ends.mk.injEq] at hends'
  exact ⟨Client.agent.inj hends'.1, Listener.switch.inj hends'.2⟩

theorem Accepted.mono (hg : Grows k k') {s id : ℕ} (h : Accepted k s id) : Accepted k' s id := by
  obtain ⟨c, body, hc, hserver, hmem⟩ := h
  obtain ⟨c', hc', hends, hsub⟩ := hg id c hc
  exact ⟨c', body, hc', by rw [hends, hserver], (hsub .server).1 _ hmem⟩

theorem Shown.mono (hg : Grows k k') {id : ℕ} {body : Bytes} (h : Shown k id body) :
    Shown k' id body := by
  obtain ⟨c, hc, hmem⟩ := h
  obtain ⟨c', hc', -, hsub⟩ := hg id c hc
  exact ⟨c', hc', (hsub .client).1 _ hmem⟩

/-- Only an agent that connects sends `AUTH_CONNECT_TO_SWITCH`, and only an
authentication sends `CONNECTION_ACCEPTED`. -/
structure Writes (setup : Setup) (w : World) (e : Event) (id : ℕ) (x : Packet) : Prop where
  shows : x.1 ≠ .authConnectToSwitch
  accepts : x.1 = .connectionAccepted → ∃ s t n, Authenticates setup w e s id t n

inductive ConnStep (setup : Setup) (w : World) (e : Event) (w' : World) : Prop
  | exchanged (newSent newRead : ℕ → Side → Packet → Prop)
      (hw : Within w.conns w'.conns newSent newRead)
      (hnew : ∀ id side x, newSent id side x → Writes setup w e id x)
  | opened (ends : Ends) (first : List Packet) (hserver : ends.server = .conductor)
      (hfirst : ∀ x ∈ first, x.1 ≠ .authConnectToSwitch)
      (hconns : w'.conns = (w.openConn ends first).conns)
  | dialled (a s cdt : ℕ) (m : PacketConnectToSwitch) (first : List Packet)
      (hphase : w.agents a = .assigned cdt m) (hleads : Leads setup m s)
      (hfirst : ∀ x ∈ first,
        setup.codec.authConnectToSwitch.serializeToString ⟨m.connectionToken⟩ = some x.2)
      (hconns : w'.conns = (w.openConn ⟨.agent a, .switch s⟩ first).conns)
      (hnext : w'.agents a = .exited ∨ w'.agents a = .authenticating cdt w.nextConn m)

theorem ConnStep.same (h : w'.conns = w.conns) : ConnStep setup w e w' := by
  refine .exchanged Nothing Nothing ?_ fun _ _ _ hnew => hnew.elim
  rw [h]
  exact .refl _

/-- The conductor answers, announces and sends heartbeats. -/
theorem conductor_calls {codec : Codec} {p p' : Conductor.Program} {e : Conductor.Event}
    (ht : Conductor.Transition codec p e p') : ∀ c ∈ newCalls p p',
      c.type ≠ .authConnectToSwitch ∧ c.type ≠ .connectionAccepted := by
  cases ht with
  | heartbeats now ok p' hk =>
    intro c hc
    rw [newCalls_kept hk c hc]
    exact ⟨by simp, by simp⟩
  | assigned _ data pkt a info q rr sw =>
    intro c hc
    rw [newCalls_append (s := p) rfl] at hc
    rcases List.mem_cons.mp hc with rfl | hc
    · exact ⟨by simp [Conductor.toAgentCall], by simp [Conductor.toAgentCall]⟩
    · split_ifs at hc
      · rw [List.mem_singleton.mp hc]
        exact ⟨by simp [Conductor.toSwitchCall], by simp [Conductor.toSwitchCall]⟩
      · simp at hc
  | _ => exact fun c hc => absurd hc (not_mem_newCalls rfl)

/-- A switch accepts whom it authenticates. -/
theorem switch_calls_accepted {codec : Codec} {p p' : Switch.Program} {e : Switch.Event}
    (ht : Switch.Transition codec p e p') {c : SendCall} (hc : c ∈ newCalls p p')
    (htype : c.type = .connectionAccepted) : ∃ data t n,
      Switch.authPacket codec p e = some (data, ⟨t⟩) ∧ c.fd = data.fd ∧
      Switch.Marks codec p e data.ptrData t n := by
  cases ht with
  | authenticated _ data pkt token info call hp hsome _ hcall =>
    rw [newCalls_append (s := p) rfl, List.mem_singleton] at hc
    rw [hc]
    exact ⟨data, pkt.connectionToken, token.agentName, hp, hcall.1, data, token.created, hp, rfl,
      hsome⟩
  | heartbeats now ok p' hk =>
    rw [newCalls_kept hk c hc] at htype
    simp at htype
  | _ => exact absurd hc (not_mem_newCalls rfl)

/-- The conductor reads, and sends what it sends for one event. -/
theorem Inv.conn_conductor (h : Inv setup w) {fds : Fd → Option ℕ}
    (hw : Within w.conns k Nothing newRead) (ce : Conductor.Event)
    (hconns : w'.conns = k.postAll (fun _ => .server)
      (posts fds (newCalls w.conductor (Conductor.step setup.codec w.conductor ce)))) :
    ConnStep setup w e w' := by
  have ht := Conductor.step_transition setup.codec h.conductor.wired
    h.conductor.listsAlive.switches ce
  refine .exchanged _ _ (hconns ▸ hw.trans (Within.postAll _ _ _)) ?_
  rintro id side x (hnew | ⟨hnew, -⟩)
  · exact hnew.elim
  · obtain ⟨c, hc, -, -, rfl⟩ := mem_posts hnew
    obtain ⟨hshow, haccept⟩ := conductor_calls ht c hc
    exact ⟨hshow, fun htype => absurd htype haccept⟩

/-- A switch sends what it sends for an event in which it reads no packet. -/
theorem conn_switch {s : ℕ} {p : Switch.Program} {fds : Fd → Option ℕ} (hwired : p.Wired)
    {se : Switch.Event} (hauth : Switch.authPacket setup.codec p se = none)
    (hconns : w'.conns = w.conns.postAll (switchSide s)
      (posts fds (newCalls p (Switch.step setup.codec p se)))) : ConnStep setup w e w' := by
  have ht := Switch.step_transition setup.codec hwired se
  refine .exchanged _ Nothing (hconns ▸ Within.postAll _ _ _) ?_
  rintro id side x ⟨hnew, -⟩
  obtain ⟨c, hc, -, -, rfl⟩ := mem_posts hnew
  refine ⟨?_, fun htype => ?_⟩
  · rcases switch_calls ht c hc with htype | htype
    all_goals simp [htype]
  · obtain ⟨data, t, n, hp, -⟩ := switch_calls_accepted ht hc htype
    rw [hauth] at hp
    simp at hp

theorem Inv.conn_switchLocal (h : Inv setup w) (s : ℕ) {se : Switch.Event}
    (hauth : ∀ p, Switch.authPacket setup.codec p se = none) :
    ConnStep setup w e (w.switchLocal setup s se) := by
  unfold World.switchLocal
  split
  · rename_i node hs
    exact conn_switch (h.switches s node hs).wired (hauth _) rfl
  · exact .same rfl

theorem Inv.conn_switchPacket (h : Inv setup w) (s : ℕ) (fd : Fd) (ok : Bool) :
    ConnStep setup w (.switchPacket s fd ok) (w.switchPacket setup s fd ok) := by
  unfold World.switchPacket
  split
  · rename_i node hs
    split
    · exact .same rfl
    · rename_i d hd
      obtain ⟨-, hconn, c, rest, hc, -, hflight⟩ := delivery_eq_some hd
      have ht := Switch.step_transition setup.codec (h.switches s node hs).wired
        (w.switchEvent fd ok d)
      refine .exchanged _ _ ((Within.take hc hflight).trans (Within.postAll _ _ _)) ?_
      rintro id side x (hnew | ⟨hnew, -⟩)
      · exact hnew.elim
      · obtain ⟨call, hcall, -, hid, rfl⟩ := mem_posts hnew
        refine ⟨?_, fun htype => ?_⟩
        · rcases switch_calls ht call hcall with htype | htype
          all_goals simp [htype]
        · -- the acceptance goes out on the descriptor the token was shown on
          obtain ⟨data, t, n, hp, hfd, hmarks⟩ := switch_calls_accepted ht hcall htype
          obtain ⟨now, ok', he, -⟩ := Switch.authPacket_eq_some hp
          obtain ⟨rfl, -, -⟩ := Switch.Event.packet.inj he
          have hfd' : call.fd = fd := hfd
          rw [hfd', hconn, Option.some.injEq] at hid
          exact ⟨s, t, n, fd, ok, node, d, rfl, hs, hd, hid, hmarks⟩
  · exact .same rfl

theorem Inv.conn_switchAccept (h : Inv setup w) (s id : ℕ) (fd : Fd) (put : Bool) :
    ConnStep setup w e (w.switchAccept setup s id fd put) := by
  unfold World.switchAccept
  split
  · rename_i node hs
    split_ifs
    · have hauth : Switch.authPacket setup.codec node.program (.accept fd w.clock put) = none := rfl
      exact conn_switch (h.switches s node hs).wired hauth rfl
    · exact .same rfl
  · exact .same rfl

theorem Inv.conn_conductorAccept (h : Inv setup w) (id : ℕ) (fd : Fd) (put : Bool) :
    ConnStep setup w e (w.conductorAccept setup id fd put) := by
  unfold World.conductorAccept
  split_ifs
  · exact h.conn_conductor (within_same _) (.accept fd w.clock put) rfl
  · exact .same rfl

theorem Inv.conn_conductorPacket (h : Inv setup w) (fd : Fd) (a : ConductorAnswers) :
    ConnStep setup w e (w.conductorPacket setup fd a) := by
  unfold World.conductorPacket
  split
  · exact .same rfl
  · rename_i d hd
    obtain ⟨-, -, c, rest, hc, -, hflight⟩ := delivery_eq_some hd
    exact h.conn_conductor (Within.take hc hflight) _ rfl

/-- An agent reads. -/
theorem ConnStep.take {id : ℕ} {packet : Packet}
    (hpacket : ((w.conns id).bind fun c => c.toClient.inFlight.head?) = some packet)
    (hconns : w'.conns = w.conns.take id .server) : ConnStep setup w e w' := by
  obtain ⟨c, rest, hc, hflight⟩ := inFlight_of_head hpacket
  exact .exchanged _ _ (hconns ▸ Within.take hc hflight) fun _ _ _ hnew => hnew.elim

theorem conn_connectSwitch (a s : ℕ) (sent : Bool) :
    ConnStep setup w e (w.connectSwitch setup a s sent) := by
  unfold World.connectSwitch
  split
  · rename_i cdt m node hphase hs
    split_ifs with hleads
    · refine .dialled a s cdt m _ hphase hleads (fun x hx => (mem_firstPacket hx).2) rfl ?_
      simp only [World.setPhase, Function.update_self]
      split_ifs
      · exact .inr rfl
      · exact .inl rfl
    · exact .same rfl
  · exact .same rfl

theorem conn_agentHeartbeats (a : ℕ) (toConductor toSwitch : Bool) :
    ConnStep setup w e (w.agentHeartbeats a toConductor toSwitch) := by
  unfold World.agentHeartbeats
  split
  · refine .exchanged _ _ (Within.postAll _ _ _) fun id side x hnew => ?_
    have hbeat : x.1 = .heartbeat := by
      rcases List.mem_append.mp hnew.1 with hmem | hmem
      all_goals
        split_ifs at hmem
        · rw [List.mem_singleton, Prod.mk.injEq] at hmem
          rw [hmem.2]
        · simp at hmem
    exact ⟨by simp [hbeat], by simp [hbeat]⟩
  · exact .same rfl

theorem Inv.connStep (h : Inv setup w) (e : Event) :
    ConnStep setup w e (Network.step setup w e) := by
  cases e with
  | tick ns => exact .same rfl
  | startSwitch s cdtSock sent =>
    simp only [Network.step, World.startSwitch]
    split
    · refine .opened _ _ rfl (fun x hx => ?_) rfl
      rw [(mem_firstPacket hx).1]
      simp
    · exact .same rfl
  | stopSwitch s => exact .same rfl
  | switchAccept s id fd put => exact h.conn_switchAccept s id fd put
  | switchPacket s fd ok => exact h.conn_switchPacket s fd ok
  | switchClosed s data => exact h.conn_switchLocal s fun _ => by rfl
  | switchExpire s => exact h.conn_switchLocal s fun _ => by rfl
  | switchHeartbeats s ok => exact h.conn_switchLocal s fun _ => by rfl
  | conductorAccept id fd put => exact h.conn_conductorAccept id fd put
  | conductorPacket fd a => exact h.conn_conductorPacket fd a
  | conductorClosed data => exact h.conn_conductor (within_same _) (.closed data) rfl
  | conductorHeartbeats ok =>
    exact h.conn_conductor (within_same _) (.sendHeartbeats w.clock ok) rfl
  | startAgent a sent =>
    simp only [Network.step, World.startAgent]
    split
    · refine .opened _ _ rfl (fun x hx => ?_) rfl
      rw [(mem_firstPacket hx).1]
      simp
    · exact .same rfl
  | readAssignment a =>
    simp only [Network.step, World.readAssignment]
    split
    · split
      · exact .same rfl
      · rename_i packet hpacket
        exact .take hpacket rfl
    · exact .same rfl
  | connectSwitch a s sent => exact conn_connectSwitch a s sent
  | readAccepted a =>
    simp only [Network.step, World.readAccepted]
    split
    · split
      · exact .same rfl
      · rename_i packet hpacket
        exact .take hpacket rfl
    · exact .same rfl
  | agentHeartbeats a toConductor toSwitch =>
    exact conn_agentHeartbeats a toConductor toSwitch
  | stopAgent a => exact .same rfl

theorem Accepted.exchanged (hw : Within k k' newSent newRead) {s id : ℕ} (h : Accepted k' s id) :
    Accepted k s id ∨ ∃ c body, k id = some c ∧ c.ends.server = .switch s ∧
      newSent id .server (.connectionAccepted, body) := by
  obtain ⟨c', body, hc', hserver, hmem⟩ := h
  obtain ⟨c, hc, hends, hnew⟩ := hw id c' hc'
  rw [hends] at hserver
  rcases (hnew .server).1 _ hmem with hold | hfresh
  · exact .inl ⟨c, body, hc, hserver, hold⟩
  · exact .inr ⟨c, body, hc, hserver, hfresh⟩

theorem Accepted.of_openConn {ends : Ends} {first : List Packet} {s id : ℕ}
    (h : Accepted (w.openConn ends first).conns s id) : Accepted w.conns s id := by
  obtain ⟨c, body, hc, hserver, hmem⟩ := h
  simp only [World.openConn] at hc
  by_cases hid : id = w.nextConn
  · rw [hid, Function.update_self, Option.some.injEq] at hc
    rw [← hc] at hmem
    simp [Channel.empty, Channel.sent] at hmem
  · rw [Function.update_of_ne hid] at hc
    exact ⟨c, body, hc, hserver, hmem⟩

/-- Only an authentication of a connection gets it accepted. -/
theorem Inv.accepted_step (h : Inv setup w) (hsound : setup.codec.Sound) {e : Event} {s id : ℕ}
    (ha : Accepted (Network.step setup w e).conns s id) :
    Accepted w.conns s id ∨ ∃ t n, Authenticates setup w e s id t n := by
  cases h.connStep e with
  | exchanged newSent newRead hw hnew =>
    refine (ha.exchanged hw).imp_right ?_
    rintro ⟨c, body, hc, hserver, hfresh⟩
    obtain ⟨s', t, n, hauth⟩ := (hnew _ _ _ hfresh).accepts rfl
    obtain ⟨-, a, cdt, m, ⟨c', hc', hends⟩, -⟩ := h.authenticates hsound hauth
    rw [hc, Option.some.injEq] at hc'
    rw [hc', hends, Listener.switch.injEq] at hserver
    exact ⟨t, n, hserver ▸ hauth⟩
  | opened ends first _ _ hconns =>
    rw [hconns] at ha
    exact .inl ha.of_openConn
  | dialled a s' cdt m first _ _ _ hconns =>
    rw [hconns] at ha
    exact .inl ha.of_openConn

theorem accepted_run (hsound : setup.codec.Sound) (clock : ℤ) {es : List Event} {s id : ℕ}
    (h : Accepted (run setup clock es).conns s id) : ∃ as e bs, es = as ++ e :: bs ∧
      ∃ t n, Authenticates setup (run setup clock as) e s id t n := by
  refine Runs.exists_event (I := Inv setup) (Q := fun w => Accepted w.conns s id)
    (P := fun w e => ∃ t n, Authenticates setup w e s id t n) (Inv.step hsound)
    (fun w e hi ha => hi.accepted_step hsound ha) (Inv.start setup clock) ?_ h
  rintro ⟨c, body, hc, -⟩
  simp [Network.start] at hc

/-- The token that is shown was sent on the connection. -/
theorem Inv.shown_of_authenticates (h : Inv setup w) {e : Event} {s id : ℕ} {t : UInt64} {n : Text}
    (ha : Authenticates setup w e s id t n) : ∃ body, Shown w.conns id body ∧
      setup.codec.authConnectToSwitch.parseFromArray body = some ⟨t⟩ := by
  obtain ⟨fd, ok, node, d, -, hs, hd, rfl, data, created, hauth, -, -⟩ := ha
  obtain ⟨now, ok', he, -, htype, hparse⟩ := Switch.authPacket_eq_some hauth
  obtain ⟨rfl, -, -⟩ := Switch.Event.packet.inj he
  have htype' : d.packet.1 = .authConnectToSwitch := htype
  obtain ⟨-, c, rest, hc, -, hfrom⟩ := h.switchDelivery hs hd
  rcases hfrom with ⟨-, -, -, hcdt⟩ | ⟨a, -, -, hflight, -⟩
  · rw [FromConductor, htype'] at hcdt
    exact hcdt.elim
  · refine ⟨d.packet.2, ⟨c, hc, ?_⟩, hparse⟩
    rw [← htype']
    exact mem_sent_of_inFlight hflight

/-- Agent `a` has connected to switch `s`, where its assignment leads, and has
shown it the token of the assignment and no other. -/
structure Dialled (setup : Setup) (k : Conns) (a s cdt sw : ℕ) (m : PacketConnectToSwitch) :
    Prop where
  joins : Joins k sw a s
  leads : Leads setup m s
  opened : OpenedBy k cdt (.agent a)
  answered : Answered setup k cdt m
  shows : ∀ body, Shown k sw body →
    setup.codec.authConnectToSwitch.serializeToString ⟨m.connectionToken⟩ = some body
  only : ∀ id s', Joins k id a s' → id = sw

def Knows (setup : Setup) (k : Conns) (a : ℕ) : Phase → Prop
  | .notStarted | .waiting _ | .assigned _ _ => ∀ id s, ¬ Joins k id a s
  | .authenticating cdt sw m => ∃ s, Dialled setup k a s cdt sw m
  | .running cdt sw m => ∃ s, Dialled setup k a s cdt sw m ∧ Accepted k s sw
  | .exited => True

/-- Nothing new is shown on the agent's connections to switches, and it opens no other. -/
structure Calm (a : ℕ) (k k' : Conns) : Prop where
  grows : Grows k k'
  joins : ∀ id s, Joins k' id a s → Joins k id a s
  shown : ∀ id s body, Joins k id a s → Shown k' id body → Shown k id body

theorem Knows.calm {a : ℕ} (hc : Calm a k k') {phase : Phase} (h : Knows setup k a phase) :
    Knows setup k' a phase := by
  have hdial : ∀ {s cdt sw m}, Dialled setup k a s cdt sw m → Dialled setup k' a s cdt sw m := by
    intro s cdt sw m hd
    exact ⟨hd.joins.mono hc.grows, hd.leads, hd.opened.mono hc.grows, hd.answered.mono hc.grows,
      fun body hs => hd.shows body (hc.shown sw s body hd.joins hs),
      fun id s' hj => hd.only id s' (hc.joins id s' hj)⟩
  cases phase with
  | authenticating cdt sw m =>
    obtain ⟨s, hd⟩ := h
    exact ⟨s, hdial hd⟩
  | running cdt sw m =>
    obtain ⟨s, hd, ha⟩ := h
    exact ⟨s, hdial hd, ha.mono hc.grows⟩
  | exited => trivial
  | _ => exact fun id s hj => h id s (hc.joins id s hj)

theorem Calm.exchanged (hg : Grows k k') (hw : Within k k' newSent newRead)
    (hshow : ∀ id x, newSent id .client x → x.1 ≠ .authConnectToSwitch) (a : ℕ) : Calm a k k' where
  grows := hg
  joins id s := by
    rintro ⟨c', hc', hends'⟩
    obtain ⟨c, hc, hends, -⟩ := hw id c' hc'
    exact ⟨c, hc, hends ▸ hends'⟩
  shown id s body _ := by
    rintro ⟨c', hc', hmem⟩
    obtain ⟨c, hc, -, hnew⟩ := hw id c' hc'
    rcases (hnew .client).1 _ hmem with hold | hfresh
    · exact ⟨c, hc, hold⟩
    · exact absurd rfl (hshow id _ hfresh)

/-- A connection that is not from the agent to a switch is opened. -/
theorem Inv.calm_openConn (h : Inv setup w) {ends : Ends} {a : ℕ}
    (hends : ∀ s, ends ≠ ⟨.agent a, .switch s⟩) (first : List Packet) :
    Calm a w.conns (w.openConn ends first).conns where
  grows := (h.later_openConn ends first).conns
  joins id s := by
    rintro ⟨c, hc, hc'⟩
    simp only [World.openConn] at hc
    by_cases hid : id = w.nextConn
    · rw [hid, Function.update_self, Option.some.injEq] at hc
      rw [← hc] at hc'
      exact absurd hc' (hends s)
    · rw [Function.update_of_ne hid] at hc
      exact ⟨c, hc, hc'⟩
  shown id s body := by
    rintro ⟨c, hc, -⟩ ⟨c', hc', hmem⟩
    have hid := h.lt_nextConn hc
    simp only [World.openConn] at hc'
    rw [Function.update_of_ne (by omega)] at hc'
    exact ⟨c', hc', hmem⟩

theorem Inv.calm_of_connStep (h : Inv setup w) {e : Event}
    (hc : ConnStep setup w e (Network.step setup w e)) {a : ℕ}
    (hnot : ∀ cdt m, w.agents a = .assigned cdt m → (Network.step setup w e).agents a ≠ .exited ∧
      (Network.step setup w e).agents a ≠ .authenticating cdt w.nextConn m) :
    Calm a w.conns (Network.step setup w e).conns := by
  have hg := (h.later e).conns
  cases hc with
  | exchanged newSent newRead hw hnew =>
    exact .exchanged hg hw (fun id x hx => (hnew id .client x hx).shows) a
  | opened ends first hserver _ hconns =>
    rw [hconns]
    refine h.calm_openConn (fun s hends => ?_) first
    rw [hends] at hserver
    simp at hserver
  | dialled a' s cdt m first hphase _ _ hconns hnext =>
    by_cases haa : a' = a
    · subst haa
      obtain ⟨hexited, hauth⟩ := hnot cdt m hphase
      exact (hnext.elim hexited hauth).elim
    · rw [hconns]
      refine h.calm_openConn (fun s' hends => haa ?_) first
      exact Client.agent.inj (congrArg Ends.client hends)

inductive PhaseStep (setup : Setup) (w : World) (a : ℕ) (k' : Conns) : Phase → Phase → Prop
  | same (phase : Phase) : PhaseStep setup w a k' phase phase
  | exited (phase : Phase) : PhaseStep setup w a k' phase .exited
  | asked : PhaseStep setup w a k' .notStarted (.waiting w.nextConn)
  | assigned (cdt : ℕ) (m : PacketConnectToSwitch) :
      PhaseStep setup w a k' (.waiting cdt) (.assigned cdt m)
  | dialled (s cdt : ℕ) (m : PacketConnectToSwitch) (first : List Packet)
      (hleads : Leads setup m s)
      (hfirst : ∀ x ∈ first,
        setup.codec.authConnectToSwitch.serializeToString ⟨m.connectionToken⟩ = some x.2)
      (hconns : k' = (w.openConn ⟨.agent a, .switch s⟩ first).conns) :
      PhaseStep setup w a k' (.assigned cdt m) (.authenticating cdt w.nextConn m)
  | accepted (cdt sw : ℕ) (m : PacketConnectToSwitch) (c : Connection Ends Packet) (body : Bytes)
      (hc : w.conns sw = some c) (hmem : (.connectionAccepted, body) ∈ c.toClient.sent) :
      PhaseStep setup w a k' (.authenticating cdt sw m) (.running cdt sw m)

theorem World.setPhase_agents (w : World) (a a' : ℕ) (phase : Phase) :
    (w.setPhase a' phase).agents a = if a = a' then phase else w.agents a :=
  Function.update_apply _ _ _ _

theorem PhaseStep.setPhase {a' : ℕ} {k' : Conns} {next : Phase}
    (h : PhaseStep setup w a' k' (w.agents a') next) {w' : World} (hw : w'.agents = w.agents)
    (a : ℕ) : PhaseStep setup w a k' (w.agents a) ((w'.setPhase a' next).agents a) := by
  rw [World.setPhase_agents, hw]
  split_ifs with haa
  · exact haa ▸ h
  · exact .same _

theorem phase_startAgent (a a' : ℕ) (sent : Bool) :
    PhaseStep setup w a (w.startAgent setup a' sent).conns (w.agents a)
      ((w.startAgent setup a' sent).agents a) := by
  unfold World.startAgent
  split
  · rename_i hphase
    refine PhaseStep.setPhase ?_ rfl a
    rw [hphase]
    split_ifs
    · exact .asked
    · exact .exited _
  · exact .same _

theorem phase_readAssignment (a a' : ℕ) :
    PhaseStep setup w a (w.readAssignment setup a').conns (w.agents a)
      ((w.readAssignment setup a').agents a) := by
  unfold World.readAssignment
  split
  · rename_i cdt hphase
    split
    · exact .same _
    · refine PhaseStep.setPhase ?_ rfl a
      rw [hphase]
      split
      · exact .same _
      · exact .exited _
      · exact .assigned _ _
  · exact .same _

theorem phase_connectSwitch (a a' s : ℕ) (sent : Bool) :
    PhaseStep setup w a (w.connectSwitch setup a' s sent).conns (w.agents a)
      ((w.connectSwitch setup a' s sent).agents a) := by
  unfold World.connectSwitch
  split
  · rename_i cdt m node hphase hs
    split_ifs with hleads
    · refine PhaseStep.setPhase ?_ rfl a
      rw [hphase]
      split_ifs
      · exact .dialled s cdt m _ hleads (fun x hx => (mem_firstPacket hx).2) rfl
      · exact .exited _
    · exact .same _
  · exact .same _

theorem phase_readAccepted (a a' : ℕ) :
    PhaseStep setup w a (w.readAccepted setup a').conns (w.agents a)
      ((w.readAccepted setup a').agents a) := by
  unfold World.readAccepted
  split
  · rename_i cdt sw m hphase
    split
    · exact .same _
    · rename_i packet hpacket
      refine PhaseStep.setPhase ?_ rfl a
      rw [hphase]
      split
      · exact .same _
      · exact .exited _
      · rename_i msg hread
        obtain ⟨-, htype, -⟩ := readProtobufPacket_eq_message.mp hread
        obtain ⟨c, rest, hc, hflight⟩ := inFlight_of_head hpacket
        refine .accepted cdt sw m c packet.2 hc ?_
        rw [← htype]
        exact mem_sent_of_inFlight hflight
  · exact .same _

theorem startSwitch_agents (s : ℕ) (cdtSock : Fd) (sent : Bool) :
    (w.startSwitch setup s cdtSock sent).agents = w.agents := by
  unfold World.startSwitch
  split <;> rfl

theorem switchAccept_agents (s id : ℕ) (fd : Fd) (put : Bool) :
    (w.switchAccept setup s id fd put).agents = w.agents := by
  unfold World.switchAccept
  split
  · split_ifs <;> rfl
  · rfl

theorem switchPacket_agents (s : ℕ) (fd : Fd) (ok : Bool) :
    (w.switchPacket setup s fd ok).agents = w.agents := by
  unfold World.switchPacket
  split
  · split <;> rfl
  · rfl

theorem switchLocal_agents (s : ℕ) (e : Switch.Event) :
    (w.switchLocal setup s e).agents = w.agents := by
  unfold World.switchLocal
  split <;> rfl

theorem conductorAccept_agents (id : ℕ) (fd : Fd) (put : Bool) :
    (w.conductorAccept setup id fd put).agents = w.agents := by
  unfold World.conductorAccept
  split_ifs <;> rfl

theorem conductorPacket_agents (fd : Fd) (answers : ConductorAnswers) :
    (w.conductorPacket setup fd answers).agents = w.agents := by
  unfold World.conductorPacket
  split <;> rfl

theorem agentHeartbeats_agents (a : ℕ) (toConductor toSwitch : Bool) :
    (w.agentHeartbeats a toConductor toSwitch).agents = w.agents := by
  unfold World.agentHeartbeats
  split <;> rfl

theorem phaseStep (setup : Setup) (w : World) (e : Event) (a : ℕ) :
    PhaseStep setup w a (Network.step setup w e).conns (w.agents a)
      ((Network.step setup w e).agents a) := by
  have hsame : (Network.step setup w e).agents = w.agents →
      PhaseStep setup w a (Network.step setup w e).conns (w.agents a)
        ((Network.step setup w e).agents a) := fun h => by
    rw [h]
    exact .same _
  cases e with
  | startAgent a' sent => exact phase_startAgent a a' sent
  | readAssignment a' => exact phase_readAssignment a a'
  | connectSwitch a' s sent => exact phase_connectSwitch a a' s sent
  | readAccepted a' => exact phase_readAccepted a a'
  | stopAgent a' => exact PhaseStep.setPhase (.exited _) rfl a
  | startSwitch s cdtSock sent => exact hsame (startSwitch_agents s cdtSock sent)
  | switchAccept s id fd put => exact hsame (switchAccept_agents s id fd put)
  | switchPacket s fd ok => exact hsame (switchPacket_agents s fd ok)
  | switchClosed s data => exact hsame (switchLocal_agents s _)
  | switchExpire s => exact hsame (switchLocal_agents s _)
  | switchHeartbeats s ok => exact hsame (switchLocal_agents s _)
  | conductorAccept id fd put => exact hsame (conductorAccept_agents id fd put)
  | conductorPacket fd answers => exact hsame (conductorPacket_agents fd answers)
  | agentHeartbeats a' toConductor toSwitch =>
    exact hsame (agentHeartbeats_agents a' toConductor toSwitch)
  | _ => exact hsame rfl

/-- An agent that dials has no other connection to a switch. -/
theorem Inv.dialled (h : Inv setup w) {a s cdt : ℕ} {m : PacketConnectToSwitch}
    (hphase : w.agents a = .assigned cdt m) (hk : Knows setup w.conns a (.assigned cdt m))
    (hleads : Leads setup m s) {first : List Packet} (hfirst : ∀ x ∈ first,
      setup.codec.authConnectToSwitch.serializeToString ⟨m.connectionToken⟩ = some x.2) :
    Dialled setup (w.openConn ⟨.agent a, .switch s⟩ first).conns a s cdt w.nextConn m := by
  have hg := (h.later_openConn ⟨.agent a, .switch s⟩ first).conns
  have hassigned := h.agents a
  rw [hphase] at hassigned
  refine ⟨⟨_, w.openConn_conns _ _, rfl⟩, hleads, hassigned.1.mono hg, hassigned.2.mono hg,
    fun body => ?_, fun id s' => ?_⟩
  · rintro ⟨c, hc, hmem⟩
    rw [w.openConn_conns, Option.some.injEq] at hc
    rw [← hc] at hmem
    exact hfirst _ hmem
  · rintro ⟨c, hc, hends⟩
    by_contra hid
    simp only [World.openConn] at hc
    rw [Function.update_of_ne hid] at hc
    exact hk id s' ⟨c, hc, hends⟩

theorem Inv.knows_step (h : Inv setup w) (e : Event) {a : ℕ}
    (hk : Knows setup w.conns a (w.agents a)) :
    Knows setup (Network.step setup w e).conns a ((Network.step setup w e).agents a) := by
  have hc := h.connStep e
  have hp := phaseStep setup w e a
  generalize hold : w.agents a = phase at hp hk
  generalize hnew : (Network.step setup w e).agents a = phase' at hp
  -- a phase that follows from another one without a call to a switch
  have hcalm : (∀ cdt m, phase = .assigned cdt m → phase' = .assigned cdt m) →
      Calm a w.conns (Network.step setup w e).conns := by
    intro hstays
    refine h.calm_of_connStep hc fun cdt m hphase => ?_
    rw [hnew, hstays cdt m (hold.symm.trans hphase)]
    exact ⟨by simp, by simp⟩
  cases hp with
  | same => exact hk.calm (hcalm fun _ _ heq => heq)
  | exited => trivial
  | asked =>
    have hnone : Knows setup (Network.step setup w e).conns a .notStarted :=
      hk.calm (hcalm (by simp))
    exact hnone
  | assigned cdt m =>
    have hnone : Knows setup (Network.step setup w e).conns a (.waiting cdt) :=
      hk.calm (hcalm (by simp))
    exact hnone
  | dialled s cdt m first hleads hfirst hconns =>
    rw [hconns]
    exact ⟨s, h.dialled hold hk hleads hfirst⟩
  | accepted cdt sw m c body hsw hmem =>
    have hcalm' := hcalm (by simp)
    obtain ⟨s, hd⟩ := hk.calm hcalm'
    obtain ⟨s', hd'⟩ := hk
    obtain ⟨c', hc', hends⟩ := hd'.joins
    have hacc : Accepted w.conns s' sw := by
      refine ⟨c, body, hsw, ?_, hmem⟩
      rw [hsw, Option.some.injEq] at hc'
      rw [hc', hends]
    have hss := (hd.joins.unique (hd'.joins.mono hcalm'.grows)).2
    exact ⟨s, hd, hss ▸ hacc.mono hcalm'.grows⟩

theorem knows_run (hsound : setup.codec.Sound) (clock : ℤ) (es : List Event) (a : ℕ) :
    Knows setup (run setup clock es).conns a ((run setup clock es).agents a) := by
  have hinv : Inv setup (run setup clock es) ∧
      Knows setup (run setup clock es).conns a ((run setup clock es).agents a) := by
    refine Runs.invariant_always (I := fun w => Inv setup w ∧ Knows setup w.conns a (w.agents a))
      ?_ ?_ es
    · rintro w e ⟨hinv, hk⟩
      exact ⟨Inv.step hsound w e hinv, hinv.knows_step e hk⟩
    · refine ⟨.start setup clock, fun id s => ?_⟩
      rintro ⟨c, hc, -⟩
      simp [Network.start] at hc
  exact hinv.2

/-- The token of an assignment authenticates one connection: the one that the
agent it was given to has opened, with the name of this agent. -/
theorem Inv.one_authentication (h : Inv setup w) (hdistinct : Distinct w.conductor.state.drawn)
    {a s cdt sw : ℕ} {m : PacketConnectToSwitch} (hd : Dialled setup w.conns a s cdt sw m)
    (hbefore : Inv setup w') (hl : Later w' w) (hsound : setup.codec.Sound) {e : Event} {s' id : ℕ}
    {n : Text} (ha : Authenticates setup w' e s' id m.connectionToken n) :
    s' = s ∧ id = sw ∧ n = (setup.agent a).name ∧ m.switchName = (setup.switch s).name := by
  obtain ⟨hread, a', cdt', m', hjoin, hopen, hans, htoken, -⟩ := hbefore.authenticates hsound ha
  -- both answers carry the token, so they are on one connection to the conductor
  have hcdt : cdt' = cdt :=
    h.history.unique hdistinct cdt' m' cdt m (hans.mono hl.conns) hd.answered htoken
  rw [hcdt] at hopen
  have haa : a' = a := Client.agent.inj ((hopen.mono hl.conns).client_unique hd.opened)
  rw [haa] at hjoin
  have hid : id = sw := hd.only id s' (hjoin.mono hl.conns)
  have hss : s' = s := by
    rw [hid] at hjoin
    exact ((hjoin.mono hl.conns).unique hd.joins).2
  obtain ⟨idS, hann, hopenS⟩ := (hread.mono hl.conns).announced
  obtain ⟨b, s'', hask, hname, hopenS', hswitch⟩ :=
    h.history.paired hdistinct cdt m idS ⟨n, m.connectionToken⟩ hd.answered hann rfl
  have hba : b = a := Client.agent.inj (hask.openedBy.client_unique hd.opened)
  have hss' : s'' = s' := Client.switch.inj (hopenS'.client_unique hopenS)
  rw [hss', hss] at hswitch
  rw [hba] at hname
  exact ⟨hss, hid, hname.symm, hswitch⟩

/-- Agreement as an agent sees it. An agent in its event loop was authenticated,
on the connection it opened and for the token of its assignment, by the switch
this assignment leads to. When the tokens of the run are all different, that was
the switch the conductor named, and nobody else was ever authenticated for this
token. -/
theorem agent_agreement (hsound : setup.codec.Sound) (clock : ℤ) {es : List Event}
    {a cdt sw : ℕ} {m : PacketConnectToSwitch}
    (hrunning : (run setup clock es).agents a = .running cdt sw m) :
    ∃ s, Joins (run setup clock es).conns sw a s ∧ Leads setup m s ∧
      OpenedBy (run setup clock es).conns cdt (.agent a) ∧
      Answered setup (run setup clock es).conns cdt m ∧
      (∃ as e bs n, es = as ++ e :: bs ∧
        Authenticates setup (run setup clock as) e s sw m.connectionToken n) ∧
      (Distinct (run setup clock es).conductor.state.drawn →
        m.switchName = (setup.switch s).name ∧ ∀ as e bs, es = as ++ e :: bs → ∀ s' id n,
          Authenticates setup (run setup clock as) e s' id m.connectionToken n →
          s' = s ∧ id = sw ∧ n = (setup.agent a).name) := by
  have hinv := Inv.run hsound clock es
  have hk := knows_run hsound clock es a
  rw [hrunning] at hk
  obtain ⟨s, hd, haccepted⟩ := hk
  have hone : ∀ as e bs, es = as ++ e :: bs →
      Distinct (run setup clock es).conductor.state.drawn → ∀ s' id n,
      Authenticates setup (run setup clock as) e s' id m.connectionToken n →
      s' = s ∧ id = sw ∧ n = (setup.agent a).name ∧ m.switchName = (setup.switch s).name := by
    rintro as e bs rfl hdistinct s' id n ha
    exact hinv.one_authentication hdistinct hd (Inv.run hsound clock as)
      (later_run hsound clock as (e :: bs)) hsound ha
  -- the acceptance it has read goes back to an authentication of its connection
  obtain ⟨as, e, bs, hes, t, n, hauth⟩ := accepted_run hsound clock haccepted
  obtain ⟨body, hshown, hparse⟩ := (Inv.run hsound clock as).shown_of_authenticates hauth
  have hl : Later (run setup clock as) (run setup clock es) := by
    rw [hes]
    exact later_run hsound clock as (e :: bs)
  have htoken : m.connectionToken = t := by
    have hback := hsound.authConnectToSwitch _ _ (hd.shows body (hshown.mono hl.conns))
    rw [hparse, Option.some.injEq, PacketAuthConnectToSwitch.mk.injEq] at hback
    exact hback.symm
  rw [← htoken] at hauth
  refine ⟨s, hd.joins, hd.leads, hd.opened, hd.answered, ⟨as, e, bs, n, hes, hauth⟩,
    fun hdistinct => ⟨?_, fun as' e' bs' hes' s' id n' ha' => ?_⟩⟩
  · exact (hone as e bs hes hdistinct s sw n hauth).2.2.2
  · obtain ⟨hs, hid, hn, -⟩ := hone as' e' bs' hes' hdistinct s' id n' ha'
    exact ⟨hs, hid, hn⟩

/-- The agent reads the acceptance of the switch it has joined. -/
theorem agent_agreement_joined :
    let es := joining ++ [.switchPacket 0 3 true, .switchPacket 0 4 true, .readAccepted 0]
    ∃ s, Joins (run joiningSetup 0 es).conns 2 0 s ∧
      ∃ as e bs n, es = as ++ e :: bs ∧
        Authenticates joiningSetup (run joiningSetup 0 as) e s 2 7 n := by
  intro es
  have hrunning : (run joiningSetup 0 es).agents 0 =
      .running 1 2 ⟨"s1".toList, 0x0200000a, 7, 7000⟩ := by decide +kernel
  obtain ⟨s, hjoin, -, -, -, hauth, -⟩ :=
    @agent_agreement joiningSetup Codec.sample_sound 0 es 0 1 2 _ hrunning
  exact ⟨s, hjoin, hauth⟩

end VNet.Network
