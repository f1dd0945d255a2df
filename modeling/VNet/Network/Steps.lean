import VNet.Network.Invariant

namespace VNet.Network
open Protocol NetQueue Connections

variable {setup : Setup} {k k' : Conns} {w w' : World} {s : ℕ}
  {newSent newRead : ℕ → Side → Packet → Prop}

/-- What is never taken back: packets that were sent or read, tokens that were
drawn, and time. -/
structure Later (w w' : World) : Prop where
  conns : Grows w.conns w'.conns
  drawn : w.conductor.state.drawn <+: w'.conductor.state.drawn
  clock : w.clock ≤ w'.clock

theorem Later.refl (w : World) : Later w w := ⟨.refl _, List.prefix_rfl, le_rfl⟩

theorem Later.trans {w w' w'' : World} (h : Later w w') (h' : Later w' w'') : Later w w'' :=
  ⟨h.conns.trans h'.conns, h.drawn.trans h'.drawn, h.clock.trans h'.clock⟩

theorem Later.of_conns (w : World) (hg : Grows w.conns k) : Later w { w with conns := k } :=
  ⟨hg, List.prefix_rfl, le_rfl⟩

theorem drawn_prefix_of_transition {codec : Codec} {p p' : Conductor.Program}
    {e : Conductor.Event} (h : Conductor.Transition codec p e p') :
    p.state.drawn <+: p'.state.drawn := by
  cases h with
  | assigned => exact List.prefix_append _ _
  | closed data info =>
    simp only [Conductor.forget, Conductor.unlist]
    split <;> exact List.prefix_rfl
  | heartbeats now ok p' hk => rw [hk.state_eq]
  | _ => exact List.prefix_rfl

theorem Inv.later_conductorStep (h : Inv setup w) (hg : Grows w.conns k) (e : Conductor.Event) :
    Later w (w.conductorStep setup k e) where
  conns := hg.trans (grows_postAll _ _ _)
  drawn := drawn_prefix_of_transition
    (Conductor.step_transition setup.codec h.conductor.wired h.conductor.listsAlive.switches e)
  clock := le_rfl

theorem later_switchStep (hg : Grows w.conns k) (s : ℕ) (node : SwitchNode) (e : Switch.Event) :
    Later w (w.switchStep setup s node k e) :=
  ⟨hg.trans (grows_postAll _ _ _), List.prefix_rfl, le_rfl⟩

theorem Inv.later_openConn (h : Inv setup w) (ends : Ends) (first : List Packet) :
    Later w (w.openConn ends first) :=
  ⟨grows_update (h.fresh _ le_rfl) _, List.prefix_rfl, le_rfl⟩

theorem Later.setPhase {w' : World} (h : Later w w') (a : ℕ) (phase : Phase) :
    Later w (w'.setPhase a phase) :=
  ⟨h.conns, h.drawn, h.clock⟩

theorem later_switchLocal (s : ℕ) (e : Switch.Event) : Later w (w.switchLocal setup s e) := by
  unfold World.switchLocal
  split
  · exact later_switchStep (.refl _) _ _ _
  · exact .refl w

theorem OpenedBy.within (hw : Within k k' newSent newRead) {id : ℕ} {client : Client}
    (h : OpenedBy k' id client) : OpenedBy k id client := by
  obtain ⟨c', hc', hclient⟩ := h
  obtain ⟨c, hc, hends, -⟩ := hw id c' hc'
  exact ⟨c, hc, by rw [← hends, hclient]⟩

theorem ReadToken.within (hw : Within k k' newSent newRead) {pkt : PacketAgentConnectionToken}
    (h : ReadToken setup k' s pkt) : ReadToken setup k s pkt ∨
      ∃ id c body, k id = some c ∧ c.ends = ⟨.switch s, .conductor⟩ ∧
        newRead id .server (.agentConnectionToken, body) ∧
        setup.codec.agentConnectionToken.parseFromArray body = some pkt := by
  obtain ⟨id, c', body, hc', hends', hmem, hparse⟩ := h
  obtain ⟨c, hc, hends, hnew⟩ := hw id c' hc'
  rw [hends] at hends'
  rcases (hnew .server).2 _ hmem with hold | hfresh
  · exact .inl ⟨id, c, body, hc, hends', hold, hparse⟩
  · exact .inr ⟨id, c, body, hc, hends', hfresh, hparse⟩

/-- Sending makes no packet read. -/
theorem ReadToken.of_postAll {side : Ends → Side} {posts : List (ℕ × Packet)}
    {pkt : PacketAgentConnectionToken} (h : ReadToken setup (k.postAll side posts) s pkt) :
    ReadToken setup k s pkt := by
  rcases h.within (Within.postAll side k posts) with hold | ⟨id, c, body, -, -, hnew, -⟩
  · exact hold
  · exact hnew.elim

/-- On a new connection nothing was read. -/
theorem ReadToken.of_openConn {ends : Ends} {first : List Packet}
    {pkt : PacketAgentConnectionToken}
    (h : ReadToken setup (w.openConn ends first).conns s pkt) : ReadToken setup w.conns s pkt := by
  obtain ⟨id, c, body, hc, hends, hmem, hparse⟩ := h
  simp only [World.openConn] at hc
  by_cases hid : id = w.nextConn
  · rw [hid, Function.update_self, Option.some.injEq] at hc
    rw [← hc] at hmem
    simp [Channel.empty] at hmem
  · rw [Function.update_of_ne hid] at hc
    exact ⟨id, c, body, hc, hends, hmem, hparse⟩

theorem OpenedBy.of_openConn {ends : Ends} {first : List Packet} {id : ℕ} {client : Client}
    (h : OpenedBy (w.openConn ends first).conns id client) (hne : ends.client ≠ client) :
    OpenedBy w.conns id client := by
  obtain ⟨c, hc, hclient⟩ := h
  simp only [World.openConn] at hc
  by_cases hid : id = w.nextConn
  · rw [hid, Function.update_self, Option.some.injEq] at hc
    rw [← hc] at hclient
    exact absurd hclient hne
  · rw [Function.update_of_ne hid] at hc
    exact ⟨c, hc, hclient⟩

structure Quiet (setup : Setup) (w w' : World) : Prop where
  later : Later w w'
  draws : ∀ x ∈ w'.conductor.state.drawn, x ∈ w.conductor.state.drawn ∨ x.2 ≤ w.clock
  switches : w'.switches = w.switches
  opened : ∀ id s, OpenedBy w'.conns id (.switch s) → OpenedBy w.conns id (.switch s)
  read : ∀ s pkt, ReadToken setup w'.conns s pkt → ReadToken setup w.conns s pkt

theorem Quiet.refl (w : World) : Quiet setup w w :=
  ⟨.refl w, fun _ hx => .inl hx, rfl, fun _ _ h => h, fun _ _ h => h⟩

theorem Quiet.setPhase (h : Quiet setup w w') (a : ℕ) (phase : Phase) :
    Quiet setup w (w'.setPhase a phase) :=
  ⟨h.later.setPhase a phase, h.draws, h.switches, h.opened, h.read⟩

/-- An agent opens a connection. -/
theorem Inv.quiet_openConn (h : Inv setup w) {ends : Ends} {a : ℕ} (hends : ends.client = .agent a)
    (first : List Packet) : Quiet setup w (w.openConn ends first) where
  later := h.later_openConn ends first
  draws _ hx := .inl hx
  switches := rfl
  opened id s hopen := hopen.of_openConn (by rw [hends]; simp)
  read s pkt hr := hr.of_openConn

/-- Packets are sent, or read by an agent. -/
theorem Quiet.withConns (hg : Grows w.conns k) (hw : Within w.conns k newSent newRead)
    (hagent : ∀ id x, newRead id .server x → ∃ a, OpenedBy w.conns id (.agent a)) :
    Quiet setup w { w with conns := k } where
  later := .of_conns w hg
  draws _ hx := .inl hx
  switches := rfl
  opened id s hopen := hopen.within hw
  read s pkt hr := by
    rcases hr.within hw with hold | ⟨id, c, body, hc, hends, hnew, -⟩
    · exact hold
    · obtain ⟨a, hopen⟩ := hagent id _ hnew
      have hswitch : OpenedBy w.conns id (.switch s) := ⟨c, hc, by rw [hends]⟩
      have hne := hopen.client_unique hswitch
      simp at hne

theorem draws_of_transition {codec : Codec} {p p' : Conductor.Program} {e : Conductor.Event}
    (h : Conductor.Transition codec p e p') : ∀ x ∈ p'.state.drawn, x ∈ p.state.drawn ∨
      ∃ data a, e = .packet data a ∧ x.2 = a.now := by
  intro x hx
  cases h with
  | assigned _ data pkt a info q rr sw hp =>
    obtain ⟨he, -⟩ := Conductor.received_eq_some hp
    rcases List.mem_append.mp hx with hold | hnew
    · exact .inl hold
    · rw [List.mem_singleton] at hnew
      exact .inr ⟨data, a, he, by rw [hnew]⟩
  | closed data info =>
    simp only [Conductor.forget, Conductor.unlist] at hx
    split at hx <;> exact .inl hx
  | heartbeats now ok p' hk =>
    rw [hk.state_eq] at hx
    exact .inl hx
  | _ => exact .inl hx

theorem Inv.quiet_conductorStep (h : Inv setup w) (hg : Grows w.conns k)
    (hw : Within w.conns k Nothing newRead) (hclient : ∀ id x, ¬ newRead id .server x)
    {e : Conductor.Event} (hnow : ∀ data a, e = .packet data a → a.now = w.clock) :
    Quiet setup w (w.conductorStep setup k e) where
  later := h.later_conductorStep hg e
  draws x hx := by
    have ht := Conductor.step_transition setup.codec h.conductor.wired
      h.conductor.listsAlive.switches e
    refine (draws_of_transition ht x hx).imp_right ?_
    rintro ⟨data, a, he, hx⟩
    rw [hx, hnow data a he]
  switches := rfl
  opened id s hopen := (OpenedBy.within (Within.postAll _ _ _) hopen).within hw
  read s pkt hr := by
    have hr' : ReadToken setup k s pkt := ReadToken.of_postAll hr
    rcases hr'.within hw with hold | ⟨id, c, body, -, -, hnew, -⟩
    · exact hold
    · exact (hclient id _ hnew).elim

theorem Inv.quiet_conductorAccept (h : Inv setup w) (id : ℕ) (fd : Fd) (put : Bool) :
    Quiet setup w (w.conductorAccept setup id fd put) := by
  unfold World.conductorAccept
  split_ifs
  · have hstep := h.quiet_conductorStep (.refl _) (within_same _) (fun _ _ hnew => hnew)
      (e := .accept fd w.clock put) (by simp)
    exact ⟨⟨grows_postAll _ _ _, hstep.later.drawn, le_rfl⟩, hstep.draws, rfl,
      fun id' s hopen => OpenedBy.within (Within.postAll _ _ _) hopen,
      fun s pkt hr => ReadToken.of_postAll hr⟩
  · exact .refl w

theorem Inv.quiet_conductorPacket (h : Inv setup w) (fd : Fd) (a : ConductorAnswers) :
    Quiet setup w (w.conductorPacket setup fd a) := by
  unfold World.conductorPacket
  split
  · exact .refl w
  · rename_i d hd
    obtain ⟨-, -, c, rest, hc, -, hflight⟩ := delivery_eq_some hd
    refine h.quiet_conductorStep (grows_take _ _ _) (Within.take hc hflight) ?_ ?_
    · rintro id x ⟨-, hside, -⟩
      simp at hside
    · intro data a' he
      rw [← (Conductor.Event.packet.inj he).2]

theorem Inv.quiet_startAgent (h : Inv setup w) (a : ℕ) (sent : Bool) :
    Quiet setup w (w.startAgent setup a sent) := by
  unfold World.startAgent
  split
  · exact (h.quiet_openConn rfl _).setPhase _ _
  · exact .refl w

/-- An agent reads from a connection of its own. -/
theorem Quiet.take {id a : ℕ} {packet : Packet} (hopen : OpenedBy w.conns id (.agent a))
    (hpacket : ((w.conns id).bind fun c => c.toClient.inFlight.head?) = some packet) :
    Quiet setup w { w with conns := w.conns.take id .server } := by
  obtain ⟨c, rest, hc, hflight⟩ := inFlight_of_head hpacket
  refine .withConns (grows_take _ _ _) (Within.take hc hflight) ?_
  rintro id' x ⟨rfl, -⟩
  exact ⟨a, hopen⟩

theorem Inv.quiet_readAssignment (h : Inv setup w) (a : ℕ) :
    Quiet setup w (w.readAssignment setup a) := by
  unfold World.readAssignment
  split
  · rename_i cdt hphase
    split
    · exact .refl w
    · rename_i packet hpacket
      have hwait := h.agents a
      rw [hphase] at hwait
      obtain ⟨c, hc, hends⟩ := hwait
      exact (Quiet.take ⟨c, hc, by rw [hends]⟩ hpacket).setPhase _ _
  · exact .refl w

theorem Inv.quiet_connectSwitch (h : Inv setup w) (a s : ℕ) (sent : Bool) :
    Quiet setup w (w.connectSwitch setup a s sent) := by
  unfold World.connectSwitch
  split
  · split
    · exact (h.quiet_openConn rfl _).setPhase _ _
    · exact .refl w
  · exact .refl w

theorem Inv.quiet_readAccepted (h : Inv setup w) (a : ℕ) :
    Quiet setup w (w.readAccepted setup a) := by
  unfold World.readAccepted
  split
  · rename_i cdt sw m hphase
    split
    · exact .refl w
    · rename_i packet hpacket
      have hauth := h.agents a
      rw [hphase] at hauth
      exact (Quiet.take hauth hpacket).setPhase _ _
  · exact .refl w

theorem quiet_agentHeartbeats (a : ℕ) (toConductor toSwitch : Bool) :
    Quiet setup w (w.agentHeartbeats a toConductor toSwitch) := by
  unfold World.agentHeartbeats
  split
  · exact .withConns (grows_postAll _ _ _) (Within.postAll _ _ _) fun _ _ hnew => hnew.elim
  · exact .refl w

theorem Inv.later (h : Inv setup w) (e : Event) : Later w (Network.step setup w e) := by
  cases e with
  | tick ns => exact ⟨.refl _, List.prefix_rfl, Int.le_add_of_nonneg_right (Int.natCast_nonneg ns)⟩
  | startSwitch s cdtSock sent =>
    simp only [Network.step, World.startSwitch]
    split
    · have hopen := h.later_openConn ⟨.switch s, .conductor⟩ (firstPacket .switchMip
        (setup.codec.switchMip.serializeToString ⟨(setup.switch s).name, (setup.switch s).authKey,
          "::internet".toList, (setup.switch s).port.toUInt32⟩) sent)
      exact ⟨hopen.conns, hopen.drawn, hopen.clock⟩
    · exact .refl w
  | stopSwitch s => exact ⟨.refl _, List.prefix_rfl, le_rfl⟩
  | switchAccept s id fd put =>
    simp only [Network.step, World.switchAccept]
    split
    · split_ifs
      · exact ⟨grows_postAll _ _ _, List.prefix_rfl, le_rfl⟩
      · exact .refl w
    · exact .refl w
  | switchPacket s fd ok =>
    simp only [Network.step, World.switchPacket]
    split
    · split
      · exact .refl w
      · exact later_switchStep (grows_take _ _ _) s _ _
    · exact .refl w
  | switchClosed s data => exact later_switchLocal s _
  | switchExpire s => exact later_switchLocal s _
  | switchHeartbeats s ok => exact later_switchLocal s _
  | conductorAccept id fd put => exact (h.quiet_conductorAccept id fd put).later
  | conductorPacket fd a => exact (h.quiet_conductorPacket fd a).later
  | conductorClosed data => exact h.later_conductorStep (.refl _) _
  | conductorHeartbeats ok => exact h.later_conductorStep (.refl _) _
  | startAgent a sent => exact (h.quiet_startAgent a sent).later
  | readAssignment a => exact (h.quiet_readAssignment a).later
  | connectSwitch a s sent => exact (h.quiet_connectSwitch a s sent).later
  | readAccepted a => exact (h.quiet_readAccepted a).later
  | agentHeartbeats a toConductor toSwitch =>
    have hquiet : Quiet setup w (w.agentHeartbeats a toConductor toSwitch) :=
      quiet_agentHeartbeats a toConductor toSwitch
    exact hquiet.later
  | stopAgent a => exact (Later.refl w).setPhase _ _

theorem later_run (hsound : setup.codec.Sound) (clock : ℤ) (es more : List Event) :
    Later (run setup clock es) (run setup clock (es ++ more)) := by
  induction more using List.reverseRecOn with
  | nil =>
    rw [List.append_nil]
    exact .refl _
  | append_singleton more e ih =>
    have hlast : run setup clock (es ++ (more ++ [e])) =
        Network.step setup (run setup clock (es ++ more)) e := by
      rw [← List.append_assoc, Network.run, Runs.run_concat]
    rw [hlast]
    exact ih.trans ((Inv.run hsound clock (es ++ more)).later e)

end VNet.Network
