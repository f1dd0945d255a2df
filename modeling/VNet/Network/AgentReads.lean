import VNet.Network.Acceptance

namespace VNet.Network
open Protocol NetQueue Connections

variable {setup : Setup} {k k' : Conns} {w : World} {a : ℕ}

/-- What the agent has read of what was sent to it on a connection of its own. -/
def heard (k : Conns) (id : ℕ) : List Packet := k.readFrom id .server

theorem heard_openConn {ends : Ends} {first : List Packet} {id : ℕ} (hid : id ≠ w.nextConn) :
    heard (w.openConn ends first).conns id = heard w.conns id :=
  readFrom_congr (Function.update_of_ne hid _ _) _

theorem heard_openConn_new (ends : Ends) (first : List Packet) :
    heard (w.openConn ends first).conns w.nextConn = [] := by
  rw [heard, readFrom_some (w.openConn_conns ends first)]
  rfl

theorem Inv.opened_ne_nextConn (h : Inv setup w) {id : ℕ} {client : Client}
    (hopen : OpenedBy w.conns id client) : id ≠ w.nextConn := by
  obtain ⟨c, hc, -⟩ := hopen
  exact (h.lt_nextConn hc).ne

theorem Inv.heard_startSwitch (h : Inv setup w) {id : ℕ} (hopen : OpenedBy w.conns id (.agent a))
    (s : ℕ) (cdtSock : Fd) (sent : Bool) :
    heard (w.startSwitch setup s cdtSock sent).conns id = heard w.conns id := by
  unfold World.startSwitch
  split
  · exact heard_openConn (h.opened_ne_nextConn hopen)
  · rfl

/-- A switch reads what agents send to it, and what the conductor sends on the
connection it has opened itself. -/
theorem Inv.heard_switchPacket (h : Inv setup w) {id : ℕ} (hopen : OpenedBy w.conns id (.agent a))
    (s : ℕ) (fd : Fd) (ok : Bool) :
    heard (w.switchPacket setup s fd ok).conns id = heard w.conns id := by
  unfold World.switchPacket
  split
  · rename_i node hs
    split
    · rfl
    · rename_i d hd
      refine (readFrom_postAll _ _ _ _ _).trans (readFrom_take_ne ?_ _)
      rintro rfl
      obtain ⟨-, c, rest, hc, hends, hfrom⟩ := h.switchDelivery hs hd
      rcases hfrom with ⟨hcond, -⟩ | ⟨a', -, hpeer, -⟩
      · have hswitch : OpenedBy w.conns d.conn (.switch s) := ⟨c, hc, by rw [hends, hcond]⟩
        have hne := hopen.client_unique hswitch
        simp at hne
      · rw [hpeer]
        simp
  · rfl

theorem heard_switchLocal (id s : ℕ) (e : Switch.Event) :
    heard (w.switchLocal setup s e).conns id = heard w.conns id := by
  unfold World.switchLocal
  split
  · exact readFrom_postAll _ _ _ _ _
  · rfl

theorem heard_switchAccept (id' s id : ℕ) (fd : Fd) (put : Bool) :
    heard (w.switchAccept setup s id fd put).conns id' = heard w.conns id' := by
  unfold World.switchAccept
  split
  · split_ifs
    · exact readFrom_postAll _ _ _ _ _
    · rfl
  · rfl

theorem heard_conductorAccept (id' id : ℕ) (fd : Fd) (put : Bool) :
    heard (w.conductorAccept setup id fd put).conns id' = heard w.conns id' := by
  unfold World.conductorAccept
  split_ifs
  · exact readFrom_postAll _ _ _ _ _
  · rfl

theorem heard_conductorPacket (id : ℕ) (fd : Fd) (answers : ConductorAnswers) :
    heard (w.conductorPacket setup fd answers).conns id = heard w.conns id := by
  unfold World.conductorPacket
  split
  · rfl
  · exact (readFrom_postAll _ _ _ _ _).trans (readFrom_take_ne (by simp) _)

theorem heard_agentHeartbeats (id : ℕ) (toConductor toSwitch : Bool) :
    heard (w.agentHeartbeats a toConductor toSwitch).conns id = heard w.conns id := by
  unfold World.agentHeartbeats
  split
  · exact readFrom_postAll _ _ _ _ _
  · rfl

def GotAssignment (setup : Setup) (k : Conns) (cdt : ℕ) (m : PacketConnectToSwitch) : Prop :=
  Common.Answers setup.codec.connectToSwitch ⟨[], 0, 0, 0⟩ .connectToSwitch (heard k cdt) m []

def GotAcceptance (setup : Setup) (k : Conns) (sw : ℕ) : Prop :=
  Common.Answers setup.codec.connectionAccepted ⟨⟩ .connectionAccepted (heard k sw) ⟨⟩ []

def GotNothing (k : Conns) (id : ℕ) : Prop := ∀ q ∈ heard k id, q.1 = .heartbeat

def HasRead (setup : Setup) (k : Conns) : Phase → Prop
  | .waiting cdt => GotNothing k cdt
  | .assigned cdt m => GotAssignment setup k cdt m
  | .authenticating cdt sw m => GotAssignment setup k cdt m ∧ GotNothing k sw
  | .running cdt sw m => GotAssignment setup k cdt m ∧ GotAcceptance setup k sw
  | _ => True

def Phase.conns : Phase → List ℕ
  | .waiting cdt => [cdt]
  | .assigned cdt _ => [cdt]
  | .authenticating cdt sw _ => [cdt, sw]
  | .running cdt sw _ => [cdt, sw]
  | _ => []

theorem HasRead.congr {phase : Phase} (h : HasRead setup k phase)
    (hheard : ∀ id ∈ phase.conns, heard k' id = heard k id) : HasRead setup k' phase := by
  cases phase with
  | waiting cdt =>
    simp only [HasRead, GotNothing, hheard cdt (by simp [Phase.conns])]
    exact h
  | assigned cdt m =>
    simp only [HasRead, GotAssignment, hheard cdt (by simp [Phase.conns])]
    exact h
  | authenticating cdt sw m =>
    simp only [HasRead, GotAssignment, GotNothing, hheard cdt (by simp [Phase.conns]),
      hheard sw (by simp [Phase.conns])]
    exact h
  | running cdt sw m =>
    simp only [HasRead, GotAssignment, GotAcceptance, hheard cdt (by simp [Phase.conns]),
      hheard sw (by simp [Phase.conns])]
    exact h
  | _ => trivial

theorem Dialled.opened_switch {s cdt sw : ℕ} {m : PacketConnectToSwitch}
    (h : Dialled setup k a s cdt sw m) : OpenedBy k sw (.agent a) := by
  obtain ⟨c, hc, hends⟩ := h.joins
  exact ⟨c, hc, by rw [hends]⟩

theorem Dialled.ne {s cdt sw : ℕ} {m : PacketConnectToSwitch} (h : Dialled setup k a s cdt sw m) :
    cdt ≠ sw := by
  rintro rfl
  obtain ⟨c, hc, hends⟩ := h.joins
  obtain ⟨c', body, hc', hserver, -⟩ := h.answered
  rw [hc, Option.some.injEq] at hc'
  rw [← hc', hends] at hserver
  simp at hserver

/-- The connections of an agent are its own. -/
theorem Inv.own (h : Inv setup w) (hk : Knows setup w.conns a (w.agents a)) :
    ∀ id ∈ (w.agents a).conns, OpenedBy w.conns id (.agent a) := by
  have hagent := h.agents a
  generalize w.agents a = phase at hk hagent ⊢
  cases phase with
  | waiting cdt =>
    obtain ⟨c, hc, hends⟩ := hagent
    simpa [Phase.conns] using ⟨c, hc, by rw [hends]⟩
  | assigned cdt m => simpa [Phase.conns] using hagent.1
  | authenticating cdt sw m =>
    obtain ⟨s, hd⟩ := hk
    simpa [Phase.conns] using ⟨hd.opened, hd.opened_switch⟩
  | running cdt sw m =>
    obtain ⟨s, hd, -⟩ := hk
    simpa [Phase.conns] using ⟨hd.opened, hd.opened_switch⟩
  | _ => simp [Phase.conns]

theorem heard_read {id : ℕ} {packet : Packet}
    (hpacket : ((w.conns id).bind fun c => c.toClient.inFlight.head?) = some packet) :
    heard (w.conns.take id .server) id = heard w.conns id ++ [packet] := by
  obtain ⟨c, rest, hc, hflight⟩ := inFlight_of_head hpacket
  exact readFrom_take hc hflight

/-- An agent reads from its own connections only. -/
theorem heard_other {id id' a' : ℕ} (hopen : OpenedBy w.conns id (.agent a))
    (hopen' : OpenedBy w.conns id' (.agent a')) (hne : a ≠ a') :
    heard (w.conns.take id' .server) id = heard w.conns id := by
  refine readFrom_take_ne (fun hid => ?_) _
  rw [hid] at hopen
  exact absurd (Client.agent.inj (hopen.client_unique hopen')) hne

/-- A heartbeat more. -/
theorem gotNothing_skipped {M : Type} {c : MessageCodec M} {default : M} {expected : PacketType}
    {packet : Packet} {id : ℕ} (h : GotNothing k id)
    (hskip : readProtobufPacket c default expected packet = .skipped)
    (hheard : heard k' id = heard k id ++ [packet]) : GotNothing k' id := by
  intro q hq
  rw [hheard, List.mem_append, List.mem_singleton] at hq
  rcases hq with hq | rfl
  · exact h q hq
  · exact readProtobufPacket_eq_skipped.mp hskip

/-- The packet that was waited for. -/
theorem answers_of_message {M : Type} {c : MessageCodec M} {default m : M} {expected : PacketType}
    {packet : Packet} {id : ℕ} (hexp : expected ≠ .heartbeat) (h : GotNothing k id)
    (hread : readProtobufPacket c default expected packet = .message m)
    (hheard : heard k' id = heard k id ++ [packet]) :
    Common.Answers c default expected (heard k' id) m [] :=
  (answers_iff_message hexp).mpr
    ⟨heard k id, packet, hheard, fun q hq => readProtobufPacket_eq_skipped.mpr (h q hq), hread⟩

theorem hasRead_setPhase {w' : World} {a' : ℕ} {next : Phase} (hw : w'.agents = w.agents)
    (hself : a = a' → HasRead setup w'.conns next)
    (hother : a ≠ a' → HasRead setup w'.conns (w.agents a)) :
    HasRead setup (w'.setPhase a' next).conns ((w'.setPhase a' next).agents a) := by
  rw [World.setPhase_agents, hw]
  split_ifs with haa
  · exact hself haa
  · exact hother haa

section
variable (h : Inv setup w) (hk : Knows setup w.conns a (w.agents a))
  (hr : HasRead setup w.conns (w.agents a))

include h hk hr

theorem hasRead_startAgent (a' : ℕ) (sent : Bool) :
    HasRead setup (w.startAgent setup a' sent).conns ((w.startAgent setup a' sent).agents a) := by
  unfold World.startAgent
  split
  · refine hasRead_setPhase rfl (fun _ => ?_) fun _ => ?_
    · split_ifs
      · intro q hq
        rw [heard_openConn_new] at hq
        simp at hq
      · trivial
    · exact hr.congr fun id hid => heard_openConn (h.opened_ne_nextConn (h.own hk id hid))
  · exact hr

theorem hasRead_readAssignment (a' : ℕ) :
    HasRead setup (w.readAssignment setup a').conns ((w.readAssignment setup a').agents a) := by
  unfold World.readAssignment
  split
  · rename_i cdt hphase
    split
    · exact hr
    · rename_i packet hpacket
      refine hasRead_setPhase rfl ?_ fun hne => ?_
      · rintro rfl
        rw [hphase] at hr
        split
        · rename_i hskip
          exact gotNothing_skipped hr hskip (heard_read hpacket)
        · trivial
        · rename_i m hread
          exact answers_of_message (by simp) hr hread (heard_read hpacket)
      · obtain ⟨c, hc, hends⟩ : ∃ c, w.conns cdt = some c ∧ c.ends = ⟨.agent a', .conductor⟩ := by
          have hwait := h.agents a'
          rwa [hphase] at hwait
        exact hr.congr fun id hid => heard_other (h.own hk id hid) ⟨c, hc, by rw [hends]⟩ hne
  · exact hr

theorem hasRead_connectSwitch (a' s : ℕ) (sent : Bool) :
    HasRead setup (w.connectSwitch setup a' s sent).conns
      ((w.connectSwitch setup a' s sent).agents a) := by
  have hopened : ∀ (ends : Ends) (first : List Packet),
      HasRead setup (w.openConn ends first).conns (w.agents a) := fun _ _ =>
    hr.congr fun id hid => heard_openConn (h.opened_ne_nextConn (h.own hk id hid))
  unfold World.connectSwitch
  split
  · rename_i cdt m node hphase hs
    split_ifs
    · refine hasRead_setPhase rfl ?_ fun _ => hopened _ _
      rintro rfl
      rw [hphase] at hopened
      split_ifs
      · refine ⟨hopened _ _, fun q hq => ?_⟩
        rw [heard_openConn_new] at hq
        simp at hq
      · trivial
    · exact hr
  · exact hr

theorem hasRead_readAccepted (a' : ℕ) :
    HasRead setup (w.readAccepted setup a').conns ((w.readAccepted setup a').agents a) := by
  unfold World.readAccepted
  split
  · rename_i cdt sw m hphase
    split
    · exact hr
    · rename_i packet hpacket
      refine hasRead_setPhase rfl ?_ fun hne => ?_
      · rintro rfl
        rw [hphase] at hr hk
        obtain ⟨s, hd⟩ := hk
        have hassigned : GotAssignment setup (w.conns.take sw .server) cdt m := by
          rw [GotAssignment, heard, readFrom_take_ne (fun hid => absurd hid hd.ne)]
          exact hr.1
        split
        · rename_i hskip
          exact ⟨hassigned, gotNothing_skipped hr.2 hskip (heard_read hpacket)⟩
        · trivial
        · rename_i hread
          exact ⟨hassigned, answers_of_message (by simp) hr.2 hread (heard_read hpacket)⟩
      · have hauth : OpenedBy w.conns sw (.agent a') := by
          have hagent := h.agents a'
          rwa [hphase] at hagent
        exact hr.congr fun id hid => heard_other (h.own hk id hid) hauth hne
  · exact hr

theorem hasRead_step (e : Event) :
    HasRead setup (Network.step setup w e).conns ((Network.step setup w e).agents a) := by
  have hsame : (Network.step setup w e).agents = w.agents →
      (∀ id, OpenedBy w.conns id (.agent a) →
        heard (Network.step setup w e).conns id = heard w.conns id) →
      HasRead setup (Network.step setup w e).conns ((Network.step setup w e).agents a) := by
    intro hagents hheard
    rw [hagents]
    exact hr.congr fun id hid => hheard id (h.own hk id hid)
  cases e with
  | startAgent a' sent => exact hasRead_startAgent h hk hr a' sent
  | readAssignment a' => exact hasRead_readAssignment h hk hr a'
  | connectSwitch a' s sent => exact hasRead_connectSwitch h hk hr a' s sent
  | readAccepted a' => exact hasRead_readAccepted h hk hr a'
  | stopAgent a' => exact hasRead_setPhase rfl (fun _ => trivial) fun _ => hr
  | startSwitch s cdtSock sent =>
    exact hsame (startSwitch_agents s cdtSock sent) fun id hopen =>
      h.heard_startSwitch hopen s cdtSock sent
  | switchAccept s id fd put =>
    exact hsame (switchAccept_agents s id fd put) fun id' _ => heard_switchAccept id' s id fd put
  | switchPacket s fd ok =>
    exact hsame (switchPacket_agents s fd ok) fun id hopen => h.heard_switchPacket hopen s fd ok
  | switchClosed s data => exact hsame (switchLocal_agents s _) fun id _ => heard_switchLocal id s _
  | switchExpire s => exact hsame (switchLocal_agents s _) fun id _ => heard_switchLocal id s _
  | switchHeartbeats s ok =>
    exact hsame (switchLocal_agents s _) fun id _ => heard_switchLocal id s _
  | conductorAccept id fd put =>
    exact hsame (conductorAccept_agents id fd put) fun id' _ => heard_conductorAccept id' id fd put
  | conductorPacket fd answers =>
    exact hsame (conductorPacket_agents fd answers) fun id _ => heard_conductorPacket id fd answers
  | conductorClosed data => exact hsame rfl fun id _ => readFrom_postAll _ _ _ _ _
  | conductorHeartbeats ok => exact hsame rfl fun id _ => readFrom_postAll _ _ _ _ _
  | agentHeartbeats a' toConductor toSwitch =>
    exact hsame (agentHeartbeats_agents a' toConductor toSwitch) fun id _ =>
      heard_agentHeartbeats id toConductor toSwitch
  | tick ns => exact hsame rfl fun _ _ => rfl
  | stopSwitch s => exact hsame rfl fun _ _ => rfl

end

theorem hasRead_run (hsound : setup.codec.Sound) (clock : ℤ) (es : List Event) (a : ℕ) :
    HasRead setup (run setup clock es).conns ((run setup clock es).agents a) := by
  have hall : Inv setup (run setup clock es) ∧
      Knows setup (run setup clock es).conns a ((run setup clock es).agents a) ∧
      HasRead setup (run setup clock es).conns ((run setup clock es).agents a) := by
    refine Runs.invariant_always (I := fun w => Inv setup w ∧ Knows setup w.conns a (w.agents a) ∧
      HasRead setup w.conns (w.agents a)) ?_ ⟨.start setup clock, fun id s => ?_, trivial⟩ es
    · rintro w e ⟨hinv, hk, hr⟩
      exact ⟨Inv.step hsound w e hinv, hinv.knows_step e hk, hasRead_step hinv hk hr e⟩
    · rintro ⟨c, hc, -⟩
      simp [Network.start] at hc
  exact hall.2.2

/-- The blocking call on everything that was sent on the channel returns this
message, and leaves what the network has in flight. -/
def Returns {M : Type} (c : MessageCodec M) (default : M) (expected : PacketType)
    (ch : Channel Packet) (m : M) : Prop :=
  ∀ closed rs, (∀ r ∈ rs, r ≠ .failed) → (∀ p ∈ ch.sent, p.2.length ≤ payloadMax) →
    (frames ch.sent).length < Common.served rs →
    ∃ rest, Common.readProtobufPacket c default expected rs ⟨frames ch.sent, closed⟩ =
      .returned (some m) rest ⟨frames ch.inFlight, closed⟩

theorem returns_of_answers {M : Type} {c : MessageCodec M} {default m : M} {expected : PacketType}
    (hexp : expected ≠ .heartbeat) {ch : Channel Packet}
    (h : Common.Answers c default expected ch.read m []) : Returns c default expected ch m := by
  intro closed rs hrs hfit hserved
  have hall : Common.Answers c default expected ch.sent m ch.inFlight := by
    obtain ⟨beats, body, hms, hbeats, hbody⟩ := h
    refine ⟨beats, body, ?_, hbeats, hbody⟩
    rw [Channel.sent, hms, List.append_assoc]
    rfl
  have hnot : ∃ q ∈ ch.sent, q.1 ≠ .heartbeat := by
    obtain ⟨beats, body, hms, -⟩ := hall
    exact ⟨(expected, body), by simp [hms], hexp⟩
  cases hcall : Common.readProtobufPacket c default expected rs ⟨frames ch.sent, closed⟩ with
  | waiting =>
    exact absurd hcall (Common.readProtobufPacket_returns hrs hfit hserved (.inr hnot))
  | returned result rest s =>
    obtain ⟨rfl, rfl⟩ := hall.returned hrs hfit hexp hcall
    exact ⟨rest, rfl⟩

theorem returns_of_heard {M : Type} {c : MessageCodec M} {default m : M} {expected : PacketType}
    (hexp : expected ≠ .heartbeat) {id : ℕ} (hopen : OpenedBy k id (.agent a))
    (h : Common.Answers c default expected (heard k id) m []) :
    ∃ conn, k id = some conn ∧ Returns c default expected conn.toClient m := by
  obtain ⟨conn, hconn, -⟩ := hopen
  rw [heard, readFrom_some hconn] at h
  exact ⟨conn, hconn, returns_of_answers hexp h⟩

def Phase.assignment : Phase → Option (ℕ × PacketConnectToSwitch)
  | .assigned cdt m => some (cdt, m)
  | .authenticating cdt _ m => some (cdt, m)
  | .running cdt _ m => some (cdt, m)
  | _ => none

/-- The agents of the network take packets one at a time; that is what the blocking
calls of `main` do on the bytes. In every run, for an agent that has its assignment,
`read_protobuf_packet` on the bytes of all that was sent to it by the conductor
returns that assignment, however the kernel divides them, and leaves just the packets
the agent has not taken; and the same holds of the acceptance when it is running. -/
theorem agent_reads_as_blocking (hsound : setup.codec.Sound) (clock : ℤ) (es : List Event)
    (a : ℕ) :
    let w := run setup clock es
    (∀ cdt m, (w.agents a).assignment = some (cdt, m) → ∃ c, w.conns cdt = some c ∧
      Returns setup.codec.connectToSwitch ⟨[], 0, 0, 0⟩ .connectToSwitch c.toClient m) ∧
    ∀ cdt sw m, w.agents a = .running cdt sw m → ∃ c, w.conns sw = some c ∧
      Returns setup.codec.connectionAccepted ⟨⟩ .connectionAccepted c.toClient ⟨⟩ := by
  intro w
  have hr : HasRead setup w.conns (w.agents a) := hasRead_run hsound clock es a
  have hown : ∀ id ∈ (w.agents a).conns, OpenedBy w.conns id (.agent a) :=
    (Inv.run hsound clock es).own (knows_run hsound clock es a)
  generalize w.agents a = phase at hr hown
  refine ⟨fun cdt m hassigned => ?_, ?_⟩
  · have hread : GotAssignment setup w.conns cdt m ∧ cdt ∈ phase.conns := by
      cases phase with
      | assigned cdt' m' => simp_all [Phase.assignment, Phase.conns, HasRead]
      | authenticating cdt' sw m' => simp_all [Phase.assignment, Phase.conns, HasRead]
      | running cdt' sw m' => simp_all [Phase.assignment, Phase.conns, HasRead]
      | _ => simp [Phase.assignment] at hassigned
    exact returns_of_heard (by simp) (hown cdt hread.2) hread.1
  · rintro cdt sw m rfl
    exact returns_of_heard (by simp) (hown sw (by simp [Phase.conns])) hr.2

/-- An agent that has joined has read both its answers. -/
theorem agent_reads_as_blocking_joined :
    let es := joining ++ [.switchPacket 0 3 true, .switchPacket 0 4 true, .readAccepted 0]
    ∃ c, (run joiningSetup 0 es).conns 2 = some c ∧
      Returns Codec.sample.connectionAccepted ⟨⟩ .connectionAccepted c.toClient ⟨⟩ := by
  intro es
  have hrunning : (run joiningSetup 0 es).agents 0 =
      .running 1 2 ⟨"s1".toList, 0x0200000a, 7, 7000⟩ := by decide +kernel
  have hreads := @agent_reads_as_blocking joiningSetup Codec.sample_sound 0 es 0
  exact hreads.2 _ _ _ hrunning

end VNet.Network
