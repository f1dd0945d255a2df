import VNet.Switch.Tokens

namespace VNet.Switch
open Protocol NetQueue

variable {codec : Codec} {s s' : Program} {e : Event}

def heartbeatCalls (codec : Codec) (s : Program) (now : ℤ) (ok : Fd → Bool) : List SendCall :=
  (step codec s (.sendHeartbeats now ok)).sent.drop s.sent.length

/-- The list has each `ConnInfo` once, those that are authenticated and in the
queue; heartbeats are sent on descriptors of the queue. -/
structure AgentsListed (codec : Codec) (s : Program) : Prop where
  nodup : s.state.agents.Nodup
  mem_iff : ∀ p, p ∈ s.state.agents ↔
    (∃ fd, s.Holds fd p) ∧ role s p = some .agentAuthenticated
  heartbeats : ∀ now ok, ∀ c ∈ heartbeatCalls codec s now ok, s.Holds c.fd c.info

/-- An `AUTH_CONNECT_TO_SWITCH` comes in on a connection that is not
authenticated yet; if that is the conductor's, with a token that is pending. -/
def AuthOnce (codec : Codec) (s : Program) (e : Event) : Prop :=
  ∀ r ∈ authPacket codec s e, role s r.1.ptrData = some .agentPending ∨
    (role s r.1.ptrData = some .conductor ∧
      (s.state.pendingTokens.lookup r.2.connectionToken).isSome)

instance (codec : Codec) (s : Program) (e : Event) : Decidable (AuthOnce codec s e) :=
  inferInstanceAs (Decidable (∀ r ∈ authPacket codec s e, _))

/-- What no event takes away: every descriptor is one, and a connection with
role `CONDUCTOR` is the one `g_state.conductor` points to. -/
structure Base (s : Program) : Prop where
  wired : s.Wired
  fd_nonneg : ∀ p info, s.infos.lookup p = some info → 0 ≤ info.fd
  conductor : ∀ p, role s p = some .conductor → s.state.conductor = some p

theorem role_eq_of_lookup {p : ℕ} {info : ConnInfo Peer} (h : s.infos.lookup p = some info) :
    role s p = some info.peer.role := by
  rw [role, h, Option.map_some]

theorem role_of_kept {ps : List ℕ} (h : Server.Kept ps s s') (p : ℕ) : role s' p = role s p := by
  have heq := congrArg (Option.map fun r : Fd × Peer => r.2.role) (h.infos_eq p)
  rw [Option.map_map, Option.map_map] at heq
  exact heq

theorem role_enroll (fd : Fd) (now : ℤ) (q : ℕ) :
    role (enroll s fd now) q = if q = s.nextInfo then some .agentPending else role s q := by
  simp only [role, enroll, FiniteMap.lookup_insert_eq]
  split_ifs <;> rfl

theorem role_mark (data : SocketData) (token : UInt64) (name : Text) (info : ConnInfo Peer)
    (call : SendCall) (q : ℕ) : role (mark s data token name info call) q =
      if q = data.ptrData then some .agentAuthenticated else role s q := by
  simp only [role, mark, FiniteMap.lookup_insert_eq]
  split_ifs <;> rfl

theorem role_forget (data : CloseData) (info : ConnInfo Peer) (q : ℕ) :
    role (forget s data info) q = if q = data.ptrData then none else role s q := by
  simp only [role, forget, FiniteMap.lookup_erase_eq]
  split_ifs <;> rfl

theorem Base.step (codec : Codec) (h : Base s) (e : Event) : Base (Switch.step codec s e) := by
  have ht := step_transition codec h.wired e
  generalize Switch.step codec s e = s' at ht ⊢
  have hw := ht.wired h.wired
  cases ht with
  | idle => exact h
  | accepted fd now hfd =>
    refine ⟨hw, fun p info hp => ?_, fun p hp => ?_⟩
    · simp only [enroll, FiniteMap.lookup_insert_eq] at hp
      split_ifs at hp
      · rw [← Option.some.inj hp]
        exact hfd
      · exact h.fd_nonneg p info hp
    · rw [role_enroll] at hp
      split_ifs at hp
      · simp at hp
      · exact h.conductor p hp
  | notPut => exact ⟨hw, h.fd_nonneg, h.conductor⟩
  | token => exact ⟨hw, h.fd_nonneg, h.conductor⟩
  | refused => exact ⟨hw, h.fd_nonneg, h.conductor⟩
  | authenticated _ data pkt token info call _ _ hinfo =>
    refine ⟨hw, fun p i hp => ?_, fun p hp => ?_⟩
    · simp only [mark, FiniteMap.lookup_insert_eq] at hp
      split_ifs at hp
      · rw [← Option.some.inj hp]
        exact h.fd_nonneg _ info hinfo
      · exact h.fd_nonneg p i hp
    · rw [role_mark] at hp
      split_ifs at hp
      · simp at hp
      · exact h.conductor p hp
  | closed data info hh =>
    refine ⟨hw, fun p i hp => ?_, fun p hp => ?_⟩
    · simp only [forget, FiniteMap.lookup_erase_eq] at hp
      split_ifs at hp
      exact h.fd_nonneg p i hp
    · rw [role_forget] at hp
      split_ifs at hp with hne
      simp only [forget, h.conductor p hp, Option.some.injEq, if_neg hne]
  | expired => exact ⟨hw, h.fd_nonneg, h.conductor⟩
  | heartbeats now ok s' hk =>
    refine ⟨hw, fun p info hp => ?_, fun p hp => ?_⟩
    · obtain ⟨old, hold, hfd, -⟩ := hk.before hp
      rw [← hfd]
      exact h.fd_nonneg p old hold
    · rw [role_of_kept hk] at hp
      rw [hk.state_eq]
      exact h.conductor p hp

theorem Base.start {cdtSock : Fd} (hsock : 0 ≤ cdtSock) (now : ℤ) : Base (start cdtSock now) := by
  refine ⟨wired_start cdtSock now, fun p info hp => ?_, fun p hp => ?_⟩
  · simp only [Switch.start, FiniteMap.lookup_insert_eq] at hp
    split_ifs at hp
    · rw [← Option.some.inj hp]
      exact hsock
    · simp at hp
  · by_cases hone : p = 1
    · rw [hone]
      rfl
    · simp only [role, Switch.start, FiniteMap.lookup_insert_eq, if_neg hone] at hp
      simp at hp

structure Listed (s : Program) : Prop where
  base : Base s
  nodup : s.state.agents.Nodup
  mem_iff : ∀ p, p ∈ s.state.agents ↔
    (∃ fd, s.Holds fd p) ∧ role s p = some .agentAuthenticated
  conductor : ∀ p, s.state.conductor = some p →
    (∃ fd, s.Holds fd p) ∧ role s p ≠ some .agentPending

theorem Listed.congr (h : Listed s) (hbase : Base s') (hagents : s'.state.agents = s.state.agents)
    (hconductor : s'.state.conductor = s.state.conductor) (hqueue : s'.queue = s.queue)
    (hrole : ∀ p, role s' p = role s p) : Listed s' where
  base := hbase
  nodup := by
    rw [hagents]
    exact h.nodup
  mem_iff p := by
    simp only [hagents, Server.Holds, hqueue, hrole]
    exact h.mem_iff p
  conductor p hp := by
    rw [hconductor] at hp
    simp only [Server.Holds, hqueue, hrole]
    exact h.conductor p hp

theorem holds_enroll {fd : Fd} (hfree : s.queue.lookup fd = none) (now : ℤ) {p : ℕ}
    (hp : p ≠ s.nextInfo) : (∃ fd', (enroll s fd now).Holds fd' p) ↔ ∃ fd', s.Holds fd' p := by
  apply exists_congr
  intro fd'
  simp only [Server.Holds, enroll, FiniteMap.lookup_insert_eq]
  split_ifs with hfd
  · rw [hfd, hfree]
    simp [Ne.symm hp]
  · rfl

/-- A connection that leaves the queue leaves the others where they are. -/
theorem holds_erase {fd : Fd} {p q : ℕ} (hh : s.Holds fd p) (hq : q ≠ p) :
    (∃ fd', (s.queue.erase fd).lookup fd' = some q) ↔ ∃ fd', s.Holds fd' q := by
  apply exists_congr
  intro fd'
  rw [FiniteMap.lookup_erase_eq, Server.Holds]
  split_ifs with hfd
  · rw [hfd, hh]
    simp [Ne.symm hq]
  · rfl

theorem Listed.enroll (h : Listed s) {fd : Fd} {now : ℤ} (hfree : s.queue.lookup fd = none)
    (hbase : Base (enroll s fd now)) : Listed (enroll s fd now) := by
  have hw := h.base.wired
  have hnew : role s s.nextInfo = none := by
    rw [role, hw.nextInfo_free]
    rfl
  refine ⟨hbase, h.nodup, fun p => ?_, fun p hp => ?_⟩
  · by_cases hp : p = s.nextInfo
    · have hmem : p ∉ s.state.agents := by
        intro hmem
        have hrole := ((h.mem_iff p).mp hmem).2
        rw [hp, hnew] at hrole
        simp at hrole
      simp only [role_enroll, if_pos hp]
      exact iff_of_false hmem (by simp)
    · rw [holds_enroll hfree now hp, role_enroll, if_neg hp]
      exact h.mem_iff p
  · obtain ⟨⟨fd', hh⟩, hrole⟩ := h.conductor p hp
    have hne : p ≠ s.nextInfo := by
      rintro rfl
      exact hw.not_holds_nextInfo fd' hh
    rw [holds_enroll hfree now hne, role_enroll, if_neg hne]
    exact ⟨⟨fd', hh⟩, hrole⟩

theorem Listed.refuse (h : Listed s) {fd : Fd} {p : ℕ} (hh : s.Holds fd p)
    (hrole : role s p = some .agentPending) (hbase : Base (refuse s fd)) :
    Listed (refuse s fd) := by
  refine ⟨hbase, h.nodup, fun q => ?_, fun q hq => ?_⟩
  · refine (h.mem_iff q).trans ?_
    by_cases hqp : q = p
    · -- the refused connection was not listed: its role is AGENT_PENDING
      have hr : role s q ≠ some .agentAuthenticated := by
        rw [hqp, hrole]
        simp
      exact iff_of_false (fun hq => hr hq.2) fun hq => hr hq.2
    · rw [← holds_erase hh hqp]
      rfl
  · obtain ⟨hheld, hr⟩ := h.conductor q hq
    have hne : q ≠ p := by
      rintro rfl
      exact hr hrole
    exact ⟨(holds_erase hh hne).mpr hheld, hr⟩

theorem Listed.mark (h : Listed s) {data : SocketData} {token : UInt64} {name : Text}
    {info : ConnInfo Peer} {call : SendCall} (hh : s.Holds data.fd data.ptrData)
    (hrole : role s data.ptrData ≠ some .agentAuthenticated)
    (hbase : Base (mark s data token name info call)) :
    Listed (mark s data token name info call) := by
  -- only what is not listed yet is pushed
  have hmem : data.ptrData ∉ s.state.agents := fun hmem => hrole ((h.mem_iff _).mp hmem).2
  refine ⟨hbase, ?_, fun p => ?_, fun p hp => ?_⟩
  · exact List.nodup_append.mpr ⟨h.nodup, List.nodup_singleton _, by
      intro a ha b hb heq
      rw [List.mem_singleton.mp hb] at heq
      exact hmem (heq ▸ ha)⟩
  · rw [role_mark]
    split_ifs with hp
    · refine iff_of_true ?_ ⟨⟨data.fd, hp ▸ hh⟩, rfl⟩
      rw [hp]
      exact List.mem_append_right _ (List.mem_singleton_self _)
    · have hiff := h.mem_iff p
      simp only [Switch.mark, List.mem_append, List.mem_singleton, hp, or_false]
      exact hiff
  · obtain ⟨hheld, hr⟩ := h.conductor p hp
    refine ⟨hheld, ?_⟩
    rw [role_mark]
    split_ifs
    · simp
    · exact hr

theorem Listed.forget (h : Listed s) {data : CloseData} {info : ConnInfo Peer}
    (hh : s.Holds data.fd data.ptrData) (hinfo : s.infos.lookup data.ptrData = some info)
    (hbase : Base (forget s data info)) : Listed (forget s data info) := by
  have hagents : (Switch.forget s data info).state.agents =
      s.state.agents.filter (· ≠ data.ptrData) := by
    simp only [Switch.forget]
    split_ifs with hrole
    · rfl
    · -- under another role `onClose` erases nothing, and nothing is there to erase
      have hmem : data.ptrData ∉ s.state.agents := by
        intro hmem
        have hr := ((h.mem_iff _).mp hmem).2
        rw [role_eq_of_lookup hinfo] at hr
        exact hrole (Option.some.inj hr)
      rw [eq_comm, List.filter_eq_self]
      intro q hq
      rw [decide_eq_true_eq]
      rintro rfl
      exact hmem hq
  refine ⟨hbase, ?_, fun p => ?_, fun p hp => ?_⟩
  · rw [hagents]
    exact h.nodup.filter _
  · rw [hagents, List.mem_filter, decide_eq_true_eq, role_forget]
    by_cases hp : p = data.ptrData
    · simp [hp]
    · rw [if_neg hp, h.mem_iff, ← holds_erase hh hp]
      exact and_iff_left hp
  · simp only [Switch.forget] at hp
    split_ifs at hp with hcond
    have hne : p ≠ data.ptrData := by
      rintro rfl
      exact hcond hp
    obtain ⟨hheld, hr⟩ := h.conductor p hp
    rw [role_forget, if_neg hne]
    exact ⟨(holds_erase hh hne).mpr hheld, hr⟩

theorem Listed.step (h : Listed s) (hauth : AuthOnce codec s e) : Listed (step codec s e) := by
  have hbase := h.base.step codec e
  have ht := step_transition codec h.base.wired e
  generalize Switch.step codec s e = s' at ht hbase ⊢
  cases ht with
  | idle => exact h
  | accepted fd now hfd hfree => exact h.enroll hfree hbase
  | notPut => exact h.congr hbase rfl rfl rfl fun _ => rfl
  | token => exact h.congr hbase rfl rfl rfl fun _ => rfl
  | refused _ data pkt hpacket hnone =>
    obtain ⟨now, ok, -, hh, -⟩ := authPacket_eq_some hpacket
    have hrole : role s data.ptrData = some .agentPending := by
      rcases hauth _ hpacket with hr | ⟨-, hsome⟩
      · exact hr
      · rw [hnone] at hsome
        simp at hsome
    -- the connection that is closed without an `onClose` was not listed yet
    exact h.refuse hh hrole hbase
  | authenticated _ data pkt token info call hpacket =>
    obtain ⟨now, ok, -, hh, -⟩ := authPacket_eq_some hpacket
    have hrole : role s data.ptrData ≠ some .agentAuthenticated := by
      rcases hauth _ hpacket with hr | ⟨hr, -⟩
      · simp [hr]
      · simp [hr]
    exact h.mark hh hrole hbase
  | closed data info hh hinfo => exact h.forget hh hinfo hbase
  | expired => exact h.congr hbase rfl rfl rfl fun _ => rfl
  | heartbeats now ok s' hk =>
    exact h.congr hbase (by rw [hk.state_eq]) (by rw [hk.state_eq]) hk.queue_eq (role_of_kept hk)

theorem Listed.start {cdtSock : Fd} (hsock : 0 ≤ cdtSock) (now : ℤ) :
    Listed (start cdtSock now) := by
  refine ⟨Base.start hsock now, List.nodup_nil, fun p => ?_, fun p hp => ?_⟩
  · refine iff_of_false (List.not_mem_nil) ?_
    rintro ⟨-, hr⟩
    simp only [role, Switch.start, FiniteMap.lookup_insert_eq] at hr
    split_ifs at hr <;> simp at hr
  · have hrole : role (Switch.start cdtSock now) 1 = some .conductor := by
      rw [role, Switch.start, AList.lookup_insert]
      rfl
    rw [← Option.some.inj hp, hrole]
    exact ⟨⟨cdtSock, AList.lookup_insert _⟩, by simp⟩

theorem Listed.agentsListed (h : Listed s) (codec : Codec) : AgentsListed codec s := by
  refine ⟨h.nodup, h.mem_iff, fun now ok c hc => ?_⟩
  have hk := Server.forEach_tryHb_kept s now ok (s.state.conductor.toList ++ s.state.agents)
  obtain ⟨calls, hsent, hcalls⟩ := hk.sent_eq
  have heq : heartbeatCalls codec s now ok = calls := by
    rw [heartbeatCalls, show (Switch.step codec s (.sendHeartbeats now ok)).sent = _ from hsent,
      List.drop_left]
  rw [heq] at hc
  obtain ⟨-, hmem, info, hinfo, hfd⟩ := hcalls c hc
  obtain ⟨fd, hh⟩ : ∃ fd, s.Holds fd c.info := by
    rcases List.mem_append.mp hmem with hcond | hagent
    · exact (h.conductor _ (Option.mem_toList.mp hcond)).1
    · exact ((h.mem_iff _).mp hagent).1
  obtain ⟨info', hinfo', hfd'⟩ := h.base.wired.alive fd _ hh
  rw [hinfo] at hinfo'
  rw [hfd, Option.some.inj hinfo', hfd']
  exact hh

/-- At some time the conductor gets a heartbeat. -/
theorem heartbeat_to_conductor (codec : Codec) {p : ℕ} {info : ConnInfo Peer}
    (hcond : s.state.conductor = some p) (hinfo : s.infos.lookup p = some info)
    (hfd : 0 ≤ info.fd) :
    ∃ now, ∃ c ∈ heartbeatCalls codec s now (fun _ => true), c.info = p := by
  have hdue : Server.heartbeatInterval ≤
      info.lastHbSent + Server.heartbeatInterval - info.lastHbSent := by omega
  obtain ⟨c, calls, hsent, hcinfo, -⟩ :=
    Server.forEach_tryHb_due hinfo hfd hdue (fun _ => true) s.state.agents
  refine ⟨info.lastHbSent + Server.heartbeatInterval, c, ?_, hcinfo⟩
  have hrun : (Switch.step codec s (.sendHeartbeats
      (info.lastHbSent + Server.heartbeatInterval) fun _ => true)).sent =
      s.sent ++ c :: calls := by
    rw [← hsent]
    simp only [Switch.step, handle, sendHeartbeats]
    rw [Exec.bind_ok (Server.look_apply _), hcond]
    rfl
  rw [heartbeatCalls, hrun, List.drop_left]
  exact List.mem_cons_self

/-- A packet on the wrong connection puts the list wrong at once. -/
theorem not_agentsListed_step (h : Listed s) (hauth : ¬ AuthOnce codec s e) :
    ¬ AgentsListed codec (Switch.step codec s e) := by
  simp only [AuthOnce, not_forall] at hauth
  obtain ⟨⟨data, pkt⟩, hpacket, hbad⟩ := hauth
  rw [not_or] at hbad
  obtain ⟨now, ok, rfl, hh, ht, hparse⟩ := authPacket_eq_some hpacket
  obtain ⟨info, hinfo, hfd⟩ := h.base.wired.alive _ _ hh
  have hstep : Switch.step codec s (.packet data now ok) =
      (onAuthConnectToSwitch codec ok data pkt s).2 := by
    simp only [Switch.step, handle, Server.socketReady, if_pos hh, Dispatch.onSocketReady, ht,
      MessageCodec.ifParsed, dispatch, hparse]
  intro hlist
  rw [hstep] at hlist
  cases hlook : s.state.pendingTokens.lookup pkt.connectionToken with
  | none =>
    rw [onAuthConnectToSwitch_unknown hlook] at hlist
    have hgone : ∀ fd, ¬ (refuse s data.fd).Holds fd data.ptrData := by
      intro fd hq
      rw [Server.Holds, refuse, FiniteMap.lookup_erase_eq] at hq
      split_ifs at hq with hne
      exact hne (h.base.wired.fd_unique hq hh)
    cases hrole : info.peer.role with
    | agentPending => exact hbad.1 (by rw [role_eq_of_lookup hinfo, hrole])
    | agentAuthenticated =>
      have hmem : data.ptrData ∈ s.state.agents :=
        (h.mem_iff _).mpr ⟨⟨_, hh⟩, by rw [role_eq_of_lookup hinfo, hrole]⟩
      obtain ⟨⟨fd, hq⟩, -⟩ := (hlist.mem_iff _).mp hmem
      exact hgone fd hq
    | conductor =>
      have hcond : (refuse s data.fd).state.conductor = some data.ptrData :=
        h.base.conductor _ (by rw [role_eq_of_lookup hinfo, hrole])
      -- the next heartbeat to the conductor goes out on a descriptor that is gone
      obtain ⟨time, c, hmem, hcinfo⟩ :=
        heartbeat_to_conductor codec hcond hinfo (h.base.fd_nonneg _ _ hinfo)
      have hheld := hlist.heartbeats time (fun _ => true) c hmem
      rw [hcinfo] at hheld
      exact hgone _ hheld
  | some token =>
    obtain ⟨call, -, -, heq⟩ := onAuthConnectToSwitch_known codec hlook hinfo ok
    rw [heq] at hlist
    have hrole : role s data.ptrData = some .agentAuthenticated := by
      rw [role_eq_of_lookup hinfo] at hbad ⊢
      cases hr : info.peer.role with
      | agentPending => exact absurd (congrArg some hr) hbad.1
      | conductor => exact absurd ⟨congrArg some hr, by rw [hlook]; rfl⟩ hbad.2
      | agentAuthenticated => rfl
    have hmem : data.ptrData ∈ s.state.agents := (h.mem_iff _).mpr ⟨⟨_, hh⟩, hrole⟩
    have hnodup : (s.state.agents ++ [data.ptrData]).Nodup := hlist.nodup
    exact (List.nodup_append.mp hnodup).2.2 _ hmem _ (List.mem_singleton_self _) rfl

/-- In all states of a run the list of agents is right and heartbeats go out on
descriptors of the queue exactly when every `AUTH_CONNECT_TO_SWITCH` comes in on
a connection that is not authenticated yet, and on the conductor's only with a
pending token. -/
theorem agentsListed_iff_authOnce (codec : Codec) (cdtSock : Fd) (hsock : 0 ≤ cdtSock) (now : ℤ)
    (es : List Event) :
    (∀ done, done <+: es → AgentsListed codec (run codec (start cdtSock now) done)) ↔
      Runs.Steps (step codec) (AuthOnce codec) (start cdtSock now) es := by
  have hlisted : ∀ es, Runs.Steps (step codec) (AuthOnce codec) (start cdtSock now) es →
      Listed (run codec (start cdtSock now) es) :=
    fun es hs => Runs.invariant (fun _ _ h ha => h.step ha) (.start hsock now) hs
  apply Runs.forall_prefix_iff
  · intro done _ hs
    exact (hlisted done hs).agentsListed codec
  · intro done e _ hs hafter
    by_contra hauth
    rw [run, Runs.run_concat] at hafter
    exact not_agentsListed_step (hlisted done hs) hauth hafter

/-- One agent announced, accepted, authenticated and gone again. -/
theorem agentsListed_iff_authOnce_joining :
    let es : List Event := [
      .packet (Server.packetData 3 1 .agentConnectionToken
        [0x0a, 1, 0x61, 0x11, 7, 0, 0, 0, 0, 0, 0, 0]) 0 true,
      .accept 5 0 true,
      .packet (Server.packetData 5 2 .authConnectToSwitch [0x09, 7, 0, 0, 0, 0, 0, 0, 0]) 0 true,
      .closed ⟨0, 2, 5, .closeHangup⟩]
    ∀ done, done <+: es → AgentsListed .sample (run .sample (start 3 0) done) :=
  (agentsListed_iff_authOnce .sample 3 (by decide) 0 _).mpr (by decide)

/-- An authenticated agent shows its token again: the token is spent, the
connection leaves the queue and stays on the list. -/
theorem refused_agent_stays_listed :
    ¬ ∀ (codec : Codec) (cdtSock : Fd), 0 ≤ cdtSock → ∀ (now : ℤ) (es : List Event),
      AgentsListed codec (run codec (start cdtSock now) es) := by
  intro h
  let auth := Event.packet (Server.packetData 5 2 .authConnectToSwitch
    [0x09, 7, 0, 0, 0, 0, 0, 0, 0]) 0 true
  let es : List Event := [
    .packet (Server.packetData 3 1 .agentConnectionToken
      [0x0a, 1, 0x61, 0x11, 7, 0, 0, 0, 0, 0, 0, 0]) 0 true,
    .accept 5 0 true, auth, auth]
  have hlist := h .sample 3 (by decide) 0 es
  have hmem : 2 ∈ (run .sample (start 3 0) es).state.agents := by decide
  obtain ⟨⟨fd, hh⟩, -⟩ := (hlist.mem_iff 2).mp hmem
  have hqueue : (run .sample (start 3 0) es).queue.entries = [⟨3, 1⟩] := by decide
  have hentry : Sigma.mk fd 2 ∈ (run .sample (start 3 0) es).queue.entries :=
    AList.mem_lookup_iff.mp hh
  rw [hqueue] at hentry
  simp at hentry

end VNet.Switch
