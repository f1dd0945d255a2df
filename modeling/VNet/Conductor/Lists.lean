import VNet.Conductor.Transitions

namespace VNet.Conductor
open Protocol NetQueue

variable {codec : Codec} {s s' : Program} {e : Event} {p q : ℕ} {info : ConnInfo Peer}

/-- The listed `ConnInfo`s are allocated, and nothing that may happen next uses
one that is not. -/
def Safe (codec : Codec) (s : Program) : Prop :=
  ListsAlive s ∧ ∀ e, (handle codec e s).1 = .ok ()

/-- A connection that is reported closed is listed only where its role says. -/
def ClosedAsListed (s : Program) : Event → Prop
  | .closed data => s.Holds data.fd data.ptrData → ∀ info ∈ s.infos.lookup data.ptrData,
      (data.ptrData ∈ s.state.switches → info.peer.role = .switchConn) ∧
      (data.ptrData ∈ s.state.agents → info.peer.role = .agentConn)
  | _ => True

instance (s : Program) : ∀ e, Decidable (ClosedAsListed s e)
  | .closed data => inferInstanceAs (Decidable (_ → ∀ info ∈ s.infos.lookup data.ptrData, _))
  | .accept _ _ _ => inferInstanceAs (Decidable True)
  | .packet _ _ => inferInstanceAs (Decidable True)
  | .sendHeartbeats _ _ => inferInstanceAs (Decidable True)
  | .writeDump => inferInstanceAs (Decidable True)

theorem writeDump_ok (h : ListsAlive s) : (writeDump s).1 = .ok () := by
  have hread : ∀ done p rest, s.state.switches ++ s.state.agents = done ++ p :: rest →
      Exec.Triple (· = s) (dumpInfo p) (fun _ => (· = s)) fun _ _ => False := by
    rintro done p rest hps t rfl
    obtain ⟨info, hinfo⟩ := Option.isSome_iff_exists.mp (h p (by simp [hps]))
    rw [dumpInfo, Exec.bind_ok (Server.deref_ok hinfo)]
    rfl
  have hall := Exec.Triple.forEach_split (I := fun _ => (· = s)) hread []
    (s.state.switches ++ s.state.agents) rfl
  rw [writeDump, Exec.bind_ok (Server.look_apply s)]
  exact hall.fst_eq_ok rfl

theorem packet_ok (hw : s.Wired) (h : ListsAlive s) {data : SocketData}
    (hh : s.Holds data.fd data.ptrData) (a : Answers) :
    (Dispatch.onSocketReady codec (dispatch codec a) data s).1 = .ok () := by
  obtain ⟨info, hinfo, -⟩ := hw.alive _ _ hh
  rw [Dispatch.onSocketReady]
  cases ht : data.packetType with
  | switchMip =>
    simp only [MessageCodec.ifParsed]
    cases hparse : codec.switchMip.parseFromArray data.packetBuffer with
    | none => rfl
    | some pkt =>
      simp only [dispatch]
      rw [onSwitchMip_eq hinfo]
  | agentMip =>
    simp only [MessageCodec.ifParsed]
    cases hparse : codec.agentMip.parseFromArray data.packetBuffer with
    | none => rfl
    | some pkt =>
      simp only [dispatch]
      by_cases hnil : s.state.switches = []
      · rw [onAgentMip_none hinfo hnil]
      · obtain ⟨p, rr, sw, -, -, -, heq⟩ :=
          onAgentMip_some codec hinfo hnil h.switches
        rw [heq]
  | agentMrp =>
    simp only [MessageCodec.ifParsed]
    cases hparse : codec.agentMrp.parseFromArray data.packetBuffer with
    | none => rfl
    | some pkt =>
      simp only [dispatch]
      rw [onAgentMrp_eq hinfo]
  | _ => simp only [dispatch, MessageCodec.ifParsed_nothing, Exec.pure_apply]

theorem handle_ok (hw : s.Wired) (h : ListsAlive s) (e : Event) :
    (handle codec e s).1 = .ok () := by
  cases e with
  | accept => rfl
  | packet data a =>
    simp only [handle, Server.socketReady]
    split_ifs with hh
    · exact packet_ok hw h hh a
    · rfl
  | closed data =>
    simp only [handle, Server.socketClosed]
    split_ifs with hh
    · obtain ⟨info, hinfo, -⟩ := hw.alive _ _ hh
      simp only [dispatch]
      rw [onClose_eq (Nat.pos_iff_ne_zero.mp (hw.fresh _ _ hinfo).1) hinfo]
    · rfl
  | sendHeartbeats now ok =>
    exact Server.forEach_tryHb_ok (fun p hp => Option.isSome_iff_exists.mp (h p hp)) now ok
  | writeDump => exact writeDump_ok h

theorem mem_unlist_switches (g : ConductorState) (p q : ℕ) (info : ConnInfo Peer) :
    q ∈ (unlist g p info).switches ↔ q ∈ g.switches ∧ (info.peer.role = .switchConn → q ≠ p) := by
  cases h : info.peer.role <;>
    simp [unlist, h, ConductorState.removeSwitch, ConductorState.removeAgent]

theorem mem_unlist_agents (g : ConductorState) (p q : ℕ) (info : ConnInfo Peer) :
    q ∈ (unlist g p info).agents ↔ q ∈ g.agents ∧ (info.peer.role = .agentConn → q ≠ p) := by
  cases h : info.peer.role <;>
    simp [unlist, h, ConductorState.removeSwitch, ConductorState.removeAgent]

/-- A close leaves the lists alive exactly when it takes the connection off
every list it is on. -/
theorem listsAlive_forget_iff (h : ListsAlive s) {data : CloseData} :
    ListsAlive (forget s data info) ↔
      (data.ptrData ∈ s.state.switches → info.peer.role = .switchConn) ∧
      (data.ptrData ∈ s.state.agents → info.peer.role = .agentConn) := by
  have hgone : ∀ q, ((forget s data info).infos.lookup q).isSome ↔
      q ≠ data.ptrData ∧ (s.infos.lookup q).isSome := by
    intro q
    simp only [forget, FiniteMap.lookup_erase_eq]
    split_ifs with hq <;> simp [hq]
  constructor
  · -- the deleted ConnInfo can be on neither list any more
    intro halive
    constructor
    · intro hmem
      by_contra hrole
      have hq := halive data.ptrData (List.mem_append_left _
        ((mem_unlist_switches _ _ _ _).mpr ⟨hmem, fun hr => absurd hr hrole⟩))
      exact ((hgone _).mp hq).1 rfl
    · intro hmem
      by_contra hrole
      have hq := halive data.ptrData (List.mem_append_right _
        ((mem_unlist_agents _ _ _ _).mpr ⟨hmem, fun hr => absurd hr hrole⟩))
      exact ((hgone _).mp hq).1 rfl
  · rintro ⟨hswitch, hagent⟩ q hq
    rcases List.mem_append.mp hq with hq | hq
    · obtain ⟨hmem, hne⟩ := (mem_unlist_switches _ _ _ _).mp hq
      refine (hgone q).mpr ⟨?_, h q (List.mem_append_left _ hmem)⟩
      rintro rfl
      exact hne (hswitch hmem) rfl
    · obtain ⟨hmem, hne⟩ := (mem_unlist_agents _ _ _ _).mp hq
      refine (hgone q).mpr ⟨?_, h q (List.mem_append_right _ hmem)⟩
      rintro rfl
      exact hne (hagent hmem) rfl

theorem isSome_insert {m : FiniteMap ℕ (ConnInfo Peer)} (h : (m.lookup q).isSome) (p : ℕ)
    (info : ConnInfo Peer) : ((m.insert p info).lookup q).isSome := by
  rw [FiniteMap.lookup_insert_eq]
  split_ifs
  · rfl
  · exact h

/-- A connection of the queue is registered, or registered again. -/
theorem listsAlive_rewrite (h : ListsAlive s) (p : ℕ) (new : ConnInfo Peer)
    (hlists : ∀ q ∈ s'.state.switches ++ s'.state.agents,
      q ∈ s.state.switches ++ s.state.agents ∨ q = p)
    (hinfos : s'.infos = s.infos.insert p new) : ListsAlive s' := by
  intro q hq
  rw [hinfos]
  rcases hlists q hq with hq | hq
  · exact isSome_insert (h q hq) p new
  · rw [hq, AList.lookup_insert]
    rfl

theorem Transition.listsAlive (ht : Transition codec s e s') (h : ListsAlive s)
    (hc : ClosedAsListed s e) : ListsAlive s' := by
  cases ht with
  | idle => exact h
  | accepted fd now => exact fun q hq => isSome_insert (h q hq) _ _
  | notPut => exact h
  | switchMip _ data pkt a info =>
    refine listsAlive_rewrite h data.ptrData (switchInfo a data pkt info) (fun q hq => ?_) rfl
    simp only [listSwitch, Server.withState, rewrite, List.mem_append, List.mem_singleton] at hq ⊢
    tauto
  | noSwitch _ data pkt a info =>
    exact listsAlive_rewrite h data.ptrData (agentInfo a data pkt info) (fun q hq => .inl hq) rfl
  | assigned _ data pkt a info p rr sw =>
    refine listsAlive_rewrite h data.ptrData (agentInfo a data pkt info) (fun q hq => ?_) rfl
    rcases List.mem_append.mp hq with hq | hq
    · exact .inl (List.mem_append_left _ hq)
    · -- the agent is listed only when both packets were sent
      rcases assigned_agents codec a data pkt p sw
        (withRr (rewrite s data.ptrData (agentInfo a data pkt info)) rr) with heq | heq
      · rw [heq] at hq
        exact .inl (List.mem_append_right _ hq)
      · rw [heq, List.mem_append, List.mem_singleton] at hq
        exact hq.imp_left fun hq => List.mem_append_right _ hq
  | agentMrp _ data pkt a info =>
    refine listsAlive_rewrite h data.ptrData (mrpInfo a data pkt info) (fun q hq => ?_) rfl
    simp only [listAgent, Server.withState, rewrite, List.mem_append, List.mem_singleton] at hq ⊢
    tauto
  | closed data info hh hinfo =>
    -- the only step that deletes a ConnInfo
    exact (listsAlive_forget_iff h).mpr (hc hh info hinfo)
  | heartbeats now ok s' hk =>
    intro q hq
    rw [hk.state_eq] at hq
    obtain ⟨info, hinfo⟩ := Option.isSome_iff_exists.mp (h q hq)
    obtain ⟨new, hnew, -⟩ := hk.after hinfo
    rw [hnew]
    rfl

theorem wired_listsAlive_run (codec : Codec) {es : List Event}
    (hc : Runs.Steps (step codec) ClosedAsListed start es) :
    (run codec start es).Wired ∧ ListsAlive (run codec start es) := by
  refine Runs.invariant (I := fun s : Program => s.Wired ∧ ListsAlive s) ?_
    ⟨wired_start, by simp [ListsAlive, start]⟩ hc
  rintro s e ⟨hw, h⟩ hc
  have ht := step_transition codec hw h.switches e
  exact ⟨ht.wired hw, ht.listsAlive h hc⟩

/-- In all states of a run every listed `ConnInfo` is allocated, and nothing uses
one that is not, exactly when no connection is reported closed while it is on the
list that its last role does not belong to. -/
theorem lists_safe_iff (codec : Codec) (es : List Event) :
    (∀ done, done <+: es → Safe codec (run codec start done)) ↔
      Runs.Steps (step codec) ClosedAsListed start es := by
  apply Runs.forall_prefix_iff
  · intro done _ hs
    obtain ⟨hw, halive⟩ := wired_listsAlive_run codec hs
    exact ⟨halive, fun e => handle_ok hw halive e⟩
  · intro done e _ hs hafter
    obtain ⟨hw, halive⟩ := wired_listsAlive_run codec hs
    rw [run, Runs.run_concat] at hafter
    cases e with
    | closed data =>
      -- the first close that does not meet the condition leaves a deleted ConnInfo listed
      intro hh info hinfo
      obtain ⟨info', hinfo', heq⟩ := step_closed codec hw hh
      obtain rfl : info' = info := Option.some.inj (hinfo'.symm.trans hinfo)
      have halive' := hafter.1
      rw [heq] at halive'
      exact (listsAlive_forget_iff halive).mp halive'
    | _ => trivial

/-- A connection registers as a switch and then as an agent, and closes: its
deleted `ConnInfo` stays in `switches`. -/
theorem closed_conninfo_stays_listed :
    ¬ ∀ (codec : Codec) (es : List Event), Safe codec (run codec start es) := by
  intro h
  have hsafe := h .sample [.accept 5 0 true,
    .packet (Server.packetData 5 1 .switchMip [0x0a, 2, 0x73, 0x31, 0x12, 1, 0x6b, 0x1a, 10, 0x3a,
      0x3a, 0x69, 0x6e, 0x74, 0x65, 0x72, 0x6e, 0x65, 0x74, 0x20, 0xd8, 0x36]) .none,
    .packet (Server.packetData 5 1 .agentMrp [0x0a, 1, 0x61, 0x12, 1, 0x6b]) .none,
    .closed ⟨0, 1, 5, .closeHangup⟩]
  exact absurd hsafe.1 (by decide)

end VNet.Conductor
