import VNet.Conductor.Transitions

namespace VNet.Conductor
open Protocol NetQueue

def issued (s s' : Program) : List (PendingTokenInfo × ℕ) :=
  (s'.state.pendingTokens.drop s.state.pendingTokens.length).zip
    (((s'.sent.drop s.sent.length).filter fun c =>
      c.type = .agentConnectionToken && c.ok).map SendCall.info)

/-- The conductor, with the switch connection that each pending token was issued
for. -/
structure Issuing where
  program : Program
  owners : List (PendingTokenInfo × ℕ)

namespace Issuing

def start : Issuing := ⟨Conductor.start, []⟩

/-- The entries that an event leaves in `pending_tokens`: `remove_switch` goes by
the name of the switch. -/
def left (w : Issuing) : Event → List (PendingTokenInfo × ℕ)
  | .closed data =>
    match w.program.infos.lookup data.ptrData with
    | some info =>
      if w.program.Holds data.fd data.ptrData ∧ info.peer.role = .switchConn then
        w.owners.filter fun x => x.1.switchName ≠ info.peer.name
      else w.owners
    | none => w.owners
  | _ => w.owners

def step (codec : Codec) (w : Issuing) (e : Event) : Issuing where
  program := Conductor.step codec w.program e
  owners := w.left e ++ issued w.program (Conductor.step codec w.program e)

/-- What an event should do to the pending tokens: the close of a connection
removes exactly those issued for it, and unlists it; and every token left belongs
to a connection that is registered as a switch and open. -/
structure Follows (codec : Codec) (w : Issuing) (e : Event) : Prop where
  tokens : (w.step codec e).owners.map Prod.fst = (w.step codec e).program.state.pendingTokens
  removed : ∀ data, e = .closed data → w.program.Holds data.fd data.ptrData →
    (w.step codec e).owners = w.owners.filter (fun x => x.2 ≠ data.ptrData) ∧
      data.ptrData ∉ (w.step codec e).program.state.switches
  registered : ∀ x ∈ (w.step codec e).owners, x.2 ∈ (w.step codec e).program.state.switches ∧
    ∃ fd, (w.step codec e).program.Holds fd x.2

/-- When a connection closes that is listed as a switch, it has not registered as
an agent since; its pending tokens were issued under the name it has now, and
none for another connection was issued under that name. -/
structure ClosesOwn (w : Issuing) (e : Event) : Prop where
  stillSwitch : ∀ data info, e = .closed data → w.program.Holds data.fd data.ptrData →
    w.program.infos.lookup data.ptrData = some info → data.ptrData ∈ w.program.state.switches →
      info.peer.role = .switchConn
  sameName : ∀ data info, e = .closed data → w.program.Holds data.fd data.ptrData →
    w.program.infos.lookup data.ptrData = some info → info.peer.role = .switchConn →
      ∀ x ∈ w.owners, x.2 = data.ptrData → x.1.switchName = info.peer.name
  noNamesake : ∀ data info, e = .closed data → w.program.Holds data.fd data.ptrData →
    w.program.infos.lookup data.ptrData = some info → info.peer.role = .switchConn →
      ∀ x ∈ w.owners, x.2 ≠ data.ptrData → x.1.switchName ≠ info.peer.name

/-- The listed switches are open connections, and every pending token was issued
for one of them. -/
structure Owned (w : Issuing) : Prop where
  wired : w.program.Wired
  opened : ∀ p ∈ w.program.state.switches, ∃ fd, w.program.Holds fd p
  tokens : w.owners.map Prod.fst = w.program.state.pendingTokens
  listed : ∀ x ∈ w.owners, x.2 ∈ w.program.state.switches

variable {codec : Codec} {w : Issuing} {e : Event}

theorem Owned.start : Owned Issuing.start where
  wired := wired_start
  opened p hp := by simp [Issuing.start, Conductor.start] at hp
  tokens := rfl
  listed x hx := by simp [Issuing.start] at hx

theorem Owned.alive (h : Owned w) : SwitchesAlive w.program := by
  intro p hp
  obtain ⟨fd, hh⟩ := h.opened p hp
  obtain ⟨info, hinfo, -⟩ := h.wired.alive fd p hh
  exact ⟨info, hinfo⟩

theorem issued_nil {s s' : Program} (h : s'.state.pendingTokens.length ≤
    s.state.pendingTokens.length) : issued s s' = [] := by
  rw [issued, List.drop_of_length_le h, List.zip_nil_left]

/-- The answer to an agent adds at most the one token announced to the switch. -/
theorem issued_assigned (codec : Codec) (a : Answers) (data : SocketData) (pkt : PacketAgentMip)
    (p : ℕ) (sw : ConnInfo Peer) {s t : Program} (hstate : t.state.pendingTokens =
      s.state.pendingTokens) (hsent : t.sent = s.sent) :
    (issued s (assigned codec a data pkt p sw t) = [] ∧
      (assigned codec a data pkt p sw t).state.pendingTokens = s.state.pendingTokens) ∨
    ∃ token, issued s (assigned codec a data pkt p sw t) = [(token, p)] ∧
      (assigned codec a data pkt p sw t).state.pendingTokens =
        s.state.pendingTokens ++ [token] := by
  cases hboth : (toAgentCall codec a data sw t).ok && (toSwitchCall codec a pkt p sw t).ok with
  | false =>
    have htokens : (assigned codec a data pkt p sw t).state.pendingTokens =
        s.state.pendingTokens := by
      simp only [assigned, hboth, Bool.false_eq_true, if_false, hstate]
    exact Or.inl ⟨issued_nil (by rw [htokens]), htokens⟩
  | true =>
    obtain ⟨hagent, hswitch⟩ := Bool.and_eq_true_iff.mp hboth
    have hcalls : ([toAgentCall codec a data sw t, toSwitchCall codec a pkt p sw t].filter fun c =>
        c.type = .agentConnectionToken && c.ok) = [toSwitchCall codec a pkt p sw t] := by
      rw [List.filter_cons_of_neg (by simp [toAgentCall]),
        List.filter_cons_of_pos (by rw [hswitch]; rfl), List.filter_nil]
    refine Or.inr ⟨⟨pkt.name, sw.peer.name, a.nowMs, a.token⟩, ?_, ?_⟩
    · simp only [issued, assigned, hagent, hswitch, Bool.and_self, if_true, hstate, hsent,
        List.drop_left, hcalls]
      rfl
    · simp only [assigned, hboth, if_true, hstate]

structure Extends (s s' : Program) : Prop where
  switches : ∀ p ∈ s.state.switches, p ∈ s'.state.switches
  opened : ∀ p ∈ s'.state.switches, ∃ fd, s'.Holds fd p
  tokens : (issued s s' = [] ∧ s'.state.pendingTokens = s.state.pendingTokens) ∨
    ∃ token p, p ∈ s.state.switches ∧ issued s s' = [(token, p)] ∧
      s'.state.pendingTokens = s.state.pendingTokens ++ [token]

theorem Extends.of_same {s s' : Program} (hopened : ∀ p ∈ s.state.switches, ∃ fd, s.Holds fd p)
    (hswitches : s'.state.switches = s.state.switches)
    (hholds : ∀ fd p, p ∈ s.state.switches → s.Holds fd p → s'.Holds fd p)
    (htokens : s'.state.pendingTokens = s.state.pendingTokens) : Extends s s' where
  switches p hp := by rwa [hswitches]
  opened p hp := by
    rw [hswitches] at hp
    obtain ⟨fd, hh⟩ := hopened p hp
    exact ⟨fd, hholds fd p hp hh⟩
  tokens := Or.inl ⟨issued_nil (by rw [htokens]), htokens⟩

theorem extends_of_transition {s s' : Program} (ht : Transition codec s e s')
    (hopened : ∀ p ∈ s.state.switches, ∃ fd, s.Holds fd p)
    (hclose : ∀ data, e = .closed data → ¬ s.Holds data.fd data.ptrData) : Extends s s' := by
  cases ht with
  | idle => exact .of_same hopened rfl (fun _ _ _ hh => hh) rfl
  | accepted fd now hfd hfree =>
    refine .of_same hopened rfl (fun fd' p _ hh => ?_) rfl
    have hne : fd' ≠ fd := by
      rintro rfl
      rw [Server.Holds, hfree] at hh
      cases hh
    rw [Server.Holds, enroll, FiniteMap.lookup_insert_eq, if_neg hne]
    exact hh
  | notPut => exact .of_same hopened rfl (fun _ _ _ hh => hh) rfl
  | switchMip _ data pkt a info h =>
    obtain ⟨-, hh, -⟩ := received_eq_some h
    refine ⟨fun p hp => List.mem_append_left _ hp, fun p hp => ?_, Or.inl ⟨issued_nil le_rfl, rfl⟩⟩
    rcases List.mem_append.mp hp with hp | hp
    · exact hopened p hp
    · rw [List.mem_singleton.mp hp]
      exact ⟨data.fd, hh⟩
  | noSwitch _ data pkt a info h hinfo hnil =>
    refine .of_same hopened rfl (fun _ p hp _ => ?_) rfl
    rw [hnil] at hp
    cases hp
  | assigned _ data pkt a info p rr sw h hinfo hp =>
    refine ⟨fun _ hq => hq, hopened, ?_⟩
    rcases issued_assigned codec a data pkt p sw (s := s)
      (t := withRr (Conductor.rewrite s data.ptrData (agentInfo a data pkt info)) rr) rfl rfl with
      hnone | ⟨token, hissued, htokens⟩
    · exact Or.inl hnone
    · exact Or.inr ⟨token, p, hp, hissued, htokens⟩
  | agentMrp => exact .of_same hopened rfl (fun _ _ _ hh => hh) rfl
  | closed data info hh => exact absurd hh (hclose data rfl)
  | heartbeats now ok _ hk =>
    refine .of_same hopened (by rw [hk.state_eq]) (fun fd p _ hh => ?_) (by rw [hk.state_eq])
    rw [Server.Holds, hk.queue_eq]
    exact hh

theorem left_of_not_closed (hclose : ∀ data, e = .closed data →
    ¬ w.program.Holds data.fd data.ptrData) : w.left e = w.owners := by
  cases e with
  | closed data =>
    simp only [left]
    cases w.program.infos.lookup data.ptrData with
    | none => rfl
    | some info => exact if_neg fun h => hclose data rfl h.1
  | _ => rfl

theorem Owned.step_extends (h : Owned w) (hclose : ∀ data, e = .closed data →
    ¬ w.program.Holds data.fd data.ptrData) : Owned (w.step codec e) := by
  have ht := step_transition codec h.wired h.alive e
  have hext := extends_of_transition ht h.opened hclose
  have howners : (w.step codec e).owners =
      w.owners ++ issued w.program (Conductor.step codec w.program e) := by
    rw [step, left_of_not_closed hclose]
  refine ⟨ht.wired h.wired, hext.opened, ?_, fun x hx => ?_⟩
  · rw [howners, List.map_append, h.tokens]
    rcases hext.tokens with ⟨hissued, htokens⟩ | ⟨token, p, -, hissued, htokens⟩
    · rw [hissued, List.map_nil, List.append_nil]
      exact htokens.symm
    · rw [hissued]
      exact htokens.symm
  · rw [howners] at hx
    rcases List.mem_append.mp hx with hx | hx
    · exact hext.switches _ (h.listed x hx)
    · rcases hext.tokens with ⟨hissued, -⟩ | ⟨token, p, hp, hissued, -⟩
      · rw [hissued] at hx
        cases hx
      · rw [hissued, List.mem_singleton] at hx
        rw [hx]
        exact hext.switches p hp

/-- The tokens left are those issued under another name, if the connection closes
as a switch. -/
theorem owners_closed (codec : Codec) (h : Owned w) {data : CloseData} {info : ConnInfo Peer}
    (hh : w.program.Holds data.fd data.ptrData)
    (hinfo : w.program.infos.lookup data.ptrData = some info) :
    (w.step codec (.closed data)).program = forget w.program data info ∧
      (w.step codec (.closed data)).owners =
        if info.peer.role = .switchConn then
          w.owners.filter fun x => x.1.switchName ≠ info.peer.name
        else w.owners := by
  obtain ⟨info', hinfo', hstep⟩ := step_closed codec h.wired hh
  rw [hinfo, Option.some.injEq] at hinfo'
  subst hinfo'
  refine ⟨hstep, ?_⟩
  have hnone : issued w.program (forget w.program data info) = [] := by
    refine issued_nil ?_
    simp only [forget, unlist]
    cases info.peer.role with
    | unknown => exact le_rfl
    | switchConn => exact List.length_filter_le _ _
    | agentConn => exact le_rfl
  simp only [step, hstep, hnone, List.append_nil, left, hinfo]
  by_cases hrole : info.peer.role = .switchConn
  · rw [if_pos ⟨hh, hrole⟩, if_pos hrole]
  · rw [if_neg fun hcon => hrole hcon.2, if_neg hrole]

theorem mem_switches_forget {s : Program} {data : CloseData} {info : ConnInfo Peer} {p : ℕ} :
    p ∈ (forget s data info).state.switches ↔
      p ∈ s.state.switches ∧ (info.peer.role = .switchConn → p ≠ data.ptrData) := by
  simp only [forget, unlist]
  cases info.peer.role with
  | unknown => simp
  | switchConn => simp [ConductorState.removeSwitch]
  | agentConn => simp [ConductorState.removeAgent]

/-- When its own tokens are those of its name, a close removes just these. -/
theorem owners_closed_own (codec : Codec) (h : Owned w) {data : CloseData} {info : ConnInfo Peer}
    (hc : ClosesOwn w (.closed data)) (hh : w.program.Holds data.fd data.ptrData)
    (hinfo : w.program.infos.lookup data.ptrData = some info) :
    (w.step codec (.closed data)).owners = w.owners.filter (fun x => x.2 ≠ data.ptrData) ∧
      data.ptrData ∉ (w.step codec (.closed data)).program.state.switches := by
  obtain ⟨hprogram, howners⟩ := owners_closed codec h hh hinfo
  rw [howners, hprogram, mem_switches_forget]
  by_cases hrole : info.peer.role = .switchConn
  · rw [if_pos hrole]
    refine ⟨List.filter_congr fun x hx => ?_, fun hmem => hmem.2 hrole rfl⟩
    have hname := hc.sameName data info rfl hh hinfo hrole x hx
    have hnot := hc.noNamesake data info rfl hh hinfo hrole x hx
    rw [decide_eq_decide]
    exact ⟨fun hne heq => hne (hname heq), hnot⟩
  · have hunlisted : data.ptrData ∉ w.program.state.switches :=
      fun hmem => hrole (hc.stillSwitch data info rfl hh hinfo hmem)
    rw [if_neg hrole]
    refine ⟨(List.filter_eq_self.mpr fun x hx => ?_).symm, fun hmem => hunlisted hmem.1⟩
    rw [decide_eq_true_eq]
    intro heq
    exact hunlisted (heq ▸ h.listed x hx)

theorem Owned.step_closed (h : Owned w) {data : CloseData} (hc : ClosesOwn w (.closed data))
    (hh : w.program.Holds data.fd data.ptrData) : Owned (w.step codec (.closed data)) := by
  obtain ⟨info, hinfo, -⟩ := h.wired.alive _ _ hh
  obtain ⟨hprogram, howners⟩ := owners_closed codec h hh hinfo
  obtain ⟨hfilter, hunlisted⟩ := owners_closed_own codec h hc hh hinfo
  have hkept : ∀ p ∈ w.program.state.switches, p ≠ data.ptrData →
      p ∈ (w.step codec (.closed data)).program.state.switches := by
    intro p hp hne
    rw [hprogram, mem_switches_forget]
    exact ⟨hp, fun _ => hne⟩
  refine ⟨?_, fun p hp => ?_, ?_, fun x hx => ?_⟩
  · exact (step_transition codec h.wired h.alive (.closed data)).wired h.wired
  · have hne : p ≠ data.ptrData := by
      rintro rfl
      exact hunlisted hp
    rw [hprogram, mem_switches_forget] at hp
    obtain ⟨fd, hfd⟩ := h.opened p hp.1
    refine ⟨fd, ?_⟩
    have hother : fd ≠ data.fd := by
      rintro rfl
      exact hne (Option.some.inj (hfd.symm.trans hh))
    rw [hprogram, Server.Holds, forget, FiniteMap.lookup_erase_eq, if_neg hother]
    exact hfd
  · rw [howners, hprogram]
    simp only [forget, unlist]
    cases hrole : info.peer.role with
    | unknown => exact h.tokens
    | switchConn =>
      simp only [if_true, ConductorState.removeSwitch, ← h.tokens, List.filter_map]
      rfl
    | agentConn => exact h.tokens
  · rw [hfilter, List.mem_filter, decide_eq_true_eq] at hx
    exact hkept _ (h.listed x hx.1) hx.2

theorem Owned.step (h : Owned w) (hc : ClosesOwn w e) : Owned (w.step codec e) := by
  by_cases hclose : ∀ data, e = .closed data → ¬ w.program.Holds data.fd data.ptrData
  · exact h.step_extends hclose
  · push Not at hclose
    obtain ⟨data, rfl, hh⟩ := hclose
    exact h.step_closed hc hh

theorem Owned.follows (h : Owned w) (hc : ClosesOwn w e) : Follows codec w e := by
  have hnext : Owned (w.step codec e) := h.step hc
  refine ⟨hnext.tokens, ?_, fun x hx => ?_⟩
  · rintro data rfl hh
    obtain ⟨info, hinfo, -⟩ := h.wired.alive _ _ hh
    exact owners_closed_own codec h hc hh hinfo
  · exact ⟨hnext.listed x hx, hnext.opened _ (hnext.listed x hx)⟩

/-- A close that does what it should has found what it needs. -/
theorem Owned.closesOwn (h : Owned w) (hf : Follows codec w e) : ClosesOwn w e := by
  have hclosed : ∀ data info, e = .closed data → w.program.Holds data.fd data.ptrData →
      w.program.infos.lookup data.ptrData = some info → info.peer.role = .switchConn →
      ∀ x ∈ w.owners, x.1.switchName ≠ info.peer.name ↔ x.2 ≠ data.ptrData := by
    rintro data info rfl hh hinfo hrole x hx
    have hfilter := (hf.removed data rfl hh).1
    rw [(owners_closed codec h hh hinfo).2, if_pos hrole] at hfilter
    -- both lists are filtered from the same one, so they agree on each of its entries
    have hmem := congrArg (x ∈ ·) hfilter
    simpa [hx] using hmem
  refine ⟨?_, ?_, ?_⟩
  · rintro data info rfl hh hinfo hlisted
    have hunlisted := (hf.removed data rfl hh).2
    rw [(owners_closed codec h hh hinfo).1, mem_switches_forget] at hunlisted
    by_contra hrole
    exact hunlisted ⟨hlisted, fun hcon => absurd hcon hrole⟩
  · intro data info he hh hinfo hrole x hx heq
    by_contra hne
    exact (hclosed data info he hh hinfo hrole x hx).mp hne heq
  · intro data info he hh hinfo hrole x hx hne
    exact (hclosed data info he hh hinfo hrole x hx).mpr hne

/-- Along a run the pending tokens follow their switches if and only if every
connection that closes as a switch has kept its role and its name since its tokens
were issued, and shares the name with no other that has pending tokens. -/
theorem tokens_follow_switch_iff (codec : Codec) (es : List Event) :
    Runs.Steps (step codec) (Follows codec) start es ↔
      Runs.Steps (step codec) ClosesOwn start es := by
  suffices h : ∀ w, Owned w →
      (Runs.Steps (step codec) (Follows codec) w es ↔ Runs.Steps (step codec) ClosesOwn w es) by
    exact h start .start
  induction es with
  | nil => exact fun _ _ => Iff.rfl
  | cons e es ih =>
    intro w h
    constructor
    · rintro ⟨hf, hrest⟩
      have hc := h.closesOwn hf
      exact ⟨hc, (ih _ (h.step hc)).mp hrest⟩
    · rintro ⟨hc, hrest⟩
      exact ⟨h.follows hc, (ih _ (h.step hc)).mpr hrest⟩

/-- A switch registers from two connections under one name, the token of an agent
is issued for the second, and the first closes: the token is gone, although its
switch is still there. -/
theorem namesake_takes_tokens_along :
    ¬ ∀ (codec : Codec) (es : List Event), Runs.Steps (step codec) (Follows codec) start es := by
  intro h
  let switchMip : Bytes := [0x0a, 2, 0x73, 0x31, 0x12, 1, 0x6b, 0x1a, 10, 0x3a, 0x3a, 0x69, 0x6e,
    0x74, 0x65, 0x72, 0x6e, 0x65, 0x74, 0x20, 0xd8, 0x36]
  let agentMip : Bytes := [0x0a, 1, 0x61, 0x12, 1, 0x6b, 0x1a, 13, 0x76, 0x6e, 0x65, 0x74, 0x2e,
    0x69, 0x6e, 0x74, 0x65, 0x72, 0x6e, 0x61, 0x6c]
  -- the first answer cannot be sent, which moves `rr_index` to the second connection
  have hsteps := h .sample ([.accept 5 0 true,
    .packet (Server.packetData 5 1 .switchMip switchMip) ⟨0, 0, some 0x0200000a, 0, false, false⟩,
    .accept 6 0 true,
    .packet (Server.packetData 6 2 .switchMip switchMip) ⟨0, 0, some 0x0200000a, 0, false, false⟩,
    .accept 7 0 true,
    .packet (Server.packetData 7 3 .agentMip agentMip) ⟨0, 0, none, 6, false, false⟩,
    .packet (Server.packetData 7 3 .agentMip agentMip) ⟨0, 0, none, 7, true, true⟩] ++
    [.closed ⟨0, 1, 5, .closeHangup⟩])
  have hf := ((Runs.steps_append _ _ _).mp hsteps).2.1
  exact absurd (hf.removed _ rfl (by decide)).1 (by decide)

end Issuing

end VNet.Conductor
