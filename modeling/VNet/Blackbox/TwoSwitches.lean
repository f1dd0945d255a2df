import VNet.Blackbox.Delivery

namespace VNet.Blackbox.BlackBox

open VNet.Protocol Config

/-- The end of a packet's way: the agent it is delivered to, the address a route
is asked for, the internet, a switch, or a drop. -/
inductive Outcome
  | delivered (agent : Option Text)
  | routeRequested (destIpv4 : UInt32)
  | internet
  | forwarded
  | dropped (reason : DropReason)
  deriving DecidableEq, Repr

def outcome (b : BlackBox) (d : PacketDecision) : Outcome :=
  match d.action with
  | .deliverLocal => .delivered ((b.registry.findByFd d.targetFd).map AgentEntry.name)
  | .requestRoute => .routeRequested d.destIpv4
  | .forwardInternet => .internet
  | .forwardSwitch => .forwarded
  | .drop => .dropped d.dropReason

def handOn (own : BlackBox) (onward : Outcome) (d : PacketDecision) : Outcome :=
  if d.action = .forwardSwitch then onward else own.outcome d

/-- A packet of an agent of `own`, processed by `other` when `own` forwards it to
a switch; `link` is where `other` receives it. -/
def endToEnd (own other : BlackBox) (link fd : ℤ) (raw : Bytes) : Outcome :=
  own.handOn (other.outcome (other.process .switch link raw)) (own.process .agent fd raw)

section
variable (b : BlackBox) (onward : Outcome)

@[simp] theorem outcome_deliverLocal (fd : ℤ) :
    b.outcome (.deliverLocal fd) =
      .delivered ((b.registry.findByFd fd).map AgentEntry.name) := rfl

@[simp] theorem handOn_forwardSwitch (fd : ℤ) : b.handOn onward (.forwardSwitch fd) = onward := rfl

theorem handOn_eq_outcome {d : PacketDecision} (h : d.action ≠ .forwardSwitch) :
    b.handOn onward d = b.outcome d := if_neg h

end

/-- The receiving switch delivers or drops. -/
theorem process_switch_action (b : BlackBox) (fd : ℤ) (raw : Bytes) :
    (b.process .switch fd raw).action = .deliverLocal ∨
      (b.process .switch fd raw).action = .drop := by
  unfold process
  cases ipv4Parse raw with
  | none => exact Or.inr rfl
  | some hdr =>
    dsimp only
    unfold processFromSwitch
    split
    · exact Or.inl rfl
    · exact Or.inr rfl

/-- A box built from `c`, after calls that never give two agents the same file
descriptor. -/
def Reached (c : Config) (b : BlackBox) : Prop :=
  ∃ tunFd hooks, Runs.Steps step NoClash (new c tunFd) hooks ∧ b = (new c tunFd).run hooks

def Holds (b : BlackBox) (name : Text) : Prop := ∃ e, b.registry.findByName name = some e

variable {inetPton : Text → Option UInt32} {text : Text} {c : Config} {b : BlackBox}

theorem Reached.config (h : Reached c b) : b.config = c := by
  obtain ⟨tunFd, hooks, _, rfl⟩ := h
  exact run_config _ hooks

theorem Reached.registered (h : Reached c b) : b.Registered := by
  obtain ⟨tunFd, hooks, _, rfl⟩ := h
  exact run_registered c tunFd hooks

theorem Reached.linked (hc : Loaded inetPton text c) (h : Reached c b) : b.registry.Linked := by
  obtain ⟨tunFd, hooks, hsteps, rfl⟩ := h
  exact linked_run hc tunFd hsteps

theorem Reached.ip_of_findByFd (h : Reached c b) {fd : ℤ} {e : AgentEntry}
    (he : b.registry.findByFd fd = some e) : e.virtualIpv4 = c.findIpForAgent e.name := by
  rw [← h.config]
  exact h.registered.ip_eq e.name e (h.registered.indexed.fd_named fd e he)

/-- Routes only ever point to file descriptors. -/
theorem route_nonneg_step {b : BlackBox}
    (h : ∀ ip fd, b.routing.routes.lookup ip = some fd → 0 ≤ fd) (hook : Hook) :
    ∀ ip fd, (b.step hook).routing.routes.lookup ip = some fd → 0 ≤ fd := by
  intro ip fd hfd
  cases hook with
  | agentAuthenticated name fd' allocated =>
    simp only [step, onAgentAuthenticated_snd] at hfd
    split_ifs at hfd
    · exact h ip fd hfd
    · exact h ip fd hfd
  | agentDisconnected fd' => exact h ip fd hfd
  | routeUpdate destIpv4 nextSwitchFd =>
    simp only [step, onRouteUpdate] at hfd
    split_ifs at hfd with hneg
    · simp only [RoutingTable.removeRoute, FiniteMap.lookup_erase_eq] at hfd
      split_ifs at hfd
      exact h ip fd hfd
    · simp only [RoutingTable.setRoute, FiniteMap.lookup_insert_eq] at hfd
      split_ifs at hfd
      · have heq := Option.some.inj hfd
        omega
      · exact h ip fd hfd
  | switchDisconnected switchFd =>
    simp only [step, onSwitchDisconnected, RoutingTable.removeRoutesForSwitch,
      FiniteMap.lookup_filterValues, Option.filter_eq_some_iff] at hfd
    exact h ip fd hfd.1

theorem Reached.route_nonneg (h : Reached c b) {ip : UInt32} {fd : ℤ}
    (hfd : b.routing.routes.lookup ip = some fd) : 0 ≤ fd := by
  obtain ⟨tunFd, hooks, _, rfl⟩ := h
  have hall : ∀ ip fd, ((new c tunFd).run hooks).routing.routes.lookup ip = some fd → 0 ≤ fd := by
    apply Runs.invariant_always
      (I := fun b : BlackBox => ∀ ip fd, b.routing.routes.lookup ip = some fd → 0 ≤ fd)
    · intro b hook hb
      exact route_nonneg_step hb hook
    · intro ip fd hnew
      simp [new, RoutingTable.empty] at hnew
  exact hall ip fd hfd

/-- The agent found by an address is the one registered whose address it is. -/
theorem findByIpv4_name_iff (hc : Loaded inetPton text c) (h : Reached c b) (ip : UInt32)
    (name : Text) :
    (b.registry.findByIpv4 ip).map AgentEntry.name = some name ↔
      Holds b name ∧ c.findIpForAgent name = ip := by
  have hreg := h.registered
  constructor
  · intro hname
    rw [Option.map_eq_some_iff] at hname
    obtain ⟨e, he, heq⟩ := hname
    have hnamed := hreg.indexed.ip_named ip e he
    rw [heq] at hnamed
    refine ⟨⟨e, hnamed⟩, ?_⟩
    rw [← h.config, ← hreg.ip_eq name e hnamed]
    exact hreg.indexed.ip_eq ip e he
  · rintro ⟨⟨e, he⟩, hip⟩
    have hfound := (h.linked hc).named_ip name e he
    rw [hreg.ip_eq name e he, h.config, hip] at hfound
    rw [hfound, Option.map_some, hreg.indexed.name_eq name e he]

/-- A delivery to the entry of an address is one to the agent of that entry. -/
theorem findByFd_of_findByIpv4 (hc : Loaded inetPton text c) (h : Reached c b) {ip : UInt32}
    {e : AgentEntry} (he : b.registry.findByIpv4 ip = some e) :
    b.registry.findByFd e.fd = some e :=
  ((h.linked hc).consistent e (Or.inr (Or.inr ⟨ip, he⟩))).2.1

/-- `own` and `other` share out the agents of `whole`, each with routes to
exactly the addresses of the other's agents, over `link` and `link'`. -/
structure Spread (c : Config) (own other whole : BlackBox) (link link' : ℤ) : Prop where
  own_reached : Reached c own
  other_reached : Reached c other
  whole_reached : Reached c whole
  own_tun : 0 ≤ own.tunFd ↔ 0 ≤ whole.tunFd
  other_tun : 0 ≤ other.tunFd ↔ 0 ≤ whole.tunFd
  disjoint : ∀ name, ¬ (Holds own name ∧ Holds other name)
  union : ∀ name, Holds whole name ↔ Holds own name ∨ Holds other name
  own_routes : ∀ ip, own.routing.routes.lookup ip =
    if (other.registry.findByIpv4 ip).isSome then some link else none
  other_routes : ∀ ip, other.routing.routes.lookup ip =
    if (own.registry.findByIpv4 ip).isSome then some link' else none
  whole_routes : ∀ ip, whole.routing.routes.lookup ip = none

variable {own other whole : BlackBox} {link link' : ℤ}

theorem Spread.symm (h : Spread c own other whole link link') :
    Spread c other own whole link' link where
  own_reached := h.other_reached
  other_reached := h.own_reached
  whole_reached := h.whole_reached
  own_tun := h.other_tun
  other_tun := h.own_tun
  disjoint name hname := h.disjoint name hname.symm
  union name := by rw [h.union, or_comm]
  own_routes := h.other_routes
  other_routes := h.own_routes
  whole_routes := h.whole_routes

/-- The whole box finds an address exactly when one of the two does, and the same
agent under it. -/
theorem Spread.findByIpv4_name (hc : Loaded inetPton text c)
    (h : Spread c own other whole link link') (ip : UInt32) :
    (whole.registry.findByIpv4 ip).map AgentEntry.name =
      ((own.registry.findByIpv4 ip).map AgentEntry.name).or
        ((other.registry.findByIpv4 ip).map AgentEntry.name) := by
  apply Option.ext
  intro name
  rw [← Option.mem_def, ← Option.mem_def, Option.mem_def, findByIpv4_name_iff hc h.whole_reached,
    h.union, Option.mem_def, Option.or_eq_some_iff, findByIpv4_name_iff hc h.own_reached,
    findByIpv4_name_iff hc h.other_reached]
  constructor
  · rintro ⟨hown | hother, hip⟩
    · exact Or.inl ⟨hown, hip⟩
    · refine Or.inr ⟨?_, hother, hip⟩
      -- `own` has no agent at this address: it would be the one `other` has
      rw [Option.map_eq_none_iff, Option.eq_none_iff_forall_not_mem]
      intro e he
      have hname : (own.registry.findByIpv4 ip).map AgentEntry.name = some e.name := by
        rw [he, Option.map_some]
      rw [findByIpv4_name_iff hc h.own_reached] at hname
      obtain ⟨e', he'⟩ := hother
      have h0 := h.other_reached.registered.ip_ne_zero name e' he'
      rw [h.other_reached.registered.ip_eq name e' he', h.other_reached.config] at h0
      have hsame := findIpForAgent_inj hc (hip.trans hname.2.symm) h0
      rw [hsame] at he'
      exact h.disjoint e.name ⟨hname.1, e', he'⟩
  · rintro (⟨hown, hip⟩ | ⟨_, hother, hip⟩)
    · exact ⟨Or.inl hown, hip⟩
    · exact ⟨Or.inr hother, hip⟩

/-- The answers for an agent's address when the rules let the packet through. -/
theorem Spread.deliver_eq (hc : Loaded inetPton text c)
    (h : Spread c own other whole link link') (hdr : IPv4Header) :
    own.handOn (other.outcome (other.processFromSwitch hdr))
        (match own.registry.findByIpv4 hdr.dstIp with
          | some agent => .deliverLocal agent.fd
          | none =>
            if 0 ≤ own.routing.lookup hdr.dstIp then
              .forwardSwitch (own.routing.lookup hdr.dstIp)
            else .requestRoute hdr.dstIp) =
      whole.outcome
        (match whole.registry.findByIpv4 hdr.dstIp with
          | some agent => .deliverLocal agent.fd
          | none =>
            if 0 ≤ whole.routing.lookup hdr.dstIp then
              .forwardSwitch (whole.routing.lookup hdr.dstIp)
            else .requestRoute hdr.dstIp) := by
  have hnames := h.findByIpv4_name hc hdr.dstIp
  have hroute := h.own_routes hdr.dstIp
  -- the destination is on this box, on the other one, or nowhere
  cases hown : own.registry.findByIpv4 hdr.dstIp with
  | some e =>
    rw [hown, Option.map_some, Option.some_or, Option.map_eq_some_iff] at hnames
    obtain ⟨w, hw, hname⟩ := hnames
    rw [hw]
    dsimp only
    rw [handOn_eq_outcome _ _ (by simp [PacketDecision.deliverLocal]), outcome_deliverLocal,
      outcome_deliverLocal, findByFd_of_findByIpv4 hc h.own_reached hown,
      findByFd_of_findByIpv4 hc h.whole_reached hw, Option.map_some, Option.map_some, hname]
  | none =>
    rw [hown, Option.map_none, Option.none_or] at hnames
    cases hother : other.registry.findByIpv4 hdr.dstIp with
    | some e =>
      rw [hother, Option.map_some, Option.map_eq_some_iff] at hnames
      obtain ⟨w, hw, hname⟩ := hnames
      rw [hother, Option.isSome_some, if_pos rfl] at hroute
      have hlookup : own.routing.lookup hdr.dstIp = link := by
        rw [RoutingTable.lookup, hroute, Option.getD_some]
      rw [hw]
      dsimp only
      rw [hlookup, if_pos (h.own_reached.route_nonneg hroute), handOn_forwardSwitch,
        processFromSwitch, hother]
      dsimp only
      rw [outcome_deliverLocal, outcome_deliverLocal,
        findByFd_of_findByIpv4 hc h.other_reached hother,
        findByFd_of_findByIpv4 hc h.whole_reached hw, Option.map_some, Option.map_some, hname]
    | none =>
      rw [hother, Option.map_none, Option.map_eq_none_iff] at hnames
      rw [hother, Option.isSome_none, if_neg Bool.false_ne_true] at hroute
      rw [hnames]
      dsimp only
      have hnone : ∀ b : BlackBox, b.routing.routes.lookup hdr.dstIp = none →
          ¬ 0 ≤ b.routing.lookup hdr.dstIp := by
        intro b hb
        rw [RoutingTable.lookup, hb, Option.getD_none]
        omega
      rw [if_neg (hnone own hroute), if_neg (hnone whole (h.whole_routes _))]
      rfl

/-- Where `own` routes a packet, directly or through `other`, is where the whole
box routes it. -/
theorem Spread.routeToDestination_eq (hc : Loaded inetPton text c)
    (h : Spread c own other whole link link') (src : UInt32) (hdr : IPv4Header) :
    own.handOn (other.outcome (other.processFromSwitch hdr))
        (own.routeToDestination src hdr.dstIp) =
      whole.outcome (whole.routeToDestination src hdr.dstIp) := by
  have htun : own.tunFd < 0 ↔ whole.tunFd < 0 := by
    have := h.own_tun
    omega
  unfold routeToDestination
  rw [h.own_reached.config, h.whole_reached.config]
  by_cases hagent : c.findAgentForIp hdr.dstIp ≠ []
  · rw [if_pos hagent, if_pos hagent]
    cases c.canAgentsCommunicate src hdr.dstIp with
    | false => rfl
    | true => exact h.deliver_eq hc hdr
  · rw [if_neg hagent, if_neg hagent]
    by_cases hneg : own.tunFd < 0
    · rw [if_pos hneg, if_pos (htun.mp hneg)]
      rfl
    · rw [if_neg hneg, if_neg (fun hw => hneg (htun.mpr hw))]
      cases c.canReachInternetIp src hdr.dstIp with
      | false => rfl
      | true => rfl

/-- The whole way of a packet, for an agent registered on `own`. -/
theorem Spread.endToEnd_eq (hc : Loaded inetPton text c)
    (h : Spread c own other whole link link') {fd wholeFd : ℤ} {e w : AgentEntry}
    (he : own.registry.findByFd fd = some e) (hw : whole.registry.findByFd wholeFd = some w)
    (hname : e.name = w.name) (raw : Bytes) :
    endToEnd own other link' fd raw = whole.outcome (whole.process .agent wholeFd raw) := by
  have hip : e.virtualIpv4 = w.virtualIpv4 := by
    rw [h.own_reached.ip_of_findByFd he, h.whole_reached.ip_of_findByFd hw, hname]
  unfold endToEnd process
  cases hparse : ipv4Parse raw with
  | none => rfl
  | some hdr =>
    dsimp only
    unfold processFromAgent
    rw [he, hw]
    dsimp only
    rw [hip]
    by_cases hsrc : hdr.srcIp ≠ w.virtualIpv4
    · rw [if_pos hsrc, if_pos hsrc]
      rfl
    · rw [if_neg hsrc, if_neg hsrc]
      exact h.routeToDestination_eq hc w.virtualIpv4 hdr

/-- Two switches that share out the agents of one behave as that one, for the
packets of every agent of either; and a packet that came from a switch is not
forwarded to a switch. -/
theorem two_switches_as_one (inetPton : Text → Option UInt32) {text : Text} {c₀ c : Config}
    (hload : load inetPton (some text) c₀ = (.ok (), c)) {first second whole : BlackBox}
    {link link' : ℤ} (h : Spread c first second whole link link') :
    (∀ fd wholeFd e w raw, first.registry.findByFd fd = some e →
      whole.registry.findByFd wholeFd = some w → e.name = w.name →
      endToEnd first second link' fd raw = whole.outcome (whole.process .agent wholeFd raw)) ∧
    (∀ fd wholeFd e w raw, second.registry.findByFd fd = some e →
      whole.registry.findByFd wholeFd = some w → e.name = w.name →
      endToEnd second first link fd raw = whole.outcome (whole.process .agent wholeFd raw)) ∧
    ∀ (b : BlackBox) fd raw, (b.process .switch fd raw).action ≠ .forwardSwitch := by
  have hc := load_loaded inetPton hload
  refine ⟨?_, ?_, ?_⟩
  · intro fd wholeFd e w raw he hw hname
    exact h.endToEnd_eq hc he hw hname raw
  · intro fd wholeFd e w raw he hw hname
    exact h.symm.endToEnd_eq hc he hw hname raw
  · intro b fd raw hact
    rcases b.process_switch_action fd raw with hd | hd
    · rw [hact] at hd
      simp at hd
    · rw [hact] at hd
      simp at hd

/-- An authentication that goes through adds its agent to those registered. -/
theorem holds_authenticated (hb : b.Registered) {name : Text}
    (h0 : b.config.findIpForAgent name ≠ 0) (fd : ℤ) (name' : Text) :
    Holds (b.step (.agentAuthenticated name fd true)) name' ↔ name' = name ∨ Holds b name' := by
  unfold Holds
  rw [step_registry]
  dsimp only
  rw [if_neg h0, AgentRegistry.registerAgent_snd, if_pos rfl, AgentRegistry.findByName_addEntry,
    hb.indexed.findByName_unregisterByName]
  split_ifs with hname
  · simp [hname]
  · simp [hname]

theorem holds_routeUpdate (destIpv4 : UInt32) (fd : ℤ) (name : Text) :
    Holds (b.step (.routeUpdate destIpv4 fd)) name ↔ Holds b name := by
  unfold Holds
  rw [step_registry]

/-- The addresses found are those of the agents registered. -/
theorem findByIpv4_isSome_iff (hc : Loaded inetPton text c) (h : Reached c b) (ip : UInt32) :
    (b.registry.findByIpv4 ip).isSome ↔ ∃ name, Holds b name ∧ c.findIpForAgent name = ip := by
  rw [Option.isSome_iff_exists]
  constructor
  · rintro ⟨e, he⟩
    refine ⟨e.name, (findByIpv4_name_iff hc h ip e.name).mp ?_⟩
    rw [he, Option.map_some]
  · rintro ⟨name, hname⟩
    have hfound := (findByIpv4_name_iff hc h ip name).mpr hname
    rw [Option.map_eq_some_iff] at hfound
    obtain ⟨e, he, _⟩ := hfound
    exact ⟨e, he⟩

section
variable (c)

def lone (name : Text) (fd : ℤ) (ip : UInt32) (link : ℤ) : List Hook :=
  [.agentAuthenticated name fd true, .routeUpdate ip link]

theorem lone_reached (name : Text) (fd : ℤ) (ip : UInt32) (link : ℤ) :
    Reached c ((new c (-1)).run (lone name fd ip link)) := by
  refine ⟨-1, lone name fd ip link, ⟨?_, trivial, trivial⟩, rfl⟩
  intro _ _ e he
  simp [BlackBox.new] at he

variable {c}

theorem holds_lone {name : Text} (h0 : c.findIpForAgent name ≠ 0) (fd : ℤ) (ip : UInt32) (link : ℤ)
    (name' : Text) : Holds ((new c (-1)).run (lone name fd ip link)) name' ↔ name' = name := by
  rw [run, lone, Runs.run_cons, Runs.run_cons, Runs.run_nil, holds_routeUpdate,
    holds_authenticated (Registered.new c (-1)) h0]
  simp [Holds, BlackBox.new]

theorem route_lone (name : Text) (fd : ℤ) (ip : UInt32) {link : ℤ} (hlink : 0 ≤ link)
    (ip' : UInt32) :
    ((new c (-1)).run (lone name fd ip link)).routing.routes.lookup ip' =
      if ip' = ip then some link else none := by
  have hrouting : ((new c (-1)).step (.agentAuthenticated name fd true)).routing = .empty := by
    simp only [step, onAgentAuthenticated_snd]
    split_ifs <;> rfl
  have hset : ∀ b : BlackBox, b.onRouteUpdate ip link =
      { b with routing := b.routing.setRoute ip link } := by
    intro b
    exact if_neg (by omega)
  rw [run, lone, Runs.run_cons, Runs.run_cons, Runs.run_nil]
  show (((new c (-1)).step (.agentAuthenticated name fd true)).onRouteUpdate ip link
    ).routing.routes.lookup ip' = _
  rw [hset, hrouting]
  exact FiniteMap.lookup_insert_eq _ _ _ _

end

theorem two_switches_as_one_pair :
    let c := (load pairAddress (some pairFile) .empty).2
    endToEnd ((new c (-1)).run (lone ['a'] 5 0x0201000a 9))
      ((new c (-1)).run (lone ['b'] 5 0x0101000a 8)) 8 5 pairPacket = .delivered (some ['b']) := by
  intro c
  have hload : load pairAddress (some pairFile) .empty = (.ok (), c) := Prod.ext (by decide) rfl
  have hc := load_loaded pairAddress hload
  have ha : c.findIpForAgent ['a'] = 0x0101000a := by decide
  have hb : c.findIpForAgent ['b'] = 0x0201000a := by decide
  have ha0 : c.findIpForAgent ['a'] ≠ 0 := by rw [ha]; decide
  have hb0 : c.findIpForAgent ['b'] ≠ 0 := by rw [hb]; decide
  have hwhole : Reached c ((new c (-1)).run
      [.agentAuthenticated ['a'] 5 true, .agentAuthenticated ['b'] 6 true]) := by
    refine ⟨-1, [.agentAuthenticated ['a'] 5 true, .agentAuthenticated ['b'] 6 true],
      ⟨?_, ?_, trivial⟩, rfl⟩
    · intro _ _ e he
      simp [BlackBox.new] at he
    · intro _ _ e he
      have hfree : ((new (load pairAddress (some pairFile) .empty).2 (-1)).step
          (.agentAuthenticated ['a'] 5 true)).registry.findByFd 6 = none := by decide
      rw [hfree] at he
      simp at he
  have hspread : Spread c ((new c (-1)).run (lone ['a'] 5 0x0201000a 9))
      ((new c (-1)).run (lone ['b'] 5 0x0101000a 8))
      ((new c (-1)).run [.agentAuthenticated ['a'] 5 true, .agentAuthenticated ['b'] 6 true])
      9 8 := by
    refine ⟨lone_reached c _ _ _ _, lone_reached c _ _ _ _, hwhole, by simp [run_tunFd],
      by simp [run_tunFd], ?_, ?_, ?_, ?_, ?_⟩
    · intro name
      rw [holds_lone ha0, holds_lone hb0]
      rintro ⟨rfl, hab⟩
      simp at hab
    · intro name
      rw [holds_lone ha0, holds_lone hb0, run, Runs.run_cons, Runs.run_cons, Runs.run_nil,
        holds_authenticated ((Registered.new c (-1)).step _) (by rw [step_config]; exact hb0),
        holds_authenticated (Registered.new c (-1)) ha0]
      simp [Holds, BlackBox.new, or_comm]
    · intro ip
      rw [route_lone _ _ _ (by omega)]
      simp only [findByIpv4_isSome_iff hc (lone_reached c _ _ _ _), holds_lone hb0,
        exists_eq_left, hb, eq_comm]
    · intro ip
      rw [route_lone _ _ _ (by omega)]
      simp only [findByIpv4_isSome_iff hc (lone_reached c _ _ _ _), holds_lone ha0,
        exists_eq_left, ha, eq_comm]
    · intro ip
      simp [run, Runs.run, step, onAgentAuthenticated_snd]
      split_ifs <;> rfl
  rw [(two_switches_as_one pairAddress hload hspread).1 5 5 ⟨0, ['a'], 0x0101000a, 5⟩
    ⟨0, ['a'], 0x0101000a, 5⟩ pairPacket (by decide) (by decide) rfl]
  decide

end VNet.Blackbox.BlackBox
