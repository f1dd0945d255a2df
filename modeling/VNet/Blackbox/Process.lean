import VNet.Blackbox.AgentRegistry
import VNet.Blackbox.Ipv4
import VNet.Lib.Runs

namespace VNet.Blackbox

open VNet.Protocol

structure RoutingTable where
  routes : FiniteMap UInt32 ℤ

namespace RoutingTable

def empty : RoutingTable := ⟨∅⟩

def setRoute (t : RoutingTable) (destIpv4 : UInt32) (nextSwitchFd : ℤ) : RoutingTable :=
  ⟨t.routes.insert destIpv4 nextSwitchFd⟩

def removeRoute (t : RoutingTable) (destIpv4 : UInt32) : RoutingTable :=
  ⟨t.routes.erase destIpv4⟩

def removeRoutesForSwitch (t : RoutingTable) (switchFd : ℤ) : RoutingTable :=
  ⟨t.routes.filterValues fun fd => fd ≠ switchFd⟩

def lookup (t : RoutingTable) (destIpv4 : UInt32) : ℤ := (t.routes.lookup destIpv4).getD (-1)

end RoutingTable

inductive SourceType
  | agent
  | switch
  | tun
  deriving DecidableEq, Repr

inductive PacketAction
  | deliverLocal
  | forwardSwitch
  | forwardInternet
  | requestRoute
  | drop
  deriving DecidableEq, Repr

inductive DropReason
  | none
  | malformedPacket
  | sourceSpoof
  | sourceUnknown
  | destUnreachable
  | aclDenied
  deriving DecidableEq, Repr

structure PacketDecision where
  action : PacketAction
  targetFd : ℤ
  destIpv4 : UInt32
  dropReason : DropReason
  deriving DecidableEq, Repr

namespace PacketDecision

def drop (reason : DropReason) : PacketDecision := ⟨.drop, -1, 0, reason⟩

def deliverLocal (fd : ℤ) : PacketDecision := ⟨.deliverLocal, fd, 0, .none⟩

def forwardSwitch (fd : ℤ) : PacketDecision := ⟨.forwardSwitch, fd, 0, .none⟩

def forwardInternet (fd : ℤ) : PacketDecision := ⟨.forwardInternet, fd, 0, .none⟩

def requestRoute (destIpv4 : UInt32) : PacketDecision := ⟨.requestRoute, -1, destIpv4, .none⟩

end PacketDecision

structure BlackBox where
  config : Config
  registry : AgentRegistry
  routing : RoutingTable
  tunFd : ℤ

namespace BlackBox

def new (config : Config) (tunFd : ℤ) : BlackBox := ⟨config, .empty, .empty, tunFd⟩

def routeToDestination (b : BlackBox) (srcIpv4 destIpv4 : UInt32) : PacketDecision :=
  if b.config.findAgentForIp destIpv4 ≠ [] then
    if !b.config.canAgentsCommunicate srcIpv4 destIpv4 then .drop .aclDenied
    else match b.registry.findByIpv4 destIpv4 with
      | some agent => .deliverLocal agent.fd
      | none =>
        let nextSwitch := b.routing.lookup destIpv4
        if 0 ≤ nextSwitch then .forwardSwitch nextSwitch
        else .requestRoute destIpv4
  else if b.tunFd < 0 then .drop .destUnreachable
  else if !b.config.canReachInternetIp srcIpv4 destIpv4 then .drop .aclDenied
  else .forwardInternet b.tunFd

def processFromAgent (b : BlackBox) (sourceFd : ℤ) (hdr : IPv4Header) : PacketDecision :=
  match b.registry.findByFd sourceFd with
  | none => .drop .sourceUnknown
  | some sender =>
    if hdr.srcIp ≠ sender.virtualIpv4 then .drop .sourceSpoof
    else b.routeToDestination sender.virtualIpv4 hdr.dstIp

def processFromSwitch (b : BlackBox) (hdr : IPv4Header) : PacketDecision :=
  match b.registry.findByIpv4 hdr.dstIp with
  | some dest => .deliverLocal dest.fd
  | none => .drop .destUnreachable

def processFromTun (b : BlackBox) (hdr : IPv4Header) : PacketDecision :=
  match b.registry.findByIpv4 hdr.dstIp with
  | none => .drop .destUnreachable
  | some dest =>
    if !b.config.canReachInternetIp hdr.dstIp hdr.srcIp then .drop .aclDenied
    else .deliverLocal dest.fd

def process (b : BlackBox) (sourceType : SourceType) (sourceFd : ℤ) (raw : Bytes) :
    PacketDecision :=
  match ipv4Parse raw with
  | none => .drop .malformedPacket
  | some hdr =>
    match sourceType with
    | .agent => b.processFromAgent sourceFd hdr
    | .switch => b.processFromSwitch hdr
    | .tun => b.processFromTun hdr

def onAgentAuthenticated (b : BlackBox) (name : Text) (fd : ℤ) (allocated : Bool) :
    Bool × BlackBox :=
  let ipv4 := b.config.findIpForAgent name
  if ipv4 = 0 then (false, b)
  else
    let (entry, registry) := b.registry.registerAgent name ipv4 fd allocated
    (entry.isSome, { b with registry })

def onAgentDisconnected (b : BlackBox) (fd : ℤ) : BlackBox :=
  { b with registry := b.registry.unregisterByFd fd }

def onRouteUpdate (b : BlackBox) (destIpv4 : UInt32) (nextSwitchFd : ℤ) : BlackBox :=
  if nextSwitchFd < 0 then { b with routing := b.routing.removeRoute destIpv4 }
  else { b with routing := b.routing.setRoute destIpv4 nextSwitchFd }

def onSwitchDisconnected (b : BlackBox) (switchFd : ℤ) : BlackBox :=
  { b with routing := b.routing.removeRoutesForSwitch switchFd }

/-- The calls of the switch; the first also says whether the registry gets
memory for a new entry. -/
inductive Hook
  | agentAuthenticated (name : Text) (fd : ℤ) (allocated : Bool)
  | agentDisconnected (fd : ℤ)
  | routeUpdate (destIpv4 : UInt32) (nextSwitchFd : ℤ)
  | switchDisconnected (switchFd : ℤ)
  deriving DecidableEq, Repr

def step (b : BlackBox) : Hook → BlackBox
  | .agentAuthenticated name fd allocated => (b.onAgentAuthenticated name fd allocated).2
  | .agentDisconnected fd => b.onAgentDisconnected fd
  | .routeUpdate destIpv4 nextSwitchFd => b.onRouteUpdate destIpv4 nextSwitchFd
  | .switchDisconnected switchFd => b.onSwitchDisconnected switchFd

abbrev run (b : BlackBox) (hooks : List Hook) : BlackBox := Runs.run step b hooks

/-- Whether an authentication succeeds is settled by the configuration and the
allocation alone. -/
theorem onAgentAuthenticated_fst (b : BlackBox) (name : Text) (fd : ℤ) (allocated : Bool) :
    (b.onAgentAuthenticated name fd allocated).1 =
      (decide (b.config.findIpForAgent name ≠ 0) && allocated) := by
  unfold onAgentAuthenticated AgentRegistry.registerAgent
  cases allocated <;> by_cases h : b.config.findIpForAgent name = 0 <;> simp [h]

theorem onAgentAuthenticated_snd (b : BlackBox) (name : Text) (fd : ℤ) (allocated : Bool) :
    (b.onAgentAuthenticated name fd allocated).2 =
      if b.config.findIpForAgent name = 0 then b
      else { b with registry :=
        (b.registry.registerAgent name (b.config.findIpForAgent name) fd allocated).2 } := by
  unfold onAgentAuthenticated
  by_cases h : b.config.findIpForAgent name = 0 <;> simp [h]

/-- What looks at neither the registry nor the routes is as before. -/
theorem step_keeps {α : Type} {f : BlackBox → α}
    (hf : ∀ b registry routing, f { b with registry := registry, routing := routing } = f b)
    (b : BlackBox) (h : Hook) : f (b.step h) = f b := by
  cases h with
  | agentAuthenticated name fd allocated =>
    simp only [step, onAgentAuthenticated_snd]
    split_ifs
    · rfl
    · exact hf b _ _
  | agentDisconnected fd => exact hf b _ _
  | routeUpdate destIpv4 fd =>
    simp only [step, onRouteUpdate]
    split_ifs <;> exact hf b _ _
  | switchDisconnected fd => exact hf b _ _

@[simp] theorem step_config (b : BlackBox) (h : Hook) : (b.step h).config = b.config :=
  step_keeps (f := config) (fun _ _ _ => rfl) b h

@[simp] theorem step_tunFd (b : BlackBox) (h : Hook) : (b.step h).tunFd = b.tunFd :=
  step_keeps (f := tunFd) (fun _ _ _ => rfl) b h

/-- What a call does to the registry: only the two hooks for agents touch it. -/
theorem step_registry (b : BlackBox) (h : Hook) :
    (b.step h).registry = match h with
      | .agentAuthenticated name fd allocated =>
        if b.config.findIpForAgent name = 0 then b.registry
        else (b.registry.registerAgent name (b.config.findIpForAgent name) fd allocated).2
      | .agentDisconnected fd => b.registry.unregisterByFd fd
      | _ => b.registry := by
  cases h with
  | agentAuthenticated name fd allocated =>
    simp only [step, onAgentAuthenticated_snd]
    split_ifs <;> rfl
  | agentDisconnected fd => rfl
  | routeUpdate destIpv4 fd =>
    simp only [step, onRouteUpdate]
    split_ifs <;> rfl
  | switchDisconnected fd => rfl

theorem run_keeps {α : Type} {f : BlackBox → α}
    (hf : ∀ b registry routing, f { b with registry := registry, routing := routing } = f b)
    (b : BlackBox) (hooks : List Hook) : f (b.run hooks) = f b :=
  Runs.invariant_always (I := fun b' => f b' = f b)
    (fun b' h hb' => (step_keeps hf b' h).trans hb') rfl hooks

theorem run_config (b : BlackBox) (hooks : List Hook) : (b.run hooks).config = b.config :=
  run_keeps (f := config) (fun _ _ _ => rfl) b hooks

theorem run_tunFd (b : BlackBox) (hooks : List Hook) : (b.run hooks).tunFd = b.tunFd :=
  run_keeps (f := tunFd) (fun _ _ _ => rfl) b hooks

structure Registered (b : BlackBox) : Prop where
  indexed : b.registry.Indexed
  ip_eq : ∀ name e, b.registry.findByName name = some e →
    e.virtualIpv4 = b.config.findIpForAgent name
  ip_ne_zero : ∀ name e, b.registry.findByName name = some e → e.virtualIpv4 ≠ 0

theorem Registered.new (config : Config) (tunFd : ℤ) : Registered (new config tunFd) where
  indexed := AgentRegistry.Indexed.empty
  ip_eq name e he := by simp [BlackBox.new] at he
  ip_ne_zero name e he := by simp [BlackBox.new] at he

theorem step_indexed {b : BlackBox} (hb : b.registry.Indexed) (h : Hook) :
    (b.step h).registry.Indexed := by
  rw [step_registry]
  cases h with
  | agentAuthenticated name fd allocated =>
    dsimp only
    split_ifs
    · exact hb
    · apply AgentRegistry.Indexed.keptByRemoval.registerAgent hb
      intro r h hname
      exact h.addEntry hname _ fd
  | agentDisconnected fd => exact AgentRegistry.Indexed.keptByRemoval.unregisterByFd hb fd
  | routeUpdate destIpv4 fd => exact hb
  | switchDisconnected fd => exact hb

/-- After a call, an entry found by name was there before, or the call has just
registered it. -/
theorem findByName_of_step {b : BlackBox} (hb : b.registry.Indexed) {h : Hook} {name : Text}
    {e : AgentEntry} (he : (b.step h).registry.findByName name = some e) :
    b.registry.findByName name = some e ∨
      (e.virtualIpv4 = b.config.findIpForAgent name ∧ b.config.findIpForAgent name ≠ 0 ∧
        h = .agentAuthenticated name e.fd true) := by
  rw [step_registry] at he
  cases h with
  | agentAuthenticated name' fd allocated =>
    dsimp only at he
    split_ifs at he with h0
    · exact Or.inl he
    · rcases hb.findByName_of_registerAgent he with ⟨ha, hname, hip, hfd⟩ | ⟨hold, _⟩
      · rw [hname, hfd, ha]
        exact Or.inr ⟨hip, h0, rfl⟩
      · exact Or.inl hold
  | agentDisconnected fd => exact Or.inl (AgentRegistry.findByName_of_unregisterByFd he)
  | routeUpdate destIpv4 fd => exact Or.inl he
  | switchDisconnected fd => exact Or.inl he

theorem Registered.step {b : BlackBox} (hb : b.Registered) (h : Hook) : (b.step h).Registered := by
  refine ⟨step_indexed hb.indexed h, ?_, ?_⟩
  · intro name e he
    rw [step_config]
    rcases findByName_of_step hb.indexed he with hold | ⟨hip, _, _⟩
    · exact hb.ip_eq name e hold
    · exact hip
  · intro name e he
    rcases findByName_of_step hb.indexed he with hold | ⟨hip, h0, _⟩
    · exact hb.ip_ne_zero name e hold
    · rw [hip]
      exact h0

theorem run_registered (config : Config) (tunFd : ℤ) (hooks : List Hook) :
    ((new config tunFd).run hooks).Registered :=
  Runs.invariant_always (fun _ h hb => hb.step h) (Registered.new config tunFd) hooks

/-- `route_to_destination` drops a packet exactly when a rule is missing. -/
theorem routeToDestination_cases (b : BlackBox) (src dst : UInt32) :
    let d := b.routeToDestination src dst
    (b.config.findAgentForIp dst ≠ [] ∧ b.config.canAgentsCommunicate src dst = true ∧
      (d.action = .deliverLocal ∨ d.action = .forwardSwitch ∨ d.action = .requestRoute)) ∨
    (b.config.findAgentForIp dst = [] ∧ 0 ≤ b.tunFd ∧
      b.config.canReachInternetIp src dst = true ∧ d = .forwardInternet b.tunFd) ∨
    (d.action = .drop ∧
      ¬ (b.config.findAgentForIp dst ≠ [] ∧ b.config.canAgentsCommunicate src dst = true) ∧
      ¬ (b.config.findAgentForIp dst = [] ∧ 0 ≤ b.tunFd ∧
        b.config.canReachInternetIp src dst = true)) := by
  dsimp only
  unfold routeToDestination
  -- an address of the Config is an agent's; only the others can be the internet's
  by_cases hagent : b.config.findAgentForIp dst ≠ []
  · rw [if_pos hagent]
    cases hacl : b.config.canAgentsCommunicate src dst with
    | false => exact Or.inr (Or.inr ⟨rfl, by simp, by simp [hagent]⟩)
    | true =>
      refine Or.inl ⟨hagent, rfl, ?_⟩
      simp only [Bool.not_true, Bool.false_eq_true, if_false]
      split
      · exact Or.inl rfl
      · split_ifs
        · exact Or.inr (Or.inl rfl)
        · exact Or.inr (Or.inr rfl)
  · rw [if_neg hagent]
    have hnil : b.config.findAgentForIp dst = [] := by simpa using hagent
    by_cases htun : b.tunFd < 0
    · rw [if_pos htun]
      exact Or.inr (Or.inr ⟨rfl, by simp [hnil], fun h => absurd h.2.1 (by omega)⟩)
    · rw [if_neg htun]
      cases hacl : b.config.canReachInternetIp src dst with
      | false => exact Or.inr (Or.inr ⟨rfl, by simp [hnil], by simp⟩)
      | true => exact Or.inr (Or.inl ⟨hnil, by omega, rfl, rfl⟩)

/-- What `route_to_destination` can answer, and where each target comes from. -/
theorem routeToDestination_target (b : BlackBox) (src dst : UInt32) :
    let d := b.routeToDestination src dst
    d.action = .drop ∨ (∃ e, b.registry.findByIpv4 dst = some e ∧ d = .deliverLocal e.fd) ∨
      (0 ≤ b.routing.lookup dst ∧ d = .forwardSwitch (b.routing.lookup dst)) ∨
      d = .requestRoute dst ∨ d = .forwardInternet b.tunFd := by
  dsimp only
  unfold routeToDestination
  split_ifs
  · exact Or.inl rfl
  · split
    · next e he => exact Or.inr (Or.inl ⟨e, he, rfl⟩)
    · dsimp only
      split_ifs with hroute
      · exact Or.inr (Or.inr (Or.inl ⟨hroute, rfl⟩))
      · exact Or.inr (Or.inr (Or.inr (Or.inl rfl)))
  · exact Or.inl rfl
  · exact Or.inl rfl
  · exact Or.inr (Or.inr (Or.inr (Or.inr rfl)))

/-- What `process` can answer, whatever the source of the packet. -/
theorem process_target (b : BlackBox) (source : SourceType) (fd : ℤ) (raw : Bytes) :
    let d := b.process source fd raw
    d.action = .drop ∨ ∃ hdr, ipv4Parse raw = some hdr ∧
      ((∃ e, b.registry.findByIpv4 hdr.dstIp = some e ∧ d = .deliverLocal e.fd) ∨
        (0 ≤ b.routing.lookup hdr.dstIp ∧ d = .forwardSwitch (b.routing.lookup hdr.dstIp)) ∨
        d = .requestRoute hdr.dstIp ∨ d = .forwardInternet b.tunFd) := by
  dsimp only
  unfold process
  cases hparse : ipv4Parse raw with
  | none => exact Or.inl rfl
  | some hdr =>
    cases source with
    | agent =>
      dsimp only
      unfold processFromAgent
      split
      · exact Or.inl rfl
      · split_ifs
        · exact Or.inl rfl
        · rcases b.routeToDestination_target _ hdr.dstIp with h | h
          · exact Or.inl h
          · exact Or.inr ⟨hdr, rfl, h⟩
    | switch =>
      dsimp only
      unfold processFromSwitch
      split
      · next e he => exact Or.inr ⟨hdr, rfl, Or.inl ⟨e, he, rfl⟩⟩
      · exact Or.inl rfl
    | tun =>
      dsimp only
      unfold processFromTun
      split
      · exact Or.inl rfl
      · next e he =>
        split_ifs
        · exact Or.inl rfl
        · exact Or.inr ⟨hdr, rfl, Or.inl ⟨e, he, rfl⟩⟩

/-- An agent's packet is dropped, or it parses, comes from the agent that owns
its source address, and is routed. -/
theorem process_agent_cases (b : BlackBox) (fd : ℤ) (raw : Bytes) :
    (b.process .agent fd raw).action = .drop ∨
      ∃ hdr e, ipv4Parse raw = some hdr ∧ b.registry.findByFd fd = some e ∧
        hdr.srcIp = e.virtualIpv4 ∧
        b.process .agent fd raw = b.routeToDestination e.virtualIpv4 hdr.dstIp := by
  unfold process processFromAgent
  cases hparse : ipv4Parse raw with
  | none => exact Or.inl rfl
  | some hdr =>
    cases hfd : b.registry.findByFd fd with
    | none => exact Or.inl rfl
    | some e =>
      by_cases hsrc : hdr.srcIp = e.virtualIpv4
      · exact Or.inr ⟨hdr, e, rfl, rfl, hsrc, if_neg (not_not_intro hsrc)⟩
      · refine Or.inl ?_
        simp only [if_pos (show hdr.srcIp ≠ e.virtualIpv4 from hsrc)]
        rfl

/-- Unless it is dropped as malformed or spoofed, an agent's packet is routed. -/
theorem process_agent_eq {b : BlackBox} {fd : ℤ} {raw : Bytes} {hdr : IPv4Header} {e : AgentEntry}
    (hparse : ipv4Parse raw = some hdr) (he : b.registry.findByFd fd = some e)
    (hsrc : hdr.srcIp = e.virtualIpv4) :
    b.process .agent fd raw = b.routeToDestination hdr.srcIp hdr.dstIp := by
  simp only [process, hparse, processFromAgent, he, hsrc, ne_eq, not_true_eq_false, if_false]

end BlackBox

end VNet.Blackbox
