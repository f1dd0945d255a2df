import VNet.Blackbox.Isolation

namespace VNet.Blackbox

open VNet.Protocol Config

namespace AgentRegistry

/-- The three indices describe the same agents: an entry found in one of them is
found in all, under its own keys. -/
def Consistent (r : AgentRegistry) : Prop :=
  ∀ e, ((∃ name, r.findByName name = some e) ∨ (∃ fd, r.findByFd fd = some e) ∨
      ∃ ip, r.findByIpv4 ip = some e) →
    r.findByName e.name = some e ∧ r.findByFd e.fd = some e ∧ r.findByIpv4 e.virtualIpv4 = some e

structure Linked (r : AgentRegistry) : Prop where
  indexed : r.Indexed
  named_fd : ∀ name e, r.findByName name = some e → r.findByFd e.fd = some e
  named_ip : ∀ name e, r.findByName name = some e → r.findByIpv4 e.virtualIpv4 = some e

variable {r : AgentRegistry} {e : AgentEntry}

theorem Linked.empty : Linked empty where
  indexed := Indexed.empty
  named_fd name e he := by simp at he
  named_ip name e he := by simp at he

theorem Linked.consistent (h : r.Linked) : r.Consistent := by
  intro e he
  have hnamed : r.findByName e.name = some e := by
    rcases he with ⟨name, he⟩ | ⟨fd, he⟩ | ⟨ip, he⟩
    · rw [h.indexed.name_eq name e he]
      exact he
    · exact h.indexed.fd_named fd e he
    · exact h.indexed.ip_named ip e he
  exact ⟨hnamed, h.named_fd _ e hnamed, h.named_ip _ e hnamed⟩

theorem Linked.removeEntry (h : r.Linked) (he : r.findByName e.name = some e) :
    (r.removeEntry e).Linked := by
  refine ⟨h.indexed.removeEntry he, ?_, ?_⟩
  · intro name e' he'
    rw [findByName_removeEntry] at he'
    split_ifs at he' with hne
    have hfd : e'.fd ≠ e.fd := by
      intro heq
      have hsame := h.named_fd name e' he'
      rw [heq, h.named_fd _ e he, Option.some.injEq] at hsame
      rw [← h.indexed.name_eq name e' he', hsame] at hne
      exact hne rfl
    rw [findByFd_removeEntry, if_neg hfd]
    exact h.named_fd name e' he'
  · intro name e' he'
    rw [findByName_removeEntry] at he'
    split_ifs at he' with hne
    have hip : e'.virtualIpv4 ≠ e.virtualIpv4 := by
      intro heq
      have hsame := h.named_ip name e' he'
      rw [heq, h.named_ip _ e he, Option.some.injEq] at hsame
      rw [← h.indexed.name_eq name e' he', hsame] at hne
      exact hne rfl
    rw [findByIpv4_removeEntry, if_neg hip]
    exact h.named_ip name e' he'

theorem Linked.keptByRemoval : KeptByRemoval Linked where
  indexed _ h := h.indexed
  removeEntry _ _ h he := h.removeEntry he

/-- A new entry whose three keys are free. -/
theorem Linked.addEntry (h : r.Linked) {name : Text} {ip : UInt32} {fd : ℤ}
    (hname : r.findByName name = none) (hip : r.findByIpv4 ip = none)
    (hfd : r.findByFd fd = none) : (r.addEntry name ip fd).2.Linked := by
  refine ⟨h.indexed.addEntry hname ip fd, ?_, ?_⟩
  · intro name' e he
    rw [findByName_addEntry] at he
    split_ifs at he
    · rw [← Option.some.inj he, findByFd_addEntry]
      exact if_pos rfl
    · have hold := h.named_fd name' e he
      have hne : e.fd ≠ fd := by
        intro heq
        rw [heq, hfd] at hold
        simp at hold
      rw [findByFd_addEntry, if_neg hne, hold]
  · intro name' e he
    rw [findByName_addEntry] at he
    split_ifs at he
    · rw [← Option.some.inj he, findByIpv4_addEntry]
      exact if_pos rfl
    · have hold := h.named_ip name' e he
      have hne : e.virtualIpv4 ≠ ip := by
        intro heq
        rw [heq, hip] at hold
        simp at hold
      rw [findByIpv4_addEntry, if_neg hne, hold]

end AgentRegistry

namespace BlackBox

/-- An authentication that goes through finds the file descriptor free, or held
by the same agent. -/
def NoClash (b : BlackBox) : Hook → Prop
  | .agentAuthenticated name fd allocated =>
    b.config.findIpForAgent name ≠ 0 → allocated = true →
      ∀ e, b.registry.findByFd fd = some e → e.name = name
  | _ => True

variable {inetPton : Text → Option UInt32} {text : Text} {c : Config}

/-- Agents with the same address are the same agent. -/
theorem findIpForAgent_inj (hc : Loaded inetPton text c) {name name' : Text}
    (h : c.findIpForAgent name = c.findIpForAgent name') (h0 : c.findIpForAgent name ≠ 0) :
    name = name' := by
  have hname := assigns_findIpForAgent hc h0
  rw [h] at h0 hname
  exact assigns_name_unique hc hname (assigns_findIpForAgent hc h0)

theorem Linked.step (hc : Loaded inetPton text c) {b : BlackBox} (hb : b.Registered)
    (hconfig : b.config = c) (h : b.registry.Linked) {hook : Hook} (hhook : NoClash b hook) :
    (b.step hook).registry.Linked := by
  rw [step_registry]
  cases hook with
  | agentAuthenticated name fd allocated =>
    dsimp only
    split_ifs with h0
    · exact h
    · rw [AgentRegistry.registerAgent_snd]
      have hrest := AgentRegistry.Linked.keptByRemoval.unregisterByName h name
      split_ifs with halloc
      · apply hrest.addEntry
        · rw [hb.indexed.findByName_unregisterByName, if_pos rfl]
        · -- whoever has the address has the name
          apply Option.eq_none_iff_forall_not_mem.mpr
          intro e he
          have hnamed := hrest.indexed.ip_named _ e he
          rw [hb.indexed.findByName_unregisterByName] at hnamed
          split_ifs at hnamed with hne
          have hip := hb.ip_eq _ e hnamed
          rw [hrest.indexed.ip_eq _ e he, hconfig] at hip
          rw [hconfig] at h0
          exact hne (findIpForAgent_inj hc hip h0).symm
        · apply Option.eq_none_iff_forall_not_mem.mpr
          intro e he
          have hold := hb.indexed.findByFd_of_unregisterByName he
          exact hold.2 (hhook h0 halloc e hold.1)
      · exact hrest
  | agentDisconnected fd => exact AgentRegistry.Linked.keptByRemoval.unregisterByFd h fd
  | routeUpdate destIpv4 fd => exact h
  | switchDisconnected fd => exact h

/-- A call after which the indices agree was not a clash. -/
theorem noClash_of_consistent {b : BlackBox} (hb : b.Registered) {hook : Hook}
    (h : (b.step hook).registry.Consistent) : NoClash b hook := by
  rw [step_registry] at h
  cases hook with
  | agentAuthenticated name fd allocated =>
    intro h0 halloc e he
    by_contra hne
    dsimp only at h
    rw [if_neg h0, AgentRegistry.registerAgent_snd, if_pos halloc] at h
    -- the other agent keeps its name and its file descriptor, which is no longer its own
    have hnamed : (((b.registry.unregisterByName name).addEntry name
        (b.config.findIpForAgent name) fd).2).findByName e.name = some e := by
      rw [AgentRegistry.findByName_addEntry, if_neg hne, hb.indexed.findByName_unregisterByName,
        if_neg hne]
      exact hb.indexed.fd_named fd e he
    have hfd := (h e (Or.inl ⟨_, hnamed⟩)).2.1
    rw [AgentRegistry.findByFd_addEntry, if_pos (hb.indexed.fd_eq fd e he)] at hfd
    apply hne
    rw [← Option.some.inj hfd]
    rfl
  | agentDisconnected fd => trivial
  | routeUpdate destIpv4 fd => trivial
  | switchDisconnected fd => trivial

theorem linked_run (hc : Loaded inetPton text c) (tunFd : ℤ) {hooks : List Hook}
    (h : Runs.Steps step NoClash (new c tunFd) hooks) :
    ((new c tunFd).run hooks).registry.Linked := by
  have hstep : ∀ b hook, (b.Registered ∧ b.config = c ∧ b.registry.Linked) → NoClash b hook →
      ((b.step hook).Registered ∧ (b.step hook).config = c ∧ (b.step hook).registry.Linked) := by
    intro b hook hb hhook
    refine ⟨hb.1.step hook, ?_, Linked.step hc hb.1 hb.2.1 hb.2.2 hhook⟩
    rw [step_config, hb.2.1]
  exact (Runs.invariant hstep ⟨Registered.new c tunFd, rfl, AgentRegistry.Linked.empty⟩ h).2.2

/-- The indices agree all along a run exactly when no authentication clashes. -/
theorem steps_noClash_iff (hc : Loaded inetPton text c) (tunFd : ℤ) (hooks : List Hook) :
    Runs.Steps step NoClash (new c tunFd) hooks ↔
      ∀ pre, pre <+: hooks → ((new c tunFd).run pre).registry.Consistent := by
  constructor
  · rintro h pre ⟨rest, rfl⟩
    rw [Runs.steps_append] at h
    exact (linked_run hc tunFd h.1).consistent
  · intro h
    rw [Runs.steps_iff_forall]
    intro before hook after heq
    apply noClash_of_consistent (run_registered c tunFd before)
    have hafter := h (before ++ [hook]) ⟨after, by simp [heq]⟩
    rw [run, Runs.run_concat] at hafter
    exact hafter

def Hook.OfAgent : Hook → Prop
  | .agentAuthenticated _ _ _ => True
  | .agentDisconnected _ => True
  | _ => False

/-- What is delivered locally goes to the agent registered on the target that
has the packet's destination for its address. -/
def DeliversToOwner (b : BlackBox) : Prop :=
  ∀ source fd raw hdr, ipv4Parse raw = some hdr →
    (b.process source fd raw).action = .deliverLocal →
    ∃ e, b.registry.findByFd (b.process source fd raw).targetFd = some e ∧
      e.virtualIpv4 = hdr.dstIp ∧ b.config.findIpForAgent e.name = hdr.dstIp

def Untargeted (fd : ℤ) (b : BlackBox) : Prop :=
  ∀ source sourceFd raw, (b.process source sourceFd raw).targetFd = fd →
    (b.process source sourceFd raw).action = .drop ∨
      (b.process source sourceFd raw).action = .requestRoute ∨
      ((b.process source sourceFd raw).action = .forwardInternet ∧ fd = b.tunFd)

def NotAuthenticatedOn (fd : ℤ) (b : BlackBox) : Hook → Prop
  | .agentAuthenticated name fd' allocated =>
    fd' = fd → (b.onAgentAuthenticated name fd' allocated).1 = false
  | _ => True

/-- Along a run the indices agree, deliveries reach the owner of the address, and
a disconnected file descriptor is no target until someone authenticates on it. -/
structure RightAgent (b : BlackBox) (hooks : List Hook) : Prop where
  consistent : ∀ pre, pre <+: hooks → (b.run pre).registry.Consistent
  delivers : ∀ pre, pre <+: hooks → DeliversToOwner (b.run pre)
  disconnected : ∀ before fd after, before ++ .agentDisconnected fd :: after <+: hooks →
    Runs.Steps step (NotAuthenticatedOn fd) ((b.run before).onAgentDisconnected fd) after →
    Untargeted fd (b.run (before ++ .agentDisconnected fd :: after))

theorem DeliversToOwner.of_consistent {b : BlackBox} (hb : b.Registered)
    (h : b.registry.Consistent) : DeliversToOwner b := by
  intro source fd raw hdr hparse hact
  rcases b.process_target source fd raw with hd | ⟨hdr', hparse', htarget⟩
  · rw [hact] at hd
    simp at hd
  · rw [hparse, Option.some.injEq] at hparse'
    rw [← hparse'] at htarget
    rcases htarget with ⟨e, he, hd⟩ | ⟨_, hd⟩ | hd | hd
    · have hall := h e (Or.inr (Or.inr ⟨_, he⟩))
      have hip := hb.indexed.ip_eq _ e he
      rw [hd]
      exact ⟨e, hall.2.1, hip, by rw [← hb.ip_eq _ e hall.1, hip]⟩
    all_goals
      rw [hd] at hact
      exact absurd hact (by simp [PacketDecision.forwardSwitch, PacketDecision.requestRoute,
        PacketDecision.forwardInternet])

/-- Without an entry and without a route, a file descriptor is no target. -/
theorem Untargeted.of_free {b : BlackBox} {fd : ℤ} (h : b.registry.Consistent)
    (hfd : b.registry.findByFd fd = none) (hroute : ∀ dst, b.routing.lookup dst < 0) :
    Untargeted fd b := by
  intro source sourceFd raw htarget
  rcases b.process_target source sourceFd raw with hd | ⟨hdr, _, hd⟩
  · exact Or.inl hd
  · rcases hd with ⟨e, he, hd⟩ | ⟨hle, _⟩ | hd | hd
    · have hall := h e (Or.inr (Or.inr ⟨_, he⟩))
      rw [hd] at htarget
      rw [show e.fd = fd from htarget, hfd] at hall
      exact absurd hall.2.1 (by simp)
    · have hlt := hroute hdr.dstIp
      omega
    · rw [hd]
      exact Or.inr (Or.inl rfl)
    · rw [hd] at htarget ⊢
      exact Or.inr (Or.inr ⟨rfl, htarget.symm⟩)

theorem findByFd_onAgentDisconnected {b : BlackBox} (hb : b.Registered) (fd : ℤ) :
    (b.onAgentDisconnected fd).registry.findByFd fd = none := by
  apply Option.eq_none_iff_forall_not_mem.mpr
  intro e he
  exact (hb.indexed.findByFd_of_unregisterByFd he).2 rfl

theorem findByFd_none_step {b : BlackBox} (hb : b.Registered) {fd : ℤ} {hook : Hook}
    (h : b.registry.findByFd fd = none) (hhook : NotAuthenticatedOn fd b hook) :
    (b.step hook).registry.findByFd fd = none := by
  apply Option.eq_none_iff_forall_not_mem.mpr
  intro e he
  rcases findByFd_of_step hb he with ⟨hold, _⟩ | ⟨allocated, rfl, hok⟩
  · rw [h] at hold
    simp at hold
  · have hfail := hhook rfl
    rw [hok] at hfail
    simp at hfail

theorem run_no_route (config : Config) (tunFd : ℤ) {hooks : List Hook}
    (h : ∀ hook ∈ hooks, hook.OfAgent) (dst : UInt32) :
    ((new config tunFd).run hooks).routing.lookup dst < 0 := by
  have hempty : ((new config tunFd).run hooks).routing = .empty := by
    induction hooks using List.reverseRecOn with
    | nil => rfl
    | append_singleton hooks hook ih =>
      have hrest := ih fun hook' hmem => h hook' (List.mem_append_left _ hmem)
      have hlast := h hook (by simp)
      rw [run, Runs.run_concat]
      cases hook with
      | agentAuthenticated name fd allocated =>
        simp only [step, onAgentAuthenticated_snd]
        split_ifs
        · exact hrest
        · exact hrest
      | agentDisconnected fd => exact hrest
      | routeUpdate destIpv4 fd => exact hlast.elim
      | switchDisconnected fd => exact hlast.elim
  rw [hempty]
  show (-1 : ℤ) < 0
  omega

/-- The black box delivers to the right agent along a run exactly when no agent
is authenticated on a file descriptor that another agent holds. -/
theorem right_agent_iff_noClash (inetPton : Text → Option UInt32) {text : Text} {c₀ c : Config}
    (hload : load inetPton (some text) c₀ = (.ok (), c)) (tunFd : ℤ) (hooks : List Hook)
    (hhooks : ∀ hook ∈ hooks, hook.OfAgent) :
    RightAgent (new c tunFd) hooks ↔ Runs.Steps step NoClash (new c tunFd) hooks := by
  have hc := load_loaded inetPton hload
  rw [steps_noClash_iff hc]
  constructor
  · intro h
    exact h.consistent
  · intro h
    refine ⟨h, ?_, ?_⟩
    · intro pre hpre
      exact DeliversToOwner.of_consistent (run_registered c tunFd pre) (h pre hpre)
    · intro before fd after hpre hafter
      apply Untargeted.of_free (h _ hpre)
      · rw [run, Runs.run_append, Runs.run_cons]
        have hreg := run_registered c tunFd before
        have hstep : ∀ b hook, (b.Registered ∧ b.registry.findByFd fd = none) →
            NotAuthenticatedOn fd b hook →
            ((b.step hook).Registered ∧ (b.step hook).registry.findByFd fd = none) := by
          intro b hook hb hhook
          exact ⟨hb.1.step hook, findByFd_none_step hb.1 hb.2 hhook⟩
        exact (Runs.invariant hstep
          ⟨hreg.step (.agentDisconnected fd), findByFd_onAgentDisconnected hreg fd⟩ hafter).2
      · apply run_no_route
        intro hook hmem
        exact hhooks hook (hpre.subset hmem)

theorem right_agent_iff_noClash_pair :
    RightAgent (new (load pairAddress (some pairFile) .empty).2 (-1))
      [.agentAuthenticated ['a'] 5 true, .agentAuthenticated ['b'] 6 true,
        .agentDisconnected 5, .agentAuthenticated ['b'] 5 true] := by
  have hload : load pairAddress (some pairFile) .empty =
      (.ok (), (load pairAddress (some pairFile) .empty).2) := Prod.ext (by decide) rfl
  apply (right_agent_iff_noClash pairAddress hload (-1) _ ?_).mpr
  · refine ⟨?_, ?_, trivial, ?_, trivial⟩
    all_goals
      intro _ _ e he
      exact absurd he (by decide +revert)
  · simp [Hook.OfAgent]

/-- Two agents authenticated on one file descriptor: when it disconnects, one of
them stays registered, and its packets are still delivered there. -/
theorem shared_fd_targeted_after_disconnect :
    (load pairAddress (some pairFile) .empty).1 = .ok () ∧
    ¬ RightAgent (new (load pairAddress (some pairFile) .empty).2 (-1))
      [.agentAuthenticated ['b'] 5 true, .agentAuthenticated ['a'] 5 true,
        .agentDisconnected 5] := by
  refine ⟨by decide, ?_⟩
  intro h
  have hfree := h.disconnected
    [.agentAuthenticated ['b'] 5 true, .agentAuthenticated ['a'] 5 true] 5 []
    (List.prefix_refl _) trivial .switch 9 pairPacket (by decide)
  exact absurd hfree (by decide)

end BlackBox

end VNet.Blackbox
