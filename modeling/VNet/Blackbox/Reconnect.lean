import VNet.Blackbox.Delivery

namespace VNet.Blackbox
namespace BlackBox

open VNet.Protocol Config

/-- The lookups for an agent, its address and a file descriptor are the same in
both states. -/
structure SameAgent (b b' : BlackBox) (name : Text) (ip : UInt32) (fd : ℤ) : Prop where
  findByName : b'.registry.findByName name = b.registry.findByName name
  findByIpv4 : b'.registry.findByIpv4 ip = b.registry.findByIpv4 ip
  findByFd : b'.registry.findByFd fd = b.registry.findByFd fd

variable {inetPton : Text → Option UInt32} {text : Text} {c : Config}

/-- The disconnect of another file descriptor removes an entry of another name,
and so of another address. -/
theorem onAgentDisconnected_frame (hc : Loaded inetPton text c) {b : BlackBox} (hb : b.Registered)
    (hconfig : b.config = c) {name : Text} {f g : ℤ} (hfg : g ≠ f)
    (hname : ∀ e, b.registry.findByName name = some e → e.fd ≠ g) :
    SameAgent b (b.onAgentDisconnected g) name (c.findIpForAgent name) f := by
  simp only [onAgentDisconnected, AgentRegistry.unregisterByFd]
  cases hfd : b.registry.findByFd g with
  | none => exact ⟨rfl, rfl, rfl⟩
  | some e =>
    have hnamed := hb.indexed.fd_named g e hfd
    have hg := hb.indexed.fd_eq g e hfd
    have hne : name ≠ e.name := by
      rintro rfl
      exact hname e hnamed hg
    have hip : c.findIpForAgent name ≠ e.virtualIpv4 := by
      intro heq
      have h0 := hb.ip_ne_zero _ e hnamed
      have hown := hb.ip_eq _ e hnamed
      rw [hconfig] at hown
      rw [← heq] at h0
      exact hne (findIpForAgent_inj hc (heq.trans hown) h0)
    refine ⟨?_, ?_, ?_⟩
    · exact (AgentRegistry.findByName_removeEntry _ _ _).trans (if_neg hne)
    · exact (AgentRegistry.findByIpv4_removeEntry _ _ _).trans (if_neg hip)
    · refine (AgentRegistry.findByFd_removeEntry _ _ _).trans (if_neg ?_)
      rw [hg]
      exact hfg.symm

/-- After an authentication on `fd` the name stands for `fd`, if for anything. -/
theorem findByName_onAgentAuthenticated {b : BlackBox} (hb : b.Registered) {name : Text} {fd : ℤ}
    {allocated : Bool} {e : AgentEntry}
    (he : (b.step (.agentAuthenticated name fd allocated)).registry.findByName name = some e) :
    e.fd = fd := by
  rw [step_registry] at he
  dsimp only at he
  split_ifs at he with h0
  · have hip := hb.ip_eq name e he
    exact absurd (hip.trans h0) (hb.ip_ne_zero name e he)
  · rcases hb.indexed.findByName_of_registerAgent he with ⟨-, -, -, hfd⟩ | ⟨-, hne⟩
    · exact hfd
    · exact absurd rfl hne

/-- An agent registered on one file descriptor does not notice the disconnect of
another, as it is after a reconnect when the old connection closes late. -/
theorem late_disconnect_harmless (inetPton : Text → Option UInt32) {text : Text} {c₀ c : Config}
    (hload : load inetPton (some text) c₀ = (.ok (), c)) (tunFd : ℤ) (hooks : List Hook) :
    (∀ name e g, ((new c tunFd).run hooks).registry.findByName name = some e → g ≠ e.fd →
      SameAgent ((new c tunFd).run hooks) (((new c tunFd).run hooks).onAgentDisconnected g)
        name e.virtualIpv4 e.fd) ∧
    ∀ name f g allocated allocated' before between, f ≠ g →
      hooks = before ++ .agentAuthenticated name g allocated :: between ++
        [.agentAuthenticated name f allocated'] →
      SameAgent ((new c tunFd).run hooks) (((new c tunFd).run hooks).onAgentDisconnected g)
        name (c.findIpForAgent name) f := by
  have hc := load_loaded inetPton hload
  have hb := run_registered c tunFd hooks
  have hconfig := run_config (new c tunFd) hooks
  constructor
  · intro name e g he hg
    have hip := hb.ip_eq name e he
    rw [hconfig] at hip
    rw [hip]
    refine onAgentDisconnected_frame hc hb hconfig hg fun e' he' => ?_
    rw [he, Option.some.injEq] at he'
    rw [← he']
    exact hg.symm
  · rintro name f g allocated allocated' before between hfg rfl
    refine onAgentDisconnected_frame hc hb hconfig hfg.symm fun e he => ?_
    rw [run, Runs.run_concat] at he
    rw [findByName_onAgentAuthenticated (run_registered c tunFd _) he]
    exact hfg

/-- An agent that moves from one file descriptor to another, while a second one
takes over the first before it closes. -/
theorem late_disconnect_harmless_pair :
    SameAgent
      ((new (load pairAddress (some pairFile) .empty).2 (-1)).run
        [.agentAuthenticated ['a'] 5 true, .agentAuthenticated ['b'] 5 true,
          .agentAuthenticated ['a'] 6 true])
      (((new (load pairAddress (some pairFile) .empty).2 (-1)).run
        [.agentAuthenticated ['a'] 5 true, .agentAuthenticated ['b'] 5 true,
          .agentAuthenticated ['a'] 6 true]).onAgentDisconnected 5)
      ['a'] ((load pairAddress (some pairFile) .empty).2.findIpForAgent ['a']) 6 := by
  have hload : load pairAddress (some pairFile) .empty =
      (.ok (), (load pairAddress (some pairFile) .empty).2) := Prod.ext (by decide) rfl
  exact (late_disconnect_harmless pairAddress hload (-1) _).2 ['a'] 6 5 true true []
    [.agentAuthenticated ['b'] 5 true] (by decide) rfl

end BlackBox

end VNet.Blackbox
