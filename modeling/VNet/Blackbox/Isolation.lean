import VNet.Blackbox.Loaded
import VNet.Blackbox.Process

namespace VNet.Blackbox.BlackBox

open VNet.Protocol Config

/-- The call neither disconnects `fd`, nor authenticates `name` elsewhere, nor
succeeds in authenticating anyone on `fd`. -/
def Undisturbed (name : Text) (fd : ℤ) (b : BlackBox) : Hook → Prop
  | .agentAuthenticated name' fd' allocated =>
    (name' = name → fd' = fd) ∧
      (fd' = fd → (b.onAgentAuthenticated name' fd' allocated).1 = false)
  | .agentDisconnected fd' => fd' ≠ fd
  | _ => True

/-- The latest successful authentication on `fd` is that of `name`, and it was
not taken back since. -/
def LatestOn (b : BlackBox) (hooks : List Hook) (name : Text) (fd : ℤ) : Prop :=
  ∃ before allocated after, hooks = before ++ .agentAuthenticated name fd allocated :: after ∧
    ((b.run before).onAgentAuthenticated name fd allocated).1 = true ∧
    Runs.Steps step (Undisturbed name fd)
      ((b.run before).onAgentAuthenticated name fd allocated).2 after

theorem LatestOn.last {b : BlackBox} {hooks : List Hook} {name : Text} {fd : ℤ} {allocated : Bool}
    (h : ((b.run hooks).onAgentAuthenticated name fd allocated).1 = true) :
    LatestOn b (hooks ++ [.agentAuthenticated name fd allocated]) name fd :=
  ⟨hooks, allocated, [], rfl, h, trivial⟩

theorem LatestOn.snoc {b : BlackBox} {hooks : List Hook} {name : Text} {fd : ℤ} {h : Hook}
    (hl : LatestOn b hooks name fd) (hu : Undisturbed name fd (b.run hooks) h) :
    LatestOn b (hooks ++ [h]) name fd := by
  obtain ⟨before, allocated, after, heq, hok, hsteps⟩ := hl
  refine ⟨before, allocated, after ++ [h], by simp [heq], hok, ?_⟩
  rw [Runs.steps_append]
  refine ⟨hsteps, ?_, trivial⟩
  rw [heq, run, Runs.run_append, Runs.run_cons] at hu
  exact hu

/-- After a call, an entry found by file descriptor was there before and is left
alone, or the call has just registered it. -/
theorem findByFd_of_step {b : BlackBox} (hb : b.Registered) {h : Hook} {fd : ℤ} {e : AgentEntry}
    (he : (b.step h).registry.findByFd fd = some e) :
    (b.registry.findByFd fd = some e ∧ Undisturbed e.name fd b h) ∨
      ∃ allocated, h = .agentAuthenticated e.name fd allocated ∧
        (b.onAgentAuthenticated e.name fd allocated).1 = true := by
  rw [step_registry] at he
  cases h with
  | agentAuthenticated name fd' allocated =>
    dsimp only at he
    split_ifs at he with h0
    · refine Or.inl ⟨he, ?_, ?_⟩
      · -- a name without an address is never registered
        intro hname
        have hnamed := hb.indexed.fd_named fd e he
        have hne := hb.ip_ne_zero _ e hnamed
        rw [hb.ip_eq _ e hnamed, ← hname] at hne
        exact absurd h0 hne
      · intro _
        simp [onAgentAuthenticated_fst, h0]
    · rcases hb.indexed.findByFd_of_registerAgent he with ⟨ha, hfd, hname⟩ | ⟨hold, hne, hfd⟩
      · refine Or.inr ⟨allocated, ?_, ?_⟩
        · rw [hname, hfd]
        · simp [onAgentAuthenticated_fst, hname, h0, ha]
      · refine Or.inl ⟨hold, fun heq => absurd heq.symm hne, ?_⟩
        intro heq
        rw [onAgentAuthenticated_fst]
        cases allocated with
        | false => simp
        | true => exact absurd heq.symm (hfd rfl)
  | agentDisconnected fd' =>
    have hold := hb.indexed.findByFd_of_unregisterByFd he
    exact Or.inl ⟨hold.1, hold.2.symm⟩
  | routeUpdate destIpv4 fd' => exact Or.inl ⟨he, trivial⟩
  | switchDisconnected fd' => exact Or.inl ⟨he, trivial⟩

/-- In every run, the entry of a file descriptor is that of the latest successful
authentication on it, still in force. -/
theorem latestOn_of_findByFd {config : Config} {tunFd : ℤ} {hooks : List Hook} {fd : ℤ}
    {e : AgentEntry} (he : ((new config tunFd).run hooks).registry.findByFd fd = some e) :
    LatestOn (new config tunFd) hooks e.name fd := by
  induction hooks using List.reverseRecOn with
  | nil => simp [BlackBox.new] at he
  | append_singleton hooks h ih =>
    rw [run, Runs.run_concat] at he
    rcases findByFd_of_step (run_registered config tunFd hooks) he with
      ⟨hold, hu⟩ | ⟨allocated, rfl, hok⟩
    · exact (ih hold).snoc hu
    · exact LatestOn.last hok

def OnlyOn (name : Text) (fd : ℤ) (b : BlackBox) : Prop :=
  ∀ name' e, b.registry.findByName name' = some e → e.fd = fd → name' = name

theorem OnlyOn.step {name : Text} {fd : ℤ} {b : BlackBox} (hb : b.Registered)
    (h : OnlyOn name fd b) {hook : Hook}
    (hhook : ∀ name' allocated, hook = .agentAuthenticated name' fd allocated → name' = name) :
    OnlyOn name fd (b.step hook) := by
  intro name' e he hfd
  rcases findByName_of_step hb.indexed he with hold | ⟨_, _, hnew⟩
  · exact h name' e hold hfd
  · rw [hfd] at hnew
    exact hhook name' true hnew

def Elsewhere (name : Text) (fd : ℤ) : Hook → Prop
  | .agentAuthenticated name' fd' _ => name' ≠ name ∧ fd' ≠ fd
  | .agentDisconnected fd' => fd' ≠ fd
  | _ => True

theorem findByFd_step_elsewhere {name : Text} {fd : ℤ} {b : BlackBox} (hb : b.Registered)
    (honly : OnlyOn name fd b) {hook : Hook} (hhook : Elsewhere name fd hook) {e : AgentEntry}
    (he : b.registry.findByFd fd = some e) : (b.step hook).registry.findByFd fd = some e := by
  rw [step_registry]
  cases hook with
  | agentAuthenticated name' fd' allocated =>
    dsimp only
    have hunregister : (b.registry.unregisterByName name').findByFd fd = some e := by
      unfold AgentRegistry.unregisterByName
      cases hn : b.registry.findByName name' with
      | none => exact he
      | some e' =>
        -- the entry removed is of another agent, so it is on another fd
        have hfd : fd ≠ e'.fd := fun heq => hhook.1 (honly name' e' hn heq.symm)
        dsimp only
        rw [AgentRegistry.findByFd_removeEntry, if_neg hfd, he]
    split_ifs
    · exact he
    · rw [AgentRegistry.registerAgent_snd]
      split_ifs
      · rw [AgentRegistry.findByFd_addEntry, if_neg hhook.2.symm, hunregister]
      · exact hunregister
  | agentDisconnected fd' =>
    dsimp only
    unfold AgentRegistry.unregisterByFd
    cases hf : b.registry.findByFd fd' with
    | none => exact he
    | some e' =>
      dsimp only
      have hfd : fd ≠ e'.fd := by
        rw [hb.indexed.fd_eq fd' e' hf]
        exact hhook.symm
      rw [AgentRegistry.findByFd_removeEntry, if_neg hfd, he]
  | routeUpdate destIpv4 fd' => exact he
  | switchDisconnected fd' => exact he

/-- A successful authentication enters the agent under its file descriptor. -/
theorem findByFd_onAgentAuthenticated {b : BlackBox} {name : Text} {fd : ℤ} {allocated : Bool}
    (h : (b.onAgentAuthenticated name fd allocated).1 = true) :
    ∃ e, (b.onAgentAuthenticated name fd allocated).2.registry.findByFd fd = some e ∧
      e.name = name ∧ e.virtualIpv4 = b.config.findIpForAgent name := by
  rw [onAgentAuthenticated_fst, Bool.and_eq_true, decide_eq_true_eq] at h
  rw [onAgentAuthenticated_snd, if_neg h.1]
  dsimp only
  rw [AgentRegistry.registerAgent_snd, if_pos h.2, AgentRegistry.findByFd_addEntry, if_pos rfl]
  exact ⟨_, rfl, rfl, rfl⟩

def HeldAlone (b : BlackBox) (hooks : List Hook) (name : Text) (fd : ℤ) : Prop :=
  ∃ before allocated after, hooks = before ++ .agentAuthenticated name fd allocated :: after ∧
    ((b.run before).onAgentAuthenticated name fd allocated).1 = true ∧
    (∀ name' allocated', .agentAuthenticated name' fd allocated' ∈ before → name' = name) ∧
    ∀ hook ∈ after, Elsewhere name fd hook

theorem onlyOn_run {config : Config} {tunFd : ℤ} {hooks : List Hook} {name : Text} {fd : ℤ}
    (h : ∀ name' allocated, .agentAuthenticated name' fd allocated ∈ hooks → name' = name) :
    OnlyOn name fd ((new config tunFd).run hooks) := by
  induction hooks using List.reverseRecOn with
  | nil =>
    intro name' e he
    simp [BlackBox.new] at he
  | append_singleton hooks hook ih =>
    rw [run, Runs.run_concat]
    apply OnlyOn.step (run_registered config tunFd hooks)
    · apply ih
      intro name' allocated hmem
      exact h name' allocated (List.mem_append_left _ hmem)
    · intro name' allocated heq
      apply h name' allocated
      simp [heq]

/-- An agent that holds its file descriptor alone is found there. -/
theorem findByFd_of_heldAlone {config : Config} {tunFd : ℤ} {hooks : List Hook} {name : Text}
    {fd : ℤ} (h : HeldAlone (new config tunFd) hooks name fd) :
    ∃ e, ((new config tunFd).run hooks).registry.findByFd fd = some e ∧ e.name = name ∧
      e.virtualIpv4 = config.findIpForAgent name := by
  obtain ⟨before, allocated, after, heq, hok, hbefore, hafter⟩ := h
  obtain ⟨e, he, hname, hip⟩ := findByFd_onAgentAuthenticated hok
  rw [run_config] at hip
  refine ⟨e, ?_, hname, hip⟩
  rw [heq, run, Runs.run_append, Runs.run_cons]
  have hreg := run_registered config tunFd before
  have hsteps : Runs.Steps step (fun _ hook => Elsewhere name fd hook)
      (((new config tunFd).run before).step (.agentAuthenticated name fd allocated)) after := by
    rw [Runs.steps_iff_forall]
    intro as hook bs hafter_eq
    apply hafter
    simp [hafter_eq]
  have honly : OnlyOn name fd
      (((new config tunFd).run before).step (.agentAuthenticated name fd allocated)) := by
    apply OnlyOn.step hreg (onlyOn_run hbefore)
    intro name' allocated' hhook
    injection hhook with hname'
    exact hname'.symm
  -- the registration is kept by every later call
  have hkept : ∀ b hook, (b.Registered ∧ OnlyOn name fd b ∧ b.registry.findByFd fd = some e) →
      Elsewhere name fd hook → ((b.step hook).Registered ∧ OnlyOn name fd (b.step hook) ∧
        (b.step hook).registry.findByFd fd = some e) := by
    intro b hook hb hhook
    refine ⟨hb.1.step hook, hb.2.1.step hb.1 ?_, findByFd_step_elsewhere hb.1 hb.2.1 hhook hb.2.2⟩
    intro name' allocated' hauth
    rw [hauth] at hhook
    exact absurd rfl hhook.2
  exact (Runs.invariant hkept ⟨hreg.step _, honly, he⟩ hsteps).2.2

section
variable (inetPton : Text → Option UInt32)

/-- The file lets the agent `name` reach `dst`: another agent named with it in a
rule line, or an internet address of its own when there is a TUN device. -/
def AgentPermitted (text name : Text) (dst : UInt32) : Prop :=
  ∃ other, Assigns inetPton text other dst ∧
    (AgentRule inetPton text name other ∨ AgentRule inetPton text other name)

def InternetPermitted (text : Text) (tunFd : ℤ) (name : Text) (dst : UInt32) : Prop :=
  (∀ other, ¬ Assigns inetPton text other dst) ∧ 0 ≤ tunFd ∧ InternetRule inetPton text name dst

variable {inetPton} {text : Text} {c : Config}

theorem findAgentForIp_ne_nil_iff (hc : Loaded inetPton text c) (ip : UInt32) :
    c.findAgentForIp ip ≠ [] ↔ ∃ name, Assigns inetPton text name ip := by
  unfold findAgentForIp
  cases hl : c.ipToName.lookup ip with
  | none =>
    have hnone : ∀ name, ¬ Assigns inetPton text name ip := by
      intro name hname
      rw [← hc.ip_iff, hl] at hname
      simp at hname
    simp [hnone]
  | some name =>
    have hassign := (hc.ip_iff ip name).mp hl
    have hne : name ≠ [] := hc.name_ne_nil name ip hassign
    simp only [Option.getD_some]
    exact ⟨fun _ => ⟨name, hassign⟩, fun _ => hne⟩

theorem assigns_findIpForAgent (hc : Loaded inetPton text c) {name : Text}
    (h0 : c.findIpForAgent name ≠ 0) : Assigns inetPton text name (c.findIpForAgent name) := by
  unfold findIpForAgent at h0 ⊢
  cases hl : c.nameToIp.lookup name with
  | none => simp [hl] at h0
  | some ip => exact (hc.name_iff name ip).mp hl

theorem findIpForAgent_of_assigns (hc : Loaded inetPton text c) {name : Text} {ip : UInt32}
    (h : Assigns inetPton text name ip) : c.findIpForAgent name = ip := by
  rw [← hc.name_iff] at h
  simp [findIpForAgent, h]

theorem assigns_name_unique (hc : Loaded inetPton text c) {name name' : Text} {ip : UInt32}
    (h : Assigns inetPton text name ip) (h' : Assigns inetPton text name' ip) : name = name' := by
  rw [← hc.ip_iff] at h h'
  exact Option.some.inj (h.symm.trans h')

theorem canAgentsCommunicate_iff_permitted (hc : Loaded inetPton text c) {name : Text}
    {src dst : UInt32} (hsrc : Assigns inetPton text name src) :
    c.findAgentForIp dst ≠ [] ∧ c.canAgentsCommunicate src dst = true ↔
      AgentPermitted inetPton text name dst := by
  rw [findAgentForIp_ne_nil_iff hc, hc.agent_iff]
  constructor
  · rintro ⟨_, first, other, hrule, hfirst, hother⟩
    rw [assigns_name_unique hc hfirst hsrc] at hrule
    exact ⟨other, hother, hrule⟩
  · rintro ⟨other, hother, hrule⟩
    exact ⟨⟨other, hother⟩, name, other, hrule, hsrc, hother⟩

theorem canReachInternetIp_iff_permitted (hc : Loaded inetPton text c) {name : Text} {tunFd : ℤ}
    {src dst : UInt32} (hsrc : Assigns inetPton text name src) :
    c.findAgentForIp dst = [] ∧ 0 ≤ tunFd ∧ c.canReachInternetIp src dst = true ↔
      InternetPermitted inetPton text tunFd name dst := by
  have hnil : c.findAgentForIp dst = [] ↔ ∀ other, ¬ Assigns inetPton text other dst := by
    rw [← not_exists, ← findAgentForIp_ne_nil_iff hc, not_not]
  rw [hnil, hc.internet_iff]
  constructor
  · rintro ⟨hnone, htun, other, hrule, hother⟩
    rw [assigns_name_unique hc hother hsrc] at hrule
    exact ⟨hnone, htun, hrule⟩
  · rintro ⟨hnone, htun, hrule⟩
    exact ⟨hnone, htun, name, hrule, hsrc⟩

theorem routeToDestination_permitted (hc : Loaded inetPton text c) {b : BlackBox}
    (hb : b.config = c) {name : Text} {src : UInt32} (hsrc : Assigns inetPton text name src)
    (dst : UInt32) :
    let d := b.routeToDestination src dst
    (AgentPermitted inetPton text name dst ∧
      (d.action = .deliverLocal ∨ d.action = .forwardSwitch ∨ d.action = .requestRoute)) ∨
    (InternetPermitted inetPton text b.tunFd name dst ∧ d = .forwardInternet b.tunFd) ∨
    (d.action = .drop ∧ ¬ AgentPermitted inetPton text name dst ∧
      ¬ InternetPermitted inetPton text b.tunFd name dst) := by
  have hcases := b.routeToDestination_cases src dst
  dsimp only at hcases ⊢
  rw [hb] at hcases
  rw [← canAgentsCommunicate_iff_permitted hc hsrc, ← canReachInternetIp_iff_permitted hc hsrc]
  rcases hcases with ⟨h₁, h₂, h₃⟩ | ⟨h₁, h₂, h₃, h₄⟩ | h
  · exact Or.inl ⟨⟨h₁, h₂⟩, h₃⟩
  · exact Or.inr (Or.inl ⟨⟨h₁, h₂, h₃⟩, h₄⟩)
  · exact Or.inr (Or.inr h)

/-- The entry of a file descriptor has the address the file assigns to its name. -/
theorem assigns_of_findByFd (hc : Loaded inetPton text c) {tunFd : ℤ} {hooks : List Hook} {fd : ℤ}
    {e : AgentEntry} (he : ((new c tunFd).run hooks).registry.findByFd fd = some e) :
    Assigns inetPton text e.name e.virtualIpv4 := by
  have hreg := run_registered c tunFd hooks
  have hnamed := hreg.indexed.fd_named fd e he
  have hip := hreg.ip_eq e.name e hnamed
  have h0 := hreg.ip_ne_zero e.name e hnamed
  rw [run_config] at hip
  rw [hip] at h0 ⊢
  exact assigns_findIpForAgent hc h0

end

/-- A packet of an agent is acted upon only when its source is the address of
the agent that holds the file descriptor and the file permits the destination;
and a packet of which this is so is not dropped. -/
theorem agent_packet_isolated (inetPton : Text → Option UInt32) {text : Text} {c₀ c : Config}
    (hload : load inetPton (some text) c₀ = (.ok (), c)) (tunFd : ℤ) (hooks : List Hook) (fd : ℤ)
    (raw : Bytes) :
    let b := (new c tunFd).run hooks
    let d := b.process .agent fd raw
    (d.action ≠ .drop → ∃ hdr name, ipv4Parse raw = some hdr ∧
      LatestOn (new c tunFd) hooks name fd ∧ Assigns inetPton text name hdr.srcIp ∧
      ((AgentPermitted inetPton text name hdr.dstIp ∧
          (d.action = .deliverLocal ∨ d.action = .forwardSwitch ∨ d.action = .requestRoute)) ∨
        (InternetPermitted inetPton text tunFd name hdr.dstIp ∧ d = .forwardInternet tunFd))) ∧
    (∀ hdr name, ipv4Parse raw = some hdr → Assigns inetPton text name hdr.srcIp →
      ((∃ e, b.registry.findByFd fd = some e ∧ e.name = name) ∨
        HeldAlone (new c tunFd) hooks name fd) →
      (AgentPermitted inetPton text name hdr.dstIp ∨
        InternetPermitted inetPton text tunFd name hdr.dstIp) →
      d.action ≠ .drop) := by
  intro b d
  have hc := load_loaded inetPton hload
  have hconfig : b.config = c := run_config _ hooks
  have htun : b.tunFd = tunFd := run_tunFd _ hooks
  constructor
  · intro hact
    rcases b.process_agent_cases fd raw with hdrop | ⟨hdr, e, hparse, he, hsrc, hd⟩
    · exact absurd hdrop hact
    · -- the source check ties the packet to the name registered on the descriptor
      have hassign : Assigns inetPton text e.name hdr.srcIp := by
        rw [hsrc]
        exact assigns_of_findByFd hc he
      rw [← hsrc] at hd
      have hroute := routeToDestination_permitted hc hconfig hassign hdr.dstIp
      dsimp only at hroute
      rw [← hd, htun] at hroute
      refine ⟨hdr, e.name, hparse, latestOn_of_findByFd he, hassign, ?_⟩
      rcases hroute with hagent | hinternet | ⟨hdrop, _⟩
      · exact Or.inl hagent
      · exact Or.inr hinternet
      · exact absurd hdrop hact
  · intro hdr name hparse hassign hheld hperm
    obtain ⟨e, he, hname⟩ : ∃ e, b.registry.findByFd fd = some e ∧ e.name = name := by
      rcases hheld with hfd | halone
      · exact hfd
      · obtain ⟨e, he, hname, _⟩ := findByFd_of_heldAlone halone
        exact ⟨e, he, hname⟩
    have hsrc : hdr.srcIp = e.virtualIpv4 := by
      have howner := findIpForAgent_of_assigns hc (assigns_of_findByFd hc he)
      rw [hname, findIpForAgent_of_assigns hc hassign] at howner
      exact howner
    have hd : d = b.routeToDestination hdr.srcIp hdr.dstIp := process_agent_eq hparse he hsrc
    have hroute := routeToDestination_permitted hc hconfig hassign hdr.dstIp
    dsimp only at hroute
    rw [← hd, htun] at hroute
    rcases hroute with ⟨_, hact | hact | hact⟩ | ⟨_, hd⟩ | ⟨_, hagent, hinternet⟩
    · simp [hact]
    · simp [hact]
    · simp [hact]
    · simp [hd, PacketDecision.forwardInternet]
    · exact absurd hperm (by simp [hagent, hinternet])

/-- Two agents and a rule for them, with what `inet_pton` makes of their addresses. -/
def pairAddress (s : Text) : Option UInt32 :=
  if s = ['1', '0', '.', '0', '.', '1', '.', '1'] then some 0x0101000a
  else if s = ['1', '0', '.', '0', '.', '1', '.', '2'] then some 0x0201000a
  else none

def pairFile : Text :=
  ['a', ' ', '1', '0', '.', '0', '.', '1', '.', '1', '\n',
    'b', ' ', '1', '0', '.', '0', '.', '1', '.', '2', '\n',
    'a', ' ', 'b', '\n']

def pairPacket : Bytes := [0x45, 0, 0, 20, 0, 0, 0, 0, 64, 1, 0, 0, 10, 0, 1, 1, 10, 0, 1, 2]

theorem agent_packet_isolated_pair :
    ∃ hdr name, ipv4Parse pairPacket = some hdr ∧
      LatestOn (new (load pairAddress (some pairFile) .empty).2 (-1))
        [.agentAuthenticated ['a'] 5 true] name 5 ∧
      Assigns pairAddress pairFile name hdr.srcIp ∧
      AgentPermitted pairAddress pairFile name hdr.dstIp := by
  have hload : load pairAddress (some pairFile) .empty =
      (.ok (), (load pairAddress (some pairFile) .empty).2) := Prod.ext (by decide) rfl
  have hpacket := (agent_packet_isolated pairAddress hload (-1) [.agentAuthenticated ['a'] 5 true] 5
    pairPacket).1 (by decide)
  obtain ⟨hdr, name, hparse, hlatest, hassign, ⟨hagent, _⟩ | ⟨hinternet, _⟩⟩ := hpacket
  · exact ⟨hdr, name, hparse, hlatest, hassign, hagent⟩
  · exact absurd hinternet.2.1 (by decide)

end VNet.Blackbox.BlackBox
