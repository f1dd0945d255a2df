import VNet.Blackbox.Grammar
import VNet.Blackbox.Isolation

namespace VNet.Blackbox

open VNet.Protocol Config

structure SameAgents (c c' : Config) : Prop where
  ip_eq : ∀ name, c'.findIpForAgent name = c.findIpForAgent name
  name_eq : ∀ ip, c'.findAgentForIp ip = c.findAgentForIp ip

/-- The second one permits all that the first one does. -/
structure Permits (c c' : Config) : Prop extends SameAgents c c' where
  agents : ∀ a b, c.canAgentsCommunicate a b = true → c'.canAgentsCommunicate a b = true
  internet : ∀ a ip, c.canReachInternetIp a ip = true → c'.canReachInternetIp a ip = true

namespace BlackBox

def withConfig (b : BlackBox) (c : Config) : BlackBox := { b with config := c }

variable {b : BlackBox} {c : Config}

@[simp] theorem withConfig_config : (b.withConfig c).config = c := rfl

@[simp] theorem withConfig_registry : (b.withConfig c).registry = b.registry := rfl

theorem step_withConfig (h : SameAgents b.config c) (hook : Hook) :
    (b.withConfig c).step hook = (b.step hook).withConfig c := by
  cases hook with
  | agentAuthenticated name fd allocated =>
    simp only [step, onAgentAuthenticated_snd, withConfig_config, h.ip_eq]
    split_ifs <;> rfl
  | agentDisconnected fd => rfl
  | routeUpdate dest fd =>
    simp only [step, onRouteUpdate]
    split_ifs <;> rfl
  | switchDisconnected fd => rfl

/-- The hooks look at the agents only, so the registry and the routes are the same. -/
theorem run_withConfig {c c' : Config} (h : SameAgents c c') (tunFd : ℤ) (hooks : List Hook) :
    (new c' tunFd).run hooks = ((new c tunFd).run hooks).withConfig c' := by
  induction hooks using List.reverseRecOn with
  | nil => rfl
  | append_singleton hooks hook ih =>
    have hagents : SameAgents ((new c tunFd).run hooks).config c' := by
      rw [run_config]
      exact h
    rw [run, run, Runs.run_concat, Runs.run_concat, ← step_withConfig hagents]
    exact congrArg (step · hook) ih

theorem routeToDestination_congr (h : SameAgents b.config c) {src dst : UInt32}
    (hagents : b.config.findAgentForIp dst ≠ [] →
      c.canAgentsCommunicate src dst = b.config.canAgentsCommunicate src dst)
    (hinternet : b.config.findAgentForIp dst = [] →
      c.canReachInternetIp src dst = b.config.canReachInternetIp src dst) :
    (b.withConfig c).routeToDestination src dst = b.routeToDestination src dst := by
  unfold routeToDestination
  apply if_ctx_congr
  · rw [withConfig_config, h.name_eq]
  · intro hagent
    exact if_congr (by rw [withConfig_config, hagents hagent]) rfl rfl
  · intro hnil
    have hinternet' := hinternet (not_not.mp hnil)
    exact if_congr Iff.rfl rfl (if_congr (by rw [withConfig_config, hinternet']) rfl rfl)

/-- With more permitted, a packet that was routed is routed to the same place. -/
theorem routeToDestination_withConfig (h : Permits b.config c) (src dst : UInt32) :
    (b.routeToDestination src dst).action = .drop ∨
      (b.withConfig c).routeToDestination src dst = b.routeToDestination src dst := by
  rcases b.routeToDestination_cases src dst with ⟨hagent, hacl, -⟩ | ⟨hnil, -, hacl, -⟩ | ⟨hdrop, -⟩
  · refine .inr (routeToDestination_congr h.toSameAgents (fun _ => ?_) fun hnil => ?_)
    · rw [hacl, h.agents src dst hacl]
    · exact absurd hnil hagent
  · refine .inr (routeToDestination_congr h.toSameAgents (fun hagent => ?_) fun _ => ?_)
    · exact absurd hnil hagent
    · rw [hacl, h.internet src dst hacl]
  · exact .inl hdrop

theorem processFromTun_congr {hdr : IPv4Header}
    (hinternet : c.canReachInternetIp hdr.dstIp hdr.srcIp =
      b.config.canReachInternetIp hdr.dstIp hdr.srcIp) :
    (b.withConfig c).processFromTun hdr = b.processFromTun hdr := by
  simp only [processFromTun, withConfig_registry]
  cases b.registry.findByIpv4 hdr.dstIp with
  | none => rfl
  | some e => exact if_congr (by rw [withConfig_config, hinternet]) rfl rfl

theorem processFromTun_withConfig (h : Permits b.config c) (hdr : IPv4Header) :
    (b.processFromTun hdr).action = .drop ∨
      (b.withConfig c).processFromTun hdr = b.processFromTun hdr := by
  cases hacl : b.config.canReachInternetIp hdr.dstIp hdr.srcIp with
  | true =>
    refine .inr (processFromTun_congr ?_)
    rw [hacl, h.internet _ _ hacl]
  | false =>
    refine .inl ?_
    simp only [processFromTun, hacl]
    cases b.registry.findByIpv4 hdr.dstIp <;> rfl

/-- An agent's packet is dropped whatever the rules, or it is routed. -/
theorem process_withConfig (h : Permits b.config c) (source : SourceType) (fd : ℤ) (raw : Bytes) :
    (b.process source fd raw).action = .drop ∨
      (b.withConfig c).process source fd raw = b.process source fd raw := by
  unfold process
  cases ipv4Parse raw with
  | none => exact .inl rfl
  | some hdr =>
    cases source with
    | agent =>
      simp only [processFromAgent, withConfig_registry]
      cases b.registry.findByFd fd with
      | none => exact .inl rfl
      | some e =>
        dsimp only
        split_ifs
        · exact .inl rfl
        · exact routeToDestination_withConfig h _ _
    | switch => exact .inr rfl
    | tun => exact processFromTun_withConfig h hdr

/-- Boxes with the same rules decide alike, also for which reason they drop. -/
theorem process_congr (h : SameAgents b.config c)
    (hagents : ∀ a a', c.canAgentsCommunicate a a' = b.config.canAgentsCommunicate a a')
    (hinternet : ∀ a ip, c.canReachInternetIp a ip = b.config.canReachInternetIp a ip)
    (source : SourceType) (fd : ℤ) (raw : Bytes) :
    (b.withConfig c).process source fd raw = b.process source fd raw := by
  unfold process
  cases ipv4Parse raw with
  | none => rfl
  | some hdr =>
    cases source with
    | agent =>
      simp only [processFromAgent, withConfig_registry]
      cases b.registry.findByFd fd with
      | none => rfl
      | some e =>
        refine if_congr Iff.rfl rfl ?_
        exact routeToDestination_congr h (fun _ => hagents _ _) fun _ => hinternet _ _
    | switch => rfl
    | tun => exact processFromTun_congr (hinternet _ _)

end BlackBox

namespace Config

variable {inetPton : Text → Option UInt32} {text text' : Text} {c c' c₀ c₀' : Config}

theorem owns_iff {name : Text} {ip : UInt32} : Owns inetPton text name ip ↔
    ∃ r ∈ rows text, r.1 = name ∧ ipv4 inetPton r.2 = some ip := by
  simp only [Owns, assignments, List.mem_filterMap, Option.map_eq_some_iff, Prod.mk.injEq]
  constructor
  · rintro ⟨r, hr, ip', hip, hname, rfl⟩
    exact ⟨r, hr, hname, hip⟩
  · rintro ⟨r, hr, hname, hip⟩
    exact ⟨r, hr, ip, hip, hname, rfl⟩

/-- The agents of a file are those its assignments give. -/
theorem sameAgents_of_owns (hc : Tables inetPton text c) (hc' : Tables inetPton text' c')
    (howns : ∀ name ip, Owns inetPton text' name ip ↔ Owns inetPton text name ip) :
    SameAgents c c' := by
  constructor
  · intro name
    have hiff : ∀ ip, ip ≠ 0 → (c'.findIpForAgent name = ip ↔ c.findIpForAgent name = ip) := by
      intro ip h0
      rw [hc'.name_iff name ip h0, hc.name_iff name ip h0, howns]
    by_cases h0 : c.findIpForAgent name = 0
    · by_contra hne
      exact hne ((hiff _ (h0 ▸ hne)).mp rfl).symm
    · exact (hiff _ h0).mpr rfl
  · intro ip
    have hiff : ∀ name, name ≠ [] → (c'.findAgentForIp ip = name ↔ c.findAgentForIp ip = name) := by
      intro name hnil
      rw [hc'.ip_iff ip name hnil, hc.ip_iff ip name hnil, howns]
    by_cases hnil : c.findAgentForIp ip = []
    · by_contra hne
      exact hne ((hiff _ (hnil ▸ hne)).mp rfl).symm
    · exact (hiff _ hnil).mpr rfl

/-- A file with more rules permits more. -/
theorem permits_of_rows (hc : Tables inetPton text c) (hc' : Tables inetPton text' c')
    (hrows : ∀ r ∈ rows text, r ∈ rows text')
    (hrules : ∀ r ∈ rows text', r ∈ rows text ∨ ipv4 inetPton r.2 = none) : Permits c c' := by
  have howns : ∀ name ip, Owns inetPton text' name ip ↔ Owns inetPton text name ip := by
    intro name ip
    rw [owns_iff, owns_iff]
    constructor
    · rintro ⟨r, hr, hname, hip⟩
      rcases hrules r hr with hold | hnone
      · exact ⟨r, hold, hname, hip⟩
      · simp [hnone] at hip
    · rintro ⟨r, hr, hrest⟩
      exact ⟨r, hrows r hr, hrest⟩
  refine ⟨sameAgents_of_owns hc hc' howns, fun a b h => ?_, fun a ip h => ?_⟩
  · rw [hc.agent_iff] at h
    rw [hc'.agent_iff]
    simp only [howns]
    obtain ⟨r, hr, hrest⟩ := h
    exact ⟨r, hrows r hr, hrest⟩
  · rw [hc.internet_iff] at h
    rw [hc'.internet_iff]
    simp only [howns]
    obtain ⟨r, hr, hrest⟩ := h
    exact ⟨r, hrows r hr, hrest⟩

theorem RowsOk.perm {rows rows' : List (Text × Text)} (h : RowsOk inetPton rows)
    (hperm : rows.Perm rows') : RowsOk inetPton rows' := by
  have hassign : (assignments inetPton rows).Perm (assignments inetPton rows') :=
    hperm.filterMap _
  have hknown : (fun name => name ∈ (assignments inetPton rows').map (·.1)) =
      fun name => name ∈ (assignments inetPton rows).map (·.1) := by
    funext name
    exact propext (hassign.map _).mem_iff.symm
  obtain ⟨⟨hzero, hips, hnames⟩, hrules⟩ := h
  refine ⟨⟨fun a ha => hzero a (hassign.mem_iff.mpr ha), (hassign.map _).nodup_iff.mp hips,
    (hassign.map _).nodup_iff.mp hnames⟩, fun r hr hnone => ?_⟩
  rw [hknown]
  exact hrules r (hperm.mem_iff.mpr hr) hnone

theorem load_eq {file : Option Text} (h : (load inetPton file c₀).1 = .ok ()) :
    load inetPton file c₀ = (.ok (), (load inetPton file c₀).2) :=
  Prod.ext h rfl

def countingLines (text : Text) : List Text := (getlines text).filter counts

theorem Grammar.perm (h : Grammar inetPton text)
    (hperm : (countingLines text).Perm (countingLines text')) : Grammar inetPton text' := by
  refine ⟨fun raw hraw hcounts => ?_, h.2.perm (hperm.map firstTwo)⟩
  have hmem : raw ∈ countingLines text :=
    hperm.mem_iff.mpr (List.mem_filter.mpr ⟨hraw, hcounts⟩)
  exact h.1 raw (List.mem_filter.mp hmem).1 hcounts

/-- The order of the lines does not matter, and neither do blank lines and
comments anywhere among them: `load` accepts both files or neither, and switches
that have loaded one and the other authenticate the same agents and make the same
decision on every packet, after every sequence of hooks. -/
theorem decisions_ignore_line_order (inetPton : Text → Option UInt32) {text text' : Text}
    (hperm : (countingLines text).Perm (countingLines text')) (c₀ c₀' : Config) :
    ((load inetPton (some text) c₀).1 = .ok () ↔ (load inetPton (some text') c₀').1 = .ok ()) ∧
    ∀ c c', load inetPton (some text) c₀ = (.ok (), c) →
      load inetPton (some text') c₀' = (.ok (), c') → ∀ tunFd hooks,
        (∀ name fd allocated,
          (((BlackBox.new c' tunFd).run hooks).onAgentAuthenticated name fd allocated).1 =
            (((BlackBox.new c tunFd).run hooks).onAgentAuthenticated name fd allocated).1) ∧
        ∀ source fd raw, ((BlackBox.new c' tunFd).run hooks).process source fd raw =
          ((BlackBox.new c tunFd).run hooks).process source fd raw := by
  constructor
  · constructor
    · intro h
      exact load_of_grammar ((grammar_of_load (load_eq h)).perm hperm)
    · intro h
      exact load_of_grammar ((grammar_of_load (load_eq h)).perm hperm.symm)
  · intro c c' hload hload' tunFd hooks
    have hc := tables_of_load hload
    have hc' := tables_of_load hload'
    have hrows : ∀ r, r ∈ rows text ↔ r ∈ rows text' := fun r => (hperm.map firstTwo).mem_iff
    have hmore : Permits c c' := permits_of_rows hc hc' (fun r hr => (hrows r).mp hr)
      fun r hr => .inl ((hrows r).mpr hr)
    have hless : Permits c' c := permits_of_rows hc' hc (fun r hr => (hrows r).mpr hr)
      fun r hr => .inl ((hrows r).mp hr)
    have hconfig : ((BlackBox.new c tunFd).run hooks).config = c := BlackBox.run_config _ _
    rw [BlackBox.run_withConfig hmore.toSameAgents]
    constructor
    · intro name fd allocated
      rw [BlackBox.onAgentAuthenticated_fst, BlackBox.onAgentAuthenticated_fst, hconfig,
        BlackBox.withConfig_config, hmore.ip_eq]
    · refine BlackBox.process_congr ?_ ?_ ?_
      · rw [hconfig]
        exact hmore.toSameAgents
      · intro a b
        rw [hconfig]
        exact Bool.eq_iff_iff.mpr ⟨hless.agents a b, hmore.agents a b⟩
      · intro a ip
        rw [hconfig]
        exact Bool.eq_iff_iff.mpr ⟨hless.internet a ip, hmore.internet a ip⟩

def ruleFirst : Text :=
  ['#', '\n',
    'a', ' ', 'b', '\n', '\n',
    'b', ' ', '1', '0', '.', '0', '.', '1', '.', '2', '\n',
    'a', ' ', '1', '0', '.', '0', '.', '1', '.', '1']

theorem decisions_ignore_line_order_rule_first :
    ((BlackBox.new (load BlackBox.pairAddress (some ruleFirst) .empty).2 (-1)).run
      [.agentAuthenticated ['a'] 5 true, .agentAuthenticated ['b'] 6 true]).process .agent 5
        BlackBox.pairPacket = .deliverLocal 6 := by
  obtain ⟨haccept, hsame⟩ := @decisions_ignore_line_order BlackBox.pairAddress BlackBox.pairFile
    ruleFirst (by decide) .empty .empty
  have hload : (load BlackBox.pairAddress (some BlackBox.pairFile) .empty).1 = .ok () := by decide
  rw [(hsame _ _ (load_eq hload) (load_eq (haccept.mp hload)) _ _).2]
  decide

/-- Rules only open. With rule lines added to a file, wherever they stand, a
switch that loads it decides as before on every packet that was not dropped, after
every sequence of hooks. -/
theorem rules_only_open (inetPton : Text → Option UInt32) {text text' : Text}
    (hrows : ∀ r ∈ rows text, r ∈ rows text')
    (hrules : ∀ r ∈ rows text', r ∈ rows text ∨ ipv4 inetPton r.2 = none) {c₀ c₀' c c' : Config}
    (hload : load inetPton (some text) c₀ = (.ok (), c))
    (hload' : load inetPton (some text') c₀' = (.ok (), c')) (tunFd : ℤ)
    (hooks : List BlackBox.Hook) (source : SourceType) (fd : ℤ) (raw : Bytes) :
    (((BlackBox.new c tunFd).run hooks).process source fd raw).action = .drop ∨
      ((BlackBox.new c' tunFd).run hooks).process source fd raw =
        ((BlackBox.new c tunFd).run hooks).process source fd raw := by
  have hmore : Permits c c' :=
    permits_of_rows (tables_of_load hload) (tables_of_load hload') hrows hrules
  have hconfig : ((BlackBox.new c tunFd).run hooks).config = c := BlackBox.run_config _ _
  rw [BlackBox.run_withConfig hmore.toSameAgents]
  refine BlackBox.process_withConfig ?_ source fd raw
  rw [hconfig]
  exact hmore

def pairOnline : Text :=
  ['a', ' ', '1', '0', '.', '0', '.', '1', '.', '1', '\n',
    'b', ' ', '1', '0', '.', '0', '.', '1', '.', '2', '\n',
    'b', ' ', ':', ':', 'i', 'n', 't', 'e', 'r', 'n', 'e', 't', ':',
    '1', '0', '.', '0', '.', '1', '.', '1', '\n',
    'a', ' ', 'b', '\n']

theorem rules_only_open_pair :
    ((BlackBox.new (load BlackBox.pairAddress (some pairOnline) .empty).2 (-1)).run
      [.agentAuthenticated ['a'] 5 true, .agentAuthenticated ['b'] 6 true]).process .agent 5
        BlackBox.pairPacket = .deliverLocal 6 := by
  have h := @rules_only_open BlackBox.pairAddress BlackBox.pairFile pairOnline (by decide)
    (by decide) .empty .empty _ _ (load_eq (by decide)) (load_eq (by decide)) (-1)
    [.agentAuthenticated ['a'] 5 true, .agentAuthenticated ['b'] 6 true] .agent 5
    BlackBox.pairPacket
  rw [h.resolve_left (by decide)]
  decide

end Config

end VNet.Blackbox
