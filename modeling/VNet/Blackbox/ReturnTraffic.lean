import VNet.Blackbox.Isolation

namespace VNet.Blackbox
namespace BlackBox

open VNet.Protocol Config

/-- The entry found by a file descriptor and the one found by an address are the
same when they have the same name. -/
theorem Registered.entry_eq {b : BlackBox} (hb : b.Registered) {f : ℤ} {a : UInt32}
    {e e' : AgentEntry} (hfd : b.registry.findByFd f = some e)
    (hip : b.registry.findByIpv4 a = some e') (hname : e.name = e'.name) : e = e' := by
  have he := hb.indexed.fd_named f e hfd
  have he' := hb.indexed.ip_named a e' hip
  rw [hname, he', Option.some.injEq] at he
  exact he.symm

/-- A packet from the TUN is delivered exactly by the rule for its source. -/
theorem process_tun_eq {b : BlackBox} {tunFd : ℤ} {raw : Bytes} {hdr : IPv4Header} {e : AgentEntry}
    (hparse : ipv4Parse raw = some hdr) (he : b.registry.findByIpv4 hdr.dstIp = some e) :
    b.process .tun tunFd raw =
      if b.config.canReachInternetIp hdr.dstIp hdr.srcIp then .deliverLocal e.fd
      else .drop .aclDenied := by
  simp only [process, hparse, processFromTun, he]
  cases b.config.canReachInternetIp hdr.dstIp hdr.srcIp <;> rfl

/-- A packet leaves for the internet if no agent has its destination and a rule
lets its sender reach it. -/
theorem routeToDestination_forwardInternet {b : BlackBox} (htun : 0 ≤ b.tunFd) (src dst : UInt32) :
    (b.routeToDestination src dst).action = .forwardInternet ↔
      b.config.findAgentForIp dst = [] ∧ b.config.canReachInternetIp src dst = true := by
  have hcases := b.routeToDestination_cases src dst
  dsimp only at hcases
  rcases hcases with ⟨hne, -, hact⟩ | ⟨hnil, -, hacl, hd⟩ | ⟨hdrop, -, hno⟩
  · simp only [hne, false_and, iff_false]
    rcases hact with hact | hact | hact <;> simp [hact]
  · simp [hd, hnil, hacl, PacketDecision.forwardInternet]
  · simp only [hdrop, reduceCtorEq, false_iff]
    exact fun h => hno ⟨h.1, htun, h.2⟩

/-- For an agent registered on `f` with address `a`, and packets `p` and `q`
between `a` and `x`: what comes back is delivered if and only if what goes out
is forwarded, and nothing is delivered from the address of an agent.  This holds
exactly when `x` is no agent's address or the agent has no internet rule for it. -/
theorem return_traffic_mirrors_iff (inetPton : Text → Option UInt32) {text : Text} {c₀ c : Config}
    (hload : load inetPton (some text) c₀ = (.ok (), c)) (tunFd : ℤ) (htun : 0 ≤ tunFd)
    (hooks : List Hook) (f : ℤ) (a x : UInt32) (e e' : AgentEntry)
    (hfd : ((new c tunFd).run hooks).registry.findByFd f = some e)
    (hip : ((new c tunFd).run hooks).registry.findByIpv4 a = some e') (hname : e.name = e'.name)
    (p q : Bytes) (out back : IPv4Header)
    (hout : ipv4Parse p = some out) (hback : ipv4Parse q = some back)
    (hp : out.srcIp = a ∧ out.dstIp = x) (hq : back.srcIp = x ∧ back.dstIp = a) :
    let b := (new c tunFd).run hooks
    (((b.process .tun tunFd q).action = .deliverLocal ∧ (b.process .tun tunFd q).targetFd = f ↔
        (b.process .agent f p).action = .forwardInternet) ∧
      ((b.process .tun tunFd q).action = .deliverLocal →
        ∀ name, ¬ Assigns inetPton text name x)) ↔
    (c.findAgentForIp x = [] ∨ c.canReachInternetIp a x = false) := by
  intro b
  obtain ⟨hsrc, rfl⟩ := hp
  obtain ⟨hqsrc, hqdst⟩ := hq
  have hb : b.Registered := run_registered c tunFd hooks
  have hconfig : b.config = c := run_config _ hooks
  have hbtun : 0 ≤ b.tunFd := by
    rw [run_tunFd]
    exact htun
  obtain rfl := hb.entry_eq hfd hip hname
  have hf := hb.indexed.fd_eq f e hfd
  have ha := hb.indexed.ip_eq a e hip
  -- the way back asks for the rule alone, the way out first whether `x` is an agent's
  have hin : b.process .tun tunFd q =
      if c.canReachInternetIp a out.dstIp then .deliverLocal f else .drop .aclDenied := by
    rw [process_tun_eq hback (hqdst ▸ hip), hconfig, hqsrc, hqdst, hf]
  have hgo : (b.process .agent f p).action = .forwardInternet ↔
      c.findAgentForIp out.dstIp = [] ∧ c.canReachInternetIp a out.dstIp = true := by
    rw [process_agent_eq hout hfd (hsrc.trans ha.symm), hsrc,
      routeToDestination_forwardInternet hbtun, hconfig]
  have hnone : (∀ name, ¬ Assigns inetPton text name out.dstIp) ↔
      c.findAgentForIp out.dstIp = [] := by
    rw [← not_exists, ← findAgentForIp_ne_nil_iff (load_loaded inetPton hload), not_not]
  rw [hgo, hin, hnone]
  cases hacl : c.canReachInternetIp a out.dstIp with
  | false => simp [PacketDecision.drop]
  | true => simp [PacketDecision.deliverLocal]

def internetFile : Text :=
  ['a', ' ', '1', '0', '.', '0', '.', '1', '.', '1', '\n',
    'a', ' ', ':', ':', 'i', 'n', 't', 'e', 'r', 'n', 'e', 't', ':',
    '1', '0', '.', '0', '.', '1', '.', '2', '\n']

def pairAnswer : Bytes := [0x45, 0, 0, 20, 0, 0, 0, 0, 64, 1, 0, 0, 10, 0, 1, 2, 10, 0, 1, 1]

theorem return_traffic_mirrors_iff_internet :
    let b := (new (load pairAddress (some internetFile) .empty).2 7).run
      [.agentAuthenticated ['a'] 5 true]
    ((b.process .tun 7 pairAnswer).action = .deliverLocal ∧
      (b.process .tun 7 pairAnswer).targetFd = 5 ↔
        (b.process .agent 5 pairPacket).action = .forwardInternet) ∧
      (b.process .agent 5 pairPacket).action = .forwardInternet := by
  have hload : load pairAddress (some internetFile) .empty =
      (.ok (), (load pairAddress (some internetFile) .empty).2) := Prod.ext (by decide) rfl
  refine ⟨?_, by decide⟩
  exact ((return_traffic_mirrors_iff pairAddress hload 7 (by decide)
    [.agentAuthenticated ['a'] 5 true] 5 0x0101000a 0x0201000a ⟨0, ['a'], 0x0101000a, 5⟩
    ⟨0, ['a'], 0x0101000a, 5⟩ (by decide) (by decide) rfl pairPacket pairAnswer
    ((ipv4Parse pairPacket).get (by decide)) ((ipv4Parse pairAnswer).get (by decide))
    (by decide) (by decide) (by decide) (by decide)).mpr (Or.inl (by decide))).1

/-- Two agents, and a rule that names the address of the second as an internet
address. -/
def overlapFile : Text :=
  ['a', ' ', '1', '0', '.', '0', '.', '1', '.', '1', '\n',
    'b', ' ', '1', '0', '.', '0', '.', '1', '.', '2', '\n',
    'a', ' ', ':', ':', 'i', 'n', 't', 'e', 'r', 'n', 'e', 't', ':',
    '1', '0', '.', '0', '.', '1', '.', '2', '\n']

/-- A packet that arrives from the internet with the address of the second agent
is delivered to the first, whose own packets to that address are dropped. -/
theorem return_traffic_from_agent_address :
    let c := (load pairAddress (some overlapFile) .empty).2
    let b := (new c 7).run [.agentAuthenticated ['a'] 5 true]
    (load pairAddress (some overlapFile) .empty).1 = .ok () ∧
    (b.registry.findByFd 5).map AgentEntry.name = some ['a'] ∧
    (b.registry.findByIpv4 0x0101000a).map AgentEntry.name = some ['a'] ∧
    (ipv4Parse pairPacket).map (fun h => (h.srcIp, h.dstIp)) = some (0x0101000a, 0x0201000a) ∧
    (ipv4Parse pairAnswer).map (fun h => (h.srcIp, h.dstIp)) = some (0x0201000a, 0x0101000a) ∧
    b.process .tun 7 pairAnswer = .deliverLocal 5 ∧
    b.process .agent 5 pairPacket = .drop .aclDenied ∧
    c.findAgentForIp 0x0201000a = ['b'] := by
  refine ⟨?_, ?_, ?_, ?_, ?_, ?_, ?_, ?_⟩ <;> decide

end BlackBox

end VNet.Blackbox
