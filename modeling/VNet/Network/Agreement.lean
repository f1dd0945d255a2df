import VNet.Network.Steps

namespace VNet.Network
open Protocol NetQueue Connections

variable {setup : Setup} {k k' : Conns} {w : World} {s : ℕ}

def Joins (k : Conns) (id a s : ℕ) : Prop :=
  ∃ c, k id = some c ∧ c.ends = ⟨.agent a, .switch s⟩

/-- On one connection agent `a` has sent `AGENT_MIP` with its name and the
conductor has answered it with `CONNECT_TO_SWITCH`, naming switch `s` and
carrying token `t`. -/
def Assigned (setup : Setup) (k : Conns) (a s : ℕ) (t : UInt64) : Prop :=
  ∃ id m, Asked setup k id a ∧ Answered setup k id m ∧ m.connectionToken = t ∧
    m.switchName = (setup.switch s).name ∧ Leads setup m s

/-- The token shown came in an answer to the agent that shows it, and waits with
the name it was announced with. -/
theorem Inv.authenticates (h : Inv setup w) (hsound : setup.codec.Sound) {e : Event} {id : ℕ}
    {t : UInt64} {n : Text} (ha : Authenticates setup w e s id t n) :
    ReadToken setup w.conns s ⟨n, t⟩ ∧ ∃ a cdt m, Joins w.conns id a s ∧
      OpenedBy w.conns cdt (.agent a) ∧ Answered setup w.conns cdt m ∧ m.connectionToken = t ∧
      Leads setup m s := by
  obtain ⟨fd, ok, node, d, -, hs, hd, rfl, hm⟩ := ha
  obtain ⟨data, created, hauth, -, hpending⟩ := hm
  refine ⟨(h.switches s node hs).pending t _ hpending, ?_⟩
  obtain ⟨now, ok', he, -, htype, hparse⟩ := Switch.authPacket_eq_some hauth
  obtain ⟨rfl, -, -⟩ := Switch.Event.packet.inj he
  have htype' : d.packet.1 = .authConnectToSwitch := htype
  obtain ⟨-, c, rest, hc, hends, hfrom⟩ := h.switchDelivery hs hd
  rcases hfrom with ⟨-, -, -, hcdt⟩ | ⟨a, hjoin, -, -, hclient⟩
  · -- the conductor shows no tokens
    rw [FromConductor, htype'] at hcdt
    exact hcdt.elim
  · rw [FromClient, htype'] at hclient
    obtain ⟨a', s', cdt, m, hends', hopen, hans, hleads, hser⟩ := hclient
    rw [hjoin, Ends.mk.injEq] at hends'
    obtain ⟨rfl⟩ := Client.agent.inj hends'.1
    obtain ⟨rfl⟩ := Listener.switch.inj hends'.2
    refine ⟨a, cdt, m, ⟨c, hc, by rw [hends, hjoin]⟩, hopen, hans, ?_, hleads⟩
    have hback := hsound.authConnectToSwitch _ _ hser
    have hparse' : setup.codec.authConnectToSwitch.parseFromArray d.packet.2 = some ⟨t⟩ := hparse
    rw [hparse', Option.some.injEq, PacketAuthConnectToSwitch.mk.injEq] at hback
    exact hback.symm

theorem Joins.openedBy {id a s : ℕ} (h : Joins k id a s) : OpenedBy k id (.agent a) := by
  obtain ⟨c, hc, hends⟩ := h
  exact ⟨c, hc, by rw [hends]⟩

/-- The answer and the announcement that an authentication goes back to are those
of one request. -/
theorem Inv.assigned (h : Inv setup w) (hsound : setup.codec.Sound)
    (hdistinct : Distinct w.conductor.state.drawn) {e : Event} {id : ℕ} {t : UInt64} {n : Text}
    (ha : Authenticates setup w e s id t n) :
    ∃ a, Joins w.conns id a s ∧ (setup.agent a).name = n ∧ Assigned setup w.conns a s t := by
  obtain ⟨hread, a, cdt, m, hjoin, hopen, hans, htoken, hleads⟩ := h.authenticates hsound ha
  obtain ⟨idS, hann, hopenS⟩ := hread.announced
  obtain ⟨a', s', hask, hname, hopenS', hswitch⟩ :=
    h.history.paired hdistinct cdt m idS ⟨n, t⟩ hans hann htoken
  have haa : a' = a := Client.agent.inj (hask.openedBy.client_unique hopen)
  have hss : s' = s := Client.switch.inj (hopenS'.client_unique hopenS)
  subst haa hss
  exact ⟨a', hjoin, hname, cdt, m, hask, hans, htoken, hswitch, hleads⟩

/-- Three-party agreement. When the tokens of a run are all different, whoever is
authenticated by a switch is the agent that asked under that name and was sent
to this switch with the token it showed; and a token authenticates no second
agent. -/
theorem three_party_agreement (hsound : setup.codec.Sound) (clock : ℤ) (es : List Event)
    (hdistinct : Distinct (run setup clock es).conductor.state.drawn) :
    (∀ as e bs, es = as ++ e :: bs → ∀ s id t n,
      Authenticates setup (run setup clock as) e s id t n →
      ∃ a, Joins (run setup clock as).conns id a s ∧ (setup.agent a).name = n ∧
        Assigned setup (run setup clock as).conns a s t) ∧
    ∀ as e bs as' e' bs', es = as ++ e :: bs → es = as' ++ e' :: bs' → ∀ s id s' id' t n n',
      Authenticates setup (run setup clock as) e s id t n →
      Authenticates setup (run setup clock as') e' s' id' t n' →
      ∀ a a', Joins (run setup clock as).conns id a s →
        Joins (run setup clock as').conns id' a' s' → a = a' := by
  have hlater : ∀ as e bs, es = as ++ e :: bs →
      Later (run setup clock as) (run setup clock es) := by
    rintro as e bs rfl
    exact later_run hsound clock as (e :: bs)
  constructor
  · intro as e bs hes s id t n ha
    have hd := hdistinct.sublist (hlater as e bs hes).drawn.sublist
    exact (Inv.run hsound clock as).assigned hsound hd ha
  · intro as e bs as' e' bs' hes hes' s id s' id' t n n' ha ha' a a' hj hj'
    have hl := (hlater as e bs hes).conns
    have hl' := (hlater as' e' bs' hes').conns
    obtain ⟨-, b, cdt, m, hjoin, hopen, hans, htoken, -⟩ :=
      (Inv.run hsound clock as).authenticates hsound ha
    obtain ⟨-, b', cdt', m', hjoin', hopen', hans', htoken', -⟩ :=
      (Inv.run hsound clock as').authenticates hsound ha'
    -- the two answers carry one token, so they are on one connection
    have hsame : cdt = cdt' := (Inv.run hsound clock es).history.unique hdistinct cdt m cdt' m'
      (hans.mono hl) (hans'.mono hl') (htoken.trans htoken'.symm)
    rw [← hsame] at hopen'
    have hab : a = b := Client.agent.inj (hj.openedBy.client_unique hjoin.openedBy)
    have hab' : a' = b' := Client.agent.inj (hj'.openedBy.client_unique hjoin'.openedBy)
    rw [hab, hab']
    exact Client.agent.inj ((hopen.mono hl).client_unique (hopen'.mono hl'))

/-- One agent joins one switch: the handshake up to the agent's connection to the
switch, with the announcement on its way. -/
def joining : List Event :=
  [.startSwitch 0 3 true, .conductorAccept 0 5 true,
    .conductorPacket 5 ⟨0, true, 7, true, true⟩, .startAgent 0 true, .conductorAccept 1 6 true,
    .conductorPacket 6 ⟨0, true, 7, true, true⟩, .readAssignment 0, .connectSwitch 0 0 true,
    .switchAccept 0 2 4 true]

def joiningSetup : Setup where
  codec := .sample
  agent _ := ⟨"a".toList, "k".toList⟩
  switch _ := ⟨"s1".toList, "k".toList, 7000, 0x0200000a⟩

/-- The switch reads the announcement, and then the agent's packet. -/
theorem three_party_agreement_joining :
    let w := run joiningSetup 0 (joining ++ [.switchPacket 0 3 true])
    Authenticates joiningSetup w (.switchPacket 0 4 true) 0 2 7 ['a'] ∧
      ∃ a, Joins w.conns 2 a 0 ∧ (joiningSetup.agent a).name = ['a'] ∧
        Assigned joiningSetup w.conns a 0 7 := by
  have ha : Authenticates joiningSetup (run joiningSetup 0 (joining ++ [.switchPacket 0 3 true]))
      (.switchPacket 0 4 true) 0 2 7 ['a'] :=
    ⟨4, true, _, ⟨2, ⟨.agent 0, .switch 0⟩, 2,
      (.authConnectToSwitch, [0x09, 7, 0, 0, 0, 0, 0, 0, 0])⟩, rfl, rfl, by decide +kernel, rfl,
      _, 0, rfl, rfl, rfl⟩
  have hdistinct : Distinct (run joiningSetup 0 (joining ++ [.switchPacket 0 3 true] ++
      [.switchPacket 0 4 true])).conductor.state.drawn := by decide +kernel
  have h := @three_party_agreement joiningSetup Codec.sample_sound 0 _ hdistinct
  exact ⟨ha, h.1 _ _ [] rfl 0 2 7 ['a'] ha⟩

end VNet.Network
