import VNet.Network.Model

namespace VNet.Network
open Protocol NetQueue Connections

def OpenedBy (k : Conns) (id : ℕ) (client : Client) : Prop :=
  ∃ c, k id = some c ∧ c.ends.client = client

def Asked (setup : Setup) (k : Conns) (id a : ℕ) : Prop :=
  ∃ c body pkt, k id = some c ∧ c.ends = ⟨.agent a, .conductor⟩ ∧
    (.agentMip, body) ∈ c.toServer.sent ∧
    setup.codec.agentMip.parseFromArray body = some pkt ∧ pkt.name = (setup.agent a).name

def Answered (setup : Setup) (k : Conns) (id : ℕ) (m : PacketConnectToSwitch) : Prop :=
  ∃ c body, k id = some c ∧ c.ends.server = .conductor ∧
    (.connectToSwitch, body) ∈ c.toClient.sent ∧
    setup.codec.connectToSwitch.parseFromArray body = some m

def Announced (setup : Setup) (k : Conns) (id : ℕ) (pkt : PacketAgentConnectionToken) : Prop :=
  ∃ c body, k id = some c ∧ c.ends.server = .conductor ∧
    (.agentConnectionToken, body) ∈ c.toClient.sent ∧
    setup.codec.agentConnectionToken.parseFromArray body = some pkt

def ReadToken (setup : Setup) (k : Conns) (s : ℕ) (pkt : PacketAgentConnectionToken) : Prop :=
  ∃ id c body, k id = some c ∧ c.ends = ⟨.switch s, .conductor⟩ ∧
    (.agentConnectionToken, body) ∈ c.toClient.read ∧
    setup.codec.agentConnectionToken.parseFromArray body = some pkt

def ReadAuth (setup : Setup) (k : Conns) (s : ℕ) (t : UInt64) : Prop :=
  ∃ id c body, k id = some c ∧ c.ends.server = .switch s ∧
    (.authConnectToSwitch, body) ∈ c.toServer.read ∧
    setup.codec.authConnectToSwitch.parseFromArray body = some ⟨t⟩

variable {setup : Setup} {k k' : Conns}

theorem OpenedBy.mono (hg : Grows k k') {id : ℕ} {client : Client} (h : OpenedBy k id client) :
    OpenedBy k' id client := by
  obtain ⟨c, hc, hclient⟩ := h
  obtain ⟨c', hc', hends, -⟩ := hg id c hc
  exact ⟨c', hc', by rw [hends, hclient]⟩

theorem OpenedBy.client_unique {id : ℕ} {client client' : Client} (h : OpenedBy k id client)
    (h' : OpenedBy k id client') : client = client' := by
  obtain ⟨c, hc, rfl⟩ := h
  obtain ⟨c', hc', rfl⟩ := h'
  rw [hc, Option.some.injEq] at hc'
  rw [hc']

theorem Asked.openedBy {id a : ℕ} (h : Asked setup k id a) : OpenedBy k id (.agent a) := by
  obtain ⟨c, body, pkt, hc, hends, -⟩ := h
  exact ⟨c, hc, by rw [hends]⟩

theorem Asked.mono (hg : Grows k k') {id a : ℕ} (h : Asked setup k id a) : Asked setup k' id a := by
  obtain ⟨c, body, pkt, hc, hends, hmem, hrest⟩ := h
  obtain ⟨c', hc', hends', hsub⟩ := hg id c hc
  exact ⟨c', body, pkt, hc', hends'.trans hends, (hsub .client).1 _ hmem, hrest⟩

theorem Answered.mono (hg : Grows k k') {id : ℕ} {m : PacketConnectToSwitch}
    (h : Answered setup k id m) : Answered setup k' id m := by
  obtain ⟨c, body, hc, hserver, hmem, hparse⟩ := h
  obtain ⟨c', hc', hends, hsub⟩ := hg id c hc
  exact ⟨c', body, hc', by rw [hends, hserver], (hsub .server).1 _ hmem, hparse⟩

theorem ReadToken.mono (hg : Grows k k') {s : ℕ} {pkt : PacketAgentConnectionToken}
    (h : ReadToken setup k s pkt) : ReadToken setup k' s pkt := by
  obtain ⟨id, c, body, hc, hends, hmem, hparse⟩ := h
  obtain ⟨c', hc', hends', hsub⟩ := hg id c hc
  exact ⟨id, c', body, hc', hends'.trans hends, (hsub .server).2 _ hmem, hparse⟩

theorem ReadAuth.mono (hg : Grows k k') {s : ℕ} {t : UInt64} (h : ReadAuth setup k s t) :
    ReadAuth setup k' s t := by
  obtain ⟨id, c, body, hc, hserver, hmem, hparse⟩ := h
  obtain ⟨c', hc', hends, hsub⟩ := hg id c hc
  exact ⟨id, c', body, hc', by rw [hends, hserver], (hsub .client).2 _ hmem, hparse⟩

/-- What a switch has read was sent to it. -/
theorem ReadToken.announced {s : ℕ} {pkt : PacketAgentConnectionToken}
    (h : ReadToken setup k s pkt) :
    ∃ id, Announced setup k id pkt ∧ OpenedBy k id (.switch s) := by
  obtain ⟨id, c, body, hc, hends, hmem, hparse⟩ := h
  have hsent := List.mem_append_left c.toClient.inFlight hmem
  exact ⟨id, ⟨c, body, hc, by rw [hends], hsent, hparse⟩, c, hc, by rw [hends]⟩

/-- Heartbeats and acceptances mean nothing to the handshake. -/
def Plain (x : Packet) : Prop := x.1 = .heartbeat ∨ x.1 = .connectionAccepted

def FromClient (setup : Setup) (k : Conns) (ends : Ends) (x : Packet) : Prop :=
  match x.1 with
  | .switchMip => ∃ s, ends.client = .switch s ∧ setup.codec.switchMip.serializeToString
      ⟨(setup.switch s).name, (setup.switch s).authKey, "::internet".toList,
        (setup.switch s).port.toUInt32⟩ = some x.2
  | .agentMip => ∃ a, ends = ⟨.agent a, .conductor⟩ ∧ setup.codec.agentMip.serializeToString
      ⟨(setup.agent a).name, (setup.agent a).authKey, "vnet.internal".toList⟩ = some x.2
  | .authConnectToSwitch => ∃ a s id m, ends = ⟨.agent a, .switch s⟩ ∧ OpenedBy k id (.agent a) ∧
      Answered setup k id m ∧ Leads setup m s ∧
      setup.codec.authConnectToSwitch.serializeToString ⟨m.connectionToken⟩ = some x.2
  | .agentMrp => False
  | .agentConnectionToken => False
  | _ => True

/-- What the conductor writes: tokens it has drawn, and no packet of an agent. -/
def FromConductor (setup : Setup) (drawn : List (UInt64 × ℤ)) (x : Packet) : Prop :=
  match x.1 with
  | .connectToSwitch => ∀ m, setup.codec.connectToSwitch.parseFromArray x.2 = some m →
      m.connectionToken ∈ drawn.map Prod.fst
  | .agentConnectionToken => ∀ pkt, setup.codec.agentConnectionToken.parseFromArray x.2 = some pkt →
      pkt.connectionToken ∈ drawn.map Prod.fst
  | .authConnectToSwitch => False
  | _ => True

theorem Plain.fromClient {x : Packet} (h : Plain x) (ends : Ends) : FromClient setup k ends x := by
  rcases h with h | h <;> simp [FromClient, h]

theorem Plain.fromConductor {x : Packet} (h : Plain x) (drawn : List (UInt64 × ℤ)) :
    FromConductor setup drawn x := by
  rcases h with h | h <;> simp [FromConductor, h]

theorem FromClient.mono (hg : Grows k k') {ends : Ends} {x : Packet}
    (h : FromClient setup k ends x) : FromClient setup k' ends x := by
  unfold FromClient at h ⊢
  cases hx : x.1 with
  | authConnectToSwitch =>
    rw [hx] at h
    obtain ⟨a, s, id, m, hends, hopen, hans, hrest⟩ := h
    exact ⟨a, s, id, m, hends, hopen.mono hg, hans.mono hg, hrest⟩
  | _ =>
    rw [hx] at h
    exact h

theorem FromConductor.mono {drawn more : List (UInt64 × ℤ)} {x : Packet}
    (h : FromConductor setup drawn x) : FromConductor setup (drawn ++ more) x := by
  unfold FromConductor at h ⊢
  cases hx : x.1 with
  | connectToSwitch =>
    rw [hx] at h
    intro m hm
    rw [List.map_append]
    exact List.mem_append_left _ (h m hm)
  | agentConnectionToken =>
    rw [hx] at h
    intro pkt hpkt
    rw [List.map_append]
    exact List.mem_append_left _ (h pkt hpkt)
  | _ =>
    rw [hx] at h
    exact h

def Distinct (drawn : List (UInt64 × ℤ)) : Prop := (drawn.map Prod.fst).Nodup

instance (drawn : List (UInt64 × ℤ)) : Decidable (Distinct drawn) :=
  inferInstanceAs (Decidable (List.Nodup _))

theorem Distinct.sublist {drawn more : List (UInt64 × ℤ)} (h : Distinct more)
    (hsub : drawn.Sublist more) : Distinct drawn :=
  List.Nodup.sublist (hsub.map Prod.fst) h

theorem Distinct.not_mem {drawn : List (UInt64 × ℤ)} {t : UInt64} {τ : ℤ}
    (h : Distinct (drawn ++ [(t, τ)])) : t ∉ drawn.map Prod.fst := by
  rw [Distinct, List.map_append, List.nodup_append] at h
  intro hmem
  exact h.2.2 t hmem t (List.mem_singleton_self t) rfl

/-- All packets ever sent: each is one its sender writes, and if no token was
drawn twice, an answer and an announcement with one token come from one request. -/
structure History (setup : Setup) (k : Conns) (drawn : List (UInt64 × ℤ)) : Prop where
  ends : ∀ id c, k id = some c → ∀ s, c.ends.server = .switch s → ∃ a, c.ends.client = .agent a
  fromClient : ∀ id c, k id = some c → ∀ x ∈ c.toServer.sent, FromClient setup k c.ends x
  fromConductor : ∀ id c, k id = some c → c.ends.server = .conductor → ∀ x ∈ c.toClient.sent,
    FromConductor setup drawn x
  paired : Distinct drawn → ∀ id m id' pkt, Answered setup k id m → Announced setup k id' pkt →
    m.connectionToken = pkt.connectionToken → ∃ a s, Asked setup k id a ∧
      (setup.agent a).name = pkt.agentName ∧ OpenedBy k id' (.switch s) ∧
      m.switchName = (setup.switch s).name
  unique : Distinct drawn → ∀ id m id' m', Answered setup k id m → Answered setup k id' m' →
    m.connectionToken = m'.connectionToken → id = id'

variable {drawn : List (UInt64 × ℤ)} {newSent newRead : ℕ → Side → Packet → Prop}

/-- An answer is an old one, or among what was just sent. -/
theorem Answered.within (hw : Within k k' newSent newRead) {id : ℕ} {m : PacketConnectToSwitch}
    (h : Answered setup k' id m) : Answered setup k id m ∨
      ∃ body, newSent id .server (.connectToSwitch, body) ∧
        setup.codec.connectToSwitch.parseFromArray body = some m := by
  obtain ⟨c', body, hc', hserver, hmem, hparse⟩ := h
  obtain ⟨c, hc, hends, hnew⟩ := hw id c' hc'
  rcases (hnew .server).1 _ hmem with hold | hfresh
  · exact .inl ⟨c, body, hc, by rw [← hends, hserver], hold, hparse⟩
  · exact .inr ⟨body, hfresh, hparse⟩

theorem Announced.within (hw : Within k k' newSent newRead) {id : ℕ}
    {pkt : PacketAgentConnectionToken} (h : Announced setup k' id pkt) :
    Announced setup k id pkt ∨
      ∃ body, newSent id .server (.agentConnectionToken, body) ∧
        setup.codec.agentConnectionToken.parseFromArray body = some pkt := by
  obtain ⟨c', body, hc', hserver, hmem, hparse⟩ := h
  obtain ⟨c, hc, hends, hnew⟩ := hw id c' hc'
  rcases (hnew .server).1 _ hmem with hold | hfresh
  · exact .inl ⟨c, body, hc, by rw [← hends, hserver], hold, hparse⟩
  · exact .inr ⟨body, hfresh, hparse⟩

/-- Reading, and sending plain packets. -/
theorem History.plain (h : History setup k drawn) (hg : Grows k k')
    (hw : Within k k' newSent newRead) (hplain : ∀ id side x, newSent id side x → Plain x) :
    History setup k' drawn := by
  have hanswer : ∀ id m, Answered setup k' id m → Answered setup k id m := by
    intro id m hm
    rcases hm.within hw with hold | ⟨body, hnew, -⟩
    · exact hold
    · have hp := hplain _ _ _ hnew
      simp [Plain] at hp
  have hannounce : ∀ id pkt, Announced setup k' id pkt → Announced setup k id pkt := by
    intro id pkt hm
    rcases hm.within hw with hold | ⟨body, hnew, -⟩
    · exact hold
    · have hp := hplain _ _ _ hnew
      simp [Plain] at hp
  refine ⟨fun id c' hc' s hs => ?_, fun id c' hc' x hx => ?_, fun id c' hc' hserver x hx => ?_,
    fun hd id m id' pkt hm hpkt htok => ?_, fun hd id m id' m' hm hm' htok => ?_⟩
  · obtain ⟨c, hc, hends, -⟩ := hw id c' hc'
    rw [hends] at hs ⊢
    exact h.ends id c hc s hs
  · obtain ⟨c, hc, hends, hnew⟩ := hw id c' hc'
    rw [hends]
    rcases (hnew .client).1 x hx with hold | hfresh
    · exact (h.fromClient id c hc x hold).mono hg
    · exact (hplain _ _ _ hfresh).fromClient _
  · obtain ⟨c, hc, hends, hnew⟩ := hw id c' hc'
    rw [hends] at hserver
    rcases (hnew .server).1 x hx with hold | hfresh
    · exact h.fromConductor id c hc hserver x hold
    · exact (hplain _ _ _ hfresh).fromConductor _
  · obtain ⟨a, s, hask, hname, hopen, hsw⟩ :=
      h.paired hd id m id' pkt (hanswer _ _ hm) (hannounce _ _ hpkt) htok
    exact ⟨a, s, hask.mono hg, hname, hopen.mono hg, hsw⟩
  · exact h.unique hd id m id' m' (hanswer _ _ hm) (hanswer _ _ hm') htok

/-- A new connection, with a first packet of its client. -/
theorem History.opened (h : History setup k drawn) {id₀ : ℕ} (hfree : k id₀ = none) {ends : Ends}
    {first : List Packet} (hends : ∀ s, ends.server = .switch s → ∃ a, ends.client = .agent a)
    (hfirst : ∀ x ∈ first, FromClient setup k ends x) :
    History setup (Function.update k id₀ (some ⟨ends, ⟨[], first⟩, .empty⟩)) drawn := by
  have hg := grows_update hfree (⟨ends, ⟨[], first⟩, .empty⟩ : Connection Ends Packet)
  -- the new connection holds the client's first packet and nothing else
  have hold : ∀ id c', Function.update k id₀ (some ⟨ends, ⟨[], first⟩, .empty⟩) id = some c' →
      (id = id₀ ∧ c' = ⟨ends, ⟨[], first⟩, .empty⟩) ∨ k id = some c' := by
    intro id c' hc'
    by_cases hid : id = id₀
    · subst hid
      rw [Function.update_self, Option.some.injEq] at hc'
      exact .inl ⟨rfl, hc'.symm⟩
    · rw [Function.update_of_ne hid] at hc'
      exact .inr hc'
  have hanswer : ∀ id m,
      Answered setup (Function.update k id₀ (some ⟨ends, ⟨[], first⟩, .empty⟩)) id m →
        Answered setup k id m := by
    rintro id m ⟨c', body, hc', hserver, hmem, hparse⟩
    rcases hold id c' hc' with ⟨-, rfl⟩ | hc
    · simp [Channel.empty, Channel.sent] at hmem
    · exact ⟨c', body, hc, hserver, hmem, hparse⟩
  have hannounce : ∀ id pkt, Announced setup
      (Function.update k id₀ (some ⟨ends, ⟨[], first⟩, .empty⟩)) id pkt →
      Announced setup k id pkt := by
    rintro id pkt ⟨c', body, hc', hserver, hmem, hparse⟩
    rcases hold id c' hc' with ⟨-, rfl⟩ | hc
    · simp [Channel.empty, Channel.sent] at hmem
    · exact ⟨c', body, hc, hserver, hmem, hparse⟩
  refine ⟨fun id c' hc' s hs => ?_, fun id c' hc' x hx => ?_, fun id c' hc' hserver x hx => ?_,
    fun hd id m id' pkt hm hpkt htok => ?_, fun hd id m id' m' hm hm' htok => ?_⟩
  · rcases hold id c' hc' with ⟨-, rfl⟩ | hc
    · exact hends s hs
    · exact h.ends id c' hc s hs
  · rcases hold id c' hc' with ⟨-, rfl⟩ | hc
    · exact (hfirst x hx).mono hg
    · exact (h.fromClient id c' hc x hx).mono hg
  · rcases hold id c' hc' with ⟨-, rfl⟩ | hc
    · simp [Channel.empty, Channel.sent] at hx
    · exact h.fromConductor id c' hc hserver x hx
  · obtain ⟨a, s, hask, hname, hopen, hsw⟩ :=
      h.paired hd id m id' pkt (hanswer _ _ hm) (hannounce _ _ hpkt) htok
    exact ⟨a, s, hask.mono hg, hname, hopen.mono hg, hsw⟩
  · exact h.unique hd id m id' m' (hanswer _ _ hm) (hanswer _ _ hm') htok

theorem History.token_drawn_of_answered (h : History setup k drawn) {id : ℕ}
    {m : PacketConnectToSwitch} (hm : Answered setup k id m) :
    m.connectionToken ∈ drawn.map Prod.fst := by
  obtain ⟨c, body, hc, hserver, hmem, hparse⟩ := hm
  exact h.fromConductor id c hc hserver _ hmem m hparse

theorem History.token_drawn_of_announced (h : History setup k drawn) {id : ℕ}
    {pkt : PacketAgentConnectionToken} (hpkt : Announced setup k id pkt) :
    pkt.connectionToken ∈ drawn.map Prod.fst := by
  obtain ⟨c, body, hc, hserver, hmem, hparse⟩ := hpkt
  exact h.fromConductor id c hc hserver _ hmem pkt hparse

/-- What the conductor sends for one request: the answer to the agent and the
announcement to the switch, if any. -/
structure Issue (setup : Setup) (k : Conns) (newSent : ℕ → Side → Packet → Prop) (idA idS : ℕ)
    (m : PacketConnectToSwitch) (pkt : PacketAgentConnectionToken) : Prop where
  token_eq : m.connectionToken = pkt.connectionToken
  request : ∃ a s, Asked setup k idA a ∧ (setup.agent a).name = pkt.agentName ∧
    OpenedBy k idS (.switch s) ∧ m.switchName = (setup.switch s).name
  packets : ∀ id side x, newSent id side x → side = .server ∧
    ((id = idA ∧ x.1 = .connectToSwitch ∧
      setup.codec.connectToSwitch.parseFromArray x.2 = some m) ∨
    (id = idS ∧ x.1 = .agentConnectionToken ∧
      setup.codec.agentConnectionToken.parseFromArray x.2 = some pkt))

variable {idA idS : ℕ} {m₀ : PacketConnectToSwitch} {pkt₀ : PacketAgentConnectionToken}

theorem Issue.answered (hi : Issue setup k newSent idA idS m₀ pkt₀)
    (hw : Within k k' newSent newRead) {id : ℕ} {m : PacketConnectToSwitch}
    (hm : Answered setup k' id m) : Answered setup k id m ∨ (id = idA ∧ m = m₀) := by
  refine (hm.within hw).imp_right ?_
  rintro ⟨body, hnew, hparse⟩
  obtain ⟨-, ⟨hid, -, hparse'⟩ | ⟨-, htype, -⟩⟩ := hi.packets _ _ _ hnew
  · rw [hparse'] at hparse
    exact ⟨hid, (Option.some.inj hparse).symm⟩
  · simp at htype

theorem Issue.announced (hi : Issue setup k newSent idA idS m₀ pkt₀)
    (hw : Within k k' newSent newRead) {id : ℕ} {pkt : PacketAgentConnectionToken}
    (hpkt : Announced setup k' id pkt) : Announced setup k id pkt ∨ (id = idS ∧ pkt = pkt₀) := by
  refine (hpkt.within hw).imp_right ?_
  rintro ⟨body, hnew, hparse⟩
  obtain ⟨-, ⟨-, htype, -⟩ | ⟨hid, -, hparse'⟩⟩ := hi.packets _ _ _ hnew
  · simp at htype
  · rw [hparse'] at hparse
    exact ⟨hid, (Option.some.inj hparse).symm⟩

/-- The conductor answers a request, with a token it has just drawn. -/
theorem History.issued (h : History setup k drawn) (hg : Grows k k')
    (hw : Within k k' newSent newRead) (hi : Issue setup k newSent idA idS m₀ pkt₀) (τ : ℤ) :
    History setup k' (drawn ++ [(m₀.connectionToken, τ)]) := by
  have hlast : m₀.connectionToken ∈ (drawn ++ [(m₀.connectionToken, τ)]).map Prod.fst := by simp
  refine ⟨fun id c' hc' s hs => ?_, fun id c' hc' x hx => ?_, fun id c' hc' hserver x hx => ?_,
    fun hd id m id' pkt hm hpkt htok => ?_, fun hd id m id' m' hm hm' htok => ?_⟩
  · obtain ⟨c, hc, hends, -⟩ := hw id c' hc'
    rw [hends] at hs ⊢
    exact h.ends id c hc s hs
  · obtain ⟨c, hc, hends, hnew⟩ := hw id c' hc'
    rw [hends]
    rcases (hnew .client).1 x hx with hold | hfresh
    · exact (h.fromClient id c hc x hold).mono hg
    · obtain ⟨hside, -⟩ := hi.packets _ _ _ hfresh
      simp at hside
  · obtain ⟨c, hc, hends, hnew⟩ := hw id c' hc'
    rw [hends] at hserver
    rcases (hnew .server).1 x hx with hold | hfresh
    · exact (h.fromConductor id c hc hserver x hold).mono
    · unfold FromConductor
      obtain ⟨-, ⟨-, htype, hparse⟩ | ⟨-, htype, hparse⟩⟩ := hi.packets _ _ _ hfresh
      · rw [htype]
        intro m hm
        rw [hparse] at hm
        rw [← Option.some.inj hm]
        exact hlast
      · rw [htype]
        intro pkt hpkt
        rw [hparse] at hpkt
        rw [← Option.some.inj hpkt, ← hi.token_eq]
        exact hlast
  · -- an old packet has an old token, so both are old or both are new
    have hold₀ := hd.sublist (List.sublist_append_left drawn _)
    rcases hi.answered hw hm with hold | ⟨hid, rfl⟩
    · rcases hi.announced hw hpkt with hold' | ⟨-, rfl⟩
      · obtain ⟨a, s, hask, hname, hopen, hsw⟩ := h.paired hold₀ id m id' pkt hold hold' htok
        exact ⟨a, s, hask.mono hg, hname, hopen.mono hg, hsw⟩
      · have hdrawn := h.token_drawn_of_answered hold
        rw [htok, ← hi.token_eq] at hdrawn
        exact absurd hdrawn hd.not_mem
    · rcases hi.announced hw hpkt with hold' | ⟨hid', rfl⟩
      · have hdrawn := h.token_drawn_of_announced hold'
        rw [← htok] at hdrawn
        exact absurd hdrawn hd.not_mem
      · obtain ⟨a, s, hask, hname, hopen, hsw⟩ := hi.request
        rw [hid, hid']
        exact ⟨a, s, hask.mono hg, hname, hopen.mono hg, hsw⟩
  · have hold₀ := hd.sublist (List.sublist_append_left drawn _)
    rcases hi.answered hw hm with hold | ⟨hid, rfl⟩
    · rcases hi.answered hw hm' with hold' | ⟨-, rfl⟩
      · exact h.unique hold₀ id m id' m' hold hold' htok
      · have hdrawn := h.token_drawn_of_answered hold
        rw [htok] at hdrawn
        exact absurd hdrawn hd.not_mem
    · rcases hi.answered hw hm' with hold' | ⟨hid', -⟩
      · have hdrawn := h.token_drawn_of_answered hold'
        rw [← htok] at hdrawn
        exact absurd hdrawn hd.not_mem
      · rw [hid, hid']

end VNet.Network
