import VNet.Switch.Program

namespace VNet.Switch
open Protocol NetQueue

variable {codec : Codec} {s s' : Program} {e : Event} {t : UInt64}

theorem lookup_expireToken (now : ℤ) (m : FiniteMap UInt64 PendingToken) (k t : UInt64) :
    (expireToken now m k).lookup t = if t = k then
      (m.lookup t).filter fun tok => now - tok.created ≤ tokenExpiry else m.lookup t := by
  unfold expireToken
  cases hk : m.lookup k with
  | none =>
    split_ifs with ht
    · rw [ht, hk]
      rfl
    · rfl
  | some tok =>
    by_cases hold : tokenExpiry < now - tok.created
    · simp only [if_pos hold, FiniteMap.lookup_erase_eq]
      split_ifs with ht
      · rw [ht, hk, Option.filter_some, if_neg (by rw [decide_eq_true_eq]; omega)]
      · rfl
    · simp only [if_neg hold]
      split_ifs with ht
      · rw [ht, hk, Option.filter_some, if_pos (by rw [decide_eq_true_eq]; omega)]
      · rfl

/-- Going over some of the entries drops the old ones among them. -/
theorem lookup_foldl_expireToken (now : ℤ) (ks : List UInt64) (m : FiniteMap UInt64 PendingToken)
    (t : UInt64) : (ks.foldl (expireToken now) m).lookup t = if t ∈ ks then
      (m.lookup t).filter fun tok => now - tok.created ≤ tokenExpiry else m.lookup t := by
  induction ks generalizing m with
  | nil => simp
  | cons k ks ih =>
    rw [List.foldl_cons, ih, lookup_expireToken]
    by_cases hk : t = k
    · by_cases hks : t ∈ ks
      · simp [hk, hk ▸ hks, Option.filter_filter]
      · simp [hk, hk ▸ hks]
    · simp [hk]

theorem lookup_expireTokens (now : ℤ) (g : SwitchState) (t : UInt64) :
    (g.expireTokens now).pendingTokens.lookup t =
      (g.pendingTokens.lookup t).filter fun tok => now - tok.created ≤ tokenExpiry := by
  rw [SwitchState.expireTokens, lookup_foldl_expireToken]
  split_ifs with ht
  · rfl
  · have hnone : g.pendingTokens.lookup t = none := AList.lookup_eq_none.mpr ht
    rw [hnone]
    rfl

def Receives (codec : Codec) (t : UInt64) (s : Program) (e : Event) (token : PendingToken) : Prop :=
  ∃ data, tokenPacket codec s e = some (data, ⟨token.agentName, t⟩, token.created)

/-- The event marks the connection of the `ConnInfo` at `p` authenticated with
name `n`, for showing token `t`. -/
def Marks (codec : Codec) (s : Program) (e : Event) (p : ℕ) (t : UInt64) (n : Text) : Prop :=
  ∃ data created, authPacket codec s e = some (data, ⟨t⟩) ∧ data.ptrData = p ∧
    s.state.pendingTokens.lookup t = some ⟨n, created⟩

def BringsToken (codec : Codec) (t : UInt64) (s : Program) (e : Event) : Prop :=
  (tokenPacket codec s e).any fun r => r.2.1.connectionToken = t

def UsesToken (codec : Codec) (t : UInt64) (s : Program) (e : Event) : Prop :=
  ((authPacket codec s e).any fun r => r.2.connectionToken = t) ∧
    (s.state.pendingTokens.lookup t).isSome

instance (codec : Codec) (t : UInt64) (s : Program) (e : Event) :
    Decidable (BringsToken codec t s e) :=
  inferInstanceAs (Decidable (_ = true))

instance (codec : Codec) (t : UInt64) (s : Program) (e : Event) :
    Decidable (UsesToken codec t s e) :=
  inferInstanceAs (Decidable (_ ∧ _))

theorem bringsToken_iff : BringsToken codec t s e ↔ ∃ token, Receives codec t s e token := by
  unfold BringsToken Receives
  cases h : tokenPacket codec s e with
  | none => simp
  | some r =>
    obtain ⟨data, ⟨name, t'⟩, now⟩ := r
    simp only [Option.any_some, decide_eq_true_eq, Option.some.injEq]
    constructor
    · rintro rfl
      exact ⟨⟨name, now⟩, data, rfl⟩
    · rintro ⟨token, data', heq⟩
      simp only [Prod.mk.injEq, PacketAgentConnectionToken.mk.injEq] at heq
      exact heq.2.1.2

/-- The token goes on waiting. -/
structure Waits (codec : Codec) (t : UInt64) (created : ℤ) (s : Program) (e : Event) : Prop where
  not_brought : ¬ BringsToken codec t s e
  not_used : ¬ UsesToken codec t s e
  young : ∀ now, e = .expireTokens now → now - created ≤ tokenExpiry

theorem not_usesToken_of_authPacket (h : authPacket codec s e = none) :
    ¬ UsesToken codec t s e := by
  simp [UsesToken, h]

theorem not_bringsToken_of_tokenPacket (h : tokenPacket codec s e = none) :
    ¬ BringsToken codec t s e := by
  simp [BringsToken, h]

/-- The two handlers are for different packets. -/
theorem authPacket_of_tokenPacket {r : SocketData × PacketAgentConnectionToken × ℤ}
    (h : tokenPacket codec s e = some r) : authPacket codec s e = none := by
  obtain ⟨data, pkt, now⟩ := r
  obtain ⟨ok, rfl, -, ht, -⟩ := tokenPacket_eq_some h
  exact if_neg (by simp [ht])

theorem tokenPacket_of_authPacket {r : SocketData × PacketAuthConnectToSwitch}
    (h : authPacket codec s e = some r) : tokenPacket codec s e = none := by
  obtain ⟨data, pkt⟩ := r
  obtain ⟨now, ok, rfl, -, ht, -⟩ := authPacket_eq_some h
  exact if_neg (by simp [ht])

/-- Events that are neither of the two packets nor an expiry. -/
theorem Waits.of_other (created : ℤ) (htoken : tokenPacket codec s e = none)
    (hauth : authPacket codec s e = none) (hexpire : ∀ now, e ≠ .expireTokens now) :
    Waits codec t created s e where
  not_brought := not_bringsToken_of_tokenPacket htoken
  not_used := not_usesToken_of_authPacket hauth
  young now he := absurd he (hexpire now)

/-- A pending token has just come in, or was pending before and goes on waiting. -/
theorem Transition.pending (h : Transition codec s e s') {token : PendingToken}
    (hp : s'.state.pendingTokens.lookup t = some token) :
    Receives codec t s e token ∨
      (s.state.pendingTokens.lookup t = some token ∧ Waits codec t token.created s e) := by
  cases h with
  | idle _ htoken hauth hexpire => exact .inr ⟨hp, .of_other _ htoken hauth hexpire⟩
  | accepted => exact .inr ⟨hp, .of_other _ rfl rfl (by simp)⟩
  | notPut => exact .inr ⟨hp, .of_other _ rfl rfl (by simp)⟩
  | token _ data pkt now h =>
    simp only [remember, FiniteMap.lookup_insert_eq] at hp
    split_ifs at hp with ht
    · left
      refine ⟨data, ?_⟩
      rw [h, ht, ← Option.some.inj hp]
    · right
      refine ⟨hp, ?_, not_usesToken_of_authPacket (authPacket_of_tokenPacket h), ?_⟩
      · simpa [BringsToken, h] using Ne.symm ht
      · rintro now rfl
        simp [tokenPacket] at h
  | refused _ data pkt h hnone =>
    refine .inr ⟨hp, not_bringsToken_of_tokenPacket (tokenPacket_of_authPacket h), ?_, ?_⟩
    · -- the token that was refused is not in the map
      rintro ⟨hany, hsome⟩
      rw [h, Option.any_some, decide_eq_true_eq] at hany
      rw [← hany, hnone] at hsome
      simp at hsome
    · rintro now rfl
      simp [authPacket] at h
  | authenticated _ data pkt old info call h hsome =>
    simp only [mark, FiniteMap.lookup_erase_eq] at hp
    split_ifs at hp with ht
    refine .inr ⟨hp, not_bringsToken_of_tokenPacket (tokenPacket_of_authPacket h), ?_, ?_⟩
    · -- the token that was used is erased
      rintro ⟨hany, -⟩
      rw [h, Option.any_some, decide_eq_true_eq] at hany
      exact ht hany.symm
    · rintro now rfl
      simp [authPacket] at h
  | closed => exact .inr ⟨hp, .of_other _ rfl rfl (by simp)⟩
  | expired now =>
    -- what expiry leaves was young enough
    rw [lookup_expireTokens, Option.filter_eq_some_iff, decide_eq_true_eq] at hp
    refine .inr ⟨hp.1, not_bringsToken_of_tokenPacket rfl, not_usesToken_of_authPacket rfl, ?_⟩
    rintro now' he
    rw [← Event.expireTokens.inj he]
    exact hp.2
  | heartbeats now ok s' hk =>
    rw [hk.state_eq] at hp
    exact .inr ⟨hp, .of_other _ rfl rfl (by simp)⟩

/-- A token that is used is gone. -/
theorem Transition.used (h : Transition codec s e s') (hu : UsesToken codec t s e) :
    s'.state.pendingTokens.lookup t = none := by
  by_contra hne
  obtain ⟨token, htoken⟩ := Option.ne_none_iff_exists'.mp hne
  rcases h.pending htoken with ⟨data, hr⟩ | ⟨-, hw⟩
  · exact not_usesToken_of_authPacket (authPacket_of_tokenPacket hr) hu
  · exact hw.not_used hu

/-- A token that comes in is pending. -/
theorem Transition.received (h : Transition codec s e s') {token : PendingToken}
    (hr : Receives codec t s e token) : s'.state.pendingTokens.lookup t = some token := by
  obtain ⟨data, hr⟩ := hr
  obtain ⟨ok, rfl, -⟩ := tokenPacket_eq_some hr
  generalize he : Event.packet data token.created ok = e at h hr
  cases h with
  | idle _ htoken =>
    rw [htoken] at hr
    simp at hr
  | token _ data' pkt now htoken =>
    rw [htoken, Option.some.injEq, Prod.mk.injEq, Prod.mk.injEq] at hr
    obtain ⟨-, rfl, rfl⟩ := hr
    simp only [remember, FiniteMap.lookup_insert_eq, if_pos]
  | refused _ _ _ hauth =>
    rw [tokenPacket_of_authPacket hauth] at hr
    simp at hr
  | authenticated _ _ _ _ _ _ hauth =>
    rw [tokenPacket_of_authPacket hauth] at hr
    simp at hr
  | _ => simp at he

/-- A pending token that is not shown and not old stays, or comes in again. -/
theorem Transition.stays (h : Transition codec s e s') {token : PendingToken}
    (hp : s.state.pendingTokens.lookup t = some token)
    (hshown : ∀ data, authPacket codec s e ≠ some (data, ⟨t⟩))
    (hyoung : ∀ now, e = .expireTokens now → now - token.created ≤ tokenExpiry) :
    s'.state.pendingTokens.lookup t = some token ∨ ∃ new, Receives codec t s e new := by
  cases h with
  | token _ data pkt now htoken =>
    simp only [remember, FiniteMap.lookup_insert_eq]
    split_ifs with ht
    · right
      refine ⟨⟨pkt.agentName, now⟩, data, ?_⟩
      rw [htoken, ht]
    · exact .inl hp
  | authenticated _ data pkt old info call hauth =>
    have hne : t ≠ pkt.connectionToken := by
      rintro rfl
      exact hshown data hauth
    simp only [mark, FiniteMap.lookup_erase_eq, if_neg hne]
    exact .inl hp
  | expired now =>
    left
    rw [lookup_expireTokens, hp, Option.filter_some, if_pos]
    rw [decide_eq_true_eq]
    exact hyoung now rfl
  | heartbeats now ok s' hk =>
    rw [hk.state_eq]
    exact .inl hp
  | _ => exact .inl hp

def stock (t : UInt64) (s : Program) : ℕ := if (s.state.pendingTokens.lookup t).isSome then 1 else 0

/-- Using a token takes it from the stock, and only a packet that brings it
adds it. -/
theorem stock_step (codec : Codec) (t : UInt64) (s : Program) (e : Event) (hw : s.Wired) :
    (if UsesToken codec t s e then 1 else 0) + stock t (step codec s e) ≤
      (if BringsToken codec t s e then 1 else 0) + stock t s := by
  have h := step_transition codec hw e
  by_cases hu : UsesToken codec t s e
  · -- using the token takes it out of the map
    have hbefore : stock t s = 1 := if_pos hu.2
    have hafter : stock t (step codec s e) = 0 := by
      rw [stock, h.used hu]
      rfl
    rw [if_pos hu, hbefore, hafter]
    omega
  · rw [if_neg hu]
    cases hp : (step codec s e).state.pendingTokens.lookup t with
    | none =>
      have hafter : stock t (step codec s e) = 0 := by
        rw [stock, hp]
        rfl
      omega
    | some token =>
      have hafter : stock t (step codec s e) = 1 := by
        rw [stock, hp]
        rfl
      -- a token in the map was there before, or this step brought it
      rcases h.pending hp with hr | ⟨hbefore, -⟩
      · rw [if_pos (bringsToken_iff.mpr ⟨token, hr⟩), hafter]
        omega
      · have hstock : stock t s = 1 := by
          rw [stock, hbefore]
          rfl
        omega

/-- Where a pending token comes from: the last packet that brought it, since
when it has waited. -/
theorem pending_origin (cdtSock : Fd) (now : ℤ) (es : List Event) {token : PendingToken}
    (h : (run codec (start cdtSock now) es).state.pendingTokens.lookup t = some token) :
    ∃ as e bs, es = as ++ e :: bs ∧ Receives codec t (run codec (start cdtSock now) as) e token ∧
      Runs.Steps (step codec) (Waits codec t token.created)
        (run codec (start cdtSock now) (as ++ [e])) bs := by
  induction es using List.reverseRecOn with
  | nil => simp [start] at h
  | append_singleton es e ih =>
    rw [run, Runs.run_concat] at h
    rcases (step_transition codec (wired_run codec cdtSock now es) e).pending h with hr | ⟨hp, hw⟩
    · exact ⟨es, e, [], rfl, hr, trivial⟩
    · obtain ⟨as, r, bs, rfl, hr, hs⟩ := ih hp
      refine ⟨as, r, bs ++ [e], by simp, hr, (Runs.steps_append _ _ _).mpr ⟨hs, ?_, trivial⟩⟩
      rw [run, ← Runs.run_append, List.append_assoc]
      exact hw

/-- A token that waits is not lost. -/
theorem Transition.waits (h : Transition codec s e s') {token : PendingToken}
    (hp : s.state.pendingTokens.lookup t = some token) (hw : Waits codec t token.created s e) :
    s'.state.pendingTokens.lookup t = some token := by
  have hshown : ∀ data, authPacket codec s e ≠ some (data, ⟨t⟩) := by
    intro data hauth
    refine hw.not_used ⟨?_, ?_⟩
    · rw [hauth, Option.any_some, decide_eq_true_eq]
    · rw [hp]
      rfl
  rcases h.stays hp hshown hw.young with hstays | ⟨new, hnew⟩
  · exact hstays
  · exact absurd (bringsToken_iff.mpr ⟨new, hnew⟩) hw.not_brought

theorem pending_of_waits (hw : s.Wired) {token : PendingToken}
    (hp : s.state.pendingTokens.lookup t = some token) {es : List Event}
    (hes : Runs.Steps (step codec) (Waits codec t token.created) s es) :
    (run codec s es).state.pendingTokens.lookup t = some token := by
  have h := Runs.invariant
    (I := fun s : Program => s.Wired ∧ s.state.pendingTokens.lookup t = some token)
    (fun s e hs hwait => ⟨wired_step codec hs.1 e,
      (step_transition codec hs.1 e).waits hs.2 hwait⟩) ⟨hw, hp⟩ hes
  exact h.2

/-- The pending tokens are a replay of the history: those that were brought and,
since the last packet that brought them, neither used nor, at any expiry, too old;
each with what that packet says. -/
theorem tokens_replay_history (codec : Codec) (cdtSock : Fd) (now : ℤ) (es : List Event)
    (t : UInt64) (token : PendingToken) :
    (run codec (start cdtSock now) es).state.pendingTokens.lookup t = some token ↔
      ∃ as e bs, es = as ++ e :: bs ∧ Receives codec t (run codec (start cdtSock now) as) e token ∧
        Runs.Steps (step codec) (Waits codec t token.created)
          (run codec (start cdtSock now) (as ++ [e])) bs := by
  constructor
  · exact pending_origin cdtSock now es
  · rintro ⟨as, e, bs, rfl, hr, hs⟩
    have hw := wired_run codec cdtSock now as
    have hafter := (step_transition codec hw e).received hr
    have hlast : run codec (start cdtSock now) (as ++ [e]) =
        step codec (run codec (start cdtSock now) as) e := Runs.run_concat _ _ _
    rw [← hlast] at hafter
    have hrun := pending_of_waits (wired_run codec cdtSock now _) hafter hs
    rwa [run, ← Runs.run_append, List.append_assoc] at hrun

/-- What a successful authentication writes into the `ConnInfo`. -/
theorem peer_of_marks (hw : s.Wired) {p : ℕ} {n : Text} (h : Marks codec s e p t n) :
    ((step codec s e).infos.lookup p).map ConnInfo.peer = some ⟨.agentAuthenticated, n⟩ := by
  obtain ⟨data, created, hauth, rfl, hp⟩ := h
  obtain ⟨now, ok, rfl, hh, ht, hparse⟩ := authPacket_eq_some hauth
  obtain ⟨info, hinfo, -⟩ := hw.alive _ _ hh
  have hp' : s.state.pendingTokens.lookup (PacketAuthConnectToSwitch.mk t).connectionToken =
      some ⟨n, created⟩ := hp
  obtain ⟨call, -, -, heq⟩ := onAuthConnectToSwitch_known codec hp' hinfo ok
  have hstep : step codec s (.packet data now ok) = mark s data t n info call := by
    simp only [step, handle, Server.socketReady, if_pos hh, Dispatch.onSocketReady, ht,
      MessageCodec.ifParsed, dispatch, hparse, heq]
  rw [hstep, mark]
  simp only [FiniteMap.lookup_insert_eq, if_pos, Option.map_some]

/-- An `AUTH_CONNECT_TO_SWITCH` that does not succeed leaves the tokens and the
`ConnInfo`s alone. -/
theorem unchanged_of_not_marks (hw : s.Wired) {data : SocketData} {now : ℤ} {ok : Bool}
    (ht : data.packetType = .authConnectToSwitch)
    (h : ∀ p t n, ¬ Marks codec s (.packet data now ok) p t n) :
    (step codec s (.packet data now ok)).state.pendingTokens = s.state.pendingTokens ∧
      (step codec s (.packet data now ok)).infos = s.infos := by
  have hstep := step_transition codec hw (.packet data now ok)
  generalize step codec s (.packet data now ok) = s' at hstep
  generalize he : Event.packet data now ok = e at hstep
  cases hstep with
  | idle => exact ⟨rfl, rfl⟩
  | token _ data' pkt now' htoken =>
    obtain ⟨ok', heq, -, ht', -⟩ := tokenPacket_eq_some htoken
    rw [← he] at heq
    rw [← (Event.packet.inj heq).1, ht] at ht'
    simp at ht'
  | refused => exact ⟨rfl, rfl⟩
  | authenticated _ data' pkt token info call hauth hsome =>
    subst he
    exact absurd ⟨data', token.created, hauth, rfl, hsome⟩ (h data'.ptrData pkt.connectionToken _)
  | _ => simp at he

/-- Tokens are one-time. A token authenticates no more often than it is brought;
each time with the name of the packet that brought it last, since when it was
neither used nor overwritten nor, at any expiry, too old; and an
`AUTH_CONNECT_TO_SWITCH` with any other outcome changes no token, role or name. -/
theorem tokens_are_one_time (codec : Codec) (cdtSock : Fd) (now : ℤ) (es : List Event) :
    let start := start cdtSock now
    (∀ t, Runs.count (step codec) (UsesToken codec t) start es ≤
      Runs.count (step codec) (BringsToken codec t) start es) ∧
    (∀ e p t n, Marks codec (run codec start es) e p t n →
      ((run codec start (es ++ [e])).infos.lookup p).map ConnInfo.peer =
          some ⟨.agentAuthenticated, n⟩ ∧
        ∃ as r bs created, es = as ++ r :: bs ∧
          Receives codec t (run codec start as) r ⟨n, created⟩ ∧
          Runs.Steps (step codec) (Waits codec t created) (run codec start (as ++ [r])) bs) ∧
    ∀ data now ok, data.packetType = .authConnectToSwitch →
      (∀ p t n, ¬ Marks codec (run codec start es) (.packet data now ok) p t n) →
      (run codec start (es ++ [.packet data now ok])).state.pendingTokens =
          (run codec start es).state.pendingTokens ∧
        ∀ p, ((run codec start (es ++ [.packet data now ok])).infos.lookup p).map ConnInfo.peer =
          ((run codec start es).infos.lookup p).map ConnInfo.peer := by
  intro start
  have hw := wired_run codec cdtSock now es
  refine ⟨fun t => ?_, fun e p t n hm => ⟨?_, ?_⟩, fun data now ok ht hno => ?_⟩
  · have hle := Runs.count_add_le (I := Server.Wired) (fun _ e hw => wired_step codec hw e)
      (stock_step codec t) (wired_start cdtSock now) es
    have hzero : stock t start = 0 := rfl
    exact (Nat.le_add_right _ _).trans (hle.trans_eq (by rw [hzero, Nat.add_zero]))
  · rw [run, Runs.run_concat]
    exact peer_of_marks hw hm
  · obtain ⟨data, created, -, -, hp⟩ := hm
    obtain ⟨as, r, bs, heq, hr, hs⟩ := pending_origin cdtSock now es hp
    exact ⟨as, r, bs, created, heq, hr, hs⟩
  · rw [run, Runs.run_concat]
    obtain ⟨htokens, hinfos⟩ := unchanged_of_not_marks hw ht hno
    refine ⟨htokens, fun p => ?_⟩
    rw [hinfos]

def role (s : Program) (p : ℕ) : Option ConnRole :=
  (s.infos.lookup p).map fun info => info.peer.role

def FromConductor (codec : Codec) (t : UInt64) (n : Text) (s : Program) (e : Event) : Prop :=
  ∃ data created, tokenPacket codec s e = some (data, ⟨n, t⟩, created) ∧
    role s data.ptrData = some .conductor

/-- Every `AGENT_CONNECTION_TOKEN` comes in on a connection with role
`CONDUCTOR`; the handler does not look. -/
def TokensFromConductor (codec : Codec) (s : Program) (e : Event) : Prop :=
  ∀ r ∈ tokenPacket codec s e, role s r.1.ptrData = some .conductor

instance (codec : Codec) (s : Program) (e : Event) : Decidable (TokensFromConductor codec s e) :=
  inferInstanceAs (Decidable (∀ r ∈ tokenPacket codec s e, _))

/-- While tokens come in on the conductor's connection only, every name that is
authenticated was sent by the conductor, with the token shown. -/
theorem authenticated_by_conductor (codec : Codec) (cdtSock : Fd) (now : ℤ) (es : List Event)
    (h : Runs.Steps (step codec) (TokensFromConductor codec) (start cdtSock now) es) :
    ∀ as e bs, es = as ++ e :: bs → ∀ p t n,
      Marks codec (run codec (start cdtSock now) as) e p t n →
      ∃ cs r ds, as = cs ++ r :: ds ∧
        FromConductor codec t n (run codec (start cdtSock now) cs) r := by
  rintro as e bs rfl p t n ⟨data, created, -, -, hp⟩
  obtain ⟨cs, r, ds, rfl, ⟨data', hr⟩, -⟩ := pending_origin cdtSock now as hp
  refine ⟨cs, r, ds, rfl, data', created, hr, ?_⟩
  have hcond := (Runs.steps_iff_forall _ _).mp h cs r (ds ++ e :: bs) (by simp)
  exact hcond _ hr

/-- The conductor announces an agent, which then connects and shows its token. -/
theorem authenticated_by_conductor_joining :
    let announce := Event.packet (Server.packetData 3 1 .agentConnectionToken
      [0x0a, 1, 0x61, 0x11, 7, 0, 0, 0, 0, 0, 0, 0]) 0 true
    let auth := Event.packet (Server.packetData 5 2 .authConnectToSwitch
      [0x09, 7, 0, 0, 0, 0, 0, 0, 0]) 0 true
    ∃ cs r ds, [announce, .accept 5 0 true] = cs ++ r :: ds ∧
      FromConductor .sample 7 ['a'] (run .sample (start 3 0) cs) r ∧
      Marks .sample (run .sample (start 3 0) [announce, .accept 5 0 true]) auth 2 7 ['a'] := by
  intro announce auth
  have hm : Marks .sample (run .sample (start 3 0) [announce, .accept 5 0 true]) auth 2 7 ['a'] :=
    ⟨_, 0, rfl, rfl, by decide⟩
  obtain ⟨cs, r, ds, heq, hr⟩ := authenticated_by_conductor .sample 3 0
    [announce, .accept 5 0 true, auth] (by decide) _ auth [] rfl 2 7 ['a'] hm
  exact ⟨cs, r, ds, heq, hr, hm⟩

/-- An agent's connection sends a token for a name of its choice, and shows it. -/
theorem authenticated_without_conductor :
    ¬ ∀ (codec : Codec) (cdtSock : Fd) (now : ℤ) (es : List Event) (e : Event) (p : ℕ)
      (t : UInt64) (n : Text), Marks codec (run codec (start cdtSock now) es) e p t n →
      ∃ cs r ds, es = cs ++ r :: ds ∧
        FromConductor codec t n (run codec (start cdtSock now) cs) r := by
  intro h
  let own := Event.packet (Server.packetData 5 2 .agentConnectionToken
    [0x0a, 1, 0x61, 0x11, 7, 0, 0, 0, 0, 0, 0, 0]) 0 true
  let auth := Event.packet (Server.packetData 5 2 .authConnectToSwitch
    [0x09, 7, 0, 0, 0, 0, 0, 0, 0]) 0 true
  have hm : Marks .sample (run .sample (start 3 0) [.accept 5 0 true, own]) auth 2 7 ['a'] :=
    ⟨_, 0, rfl, rfl, by decide⟩
  obtain ⟨cs, r, ds, heq, data, created, hr, hrole⟩ := h .sample 3 0 _ auth 2 7 ['a'] hm
  match cs, heq with
  | [], heq =>
    rw [← (List.cons.inj heq).1] at hr
    simp [tokenPacket] at hr
  | [_], heq =>
    obtain ⟨rfl, hrest⟩ := List.cons.inj heq
    have hdata : data.ptrData = 2 := by
      obtain ⟨ok, he, -⟩ := tokenPacket_eq_some hr
      have hsame := (List.cons.inj hrest).1.trans he
      rw [← (Event.packet.inj hsame).1]
      rfl
    rw [hdata] at hrole
    exact absurd hrole (by decide)
  | _ :: _ :: cs, heq => simp at heq

end VNet.Switch
