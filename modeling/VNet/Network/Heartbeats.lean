import VNet.Agent.Program
import VNet.Conductor.Program
import VNet.Network.ConductorPart
import VNet.Switch.Program

namespace VNet.Server
open Protocol NetQueue Network

variable {σ ρ ε α β : Type} {s s' t : Server σ ρ}

def Bounded (s : Server σ ρ) : Prop := ∀ p info, s.infos.lookup p = some info → p < s.nextInfo

/-- A part of a program that sends no heartbeat and keeps the times in the
`ConnInfo`s. -/
structure Still (s s' : Server σ ρ) : Prop where
  bounded : s.Bounded → s'.Bounded
  nextInfo_le : s.nextInfo ≤ s'.nextInfo
  infos : ∀ p info, s'.infos.lookup p = some info → s.nextInfo ≤ p ∨
    ∃ old, s.infos.lookup p = some old ∧ info.lastHbSent = old.lastHbSent
  sent : ∃ calls, s'.sent = s.sent ++ calls ∧ ∀ c ∈ calls, c.type ≠ .heartbeat

theorem Still.trans (h : Still s t) (h' : Still t s') : Still s s' where
  bounded hb := h'.bounded (h.bounded hb)
  nextInfo_le := h.nextInfo_le.trans h'.nextInfo_le
  infos p info hp := by
    rcases h'.infos p info hp with hnew | ⟨mid, hmid, htime⟩
    · exact .inl (h.nextInfo_le.trans hnew)
    · rcases h.infos p mid hmid with hnew | ⟨old, hold, htime'⟩
      · exact .inl hnew
      · exact .inr ⟨old, hold, htime.trans htime'⟩
  sent := by
    obtain ⟨calls, hcalls, hne⟩ := h.sent
    obtain ⟨calls', hcalls', hne'⟩ := h'.sent
    refine ⟨calls ++ calls', by rw [hcalls', hcalls, List.append_assoc], fun c hc => ?_⟩
    rcases List.mem_append.mp hc with hc | hc
    · exact hne c hc
    · exact hne' c hc

/-- The `ConnInfo`s and the calls stay as they are. -/
theorem Still.of_eq (hinfos : s'.infos = s.infos) (hnext : s'.nextInfo = s.nextInfo)
    (hsent : s'.sent = s.sent) : Still s s' where
  bounded hb p info hp := by
    rw [hinfos] at hp
    rw [hnext]
    exact hb p info hp
  nextInfo_le := hnext.ge
  infos p info hp := by
    rw [hinfos] at hp
    exact .inr ⟨info, hp, rfl⟩
  sent := ⟨[], by rw [hsent, List.append_nil], by simp⟩

theorem Still.refl (s : Server σ ρ) : Still s s := .of_eq rfl rfl rfl

def Quiet (m : Run σ ρ α) : Prop := ∀ s, Still s (m s).2

namespace Quiet

theorem pure (a : α) : Quiet (Pure.pure a : Run σ ρ α) := fun s => .refl s

theorem look (f : Server σ ρ → α) : Quiet (Exec.look f : Run σ ρ α) := fun s => .refl s

theorem bind {m : Run σ ρ α} {f : α → Run σ ρ β} (hm : Quiet m) (hf : ∀ a, Quiet (f a)) :
    Quiet (m >>= f) := by
  intro s
  have h := hm s
  cases hr : m s with
  | mk r t =>
    rw [hr] at h
    cases r with
    | ok a =>
      rw [Exec.bind_ok hr]
      exact h.trans (hf a t)
    | error e =>
      rw [Exec.bind_error hr]
      exact h

theorem ite {c : Prop} [Decidable c] {m n : Run σ ρ α} (hm : Quiet m) (hn : Quiet n) :
    Quiet (if c then m else n) := by
  split_ifs
  · exact hm
  · exact hn

theorem forEach {f : α → Run σ ρ Unit} (hf : ∀ a, Quiet (f a)) (as : List α) :
    Quiet (Exec.forEach f as) := by
  induction as with
  | nil => exact pure ()
  | cons a as ih => exact bind (hf a) fun _ => ih

theorem deref (p : ℕ) : Quiet (deref p : Run σ ρ _) := by
  intro s
  unfold Server.deref
  split
  · exact .refl s
  · exact .refl s

/-- A `ConnInfo` is overwritten, the time in it stays. -/
theorem assign (p : ℕ) {f : ConnInfo ρ → ConnInfo ρ} (hf : ∀ i, (f i).lastHbSent = i.lastHbSent) :
    Quiet (assign p f : Run σ ρ _) := by
  intro s
  cases hp : s.infos.lookup p with
  | none =>
    have hd : (Server.deref p : Run σ ρ _) s = (.error (.freed p), s) := by
      simp only [Server.deref, hp]
    rw [Server.assign, Exec.bind_error hd]
    exact .refl s
  | some old =>
    rw [assign_ok hp]
    refine ⟨fun hb q info hq => ?_, le_rfl, fun q info hq => .inr ?_, [], by simp, by simp⟩
    · rw [FiniteMap.lookup_insert_eq] at hq
      split_ifs at hq with heq
      · rw [heq]
        exact hb p old hp
      · exact hb q info hq
    · rw [FiniteMap.lookup_insert_eq] at hq
      split_ifs at hq with heq
      · rw [← Option.some.inj hq, heq]
        exact ⟨old, hp, hf old⟩
      · exact ⟨info, hq, rfl⟩

theorem delete (p : ℕ) : Quiet (delete p : Run σ ρ _) := by
  refine bind (deref p) fun _ s => ⟨fun hb q info hq => ?_, le_rfl, fun q info hq => .inr ?_, ?_⟩
  · rw [Exec.change_apply, FiniteMap.lookup_erase_eq] at hq
    split_ifs at hq
    exact hb q info hq
  · rw [Exec.change_apply, FiniteMap.lookup_erase_eq] at hq
    split_ifs at hq
    exact ⟨info, hq, rfl⟩
  · exact ⟨[], by simp [Exec.change_apply], by simp⟩

theorem modify (f : σ → σ) : Quiet (modify f : Run σ ρ _) := fun _ => .of_eq rfl rfl rfl

theorem queueClose (fd : Fd) : Quiet (queueClose fd : Run σ ρ _) := fun _ => .of_eq rfl rfl rfl

theorem send (p : ℕ) (fd : Fd) {type : PacketType} (htype : type ≠ .heartbeat)
    (body : Option Bytes) (ok : Bool) : Quiet (send p fd type body ok : Run σ ρ _) := by
  intro s
  rw [send_apply]
  refine ⟨fun hb => hb, le_rfl, fun q info hq => .inr ⟨info, hq, rfl⟩, [_], rfl, ?_⟩
  simpa using htype

theorem accept (fd : Fd) (info : ConnInfo ρ) (put : Bool) :
    Quiet (accept fd info put : Run σ ρ _) := by
  intro s
  rw [Server.accept, Exec.change_apply]
  split_ifs
  · exact .refl s
  · refine ⟨fun hb q i hq => ?_, Nat.le_succ _, fun q i hq => ?_, [], by simp, by simp⟩
    · rw [FiniteMap.lookup_insert_eq] at hq
      split_ifs at hq with heq
      · change q < s.nextInfo + 1
        omega
      · exact (hb q i hq).trans (Nat.lt_succ_self _)
    · rw [FiniteMap.lookup_insert_eq] at hq
      split_ifs at hq with heq
      · exact .inl heq.ge
      · exact .inr ⟨i, hq, rfl⟩
  · exact ⟨fun hb q i hq => (hb q i hq).trans (Nat.lt_succ_self _), Nat.le_succ _,
      fun q i hq => .inr ⟨i, hq, rfl⟩, [], by simp, by simp⟩

theorem socketReady {codec : Codec} {d : Dispatch (Server σ ρ) Fault} {data : SocketData}
    (h : Quiet (d.onSocketReady codec data)) : Quiet (socketReady codec d data) := by
  intro s
  unfold Server.socketReady
  split_ifs
  · exact h s
  · exact .refl s

theorem socketClosed {d : Dispatch (Server σ ρ) Fault} {data : CloseData}
    (h : Quiet (d.onClose data)) : Quiet (socketClosed d data) := by
  intro s
  unfold Server.socketClosed
  split_ifs
  · exact bind h (fun _ => queueClose data.fd) s
  · exact .refl s

theorem ifParsed {M : Type} (c : MessageCodec M) (data : SocketData)
    {handler : SocketData → M → Run σ ρ Unit} (h : ∀ m, Quiet (handler data m)) :
    Quiet (c.ifParsed data handler) := by
  unfold MessageCodec.ifParsed
  split
  · exact h _
  · exact pure ()

end Quiet

/-- What a round at the time `now` leaves, when it is through with `done`. -/
structure Round (now : ℤ) (s : Server σ ρ) (done : List ℕ) (s' : Server σ ρ) : Prop where
  nextInfo_eq : s'.nextInfo = s.nextInfo
  infos : ∀ p info, s'.infos.lookup p = some info → ∃ old, s.infos.lookup p = some old ∧
    info.fd = old.fd ∧ (info.lastHbSent = old.lastHbSent ∨
      info.lastHbSent = now ∧ heartbeatInterval ≤ now - old.lastHbSent)
  sent : ∃ calls, s'.sent = s.sent ++ calls ∧ (calls.map SendCall.info).Nodup ∧
    ∀ c ∈ calls, c.type = .heartbeat ∧ ∃ old new, s.infos.lookup c.info = some old ∧
      heartbeatInterval ≤ now - old.lastHbSent ∧ s'.infos.lookup c.info = some new ∧
      new.lastHbSent = now
  due : ∀ p ∈ done, ∀ info, s'.infos.lookup p = some info → 0 ≤ info.fd →
    now - info.lastHbSent < heartbeatInterval

theorem heartbeatInterval_pos : 0 < heartbeatInterval := by decide

theorem Round.refl (now : ℤ) (s : Server σ ρ) : Round now s [] s where
  nextInfo_eq := rfl
  infos _ info hp := ⟨info, hp, rfl, .inl rfl⟩
  sent := ⟨[], by simp, by simp, by simp⟩
  due := by simp

variable {now : ℤ} {done : List ℕ} {p : ℕ} {info : ConnInfo ρ}

/-- A `ConnInfo` that is not due, or has no descriptor. -/
theorem Round.skip (h : Round now s done t) (hp : t.infos.lookup p = some info)
    (hnot : ¬ (0 ≤ info.fd ∧ heartbeatInterval ≤ now - info.lastHbSent)) :
    Round now s (done ++ [p]) t where
  nextInfo_eq := h.nextInfo_eq
  infos := h.infos
  sent := h.sent
  due q hq i hi hfd := by
    rcases List.mem_append.mp hq with hq | hq
    · exact h.due q hq i hi hfd
    · rw [List.mem_singleton.mp hq, hp] at hi
      rw [← Option.some.inj hi] at hfd ⊢
      exact not_le.mp fun hdue => hnot ⟨hfd, hdue⟩

/-- A heartbeat is sent. Its `ConnInfo` was not done before: the time in it
would be `now`. -/
theorem Round.beat (h : Round now s done t) (hp : t.infos.lookup p = some info)
    (hdue : heartbeatInterval ≤ now - info.lastHbSent) {c : SendCall} (hinfo : c.info = p)
    (htype : c.type = .heartbeat) : Round now s (done ++ [p])
      { t.record c with infos := t.infos.insert p { info with lastHbSent := now } } := by
  have hpos := heartbeatInterval_pos
  have hne : info.lastHbSent ≠ now := by
    intro heq
    rw [heq] at hdue
    omega
  obtain ⟨old, hold, hfd, htime⟩ := h.infos p info hp
  have hsame : info.lastHbSent = old.lastHbSent := htime.resolve_right fun h => hne h.1
  obtain ⟨calls, hsent, hnodup, hcalls⟩ := h.sent
  refine ⟨h.nextInfo_eq, fun q i hi => ?_, ⟨calls ++ [c], ?_, ?_, fun d hd => ?_⟩,
    fun q hq i hi hifd => ?_⟩
  · rw [FiniteMap.lookup_insert_eq] at hi
    split_ifs at hi with heq
    · rw [← Option.some.inj hi, heq]
      exact ⟨old, hold, hfd, .inr ⟨rfl, hsame ▸ hdue⟩⟩
    · exact h.infos q i hi
  · change t.sent ++ [c] = _
    rw [hsent, List.append_assoc]
  · rw [List.map_append, List.map_singleton, List.nodup_append]
    refine ⟨hnodup, List.nodup_singleton _, fun q hq r hr heq => ?_⟩
    obtain ⟨d, hd, hdq⟩ := List.mem_map.mp hq
    obtain ⟨-, -, new, -, -, hnew, hnow⟩ := hcalls d hd
    rw [hdq, heq, List.mem_singleton.mp hr, hinfo, hp] at hnew
    exact hne (Option.some.inj hnew ▸ hnow)
  · rw [FiniteMap.lookup_insert_eq]
    rcases List.mem_append.mp hd with hd | hd
    · obtain ⟨hbeat, o, n, ho, hodue, hn, hnow⟩ := hcalls d hd
      refine ⟨hbeat, o, ?_⟩
      split_ifs with heq
      · exact ⟨_, ho, hodue, rfl, rfl⟩
      · exact ⟨n, ho, hodue, hn, hnow⟩
    · rw [List.mem_singleton.mp hd, hinfo, if_pos rfl]
      exact ⟨htype, old, _, hold, hsame ▸ hdue, rfl, rfl⟩
  · rw [FiniteMap.lookup_insert_eq] at hi
    split_ifs at hi with heq
    · rw [← Option.some.inj hi]
      simpa using hpos
    · rcases List.mem_append.mp hq with hq | hq
      · exact h.due q hq i hi hifd
      · exact absurd (List.mem_singleton.mp hq) heq

theorem Round.tryHb (now : ℤ) (s : Server σ ρ) (ok : Fd → Bool) (done : List ℕ) (p : ℕ) :
    Exec.Triple (Round now s done) (tryHb now ok p) (fun _ => Round now s (done ++ [p]))
      fun _ t => ∃ done, Round now s done t := by
  intro t ht
  cases hp : t.infos.lookup p with
  | none =>
    have hd : (deref p : Run σ ρ _) t = (.error (.freed p), t) := by simp only [deref, hp]
    rw [Server.tryHb, Exec.bind_error hd]
    exact ⟨done, ht⟩
  | some info =>
    rw [Server.tryHb, Exec.bind_ok (deref_ok hp)]
    split_ifs with hdue
    · rw [Exec.bind_ok (send_apply _ _ _ _ _ _), assign_ok (s := t.record _) hp]
      exact ht.beat hp hdue.2 rfl rfl
    · exact ht.skip hp hdue

/-- The round, to its end or to a fault. -/
theorem round_forEach (now : ℤ) (s : Server σ ρ) (ok : Fd → Bool) (ps : List ℕ) :
    (∃ done, Round now s done (Exec.forEach (tryHb now ok) ps s).2) ∧
      ((Exec.forEach (tryHb now ok) ps s).1 = .ok () →
        Round now s ps (Exec.forEach (tryHb now ok) ps s).2) := by
  have h := Exec.Triple.forEach (fun done p => Round.tryHb now s ok done p) [] ps
  obtain ⟨u, t, hr, hround⟩ | ⟨e, t, hr, hround⟩ := h.result (Round.refl now s)
  · rw [hr]
    exact ⟨⟨_, hround⟩, fun _ => hround⟩
  · rw [hr]
    exact ⟨hround, fun hok => by simp at hok⟩

def beats (s s' : Server σ ρ) : List ℕ :=
  ((newCalls s s').filter fun c => c.type = .heartbeat).map SendCall.info

theorem mem_beats {calls : List SendCall} (h : s'.sent = s.sent ++ calls) {p : ℕ} :
    p ∈ beats s s' ↔ ∃ c ∈ calls, c.type = .heartbeat ∧ c.info = p := by
  rw [beats, newCalls_append h]
  simp [and_assoc]

theorem Still.beats_eq (h : Still s s') : beats s s' = [] := by
  obtain ⟨calls, hsent, hne⟩ := h.sent
  rw [List.eq_nil_iff_forall_not_mem]
  intro p hp
  obtain ⟨c, hc, htype, -⟩ := (mem_beats hsent).mp hp
  exact hne c hc htype

theorem Round.beats_nodup (h : Round now s done s') : (beats s s').Nodup := by
  obtain ⟨calls, hsent, hnodup, -⟩ := h.sent
  rw [beats, newCalls_append hsent]
  exact hnodup.sublist (List.filter_sublist.map _)

theorem Round.of_mem_beats (h : Round now s done s') (hp : p ∈ beats s s') :
    ∃ old new, s.infos.lookup p = some old ∧ heartbeatInterval ≤ now - old.lastHbSent ∧
      s'.infos.lookup p = some new ∧ new.lastHbSent = now := by
  obtain ⟨calls, hsent, -, hcalls⟩ := h.sent
  obtain ⟨c, hc, -, rfl⟩ := (mem_beats hsent).mp hp
  exact (hcalls c hc).2

/-- The time in a `ConnInfo` is not before `now`, now and ever after. -/
def After (now : ℤ) (p : ℕ) (s : Server σ ρ) : Prop :=
  s.Bounded ∧ p < s.nextInfo ∧ ∀ info, s.infos.lookup p = some info → now ≤ info.lastHbSent

theorem Still.after (h : Still s s') (ha : After now p s) : After now p s' := by
  obtain ⟨hb, hlt, htime⟩ := ha
  refine ⟨h.bounded hb, hlt.trans_le h.nextInfo_le, fun info hp => ?_⟩
  rcases h.infos p info hp with hnew | ⟨old, hold, heq⟩
  · omega
  · rw [heq]
    exact htime old hold

theorem Round.bounded {later : ℤ} (h : Round later s done s') (hb : s.Bounded) : s'.Bounded := by
  intro q info hq
  obtain ⟨old, hold, -⟩ := h.infos q info hq
  rw [h.nextInfo_eq]
  exact hb q old hold

theorem Round.after {later : ℤ} (h : Round later s done s') (ha : After now p s) :
    After now p s' := by
  obtain ⟨hb, hlt, htime⟩ := ha
  have hpos := heartbeatInterval_pos
  refine ⟨h.bounded hb, hlt.trans_eq h.nextInfo_eq.symm, fun info hp => ?_⟩
  obtain ⟨old, hold, -, hsame | ⟨hlater, hdue⟩⟩ := h.infos p info hp
  · rw [hsame]
    exact htime old hold
  · have hold' := htime old hold
    omega

/-- How a program sends heartbeats. `beat` is the time of a `send_heartbeats`,
`listed` are the `ConnInfo`s it goes through. -/
structure Paced (handle : ε → Run σ ρ Unit) (beat : ε → Option ℤ) (listed : σ → List ℕ)
    (s₀ : Server σ ρ) : Prop where
  timed : ∀ es e p, let s := Runs.run (fun s e => (handle e s).2) s₀ es
    p ∈ beats s (handle e s).2 → ∃ now, beat e = some now
  once : ∀ es e, let s := Runs.run (fun s e => (handle e s).2) s₀ es
    (beats s (handle e s).2).Nodup
  apart : ∀ as e bs e' p now now',
    let s := Runs.run (fun s e => (handle e s).2) s₀ as
    let s' := Runs.run (fun s e => (handle e s).2) s₀ (as ++ e :: bs)
    beat e = some now → beat e' = some now' → p ∈ beats s (handle e s).2 →
      p ∈ beats s' (handle e' s').2 → now + heartbeatInterval ≤ now'
  due : ∀ es e now, let s := Runs.run (fun s e => (handle e s).2) s₀ es
    beat e = some now → (handle e s).1 = .ok () → ∀ p ∈ listed s.state, ∀ info,
      (handle e s).2.infos.lookup p = some info → 0 ≤ info.fd →
      now - info.lastHbSent < heartbeatInterval

structure Paces (handle : ε → Run σ ρ Unit) (beat : ε → Option ℤ) (listed : σ → List ℕ) :
    Prop where
  quiet : ∀ e, beat e = none → Quiet (handle e)
  round : ∀ e now, beat e = some now → ∃ ok, ∀ s,
    handle e s = Exec.forEach (Server.tryHb now ok) (listed s.state) s

variable {handle : ε → Run σ ρ Unit} {beat : ε → Option ℤ} {listed : σ → List ℕ} {e : ε}

theorem Paces.step_round (h : Paces handle beat listed) (he : beat e = some now)
    (s : Server σ ρ) : ∃ done, Round now s done (handle e s).2 := by
  obtain ⟨ok, heq⟩ := h.round e now he
  rw [heq]
  exact (round_forEach now s ok _).1

theorem Paces.step_bounded (h : Paces handle beat listed) (e : ε) (hb : s.Bounded) :
    (handle e s).2.Bounded := by
  cases he : beat e with
  | none => exact (h.quiet e he s).bounded hb
  | some later =>
    obtain ⟨done, hround⟩ := h.step_round he s
    exact hround.bounded hb

theorem Paces.step_after (h : Paces handle beat listed) (e : ε) (ha : After now p s) :
    After now p (handle e s).2 := by
  cases he : beat e with
  | none => exact (h.quiet e he s).after ha
  | some later =>
    obtain ⟨done, hround⟩ := h.step_round he s
    exact hround.after ha

theorem Paces.timed (h : Paces handle beat listed) (hp : p ∈ beats s (handle e s).2) :
    ∃ now, beat e = some now := by
  cases he : beat e with
  | none =>
    rw [(h.quiet e he s).beats_eq] at hp
    exact absurd hp List.not_mem_nil
  | some now => exact ⟨now, rfl⟩

theorem Paces.once (h : Paces handle beat listed) (e : ε) (s : Server σ ρ) :
    (beats s (handle e s).2).Nodup := by
  cases he : beat e with
  | none =>
    rw [(h.quiet e he s).beats_eq]
    exact List.nodup_nil
  | some now =>
    obtain ⟨done, hround⟩ := h.step_round he s
    exact hround.beats_nodup

/-- After a heartbeat the time in its `ConnInfo` is the time of the round. -/
theorem Paces.beat_after (h : Paces handle beat listed) (he : beat e = some now) (hb : s.Bounded)
    (hp : p ∈ beats s (handle e s).2) : After now p (handle e s).2 := by
  obtain ⟨done, hround⟩ := h.step_round he s
  obtain ⟨old, new, hold, -, hnew, htime⟩ := hround.of_mem_beats hp
  refine ⟨hround.bounded hb, (hb p old hold).trans_eq hround.nextInfo_eq.symm, fun info hi => ?_⟩
  rw [hnew] at hi
  rw [← Option.some.inj hi, htime]

theorem Paces.paced (h : Paces handle beat listed) {s₀ : Server σ ρ} (h₀ : s₀.Bounded) :
    Paced handle beat listed s₀ where
  timed es e p := h.timed
  once es e := h.once e _
  apart as e bs e' p now now' he he' hp hp' := by
    have hb : (Runs.run (fun s e => (handle e s).2) s₀ as).Bounded :=
      Runs.invariant_always (I := Bounded) (fun _ e hb => h.step_bounded e hb) h₀ as
    have ha := h.beat_after he hb hp
    have hlater := Runs.invariant_always (I := After now p)
      (fun _ e ha => h.step_after e ha) ha bs
    rw [Runs.run_append, Runs.run_cons] at hp'
    obtain ⟨done, hround⟩ := h.step_round he' _
    obtain ⟨old, -, hold, hdue, -⟩ := hround.of_mem_beats hp'
    have htime := hlater.2.2 old hold
    omega
  due es e now he hok p hp info hinfo hfd := by
    obtain ⟨ok, heq⟩ := h.round e now he
    rw [heq] at hok hinfo
    exact ((round_forEach now _ ok _).2 hok).due p hp info hinfo hfd

end VNet.Server

namespace VNet.Network
open Protocol NetQueue Server

variable {codec : Codec}

theorem pickFrom_quiet (network : Text) (switches : List ℕ) (start : ℕ) (is : List ℕ) :
    Quiet (Conductor.pickFrom network switches start is) := by
  induction is with
  | nil => exact .bind (.modify _) fun _ => .pure _
  | cons i is ih =>
    exact .bind (.deref _) fun sw => .ite (.bind (.modify _) fun _ => .pure _) ih

theorem assignSwitch_quiet (a : Conductor.Answers) (data : SocketData) (pkt : PacketAgentMip)
    (p : ℕ) : Quiet (Conductor.assignSwitch codec a data pkt p) := by
  refine .bind (.modify _) fun _ => .bind (.deref p) fun sw => .bind (.send _ _ (by simp) _ _) ?_
  refine fun _ => .ite (.bind (.send _ _ (by simp) _ _) fun _ => ?_) (.pure _)
  exact .ite (.modify _) (.pure _)

theorem onAgentMip_quiet (a : Conductor.Answers) (data : SocketData) (pkt : PacketAgentMip) :
    Quiet (Conductor.onAgentMip codec a data pkt) := by
  refine .bind (.assign _ fun _ => rfl) fun _ => .bind ?_ fun sw => ?_
  · exact .bind (.look _) fun g => .ite (.pure _) (.bind (pickFrom_quiet _ _ _ _) fun _ => .pure _)
  · cases sw with
    | none => exact .queueClose _
    | some p => exact assignSwitch_quiet a data pkt p

theorem conductor_onSocketReady_quiet (a : Conductor.Answers) (data : SocketData) :
    Quiet ((Conductor.dispatch codec a).onSocketReady codec data) := by
  unfold Dispatch.onSocketReady
  split
  · exact .pure _
  · exact .ifParsed _ _ fun pkt => .bind (.assign _ fun _ => rfl) fun _ => .modify _
  · exact .ifParsed _ _ (onAgentMip_quiet a data)
  · exact .ifParsed _ _ fun _ => .pure _
  · exact .ifParsed _ _ fun _ => .pure _
  · exact .ifParsed _ _ fun _ => .pure _
  · exact .ifParsed _ _ fun _ => .pure _
  · exact .ifParsed _ _ fun pkt => .bind (.assign _ fun _ => rfl) fun _ => .modify _
  · exact .pure _

theorem conductor_onClose_quiet (data : CloseData) : Quiet (Conductor.onClose data) := by
  refine .ite (.pure _) (.bind (.deref _) fun info => ?_)
  cases info.peer.role with
  | unknown => exact .delete _
  | switchConn => exact .bind (.modify _) fun _ => .delete _
  | agentConn => exact .bind (.modify _) fun _ => .delete _

def conductorBeat : Conductor.Event → Option ℤ
  | .sendHeartbeats now _ => some now
  | _ => none

theorem conductor_paces (codec : Codec) :
    Paces (Conductor.handle codec) conductorBeat fun g => g.switches ++ g.agents where
  quiet e he := by
    cases e with
    | accept fd now put => exact .accept _ _ _
    | packet data a => exact .socketReady (conductor_onSocketReady_quiet a data)
    | closed data => exact .socketClosed (conductor_onClose_quiet data)
    | sendHeartbeats now ok => simp [conductorBeat] at he
    | writeDump =>
      exact .bind (.look _) fun g => .forEach (fun p => .bind (.deref p) fun _ => .pure _) _
  round e now he := by
    cases e with
    | sendHeartbeats now' ok =>
      rw [← Option.some.inj he]
      exact ⟨ok, fun s => rfl⟩
    | _ => simp [conductorBeat] at he

theorem switch_onSocketReady_quiet (now : ℤ) (ok : Bool) (data : SocketData) :
    Quiet ((Switch.dispatch codec now ok).onSocketReady codec data) := by
  unfold Dispatch.onSocketReady
  split
  · exact .pure _
  · exact .ifParsed _ _ fun _ => .pure _
  · exact .ifParsed _ _ fun _ => .pure _
  · exact .ifParsed _ _ fun _ => .pure _
  · exact .ifParsed _ _ fun pkt => .modify _
  · refine .ifParsed _ _ fun pkt => .bind (.look _) fun g => ?_
    split
    · exact .queueClose _
    · refine .bind (.assign _ fun _ => rfl) fun _ => .bind (.modify _) fun _ => ?_
      exact .bind (.send _ _ (by simp) _ _) fun _ => .pure _
  · exact .ifParsed _ _ fun _ => .pure _
  · exact .ifParsed _ _ fun _ => .pure _
  · exact .pure _

theorem switch_onClose_quiet (data : CloseData) : Quiet (Switch.onClose data) := by
  have hrest : Quiet (do
      Server.modify fun g : Switch.SwitchState =>
        { g with conductor := if g.conductor = some data.ptrData then none else g.conductor }
      Server.delete data.ptrData : Switch.Run Unit) := .bind (.modify _) fun _ => .delete _
  exact .ite (.pure _) (.bind (.deref _) fun info => .ite (.bind (.modify _) fun _ => hrest) hrest)

def switchBeat : Switch.Event → Option ℤ
  | .sendHeartbeats now _ => some now
  | _ => none

theorem switch_paces (codec : Codec) :
    Paces (Switch.handle codec) switchBeat fun g => g.conductor.toList ++ g.agents where
  quiet e he := by
    cases e with
    | accept fd now put => exact .accept _ _ _
    | packet data now ok => exact .socketReady (switch_onSocketReady_quiet now ok data)
    | closed data => exact .socketClosed (switch_onClose_quiet data)
    | expireTokens now => exact .modify _
    | sendHeartbeats now ok => simp [switchBeat] at he
  round e now he := by
    cases e with
    | sendHeartbeats now' ok =>
      rw [← Option.some.inj he]
      exact ⟨ok, fun s => rfl⟩
    | _ => simp [switchBeat] at he

def agentBeat : Agent.Event → Option ℤ
  | .sendHeartbeats now _ => some now
  | _ => none

theorem agent_onClose_quiet (data : CloseData) : Quiet (Agent.onClose data) :=
  .ite (.pure _) (.bind (.deref _) fun _ => .bind (.modify _) fun _ =>
    .bind (.modify _) fun _ => .delete _)

theorem agent_paces (codec : Codec) :
    Paces (Agent.handle codec) agentBeat fun g => g.conductor.toList ++ g.sw.toList where
  quiet e he := by
    cases e with
    | packet data =>
      intro s
      rw [Agent.packet_eq]
      exact .refl s
    | closed data => exact .socketClosed (agent_onClose_quiet data)
    | sendHeartbeats now ok => simp [agentBeat] at he
  round e now he := by
    cases e with
    | sendHeartbeats now' ok =>
      rw [← Option.some.inj he]
      exact ⟨ok, fun s => rfl⟩
    | _ => simp [agentBeat] at he

/-- Heartbeats are paced. Whatever comes in and whatever the clock says, in
every run of the conductor, of a switch and of an agent the heartbeats for a
`ConnInfo` are 30 seconds apart, also for one that is listed twice, and after a
round none is overdue. -/
theorem heartbeats_paced (codec : Codec) (cdtSock : Fd) (now : ℤ) (en : Agent.Entry) :
    Paced (Conductor.handle codec) conductorBeat (fun g => g.switches ++ g.agents)
      Conductor.start ∧
    Paced (Switch.handle codec) switchBeat (fun g => g.conductor.toList ++ g.agents)
      (Switch.start cdtSock now) ∧
    Paced (Agent.handle codec) agentBeat (fun g => g.conductor.toList ++ g.sw.toList)
      (Agent.start en) := by
  refine ⟨(conductor_paces codec).paced ?_, (switch_paces codec).paced ?_,
    (agent_paces codec).paced ?_⟩
  · intro p info hp
    simp [Conductor.start] at hp
  · exact fun p info hp => ((Switch.wired_start cdtSock now).fresh p info hp).2
  · intro p info hp
    rw [Agent.start_eq, FiniteMap.lookup_insert_eq, FiniteMap.lookup_insert_eq] at hp
    split_ifs at hp with h2 h1
    · rw [h2]
      exact Nat.lt_succ_self 2
    · rw [h1]
      exact Nat.lt_of_succ_lt (Nat.lt_succ_self 2)
    · simp at hp

end VNet.Network
