import VNet.Conductor.Lists
import VNet.Switch.Tokens

namespace VNet.Server
open Protocol NetQueue

variable {σ ρ : Type} {s s' : Server σ ρ} {fd : Fd} {p q : ℕ}

def Held (s : Server σ ρ) (p : ℕ) : Prop := ∃ fd, s.Holds fd p

/-- What one event does to the queue and to what is allocated. -/
inductive Handover (s s' : Server σ ρ) : Prop
  | same (hdom : ∀ q, (s'.infos.lookup q).isSome = (s.infos.lookup q).isSome)
      (hqueue : s'.queue = s.queue)
  | accepted (fd : Fd) (hfree : s.queue.lookup fd = none)
      (hdom : ∀ q, (s'.infos.lookup q).isSome = (q = s.nextInfo || (s.infos.lookup q).isSome))
      (hqueue : s'.queue = s.queue.insert fd s.nextInfo)
  | closed (fd : Fd) (p : ℕ) (h : s.Holds fd p)
      (hdom : ∀ q, (s'.infos.lookup q).isSome = (q ≠ p && (s.infos.lookup q).isSome))
      (hqueue : s'.queue = s.queue.erase fd)

/-- Allocated is what the queue holds. -/
def Custody (s : Server σ ρ) : Prop := ∀ p, (s.infos.lookup p).isSome ↔ s.Held p

theorem held_congr (hqueue : s'.queue = s.queue) (q : ℕ) : s'.Held q ↔ s.Held q := by
  simp only [Held, Holds, hqueue]

theorem held_erase (hw : s.Wired) (h : s.Holds fd p) (hqueue : s'.queue = s.queue.erase fd)
    (q : ℕ) : s'.Held q ↔ q ≠ p ∧ s.Held q := by
  simp only [Held, Holds, hqueue, FiniteMap.lookup_erase_eq]
  constructor
  · rintro ⟨fd', hq⟩
    split_ifs at hq with hfd
    refine ⟨?_, fd', hq⟩
    rintro rfl
    exact hfd (hw.fd_unique hq h)
  · rintro ⟨hne, fd', hq⟩
    refine ⟨fd', ?_⟩
    rw [if_neg, hq]
    rintro rfl
    rw [Holds, hq] at h
    exact hne (Option.some.inj h)

theorem held_insert (hfree : s.queue.lookup fd = none)
    (hqueue : s'.queue = s.queue.insert fd s.nextInfo) (q : ℕ) :
    s'.Held q ↔ q = s.nextInfo ∨ s.Held q := by
  simp only [Held, Holds, hqueue, FiniteMap.lookup_insert_eq]
  constructor
  · rintro ⟨fd', hq⟩
    split_ifs at hq with hfd
    · exact .inl (Option.some.inj hq).symm
    · exact .inr ⟨fd', hq⟩
  · rintro (rfl | ⟨fd', hq⟩)
    · exact ⟨fd, if_pos rfl⟩
    · refine ⟨fd', ?_⟩
      rw [if_neg, hq]
      rintro rfl
      rw [hfree] at hq
      simp at hq

theorem Custody.step (h : Custody s) (hw : s.Wired) (hh : Handover s s') : Custody s' := by
  intro q
  cases hh with
  | same hdom hqueue =>
    rw [hdom, held_congr hqueue]
    exact h q
  | accepted fd hfree hdom hqueue =>
    rw [hdom, held_insert hfree hqueue, Bool.or_eq_true, decide_eq_true_eq, h q]
  | closed fd p hp hdom hqueue =>
    rw [hdom, held_erase hw hp hqueue, Bool.and_eq_true, decide_eq_true_eq, h q]

theorem Handover.of_eq (hinfos : s'.infos = s.infos) (hqueue : s'.queue = s.queue) :
    Handover s s' :=
  .same (fun q => by rw [hinfos]) hqueue

theorem isSome_insert_eq {m : FiniteMap ℕ (ConnInfo ρ)} {old : ConnInfo ρ}
    (hp : m.lookup p = some old) (new : ConnInfo ρ) (q : ℕ) :
    ((m.insert p new).lookup q).isSome = (m.lookup q).isSome := by
  rw [FiniteMap.lookup_insert_eq]
  split_ifs with hq
  · rw [hq, hp]
    rfl
  · rfl

theorem Handover.kept {ps : List ℕ} (hk : Kept ps s s') : Handover s s' := by
  refine .same (fun q => ?_) hk.queue_eq
  have heq := congrArg Option.isSome (hk.infos_eq q)
  rwa [Option.isSome_map, Option.isSome_map] at heq

/-- A new connection is put into the queue. -/
theorem Handover.enroll (hfree : s.queue.lookup fd = none) {new : ConnInfo ρ}
    (hinfos : s'.infos = s.infos.insert s.nextInfo new)
    (hqueue : s'.queue = s.queue.insert fd s.nextInfo) : Handover s s' := by
  refine .accepted fd hfree (fun q => ?_) hqueue
  rw [hinfos, FiniteMap.lookup_insert_eq]
  split_ifs with hq <;> simp [hq]

/-- A connection is reported closed. -/
theorem Handover.forget (h : s.Holds fd p) (hinfos : s'.infos = s.infos.erase p)
    (hqueue : s'.queue = s.queue.erase fd) : Handover s s' := by
  refine .closed fd p h (fun q => ?_) hqueue
  rw [hinfos, FiniteMap.lookup_erase_eq]
  split_ifs with hq <;> simp [hq]

end VNet.Server

namespace VNet.Switch
open Protocol NetQueue Server

variable {codec : Codec} {s s' : Program} {e : Event}

/-- A token is shown that is not pending: the connection is refused. -/
def Refuses (codec : Codec) (s : Program) (e : Event) : Prop :=
  ∃ r ∈ authPacket codec s e, s.state.pendingTokens.lookup r.2.connectionToken = none

instance (s : Program) (e : Event) : Decidable (Refuses codec s e) :=
  inferInstanceAs (Decidable (∃ r ∈ authPacket codec s e, _))

theorem Transition.handover (h : Transition codec s e s') (hrefuses : ¬ Refuses codec s e) :
    Handover s s' := by
  cases h with
  | idle => exact .of_eq rfl rfl
  | accepted fd now hfd hfree => exact .enroll hfree rfl rfl
  | notPut => exact .of_eq rfl rfl
  | token => exact .of_eq rfl rfl
  | refused _ data pkt h hnone => exact absurd ⟨_, h, hnone⟩ hrefuses
  | authenticated _ data pkt token info call h hsome hinfo =>
    exact .same (isSome_insert_eq hinfo _) rfl
  | closed data info hh => exact .forget hh rfl rfl
  | expired now => exact .of_eq rfl rfl
  | heartbeats now ok s' hk => exact .kept hk

theorem custody_start (cdtSock : Fd) (now : ℤ) : Custody (start cdtSock now) := by
  intro p
  have hw := wired_start cdtSock now
  constructor
  · intro hp
    obtain ⟨info, hinfo⟩ := Option.isSome_iff_exists.mp hp
    have hlt := hw.fresh p info hinfo
    have h1 : p = 1 := by
      have hnext : (start cdtSock now).nextInfo = 2 := rfl
      omega
    refine ⟨cdtSock, ?_⟩
    rw [h1]
    exact AList.lookup_insert (∅ : FiniteMap Fd ℕ)
  · rintro ⟨fd, hp⟩
    obtain ⟨info, hinfo, -⟩ := hw.alive fd p hp
    exact Option.isSome_iff_exists.mpr ⟨info, hinfo⟩

theorem custody_run {cdtSock : Fd} {now : ℤ} {es : List Event}
    (hes : Runs.Steps (step codec) (fun s e => ¬ Refuses codec s e) (start cdtSock now) es) :
    Custody (run codec (start cdtSock now) es) := by
  have hstep : ∀ s e, s.Wired ∧ Custody s → ¬ Refuses codec s e →
      (step codec s e).Wired ∧ Custody (step codec s e) := by
    rintro s e ⟨hw, hs⟩ he
    exact ⟨wired_step codec hw e, hs.step hw ((step_transition codec hw e).handover he)⟩
  exact (Runs.invariant hstep ⟨wired_start cdtSock now, custody_start cdtSock now⟩ hes).2

end VNet.Switch

namespace VNet.Conductor
open Protocol NetQueue Server

variable {codec : Codec} {s s' : Program} {e : Event}

/-- An agent asks for a switch when there is none: its connection is refused. -/
def Refuses (codec : Codec) (s : Program) (e : Event) : Prop :=
  s.state.switches = [] ∧ (received codec.agentMip .agentMip s e).isSome

instance (s : Program) (e : Event) : Decidable (Refuses codec s e) :=
  inferInstanceAs (Decidable (_ ∧ _))

theorem Transition.handover (h : Transition codec s e s') (hrefuses : ¬ Refuses codec s e) :
    Handover s s' := by
  cases h with
  | idle => exact .of_eq rfl rfl
  | accepted fd now hfd hfree => exact .enroll hfree rfl rfl
  | notPut => exact .of_eq rfl rfl
  | switchMip _ data pkt a info h hinfo => exact .same (isSome_insert_eq hinfo _) rfl
  | noSwitch _ data pkt a info h hinfo hnil => exact absurd ⟨hnil, by simp [h]⟩ hrefuses
  | assigned _ data pkt a info p rr sw h hinfo => exact .same (isSome_insert_eq hinfo _) rfl
  | agentMrp _ data pkt a info h hinfo => exact .same (isSome_insert_eq hinfo _) rfl
  | closed data info hh => exact .forget hh rfl rfl
  | heartbeats now ok s' hk => exact .kept hk

theorem custody_run {es : List Event} (hc : Runs.Steps (step codec) ClosedAsListed start es)
    (hes : Runs.Steps (step codec) (fun s e => ¬ Refuses codec s e) start es) :
    Custody (run codec start es) := by
  induction es using List.reverseRecOn with
  | nil =>
    intro p
    simp [start, Held, Holds]
  | append_singleton es e ih =>
    obtain ⟨hc, -⟩ := (Runs.steps_append _ _ _).mp hc
    obtain ⟨hes, he, -⟩ := (Runs.steps_append _ _ _).mp hes
    obtain ⟨hw, halive⟩ := wired_listsAlive_run codec hc
    rw [run, Runs.run_concat]
    exact (ih hc hes).step hw ((step_transition codec hw halive.switches e).handover he)

end VNet.Conductor

namespace VNet.Network
open Protocol NetQueue Server

/-- Who frees a `ConnInfo`. In every run of a switch that refuses no connection, and
in every run of the conductor that refuses none and stays clear of deleted
`ConnInfo`s, one is allocated as long as its connection is in the queue. -/
theorem infos_accounted (codec : Codec) (cdtSock : Fd) (now : ℤ) {es : List Switch.Event}
    (hes : Runs.Steps (Switch.step codec) (fun s e => ¬ Switch.Refuses codec s e)
      (Switch.start cdtSock now) es)
    {ces : List Conductor.Event}
    (hc : Runs.Steps (Conductor.step codec) Conductor.ClosedAsListed Conductor.start ces)
    (hces : Runs.Steps (Conductor.step codec) (fun s e => ¬ Conductor.Refuses codec s e)
      Conductor.start ces) :
    Custody (Switch.run codec (Switch.start cdtSock now) es) ∧
      Custody (Conductor.run codec Conductor.start ces) :=
  ⟨Switch.custody_run hes, Conductor.custody_run hc hces⟩

/-- A connection is authenticated and closed while another one stays; a switch
registers and is closed. -/
theorem infos_accounted_closed :
    let es : List Switch.Event := [.accept 5 0 true, .accept 6 0 true,
      .packet (packetData 3 1 .agentConnectionToken [0x0a, 1, 0x61, 0x11, 7, 0, 0, 0, 0, 0, 0, 0])
        0 true,
      .packet (packetData 5 2 .authConnectToSwitch [0x09, 7, 0, 0, 0, 0, 0, 0, 0]) 0 true,
      .closed ⟨0, 2, 5, .closeHangup⟩]
    let ces : List Conductor.Event := [.accept 5 0 true,
      .packet (packetData 5 1 .switchMip [0x0a, 2, 0x73, 0x31, 0x12, 1, 0x6b, 0x1a, 10, 0x3a,
        0x3a, 0x69, 0x6e, 0x74, 0x65, 0x72, 0x6e, 0x65, 0x74, 0x20, 0xd8, 0x36]) .none,
      .closed ⟨0, 1, 5, .closeHangup⟩]
    (Switch.run .sample (Switch.start 3 0) es).Held 3 ∧
      ¬ (Switch.run .sample (Switch.start 3 0) es).Held 2 ∧
      ¬ (Conductor.run .sample Conductor.start ces).Held 1 := by
  intro es ces
  obtain ⟨hswitch, hconductor⟩ := @infos_accounted .sample 3 0 es (by decide +kernel) ces
    (by decide +kernel) (by decide +kernel)
  rw [← hswitch 3, ← hswitch 2, ← hconductor 1]
  decide +kernel

end VNet.Network
