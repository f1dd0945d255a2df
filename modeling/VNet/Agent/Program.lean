import VNet.Server

namespace VNet.Agent
open Protocol NetQueue

inductive ConnRole
  | conductor
  | switch
  deriving DecidableEq, Repr

structure AgentState where
  conductor : Option ℕ
  sw : Option ℕ
  deriving DecidableEq, Repr

abbrev Program := Server AgentState ConnRole

abbrev Run (α : Type) := Server.Run AgentState ConnRole α

/-- `onClose`; the role is read for the log. -/
def onClose (data : CloseData) : Run Unit :=
  if data.ptrData = 0 then pure ()
  else do
    let _ ← Server.deref data.ptrData
    Server.modify fun g =>
      { g with conductor := if g.conductor = some data.ptrData then none else g.conductor }
    Server.modify fun g => { g with sw := if g.sw = some data.ptrData then none else g.sw }
    Server.delete data.ptrData

def dispatch : Dispatch Program Server.Fault where
  onClose := onClose

/-- `send_heartbeats`; `try_hb` does nothing for a null pointer. -/
def sendHeartbeats (now : ℤ) (ok : Fd → Bool) : Run Unit := do
  let g ← Exec.look Server.state
  Exec.forEach (Server.tryHb now ok) (g.conductor.toList ++ g.sw.toList)

/-- A `ConnInfo` is made, entered in `g_state` and put into the queue; the
result of `put_sck` is not looked at. -/
def addConn (fd : Fd) (now : ℤ) (role : ConnRole) (enter : AgentState → ℕ → AgentState)
    (put : Bool) : Run Unit :=
  Exec.change fun s =>
    { s with
      state := enter s.state s.nextInfo
      infos := s.infos.insert s.nextInfo ⟨fd, now, role⟩
      nextInfo := s.nextInfo + 1
      queue := if put then s.queue.insert fd s.nextInfo else s.queue }

/-- What the clock says when the two `ConnInfo`s are made, and whether the two
sockets got into the queue. -/
structure Entry where
  cdtSock : Fd
  swSock : Fd
  cdtNow : ℤ
  swNow : ℤ
  cdtPut : Bool
  swPut : Bool
  deriving DecidableEq, Repr

/-- The part of `main` before the event loop. -/
def enter (e : Entry) : Run Unit := do
  addConn e.cdtSock e.cdtNow .conductor (fun g p => { g with conductor := some p }) e.cdtPut
  addConn e.swSock e.swNow .switch (fun g p => { g with sw := some p }) e.swPut

def start (e : Entry) : Program :=
  (enter e ⟨⟨none, none⟩, ∅, 1, ∅, []⟩).2

inductive Event
  | packet (data : SocketData)
  | closed (data : CloseData)
  | sendHeartbeats (now : ℤ) (ok : Fd → Bool)

def handle (codec : Codec) : Event → Run Unit
  | .packet data => Server.socketReady codec dispatch data
  | .closed data => Server.socketClosed dispatch data
  | .sendHeartbeats now ok => sendHeartbeats now ok

def step (codec : Codec) (s : Program) (e : Event) : Program := (handle codec e s).2

abbrev run (codec : Codec) (s : Program) (es : List Event) : Program := Runs.run (step codec) s es

def forget (s : Program) (data : CloseData) : Program :=
  { s with
    state := ⟨if s.state.conductor = some data.ptrData then none else s.state.conductor,
      if s.state.sw = some data.ptrData then none else s.state.sw⟩
    infos := s.infos.erase data.ptrData
    queue := s.queue.erase data.fd }

inductive Transition (s : Program) : Event → Program → Prop
  | packet (data : SocketData) : Transition s (.packet data) s
  | ignored (data : CloseData) (h : ¬ s.Holds data.fd data.ptrData) :
      Transition s (.closed data) s
  | closed (data : CloseData) (h : s.Holds data.fd data.ptrData) :
      Transition s (.closed data) (forget s data)
  | heartbeats (now : ℤ) (ok : Fd → Bool) (s' : Program)
      (h : Server.Kept (s.state.conductor.toList ++ s.state.sw.toList) s s') :
      Transition s (.sendHeartbeats now ok) s'

variable {codec : Codec} {s s' : Program} {e : Event}

/-- The agent has no handler for any packet. -/
theorem packet_eq (codec : Codec) (s : Program) (data : SocketData) :
    handle codec (.packet data) s = (.ok (), s) := by
  simp only [handle, Server.socketReady, Dispatch.onSocketReady, dispatch,
    MessageCodec.ifParsed_nothing]
  split_ifs
  · cases data.packetType <;> rfl
  · rfl

theorem closed_eq (codec : Codec) (hw : s.Wired) {data : CloseData}
    (hh : s.Holds data.fd data.ptrData) :
    handle codec (.closed data) s = (.ok (), forget s data) := by
  obtain ⟨info, hinfo, -⟩ := hw.alive _ _ hh
  have hne : data.ptrData ≠ 0 := Nat.pos_iff_ne_zero.mp (hw.fresh _ _ hinfo).1
  have hclose : onClose data s = (.ok (), { forget s data with queue := s.queue }) := by
    rw [onClose, if_neg hne, Exec.bind_ok (Server.deref_ok hinfo),
      Exec.bind_ok (Server.modify_apply _ _), Exec.bind_ok (Server.modify_apply _ _),
      Server.withState_withState, Server.delete_withState hinfo]
    rfl
  simp only [handle, Server.socketClosed, if_pos hh, dispatch]
  rw [Exec.bind_ok hclose]
  rfl

theorem step_transition (codec : Codec) (hw : s.Wired) (e : Event) :
    Transition s e (step codec s e) := by
  cases e with
  | packet data =>
    rw [step, packet_eq]
    exact .packet data
  | closed data =>
    by_cases hh : s.Holds data.fd data.ptrData
    · rw [step, closed_eq codec hw hh]
      exact .closed data hh
    · simp only [step, handle, Server.socketClosed, if_neg hh]
      exact .ignored data hh
  | sendHeartbeats now ok => exact .heartbeats now ok _ (Server.forEach_tryHb_kept s now ok _)

theorem Transition.wired (h : Transition s e s') (hw : s.Wired) : s'.Wired := by
  cases h with
  | packet => exact hw
  | ignored => exact hw
  | closed data hh => exact (hw.erase hh).congr rfl rfl rfl
  | heartbeats now ok s' hk => exact hw.kept hk

/-- The state of the agent, where `c` and `w` say whether the connections to the
conductor and to the switch are still there. -/
structure Shape (en : Entry) (c w : Bool) (s : Program) : Prop where
  conductor : s.state.conductor = if c then some 1 else none
  sw : s.state.sw = if w then some 2 else none
  infos : ∀ p, (s.infos.lookup p).map (fun i => (i.fd, i.peer)) =
    if p = 1 ∧ c then some (en.cdtSock, .conductor)
    else if p = 2 ∧ w then some (en.swSock, .switch) else none
  queue : ∀ fd, s.queue.lookup fd =
    if fd = en.cdtSock ∧ c ∧ en.cdtPut then some 1
    else if fd = en.swSock ∧ w ∧ en.swPut then some 2 else none
  nextInfo : s.nextInfo = 3

variable {en : Entry} {c w : Bool}

theorem lookup_put (m : FiniteMap Fd ℕ) (put : Bool) (fd fd' : Fd) (p : ℕ) :
    (if put then m.insert fd p else m).lookup fd' =
      if fd' = fd ∧ put then some p else m.lookup fd' := by
  cases put with
  | true =>
    simp only [if_true, and_true]
    exact FiniteMap.lookup_insert_eq m fd fd' p
  | false => simp

theorem start_eq (en : Entry) : start en =
    { state := ⟨some 1, some 2⟩
      infos := ((∅ : FiniteMap ℕ _).insert 1 ⟨en.cdtSock, en.cdtNow, .conductor⟩).insert 2
        ⟨en.swSock, en.swNow, .switch⟩
      nextInfo := 3
      queue := if en.swPut then
          (if en.cdtPut then (∅ : FiniteMap Fd ℕ).insert en.cdtSock 1 else ∅).insert en.swSock 2
        else if en.cdtPut then (∅ : FiniteMap Fd ℕ).insert en.cdtSock 1 else ∅
      sent := [] } :=
  rfl

theorem Shape.start (h : en.cdtSock ≠ en.swSock) : Shape en true true (start en) := by
  rw [start_eq]
  refine ⟨rfl, rfl, fun p => ?_, fun fd => ?_, rfl⟩
  · simp only [FiniteMap.lookup_insert_eq, AList.lookup_empty, and_true]
    by_cases h2 : p = 2
    · simp [h2]
    · by_cases h1 : p = 1 <;> simp [h1, h2]
  · simp only [lookup_put, AList.lookup_empty, true_and]
    by_cases hfd : fd = en.cdtSock
    · rw [if_neg (fun hsw => h (hfd.symm.trans hsw.1))]
      by_cases hput : en.cdtPut = true <;> simp [hfd, hput, h]
    · simp [hfd]

/-- The `ConnInfo`s that are left, each with the descriptor of its connection. -/
theorem Shape.info (h : Shape en c w s) {p : ℕ} {info : ConnInfo ConnRole}
    (hp : s.infos.lookup p = some info) :
    (p = 1 ∧ c = true ∧ info.fd = en.cdtSock) ∨ (p = 2 ∧ w = true ∧ info.fd = en.swSock) := by
  have hinfo := h.infos p
  rw [hp, Option.map_some] at hinfo
  split_ifs at hinfo with hc hw
  · exact .inl ⟨hc.1, hc.2, congrArg Prod.fst (Option.some.inj hinfo)⟩
  · exact .inr ⟨hw.1, hw.2, congrArg Prod.fst (Option.some.inj hinfo)⟩

theorem Shape.cdtInfo (h : Shape en true w s) : ∃ info, s.infos.lookup 1 = some info := by
  have hinfo := h.infos 1
  rw [if_pos ⟨rfl, rfl⟩, Option.map_eq_some_iff] at hinfo
  obtain ⟨info, hl, -⟩ := hinfo
  exact ⟨info, hl⟩

theorem Shape.swInfo (h : Shape en c true s) : ∃ info, s.infos.lookup 2 = some info := by
  have hinfo := h.infos 2
  rw [if_neg (by simp), if_pos ⟨rfl, rfl⟩, Option.map_eq_some_iff] at hinfo
  obtain ⟨info, hl, -⟩ := hinfo
  exact ⟨info, hl⟩

/-- What the queue still has. -/
theorem Shape.holds (h : Shape en c w s) {fd : Fd} {p : ℕ} (hp : s.Holds fd p) :
    (p = 1 ∧ fd = en.cdtSock ∧ c = true ∧ en.cdtPut = true) ∨
      (p = 2 ∧ fd = en.swSock ∧ w = true ∧ en.swPut = true) := by
  rw [Server.Holds, h.queue] at hp
  split_ifs at hp with hc hw
  · exact .inl ⟨(Option.some.inj hp).symm, hc⟩
  · exact .inr ⟨(Option.some.inj hp).symm, hw⟩

theorem Shape.wired (h : Shape en c w s) : s.Wired where
  alive fd p hp := by
    rcases h.holds hp with ⟨rfl, rfl, rfl, -⟩ | ⟨rfl, rfl, rfl, -⟩
    · obtain ⟨info, hinfo⟩ := h.cdtInfo
      obtain ⟨-, -, hfd⟩ | ⟨hne, -⟩ := h.info hinfo
      · exact ⟨info, hinfo, hfd⟩
      · simp at hne
    · obtain ⟨info, hinfo⟩ := h.swInfo
      obtain ⟨hne, -⟩ | ⟨-, -, hfd⟩ := h.info hinfo
      · simp at hne
      · exact ⟨info, hinfo, hfd⟩
  fresh p info hp := by
    rw [h.nextInfo]
    obtain ⟨rfl, -⟩ | ⟨rfl, -⟩ := h.info hp
    · exact ⟨by omega, by omega⟩
    · exact ⟨by omega, by omega⟩
  nextInfo_pos := by
    rw [h.nextInfo]
    omega

theorem Shape.holds_iff (h : Shape en c w s) (hne : en.cdtSock ≠ en.swSock) (fd : Fd) (p : ℕ) :
    s.Holds fd p ↔ (s.state.conductor = some p ∧ fd = en.cdtSock ∧ en.cdtPut) ∨
      (s.state.sw = some p ∧ fd = en.swSock ∧ en.swPut) := by
  constructor
  · intro hh
    rcases h.holds hh with ⟨rfl, hfd, hc, hput⟩ | ⟨rfl, hfd, hw, hput⟩
    · exact .inl ⟨by rw [h.conductor, hc]; rfl, hfd, hput⟩
    · exact .inr ⟨by rw [h.sw, hw]; rfl, hfd, hput⟩
  · intro hh
    rw [Server.Holds, h.queue]
    rcases hh with ⟨hp, hfd, hput⟩ | ⟨hp, hfd, hput⟩
    · rw [h.conductor] at hp
      split_ifs at hp with hc
      rw [if_pos ⟨hfd, hc, hput⟩, hp]
    · rw [h.sw] at hp
      split_ifs at hp with hw
      rw [if_neg (fun hcdt => hne (hcdt.1.symm.trans hfd)), if_pos ⟨hfd, hw, hput⟩, hp]

/-- The pointers in `g_state` are to `ConnInfo`s that are there. -/
theorem Shape.isSome_iff (h : Shape en c w s) (p : ℕ) : (s.infos.lookup p).isSome ↔
    s.state.conductor = some p ∨ s.state.sw = some p := by
  have hinfo := h.infos p
  rw [← Option.isSome_map (f := fun i : ConnInfo ConnRole => (i.fd, i.peer)), hinfo, h.conductor,
    h.sw]
  cases c <;> cases w <;> by_cases h1 : p = 1 <;> by_cases h2 : p = 2 <;> simp [h1, h2, eq_comm]

theorem Shape.kept {ps : List ℕ} (h : Shape en c w s) (hk : Server.Kept ps s s') :
    Shape en c w s' where
  conductor := by rw [hk.state_eq, h.conductor]
  sw := by rw [hk.state_eq, h.sw]
  infos p := by rw [hk.infos_eq, h.infos]
  queue fd := by rw [hk.queue_eq, h.queue]
  nextInfo := by rw [hk.nextInfo_eq, h.nextInfo]

/-- The connection to the conductor is closed. -/
theorem Shape.forget_cdt (h : Shape en c w s) {data : CloseData} (hfd : data.fd = en.cdtSock)
    (hp : data.ptrData = 1) (hne : en.cdtSock ≠ en.swSock) :
    Shape en false w (forget s data) where
  conductor := by
    simp only [forget, hp, h.conductor]
    cases c <;> rfl
  sw := by
    simp only [forget, hp, h.sw]
    cases w <;> rfl
  infos p := by
    simp only [forget, hp, FiniteMap.lookup_erase_eq]
    by_cases h1 : p = 1
    · simp [h1]
    · rw [if_neg h1, h.infos]
      simp [h1]
  queue fd := by
    simp only [forget, hfd, FiniteMap.lookup_erase_eq]
    by_cases hfd' : fd = en.cdtSock
    · simp [hfd', hne]
    · rw [if_neg hfd', h.queue]
      simp [hfd']
  nextInfo := h.nextInfo

/-- The connection to the switch is closed. -/
theorem Shape.forget_sw (h : Shape en c w s) {data : CloseData} (hfd : data.fd = en.swSock)
    (hp : data.ptrData = 2) (hne : en.cdtSock ≠ en.swSock) :
    Shape en c false (forget s data) where
  conductor := by
    simp only [forget, hp, h.conductor]
    cases c <;> rfl
  sw := by
    simp only [forget, hp, h.sw]
    cases w <;> rfl
  infos p := by
    simp only [forget, hp, FiniteMap.lookup_erase_eq]
    by_cases h2 : p = 2
    · simp [h2]
    · rw [if_neg h2, h.infos]
      simp [h2]
  queue fd := by
    simp only [forget, hfd, FiniteMap.lookup_erase_eq]
    by_cases hfd' : fd = en.swSock
    · simp [hfd', hne.symm]
    · rw [if_neg hfd', h.queue]
      simp [hfd']
  nextInfo := h.nextInfo

/-- No event uses a `ConnInfo` that is gone. -/
theorem Shape.handle_ok (h : Shape en c w s) (codec : Codec) (e : Event) :
    (handle codec e s).1 = .ok () := by
  cases e with
  | packet data => rw [packet_eq]
  | closed data =>
    by_cases hh : s.Holds data.fd data.ptrData
    · rw [closed_eq codec h.wired hh]
    · simp only [handle, Server.socketClosed, if_neg hh]
  | sendHeartbeats now ok =>
    refine Server.forEach_tryHb_ok (s := s) (fun p hp => ?_) now ok
    rw [← Option.isSome_iff_exists, h.isSome_iff]
    simpa [Option.mem_toList] using hp

def closes (fd : Fd) (p : ℕ) : Event → Bool
  | .closed data => data.fd = fd && data.ptrData = p
  | _ => false

def closed (put : Bool) (fd : Fd) (p : ℕ) (es : List Event) : Bool := put && es.any (closes fd p)

/-- A close that the queue does not report: it is of no connection that is left. -/
theorem Shape.not_holds (h : Shape en c w s) (hne : en.cdtSock ≠ en.swSock) {data : CloseData}
    (hh : ¬ s.Holds data.fd data.ptrData) :
    (c && !(en.cdtPut && closes en.cdtSock 1 (.closed data))) = c ∧
      (w && !(en.swPut && closes en.swSock 2 (.closed data))) = w := by
  have hqueue := h.queue data.fd
  rw [Server.Holds, hqueue] at hh
  constructor
  · by_cases hc : closes en.cdtSock 1 (.closed data) = true
    · simp only [closes, Bool.and_eq_true, decide_eq_true_eq] at hc
      cases c with
      | false => rfl
      | true =>
        cases hput : en.cdtPut with
        | false => rfl
        | true =>
          rw [if_pos ⟨hc.1, rfl, hput⟩, hc.2] at hh
          exact absurd rfl hh
    · simp [hc]
  · by_cases hw : closes en.swSock 2 (.closed data) = true
    · simp only [closes, Bool.and_eq_true, decide_eq_true_eq] at hw
      cases w with
      | false => rfl
      | true =>
        cases hput : en.swPut with
        | false => rfl
        | true =>
          rw [if_neg (fun hcdt => hne (hcdt.1.symm.trans hw.1)), if_pos ⟨hw.1, rfl, hput⟩,
            hw.2] at hh
          exact absurd rfl hh
    · simp [hw]

theorem Shape.step (h : Shape en c w s) (hne : en.cdtSock ≠ en.swSock) (codec : Codec)
    (e : Event) : Shape en (c && !(en.cdtPut && closes en.cdtSock 1 e))
      (w && !(en.swPut && closes en.swSock 2 e)) (step codec s e) := by
  have ht := step_transition codec h.wired e
  generalize Agent.step codec s e = s' at ht
  cases ht with
  | packet data => simpa [closes] using h
  | ignored data hh =>
    obtain ⟨hc, hw⟩ := h.not_holds hne hh
    rw [hc, hw]
    exact h
  | closed data hh =>
    rcases h.holds hh with ⟨hp, hfd, rfl, hput⟩ | ⟨hp, hfd, rfl, hput⟩
    · have hother : closes en.swSock 2 (.closed data) = false := by simp [closes, hp]
      have hthis : closes en.cdtSock 1 (.closed data) = true := by simp [closes, hp, hfd]
      rw [hother, hthis, hput]
      simpa using h.forget_cdt hfd hp hne
    · have hother : closes en.cdtSock 1 (.closed data) = false := by simp [closes, hp]
      have hthis : closes en.swSock 2 (.closed data) = true := by simp [closes, hp, hfd]
      rw [hother, hthis, hput]
      simpa using h.forget_sw hfd hp hne
  | heartbeats now ok s' hk => simpa [closes] using h.kept hk

theorem Shape.run (hne : en.cdtSock ≠ en.swSock) (codec : Codec) (es : List Event) :
    Shape en (!closed en.cdtPut en.cdtSock 1 es) (!closed en.swPut en.swSock 2 es)
      (run codec (Agent.start en) es) := by
  induction es using List.reverseRecOn with
  | nil => simpa [closed] using Shape.start hne
  | append_singleton es e ih =>
    have hstep := ih.step hne codec e
    rw [Agent.run, Runs.run_concat]
    simpa [closed, Bool.and_or_distrib_left, Bool.not_or] using hstep

/-- The agent's pointers. In every run of the event loop, whatever comes in and
whatever is closed and when, no `ConnInfo` is used or deleted that is gone; those
that are left are the ones `g_state` points to, and a pointer is lost exactly
when its connection is reported closed. -/
theorem pointers_alive (codec : Codec) {en : Entry} (hne : en.cdtSock ≠ en.swSock)
    (es : List Event) :
    let s := run codec (start en) es
    (∀ e, (handle codec e s).1 = .ok ()) ∧
      (∀ p, (s.infos.lookup p).isSome ↔ s.state.conductor = some p ∨ s.state.sw = some p) ∧
      s.state.conductor = (if closed en.cdtPut en.cdtSock 1 es then none else some 1) ∧
      s.state.sw = (if closed en.swPut en.swSock 2 es then none else some 2) ∧
      ∀ fd p, s.Holds fd p ↔ (s.state.conductor = some p ∧ fd = en.cdtSock ∧ en.cdtPut) ∨
        (s.state.sw = some p ∧ fd = en.swSock ∧ en.swPut) := by
  intro s
  have h : Shape en (!closed en.cdtPut en.cdtSock 1 es) (!closed en.swPut en.swSock 2 es) s :=
    Shape.run hne codec es
  refine ⟨h.handle_ok codec, h.isSome_iff, ?_, ?_, h.holds_iff hne⟩
  · rw [h.conductor]
    cases closed en.cdtPut en.cdtSock 1 es <;> rfl
  · rw [h.sw]
    cases closed en.swPut en.swSock 2 es <;> rfl

/-- The conductor goes away, then a packet of the switch comes in. -/
theorem pointers_alive_orphaned :
    let es : List Event := [.closed ⟨0, 1, 3, .closeHangup⟩,
      .packet (Server.packetData 4 2 .connectionAccepted [])]
    (run .sample (start ⟨3, 4, 0, 0, true, true⟩) es).state = ⟨none, some 2⟩ ∧
      ((run .sample (start ⟨3, 4, 0, 0, true, true⟩) es).infos.lookup 1).isSome = false := by
  intro es
  obtain ⟨-, hiff, hcdt, hsw, -⟩ :=
    @pointers_alive .sample ⟨3, 4, 0, 0, true, true⟩ (by decide) es
  refine ⟨by decide, ?_⟩
  rw [Bool.eq_false_iff, ne_eq, hiff, hcdt, hsw]
  decide

end VNet.Agent
