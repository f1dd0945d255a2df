import VNet.Conductor.Lists
import VNet.Lib.Files

namespace VNet.Conductor.Dump
open Protocol Files

structure SwitchState where
  name : Text
  network : Text
  ipv4 : Text
  port : UInt32
  connectedAtMs : ℤ
  deriving DecidableEq, Repr

structure AgentState where
  name : Text
  assignedSwitch : Text := []
  connectedAtMs : ℤ
  deriving DecidableEq, Repr

structure PendingToken where
  agentName : Text
  token : UInt64
  switchName : Text
  createdAtMs : ℤ
  deriving DecidableEq, Repr

structure ConductorState where
  dumpedAtMs : ℤ
  switches : List SwitchState
  agents : List AgentState
  pendingTokens : List PendingToken
  deriving DecidableEq, Repr

def ipv4ToString (ipv4 : UInt32) : Text :=
  let byte (i : ℕ) : Text := Nat.toDigits 10 (ipv4.toNat / 256 ^ i % 256)
  byte 0 ++ '.' :: byte 1 ++ '.' :: byte 2 ++ '.' :: byte 3

example : ipv4ToString 0x0200000a = "10.0.0.2".toList := by decide

def dumpSwitch (sw : ConnInfo Peer) : SwitchState where
  name := sw.peer.name
  network := sw.peer.network
  ipv4 := ipv4ToString sw.peer.swIpv4
  port := sw.peer.swPort.toUInt32
  connectedAtMs := sw.peer.connectedAtMs

def dumpAgent (ag : ConnInfo Peer) : AgentState where
  name := ag.peer.name
  connectedAtMs := ag.peer.connectedAtMs

def dumpToken (pt : PendingTokenInfo) : PendingToken where
  agentName := pt.agentName
  token := pt.token
  switchName := pt.switchName
  createdAtMs := pt.createdAtMs

def dumpAll {α : Type} (f : ConnInfo Peer → α) : List ℕ → Run (List α)
  | [] => pure []
  | p :: ps => do
    let info ← Server.deref p
    let rest ← dumpAll f ps
    pure (f info :: rest)

def collect (nowMs : ℤ) : Run ConductorState := do
  let g ← Exec.look Server.state
  let switches ← dumpAll dumpSwitch g.switches
  let agents ← dumpAll dumpAgent g.agents
  pure ⟨nowMs, switches, agents, g.pendingTokens.map dumpToken⟩

/-- Reading a list for messages goes as reading it for none. -/
theorem dumpAll_bind {α : Type} (f : ConnInfo Peer → α) (ps : List ℕ) (rest : Run Unit) :
    (do let _ ← dumpAll f ps; rest) = (do Exec.forEach dumpInfo ps; rest : Run Unit) := by
  induction ps with
  | nil => rfl
  | cons p ps ih =>
    rw [dumpAll, Exec.forEach, dumpInfo]
    simp only [Exec.bind_assoc, Exec.pure_bind]
    rw [ih]

/-- The event of the program reads what the message is made of. -/
theorem writeDump_eq_collect (nowMs : ℤ) :
    Conductor.writeDump = (do let _ ← collect nowMs; pure () : Run Unit) := by
  unfold Conductor.writeDump collect
  simp only [Exec.bind_assoc, Exec.pure_bind, Exec.forEach_append, dumpAll_bind,
    Exec.bind_pure_unit]

/-- The conductor, its files, and whether it still runs. -/
structure Process where
  program : Program
  disk : Disk Text UInt8
  alive : Bool

/-- What happens to it: an event of the loop, or a dump, with what `now_ms()` says
and how the system calls go. -/
inductive Input
  | event (e : Event)
  | dump (nowMs : ℤ) (a : Files.Answers)

def events (is : List Input) : List Event :=
  is.filterMap fun
    | .event e => some e
    | .dump _ _ => none

def ended {ε α : Type} : Except ε α → Bool
  | .ok _ => true
  | .error _ => false

section
variable (codec : Codec) (stateCodec : MessageCodec ConductorState) (path : Text)

def tmpPath : Text := path ++ ".tmp".toList

def writeDump (nowMs : ℤ) (a : Files.Answers) (m : Process) : Process :=
  match (collect nowMs m.program).1 with
  | .ok proto =>
    let saved := replace (tmpPath path) path (stateCodec.serializeToString proto) a m.disk
    { m with disk := saved.2, alive := ended saved.1 }
  | .error _ => { m with alive := false }

/-- Nothing happens to a process that was killed or used a deleted `ConnInfo`. -/
def step (m : Process) : Input → Process
  | .event e =>
    if m.alive then
      { m with
        program := (handle codec e m.program).2
        alive := ended (handle codec e m.program).1 }
    else m
  | .dump nowMs a => if m.alive then writeDump stateCodec path nowMs a m else m

abbrev run (m : Process) (is : List Input) : Process := Runs.run (step codec stateCodec path) m is

def replaced (m : Process) : Input → Option (ConductorState × Bytes × Files.Answers)
  | .event _ => none
  | .dump nowMs a =>
    if m.alive ∧ a.Renames then
      match (collect nowMs m.program).1 with
      | .ok proto => (stateCodec.serializeToString proto).map (proto, ·, a)
      | .error _ => none
    else none

def lastSaved (m : Process) (is : List Input) : Option ConductorState :=
  (Runs.outputs (step codec stateCodec path)
    (fun m i => ((replaced stateCodec m i).map (·.1)).toList) m is).getLast?

/-- When the file is renamed, all of it has been put out. -/
def Flushed (m : Process) (i : Input) : Prop :=
  ∀ r ∈ replaced stateCodec m i,
    r.2.2.closed = .ok ∨ r.2.1.length ≤ r.2.2.out + r.2.2.closedOut

end

variable {codec : Codec} {stateCodec : MessageCodec ConductorState} {path : Text}

theorem path_ne_tmpPath (path : Text) : path ≠ tmpPath path := by
  intro h
  have hlength := congrArg List.length h
  simp [tmpPath] at hlength

/-- What one input does to the dump file. -/
theorem step_lookup (m : Process) (i : Input) :
    (step codec stateCodec path m i).disk.lookup path =
      match replaced stateCodec m i with
      | some r => some (r.2.2.content r.2.1)
      | none => m.disk.lookup path := by
  cases i with
  | event e =>
    simp only [step, replaced]
    split_ifs <;> rfl
  | dump nowMs a =>
    by_cases halive : m.alive = true
    · simp only [step, replaced, writeDump, halive, true_and, if_true]
      cases (collect nowMs m.program).1 with
      | error e => simp
      | ok proto =>
        have hreplace := replace_lookup (path_ne_tmpPath path)
          (stateCodec.serializeToString proto) a m.disk
        simp only [hreplace]
        cases stateCodec.serializeToString proto with
        | none => simp
        | some body => by_cases hr : a.Renames <;> simp [hr]
    · simp [step, replaced, halive]

theorem replaced_eq_some {m : Process} {i : Input} {r : ConductorState × Bytes × Files.Answers}
    (h : replaced stateCodec m i = some r) : ∃ nowMs, i = .dump nowMs r.2.2 ∧ m.alive = true ∧
      (collect nowMs m.program).1 = .ok r.1 ∧ stateCodec.serializeToString r.1 = some r.2.1 := by
  cases i with
  | event e => simp [replaced] at h
  | dump nowMs a =>
    simp only [replaced] at h
    split_ifs at h with hcond
    cases hcollect : (collect nowMs m.program).1 with
    | error e => simp [hcollect] at h
    | ok proto =>
      simp only [hcollect, Option.map_eq_some_iff] at h
      obtain ⟨body, hbody, rfl⟩ := h
      exact ⟨nowMs, rfl, hcond.1, hcollect, hbody⟩

/-- As long as the process runs, the program is where its events have taken it. -/
theorem program_of_alive {m : Process} {is : List Input}
    (h : (run codec stateCodec path m is).alive = true) :
    (run codec stateCodec path m is).program = Conductor.run codec m.program (events is) := by
  induction is using List.reverseRecOn with
  | nil => rfl
  | append_singleton is i ih =>
    rw [run, Runs.run_concat] at h ⊢
    have halive : (run codec stateCodec path m is).alive = true := by
      by_contra hdead
      cases i <;> simp only [step, if_neg hdead] at h <;> exact hdead h
    rw [events, List.filterMap_append, Conductor.run, Runs.run_append]
    cases i with
    | event e =>
      simp only [step, if_pos halive]
      rw [ih halive]
      rfl
    | dump nowMs a =>
      simp only [step, if_pos halive, writeDump]
      refine Eq.trans ?_ (ih halive)
      split <;> rfl

theorem lastSaved_concat (m : Process) (is : List Input) (i : Input) :
    lastSaved codec stateCodec path m (is ++ [i]) =
      match replaced stateCodec (run codec stateCodec path m is) i with
      | some r => some r.1
      | none => lastSaved codec stateCodec path m is := by
  rw [lastSaved, Runs.outputs_concat]
  cases hr : replaced stateCodec (run codec stateCodec path m is) i with
  | some r => simp
  | none => simp [lastSaved]

/-- What the file should be: the message that was put into it last, or what was in
it before. -/
def Current (codec : Codec) (stateCodec : MessageCodec ConductorState) (path : Text) (m : Process)
    (is : List Input) : Prop :=
  (run codec stateCodec path m is).disk.lookup path =
    match lastSaved codec stateCodec path m is with
    | some proto => stateCodec.serializeToString proto
    | none => m.disk.lookup path

/-- An input keeps the file as it should be exactly when it flushes what it renames. -/
theorem current_concat {m : Process} {is : List Input} (i : Input)
    (h : Current codec stateCodec path m is) : Current codec stateCodec path m (is ++ [i]) ↔
      Flushed stateCodec (run codec stateCodec path m is) i := by
  unfold Current Flushed
  rw [run, Runs.run_concat, step_lookup, lastSaved_concat]
  cases hr : replaced stateCodec (run codec stateCodec path m is) i with
  | none => exact iff_of_true h (by simp)
  | some r =>
    obtain ⟨nowMs, -, -, -, hbody⟩ := replaced_eq_some hr
    simp only [hbody, Option.some.injEq, Files.Answers.content_eq_iff, Option.mem_def,
      forall_eq']

theorem Current.of_flushed {m : Process} {is : List Input}
    (h : Runs.Steps (step codec stateCodec path) (Flushed stateCodec) m is) :
    Current codec stateCodec path m is := by
  induction is using List.reverseRecOn with
  | nil => rfl
  | append_singleton is i ih =>
    obtain ⟨hbefore, hlast, -⟩ := (Runs.steps_append _ _ _).mp h
    exact (current_concat i (ih hbefore)).mpr hlast

/-- What was put into the file last is a message of a state the conductor was in. -/
theorem exists_dump_of_lastSaved {m : Process} {is : List Input} {proto : ConductorState}
    (h : lastSaved codec stateCodec path m is = some proto) :
    ∃ before nowMs a, before ++ [.dump nowMs a] <+: is ∧
      (collect nowMs (Conductor.run codec m.program (events before))).1 = .ok proto := by
  induction is using List.reverseRecOn with
  | nil => simp [lastSaved, Runs.outputs] at h
  | append_singleton is i ih =>
    rw [lastSaved_concat] at h
    cases hr : replaced stateCodec (run codec stateCodec path m is) i with
    | none =>
      rw [hr] at h
      obtain ⟨before, nowMs, a, hbefore, hcollect⟩ := ih h
      exact ⟨before, nowMs, a, hbefore.trans (List.prefix_append _ _), hcollect⟩
    | some r =>
      rw [hr] at h
      obtain ⟨nowMs, rfl, halive, hcollect, -⟩ := replaced_eq_some hr
      refine ⟨is, nowMs, r.2.2, List.prefix_rfl, ?_⟩
      rw [← program_of_alive halive, hcollect, Option.some.inj h]

/-- The dump file is replaced as a whole. In every run of the conductor, killed at
whatever system call, what was put into the file last is a message of a state the
conductor was in; and the file is at all times what was put into it last, exactly
when no stream is renamed whose close failed before all was put out. -/
theorem dump_file_whole_iff_flushed (codec : Codec) (stateCodec : MessageCodec ConductorState)
    (path : Text) (m : Process) (is : List Input) :
    (∀ proto ∈ lastSaved codec stateCodec path m is, ∃ before nowMs a,
      before ++ [.dump nowMs a] <+: is ∧
        (collect nowMs (Conductor.run codec m.program (events before))).1 = .ok proto) ∧
      ((∀ done, done <+: is → Current codec stateCodec path m done) ↔
        Runs.Steps (step codec stateCodec path) (Flushed stateCodec) m is) := by
  refine ⟨fun proto hproto => exists_dump_of_lastSaved hproto, ?_⟩
  apply Runs.forall_prefix_iff
  · intro done _ hs
    exact .of_flushed hs
  · intro done i _ hs hafter
    exact (current_concat i (.of_flushed hs)).mp hafter

end VNet.Conductor.Dump
