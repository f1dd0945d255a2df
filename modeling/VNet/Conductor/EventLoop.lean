import VNet.Conductor.Dump
import VNet.Conductor.Lists
import VNet.Conductor.PendingTokens
import VNet.Memory

namespace VNet.Conductor.EventLoop
open Protocol NetQueue

abbrev State := Memory Answers ConductorState Peer

variable (codec : Codec)

def onSwitchMip (m : State) (data : SocketData) (pkt : PacketSwitchMip) : Reaction State :=
  let registered := m.tick.assign data.ptrData (switchInfo m.answer data pkt)
  .done (registered.withState { m.state with switches := m.state.switches ++ [data.ptrData] })

/-- `onAgentMIP` once a switch is chosen; the two packets are written to the sockets
past the queue. -/
def assignSwitch (m : State) (a : Answers) (data : SocketData) (pkt : PacketAgentMip) (p : ℕ) :
    State :=
  m.deref p fun sw =>
    let drawn := m.withState { m.state with drawn := m.state.drawn ++ [(a.token, a.now)] }
    let resp := toAgentBody codec a sw
    let answered := drawn.note (data.ptrData, data.fd, .connectToSwitch, resp.getD [])
    if a.toAgent && resp.isSome then
      let notify := toSwitchBody codec a pkt
      let told := answered.note (p, sw.fd, .agentConnectionToken, notify.getD [])
      if a.toSwitch && notify.isSome then
        told.withState
          { told.state with
            pendingTokens := told.state.pendingTokens ++
              [⟨pkt.name, sw.peer.name, a.nowMs, a.token⟩]
            agents := told.state.agents ++ [data.ptrData] }
      else told
    else answered

/-- `g_state` and the `ConnInfo`s, as `pick_switch` and `write_dump` read them. -/
def toProgram (m : State) : Program := ⟨m.state, m.infos, m.nextInfo, ∅, []⟩

def onAgentMip (m : State) (data : SocketData) (pkt : PacketAgentMip) : Reaction State :=
  let registered := m.tick.assign data.ptrData (agentInfo m.answer data pkt)
  match pickSwitch pkt.network (toProgram registered) with
  | (.ok none, _) => .close data.fd (.done registered)
  | (.ok (some p), picked) =>
    .done (assignSwitch codec (registered.withState picked.state) m.answer data pkt p)
  | (.error _, _) => .done registered.misuse

def onAgentMrp (m : State) (data : SocketData) (pkt : PacketAgentMrp) : Reaction State :=
  let registered := m.tick.assign data.ptrData (mrpInfo m.answer data pkt)
  .done (registered.withState { m.state with agents := m.state.agents ++ [data.ptrData] })

def onClose (m : State) (data : CloseData) : Reaction State :=
  .done (if data.ptrData = 0 then m
    else m.deref data.ptrData fun info =>
      (m.withState (unlist m.state data.ptrData info)).delete data.ptrData)

def onSocketReady (m : State) (data : SocketData) : Reaction State :=
  match data.packetType with
  | .switchMip =>
    match codec.switchMip.parseFromArray data.packetBuffer with
    | some pkt => onSwitchMip m data pkt
    | none => .done m
  | .agentMip =>
    match codec.agentMip.parseFromArray data.packetBuffer with
    | some pkt => onAgentMip codec m data pkt
    | none => .done m
  | .agentMrp =>
    match codec.agentMrp.parseFromArray data.packetBuffer with
    | some pkt => onAgentMrp m data pkt
    | none => .done m
  | _ => .done m

def handler : NetworkQueueHandler State where
  onClose := onClose
  onSocketReady := onSocketReady codec
  onTunReady m _ := .done m

variable {κ : Type} (kernel : Kernel κ) (fuel : ℕ)

/-- What one round of the loop gets from outside, and whether `SIGUSR1` came in it. -/
structure Round where
  clients : List Client
  reported : List (Fd × Events)
  dumpRequest : Bool
  deriving DecidableEq, Repr

def dumpInterval : ℤ := 5 * 10 ^ 9

def listed (g : ConductorState) : List ℕ := g.switches ++ g.agents

/-- `write_dump` as far as the message it collects; the file is not seen here. -/
def dumped (m : State) : State :=
  match (Dump.collect m.answer.nowMs (toProgram m)).1 with
  | .ok _ => m
  | .error _ => m.misuse

def writeDump : NetQueue.Run κ State Unit :=
  Exec.change fun w => { w with user := dumped w.user }

def readClock : NetQueue.Run κ State Answers :=
  Exec.next fun w => (w.user.answer, { w with user := w.user.tick })

/-- The periodic dump; the value is the new `last_dump`. -/
def periodicDump (last : ℤ) : NetQueue.Run κ State ℤ := do
  let a ← readClock
  if dumpInterval ≤ a.now - last then do
    writeDump
    pure a.now
  else pure last

/-- The dump for `SIGUSR1`. -/
def requestedDump (dumpRequest : Bool) : NetQueue.Run κ State Unit :=
  if dumpRequest then writeDump else pure ()

def round (last : ℤ) (r : Round) : NetQueue.Run κ State ℤ := do
  Exec.forEach (acceptClient Answers.now {}) r.clients
  NetQueue.waitAndProcess kernel (handler codec) fuel r.reported
  VNet.sendHeartbeats kernel Answers.now listed
  let last ← periodicDump last
  requestedDump r.dumpRequest
  pure last

def mainLoop (last : ℤ) : List Round → NetQueue.Run κ State Unit
  | [] => pure ()
  | r :: rs => do
    let last ← round codec kernel fuel last r
    mainLoop last rs

/-- `main` from where the queue has been made. -/
def main (rounds : List Round) : NetQueue.Run κ State Unit := do
  let a ← readClock
  mainLoop codec kernel fuel a.now rounds
  writeDump

def start (k : κ) (answers : ℕ → Answers) : World κ State :=
  .start k ⟨⟨[], [], [], 0, []⟩, ∅, 1, [], answers, false⟩

/-- The listed `ConnInfo`s are allocated, and the listed switches are open. -/
structure Sound (s : Program) : Prop where
  wired : s.Wired
  lists : ListsAlive s
  opened : ∀ p ∈ s.state.switches, ∃ fd, s.Holds fd p

variable {codec} {s s' : Program}

theorem Sound.start : Sound Conductor.start where
  wired := wired_start
  lists := by simp [ListsAlive, Conductor.start]
  opened p hp := by simp [Conductor.start] at hp

theorem Sound.alive (h : Sound s) :
    ∀ p ∈ listed s.state, ∃ info, s.infos.lookup p = some info :=
  fun p hp => Option.isSome_iff_exists.mp (h.lists p hp)

theorem opened_forget (h : Sound s) {data : CloseData} (hh : s.Holds data.fd data.ptrData)
    {info : ConnInfo Peer} (hinfo : s.infos.lookup data.ptrData = some info)
    (hc : ClosedAsListed s (.closed data)) :
    ∀ p ∈ (forget s data info).state.switches, ∃ fd, (forget s data info).Holds fd p := by
  intro p hp
  obtain ⟨hmem, hne⟩ := (mem_unlist_switches _ _ _ _).mp hp
  obtain ⟨fd, hfd⟩ := h.opened p hmem
  refine ⟨fd, ?_⟩
  have hother : fd ≠ data.fd := by
    rintro rfl
    -- the connection that is closed is listed as a switch only if that is its role
    obtain rfl : p = data.ptrData := Option.some.inj (hfd.symm.trans hh)
    exact hne ((hc hh info hinfo).1 hmem) rfl
  rw [Server.Holds, forget, FiniteMap.lookup_erase_eq, if_neg hother]
  exact hfd

theorem Sound.step (h : Sound s) (codec : Codec) {e : Event} (hc : ClosedAsListed s e) :
    Sound (step codec s e) := by
  have ht := step_transition codec h.wired h.lists.switches e
  refine ⟨ht.wired h.wired, ht.listsAlive h.lists hc, ?_⟩
  by_cases hclose : ∀ data, e = .closed data → ¬ s.Holds data.fd data.ptrData
  · exact (Issuing.extends_of_transition ht h.opened hclose).opened
  · push Not at hclose
    obtain ⟨data, rfl, hh⟩ := hclose
    obtain ⟨info, hinfo, heq⟩ := step_closed codec h.wired hh
    rw [heq]
    exact opened_forget h hh hinfo hc

def event (a : Answers) : Called → Option Event
  | .onSocketReady data => some (.packet data a)
  | .onClose data => some (.closed data)
  | .onTunReady _ => none

theorem assignSwitch_answers (m : State) (a : Answers) (data : SocketData) (pkt : PacketAgentMip)
    (p : ℕ) : (assignSwitch codec m a data pkt p).answers = m.answers := by
  refine m.answers_deref rfl p fun sw => ?_
  dsimp only
  split_ifs <;> rfl

section
variable {v v' : View State} {data : SocketData} {info : ConnInfo Peer}

theorem onSwitchMip_agrees (h : Agrees v s) (hinfo : s.infos.lookup data.ptrData = some info)
    (pkt : PacketSwitchMip) (hreacts : View.Reacts (onSwitchMip v.user data pkt) v v') :
    Agrees v' (Conductor.onSwitchMip v.user.answer data pkt s).2 := by
  rw [onSwitchMip_eq hinfo, reacts_done hreacts, ← h.state]
  exact (h.tick.assign hinfo _).withState _

theorem onAgentMrp_agrees (h : Agrees v s) (hinfo : s.infos.lookup data.ptrData = some info)
    (pkt : PacketAgentMrp) (hreacts : View.Reacts (onAgentMrp v.user data pkt) v v') :
    Agrees v' (Conductor.onAgentMrp v.user.answer data pkt s).2 := by
  rw [onAgentMrp_eq hinfo, reacts_done hreacts, ← h.state]
  exact (h.tick.assign hinfo _).withState _

/-- Both packets go to descriptors of the queue, so how a send goes is what the
kernel says. -/
theorem assignSwitch_agrees (codec : Codec) (h : Agrees v s) {p : ℕ} {sw : ConnInfo Peer}
    (hsw : s.infos.lookup p = some sw) (a : Answers) (pkt : PacketAgentMip)
    (hagent : s.Holds data.fd data.ptrData) (hswitch : s.Holds sw.fd p) :
    Agrees { v with user := assignSwitch codec v.user a data pkt p }
      (assigned codec a data pkt p sw s) := by
  have hsends : ∀ {fd : Fd} {q : ℕ} (body : Option Bytes) (ok : Bool), s.Holds fd q →
      s.sends fd body ok = (ok && body.isSome) := by
    intro fd q body ok hh
    rw [Server.sends, show s.queue.lookup fd = some q from hh, Option.isSome_some, Bool.and_true]
  rw [assignSwitch, Memory.deref_some _ (h.lookup hsw)]
  have hdrawn := h.withState { s.state with drawn := s.state.drawn ++ [(a.token, a.now)] }
  have hanswered := hdrawn.note (toAgentCall codec a data sw s)
  have htold := hanswered.note (toSwitchCall codec a pkt p sw s)
  have hok : (toAgentCall codec a data sw s).ok = (a.toAgent && (toAgentBody codec a sw).isSome) :=
    hsends _ _ hagent
  have hok' : (toSwitchCall codec a pkt p sw s).ok =
      (a.toSwitch && (toSwitchBody codec a pkt).isSome) :=
    hsends _ _ hswitch
  cases hfirst : a.toAgent && (toAgentBody codec a sw).isSome with
  | false =>
    simp only [assigned, hok, hfirst, Bool.false_and, Bool.false_eq_true, if_false, ← h.state]
    exact hanswered
  | true =>
    cases hsecond : a.toSwitch && (toSwitchBody codec a pkt).isSome with
    | false =>
      simp only [assigned, hok, hok', hfirst, hsecond, Bool.and_false, Bool.false_eq_true,
        if_true, if_false, ← h.state]
      rw [List.append_cons s.sent]
      exact htold
    | true =>
      simp only [assigned, hok, hok', hfirst, hsecond, Bool.and_self, if_true, ← h.state]
      rw [List.append_cons s.sent]
      exact htold.withState _

theorem onAgentMip_agrees (codec : Codec) (hs : Sound s) (h : Agrees v s)
    (hh : s.Holds data.fd data.ptrData) (hinfo : s.infos.lookup data.ptrData = some info)
    (pkt : PacketAgentMip) (hreacts : View.Reacts (onAgentMip codec v.user data pkt) v v') :
    Agrees v' (Conductor.onAgentMip codec v.user.answer data pkt s).2 := by
  have hregistered := h.tick.assign hinfo (agentInfo v.user.answer data pkt)
  unfold onAgentMip at hreacts
  dsimp only at hreacts
  set registered := v.user.tick.assign data.ptrData (agentInfo v.user.answer data pkt)
  set t : Program := rewrite s data.ptrData (agentInfo v.user.answer data pkt info) with ht
  have hstate : (toProgram registered).state = t.state := hregistered.state.symm
  have hinfos : (toProgram registered).infos = t.infos := hregistered.infos.symm
  have hwired : Server.Wired t := wired_rewrite hs.wired hh rfl
  by_cases hnil : s.state.switches = []
  · rw [pickSwitch_none (by rw [hstate]; exact hnil)] at hreacts
    rw [onAgentMip_none hinfo hnil, reacts_close hreacts]
    exact hregistered.drop data.fd
  · obtain ⟨p, rr, sw, hp, hsw, hpick, heq⟩ := onAgentMip_some codec hinfo hnil hs.lists.switches
    obtain ⟨fd, hfd⟩ := hs.opened p hp
    obtain ⟨sw', hsw', rfl⟩ := hwired.alive fd p hfd
    obtain rfl : sw' = sw := Option.some.inj (hsw'.symm.trans hsw)
    have hpicked := hregistered.withState { t.state with rrIndex := rr }
    have hcursor : (withRr (toProgram registered) rr).state = { t.state with rrIndex := rr } := by
      rw [withRr, Server.withState, hstate]
    rw [hpick _ hstate hinfos] at hreacts
    rw [heq, reacts_done hreacts, hcursor]
    exact assignSwitch_agrees codec hpicked hsw v.user.answer pkt hh hfd

theorem onClose_agrees {close : CloseData} (hs : Sound s) (h : Agrees v s)
    (hh : s.Holds close.fd close.ptrData) (hreacts : View.Reacts (onClose v.user close) v v') :
    Agrees (v'.drop close.fd) (step codec s (.closed close)) := by
  obtain ⟨info, hinfo, heq⟩ := step_closed codec hs.wired hh
  have hne : close.ptrData ≠ 0 := Nat.pos_iff_ne_zero.mp (hs.wired.fresh _ _ hinfo).1
  rw [heq, reacts_done hreacts, ← h.state]
  exact (h.closed hne hinfo (unlist s.state close.ptrData)).drop close.fd

/-- A packet that does not parse changes nothing. -/
theorem ifParsed_agrees {M : Type} (c : MessageCodec M) (h : Agrees v s)
    {g : SocketData → M → Run Unit}
    (hnone : c.parseFromArray data.packetBuffer = none → View.Reacts (.done v.user) v v')
    (hsome : ∀ pkt, c.parseFromArray data.packetBuffer = some pkt → Agrees v' (g data pkt s).2) :
    Agrees v' (c.ifParsed data g s).2 := by
  unfold MessageCodec.ifParsed
  cases hparse : c.parseFromArray data.packetBuffer with
  | none => exact nothing_agrees h (hnone hparse)
  | some pkt => exact hsome pkt hparse

theorem onSocketReady_agrees (codec : Codec) (hs : Sound s) (h : Agrees v s)
    (hh : s.Holds data.fd data.ptrData)
    (hreacts : View.Reacts (onSocketReady codec v.user data) v v') :
    Agrees v' (step codec s (.packet data v.user.answer)) := by
  obtain ⟨info, hinfo, -⟩ := hs.wired.alive _ _ hh
  unfold onSocketReady at hreacts
  rw [step_packet hh, Dispatch.onSocketReady]
  cases ht : data.packetType with
  | switchMip =>
    simp only [ht] at hreacts
    refine ifParsed_agrees codec.switchMip h (fun hparse => ?_) fun pkt hparse => ?_
    · simpa only [hparse] using hreacts
    · exact onSwitchMip_agrees h hinfo pkt (by simpa only [hparse] using hreacts)
  | agentMip =>
    simp only [ht] at hreacts
    refine ifParsed_agrees codec.agentMip h (fun hparse => ?_) fun pkt hparse => ?_
    · simpa only [hparse] using hreacts
    · exact onAgentMip_agrees codec hs h hh hinfo pkt (by simpa only [hparse] using hreacts)
  | agentMrp =>
    simp only [ht] at hreacts
    refine ifParsed_agrees codec.agentMrp h (fun hparse => ?_) fun pkt hparse => ?_
    · simpa only [hparse] using hreacts
    · exact onAgentMrp_agrees h hinfo pkt (by simpa only [hparse] using hreacts)
  | _ =>
    simp only [ht] at hreacts
    simp only [dispatch, MessageCodec.ifParsed_nothing, Exec.pure_apply]
    exact nothing_agrees h hreacts

theorem onAgentMip_reads {pkt : PacketAgentMip}
    (hreacts : View.Reacts (onAgentMip codec v.user data pkt) v v') :
    Reads v.user.answers v'.user.answers [v.user.answer] := by
  have hassigned := v.user.tick.answers_assign data.ptrData (agentInfo v.user.answer data pkt)
  have hread : Reads v.user.answers v.user.tick.answers [v.user.answer] := .once _
  unfold onAgentMip at hreacts
  dsimp only at hreacts
  split at hreacts
  · rw [reacts_close hreacts, hassigned]
    exact hread
  · refine reads_done hreacts ?_
    rw [assignSwitch_answers, Memory.withState, hassigned]
    exact hread
  · refine reads_done hreacts ?_
    rw [Memory.misuse, hassigned]
    exact hread

theorem onSocketReady_reads (hreacts : View.Reacts (onSocketReady codec v.user data) v v') :
    Reads v.user.answers v'.user.answers [v.user.answer] := by
  have hread : Reads v.user.answers v.user.tick.answers [v.user.answer] := .once _
  unfold onSocketReady at hreacts
  split at hreacts
  · split at hreacts
    · refine reads_done hreacts ?_
      rw [Memory.withState, Memory.answers_assign]
      exact hread
    · exact reads_done hreacts (.ahead _)
  · split at hreacts
    · exact onAgentMip_reads hreacts
    · exact reads_done hreacts (.ahead _)
  · split at hreacts
    · refine reads_done hreacts ?_
      rw [Memory.withState, Memory.answers_assign]
      exact hread
    · exact reads_done hreacts (.ahead _)
  · exact reads_done hreacts (.ahead _)

theorem onClose_reads {close : CloseData} (hreacts : View.Reacts (onClose v.user close) v v') :
    Reads v.user.answers v'.user.answers [v.user.answer] :=
  reads_done hreacts (reads_closed _ _ _)

end

/-- What `ConductorDispatch` does in a callback is what the program does on the
event. -/
theorem handler_simulates (codec : Codec) :
    Simulates (handler codec) event (step codec) ClosedAsListed Sound where
  sound s e hs hc := hs.step codec hc
  reads {v v' c} _ hcall := by
    obtain ⟨-, -, m, hreacts, rfl⟩ := hcall
    rw [View.returned_user]
    cases c with
    | onClose data => exact onClose_reads hreacts
    | onSocketReady data => exact onSocketReady_reads hreacts
    | onTunReady data => exact reads_done hreacts (.ahead _)
  agrees {v v' s c} _ hs h hcall := by
    obtain ⟨-, hheld, m, hreacts, rfl⟩ := hcall
    cases c with
    | onClose data => exact onClose_agrees hs h (h.holds.mpr hheld) hreacts
    | onSocketReady data => exact onSocketReady_agrees codec hs h (h.holds.mpr hheld) hreacts
    | onTunReady data => exact nothing_agrees h hreacts

/-- What a round saw: the clients it accepted and the callbacks, each with the
answers, those to `send_heartbeats` and to the check of `last_dump`, and whether it
dumped there and for the signal. -/
structure Seen where
  clients : List (Answers × Client)
  calls : List (Answers × Called)
  beat : Answers
  checked : Answers
  periodic : Bool
  requested : Bool

structure Round.Saw (last : ℤ) (r : Round) (x : Seen) : Prop where
  clients : x.clients.map (·.2) = r.clients
  calls : ∀ c ∈ x.calls, c.2.fd ∈ r.reported.map (·.1)
  periodic : x.periodic = decide (dumpInterval ≤ x.checked.now - last)
  requested : x.requested = r.dumpRequest

/-- The rounds one by one, each with the `last_dump` it starts from. -/
inductive SawAll : ℤ → List Round → List Seen → Prop
  | nil (last : ℤ) : SawAll last [] []
  | cons {last : ℤ} {r : Round} {x : Seen} {rs : List Round} {xs : List Seen} :
      r.Saw last x → SawAll (if x.periodic then x.checked.now else last) rs xs →
      SawAll last (r :: rs) (x :: xs)

def accepted (a : Answers) (c : Client) : Event := .accept c.fd a.now c.put

def dumps (b : Bool) : List Event := if b then [.writeDump] else []

def Seen.events (x : Seen) : List Event :=
  x.clients.map (fun c => accepted c.1 c.2) ++ eventsOf event x.calls ++
    [.sendHeartbeats x.beat.now fun _ => true] ++ dumps x.periodic ++ dumps x.requested

def Seen.answers (x : Seen) : List Answers :=
  x.clients.map (·.1) ++ x.calls.map (·.1) ++ [x.beat, x.checked]

abbrev Follows {κ : Type} (codec : Codec) (w w' : World κ State) (es : List Event)
    (cs : List Called) (as : List Answers) : Prop :=
  VNet.Follows (step codec) ClosedAsListed Sound w w' es cs as

theorem dumped_answers (m : State) : (dumped m).answers = m.answers := by
  unfold dumped
  split <;> rfl

theorem dumped_alive {m : State} (h : ListsAlive (toProgram m)) : dumped m = m := by
  have hok := writeDump_ok h
  rw [Dump.writeDump_eq_collect m.answer.nowMs] at hok
  cases hc : Dump.collect m.answer.nowMs (toProgram m) with
  | mk r s =>
    cases r with
    | ok proto => rw [dumped, hc]
    | error e =>
      rw [Exec.bind_error hc] at hok
      cases hok

section
variable {κ : Type} {w : World κ State}

theorem writeDump_follows (codec : Codec) (hinv : w.queue.Inv) :
    Exec.Ends (· = w) writeDump fun _ w' => Follows codec w w' [.writeDump] [] [] := by
  apply Exec.Triple.change
  rintro v rfl
  have hpasses : Passes v { v with user := dumped v.user } [] [] := by
    refine .silent hinv rfl ?_
    rw [dumped_answers]
    exact .refl _
  refine hpasses.follows fun s hs h => ?_
  have halive : ListsAlive (toProgram v.user) := by
    have hstate : s.state = v.user.state := h.state
    have hinfos : s.infos = v.user.infos := h.infos
    unfold ListsAlive toProgram
    rw [← hstate, ← hinfos]
    exact hs.lists
  rw [dumped_alive halive, show step codec s .writeDump = s from writeDump_state s]
  exact h

theorem requestedDump_follows (codec : Codec) (dumpRequest : Bool) (hinv : w.queue.Inv) :
    Exec.Ends (· = w) (requestedDump dumpRequest) fun _ w' =>
      Follows codec w w' (dumps dumpRequest) [] [] := by
  cases dumpRequest with
  | true => exact writeDump_follows codec hinv
  | false =>
    apply Exec.Triple.pure
    rintro v rfl
    exact .refl hinv

theorem readClock_follows (codec : Codec) (hinv : w.queue.Inv) :
    Exec.Ends (· = w) readClock fun a w' =>
      a = w.user.answer ∧ Follows codec w w' [] [] [w.user.answer] := by
  apply Exec.Triple.next
  rintro v rfl
  exact ⟨rfl, .silent hinv rfl (.once _), fun _ _ h _ => h.tick⟩

theorem periodicDump_follows (codec : Codec) (last : ℤ) (hinv : w.queue.Inv) :
    Exec.Ends (· = w) (periodicDump last) fun last' w' => ∃ a periodic,
      periodic = decide (dumpInterval ≤ a.now - last) ∧
      last' = (if periodic then a.now else last) ∧
      Follows codec w w' (dumps periodic) [] [a] := by
  apply Exec.Ends.intro
  rintro v rfl last' w' hrun
  obtain ⟨a, u, hread, hrun⟩ := Exec.bind_eq_ok hrun
  obtain ⟨rfl, hu⟩ := (readClock_follows codec hinv).of_eq rfl hread
  refine ⟨v.user.answer, decide (dumpInterval ≤ v.user.answer.now - last), rfl, ?_⟩
  by_cases hdue : dumpInterval ≤ v.user.answer.now - last
  · rw [if_pos hdue] at hrun
    obtain ⟨_, t, hdump, hlast⟩ := Exec.bind_eq_ok hrun
    obtain ⟨heq, rfl⟩ := Prod.mk.inj hlast
    have ht := (writeDump_follows codec hu.inv).of_eq rfl hdump
    rw [decide_eq_true hdue]
    exact ⟨(Except.ok.inj heq).symm, hu.trans (handler_simulates codec).sound ht⟩
  · rw [if_neg hdue] at hrun
    obtain ⟨heq, rfl⟩ := Prod.mk.inj hrun
    rw [decide_eq_false hdue]
    exact ⟨(Except.ok.inj heq).symm, hu⟩

theorem round_follows (codec : Codec) (kernel : Kernel κ) (fuel : ℕ) (last : ℤ) (r : Round)
    (hinv : w.queue.Inv) :
    Exec.Ends (· = w) (round codec kernel fuel last r) fun last' w' => ∃ x : Seen,
      r.Saw last x ∧ last' = (if x.periodic then x.checked.now else last) ∧
        Follows codec w w' x.events (x.calls.map (·.2)) x.answers := by
  have hsim := handler_simulates codec
  apply Exec.Ends.intro
  rintro v rfl last' w' hround
  obtain ⟨_, u, hclients, hround⟩ := Exec.bind_eq_ok hround
  obtain ⟨_, t, hwait, hround⟩ := Exec.bind_eq_ok hround
  obtain ⟨_, t', hbeat, hround⟩ := Exec.bind_eq_ok hround
  obtain ⟨last₁, t'', hperiodic, hround⟩ := Exec.bind_eq_ok hround
  obtain ⟨_, u', hrequested, hlast⟩ := Exec.bind_eq_ok hround
  obtain ⟨heq, rfl⟩ := Prod.mk.inj hlast
  obtain ⟨clients, hmap, hu⟩ := (hsim.acceptClients Answers.now {} accepted (fun _ _ _ => rfl)
    r.clients hinv).of_eq rfl hclients
  obtain ⟨calls, hreported, ht⟩ :=
    (hsim.waitAndProcess kernel fuel r.reported hu.inv).of_eq rfl hwait
  obtain ⟨hpasses, hagrees⟩ :=
    (sendHeartbeats_agrees kernel Answers.now listed (fun _ => true) ht.inv).of_eq rfl hbeat
  have ht' : Follows codec t t' [.sendHeartbeats t.user.answer.now fun _ => true] []
      [t.user.answer] :=
    hpasses.follows fun s hs h => hagrees s h hs.alive
  obtain ⟨checked, periodic, hdue, rfl, ht''⟩ :=
    (periodicDump_follows codec last ht'.inv).of_eq rfl hperiodic
  have hu' := (requestedDump_follows codec r.dumpRequest ht''.inv).of_eq rfl hrequested
  refine ⟨⟨clients, calls, t.user.answer, checked, periodic, r.dumpRequest⟩,
    ⟨hmap, hreported, hdue, rfl⟩, (Except.ok.inj heq).symm, ?_⟩
  have hall := (((hu.trans hsim.sound ht).trans hsim.sound ht').trans hsim.sound ht'').trans
    hsim.sound hu'
  simpa [Seen.answers, Seen.events] using hall

theorem mainLoop_follows (codec : Codec) (kernel : Kernel κ) (fuel : ℕ) (last : ℤ)
    (rounds : List Round) (hinv : w.queue.Inv) :
    Exec.Ends (· = w) (mainLoop codec kernel fuel last rounds) fun _ w' => ∃ seen,
      SawAll last rounds seen ∧ Follows codec w w' (seen.flatMap Seen.events)
        (seen.flatMap fun x => x.calls.map (·.2)) (seen.flatMap Seen.answers) := by
  induction rounds generalizing last w with
  | nil =>
    apply Exec.Triple.pure
    rintro v rfl
    exact ⟨[], .nil last, .refl hinv⟩
  | cons r rs ih =>
    apply Exec.Ends.intro
    rintro v rfl _ w' hrun
    obtain ⟨last', u, hfirst, hrest⟩ := Exec.bind_eq_ok hrun
    obtain ⟨x, hx, rfl, hu⟩ := (round_follows codec kernel fuel last r hinv).of_eq rfl hfirst
    obtain ⟨xs, hxs, hw'⟩ := (ih _ hu.inv).of_eq rfl hrest
    refine ⟨x :: xs, .cons hx hxs, ?_⟩
    simp only [List.flatMap_cons]
    exact hu.trans (handler_simulates codec).sound hw'

end

theorem start_agrees {κ : Type} (k : κ) (answers : ℕ → Answers) :
    Agrees (start k answers).view Conductor.start :=
  ⟨rfl, rfl, rfl, rfl, fun _ => rfl, rfl⟩

/-- `main` of the conductor on its queue is the program of the conductor. In every run
that returns, whatever the kernel answers, the events are those of the rounds, in their
order: an `accept` for each client, a `packet` or `closed` for each callback,
`sendHeartbeats`, a `writeDump` when five seconds have passed since the last periodic
one, one when it was asked for, and one at the end. When no connection is reported
closed while it is on the list that its last role does not belong to, the memory and
the table of descriptors at the end are those of the program's run over these events,
and no `ConnInfo` was used that was not allocated. -/
theorem main_runs_program {κ : Type} (codec : Codec) (kernel : Kernel κ) (fuel : ℕ) (k : κ)
    (answers : ℕ → Answers) (rounds : List Round) {w : World κ State}
    (h : main codec kernel fuel rounds (start k answers) = (.ok (), w)) :
    ∃ seen : List Seen, SawAll (answers 0).now rounds seen ∧
      seen.flatMap (fun x => x.calls.map (·.2)) = w.log.map (·.called) ∧
      Reads answers w.user.answers (answers 0 :: seen.flatMap Seen.answers) ∧
      let events := seen.flatMap Seen.events ++ [.writeDump]
      Runs.Steps (step codec) ClosedAsListed Conductor.start events →
        Agrees w.view (run codec Conductor.start events) := by
  obtain ⟨a, u, hread, hrest⟩ := Exec.bind_eq_ok h
  obtain ⟨_, t, hloop, hdump⟩ := Exec.bind_eq_ok hrest
  obtain ⟨rfl, hu⟩ := (readClock_follows codec Queue.Inv.empty).of_eq rfl hread
  obtain ⟨seen, hsaw, ht⟩ := (mainLoop_follows codec kernel fuel _ rounds hu.inv).of_eq rfl hloop
  have hw := (writeDump_follows codec ht.inv).of_eq rfl hdump
  have hsound := (handler_simulates codec).sound
  have hall := (hu.trans hsound ht).trans hsound hw
  refine ⟨seen, hsaw, ?_, ?_, fun hsteps => ?_⟩
  · simpa [start, World.start] using hall.log_eq.symm
  · simpa [start, World.start, Memory.answer] using hall.reads
  · exact hall.agrees _ Sound.start (start_agrees k answers) hsteps

def registeringReads : List ReadResult :=
  let body : Bytes := [0x0a, 2, 0x73, 0x31, 0x12, 1, 0x6b, 0x1a, 10, 0x3a, 0x3a, 0x69, 0x6e, 0x74,
    0x65, 0x72, 0x6e, 0x65, 0x74, 0x20, 0xd8, 0x36]
  [.bytes (packetHeader (.ofNat body.length) .switchMip), .bytes body, .eagain]

def registeringRounds : List Round :=
  [⟨[⟨5, true, true⟩], [(5, ⟨true, false, false, false⟩)], true⟩]

theorem main_runs_program_registering :
    let answers : ℕ → Answers := fun n => ⟨n, n, some 0x0200000a, 7, true, true⟩
    let w := (main .sample scriptedKernel 9 registeringRounds (start registeringReads answers)).2
    w.user.state.switches = [1] ∧ ∃ seen : List Seen,
      SawAll (answers 0).now registeringRounds seen ∧
        seen.flatMap (fun x => x.calls.map (·.2)) = w.log.map (·.called) ∧
        Reads answers w.user.answers (answers 0 :: seen.flatMap Seen.answers) ∧
        let events := seen.flatMap Seen.events ++ [.writeDump]
        Runs.Steps (step .sample) ClosedAsListed Conductor.start events →
          Agrees w.view (run .sample Conductor.start events) := by
  intro answers w
  have hdone : (main .sample scriptedKernel 9 registeringRounds
      (start registeringReads answers)).1 = .ok () := by decide +kernel
  refine ⟨by decide +kernel, ?_⟩
  exact main_runs_program .sample scriptedKernel 9 registeringReads answers registeringRounds
    (Exec.eq_ok_of_fst hdone)

end VNet.Conductor.EventLoop
