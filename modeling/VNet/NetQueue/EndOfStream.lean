import VNet.NetQueue.Lifetime
import VNet.NetQueue.Progress

namespace VNet.NetQueue
open Protocol

/-- A pass on a closed stream goes on, and gets nearer to the end unless a
payload is stuck. -/
theorem Received.pass_advances {s : Bytes} {c : Conn} (h : Received s c)
    (hclosed : c.socket.closed = true) (hst : c.Reading) (n : ℕ) :
    (c.pass (.upTo n)).1 = .again ∧ ((c.pass (.upTo n)).2.Reading ∨ (c.pass (.upTo n)).2.AtEnd) ∧
      ((c.pass (.upTo n)).2.todo < c.todo ∨ c.Stuck) := by
  rcases h.pass_cases hst (a := .upTo n) (by simp) with ⟨hagain, hnext, htodo⟩ | ⟨-, hwaits⟩
  · exact ⟨hagain, hnext.imp_right And.right, htodo.imp_right And.right⟩
  · simp [Conn.Waits, hclosed] at hwaits

/-- The frames handed over by the end of the stream are all its whole frames,
and what is left is less than a header. -/
theorem Received.split_atEnd {s : Bytes} {c : Conn} (h : Received s c) (hend : c.AtEnd) :
    framing.split s = (c.delivered.map (·.fullBuffer), c.element.buffered) ∧
      c.element.buffered.length < packetHeaderSize := by
  have hok := h.stateOk
  simp only [StateOk, hend.1] at hok
  have hlen : c.element.buffered.length < packetHeaderSize := by
    rw [NetworkElement.buffered_length h.stored]
    exact hok
  have heq := h.stream_eq
  rw [hend.2, List.append_nil] at heq
  exact ⟨LengthFraming.split_eq_of_flatten (by simpa using h.isFrame)
    (LengthFraming.not_complete_of_short hlen) heq, hlen⟩

structure Peer where
  socket : Socket
  arrivals : ℕ → Arrival

def peerKernel : Kernel Peer where
  read p _ count := ((p.socket.read count (p.arrivals 0)).1,
    ⟨(p.socket.read count (p.arrivals 0)).2, fun i => p.arrivals (i + 1)⟩)
  write p _ := ([], p)
  epollMod p _ := (true, p)

variable {σ : Type}

/-- A handler that makes no calls on the queue. -/
def observer (onClose : σ → CloseData → σ) (onSocketReady : σ → SocketData → σ)
    (onTunReady : σ → TunData → σ) : NetworkQueueHandler σ where
  onClose s d := .done (onClose s d)
  onSocketReady s d := .done (onSocketReady s d)
  onTunReady s d := .done (onTunReady s d)

def World.received {κ : Type} (w : World κ σ) (id : ElemId) : List SocketData :=
  w.log.filterMap fun c => match c.called with
    | .onSocketReady d => if c.element = id then some d else none
    | _ => none

def World.closes {κ : Type} (w : World κ σ) (id : ElemId) : List CloseReason :=
  w.log.filterMap fun c => match c.called with
    | .onClose d => if c.element = id then some d.reason else none
    | _ => none

/-- The queue holds the element of a connection, armed for `EPOLLIN`, and the
kernel its socket. -/
structure Shows (w : World Peer σ) (id : ElemId) (c : Conn) (arrivals : ℕ → Arrival) : Prop where
  element : w.queue.elements.lookup id = some c.element
  kernel : w.kernel = ⟨c.socket, arrivals⟩
  received : w.received id = c.delivered
  closes : w.closes id = []
  mapped : w.queue.fdToNetworkElement.lookup c.element.fd = some id

def Arrived (arrivals : ℕ → Arrival) : Prop := ∀ i, ∃ n, arrivals i = .upTo n

section
variable (onClose : σ → CloseData → σ) (onSocketReady : σ → SocketData → σ)
    (onTunReady : σ → TunData → σ)

theorem Conn.pass_fd (c : Conn) (a : Arrival) : (c.pass a).2.element.fd = c.element.fd := by
  have hfd := processPass_fd c.element
  cases hp : processPass c.element with
  | read count resume =>
    rw [hp] at hfd
    simp only [Conn.pass, hp]
    exact hfd _
  | socketReady data resume =>
    rw [hp] at hfd
    simp only [Conn.pass, hp]
    exact hfd _
  | tunReady data resume =>
    rw [hp] at hfd
    simp only [Conn.pass, hp]
    exact hfd _
  | stop => simp only [Conn.pass, hp]

/-- The callback of an observer is an entry in the log. -/
theorem callback_observer {κ : Type} (kernel : Kernel κ) (id : ElemId) (called : Called) (f : σ → σ)
    (w : World κ σ) : callback kernel id called (fun s => .done (f s)) w =
      (.ok (), { w with
        user := f w.user
        calling := none
        log := w.log ++ [⟨id, called, w.upcoming, []⟩] }) := rfl

/-- The end of a pass with a callback. -/
theorem callback_resume {κ : Type} (kernel : Kernel κ) {id : ElemId} {e : NetworkElement}
    {w : World κ σ} (h : w.queue.elements.lookup id = some e) (called : Called) (f : σ → σ)
    (resume : NetworkElement → NetworkElement) :
    (do
      callback kernel id called fun s => .done (f s)
      let e' ← deref id
      assign id (resume e')
      pure Flow.again : Run κ σ Flow) w =
    (.ok .again,
      { w with
        queue := w.queue.setElement id (resume e)
        user := f w.user
        calling := none
        log := w.log ++ [⟨id, called, w.upcoming, []⟩] }) := by
  let w' : World κ σ :=
    { w with user := f w.user, calling := none, log := w.log ++ [⟨id, called, w.upcoming, []⟩] }
  have hw' : w'.queue.elements.lookup id = some e := h
  rw [Exec.bind_ok (callback_observer kernel id called f w), Exec.bind_ok (deref_ok hw'),
    Exec.bind_ok (assign_ok hw' _)]
  rfl

/-- The element, its socket and the log after a pass. -/
theorem Shows.next {w : World Peer σ} {id : ElemId} {c : Conn} {arrivals : ℕ → Arrival}
    (h : Shows w id c arrivals) {e : NetworkElement} (hfd : e.fd = c.element.fd) (socket : Socket)
    (arrivals' : ℕ → Arrival) (user : σ) (log : List Callback)
    (calling : Option (ElemId × Called)) {delivered : List SocketData}
    (hrec : ({ w with log := log } : World Peer σ).received id = delivered)
    (hcl : ({ w with log := log } : World Peer σ).closes id = []) :
    Shows
      { w with
        queue := w.queue.setElement id e
        kernel := ⟨socket, arrivals'⟩
        user := user
        log := log
        calling := calling }
      id ⟨e, socket, delivered⟩ arrivals' where
  element := lookup_setElement _ _ _
  kernel := rfl
  received := hrec
  closes := hcl
  mapped := by
    rw [hfd]
    exact h.mapped

/-- A pass in the queue is a pass of the connection. -/
theorem Shows.processOnce {w : World Peer σ} {id : ElemId} {c : Conn} {arrivals : ℕ → Arrival}
    (h : Shows w id c arrivals) :
    ∃ w' arrivals', processOnce peerKernel (observer onClose onSocketReady onTunReady) id w =
        (.ok (c.pass (arrivals 0)).1, w') ∧ Shows w' id (c.pass (arrivals 0)).2 arrivals' ∧
      (arrivals' = arrivals ∨ arrivals' = fun i => arrivals (i + 1)) := by
  have hfd := processPass_fd c.element
  have hrec := h.received
  have hcl := h.closes
  unfold NetQueue.processOnce
  rw [Exec.bind_ok (deref_ok h.element)]
  cases hp : processPass c.element with
  | read count resume =>
    rw [hp] at hfd
    simp only [Conn.pass, hp]
    refine ⟨_, _, ?_, h.next (hfd _) _ (fun i => arrivals (i + 1)) w.user w.log
      w.calling hrec hcl,
      Or.inr rfl⟩
    have hassign := assign_ok
      (w := { w with kernel := (peerKernel.read w.kernel c.element.fd count).2 }) h.element
      (resume (peerKernel.read w.kernel c.element.fd count).1).2
    refine (Exec.bind_ok (Exec.next_apply _ _)).trans ((Exec.bind_ok hassign).trans ?_)
    rw [Exec.pure_apply, h.kernel]
    rfl
  | socketReady data resume =>
    rw [hp] at hfd
    simp only [Conn.pass, hp]
    refine ⟨_, arrivals, ?_, h.next (hfd _) c.socket arrivals (onSocketReady w.user data)
      (w.log ++ [⟨id, .onSocketReady data, w.upcoming, []⟩]) none ?_ ?_, Or.inl rfl⟩
    · refine (callback_resume peerKernel h.element (.onSocketReady data)
        (fun s => onSocketReady s data) resume).trans ?_
      rw [h.kernel]
    · simp only [World.received, List.filterMap_append] at hrec ⊢
      simp [hrec]
    · simp only [World.closes, List.filterMap_append] at hcl ⊢
      simp [hcl]
  | tunReady data resume =>
    rw [hp] at hfd
    simp only [Conn.pass, hp]
    refine ⟨_, arrivals, ?_, h.next (hfd _) c.socket arrivals (onTunReady w.user data)
      (w.log ++ [⟨id, .onTunReady data, w.upcoming, []⟩]) none ?_ ?_, Or.inl rfl⟩
    · refine (callback_resume peerKernel h.element (.onTunReady data)
        (fun s => onTunReady s data) resume).trans ?_
      rw [h.kernel]
    · simp only [World.received, List.filterMap_append] at hrec ⊢
      simp [hrec]
    · simp only [World.closes, List.filterMap_append] at hcl ⊢
      simp [hcl]
  | stop =>
    simp only [Conn.pass, hp]
    exact ⟨w, arrivals, rfl, h, Or.inl rfl⟩

theorem Arrived.next {arrivals arrivals' : ℕ → Arrival} (h : Arrived arrivals)
    (heq : arrivals' = arrivals ∨ arrivals' = fun i => arrivals (i + 1)) : Arrived arrivals' := by
  rcases heq with rfl | rfl
  · exact h
  · exact fun i => h (i + 1)

/-- Where less than a header is left over, `process` returns at the end of the
stream. The induction is on what the passes have to do. -/
theorem Shows.process_returns {s : Bytes} (hs : (framing.split s).2.length < packetHeaderSize)
    {w : World Peer σ} {id : ElemId} {c : Conn} {arrivals : ℕ → Arrival}
    (h : Shows w id c arrivals) (harr : Arrived arrivals) (hc : Received s c)
    (hclosed : c.socket.closed = true) (hst : c.Reading ∨ c.AtEnd) :
    ∃ fuel w' c' arrivals',
      process peerKernel (observer onClose onSocketReady onTunReady) id fuel w = (.ok (), w') ∧
      Shows w' id c' arrivals' ∧ Received s c' ∧ c'.AtEnd ∧
      c'.element.fd = c.element.fd := by
  induction htodo : c.todo using Nat.strong_induction_on generalizing w c arrivals with
  | _ todo ih =>
    obtain ⟨w', arrivals', hpass, hw', heq⟩ := h.processOnce onClose onSocketReady onTunReady
    obtain ⟨n, hn⟩ := harr 0
    rw [hn] at hpass hw'
    rcases hst with hst | hst
    · obtain ⟨hagain, hst', htodo'⟩ := hc.pass_advances hclosed hst n
      have hlt : (c.pass (.upTo n)).2.todo < todo := by
        -- inside a payload the code would read 0 bytes for ever; `hs` excludes it
        rcases htodo' with hlt | hstuck
        · rwa [htodo] at hlt
        · exact absurd (hc.split_stuck hstuck) (Nat.not_le.mpr hs)
      obtain ⟨fuel, w'', c', arrivals'', hrun, hw'', hc', hend, hfd⟩ := ih _ hlt hw' (harr.next heq)
        (hc.pass _) ((c.pass_closed _).trans hclosed) hst' rfl
      refine ⟨fuel + 1, w'', c', arrivals'', ?_, hw'', hc', hend, hfd.trans (c.pass_fd _)⟩
      rw [hagain] at hpass
      unfold NetQueue.process
      rw [Exec.bind_ok hpass]
      exact hrun
    · rw [Conn.pass_stopped (Or.inr hst.1)] at hpass hw'
      refine ⟨1, w', c, arrivals', ?_, hw', hc, hst, rfl⟩
      unfold NetQueue.process
      rw [Exec.bind_ok hpass]
      rfl

/-- Where the stream breaks off inside a payload, `process` does not return. -/
theorem Shows.process_pending {s : Bytes} (hs : packetHeaderSize ≤ (framing.split s).2.length)
    (fuel : ℕ) {w : World Peer σ} {id : ElemId} {c : Conn} {arrivals : ℕ → Arrival}
    (h : Shows w id c arrivals) (harr : Arrived arrivals) (hc : Received s c)
    (hclosed : c.socket.closed = true) (hst : c.Reading) :
    (process peerKernel (observer onClose onSocketReady onTunReady) id fuel w).1 =
      .error .pending := by
  induction fuel generalizing w c arrivals with
  | zero => rfl
  | succ fuel ih =>
    obtain ⟨w', arrivals', hpass, hw', heq⟩ := h.processOnce onClose onSocketReady onTunReady
    obtain ⟨n, hn⟩ := harr 0
    rw [hn] at hpass hw'
    obtain ⟨hagain, hst', -⟩ := hc.pass_advances hclosed hst n
    have hreading : (c.pass (.upTo n)).2.Reading := by
      refine hst'.resolve_right fun hend => ?_
      obtain ⟨hsplit, hlen⟩ := (hc.pass (.upTo n)).split_atEnd hend
      rw [hsplit] at hs
      exact Nat.not_le.mpr hlen hs
    rw [hagain] at hpass
    unfold NetQueue.process
    rw [Exec.bind_ok hpass]
    exact ih hw' (harr.next heq) (hc.pass _) ((c.pass_closed _).trans hclosed) hreading

/-- The element is closed for the end of its stream. -/
theorem Shows.closeFor {w : World Peer σ} {id : ElemId} {c : Conn} {arrivals : ℕ → Arrival}
    (h : Shows w id c arrivals) (reason : CloseReason) :
    ∃ w',
      closeFor peerKernel (observer onClose onSocketReady onTunReady) id reason w = (.ok (), w') ∧
      w'.received id = c.delivered ∧ w'.closes id = [reason] ∧ ¬ w'.queue.Live id ∧
      w'.queue.fdToNetworkElement.lookup c.element.fd = none := by
  have hrec := h.received
  have hcl := h.closes
  let data : CloseData := ⟨id, c.element.ptr, c.element.fd, reason⟩
  let w' : World Peer σ :=
    { w with
      user := onClose w.user data
      calling := none
      log := w.log ++ [⟨id, .onClose data, w.upcoming, []⟩] }
  have hw' : w'.queue.elements.lookup id = some c.element := h.element
  refine ⟨{ w' with queue := w'.queue.remove id c.element.fd }, ?_, ?_, ?_, ?_, ?_⟩
  · unfold NetQueue.closeFor
    rw [Exec.bind_ok (deref_ok h.element)]
    refine (Exec.bind_ok (callback_observer peerKernel id (.onClose data)
      (fun s => onClose s data) w)).trans ((Exec.bind_ok (deref_ok hw')).trans ?_)
    rw [Exec.change_apply, if_pos h.mapped]
  · simp only [World.received, w', List.filterMap_append] at hrec ⊢
    simp [hrec]
  · simp only [World.closes, w', List.filterMap_append] at hcl ⊢
    simp [hcl, data]
  · simp [Queue.Live, Queue.remove]
  · simp [Queue.remove]

def Armed (w : World Peer σ) (id : ElemId) (fd : Fd) : Prop :=
  ∃ interest, w.queue.epoll.lookup fd = some ⟨id, interest, true⟩

/-- `wait_and_process` on the one event runs `process` and then closes. -/
theorem Shows.waitAndProcess_closes {s : Bytes}
    (hs : (framing.split s).2.length < packetHeaderSize) {w : World Peer σ} {id : ElemId} {c : Conn}
    {arrivals : ℕ → Arrival} (h : Shows w id c arrivals) (harr : Arrived arrivals)
    (hc : Received s c) (hclosed : c.socket.closed = true) (hst : c.Reading ∨ c.AtEnd)
    (harmed : Armed w id c.element.fd) (hup : Bool) :
    ∃ fuel w', waitAndProcess peerKernel (observer onClose onSocketReady onTunReady) fuel
        [(c.element.fd, readable hup)] w = (.ok (), w') ∧
      (w'.received id).map (·.fullBuffer) = (framing.split s).1 ∧ w'.closes id = [.closeHangup] ∧
      ¬ w'.queue.Live id ∧ w'.queue.fdToNetworkElement.lookup c.element.fd = none := by
  obtain ⟨interest, hreg⟩ := harmed
  let q : Queue := { w.queue with epoll := w.queue.epoll.insert c.element.fd ⟨id, interest, false⟩ }
  have hbatch : w.queue.epollWait ([(c.element.fd, readable hup)].take epollMaxEvents) =
      ([(id, readable hup)], q) := by
    simp [epollMaxEvents, Queue.epollWait, hreg, q]
  let w₁ : World Peer σ := { w with queue := q, upcoming := [] }
  have hw₁ : Shows w₁ id c arrivals := ⟨h.element, h.kernel, h.received, h.closes, h.mapped⟩
  obtain ⟨fuel, w₂, c', arrivals', hrun, hw₂, hc', hend, hfd⟩ :=
    hw₁.process_returns onClose onSocketReady onTunReady hs harr hc hclosed hst
  obtain ⟨w', hclose, hrec, hcl, hlive, hmap⟩ :=
    hw₂.closeFor onClose onSocketReady onTunReady .closeHangup
  have hinput : onInput peerKernel (observer onClose onSocketReady onTunReady) fuel id
      (readable hup) w₁ = (.ok (some .closeHangup), w₂) := by
    refine (Exec.bind_ok hrun).trans ((Exec.bind_ok (deref_ok hw₂.element)).trans ?_)
    rw [Exec.pure_apply, hend.1]
    rfl
  -- `EPOLLHUP` does not change the reason that is already there
  have herrors : onErrors (readable hup) (some .closeHangup) = some .closeHangup := by
    cases hup <;> rfl
  have hevent : handleEvent peerKernel (observer onClose onSocketReady onTunReady) fuel id
      (readable hup) [] w₁ = (.ok [id], w') := by
    unfold handleEvent
    rw [if_neg (by simp), Exec.bind_ok hinput]
    have houtput : onOutput peerKernel id (readable hup) (some .closeHangup) w₂ =
        (.ok (some .closeHangup), w₂) := rfl
    have hrearm : rearmUnless peerKernel id (some .closeHangup) w₂ =
        (.ok (some .closeHangup), w₂) := rfl
    rw [Exec.bind_ok houtput, herrors, Exec.bind_ok hrearm]
    exact Exec.bind_ok hclose
  refine ⟨fuel, w', ?_, ?_, hcl, hlive, ?_⟩
  · unfold waitAndProcess
    refine (Exec.bind_ok (Exec.next_apply _ _)).trans ?_
    rw [hbatch]
    unfold handleEvents
    rw [Exec.bind_ok (Exec.change_apply _ _)]
    exact (Exec.bind_ok hevent).trans rfl
  · rw [hrec, (hc'.split_atEnd hend).1]
  · rwa [hfd] at hmap

/-- `process` returns at the end of the stream with all its whole frames handed
over, and `wait_and_process` then closes the connection as hung up. -/
structure EndsWell (w : World Peer σ) (id : ElemId) (fd : Fd) (hup : Bool) (fs : List Bytes) :
    Prop where
  process : ∃ fuel w' e, process peerKernel (observer onClose onSocketReady onTunReady) id fuel w =
    (.ok (), w') ∧ w'.queue.elements.lookup id = some e ∧ e.state = .sckEof ∧
    (w'.received id).map (·.fullBuffer) = fs
  waitAndProcess : ∃ fuel w',
    waitAndProcess peerKernel (observer onClose onSocketReady onTunReady) fuel
      [(fd, readable hup)] w = (.ok (), w') ∧ (w'.received id).map (·.fullBuffer) = fs ∧
    w'.closes id = [.closeHangup] ∧ ¬ w'.queue.Live id ∧
    w'.queue.fdToNetworkElement.lookup fd = none

end

theorem Conn.run_fd (c : Conn) (as : List Arrival) : (c.run as).element.fd = c.element.fd :=
  Runs.invariant_always (I := fun d : Conn => d.element.fd = c.element.fd)
    (fun d a hd => (d.pass_fd a).trans hd) rfl as

/-- The states a connection can be in on a stream that the peer has closed. -/
theorem start_run_reading (fd : Fd) (ptr : ℕ) (s : Bytes) {earlier : List Arrival}
    (hearlier : ∀ a ∈ earlier, a ≠ .broken) :
    Received s ((Conn.start fd ptr s true).run earlier) ∧
      (((Conn.start fd ptr s true).run earlier).Reading ∨
        ((Conn.start fd ptr s true).run earlier).AtEnd) ∧
      ((Conn.start fd ptr s true).run earlier).socket.closed = true := by
  have hsteps : Runs.Steps (fun c a => (Conn.pass c a).2) (fun _ a => a ≠ .broken)
      (Conn.start fd ptr s true) earlier := by
    rw [Runs.steps_iff_forall]
    rintro as a bs rfl
    exact hearlier a (by simp)
  refine Runs.invariant
    (I := fun c => Received s c ∧ (c.Reading ∨ c.AtEnd) ∧ c.socket.closed = true)
    ?_ ⟨Received.start fd ptr s true, Or.inl (Or.inl rfl), rfl⟩ hsteps
  rintro c a ⟨hc, hst, hclosed⟩ ha
  refine ⟨hc.pass a, ?_, (c.pass_closed a).trans hclosed⟩
  rcases hst with hst | hend
  · rcases hc.pass_cases hst ha with ⟨-, hnext, -⟩ | ⟨heq, -⟩
    · exact hnext.imp_right And.right
    · rw [heq]
      exact Or.inl hst
  · rw [Conn.pass_stopped (Or.inr hend.1)]
    exact Or.inr hend

def freshWorld (fd : Fd) (ptr : ℕ) (s : Bytes) (user : σ) : World Peer σ where
  queue := (Queue.empty.put fd ptr .sckHeader true true).2
  kernel := ⟨⟨s, true⟩, fun _ => .upTo 0⟩
  user := user
  upcoming := []
  log := []
  calling := none
  overflows := []

theorem freshWorld_queue (fd : Fd) (ptr : ℕ) (s : Bytes) (user : σ) :
    (freshWorld fd ptr s user).queue =
      ⟨AList.insert 0 (.new fd ptr .sckHeader) ∅, AList.insert fd 0 ∅,
        AList.insert fd ⟨0, .epollin, true⟩ ∅, 1⟩ :=
  congrArg Prod.snd (if_pos ⟨rfl, rfl, rfl⟩)

theorem Shows.fresh (fd : Fd) (ptr : ℕ) (s : Bytes) (user : σ) :
    Shows (freshWorld fd ptr s user) 0 ((Conn.start fd ptr s true).run []) (fun _ => .upTo 0) where
  element := by
    rw [freshWorld_queue]
    exact AList.lookup_insert _
  kernel := rfl
  received := rfl
  closes := rfl
  mapped := by
    rw [freshWorld_queue]
    exact AList.lookup_insert _

theorem Armed.fresh (fd : Fd) (ptr : ℕ) (s : Bytes) (user : σ) :
    Armed (freshWorld fd ptr s user) 0 fd := by
  refine ⟨.epollin, ?_⟩
  rw [freshWorld_queue]
  exact AList.lookup_insert _

/-- Inside a payload the end of the stream is not seen: `process` goes on forever. -/
theorem not_endsWell_fresh (onClose : σ → CloseData → σ) (onSocketReady : σ → SocketData → σ)
    (onTunReady : σ → TunData → σ) (fd : Fd) (ptr : ℕ) (s : Bytes) (user : σ)
    (hs : packetHeaderSize ≤ (framing.split s).2.length) (hup : Bool) (fs : List Bytes) :
    ¬ EndsWell onClose onSocketReady onTunReady (freshWorld fd ptr s user) 0 fd hup fs := by
  intro h
  obtain ⟨fuel, w', e, hrun, -⟩ := h.process
  have hpend := (Shows.fresh fd ptr s user).process_pending onClose onSocketReady onTunReady hs fuel
    (fun _ => ⟨0, rfl⟩) (Received.start fd ptr s true) rfl (Or.inl rfl)
  rw [hrun] at hpend
  simp at hpend

/-- On a stream whose payloads fit the buffer and that the peer has closed, the
end is seen and reported, from every state reached by earlier reads and for
every way the rest is read, exactly when the stream does not end inside a
payload. -/
theorem end_of_stream_iff [Inhabited σ] (onClose : σ → CloseData → σ)
    (onSocketReady : σ → SocketData → σ) (onTunReady : σ → TunData → σ) (fd : Fd) (ptr : ℕ)
    (s : Bytes) (_hfit : framing.Fits payloadMax s) :
    (∀ (earlier : List Arrival) (w : World Peer σ) (id : ElemId) (arrivals : ℕ → Arrival)
      (hup : Bool), (∀ a ∈ earlier, a ≠ .broken) → Arrived arrivals →
      Shows w id ((Conn.start fd ptr s true).run earlier) arrivals → Armed w id fd →
      EndsWell onClose onSocketReady onTunReady w id fd hup (framing.split s).1) ↔
    (framing.split s).2.length < packetHeaderSize := by
  constructor
  · intro h
    -- a fresh connection already shows it: `process` never returns
    by_contra hs
    exact not_endsWell_fresh onClose onSocketReady onTunReady fd ptr s default (Nat.not_lt.mp hs)
      false _ (h [] _ 0 _ false (by simp) (fun _ => ⟨0, rfl⟩) (Shows.fresh fd ptr s default)
        (Armed.fresh fd ptr s default))
  · intro hs earlier w id arrivals hup hearlier harr hw harmed
    obtain ⟨hc, hst, hclosed⟩ := start_run_reading fd ptr s hearlier
    have hfd : ((Conn.start fd ptr s true).run earlier).element.fd = fd := Conn.run_fd _ _
    constructor
    · obtain ⟨fuel, w', c', arrivals', hrun, hw', hc', hend, -⟩ :=
        hw.process_returns onClose onSocketReady onTunReady hs harr hc hclosed hst
      refine ⟨fuel, w', c'.element, hrun, hw'.element, hend.1, ?_⟩
      rw [hw'.received, (hc'.split_atEnd hend).1]
    · have h := hw.waitAndProcess_closes onClose onSocketReady onTunReady hs harr hc hclosed hst
        (by rwa [hfd]) hup
      rwa [hfd] at h

theorem end_of_stream_iff_in_header :
    framing.Fits payloadMax [0, 0, 0, 1, 0, 2, 7, 0, 0] ∧
      EndsWell (fun _ _ => ()) (fun _ _ => ()) (fun _ _ => ())
        (freshWorld 5 0 [0, 0, 0, 1, 0, 2, 7, 0, 0] ()) 0 5 false [[0, 0, 0, 1, 0, 2, 7]] := by
  have hfit : framing.Fits payloadMax [0, 0, 0, 1, 0, 2, 7, 0, 0] := ⟨by decide, by decide⟩
  exact ⟨hfit, (end_of_stream_iff (fun _ _ => ()) (fun _ _ => ()) (fun _ _ => ()) 5 0 _ hfit).mpr
    (by decide) [] _ 0 _ false (by simp) (fun _ => ⟨0, rfl⟩) (Shows.fresh 5 0 _ ())
    (Armed.fresh 5 0 _ ())⟩

/-- A header that announces one byte, and then the end. -/
theorem end_inside_payload :
    ¬ ∀ s : Bytes, framing.Fits payloadMax s →
      EndsWell (fun _ _ => ()) (fun _ _ => ()) (fun _ _ => ()) (freshWorld 5 0 s ()) 0 5 false
        (framing.split s).1 := by
  intro h
  exact not_endsWell_fresh (fun _ _ => ()) (fun _ _ => ()) (fun _ _ => ()) 5 0 [0, 0, 0, 1, 0, 2] ()
    (by decide) false _ (h [0, 0, 0, 1, 0, 2] ⟨by decide, by decide⟩)

end VNet.NetQueue
