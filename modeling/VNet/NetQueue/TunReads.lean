import VNet.NetQueue.Origins
import VNet.NetQueue.TunWrites

namespace VNet.NetQueue
open Protocol

/-- The packets that wait in the device, and whether it ends behind them. -/
structure TunDevice where
  packets : List Bytes
  closed : Bool
  deriving DecidableEq, Repr

/-- What a `read()` finds: the next packet if one waits, none yet, or an error. -/
inductive TunAnswer
  | ready
  | notYet
  | broken
  deriving DecidableEq, Repr

def TunDevice.read (d : TunDevice) (count : ℕ) : TunAnswer → ReadResult × TunDevice
  | .broken => (.failed, d)
  | .notYet => (.eagain, d)
  | .ready =>
    match d.packets with
    | [] => (if d.closed then .bytes [] else .eagain, d)
    | p :: ps => (.bytes (p.take count), { d with packets := ps })

def BufferOp.after (ops : List BufferOp) (e : NetworkElement) : NetworkElement :=
  ops.foldl (fun e op => (op.outcome e).element) e

structure TunReader where
  element : NetworkElement
  device : TunDevice
  delivered : List TunData
  deriving DecidableEq, Repr

namespace TunReader

def pass (r : TunReader) (a : TunAnswer) (calls : List BufferOp) : Flow × TunReader :=
  match processPass r.element with
  | .read count resume =>
    let x := r.device.read count a
    ((resume x.1).1, { r with element := (resume x.1).2, device := x.2 })
  | .tunReady data resume =>
    (.again, { r with
      element := resume (BufferOp.after calls r.element)
      delivered := r.delivered ++ [data] })
  | .socketReady _ resume => (.again, { r with element := resume (BufferOp.after calls r.element) })
  | .stop => (.stop, r)

def process (r : TunReader) (xs : List (TunAnswer × List BufferOp)) : Option TunReader :=
  passes (fun r x => r.pass x.1 x.2) r xs

inductive Call
  | process (answers : List (TunAnswer × List BufferOp))
  | write (op : BufferOp)
  deriving DecidableEq, Repr

def call (r : TunReader) : Call → Option TunReader
  | .process answers => r.process answers
  | .write op => some { r with element := (op.outcome r.element).element }

def callAll (r : TunReader) (cs : List Call) : Option TunReader := cs.foldlM call r

def start (tunFd : Fd) (data : ℕ) (packets : List Bytes) (closed : Bool) : TunReader :=
  ⟨putTun tunFd data, ⟨packets, closed⟩, []⟩

def held (r : TunReader) : List Bytes :=
  if r.element.state = .tunReady then [r.element.buffered] else []

end TunReader

def report (fd : Fd) (ptr : ℕ) (p : Bytes) : TunData := ⟨fd, ptr, p, p.length⟩

theorem BufferOp.outcome_keeps {α : Type} {f : NetworkElement → α} (hf : IgnoresWrites f)
    (op : BufferOp) (e : NetworkElement) : f (op.outcome e).element = f e := by
  cases op with
  | flush rs => exact flushWriteBuffer_keeps hf rs e
  | send data rs => exact send_keeps hf rs e data

theorem BufferOp.after_keeps {α : Type} {f : NetworkElement → α} (hf : IgnoresWrites f)
    (ops : List BufferOp) (e : NetworkElement) : f (BufferOp.after ops e) = f e := by
  induction ops generalizing e with
  | nil => rfl
  | cons op ops ih => exact (ih _).trans (op.outcome_keeps hf e)

/-- A call on the write side puts the element into `SCK_ERROR` or leaves its state. -/
theorem BufferOp.outcome_state (op : BufferOp) (e : NetworkElement) :
    (op.outcome e).element.state = e.state ∨ (op.outcome e).element.state = .sckError := by
  cases op with
  | flush rs => exact .inl (flushWriteBuffer_state rs e)
  | send data rs => exact (send_state rs e data).imp_left And.left

theorem readSide_ignoresWrites : IgnoresWrites fun e : NetworkElement =>
    (e.fd, e.ptr, e.netBufferUsed, e.netBuffer) :=
  fun _ _ _ _ => rfl

/-- The element is read as before. -/
theorem readSide_congr {e e' : NetworkElement}
    (h : (e'.fd, e'.ptr, e'.netBufferUsed, e'.netBuffer) =
      (e.fd, e.ptr, e.netBufferUsed, e.netBuffer)) :
    e'.fd = e.fd ∧ e'.ptr = e.ptr ∧ e'.netBufferUsed = e.netBufferUsed ∧
      e'.netBuffer = e.netBuffer := by
  simpa [Prod.mk.injEq] using h

namespace TunReader

/-- Where every packet is: handed over, in the buffer, or in the device. -/
structure Account (fd : Fd) (ptr : ℕ) (packets : List Bytes) (r : TunReader) : Prop where
  fd_eq : r.element.fd = fd
  ptr_eq : r.element.ptr = ptr
  state : r.element.state.isTun = true ∨ r.element.state = .sckError
  used_le : r.element.netBufferUsed ≤ r.element.netBuffer.length
  buffer_le : r.element.netBuffer.length ≤ netBufferSize
  packets_eq : r.delivered ++ (r.held ++ r.device.packets).map (report fd ptr) =
    packets.map (report fd ptr)
  waiting : ∀ p ∈ r.device.packets, IpPacket p

variable {fd : Fd} {ptr : ℕ} {packets : List Bytes} {r r' : TunReader} {a : TunAnswer}
  {calls : List BufferOp}

theorem Account.start (fd : Fd) (ptr : ℕ) (hps : ∀ p ∈ packets, IpPacket p) (closed : Bool) :
    Account fd ptr packets (start fd ptr packets closed) where
  fd_eq := rfl
  ptr_eq := rfl
  state := .inl rfl
  used_le := le_rfl
  buffer_le := Nat.zero_le _
  packets_eq := rfl
  waiting := hps

theorem held_eq_nil (h : r.element.state ≠ .tunReady) : r.held = [] := if_neg h

/-- Only the state changes, and to one that holds no packet. -/
theorem Account.enter (h : Account fd ptr packets r) (hheld : r.held = []) {e : NetworkElement}
    (he : (e.fd, e.ptr, e.netBufferUsed, e.netBuffer) =
      (r.element.fd, r.element.ptr, r.element.netBufferUsed, r.element.netBuffer))
    (hstate : e.state.isTun = true ∨ e.state = .sckError) (hne : e.state ≠ .tunReady) :
    Account fd ptr packets { r with element := e } := by
  obtain ⟨hfd, hptr, hused, hbuffer⟩ := readSide_congr he
  have hpackets := h.packets_eq
  rw [hheld] at hpackets
  refine ⟨hfd.trans h.fd_eq, hptr.trans h.ptr_eq, hstate, ?_, ?_, ?_, h.waiting⟩
  · rw [hused, hbuffer]
    exact h.used_le
  · rw [hbuffer]
    exact h.buffer_le
  · rw [held_eq_nil hne]
    exact hpackets

theorem Account.write (h : Account fd ptr packets r) (hheld : r.held = []) (op : BufferOp) :
    Account fd ptr packets { r with element := (op.outcome r.element).element } ∧
      ({ r with element := (op.outcome r.element).element } : TunReader).held = [] := by
  have hready : r.element.state ≠ .tunReady := fun heq => by simp [held, heq] at hheld
  have hne : (op.outcome r.element).element.state ≠ .tunReady := by
    rcases op.outcome_state r.element with heq | heq
    · rwa [heq]
    · simp [heq]
  refine ⟨h.enter hheld (op.outcome_keeps readSide_ignoresWrites _) ?_ hne, held_eq_nil hne⟩
  rcases op.outcome_state r.element with heq | heq
  · rw [heq]
    exact h.state
  · exact .inr heq

/-- A packet is read into the buffer; what an earlier one left there stays behind
it. -/
theorem Account.fill (h : Account fd ptr packets r) (hst : r.element.state = .tunReceive)
    {p : Bytes} {ps : List Bytes} (hp : r.device.packets = p :: ps) :
    Account fd ptr packets { r with
      element := { r.element.storeWhole p with state := .tunReady }
      device := { r.device with packets := ps } } := by
  have hip := h.waiting p (by simp [hp])
  have hlen : p.length ≤ netBufferSize := hip.2.le.trans (by decide)
  have hheld : r.held = [] := held_eq_nil (by simp [hst])
  have hbuffered : ({ r.element.storeWhole p with state := .tunReady } : NetworkElement).buffered =
      p := by
    simp [NetworkElement.buffered, NetworkElement.storeWhole]
  refine ⟨h.fd_eq, h.ptr_eq, .inl rfl, ?_, ?_, ?_, fun q hq => h.waiting q ?_⟩
  · simp [NetworkElement.storeWhole]
  · have hle := h.buffer_le
    simp only [NetworkElement.storeWhole, List.length_append, List.length_drop]
    omega
  · have hpackets := h.packets_eq
    rw [hheld, hp] at hpackets
    simpa [held, hbuffered] using hpackets
  · rw [hp]
    exact List.mem_cons_of_mem _ hq

/-- The packet in the buffer is handed over. -/
theorem Account.hand (h : Account fd ptr packets r) (hst : r.element.state = .tunReady)
    (calls : List BufferOp) : Account fd ptr packets { r with
      element := { BufferOp.after calls r.element with state := .tunReceive }
      delivered := r.delivered ++ [tunData r.element] } := by
  obtain ⟨hfd, hptr, hused, hbuffer⟩ := readSide_congr
    (BufferOp.after_keeps readSide_ignoresWrites calls r.element)
  have hdata : tunData r.element = report fd ptr r.element.buffered := by
    simp only [tunData, report, h.fd_eq, h.ptr_eq, NetworkElement.buffered_length h.used_le]
    rfl
  have hpackets := h.packets_eq
  rw [held, if_pos hst, List.singleton_append, List.map_cons] at hpackets
  refine ⟨hfd.trans h.fd_eq, hptr.trans h.ptr_eq, .inl rfl, ?_, ?_, ?_, h.waiting⟩
  · simp only [hused, hbuffer]
    exact h.used_le
  · simp only [hbuffer]
    exact h.buffer_le
  · rw [held_eq_nil (by simp), hdata, List.append_assoc]
    exact hpackets

theorem pass_receive (hst : r.element.state = .tunReceive) (a : TunAnswer) (calls : List BufferOp) :
    r.pass a calls = ((tunRead r.element (r.device.read netBufferSize a).1).1,
      { r with
        element := (tunRead r.element (r.device.read netBufferSize a).1).2
        device := (r.device.read netBufferSize a).2 }) := by
  simp only [pass, processPass, hst]

theorem pass_ready (hst : r.element.state = .tunReady) (a : TunAnswer) (calls : List BufferOp) :
    r.pass a calls = (.again, { r with
      element := { BufferOp.after calls r.element with state := .tunReceive }
      delivered := r.delivered ++ [tunData r.element] }) := by
  simp only [pass, processPass, hst]

theorem pass_final (h : r.element.state = .tunError ∨ r.element.state = .tunEof ∨
    r.element.state = .sckError) (a : TunAnswer) (calls : List BufferOp) :
    r.pass a calls = (.stop, r) := by
  rcases h with hst | hst | hst <;> simp only [pass, processPass, hst]

/-- The states of an element that `put_tun` put. -/
theorem Account.state_cases (h : Account fd ptr packets r) :
    r.element.state = .tunReceive ∨ r.element.state = .tunReady ∨
      r.element.state = .tunError ∨ r.element.state = .tunEof ∨ r.element.state = .sckError := by
  rcases h.state with htun | herr
  · cases hst : r.element.state <;> simp [hst, FiniteStateMachine.isTun] at htun ⊢
  · exact .inr (.inr (.inr (.inr herr)))

/-- What one pass does. When it returns no packet is left in the buffer, and with
a device that answered and is not at its end, none in the device. -/
theorem Account.pass (h : Account fd ptr packets r) (a : TunAnswer) (calls : List BufferOp) :
    Account fd ptr packets (r.pass a calls).2 ∧ ((r.pass a calls).1 = .stop →
      (r.pass a calls).2.held = [] ∧ (a = .ready → (r.pass a calls).2.element.state = .tunReceive →
        (r.pass a calls).2.device.packets = [])) := by
  rcases h.state_cases with hst | hst | hfinal
  · have hheld : r.held = [] := held_eq_nil (by simp [hst])
    rw [pass_receive hst]
    cases a with
    | notYet => exact ⟨h, fun _ => ⟨hheld, by simp⟩⟩
    | broken =>
      simp only [TunDevice.read, tunRead]
      exact ⟨h.enter hheld rfl (.inl rfl) (by simp), fun hstop => by simp at hstop⟩
    | ready =>
      cases hp : r.device.packets with
      | nil =>
        cases hc : r.device.closed with
        | true =>
          simp only [TunDevice.read, hp, hc, if_true, tunRead]
          exact ⟨h.enter hheld rfl (.inl rfl) (by simp), fun hstop => by simp at hstop⟩
        | false =>
          simp only [TunDevice.read, hp, hc, Bool.false_eq_true, if_false, tunRead]
          exact ⟨h, fun _ => ⟨hheld, fun _ _ => trivial⟩⟩
      | cons p ps =>
        have hip := h.waiting p (by simp [hp])
        have htake : p.take netBufferSize = p :=
          List.take_of_length_le (hip.2.le.trans (by decide))
        obtain ⟨b, bs, rfl⟩ := List.exists_cons_of_length_pos hip.1
        simp only [TunDevice.read, hp, htake, tunRead]
        exact ⟨h.fill hst hp, fun hstop => by simp at hstop⟩
  · rw [pass_ready hst]
    exact ⟨h.hand hst calls, fun hstop => by simp at hstop⟩
  · rw [pass_final hfinal]
    have hne : r.element.state ≠ .tunReady ∧ r.element.state ≠ .tunReceive := by
      rcases hfinal with hst | hst | hst <;> simp [hst]
    exact ⟨h, fun _ => ⟨held_eq_nil hne.1, fun _ hst => absurd hst hne.2⟩⟩

theorem Account.process (h : Account fd ptr packets r) {answers : List (TunAnswer × List BufferOp)}
    (hret : r.process answers = some r') : Account fd ptr packets r' ∧ r'.held = [] ∧
      ((∀ x ∈ answers, x.1 = .ready) → r'.element.state = .tunReceive →
        r'.device.packets = []) := by
  refine passes_ends (I := Account fd ptr packets)
    (Q := fun r => Account fd ptr packets r ∧ r.held = [] ∧ ((∀ x ∈ answers, x.1 = .ready) →
      r.element.state = .tunReceive → r.device.packets = [])) ?_ ?_ h hret
  · exact fun r x _ hr _ => (hr.pass x.1 x.2).1
  · intro r x hx hr hstop
    obtain ⟨hpass, hend⟩ := hr.pass x.1 x.2
    obtain ⟨hheld, hdrained⟩ := hend hstop
    exact ⟨hpass, hheld, fun hall => hdrained (hall x hx)⟩

theorem Account.callAll (h : Account fd ptr packets r) (hheld : r.held = []) {cs : List Call}
    (hret : r.callAll cs = some r') : Account fd ptr packets r' ∧ r'.held = [] := by
  refine calls_invariant (I := fun r => Account fd ptr packets r ∧ r.held = []) ?_ ⟨h, hheld⟩ hret
  rintro r c - r' ⟨hr, hheld⟩ hc
  cases c with
  | process answers =>
    obtain ⟨haccount, hheld', -⟩ := hr.process hc
    exact ⟨haccount, hheld'⟩
  | write op =>
    rw [← Option.some.inj hc]
    exact hr.write hheld op

/-- TUN packets are handed over as they are. After every run of calls that
return, whatever is sent on the element in between and by the handler, the
callbacks are those for the packets that left the device: each of them once, in
order, whole, with nothing of an earlier packet; and the read stayed within
`net_buffer`. A call that had an answer to each read and ended for want of a packet
has emptied the device. -/
theorem tun_packets_handed_over (tunFd : Fd) (data : ℕ) {packets : List Bytes}
    (hps : ∀ p ∈ packets, IpPacket p) (closed : Bool) (cs : List Call) {r : TunReader}
    (h : (start tunFd data packets closed).callAll cs = some r) :
    r.delivered ++ r.device.packets.map (report tunFd data) = packets.map (report tunFd data) ∧
      r.element.netBuffer.length ≤ netBufferSize ∧
      ∀ answers r', (∀ x ∈ answers, x.1 = .ready) → r.process answers = some r' →
        r'.element.state = .tunReceive → r'.delivered = packets.map (report tunFd data) := by
  have hstart := Account.start tunFd data hps closed
  obtain ⟨haccount, hheld⟩ := hstart.callAll rfl h
  have hpackets := haccount.packets_eq
  rw [hheld, List.nil_append] at hpackets
  refine ⟨hpackets, haccount.buffer_le, fun answers r' hall hret hst => ?_⟩
  obtain ⟨haccount', hheld', hdrained⟩ := haccount.process hret
  have hpackets' := haccount'.packets_eq
  rwa [hheld', hdrained hall hst, List.nil_append, List.map_nil, List.append_nil] at hpackets'

/-- A long packet and a short one behind it; the handler sends on the device. -/
theorem tun_packets_handed_over_two :
    let r := start 7 40 [[1, 2, 3], [4]] false
    ((r.process [(.ready, []), (.ready, [.send [9] [.accepted 1]]), (.ready, []), (.ready, []),
        (.ready, [])]).map TunReader.delivered =
      some [⟨7, 40, [1, 2, 3], 3⟩, ⟨7, 40, [4], 1⟩]) ∧
    r.delivered ++ r.device.packets.map (report 7 40) =
      [⟨7, 40, [1, 2, 3], 3⟩, ⟨7, 40, [4], 1⟩] := by
  intro r
  have h := @tun_packets_handed_over 7 40 [[1, 2, 3], [4]] (by decide) false [] r rfl
  exact ⟨by decide, h.1⟩

end TunReader

end VNet.NetQueue
