import VNet.NetQueue.ReceiveBuffer
import VNet.NetQueue.SendRuns

namespace VNet.NetQueue
open Protocol

/-- Both ends of a connection, and how the last pass at the receiving end
ended: after `stop` no call of `process` is under way. -/
structure Link where
  sender : Sender
  receiver : Conn
  flow : Flow
  deriving DecidableEq, Repr

inductive LinkEvent
  | call (op : SendOp)
  | pass (a : Arrival)
  deriving DecidableEq, Repr

def LinkEvent.given : LinkEvent → Option (PacketType × Bytes)
  | call op => op.given
  | pass _ => none

def Conn.packets (c : Conn) : List (PacketType × Bytes) :=
  c.delivered.map fun d => (d.packetType, d.packetBuffer)

namespace Link

def start (fd : Fd) (ptr : ℕ) (fd' : Fd) (ptr' : ℕ) : Link :=
  ⟨.start (.new fd ptr .sckHeader), .start fd' ptr' [] false, .stop⟩

def step (l : Link) : LinkEvent → Link
  | .call op =>
    { l with
      sender := l.sender.step op
      receiver := l.receiver.extend (op.outcome l.sender.element).accepted }
  | .pass a => { l with receiver := (l.receiver.pass a).2, flow := (l.receiver.pass a).1 }

def run (l : Link) (es : List LinkEvent) : Link := Runs.run step l es

/-- Calls return true and send what a receiver can hold; reads meet the stream
or `EAGAIN`. -/
def Ok (l : Link) : LinkEvent → Prop
  | .call op => (op.outcome l.sender.element).returned = some true ∧
      ∀ m ∈ op.given, m.2.length ≤ payloadMax
  | .pass a => a ≠ .broken

instance (l : Link) : ∀ e, Decidable (Ok l e)
  | .call _ => inferInstanceAs (Decidable (_ ∧ _))
  | .pass _ => inferInstanceAs (Decidable (_ ≠ _))

/-- Nothing is under way any more: no byte waits in the write buffer, every byte
accepted has been read, and `process` has returned. -/
def Settled (l : Link) : Prop :=
  l.sender.element.pending = [] ∧ l.receiver.socket.incoming = [] ∧ l.flow = .stop

end Link

theorem Received.packets_eq {s : Bytes} {c : Conn} (h : Received s c) :
    c.packets = (c.delivered.map (·.fullBuffer)).map packet := by
  rw [Conn.packets, List.map_map]
  exact List.map_congr_left fun d hd => (h.data_eq d hd).1

theorem map_frame_isFrame {ms : List (PacketType × Bytes)}
    (hfit : ∀ m ∈ ms, m.2.length ≤ payloadMax) :
    ∀ f ∈ ms.map (fun m => frame m.1 m.2), framing.IsFrame f := by
  intro f hf
  obtain ⟨m, hm, rfl⟩ := List.mem_map.mp hf
  exact frame_isFrame _ _ ((hfit m hm).trans_lt (by decide))

/-- A receiver of whole frames has handed over the first of them, and has the
others still before it. -/
theorem Received.remaining {s unread : Bytes} {c : Conn} {ms : List (PacketType × Bytes)}
    (h : Received s c) (hfit : ∀ m ∈ ms, m.2.length ≤ payloadMax) (hs : s ++ unread = frames ms) :
    ∃ rest, ms = c.packets ++ rest ∧
      c.element.buffered ++ (c.socket.incoming ++ unread) = frames rest := by
  have hdelivered : ∀ f ∈ c.delivered.map (·.fullBuffer), framing.IsFrame f := by
    simpa using h.isFrame
  have heq : (c.delivered.map (·.fullBuffer)).flatten ++ (c.element.buffered ++
      (c.socket.incoming ++ unread)) = (ms.map fun m => frame m.1 m.2).flatten ++ [] := by
    rw [← h.stream_eq, frames, List.flatMap_def] at hs
    rw [List.append_nil, ← hs]
    simp only [List.append_assoc]
  obtain ⟨hs, hgs, hrest⟩ := LengthFraming.frames_append_of_eq hdelivered (map_frame_isFrame hfit)
    LengthFraming.not_complete_nil heq
  obtain ⟨done, rest, rfl, hdone, rfl⟩ := List.map_eq_append_iff.mp hgs
  refine ⟨rest, ?_, ?_⟩
  · -- the packets of the frames sent are the messages themselves
    have hpackets : done.map (packet ∘ fun m => frame m.1 m.2) = done.map id :=
      List.map_congr_left fun m _ => packet_frame m.1 m.2
    rw [h.packets_eq, ← hdone, List.map_map, hpackets, List.map_id]
  · rw [hrest, List.append_nil, frames, List.flatMap_def]

/-- Only no frames at all leave the reader without a whole one. -/
theorem frames_eq_nil {ms : List (PacketType × Bytes)} (hfit : ∀ m ∈ ms, m.2.length ≤ payloadMax)
    (h : ¬ framing.Complete (frames ms)) : ms = [] := by
  cases ms with
  | nil => rfl
  | cons m rest =>
    have hm : m.2.length ≤ payloadMax := hfit m List.mem_cons_self
    exact absurd ((frame_isFrame m.1 m.2 (hm.trans_lt (by decide))).complete_append (frames rest)) h

namespace Link

/-- The bytes between the two ends: what the sender has written is what the
receiver has and will read, and behind it wait the rest of the frames. -/
structure Inv (l : Link) (sent : List (PacketType × Bytes)) : Prop where
  writeOk : WriteOk l.sender.element
  fits : ∀ m ∈ sent, m.2.length ≤ payloadMax
  stream_eq : l.sender.kernel ++ l.sender.element.pending = frames sent
  received : Received l.sender.kernel l.receiver
  not_error : l.receiver.element.state ≠ .sckError
  stopped : l.flow = .stop → ¬ framing.Complete l.receiver.element.buffered

theorem Inv.start (fd : Fd) (ptr : ℕ) (fd' : Fd) (ptr' : ℕ) : Inv (start fd ptr fd' ptr') [] where
  writeOk := .new _ _ _
  fits := by simp
  stream_eq := rfl
  received := .start _ _ _ _
  not_error := by simp [Link.start, Conn.start, NetworkElement.new]
  stopped _ := LengthFraming.not_complete_nil

theorem Inv.call {l : Link} {sent : List (PacketType × Bytes)} {op : SendOp} (h : Inv l sent)
    (hok : Ok l (.call op)) : Inv (l.step (.call op)) (sent ++ op.given.toList) := by
  have hstream : (l.sender.kernel ++ (op.outcome l.sender.element).accepted) ++
      (op.outcome l.sender.element).element.pending = frames (sent ++ op.given.toList) ∧
      WriteOk (op.outcome l.sender.element).element := by
    cases hop : op.given with
    | none =>
      obtain ⟨hc, -⟩ := SendOp.outcome_not_given hop h.writeOk
      have heq := hc.stream_eq
      rw [List.append_nil] at heq
      refine ⟨?_, hc.writeOk⟩
      rw [List.append_assoc, ← heq, h.stream_eq, Option.toList_none, List.append_nil]
    | some m =>
      obtain ⟨x, hx⟩ := SendOp.outcome_given hop h.writeOk
      obtain ⟨rfl, -⟩ := hx.sent hok.1
      refine ⟨?_, hx.commits.writeOk⟩
      rw [List.append_assoc, ← hx.commits.stream_eq, ← List.append_assoc, h.stream_eq,
        Option.toList_some, frames_append, frames_singleton]
  refine ⟨hstream.2, ?_, hstream.1, h.received.extend _, h.not_error, h.stopped⟩
  intro m hm
  rcases List.mem_append.mp hm with hm | hm
  · exact h.fits m hm
  · exact hok.2 m (Option.mem_toList.mp hm)

theorem Inv.pass {l : Link} {sent : List (PacketType × Bytes)} {a : Arrival} (h : Inv l sent)
    (ha : a ≠ .broken) : Inv (l.step (.pass a)) sent where
  writeOk := h.writeOk
  fits := h.fits
  stream_eq := h.stream_eq
  received := h.received.pass a
  not_error := h.received.pass_not_error ha h.not_error
  stopped hstop := by
    obtain ⟨heq, hc⟩ := h.received.pass_stop hstop h.not_error
    change ¬ framing.Complete (l.receiver.pass a).2.element.buffered
    rwa [heq]

theorem Inv.run {l : Link} {sent : List (PacketType × Bytes)} (h : Inv l sent)
    {es : List LinkEvent} (hes : Runs.Steps step Ok l es) :
    Inv (l.run es) (sent ++ es.filterMap LinkEvent.given) := by
  induction es generalizing l sent with
  | nil =>
    rw [List.filterMap_nil, List.append_nil]
    exact h
  | cons e es ih =>
    obtain ⟨hok, hes⟩ := hes
    cases e with
    | call op =>
      have hrun := ih (h.call hok) hes
      have hsent : sent ++ (LinkEvent.call op :: es).filterMap LinkEvent.given =
          sent ++ op.given.toList ++ es.filterMap LinkEvent.given := by
        cases hop : op.given with
        | none => simp [LinkEvent.given, hop]
        | some m => simp [LinkEvent.given, hop]
      rw [hsent]
      exact hrun
    | pass a => exact ih (h.pass hok) hes

/-- Every frame the receiver has taken is one of the frames sent, in order;
what remains of these is in its buffer, on the wire or in the write buffer. -/
theorem Inv.remaining {l : Link} {sent : List (PacketType × Bytes)} (h : Inv l sent) :
    ∃ rest, sent = l.receiver.packets ++ rest ∧ l.receiver.element.buffered ++
      (l.receiver.socket.incoming ++ l.sender.element.pending) = frames rest :=
  h.received.remaining h.fits h.stream_eq

theorem Inv.settled {l : Link} {sent : List (PacketType × Bytes)} (h : Inv l sent)
    (hset : Settled l) : l.receiver.packets = sent := by
  obtain ⟨rest, hsent, hrest⟩ := h.remaining
  obtain ⟨hpend, hin, hstop⟩ := hset
  rw [hpend, hin, List.append_nil, List.append_nil] at hrest
  have hfits : ∀ m ∈ rest, m.2.length ≤ payloadMax := by
    intro m hm
    exact h.fits m (hsent ▸ List.mem_append_right _ hm)
  have hnil := frames_eq_nil hfits (hrest ▸ h.stopped hstop)
  rw [hsent, hnil, List.append_nil]

/-- Framing from end to end: whatever the kernels' counts and the order of
sends, flushes and reads, the packets handed to the receiver are the messages
sent, up to those still under way; and all of them once nothing is. -/
theorem packets_delivered (fd : Fd) (ptr : ℕ) (fd' : Fd) (ptr' : ℕ) (es : List LinkEvent)
    (hes : Runs.Steps step Ok (start fd ptr fd' ptr') es) :
    ((start fd ptr fd' ptr').run es).receiver.packets <+: es.filterMap LinkEvent.given ∧
    (Settled ((start fd ptr fd' ptr').run es) →
      ((start fd ptr fd' ptr').run es).receiver.packets = es.filterMap LinkEvent.given) := by
  have h := (Inv.start fd ptr fd' ptr').run hes
  rw [List.nil_append] at h
  obtain ⟨rest, hsent, -⟩ := h.remaining
  exact ⟨⟨rest, hsent.symm⟩, h.settled⟩

theorem packets_delivered_partial_writes :
    let es : List LinkEvent := [
      .call (.message .agentMip (some [7, 8]) [.accepted 4, .eintr, .eagain]),
      .pass (.upTo 2), .call (.heartbeat []), .call (.flush [.accepted 3, .accepted 90]),
      .pass (.upTo 9), .pass (.upTo 9), .pass (.upTo 9), .pass .notYet, .pass (.upTo 9),
      .pass .notYet, .pass .notYet, .pass .notYet]
    Runs.Steps step Ok (start 5 0 6 1) es ∧ Settled ((start 5 0 6 1).run es) ∧
      ((start 5 0 6 1).run es).receiver.packets = [(.agentMip, [7, 8]), (.heartbeat, [])] := by
  intro es
  have hes : Runs.Steps step Ok (start 5 0 6 1) es := by decide
  have hset : Settled ((start 5 0 6 1).run es) := by
    unfold Settled
    decide
  exact ⟨hes, hset, (packets_delivered 5 0 6 1 es hes).2 hset⟩

end Link

end VNet.NetQueue
