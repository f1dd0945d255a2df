import VNet.NetQueue.Progress

namespace VNet.NetQueue
open Protocol

/-- What a callback is given of a packet: its type, `payload_size`, the payload
and `full_buffer_size`. -/
abbrev Decoded := PacketType × ℕ × Bytes × ℕ

def SocketData.decoded (d : SocketData) : Decoded :=
  (d.packetType, d.payloadSize, d.packetBuffer, d.fullBufferSize)

def decodeFrame (f : Bytes) : Decoded :=
  ((packet f).1, framing.size f, (packet f).2, framing.size f + packetHeaderSize)

def decode (s : Bytes) : List Decoded := (framing.split s).1.map decodeFrame

/-- The element as the undecoded tail determines it. -/
structure HoldsTail (tail : Bytes) (e : NetworkElement) : Prop where
  state_eq : e.state = if tail.length < packetHeaderSize then .sckHeader else .sckPayload
  used_eq : e.netBufferUsed = tail.length
  buffered_eq : e.buffered = tail

/-- A connection that reads, with less than a frame in the buffer. -/
theorem Received.holdsTail {s : Bytes} {c : Conn} (h : Received s c) (hst : c.Reading)
    (hnot : ¬ framing.Complete c.element.buffered) : HoldsTail c.element.buffered c.element := by
  have hl := NetworkElement.buffered_length h.stored
  have hok := h.stateOk
  refine ⟨?_, hl.symm, rfl⟩
  rw [hl]
  rcases hst with hst | hst | hst
  · simp only [StateOk, hst] at hok
    rw [hst, if_pos hok]
  · simp only [StateOk, hst] at hok
    rw [hst, if_neg (Nat.not_lt.mpr hok.1)]
  · -- a frame that is ready is a whole one
    simp only [StateOk, hst] at hok
    exact absurd ((socketData_ready h.stored hok).1.complete_append []) (by rwa [List.append_nil])

structure Between (s : Bytes) (c : Conn) : Prop extends Paused s c where
  opened : c.socket.closed = false

theorem Between.start (fd : Fd) (ptr : ℕ) (s : Bytes) :
    Between s (Conn.start fd ptr s false) :=
  ⟨Paused.start fd ptr s false (Or.inl rfl), rfl⟩

theorem Between.extend {s : Bytes} {c : Conn} (h : Between s c) (bs : Bytes) :
    Between (s ++ bs) (c.extend bs) := by
  have hreading : c.Reading := h.state.resolve_right (by simp [h.opened])
  exact ⟨⟨⟨h.received.extend bs, Or.inl hreading, Or.inl h.opened⟩, h.incomplete⟩, h.opened⟩

theorem Conn.process_closed {c c' : Conn} {as : List Arrival} (hret : c.process as = some c') :
    c'.socket.closed = c.socket.closed :=
  passes_ends (I := fun d => d.socket.closed = c.socket.closed)
    (Q := fun d => d.socket.closed = c.socket.closed)
    (fun d a _ hd _ => (d.pass_closed a).trans hd) (fun d a _ hd _ => (d.pass_closed a).trans hd)
    rfl hret

theorem Between.process {s : Bytes} {c c' : Conn} {as : List Arrival} (h : Between s c)
    (has : ∀ a ∈ as, a ≠ .broken) (hret : c.process as = some c') :
    Between s c' ∧ ((∀ a ∈ as, a ≠ .notYet) → c'.socket.incoming = []) := by
  obtain ⟨hpaused, hread⟩ := h.toFlowing.process has hret
  exact ⟨⟨hpaused, (Conn.process_closed hret).trans h.opened⟩, hread⟩

/-- A stream that comes in parts. Behind each of them `process` is called, and its
passes meet these arrivals until it returns. -/
def Conn.Serves (c : Conn) : List (Bytes × (ℕ → Arrival)) → Conn → Prop
  | [], c' => c' = c
  | (part, arrivals) :: parts, c' => ∃ k d,
      (c.extend part).process ((List.range k).map arrivals) = some d ∧ d.Serves parts c'

theorem Between.serves_returns {s : Bytes} {c : Conn} (h : Between s c)
    {parts : List (Bytes × (ℕ → Arrival))} (hparts : ∀ x ∈ parts, ∀ i, x.2 i ≠ .broken) :
    ∃ c', c.Serves parts c' := by
  induction parts generalizing s c with
  | nil => exact ⟨c, rfl⟩
  | cons x parts ih =>
    rw [List.forall_mem_cons] at hparts
    obtain ⟨k, d, hd⟩ := (h.extend x.1).toFlowing.process_returns hparts.1
    have hbroken : ∀ a ∈ (List.range k).map x.2, a ≠ .broken :=
      List.forall_mem_map.mpr fun i _ => hparts.1 i
    obtain ⟨c', hc'⟩ := ih ((h.extend x.1).process hbroken hd).1 hparts.2
    exact ⟨c', k, d, hd, hc'⟩

theorem Between.serves {s : Bytes} {c c' : Conn} (h : Between s c)
    {parts : List (Bytes × (ℕ → Arrival))} (hparts : ∀ x ∈ parts, ∀ i, x.2 i ≠ .broken)
    (hc' : c.Serves parts c') : Between (s ++ (parts.map Prod.fst).flatten) c' := by
  induction parts generalizing s c with
  | nil =>
    rw [hc', List.map_nil, List.flatten_nil, List.append_nil]
    exact h
  | cons x parts ih =>
    rw [List.forall_mem_cons] at hparts
    obtain ⟨k, d, hd, hrest⟩ := hc'
    have hbroken : ∀ a ∈ (List.range k).map x.2, a ≠ .broken :=
      List.forall_mem_map.mpr fun i _ => hparts.1 i
    have hserved := ih ((h.extend x.1).process hbroken hd).1 hparts.2 hrest
    rwa [List.map_cons, List.flatten_cons, ← List.append_assoc]

theorem Conn.serves_append {c c' : Conn} {xs ys : List (Bytes × (ℕ → Arrival))} :
    c.Serves (xs ++ ys) c' → ∃ d, c.Serves xs d ∧ d.Serves ys c' := by
  induction xs generalizing c with
  | nil => exact fun h => ⟨c, rfl, h⟩
  | cons x xs ih =>
    rintro ⟨k, d, hd, hrest⟩
    obtain ⟨d', hxs, hys⟩ := ih hrest
    exact ⟨d', ⟨k, d, hd, hxs⟩, hys⟩

/-- The last call reads what the calls before have left. -/
theorem Between.serves_read {s : Bytes} {c c' : Conn} (h : Between s c)
    (hstart : c.socket.incoming = []) {parts : List (Bytes × (ℕ → Arrival))}
    (hparts : ∀ x ∈ parts, ∀ i, x.2 i ≠ .broken)
    (hlast : ∀ x ∈ parts.getLast?, ∀ i, x.2 i ≠ .notYet) (hc' : c.Serves parts c') :
    c'.socket.incoming = [] := by
  induction parts using List.reverseRecOn with
  | nil =>
    rw [hc']
    exact hstart
  | append_singleton parts x =>
    rw [List.forall_mem_append, List.forall_mem_singleton] at hparts
    obtain ⟨d, hd, k, d', hcall, rfl⟩ := Conn.serves_append hc'
    refine (((h.serves hparts.1 hd).extend x.1).process ?_ hcall).2 ?_
    · exact List.forall_mem_map.mpr fun i _ => hparts.2 i
    · exact List.forall_mem_map.mpr fun i _ => hlast x (by simp) i

theorem Received.decoded_eq {s : Bytes} {c : Conn} (h : Received s c) :
    c.delivered.map SocketData.decoded = (c.delivered.map (·.fullBuffer)).map decodeFrame := by
  rw [List.map_map]
  apply List.map_congr_left
  intro d hd
  obtain ⟨hpacket, hsize, hfull⟩ := h.data_eq d hd
  have htype : d.packetType = (packet d.fullBuffer).1 := congrArg Prod.fst hpacket
  have hbody : d.packetBuffer = (packet d.fullBuffer).2 := congrArg Prod.snd hpacket
  simp only [SocketData.decoded, Function.comp, decodeFrame, htype, hbody, hfull, hsize]

theorem Between.decoded {s : Bytes} {c : Conn} (h : Between s c) :
    ∃ t, s = t ++ c.socket.incoming ∧ c.delivered.map SocketData.decoded = decode t ∧
      HoldsTail (framing.split t).2 c.element := by
  have hsplit := LengthFraming.split_eq_of_flatten (F := framing)
    (s := (c.delivered.map (·.fullBuffer)).flatten ++ c.element.buffered)
    (by simpa using h.received.isFrame) h.incomplete rfl
  refine ⟨_, h.received.stream_eq.symm, ?_, ?_⟩
  · rw [decode, hsplit, h.received.decoded_eq]
  · rw [hsplit]
    exact h.received.holdsTail (h.state.resolve_right (by simp [h.opened])) h.incomplete

/-- However a stream is cut into parts, reads and calls of `process`, every call
returns. At any time the callbacks are those of the reference decoder on what has
been read, and the element is determined by the tail it leaves; and this is the
whole stream when the last call was not told that nothing had come. -/
theorem decoding_ignores_segmentation (fd : Fd) (ptr : ℕ) (s : Bytes)
    (_hfit : framing.Fits payloadMax s) (parts : List (Bytes × (ℕ → Arrival)))
    (hs : (parts.map Prod.fst).flatten = s) (hparts : ∀ x ∈ parts, ∀ i, x.2 i ≠ .broken) :
    (∃ c, (Conn.start fd ptr [] false).Serves parts c) ∧
    ∀ c, (Conn.start fd ptr [] false).Serves parts c →
      (∃ t, s = t ++ c.socket.incoming ∧ c.delivered.map SocketData.decoded = decode t ∧
        HoldsTail (framing.split t).2 c.element) ∧
      ((∀ x ∈ parts.getLast?, ∀ i, x.2 i ≠ .notYet) → c.socket.incoming = [] ∧
        c.delivered.map SocketData.decoded = decode s ∧
          HoldsTail (framing.split s).2 c.element) := by
  have hstart := Between.start fd ptr []
  refine ⟨hstart.serves_returns hparts, fun c hc => ?_⟩
  have h := hstart.serves hparts hc
  rw [List.nil_append, hs] at h
  obtain ⟨t, ht, hdecoded, htail⟩ := h.decoded
  refine ⟨⟨t, ht, hdecoded, htail⟩, fun hlast => ?_⟩
  have hin := hstart.serves_read rfl hparts hlast hc
  rw [hin, List.append_nil] at ht
  rw [ht]
  exact ⟨hin, hdecoded, htail⟩

/-- A frame with a payload of one byte and one without, in three parts that cut
both headers; the second call is told too early that there is no more. -/
theorem decoding_ignores_segmentation_two_frames :
    let s : Bytes := [0, 0, 0, 1, 0, 2, 7, 0, 0, 0, 0, 0, 0, 9]
    let parts : List (Bytes × (ℕ → Arrival)) := [([0, 0, 0, 1], fun _ => .upTo 2),
      ([0, 2, 7, 0, 0], fun i => if i = 1 then .notYet else .upTo 0),
      ([0, 0, 0, 0, 9], fun i => .upTo i)]
    framing.Fits payloadMax s ∧ ∃ c, (Conn.start 5 0 [] false).Serves parts c ∧
      c.delivered.map SocketData.decoded = [(.agentMip, 1, [7], 7), (.heartbeat, 0, [], 6)] ∧
      HoldsTail [9] c.element := by
  intro s parts
  have hfit : framing.Fits payloadMax s := ⟨by decide, by decide⟩
  have h := decoding_ignores_segmentation 5 0 s hfit parts rfl (by
    simp only [parts, List.forall_mem_cons]
    refine ⟨by simp, fun i => ?_, by simp⟩
    split_ifs <;> simp)
  obtain ⟨⟨c, hc⟩, hall⟩ := h
  obtain ⟨-, hlast⟩ := hall c hc
  obtain ⟨-, hdecoded, htail⟩ := hlast (by simp [parts])
  have hdecode : decode s = [(.agentMip, 1, [7], 7), (.heartbeat, 0, [], 6)] := by decide
  have htail' : (framing.split s).2 = [9] := by decide
  rw [hdecode] at hdecoded
  rw [htail'] at htail
  exact ⟨hfit, c, hc, hdecoded, htail⟩

end VNet.NetQueue
