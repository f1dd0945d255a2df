import VNet.NetQueue.Receive

namespace VNet.NetQueue
open Protocol

def readCount (e : NetworkElement) : Option ℕ :=
  match processPass e with
  | .read count _ => some count
  | _ => none

/-- The receive buffer of a socket element: how many bytes are used in each
state, and that neither the bytes stored so far nor the next read go beyond
`net_buffer`. -/
structure BufferOk (e : NetworkElement) : Prop where
  header : e.state = .sckHeader → e.netBufferUsed < packetHeaderSize
  payload : e.state = .sckPayload → packetHeaderSize ≤ e.netBufferUsed ∧
    e.netBufferUsed ≤ packetHeaderSize + (getPayloadSize e.buffered).toNat
  ready : e.state = .sckReady →
    e.netBufferUsed = packetHeaderSize + (getPayloadSize e.buffered).toNat
  used_le : e.netBufferUsed ≤ netBufferSize
  stored_le : e.netBuffer.length ≤ netBufferSize
  read_le : ∀ count, readCount e = some count → count ≤ netBufferSize - e.netBufferUsed

def payloadMax : ℕ := netBufferSize - packetHeaderSize

/-- A header that has been read is one of the headers of the stream. -/
theorem Received.bufferSize_le {s : Bytes} {c : Conn} (h : Received s c)
    (hfit : framing.Fits payloadMax s) (h6 : packetHeaderSize ≤ c.element.netBufferUsed) :
    bufferSize c.element ≤ netBufferSize := by
  have hl := NetworkElement.buffered_length h.stored
  have hlen : framing.headerLen ≤ (c.element.buffered ++ c.socket.incoming).length := by
    rw [List.length_append, hl]
    exact h6.trans (Nat.le_add_right _ _)
  have hframes : ∀ f ∈ c.delivered.map (·.fullBuffer), framing.IsFrame f := by
    simpa using h.isFrame
  have hstream : s = (c.delivered.map (·.fullBuffer)).flatten ++
      (c.element.buffered ++ c.socket.incoming) := by
    rw [← h.stream_eq, List.append_assoc]
  have hsize : framing.size (c.element.buffered ++ c.socket.incoming) ≤ payloadMax :=
    hfit.size_le hframes hstream hlen
  rw [framing.size_append _ _ (by rw [hl]; exact h6)] at hsize
  rw [bufferSize_eq_size h.stored h6]
  unfold payloadMax netBufferSize packetHeaderSize at *
  omega

theorem Received.bufferOk {s : Bytes} {c : Conn} (h : Received s c)
    (hfit : framing.Fits payloadMax s) (hlen : c.element.netBuffer.length ≤ netBufferSize) :
    BufferOk c.element := by
  have hle := h.stored.trans hlen
  have hok := h.stateOk
  have h6 : packetHeaderSize ≤ netBufferSize := by decide
  refine ⟨?_, ?_, ?_, hle, hlen, ?_⟩
  · intro hst
    simpa only [StateOk, hst] using hok
  · intro hst
    simp only [StateOk, hst] at hok
    exact ⟨hok.1, (bufferSize_eq_size h.stored hok.1) ▸ hok.2⟩
  · intro hst
    simp only [StateOk, hst] at hok
    have h6' : packetHeaderSize ≤ c.element.netBufferUsed := by
      rw [hok, bufferSize]
      omega
    exact hok.trans (bufferSize_eq_size h.stored h6')
  · -- a read asks for the rest of the header or of a frame that fits
    intro count hcount
    cases hst : c.element.state with
    | sckHeader =>
      simp only [readCount, processPass, hst, Option.some.injEq] at hcount
      omega
    | sckPayload =>
      simp only [readCount, processPass, hst, Option.some.injEq] at hcount
      simp only [StateOk, hst] at hok
      have := h.bufferSize_le hfit hok.1
      omega
    | sckReady => simp [readCount, processPass, hst] at hcount
    | sckError => simp [readCount, processPass, hst] at hcount
    | sckEof => simp [readCount, processPass, hst] at hcount
    | _ => simp [StateOk, hst] at hok

theorem store_length_le {e : NetworkElement} {bs : Bytes} (hs : Stored e)
    (hlen : e.netBuffer.length ≤ netBufferSize)
    (hbs : bs.length ≤ netBufferSize - e.netBufferUsed) :
    (e.store bs).netBuffer.length ≤ netBufferSize := by
  have : e.netBufferUsed ≤ e.netBuffer.length := hs
  simp only [NetworkElement.store, List.length_append, List.length_take, List.length_drop]
  omega

theorem headerRead_length_le {e : NetworkElement} (r : ReadResult) (hs : Stored e)
    (hlen : e.netBuffer.length ≤ netBufferSize)
    (hr : r.data.length ≤ netBufferSize - e.netBufferUsed) :
    (headerRead e r).2.netBuffer.length ≤ netBufferSize := by
  match r with
  | .eagain => exact hlen
  | .failed => exact hlen
  | .bytes [] => exact hlen
  | .bytes (b :: bs) =>
    have h := store_length_le hs hlen hr
    simp only [headerRead]
    split_ifs <;> exact h

theorem payloadRead_length_le {e : NetworkElement} (n : ℕ) (r : ReadResult) (hs : Stored e)
    (hlen : e.netBuffer.length ≤ netBufferSize)
    (hr : r.data.length ≤ netBufferSize - e.netBufferUsed) :
    (payloadRead e n r).2.netBuffer.length ≤ netBufferSize := by
  match r with
  | .eagain => exact hlen
  | .failed => exact hlen
  | .bytes bs =>
    have h := store_length_le hs hlen hr
    simp only [payloadRead]
    split_ifs <;> exact h

/-- A pass that starts within the buffer stays within it. -/
theorem BufferOk.pass_length {s : Bytes} {c : Conn} (h : Received s c) (hb : BufferOk c.element)
    (a : Arrival) : (c.pass a).2.element.netBuffer.length ≤ netBufferSize := by
  have hok := h.stateOk
  have hlen := hb.stored_le
  cases hst : c.element.state with
  | sckHeader =>
    have hcount := hb.read_le (packetHeaderSize - c.element.netBufferUsed)
      (by simp only [readCount, processPass, hst])
    cases hread : c.socket.read (packetHeaderSize - c.element.netBufferUsed) a with
    | mk r socket =>
      rw [Conn.pass_read (processPass_header hst) hread]
      exact headerRead_length_le r h.stored hlen ((Socket.read_spec hread).2.1.trans hcount)
  | sckPayload =>
    have hcount := hb.read_le (bufferSize c.element - c.element.netBufferUsed)
      (by simp only [readCount, processPass, hst])
    cases hread : c.socket.read (bufferSize c.element - c.element.netBufferUsed) a with
    | mk r socket =>
      rw [Conn.pass_read (processPass_payload hst) hread]
      exact payloadRead_length_le _ r h.stored hlen ((Socket.read_spec hread).2.1.trans hcount)
  | sckReady =>
    rw [Conn.pass_ready hst]
    exact hlen
  | sckError =>
    rw [Conn.pass_stopped (Or.inl hst)]
    exact hlen
  | sckEof =>
    rw [Conn.pass_stopped (Or.inr hst)]
    exact hlen
  | _ => simp [StateOk, hst] at hok

theorem bufferOk_of_fits (fd : Fd) (ptr : ℕ) (s : Bytes) (closed : Bool)
    (hfit : framing.Fits payloadMax s) (as : List Arrival) :
    BufferOk ((Conn.start fd ptr s closed).run as).element := by
  have hinv : Received s ((Conn.start fd ptr s closed).run as) ∧
      ((Conn.start fd ptr s closed).run as).element.netBuffer.length ≤ netBufferSize := by
    apply Runs.invariant_always (I := fun c => Received s c ∧
      c.element.netBuffer.length ≤ netBufferSize)
    · rintro c a ⟨hc, hlen⟩
      exact ⟨hc.pass a, (hc.bufferOk hfit hlen).pass_length hc a⟩
    · exact ⟨Received.start fd ptr s closed, Nat.zero_le _⟩
  exact hinv.1.bufferOk hfit hinv.2

theorem Socket.read_whole (s : Socket) {count : ℕ} (hc : count ≤ s.incoming.length) :
    s.read count (.upTo s.incoming.length) =
      (.bytes (s.incoming.take count), { s with incoming := s.incoming.drop count }) := by
  by_cases h0 : count = 0
  · subst h0
    rfl
  · have hne : s.incoming ≠ [] := by
      intro h
      rw [h, List.length_nil] at hc
      omega
    rw [Socket.read_upTo hne h0, min_eq_left (hc.trans (Nat.le_succ _))]

theorem headerRead_whole {e : NetworkElement} {bs : Bytes} (hne : bs ≠ [])
    (h : e.netBufferUsed + bs.length = packetHeaderSize) :
    headerRead e (.bytes bs) = (.again, { e.store bs with state := .sckPayload }) := by
  cases bs with
  | nil => exact absurd rfl hne
  | cons b bs => exact if_pos h

theorem payloadRead_whole {e : NetworkElement} {n : ℕ} {bs : Bytes}
    (h : e.netBufferUsed + bs.length = n) :
    payloadRead e n (.bytes bs) = (.again, { e.store bs with state := .sckReady }) :=
  if_pos h

def AtBoundary (c : Conn) (rest : Bytes) : Prop :=
  c.element.state = .sckHeader ∧ c.element.netBufferUsed = 0 ∧ c.socket.incoming = rest

/-- A header that has arrived is read in one pass. -/
theorem AtBoundary.pass_header {c : Conn} {s : Bytes} (h : AtBoundary c s)
    (hs : packetHeaderSize ≤ s.length) :
    ∃ a, (c.pass a).2.element.state = .sckPayload ∧ Stored (c.pass a).2.element ∧
      (c.pass a).2.element.buffered = s.take packetHeaderSize ∧
      (c.pass a).2.socket.incoming = s.drop packetHeaderSize := by
  obtain ⟨hst, hu, rfl⟩ := h
  have hstored : Stored c.element := by simp [Stored, hu]
  have hl : (c.socket.incoming.take packetHeaderSize).length = packetHeaderSize := by
    rw [List.length_take, min_eq_left hs]
  have hne : c.socket.incoming.take packetHeaderSize ≠ [] := by
    intro h
    rw [h] at hl
    exact absurd hl (by decide)
  have hbuf : c.element.buffered = [] := by simp [NetworkElement.buffered, hu]
  have hread := Socket.read_whole c.socket hs
  rw [← Nat.sub_zero packetHeaderSize, ← hu] at hread
  refine ⟨.upTo c.socket.incoming.length, ?_⟩
  rw [Conn.pass_read (processPass_header hst) hread, hu, Nat.sub_zero,
    headerRead_whole hne (by rw [hu, hl, Nat.zero_add])]
  refine ⟨rfl, NetworkElement.store_used_le hstored _, ?_, rfl⟩
  change (c.element.store _).buffered = _
  rw [NetworkElement.buffered_store hstored, hbuf, List.nil_append]

/-- A payload that has arrived is read in one pass, behind its header. -/
theorem pass_payload_whole {c : Conn} (hst : c.element.state = .sckPayload)
    (hu : c.element.netBufferUsed ≤ bufferSize c.element)
    (hin : bufferSize c.element - c.element.netBufferUsed ≤ c.socket.incoming.length) :
    ∃ a, (c.pass a).2.element.state = .sckReady ∧ (c.pass a).2.socket.incoming =
      c.socket.incoming.drop (bufferSize c.element - c.element.netBufferUsed) := by
  have hread := Socket.read_whole c.socket hin
  refine ⟨.upTo c.socket.incoming.length, ?_⟩
  rw [Conn.pass_read (processPass_payload hst) hread, payloadRead_whole]
  · exact ⟨rfl, rfl⟩
  · rw [List.length_take, min_eq_left hin]
    omega

/-- A whole frame takes three passes: header, payload, callback. -/
theorem AtBoundary.run_frame {c : Conn} {f rest : Bytes} (h : AtBoundary c (f ++ rest))
    (hf : framing.IsFrame f) : ∃ as, AtBoundary (c.run as) rest := by
  have h6 : packetHeaderSize ≤ f.length := hf.headerLen_le
  obtain ⟨a₁, hst, hstored, hbuf, hin⟩ := h.pass_header
    (by rw [List.length_append]; exact h6.trans (Nat.le_add_right _ _))
  have hlen := NetworkElement.buffered_length hstored
  rw [List.take_append_of_le_length h6] at hbuf
  rw [List.drop_append_of_le_length h6] at hin
  have hu : (c.pass a₁).2.element.netBufferUsed = packetHeaderSize := by
    rw [← hlen, hbuf, List.length_take, min_eq_left h6]
  have hsize : bufferSize (c.pass a₁).2.element = f.length := by
    have h := framing.size_append (f.take packetHeaderSize) (f.drop packetHeaderSize)
      (by rw [List.length_take, min_eq_left h6]; exact le_rfl)
    rw [bufferSize_eq_size hstored hu.ge, hbuf, ← h, List.take_append_drop]
    exact hf.symm
  obtain ⟨a₂, hst₂, hin₂⟩ := pass_payload_whole hst (by rw [hu, hsize]; exact h6)
    (by rw [hu, hsize, hin, List.length_append, List.length_drop]; exact Nat.le_add_right _ _)
  refine ⟨[a₁, a₂, .notYet], ?_⟩
  have hrun : c.run [a₁, a₂, .notYet] = (((c.pass a₁).2.pass a₂).2.pass .notYet).2 := rfl
  rw [hrun, Conn.pass_ready hst₂]
  refine ⟨rfl, rfl, ?_⟩
  change ((c.pass a₁).2.pass a₂).2.socket.incoming = rest
  rw [hin₂, hin, hu, hsize, List.drop_append_of_le_length (by rw [List.length_drop]),
    List.drop_of_length_le (by rw [List.length_drop]), List.nil_append]

theorem AtBoundary.run_frames {c : Conn} {fs : List Bytes} {rest : Bytes}
    (h : AtBoundary c (fs.flatten ++ rest)) (hfs : ∀ f ∈ fs, framing.IsFrame f) :
    ∃ as, AtBoundary (c.run as) rest := by
  induction fs generalizing c with
  | nil => exact ⟨[], h⟩
  | cons f fs ih =>
    rw [List.flatten_cons, List.append_assoc] at h
    obtain ⟨as, has⟩ := h.run_frame (hfs f (by simp))
    obtain ⟨bs, hbs⟩ := ih has fun g hg => hfs g (by simp [hg])
    exact ⟨as ++ bs, by rwa [Conn.run, Runs.run_append]⟩

/-- Behind an oversized header the next read asks for more than `net_buffer` holds. -/
theorem AtBoundary.pass_not_bufferOk {c : Conn} {s : Bytes} (h : AtBoundary c s)
    (hs : packetHeaderSize ≤ s.length) (hsize : payloadMax < framing.size s) :
    ∃ a, ¬ BufferOk (c.pass a).2.element := by
  obtain ⟨a, hst, hstored, hbuf, -⟩ := h.pass_header hs
  refine ⟨a, ?_⟩
  generalize (c.pass a).2.element = e at hst hstored hbuf
  intro hok
  have hl : (s.take packetHeaderSize).length = packetHeaderSize := by
    rw [List.length_take, min_eq_left hs]
  have hu : e.netBufferUsed = packetHeaderSize := by
    rw [← NetworkElement.buffered_length hstored, hbuf, hl]
  have hsz := framing.size_append (s.take packetHeaderSize) (s.drop packetHeaderSize) hl.ge
  rw [List.take_append_drop] at hsz
  have hle := hok.read_le (bufferSize e - e.netBufferUsed)
    (by simp only [readCount, processPass, hst])
  rw [bufferSize_eq_size hstored hu.ge, hbuf, hu] at hle
  rw [hsz] at hsize
  unfold payloadMax packetHeaderSize netBufferSize at *
  omega

theorem exists_not_bufferOk (fd : Fd) (ptr : ℕ) (s : Bytes) (closed : Bool)
    (hfit : ¬ framing.Fits payloadMax s) :
    ∃ as, ¬ BufferOk ((Conn.start fd ptr s closed).run as).element := by
  obtain ⟨fs, b, hfs, rfl, hb, hsize⟩ := LengthFraming.exists_oversized hfit
  have hstart : AtBoundary (Conn.start fd ptr (fs.flatten ++ b) closed) (fs.flatten ++ b) :=
    ⟨rfl, rfl, rfl⟩
  obtain ⟨as, has⟩ := hstart.run_frames hfs
  obtain ⟨a, ha⟩ := has.pass_not_bufferOk hb hsize
  refine ⟨as ++ [a], ?_⟩
  rwa [Conn.run, Runs.run_concat]

/-- The receive buffer stays within bounds, on every way the stream is cut into
reads, exactly for the streams whose headers all announce a payload that fits. -/
theorem receive_buffer_iff_fits (fd : Fd) (ptr : ℕ) (s : Bytes) (closed : Bool) :
    (∀ as : List Arrival, BufferOk ((Conn.start fd ptr s closed).run as).element) ↔
      framing.Fits payloadMax s := by
  constructor
  · intro h
    by_contra hfit
    -- whole reads up to the first header that announces too much
    obtain ⟨as, has⟩ := exists_not_bufferOk fd ptr s closed hfit
    exact has (h as)
  · intro hfit as
    exact bufferOk_of_fits fd ptr s closed hfit as

/-- Four length bytes of the peer's choice are enough to leave the buffer. -/
theorem receive_buffer_overrun :
    ¬ ∀ (s : Bytes) (closed : Bool) (as : List Arrival),
      BufferOk ((Conn.start 5 0 s closed).run as).element := by
  intro h
  have hok := h [0, 1, 1, 203, 0, 0] false [.upTo 5]
  exact absurd (hok.read_le 65995 (by decide)) (by decide)

end VNet.NetQueue
