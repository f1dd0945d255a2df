import VNet.Lib.Runs
import VNet.NetQueue.Process

namespace VNet.NetQueue
open Protocol

def ReadResult.data : ReadResult → Bytes
  | .bytes bs => bs
  | .eagain => []
  | .failed => []

theorem Socket.read_zero (s : Socket) (a : Arrival) : s.read 0 a = (.bytes [], s) := rfl

theorem Socket.read_upTo_nil {s : Socket} (hs : s.incoming = []) {count : ℕ} (hc : count ≠ 0)
    (n : ℕ) : s.read count (.upTo n) = if s.closed then (.bytes [], s) else (.eagain, s) := by
  simp only [Socket.read, if_neg hc, if_pos hs]

theorem Socket.read_upTo {s : Socket} (hs : s.incoming ≠ []) {count : ℕ} (hc : count ≠ 0)
    (n : ℕ) : s.read count (.upTo n) = (.bytes (s.incoming.take (min count (n + 1))),
      { s with incoming := s.incoming.drop (min count (n + 1)) }) := by
  simp only [Socket.read, if_neg hc, if_neg hs]

/-- The kernel hands out the stream in order and never more than was asked. -/
theorem Socket.read_spec {s s' : Socket} {count : ℕ} {a : Arrival} {r : ReadResult}
    (h : s.read count a = (r, s')) :
    s.incoming = r.data ++ s'.incoming ∧ r.data.length ≤ count ∧ s'.closed = s.closed := by
  by_cases h0 : count = 0
  · subst h0
    obtain ⟨rfl, rfl⟩ := Prod.mk.inj h
    exact ⟨rfl, le_rfl, rfl⟩
  · cases a with
    | broken =>
      simp only [Socket.read, if_neg h0, Prod.mk.injEq] at h
      obtain ⟨rfl, rfl⟩ := h
      exact ⟨rfl, Nat.zero_le _, rfl⟩
    | notYet =>
      simp only [Socket.read, if_neg h0, Prod.mk.injEq] at h
      obtain ⟨rfl, rfl⟩ := h
      exact ⟨rfl, Nat.zero_le _, rfl⟩
    | upTo n =>
      by_cases hs : s.incoming = []
      · rw [Socket.read_upTo_nil hs h0] at h
        split_ifs at h <;> obtain ⟨rfl, rfl⟩ := Prod.mk.inj h <;> exact ⟨rfl, Nat.zero_le _, rfl⟩
      · rw [Socket.read_upTo hs h0] at h
        obtain ⟨rfl, rfl⟩ := Prod.mk.inj h
        refine ⟨(List.take_append_drop _ _).symm, ?_, rfl⟩
        simp only [ReadResult.data, List.length_take]
        omega

/-- The used bytes in each state of a socket element. The error state is
entered from a header or a payload that was being read. -/
def StateOk (e : NetworkElement) : Prop :=
  match e.state with
  | .sckHeader => e.netBufferUsed < packetHeaderSize
  | .sckPayload => packetHeaderSize ≤ e.netBufferUsed ∧ e.netBufferUsed ≤ bufferSize e
  | .sckReady => e.netBufferUsed = bufferSize e
  | .sckEof => e.netBufferUsed < packetHeaderSize
  | .sckError => e.netBufferUsed < packetHeaderSize ∨ e.netBufferUsed ≤ bufferSize e
  | _ => False

def Stored (e : NetworkElement) : Prop := e.netBufferUsed ≤ e.netBuffer.length

theorem bufferSize_store {e : NetworkElement} (h : Stored e)
    (h6 : packetHeaderSize ≤ e.netBufferUsed) (bs : Bytes) :
    bufferSize (e.store bs) = bufferSize e := by
  have hs := NetworkElement.store_used_le h bs
  have h6' : packetHeaderSize ≤ (e.store bs).netBufferUsed := by
    simp only [NetworkElement.store]
    omega
  rw [bufferSize, bufferSize, NetworkElement.getPayloadSize_netBuffer hs h6',
    NetworkElement.getPayloadSize_netBuffer h h6, NetworkElement.buffered_store h]
  rw [getPayloadSize_append _ _ (by rwa [NetworkElement.buffered_length h])]

theorem bufferSize_eq_size {e : NetworkElement} (h : Stored e)
    (h6 : packetHeaderSize ≤ e.netBufferUsed) :
    bufferSize e = packetHeaderSize + framing.size e.buffered := by
  rw [bufferSize, NetworkElement.getPayloadSize_netBuffer h h6, Nat.add_comm]
  rfl

theorem headerRead_spec {e : NetworkElement} (hst : e.state = .sckHeader) (hs : Stored e)
    (hu : e.netBufferUsed < packetHeaderSize) (r : ReadResult)
    (hr : r.data.length ≤ packetHeaderSize - e.netBufferUsed) :
    Stored (headerRead e r).2 ∧ StateOk (headerRead e r).2 ∧
      (headerRead e r).2.buffered = e.buffered ++ r.data := by
  match r with
  | .eagain =>
    exact ⟨hs, by simpa [StateOk, headerRead, hst] using hu, by simp [headerRead, ReadResult.data]⟩
  | .failed => exact ⟨hs, Or.inl hu, by simp [headerRead, ReadResult.data, NetworkElement.buffered]⟩
  | .bytes [] => exact ⟨hs, hu, by simp [headerRead, ReadResult.data, NetworkElement.buffered]⟩
  | .bytes (b :: bs) =>
    have hbuf := NetworkElement.buffered_store hs (b :: bs)
    have hsto := NetworkElement.store_used_le hs (b :: bs)
    have hused : (e.store (b :: bs)).netBufferUsed = e.netBufferUsed + (b :: bs).length := rfl
    simp only [ReadResult.data] at hr
    simp only [headerRead]
    split_ifs with hfull
    · refine ⟨hsto, ⟨hfull.ge, ?_⟩, hbuf⟩
      change (e.store (b :: bs)).netBufferUsed ≤ _
      rw [hfull, bufferSize]
      omega
    · refine ⟨hsto, ?_, hbuf⟩
      have hst' : (e.store (b :: bs)).state = .sckHeader := hst
      simp only [StateOk, hst']
      omega

theorem payloadRead_spec {e : NetworkElement} (hst : e.state = .sckPayload) (hs : Stored e)
    (h6 : packetHeaderSize ≤ e.netBufferUsed) (hu : e.netBufferUsed ≤ bufferSize e)
    (r : ReadResult) (hr : r.data.length ≤ bufferSize e - e.netBufferUsed) :
    Stored (payloadRead e (bufferSize e) r).2 ∧ StateOk (payloadRead e (bufferSize e) r).2 ∧
      (payloadRead e (bufferSize e) r).2.buffered = e.buffered ++ r.data := by
  match r with
  | .eagain =>
    exact ⟨hs, by simpa [StateOk, payloadRead, hst] using ⟨h6, hu⟩,
      by simp [payloadRead, ReadResult.data]⟩
  | .failed =>
    exact ⟨hs, Or.inr hu, by simp [payloadRead, ReadResult.data, NetworkElement.buffered]⟩
  | .bytes bs =>
    have hbuf := NetworkElement.buffered_store hs bs
    have hsto := NetworkElement.store_used_le hs bs
    have hsize := bufferSize_store hs h6 bs
    have hused : (e.store bs).netBufferUsed = e.netBufferUsed + bs.length := rfl
    simp only [ReadResult.data] at hr
    simp only [payloadRead]
    split_ifs with hfull
    · exact ⟨hsto, hfull.trans hsize.symm, hbuf⟩
    · refine ⟨hsto, ?_, hbuf⟩
      have hst' : (e.store bs).state = .sckPayload := hst
      simp only [StateOk, hst', hsize]
      omega

/-- Frames handed to the callback and bytes in the buffer are what has been
taken from the stream, in order; each frame handed over is a whole one. -/
structure Received (s : Bytes) (c : Conn) : Prop where
  stored : Stored c.element
  stateOk : StateOk c.element
  isFrame : ∀ d ∈ c.delivered, framing.IsFrame d.fullBuffer
  data_eq : ∀ d ∈ c.delivered, (d.packetType, d.packetBuffer) = packet d.fullBuffer ∧
    d.payloadSize = framing.size d.fullBuffer ∧ d.fullBufferSize = d.payloadSize + packetHeaderSize
  stream_eq : (c.delivered.map (·.fullBuffer)).flatten ++ c.element.buffered ++
    c.socket.incoming = s

theorem processPass_header {e : NetworkElement} (h : e.state = .sckHeader) :
    processPass e = .read (packetHeaderSize - e.netBufferUsed) (headerRead e) := by
  simp only [processPass, h]

theorem processPass_payload {e : NetworkElement} (h : e.state = .sckPayload) :
    processPass e = .read (bufferSize e - e.netBufferUsed) (payloadRead e (bufferSize e)) := by
  simp only [processPass, h]

theorem Conn.pass_read {c : Conn} {count : ℕ} {resume : ReadResult → Flow × NetworkElement}
    (hp : processPass c.element = .read count resume) {a : Arrival} {r : ReadResult}
    {socket : Socket} (hr : c.socket.read count a = (r, socket)) :
    c.pass a = ((resume r).1, { c with element := (resume r).2, socket := socket }) := by
  simp only [Conn.pass, hp, hr]

theorem Conn.pass_ready {c : Conn} (h : c.element.state = .sckReady) (a : Arrival) :
    c.pass a = (.again,
      { c with
        element := { c.element with netBufferUsed := 0, state := .sckHeader }
        delivered := c.delivered ++ [socketData c.element] }) := by
  simp only [Conn.pass, processPass, h]

theorem Conn.pass_stopped {c : Conn} (h : c.element.state = .sckError ∨ c.element.state = .sckEof)
    (a : Arrival) : c.pass a = (.stop, c) := by
  rcases h with h | h <;> simp only [Conn.pass, processPass, h]

/-- A frame that fills the buffer is handed over with its own type and payload. -/
theorem socketData_ready {e : NetworkElement} (hs : Stored e)
    (hu : e.netBufferUsed = bufferSize e) :
    framing.IsFrame (socketData e).fullBuffer ∧
      ((socketData e).packetType, (socketData e).packetBuffer) = packet (socketData e).fullBuffer ∧
      (socketData e).payloadSize = framing.size (socketData e).fullBuffer ∧
      (socketData e).fullBufferSize = (socketData e).payloadSize + packetHeaderSize := by
  have h6 : packetHeaderSize ≤ e.netBufferUsed := by
    rw [hu, bufferSize]
    omega
  have hl := NetworkElement.buffered_length hs
  have hsize := bufferSize_eq_size hs h6
  have hpay : (getPayloadSize e.netBuffer).toNat = framing.size e.buffered := by
    rw [NetworkElement.getPayloadSize_netBuffer hs h6]
    rfl
  refine ⟨?_, ?_, hpay, hu⟩
  · change e.buffered.length = packetHeaderSize + framing.size e.buffered
    rw [hl, hu, hsize]
  · have htype := NetworkElement.getPacketType_netBuffer hs h6
    have hbody : (e.netBuffer.drop packetHeaderSize).take (getPayloadSize e.netBuffer).toNat =
        e.buffered.drop packetHeaderSize := by
      rw [NetworkElement.buffered, List.drop_take, hu, bufferSize, Nat.add_sub_cancel]
    simp only [socketData, packet]
    rw [htype, hbody]
    rfl

/-- A pass moves the bytes it reads from the socket to the end of the buffer. -/
theorem Received.pass_read {s : Bytes} {c : Conn} (h : Received s c) {count : ℕ}
    {resume : ReadResult → Flow × NetworkElement}
    (hp : processPass c.element = .read count resume)
    (hspec : ∀ r : ReadResult, r.data.length ≤ count → Stored (resume r).2 ∧ StateOk (resume r).2 ∧
      (resume r).2.buffered = c.element.buffered ++ r.data) (a : Arrival) :
    Received s (c.pass a).2 := by
  cases hread : c.socket.read count a with
  | mk r socket =>
    obtain ⟨hin, hle, -⟩ := Socket.read_spec hread
    obtain ⟨hs, hok, hbuf⟩ := hspec r hle
    rw [Conn.pass_read hp hread]
    refine ⟨hs, hok, h.isFrame, h.data_eq, ?_⟩
    have hstream := h.stream_eq
    simp only [hbuf, List.append_assoc]
    rwa [hin, List.append_assoc] at hstream

theorem Received.pass_ready {s : Bytes} {c : Conn} (h : Received s c)
    (hst : c.element.state = .sckReady) (a : Arrival) : Received s (c.pass a).2 := by
  obtain ⟨hs, hok, hframe, hdata, hstream⟩ := h
  simp only [StateOk, hst] at hok
  obtain ⟨hf, hp⟩ := socketData_ready hs hok
  rw [Conn.pass_ready hst]
  refine ⟨Nat.zero_le _, Nat.zero_lt_succ _, ?_, ?_, ?_⟩
  · intro d hd
    rcases List.mem_append.mp hd with hd | hd
    · exact hframe d hd
    · rw [List.mem_singleton.mp hd]
      exact hf
  · intro d hd
    rcases List.mem_append.mp hd with hd | hd
    · exact hdata d hd
    · rw [List.mem_singleton.mp hd]
      exact hp
  · rw [← hstream]
    simp [NetworkElement.buffered, socketData]

/-- Every pass keeps the account of the stream. -/
theorem Received.pass {s : Bytes} {c : Conn} (h : Received s c) (a : Arrival) :
    Received s (c.pass a).2 := by
  have hok := h.stateOk
  cases hst : c.element.state with
  | sckHeader =>
    simp only [StateOk, hst] at hok
    exact h.pass_read (processPass_header hst) (headerRead_spec hst h.stored hok) a
  | sckPayload =>
    simp only [StateOk, hst] at hok
    exact h.pass_read (processPass_payload hst) (payloadRead_spec hst h.stored hok.1 hok.2) a
  | sckReady => exact h.pass_ready hst a
  | sckError =>
    rw [Conn.pass_stopped (Or.inl hst)]
    exact h
  | sckEof =>
    rw [Conn.pass_stopped (Or.inr hst)]
    exact h
  | _ => simp [StateOk, hst] at hok

/-- The passes of any number of `process` calls, one arrival each. A call that
returned is followed by the next one in the state it left. -/
def Conn.run (c : Conn) (as : List Arrival) : Conn := Runs.run (fun c a => (c.pass a).2) c as

def Conn.start (fd : Fd) (ptr : ℕ) (s : Bytes) (closed : Bool) : Conn :=
  ⟨.new fd ptr .sckHeader, ⟨s, closed⟩, []⟩

theorem Received.start (fd : Fd) (ptr : ℕ) (s : Bytes) (closed : Bool) :
    Received s (Conn.start fd ptr s closed) where
  stored := Nat.zero_le _
  stateOk := Nat.zero_lt_succ _
  isFrame := by simp [Conn.start]
  data_eq := by simp [Conn.start]
  stream_eq := by simp [Conn.start, NetworkElement.new, NetworkElement.buffered]

theorem Received.run {s : Bytes} {c : Conn} (h : Received s c) (as : List Arrival) :
    Received s (c.run as) :=
  Runs.invariant_always (fun _ a hc => hc.pass a) h as

def Conn.extend (c : Conn) (bs : Bytes) : Conn :=
  { c with socket := { c.socket with incoming := c.socket.incoming ++ bs } }

theorem Received.extend {s : Bytes} {c : Conn} (h : Received s c) (bs : Bytes) :
    Received (s ++ bs) (c.extend bs) where
  stored := h.stored
  stateOk := h.stateOk
  isFrame := h.isFrame
  data_eq := h.data_eq
  stream_eq := by
    rw [← h.stream_eq]
    simp only [Conn.extend, List.append_assoc]

theorem Socket.read_failed {s s' : Socket} {count : ℕ} {a : Arrival}
    (h : s.read count a = (.failed, s')) : a = .broken := by
  by_cases h0 : count = 0
  · subst h0
    simp [Socket.read_zero] at h
  · cases a with
    | broken => rfl
    | notYet => simp [Socket.read, h0] at h
    | upTo n =>
      by_cases hs : s.incoming = []
      · rw [Socket.read_upTo_nil hs h0] at h
        split_ifs at h <;> simp at h
      · simp [Socket.read_upTo hs h0] at h

theorem Socket.read_eagain {s s' : Socket} {count : ℕ} {a : Arrival}
    (h : s.read count a = (.eagain, s')) : s' = s ∧ count ≠ 0 := by
  by_cases h0 : count = 0
  · subst h0
    simp [Socket.read_zero] at h
  · refine ⟨?_, h0⟩
    cases a with
    | broken => simp [Socket.read, h0] at h
    | notYet =>
      simp only [Socket.read, if_neg h0] at h
      exact (Prod.mk.inj h).2.symm
    | upTo n =>
      by_cases hs : s.incoming = []
      · rw [Socket.read_upTo_nil hs h0] at h
        split_ifs at h
        · simp at h
        · exact (Prod.mk.inj h).2.symm
      · simp [Socket.read_upTo hs h0] at h

theorem headerRead_stop {e : NetworkElement} {r : ReadResult} (h : (headerRead e r).1 = .stop) :
    r = .eagain := by
  match r with
  | .eagain => rfl
  | .failed => simp [headerRead] at h
  | .bytes [] => simp [headerRead] at h
  | .bytes (b :: bs) =>
    simp only [headerRead] at h
    split_ifs at h

theorem payloadRead_stop {e : NetworkElement} {n : ℕ} {r : ReadResult}
    (h : (payloadRead e n r).1 = .stop) : r = .eagain := by
  match r with
  | .eagain => rfl
  | .failed => simp [payloadRead] at h
  | .bytes bs =>
    simp only [payloadRead] at h
    split_ifs at h

/-- A pass that returns has changed nothing, and leaves no whole frame unread
in the buffer. -/
theorem Received.pass_stop {s : Bytes} {c : Conn} (h : Received s c) {a : Arrival}
    (hstop : (c.pass a).1 = .stop) (herr : c.element.state ≠ .sckError) :
    (c.pass a).2 = c ∧ ¬ framing.Complete c.element.buffered := by
  have hl := NetworkElement.buffered_length h.stored
  have hok := h.stateOk
  cases hst : c.element.state with
  | sckHeader =>
    simp only [StateOk, hst] at hok
    cases hread : c.socket.read (packetHeaderSize - c.element.netBufferUsed) a with
    | mk r socket =>
      rw [Conn.pass_read (processPass_header hst) hread] at hstop ⊢
      obtain rfl := headerRead_stop hstop
      obtain ⟨rfl, -⟩ := Socket.read_eagain hread
      -- not even a header is whole
      exact ⟨rfl, LengthFraming.not_complete_of_short (hl ▸ hok)⟩
  | sckPayload =>
    simp only [StateOk, hst] at hok
    cases hread : c.socket.read (bufferSize c.element - c.element.netBufferUsed) a with
    | mk r socket =>
      rw [Conn.pass_read (processPass_payload hst) hread] at hstop ⊢
      obtain rfl := payloadRead_stop hstop
      obtain ⟨rfl, hcount⟩ := Socket.read_eagain hread
      refine ⟨rfl, ?_⟩
      -- the read that gave EAGAIN asked for what is missing of the frame
      rw [LengthFraming.Complete, hl]
      change ¬ packetHeaderSize + framing.size c.element.buffered ≤ c.element.netBufferUsed
      rw [← bufferSize_eq_size h.stored hok.1]
      omega
  | sckReady =>
    rw [Conn.pass_ready hst] at hstop
    simp at hstop
  | sckError => exact absurd hst herr
  | sckEof =>
    simp only [StateOk, hst] at hok
    rw [Conn.pass_stopped (Or.inr hst)]
    exact ⟨rfl, LengthFraming.not_complete_of_short (hl ▸ hok)⟩
  | _ => simp [StateOk, hst] at hok

theorem headerRead_not_error {e : NetworkElement} {r : ReadResult} (hr : r ≠ .failed)
    (he : e.state ≠ .sckError) : (headerRead e r).2.state ≠ .sckError := by
  match r with
  | .eagain => exact he
  | .failed => exact absurd rfl hr
  | .bytes [] => simp [headerRead]
  | .bytes (b :: bs) =>
    simp only [headerRead]
    split_ifs
    · simp
    · exact he

theorem payloadRead_not_error {e : NetworkElement} {n : ℕ} {r : ReadResult} (hr : r ≠ .failed)
    (he : e.state ≠ .sckError) : (payloadRead e n r).2.state ≠ .sckError := by
  match r with
  | .eagain => exact he
  | .failed => exact absurd rfl hr
  | .bytes bs =>
    simp only [payloadRead]
    split_ifs
    · simp
    · exact he

theorem Received.pass_not_error {s : Bytes} {c : Conn} (h : Received s c) {a : Arrival}
    (ha : a ≠ .broken) (he : c.element.state ≠ .sckError) :
    (c.pass a).2.element.state ≠ .sckError := by
  have hok := h.stateOk
  cases hst : c.element.state with
  | sckHeader =>
    cases hread : c.socket.read (packetHeaderSize - c.element.netBufferUsed) a with
    | mk r socket =>
      have hr : r ≠ .failed := by
        rintro rfl
        exact ha (Socket.read_failed hread)
      rw [Conn.pass_read (processPass_header hst) hread]
      exact headerRead_not_error hr he
  | sckPayload =>
    cases hread : c.socket.read (bufferSize c.element - c.element.netBufferUsed) a with
    | mk r socket =>
      have hr : r ≠ .failed := by
        rintro rfl
        exact ha (Socket.read_failed hread)
      rw [Conn.pass_read (processPass_payload hst) hread]
      exact payloadRead_not_error hr he
  | sckReady =>
    rw [Conn.pass_ready hst]
    simp
  | sckError => exact absurd hst he
  | sckEof =>
    rw [Conn.pass_stopped (Or.inr hst)]
    exact he
  | _ => simp [StateOk, hst] at hok

end VNet.NetQueue
