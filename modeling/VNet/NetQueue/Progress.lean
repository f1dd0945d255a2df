import VNet.NetQueue.ReceiveBuffer

namespace VNet.NetQueue
open Protocol

def Conn.Reading (c : Conn) : Prop :=
  c.element.state = .sckHeader ∨ c.element.state = .sckPayload ∨ c.element.state = .sckReady

def Conn.Stuck (c : Conn) : Prop :=
  c.element.state = .sckPayload ∧ c.socket.incoming = [] ∧
    c.element.netBufferUsed < bufferSize c.element

def Conn.AtEnd (c : Conn) : Prop := c.element.state = .sckEof ∧ c.socket.incoming = []

/-- How many passes a state is away from the next byte, at most. -/
def FiniteStateMachine.rank : FiniteStateMachine → ℕ
  | .sckHeader => 1
  | .sckReady => 2
  | .sckPayload => 3
  | _ => 0

/-- Every pass takes a byte or moves on to a state of lower rank. -/
def Conn.todo (c : Conn) : ℕ := 4 * c.socket.incoming.length + c.element.state.rank

theorem FiniteStateMachine.rank_lt (st : FiniteStateMachine) : st.rank < 4 := by
  cases st <;> decide

theorem Conn.todo_lt {c c' : Conn} (h : c'.socket.incoming.length < c.socket.incoming.length) :
    c'.todo < c.todo := by
  have := c'.element.state.rank_lt
  unfold Conn.todo
  omega

/-- What a read on a working connection comes to: nothing more will come, nothing
has come yet, or bytes. -/
theorem Socket.read_cases (s : Socket) (count : ℕ) {a : Arrival} (ha : a ≠ .broken) :
    (s.read count a = (.bytes [], s) ∧ (count = 0 ∨ s.closed = true ∧ s.incoming = [])) ∨
    (s.read count a = (.eagain, s) ∧ (a = .notYet ∨ s.closed = false ∧ s.incoming = [])) ∨
    ∃ b bs s', s.read count a = (.bytes (b :: bs), s') ∧
      s'.incoming.length < s.incoming.length := by
  by_cases hc : count = 0
  · subst hc
    exact Or.inl ⟨Socket.read_zero s a, Or.inl rfl⟩
  · cases a with
    | broken => exact absurd rfl ha
    | notYet =>
      refine Or.inr (Or.inl ⟨?_, Or.inl rfl⟩)
      simp only [Socket.read, if_neg hc]
    | upTo n =>
      by_cases hs : s.incoming = []
      · have hread := Socket.read_upTo_nil hs hc n
        by_cases hcl : s.closed = true
        · rw [if_pos hcl] at hread
          exact Or.inl ⟨hread, Or.inr ⟨hcl, hs⟩⟩
        · rw [if_neg hcl] at hread
          exact Or.inr (Or.inl ⟨hread, Or.inr ⟨Bool.not_eq_true _ ▸ hcl, hs⟩⟩)
      · obtain ⟨b, rest, hrest⟩ := List.exists_cons_of_ne_nil hs
        obtain ⟨k, hk⟩ : ∃ k, min count (n + 1) = k + 1 := ⟨min count (n + 1) - 1, by omega⟩
        refine Or.inr (Or.inr ⟨b, rest.take k, { s with incoming := rest.drop k }, ?_, ?_⟩)
        · rw [Socket.read_upTo hs hc, hk, hrest]
          rfl
        · rw [hrest]
          simp only [List.length_drop, List.length_cons]
          omega

theorem headerRead_bytes {e : NetworkElement} (hst : e.state = .sckHeader) (b : UInt8)
    (bs : Bytes) :
    (headerRead e (.bytes (b :: bs))).1 = .again ∧
      ((headerRead e (.bytes (b :: bs))).2.state = .sckHeader ∨
        (headerRead e (.bytes (b :: bs))).2.state = .sckPayload) := by
  simp only [headerRead]
  split_ifs
  · exact ⟨rfl, Or.inr rfl⟩
  · exact ⟨rfl, Or.inl hst⟩

theorem payloadRead_bytes {e : NetworkElement} (hst : e.state = .sckPayload) (n : ℕ) (bs : Bytes) :
    (payloadRead e n (.bytes bs)).1 = .again ∧
      ((payloadRead e n (.bytes bs)).2.state = .sckPayload ∨
        (payloadRead e n (.bytes bs)).2.state = .sckReady) := by
  simp only [payloadRead]
  split_ifs
  · exact ⟨rfl, Or.inr rfl⟩
  · exact ⟨rfl, Or.inl hst⟩

theorem Conn.pass_closed (c : Conn) (a : Arrival) :
    (c.pass a).2.socket.closed = c.socket.closed := by
  cases hp : processPass c.element with
  | read count resume =>
    cases hread : c.socket.read count a with
    | mk r socket =>
      rw [Conn.pass_read hp hread]
      exact (Socket.read_spec hread).2.2
  | _ => simp only [Conn.pass, hp]

/-- The pass goes on: it reads further or has met the end of the stream, and has
less to do, unless a payload is stuck there. -/
def Conn.Advances (c c' : Conn) : Prop :=
  (c'.Reading ∨ c.socket.closed = true ∧ c'.AtEnd) ∧
    (c'.todo < c.todo ∨ c.socket.closed = true ∧ c.Stuck)

def Conn.Waits (c : Conn) (a : Arrival) : Prop :=
  a = .notYet ∨ c.socket.closed = false ∧ c.socket.incoming = []

theorem Conn.advances_header {c : Conn} (hst : c.element.state = .sckHeader)
    (hused : c.element.netBufferUsed < packetHeaderSize) {a : Arrival} (ha : a ≠ .broken) :
    ((c.pass a).1 = .again ∧ c.Advances (c.pass a).2) ∨ (c.pass a = (.stop, c) ∧ c.Waits a) := by
  rcases Socket.read_cases c.socket (packetHeaderSize - c.element.netBufferUsed) ha with
    ⟨hread, hend⟩ | ⟨hread, hnone⟩ | ⟨b, bs, s', hread, hlt⟩ <;>
    rw [Conn.pass_read (processPass_header hst) hread]
  · obtain ⟨hclosed, hin⟩ := hend.resolve_left (by omega)
    refine Or.inl ⟨rfl, Or.inr ⟨hclosed, rfl, hin⟩, Or.inl ?_⟩
    simp only [Conn.todo, headerRead, hst, hin]
    decide
  · exact Or.inr ⟨rfl, hnone⟩
  · obtain ⟨hagain, hstate⟩ := headerRead_bytes hst b bs
    exact Or.inl ⟨hagain, Or.inl (hstate.imp id Or.inl), Or.inl (Conn.todo_lt hlt)⟩

/-- A pass of a payload; `size` is the `buffer_size` of the element. -/
theorem Conn.advances_payload {c : Conn} {size : ℕ} (hsize : bufferSize c.element = size)
    (hst : c.element.state = .sckPayload) (hused : c.element.netBufferUsed ≤ size) {a : Arrival}
    (ha : a ≠ .broken) :
    ((c.pass a).1 = .again ∧ c.Advances (c.pass a).2) ∨ (c.pass a = (.stop, c) ∧ c.Waits a) := by
  have hpass := processPass_payload hst
  rw [hsize] at hpass
  rcases Socket.read_cases c.socket (size - c.element.netBufferUsed) ha with
    ⟨hread, hend⟩ | ⟨hread, hnone⟩ | ⟨b, bs, s', hread, hlt⟩
  · obtain ⟨hagain, hstate⟩ := payloadRead_bytes hst size []
    rw [Conn.pass_read hpass hread]
    refine Or.inl ⟨hagain, Or.inl (Or.inr hstate), ?_⟩
    -- a read of 0 bytes fills an empty payload; any other is at the end of the stream
    rcases hused.eq_or_lt with hfull | hshort
    · refine Or.inl ?_
      rw [payloadRead_whole (by rw [List.length_nil, Nat.add_zero, hfull])]
      simp only [Conn.todo, hst, FiniteStateMachine.rank]
      omega
    · obtain ⟨hclosed, hin⟩ := hend.resolve_left (by omega)
      exact Or.inr ⟨hclosed, hst, hin, hsize ▸ hshort⟩
  · rw [Conn.pass_read hpass hread]
    exact Or.inr ⟨rfl, hnone⟩
  · obtain ⟨hagain, hstate⟩ := payloadRead_bytes hst size (b :: bs)
    rw [Conn.pass_read hpass hread]
    exact Or.inl ⟨hagain, Or.inl (Or.inr hstate), Or.inl (Conn.todo_lt hlt)⟩

/-- What a pass comes to on a connection that works. -/
theorem Received.pass_cases {s : Bytes} {c : Conn} (h : Received s c) (hst : c.Reading)
    {a : Arrival} (ha : a ≠ .broken) :
    ((c.pass a).1 = .again ∧ c.Advances (c.pass a).2) ∨ (c.pass a = (.stop, c) ∧ c.Waits a) := by
  have hok := h.stateOk
  rcases hst with hst | hst | hst
  · simp only [StateOk, hst] at hok
    exact Conn.advances_header hst hok ha
  · simp only [StateOk, hst] at hok
    exact Conn.advances_payload rfl hst hok.2 ha
  · rw [Conn.pass_ready hst]
    refine Or.inl ⟨rfl, Or.inl (Or.inl rfl), Or.inl ?_⟩
    simp only [Conn.todo, hst, FiniteStateMachine.rank]
    omega

/-- A stuck payload is what is left of the stream. -/
theorem Received.split_stuck {s : Bytes} {c : Conn} (h : Received s c) (hstuck : c.Stuck) :
    packetHeaderSize ≤ (framing.split s).2.length := by
  obtain ⟨hst, hin, hu⟩ := hstuck
  have hok := h.stateOk
  simp only [StateOk, hst] at hok
  have hl := NetworkElement.buffered_length h.stored
  have heq := h.stream_eq
  rw [hin, List.append_nil] at heq
  have hnot : ¬ framing.Complete c.element.buffered := by
    rw [LengthFraming.Complete, hl]
    change ¬ packetHeaderSize + framing.size c.element.buffered ≤ c.element.netBufferUsed
    rw [← bufferSize_eq_size h.stored hok.1]
    omega
  rw [LengthFraming.split_eq_of_flatten (by simpa using h.isFrame) hnot heq, hl]
  exact hok.1

def Conn.process (c : Conn) (as : List Arrival) : Option Conn := passes Conn.pass c as

def Conn.processAll (c : Conn) (calls : List (List Arrival)) : Option Conn :=
  calls.foldlM Conn.process c

/-- A connection that reads on or has met the end of its stream, and where no
payload can get stuck. -/
structure Flowing (s : Bytes) (c : Conn) : Prop where
  received : Received s c
  state : c.Reading ∨ c.socket.closed = true ∧ c.AtEnd
  free : c.socket.closed = false ∨ (framing.split s).2.length < packetHeaderSize

structure Paused (s : Bytes) (c : Conn) : Prop extends Flowing s c where
  incomplete : ¬ framing.Complete c.element.buffered

theorem Paused.start (fd : Fd) (ptr : ℕ) (s : Bytes) (closed : Bool)
    (h : closed = false ∨ (framing.split s).2.length < packetHeaderSize) :
    Paused s (Conn.start fd ptr s closed) where
  received := Received.start fd ptr s closed
  state := Or.inl (Or.inl rfl)
  free := h
  incomplete := LengthFraming.not_complete_nil

/-- A pass gets nearer to the end of the call, or it is the end. -/
theorem Flowing.pass {s : Bytes} {c : Conn} (h : Flowing s c) {a : Arrival} (ha : a ≠ .broken) :
    ((c.pass a).1 = .again ∧ Flowing s (c.pass a).2 ∧ (c.pass a).2.todo < c.todo) ∨
      (c.pass a = (.stop, c) ∧ Paused s c ∧ (a ≠ .notYet → c.socket.incoming = [])) := by
  rcases h.state with hst | ⟨hclosed, hend⟩
  · rcases h.received.pass_cases hst ha with ⟨hagain, hnext, htodo⟩ | ⟨hstop, hwaits⟩
    · refine Or.inl ⟨hagain, ⟨h.received.pass a, ?_, ?_⟩, htodo.resolve_right ?_⟩
      · rwa [c.pass_closed a]
      · rw [c.pass_closed a]
        exact h.free
      · rintro ⟨hclosed, hstuck⟩
        rcases h.free with hopen | hshort
        · simp [hclosed] at hopen
        · exact Nat.not_le.mpr hshort (h.received.split_stuck hstuck)
    · have herr : c.element.state ≠ .sckError := by
        rcases hst with hst | hst | hst <;> simp [hst]
      have hincomplete := (h.received.pass_stop (a := a) (by rw [hstop]) herr).2
      exact Or.inr ⟨hstop, ⟨h, hincomplete⟩, fun hne => (hwaits.resolve_left hne).2⟩
  · have hstop := Conn.pass_stopped (Or.inr hend.1) a
    have hincomplete := (h.received.pass_stop (a := a) (by rw [hstop]) (by simp [hend.1])).2
    exact Or.inr ⟨hstop, ⟨h, hincomplete⟩, fun _ => hend.2⟩

/-- A call that has returned leaves the connection between two calls, and has read
everything unless it was told that nothing had come. -/
theorem Flowing.process {s : Bytes} {c c' : Conn} {as : List Arrival} (h : Flowing s c)
    (has : ∀ a ∈ as, a ≠ .broken) (hret : c.process as = some c') :
    Paused s c' ∧ ((∀ a ∈ as, a ≠ .notYet) → c'.socket.incoming = []) := by
  refine passes_ends (I := Flowing s)
    (Q := fun c => Paused s c ∧ ((∀ a ∈ as, a ≠ .notYet) → c.socket.incoming = [])) ?_ ?_ h hret
  · intro c a ha hc hagain
    rcases hc.pass (has a ha) with ⟨-, hnext, -⟩ | ⟨hstop, -⟩
    · exact hnext
    · simp [hstop] at hagain
  · intro c a ha hc hstop
    rcases hc.pass (has a ha) with ⟨hagain, -⟩ | ⟨heq, hpaused, hread⟩
    · simp [hagain] at hstop
    · rw [heq]
      exact ⟨hpaused, fun hall => hread (hall a ha)⟩

theorem Paused.processAll {s : Bytes} {c c' : Conn} {calls : List (List Arrival)} (h : Paused s c)
    (hcalls : ∀ call ∈ calls, ∀ a ∈ call, a ≠ .broken) (hret : c.processAll calls = some c') :
    Paused s c' :=
  calls_invariant (fun _ call hmem _ hc hd => (hc.toFlowing.process (hcalls call hmem) hd).1) h hret

/-- Every call returns, whatever arrives during it. -/
theorem Flowing.process_returns {s : Bytes} {c : Conn} (h : Flowing s c) {arrivals : ℕ → Arrival}
    (harr : ∀ i, arrivals i ≠ .broken) :
    ∃ k c', c.process ((List.range k).map arrivals) = some c' := by
  refine passes_returns (fun a => a ≠ .broken) Conn.todo (fun c a ha hc hagain => ?_) h harr
  rcases hc.pass ha with ⟨-, hnext, hlt⟩ | ⟨hstop, -⟩
  · exact ⟨hnext, hlt⟩
  · simp [hstop] at hagain

end VNet.NetQueue
