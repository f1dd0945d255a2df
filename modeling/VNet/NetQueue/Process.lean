import VNet.NetQueue.Element

namespace VNet.NetQueue
open Protocol

/-- What `read()` returned: a count with the bytes it stored, or -1 with `errno`. -/
inductive ReadResult
  | bytes (data : Bytes)
  | eagain
  | failed
  deriving DecidableEq, Repr

inductive Flow
  | again
  | stop
  deriving DecidableEq, Repr

/-- `socket_data`. The buffers are given by the bytes they point to. -/
structure SocketData where
  fd : Fd
  ptrData : ℕ
  packetType : PacketType
  packetBuffer : Bytes
  payloadSize : ℕ
  fullBuffer : Bytes
  fullBufferSize : ℕ
  deriving DecidableEq, Repr

structure TunData where
  fd : Fd
  ptrData : ℕ
  ipBuffer : Bytes
  ipBufferSize : ℕ
  deriving DecidableEq, Repr

/-- What a pass asks of the outside, and how it goes on. After a callback the
pass updates the element as the callback left it. -/
inductive Pass
  | read (count : ℕ) (resume : ReadResult → Flow × NetworkElement)
  | socketReady (data : SocketData) (resume : NetworkElement → NetworkElement)
  | tunReady (data : TunData) (resume : NetworkElement → NetworkElement)
  | stop

/-- `case SCK_HEADER`, after the read. -/
def headerRead (e : NetworkElement) : ReadResult → Flow × NetworkElement
  | .eagain => (.stop, e)
  | .failed => (.again, { e with state := .sckError })
  | .bytes [] => (.again, { e with state := .sckEof })
  | .bytes (b :: bs) =>
    if (e.store (b :: bs)).netBufferUsed = packetHeaderSize then
      (.again, { e.store (b :: bs) with state := .sckPayload })
    else (.again, e.store (b :: bs))

/-- `case SCK_PAYLOAD`, after the read. A count of 0 is not looked at here. -/
def payloadRead (e : NetworkElement) (bufferSize : ℕ) : ReadResult → Flow × NetworkElement
  | .eagain => (.stop, e)
  | .failed => (.again, { e with state := .sckError })
  | .bytes bs =>
    if (e.store bs).netBufferUsed = bufferSize then
      (.again, { e.store bs with state := .sckReady })
    else (.again, e.store bs)

/-- `case TUN_RECEIVE`, after the read. -/
def tunRead (e : NetworkElement) : ReadResult → Flow × NetworkElement
  | .eagain => (.stop, e)
  | .failed => (.again, { e with state := .tunError })
  | .bytes [] => (.again, { e with state := .tunEof })
  | .bytes (b :: bs) => (.again, { e.storeWhole (b :: bs) with state := .tunReady })

/-- `buffer_size` in `case SCK_PAYLOAD`: the sum is taken in `size_t`. -/
def bufferSize (e : NetworkElement) : ℕ := (getPayloadSize e.netBuffer).toNat + packetHeaderSize

def socketData (e : NetworkElement) : SocketData where
  fd := e.fd
  ptrData := e.ptr
  packetType := getPacketType e.netBuffer
  packetBuffer := (e.netBuffer.drop packetHeaderSize).take (getPayloadSize e.netBuffer).toNat
  payloadSize := (getPayloadSize e.netBuffer).toNat
  fullBuffer := e.netBuffer.take e.netBufferUsed
  fullBufferSize := e.netBufferUsed

def tunData (e : NetworkElement) : TunData where
  fd := e.fd
  ptrData := e.ptr
  ipBuffer := e.netBuffer.take e.netBufferUsed
  ipBufferSize := e.netBufferUsed

/-- The body of the loop in `NetQueue::process`. -/
def processPass (e : NetworkElement) : Pass :=
  match e.state with
  | .sckHeader => .read (packetHeaderSize - e.netBufferUsed) (headerRead e)
  | .sckPayload => .read (bufferSize e - e.netBufferUsed) (payloadRead e (bufferSize e))
  | .sckReady => .socketReady (socketData e) fun e' =>
      { e' with netBufferUsed := 0, state := .sckHeader }
  | .sckError => .stop
  | .sckEof => .stop
  | .tunReceive => .read netBufferSize (tunRead e)
  | .tunReady => .tunReady (tunData e) fun e' => { e' with state := .tunReceive }
  | .tunEof => .stop
  | .tunError => .stop

section
variable {α : Type} {f : NetworkElement → α}

def IgnoresReads (f : NetworkElement → α) : Prop :=
  ∀ e buffer used state,
    f { e with netBuffer := buffer, netBufferUsed := used, state := state } = f e

theorem headerRead_keeps (hf : IgnoresReads f) (e : NetworkElement) (r : ReadResult) :
    f (headerRead e r).2 = f e := by
  cases r with
  | eagain => rfl
  | failed => exact hf e _ _ _
  | bytes bs =>
    cases bs with
    | nil => exact hf e _ _ _
    | cons b bs =>
      simp only [headerRead]
      split_ifs
      · exact hf e _ _ _
      · exact hf e _ _ _

theorem payloadRead_keeps (hf : IgnoresReads f) (e : NetworkElement) (n : ℕ) (r : ReadResult) :
    f (payloadRead e n r).2 = f e := by
  cases r with
  | eagain => rfl
  | failed => exact hf e _ _ _
  | bytes bs =>
    simp only [payloadRead]
    split_ifs
    · exact hf e _ _ _
    · exact hf e _ _ _

theorem tunRead_keeps (hf : IgnoresReads f) (e : NetworkElement) (r : ReadResult) :
    f (tunRead e r).2 = f e := by
  cases r with
  | eagain => rfl
  | failed => exact hf e _ _ _
  | bytes bs => cases bs <;> exact hf e _ _ _

/-- A pass writes the read buffer and the state, and no other field. -/
theorem processPass_keeps (hf : IgnoresReads f) (e : NetworkElement) :
    match processPass e with
    | .read _ resume => ∀ r, f (resume r).2 = f e
    | .socketReady _ resume => ∀ e', f (resume e') = f e'
    | .tunReady _ resume => ∀ e', f (resume e') = f e'
    | .stop => True := by
  cases hst : e.state <;> simp only [processPass, hst]
  case sckHeader => exact headerRead_keeps hf e
  case sckPayload => exact payloadRead_keeps hf e (bufferSize e)
  case tunReceive => exact tunRead_keeps hf e
  case sckReady => exact fun e' => hf e' _ _ _
  case tunReady => exact fun e' => hf e' _ _ _

theorem read_keeps (hf : IgnoresReads f) {e : NetworkElement} {count : ℕ}
    {resume : ReadResult → Flow × NetworkElement} (h : processPass e = .read count resume)
    (r : ReadResult) : f (resume r).2 = f e := by
  have hpass := processPass_keeps hf e
  rw [h] at hpass
  exact hpass r

end

theorem fd_ignoresReads : IgnoresReads NetworkElement.fd := fun _ _ _ _ => rfl

theorem writeBuffer_ignoresReads : IgnoresReads NetworkElement.writeBuffer := fun _ _ _ _ => rfl

structure Socket where
  incoming : Bytes
  closed : Bool
  deriving DecidableEq, Repr

/-- How far the stream has arrived when `read()` is called: some of the next
`n + 1` bytes can be read, nothing has arrived yet, or the connection broke. -/
inductive Arrival
  | upTo (n : ℕ)
  | notYet
  | broken
  deriving DecidableEq, Repr

def Socket.read (s : Socket) (count : ℕ) (a : Arrival) : ReadResult × Socket :=
  if count = 0 then (.bytes [], s)
  else match a with
    | .broken => (.failed, s)
    | .notYet => (.eagain, s)
    | .upTo n =>
      if s.incoming = [] then (if s.closed then (.bytes [], s) else (.eagain, s))
      else (.bytes (s.incoming.take (min count (n + 1))),
        { s with incoming := s.incoming.drop (min count (n + 1)) })

/-- An element with its socket, and the callbacks made for it so far. -/
structure Conn where
  element : NetworkElement
  socket : Socket
  delivered : List SocketData
  deriving DecidableEq, Repr

def Conn.pass (c : Conn) (a : Arrival) : Flow × Conn :=
  match processPass c.element with
  | .read count resume =>
    let r := c.socket.read count a
    ((resume r.1).1, { c with element := (resume r.1).2, socket := r.2 })
  | .socketReady data resume =>
    (.again, { c with element := resume c.element, delivered := c.delivered ++ [data] })
  | .tunReady _ resume => (.again, { c with element := resume c.element })
  | .stop => (.stop, c)

section
variable {σ ε : Type} {pass : σ → ε → Flow × σ}

/-- The `while (1)` around the passes, with an event for each of them: at its end
with the first pass that returns, and `none` before. -/
def passes (pass : σ → ε → Flow × σ) (s : σ) : List ε → Option σ
  | [] => none
  | e :: es =>
    match pass s e with
    | (.again, s') => passes pass s' es
    | (.stop, s') => if es = [] then some s' else none

/-- What holds when a pass returns, if the passes before keep what it needs. -/
theorem passes_ends {I Q : σ → Prop} {es : List ε}
    (hagain : ∀ s, ∀ e ∈ es, I s → (pass s e).1 = .again → I (pass s e).2)
    (hstop : ∀ s, ∀ e ∈ es, I s → (pass s e).1 = .stop → Q (pass s e).2) {s s' : σ} (hs : I s)
    (h : passes pass s es = some s') : Q s' := by
  induction es generalizing s with
  | nil => cases h
  | cons e es ih =>
    have hnext := hagain s e List.mem_cons_self hs
    have hlast := hstop s e List.mem_cons_self hs
    unfold passes at h
    cases hpass : pass s e with
    | mk flow t =>
      rw [hpass] at h hnext hlast
      cases flow with
      | again =>
        refine ih (fun s e he => ?_) (fun s e he => ?_) (hnext rfl) h
        · exact hagain s e (List.mem_cons_of_mem _ he)
        · exact hstop s e (List.mem_cons_of_mem _ he)
      | stop =>
        dsimp only at h
        split_ifs at h
        rw [← Option.some.inj h]
        exact hlast rfl

/-- A loop whose passes get nearer to its end returns. -/
theorem passes_returns {I : σ → Prop} (ok : ε → Prop) (todo : σ → ℕ)
    (hagain : ∀ s e, ok e → I s → (pass s e).1 = .again →
      I (pass s e).2 ∧ todo (pass s e).2 < todo s) {s : σ} (hs : I s) {events : ℕ → ε}
    (hok : ∀ i, ok (events i)) :
    ∃ k s', passes pass s ((List.range k).map events) = some s' := by
  induction htodo : todo s using Nat.strong_induction_on generalizing s events with
  | _ n ih =>
    cases hpass : pass s (events 0) with
    | mk flow t =>
      cases flow with
      | again =>
        have hnext := hagain s (events 0) (hok 0) hs
        rw [hpass] at hnext
        obtain ⟨ht, hlt⟩ := hnext rfl
        obtain ⟨k, s', hret⟩ := ih _ (htodo ▸ hlt) ht (fun i => hok (i + 1)) rfl
        refine ⟨k + 1, s', ?_⟩
        rw [List.range_succ_eq_map, List.map_cons, List.map_map, passes, hpass]
        exact hret
      | stop => exact ⟨1, t, by simp [passes, hpass]⟩

/-- What each call keeps is kept by all of them, one after the other. -/
theorem calls_invariant {γ : Type} {call : σ → γ → Option σ} {I : σ → Prop} {cs : List γ}
    (hcall : ∀ s, ∀ c ∈ cs, ∀ s', I s → call s c = some s' → I s') {s s' : σ} (hs : I s)
    (h : cs.foldlM call s = some s') : I s' := by
  induction cs generalizing s with
  | nil =>
    rw [← Option.some.inj h]
    exact hs
  | cons c cs ih =>
    rw [List.foldlM_cons] at h
    obtain ⟨t, ht, hrest⟩ := Option.bind_eq_some_iff.mp h
    refine ih (fun s c hc => hcall s c (List.mem_cons_of_mem _ hc)) ?_ hrest
    exact hcall s c List.mem_cons_self t hs ht

end

end VNet.NetQueue
