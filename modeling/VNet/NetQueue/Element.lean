import VNet.Protocol

namespace VNet.NetQueue
open Protocol

def netBufferSize : ℕ := 66000

def writeBufferMax : ℕ := 65536

abbrev Fd := ℤ

inductive FiniteStateMachine
  | tunReceive
  | tunReady
  | tunError
  | tunEof
  | sckHeader
  | sckPayload
  | sckReady
  | sckError
  | sckEof
  deriving DecidableEq, Repr

/-- `netBuffer` holds the bytes stored in `net_buffer` so far, from index 0 on;
it is longer than `netBufferSize` only after a store beyond the array. `ptr` is
the user's pointer, of which the queue only keeps the value. -/
structure NetworkElement where
  state : FiniteStateMachine
  fd : Fd
  ptr : ℕ
  netBufferUsed : ℕ
  netBuffer : Bytes
  writeBuffer : Bytes
  writeBufferOffset : ℕ
  deriving DecidableEq, Repr

namespace NetworkElement

def new (fd : Fd) (ptr : ℕ) (state : FiniteStateMachine) : NetworkElement :=
  { state, fd, ptr, netBufferUsed := 0, netBuffer := [], writeBuffer := [], writeBufferOffset := 0 }

variable (e : NetworkElement)

/-- The bytes a later pass still looks at. -/
def buffered : Bytes := e.netBuffer.take e.netBufferUsed

/-- `write_buffer[write_buffer_offset ..]`, not yet taken by the kernel. -/
def pending : Bytes := e.writeBuffer.drop e.writeBufferOffset

def store (bs : Bytes) : NetworkElement :=
  { e with
    netBuffer := e.netBuffer.take e.netBufferUsed ++ bs ++
      e.netBuffer.drop (e.netBufferUsed + bs.length)
    netBufferUsed := e.netBufferUsed + bs.length }

def storeWhole (bs : Bytes) : NetworkElement :=
  { e with netBuffer := bs ++ e.netBuffer.drop bs.length, netBufferUsed := bs.length }

variable {e}

theorem buffered_length (h : e.netBufferUsed ≤ e.netBuffer.length) :
    e.buffered.length = e.netBufferUsed := by
  rw [buffered, List.length_take, min_eq_left h]

theorem buffered_store (h : e.netBufferUsed ≤ e.netBuffer.length) (bs : Bytes) :
    (e.store bs).buffered = e.buffered ++ bs := by
  have hl : (e.netBuffer.take e.netBufferUsed ++ bs).length = e.netBufferUsed + bs.length := by
    rw [List.length_append, List.length_take, min_eq_left h]
  simp only [buffered, store]
  rw [List.take_append_of_le_length (by omega), List.take_of_length_le (by omega)]

theorem store_used_le (h : e.netBufferUsed ≤ e.netBuffer.length) (bs : Bytes) :
    (e.store bs).netBufferUsed ≤ (e.store bs).netBuffer.length := by
  simp only [store, List.length_append, List.length_take, List.length_drop]
  omega

/-- The header in `net_buffer` is the one at the start of the buffered bytes. -/
theorem getPayloadSize_netBuffer (h : e.netBufferUsed ≤ e.netBuffer.length)
    (h6 : packetHeaderSize ≤ e.netBufferUsed) :
    getPayloadSize e.netBuffer = getPayloadSize e.buffered := by
  have hl := buffered_length h
  conv_lhs => rw [← List.take_append_drop e.netBufferUsed e.netBuffer]
  exact getPayloadSize_append _ _ (by rw [← buffered, hl]; exact h6)

theorem getPacketType_netBuffer (h : e.netBufferUsed ≤ e.netBuffer.length)
    (h6 : packetHeaderSize ≤ e.netBufferUsed) :
    getPacketType e.netBuffer = getPacketType e.buffered := by
  have hl := buffered_length h
  conv_lhs => rw [← List.take_append_drop e.netBufferUsed e.netBuffer]
  exact getPacketType_append _ _ (by rw [← buffered, hl]; exact h6)

end NetworkElement

end VNet.NetQueue
