import VNet.Dispatch
import VNet.NetQueue.Process
import VNet.NetQueue.Write

namespace VNet.Common
open Protocol NetQueue

/-- How a call that writes straight to a descriptor went; `returned` is `none`
while it still waits for an answer of the kernel. -/
structure RawOutcome where
  returned : Option Bool
  calls : List WriteCall
  rest : List WriteResult
  deriving DecidableEq, Repr

namespace RawOutcome

def accepted (o : RawOutcome) : Bytes := o.calls.flatMap WriteCall.taken

def after (ws : List WriteCall) (o : RawOutcome) : RawOutcome := { o with calls := ws ++ o.calls }

@[simp] theorem accepted_after (ws : List WriteCall) (o : RawOutcome) :
    (o.after ws).accepted = ws.flatMap WriteCall.taken ++ o.accepted :=
  List.flatMap_append

end RawOutcome

/-- `write_n_bytes`; `data` is what is left from `ptr + total` on. `EAGAIN` is
waited out, as `EINTR` is. -/
def writeNBytes : List WriteResult → Bytes → RawOutcome
  | rs, data =>
    if data = [] then ⟨some true, [], rs⟩
    else match rs with
      | [] => ⟨none, [], []⟩
      | .eintr :: rs => (writeNBytes rs data).after [⟨data, .eintr⟩]
      | .eagain :: rs => (writeNBytes rs data).after [⟨data, .eagain⟩]
      | .failed :: rs => ⟨some false, [⟨data, .failed⟩], rs⟩
      | .accepted 0 :: rs => ⟨some false, [⟨data, .accepted 0⟩], rs⟩
      | .accepted (n + 1) :: rs =>
        (writeNBytes rs (data.drop (n + 1))).after [⟨data, .accepted (n + 1)⟩]

def sendProtobufPacket (rs : List WriteResult) (type : PacketType) (body : Option Bytes) :
    RawOutcome :=
  match body with
  | none => ⟨some false, [], rs⟩
  | some body =>
    let header := writeNBytes rs (packetHeader (.ofNat body.length) type)
    if header.returned = some true then
      if body = [] then header else (writeNBytes header.rest body).after header.calls
    else header

/-- What a `read()` on a blocking descriptor comes to: at most `n + 1` bytes, an
interruption, or another error. -/
inductive BlockingRead
  | upTo (n : ℕ)
  | eintr
  | failed
  deriving DecidableEq, Repr

def BlockingRead.isUpTo : BlockingRead → Bool
  | upTo _ => true
  | _ => false

/-- How a call that reads from a blocking descriptor went: it still waits, or it
returned, with what it read or false (`none`). `rest` are the kernel's answers
it did not use. -/
inductive ReadCall (α : Type)
  | waiting
  | returned (result : Option α) (rest : List BlockingRead) (socket : Socket)
  deriving DecidableEq, Repr

def ReadCall.andThen {α β : Type} (call : ReadCall α)
    (next : α → List BlockingRead → Socket → ReadCall β) : ReadCall β :=
  match call with
  | waiting => waiting
  | returned none rest socket => returned none rest socket
  | returned (some a) rest socket => next a rest socket

/-- `read_n_bytes`; `got` is what lies in the buffer up to `ptr + total`. A
`read()` with nothing to give waits. -/
def readNBytes (n : ℕ) : List BlockingRead → Bytes → Socket → ReadCall Bytes
  | rs, got, s =>
    if n ≤ got.length then .returned (some got) rs s
    else match rs with
      | [] => .waiting
      | .eintr :: rs => readNBytes n rs got s
      | .failed :: rs => .returned none rs s
      | .upTo k :: rs =>
        match s.read (n - got.length) (.upTo k) with
        | (.bytes [], s') => .returned none rs s'
        | (.bytes (b :: bs), s') => readNBytes n rs (got ++ b :: bs) s'
        | (_, _) => .waiting

/-- The `while` loop of `read_protobuf_packet`, for a number of rounds. -/
def skipHeartbeats : ℕ → Bytes → List BlockingRead → Socket → ReadCall Bytes
  | 0, _, _, _ => .waiting
  | rounds + 1, header, rs, s =>
    if getPacketType header = .heartbeat then
      let len := (getPayloadSize header).toNat
      (if 0 < len then readNBytes len rs [] s else .returned (some []) rs s).andThen fun _ rs s =>
        (readNBytes packetHeaderSize rs [] s).andThen fun header rs s =>
          skipHeartbeats rounds header rs s
    else .returned (some header) rs s

/-- `read_protobuf_packet`; `default` is the message after `Clear`. Every round
of the loop reads a header, so there are no more rounds than answers. -/
def readProtobufPacket {M : Type} (c : MessageCodec M) (default : M) (expected : PacketType)
    (rs : List BlockingRead) (s : Socket) : ReadCall M :=
  (readNBytes packetHeaderSize rs [] s).andThen fun header rs s =>
    (skipHeartbeats (rs.length + 1) header rs s).andThen fun header rs s =>
      let len := (getPayloadSize header).toNat
      if getPacketType header ≠ expected then .returned none rs s
      else if len = 0 then .returned (some default) rs s
      else (readNBytes len rs [] s).andThen fun buf rs s =>
        .returned (c.parseFromArray buf) rs s

def readRawPacket (rs : List BlockingRead) (s : Socket) : ReadCall (PacketType × Bytes) :=
  (readNBytes packetHeaderSize rs [] s).andThen fun header rs s =>
    let len := (getPayloadSize header).toNat
    if 0 < len then (readNBytes len rs [] s).andThen fun buffer rs s =>
      .returned (some (getPacketType header, buffer)) rs s
    else .returned (some (getPacketType header, [])) rs s

def readRawPackets : ℕ → List BlockingRead → Socket → List (PacketType × Bytes)
  | 0, _, _ => []
  | k + 1, rs, s =>
    match readRawPacket rs s with
    | .returned (some p) rs' s' => p :: readRawPackets k rs' s'
    | _ => []

/-- The loop ends well only when the kernel has taken everything. -/
theorem writeNBytes_accepted {rs : List WriteResult} {data : Bytes}
    (h : (writeNBytes rs data).returned = some true) : (writeNBytes rs data).accepted = data := by
  induction rs generalizing data with
  | nil =>
    unfold writeNBytes at h ⊢
    split_ifs with hd
    · exact hd.symm
    · simp [hd] at h
  | cons r rs ih =>
    unfold writeNBytes at h ⊢
    by_cases hd : data = []
    · rw [if_pos hd]
      exact hd.symm
    · rw [if_neg hd] at h ⊢
      match r with
      | .eintr => exact ih h
      | .eagain => exact ih h
      | .failed => simp at h
      | .accepted 0 => simp at h
      | .accepted (n + 1) =>
        have hrest : (writeNBytes rs (data.drop (n + 1))).accepted = data.drop (n + 1) := ih h
        simp only [RawOutcome.accepted_after, hrest, WriteCall.taken, List.flatMap_cons,
          List.flatMap_nil, List.append_nil, List.take_append_drop]

/-- A packet reported as sent is in the kernel as its whole frame. -/
theorem sendProtobufPacket_accepted {rs : List WriteResult} {type : PacketType}
    {body : Option Bytes} (h : (sendProtobufPacket rs type body).returned = some true) :
    ∃ b, body = some b ∧ (sendProtobufPacket rs type body).accepted = frame type b := by
  cases body with
  | none => simp [sendProtobufPacket] at h
  | some b =>
    refine ⟨b, rfl, ?_⟩
    simp only [sendProtobufPacket] at h ⊢
    split_ifs at h ⊢ with hheader hb
    · rw [writeNBytes_accepted hheader, frame, hb, List.append_nil]
    · rw [RawOutcome.accepted_after, writeNBytes_accepted h]
      exact congrArg (· ++ b) (writeNBytes_accepted hheader)
    · exact absurd h hheader

end VNet.Common
