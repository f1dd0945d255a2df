import VNet.Common.BlockingReads
import VNet.NetQueue.WholeFrames

namespace VNet.Common
open Protocol NetQueue

def headerOf (p : PacketType × Bytes) : Bytes := packetHeader (.ofNat p.2.length) p.1

@[simp] theorem getPacketType_headerOf (p : PacketType × Bytes) :
    getPacketType (headerOf p) = p.1 := by
  have h := getPacketType_packetHeader (.ofNat p.2.length) p.1 []
  rwa [List.append_nil] at h

theorem getPayloadSize_headerOf {p : PacketType × Bytes} (hp : p.2.length ≤ payloadMax) :
    (getPayloadSize (headerOf p)).toNat = p.2.length := by
  have h := getPayloadSize_packetHeader (.ofNat p.2.length) p.1 []
  rw [List.append_nil] at h
  have hlt : p.2.length < 2 ^ 32 := hp.trans_lt (by decide)
  rw [headerOf, h, UInt32.toNat_ofNat', Nat.mod_eq_of_lt hlt]

theorem frames_cons (p : PacketType × Bytes) (ms : List (PacketType × Bytes)) :
    frames (p :: ms) = headerOf p ++ (p.2 ++ frames ms) :=
  List.append_assoc _ _ _

theorem frames_cons_length (p : PacketType × Bytes) (ms : List (PacketType × Bytes)) :
    (frames (p :: ms)).length = packetHeaderSize + (p.2.length + (frames ms).length) := by
  rw [frames_cons, List.length_append, List.length_append]
  rfl

section
variable {rs : List BlockingRead} (hrs : ∀ r ∈ rs, r ≠ .failed)
include hrs

theorem readHeader_gives (p : PacketType × Bytes) (rest : Bytes) (closed : Bool) :
    (readNBytes packetHeaderSize rs [] ⟨headerOf p ++ rest, closed⟩).Gives rs packetHeaderSize
      (some (headerOf p)) ⟨rest, closed⟩ :=
  readNBytes_gives hrs (by rfl) rest closed

theorem readPayload_gives {p : PacketType × Bytes} (hp : p.2.length ≤ payloadMax) (rest : Bytes)
    (closed : Bool) :
    (readNBytes (getPayloadSize (headerOf p)).toNat rs [] ⟨p.2 ++ rest, closed⟩).Gives rs p.2.length
      (some p.2) ⟨rest, closed⟩ := by
  rw [getPayloadSize_headerOf hp]
  exact readNBytes_gives hrs (Nat.zero_add _) rest closed

end

theorem suffix_not_failed {rs rest : List BlockingRead} (hrs : ∀ r ∈ rs, r ≠ .failed)
    (hrest : rest <:+ rs) : ∀ r ∈ rest, r ≠ BlockingRead.failed :=
  fun r hr => hrs r (hrest.subset hr)

/-- The first header that is not a heartbeat's. -/
def firstHeader (rs : List BlockingRead) (s : Socket) : ReadCall Bytes :=
  (readNBytes packetHeaderSize rs [] s).andThen fun header rs s =>
    skipHeartbeats (rs.length + 1) header rs s

theorem skipHeartbeats_headerOf {p : PacketType × Bytes} (hp : p.1 ≠ .heartbeat)
    (rs : List BlockingRead) (s : Socket) :
    skipHeartbeats (rs.length + 1) (headerOf p) rs s = .returned (some (headerOf p)) rs s := by
  rw [skipHeartbeats_eq, if_neg (by rwa [getPacketType_headerOf])]

theorem skipHeartbeats_heartbeat {p : PacketType × Bytes} (hp : p.1 = .heartbeat)
    (rs : List BlockingRead) (s : Socket) :
    skipHeartbeats (rs.length + 1) (headerOf p) rs s =
      (readNBytes (getPayloadSize (headerOf p)).toNat rs [] s).andThen fun _ rs s =>
        firstHeader rs s := by
  rw [skipHeartbeats_eq, if_pos (by rwa [getPacketType_headerOf])]
  rfl

/-- The loop takes the leading heartbeats, all of each, and one header more. -/
theorem firstHeader_gives {rs : List BlockingRead} (hrs : ∀ r ∈ rs, r ≠ .failed)
    {beats : List (PacketType × Bytes)} (hbeats : ∀ q ∈ beats, q.1 = .heartbeat)
    (hfit : ∀ q ∈ beats, q.2.length ≤ payloadMax) {p : PacketType × Bytes} (hp : p.1 ≠ .heartbeat)
    (rest : Bytes) (closed : Bool) :
    (firstHeader rs ⟨frames beats ++ (headerOf p ++ rest), closed⟩).Gives rs
      ((frames beats).length + packetHeaderSize) (some (headerOf p)) ⟨rest, closed⟩ := by
  induction beats generalizing rs with
  | nil =>
    have hskip : ∀ rs', rs' <:+ rs → (skipHeartbeats (rs'.length + 1) (headerOf p) rs'
        ⟨rest, closed⟩).Gives rs' 0 (some (headerOf p)) ⟨rest, closed⟩ := by
      intro rs' _
      rw [skipHeartbeats_headerOf hp]
      exact ReadCall.gives_returned _ _ _
    exact ((readHeader_gives hrs p rest closed).andThen hskip).mono (Nat.le_add_left _ _)
  | cons q beats ih =>
    obtain ⟨hq, hbeats⟩ := List.forall_mem_cons.mp hbeats
    obtain ⟨hqfit, hfit⟩ := List.forall_mem_cons.mp hfit
    rw [frames_cons, List.append_assoc, List.append_assoc]
    have hskip : ∀ rs', rs' <:+ rs → (skipHeartbeats (rs'.length + 1) (headerOf q) rs'
        ⟨q.2 ++ (frames beats ++ (headerOf p ++ rest)), closed⟩).Gives rs'
        (q.2.length + ((frames beats).length + packetHeaderSize)) (some (headerOf p))
        ⟨rest, closed⟩ := by
      intro rs' h'
      have hrs' := suffix_not_failed hrs h'
      rw [skipHeartbeats_heartbeat hq]
      exact (readPayload_gives hrs' hqfit _ closed).andThen fun rs'' h'' =>
        ih (suffix_not_failed hrs' h'') hbeats hfit
    refine ((readHeader_gives hrs q _ closed).andThen hskip).mono ?_
    rw [List.length_append, List.length_append]
    have hlen : (headerOf q).length = packetHeaderSize := rfl
    omega

/-- Behind nothing but heartbeats the loop waits for another header. -/
theorem firstHeader_starves {rs : List BlockingRead} (hrs : ∀ r ∈ rs, r ≠ .failed)
    {beats : List (PacketType × Bytes)} (hbeats : ∀ q ∈ beats, q.1 = .heartbeat)
    (hfit : ∀ q ∈ beats, q.2.length ≤ payloadMax) (closed : Bool) :
    (firstHeader rs ⟨frames beats, closed⟩).Starves rs ((frames beats).length + 1) closed := by
  induction beats generalizing rs with
  | nil => exact (readNBytes_starves hrs (by decide) closed).andThen
  | cons q beats ih =>
    obtain ⟨hq, hbeats⟩ := List.forall_mem_cons.mp hbeats
    obtain ⟨hqfit, hfit⟩ := List.forall_mem_cons.mp hfit
    have hskip : ∀ rs', rs' <:+ rs → (skipHeartbeats (rs'.length + 1) (headerOf q) rs'
        ⟨q.2 ++ frames beats, closed⟩).Starves rs' (q.2.length + ((frames beats).length + 1))
        closed := by
      intro rs' h'
      have hrs' := suffix_not_failed hrs h'
      rw [skipHeartbeats_heartbeat hq]
      exact (readPayload_gives hrs' hqfit _ closed).andThen_starves fun rs'' h'' =>
        ih (suffix_not_failed hrs' h'') hbeats hfit
    rw [frames_cons_length, frames_cons]
    rw [Nat.add_assoc, Nat.add_assoc]
    exact (readHeader_gives hrs q _ closed).andThen_starves hskip

def answer {M : Type} (c : MessageCodec M) (default : M) (expected : PacketType)
    (p : PacketType × Bytes) : Option M :=
  if p.1 ≠ expected then none else if p.2 = [] then some default else c.parseFromArray p.2

theorem readProtobufPacket_eq {M : Type} (c : MessageCodec M) (default : M) (expected : PacketType)
    (rs : List BlockingRead) (s : Socket) :
    readProtobufPacket c default expected rs s = (firstHeader rs s).andThen fun header rs s =>
      if getPacketType header ≠ expected then .returned none rs s
      else if (getPayloadSize header).toNat = 0 then .returned (some default) rs s
      else (readNBytes (getPayloadSize header).toNat rs [] s).andThen fun buf rs s =>
        .returned (c.parseFromArray buf) rs s := by
  rw [firstHeader, ReadCall.andThen_assoc]
  rfl

section
variable {M : Type} (c : MessageCodec M) (default : M) (expected : PacketType)
  {rs : List BlockingRead} (hrs : ∀ r ∈ rs, r ≠ .failed) {beats : List (PacketType × Bytes)}
  (hbeats : ∀ q ∈ beats, q.1 = .heartbeat) (hfit : ∀ q ∈ beats, q.2.length ≤ payloadMax)
include hrs hbeats hfit

/-- The first packet that is no heartbeat decides. Of a packet of another type
the payload is not read. -/
theorem readProtobufPacket_gives {p : PacketType × Bytes} (hp : p.1 ≠ .heartbeat)
    (hpfit : p.2.length ≤ payloadMax) (rest : Bytes) (closed : Bool) :
    (readProtobufPacket c default expected rs
      ⟨frames beats ++ (headerOf p ++ (p.2 ++ rest)), closed⟩).Gives rs
        ((frames beats).length + packetHeaderSize + p.2.length) (answer c default expected p)
        ⟨if p.1 ≠ expected then p.2 ++ rest else rest, closed⟩ := by
  rw [readProtobufPacket_eq]
  refine (firstHeader_gives hrs hbeats hfit hp (p.2 ++ rest) closed).andThen fun rs' h' => ?_
  rw [getPacketType_headerOf, answer]
  have hrs' := suffix_not_failed hrs h'
  split_ifs with htype hsize hempty hempty
  · exact (ReadCall.gives_returned _ _ _).mono (Nat.zero_le _)
  · rw [hempty]
    exact ReadCall.gives_returned _ _ _
  · rw [getPayloadSize_headerOf hpfit, List.length_eq_zero_iff] at hsize
    exact absurd hsize hempty
  · rw [getPayloadSize_headerOf hpfit, hempty] at hsize
    exact absurd rfl hsize
  · exact (readPayload_gives hrs' hpfit rest closed).andThen (m := 0) fun rs'' _ =>
      ReadCall.gives_returned _ _ _

theorem readProtobufPacket_starves (closed : Bool) :
    (readProtobufPacket c default expected rs ⟨frames beats, closed⟩).Starves rs
      ((frames beats).length + 1) closed := by
  rw [readProtobufPacket_eq]
  exact (firstHeader_starves hrs hbeats hfit closed).andThen

end

theorem readRawPacket_eq (rs : List BlockingRead) (s : Socket) :
    readRawPacket rs s = (readNBytes packetHeaderSize rs [] s).andThen fun header rs s =>
      (readNBytes (getPayloadSize header).toNat rs [] s).andThen fun buffer rs s =>
        .returned (some (getPacketType header, buffer)) rs s := by
  apply ReadCall.andThen_congr
  intro header rest s' _
  dsimp only
  split_ifs with hlen
  · rfl
  · rw [readNBytes_full (Nat.le_of_not_lt hlen)]
    rfl

theorem readRawPacket_gives {rs : List BlockingRead} (hrs : ∀ r ∈ rs, r ≠ .failed)
    {p : PacketType × Bytes} (hp : p.2.length ≤ payloadMax) (rest : Bytes) (closed : Bool) :
    (readRawPacket rs ⟨headerOf p ++ (p.2 ++ rest), closed⟩).Gives rs
      (packetHeaderSize + p.2.length) (some p) ⟨rest, closed⟩ := by
  rw [readRawPacket_eq]
  refine (readHeader_gives hrs p _ closed).andThen fun rs' h' => ?_
  rw [getPacketType_headerOf]
  exact (readPayload_gives (suffix_not_failed hrs h') hp rest closed).andThen (m := 0)
    fun rs'' _ => ReadCall.gives_returned _ _ _

/-- Calls of `read_raw_packet` read the packets of the stream one by one. -/
theorem readRawPackets_frames {rs : List BlockingRead} (hrs : ∀ r ∈ rs, r ≠ .failed)
    {ms : List (PacketType × Bytes)} (hfit : ∀ m ∈ ms, m.2.length ≤ payloadMax) (closed : Bool)
    (k : ℕ) :
    readRawPackets k rs ⟨frames ms, closed⟩ <+: ms ∧
      ((frames ms).length ≤ served rs → readRawPackets k rs ⟨frames ms, closed⟩ = ms.take k) := by
  induction k generalizing rs ms with
  | zero => exact ⟨List.nil_prefix, fun _ => rfl⟩
  | succ k ih =>
    unfold readRawPackets
    cases ms with
    | nil =>
      have hstarves : (readRawPacket rs ⟨frames [], closed⟩).Starves rs 1 closed :=
        (readNBytes_starves hrs (by decide) closed).andThen
      rcases hstarves with ⟨hwait, -⟩ | ⟨rest, s, hret⟩
      · rw [hwait]
        exact ⟨List.nil_prefix, fun _ => rfl⟩
      · rw [hret]
        exact ⟨List.nil_prefix, fun _ => rfl⟩
    | cons p ms =>
      obtain ⟨hp, hfit⟩ := List.forall_mem_cons.mp hfit
      rw [frames_cons_length, frames_cons]
      rcases readRawPacket_gives hrs hp (frames ms) closed with
        ⟨hwait, hfew⟩ | ⟨rest, hret, hsuffix, hserved⟩
      · rw [hwait]
        exact ⟨List.nil_prefix, fun henough => by omega⟩
      · rw [hret]
        obtain ⟨hbefore, hall⟩ := ih (suffix_not_failed hrs hsuffix) hfit
        refine ⟨List.cons_prefix_cons.mpr ⟨rfl, hbefore⟩, fun henough => ?_⟩
        dsimp only
        rw [hall (by omega), List.take_succ_cons]

/-- The first of these packets that is no heartbeat has the expected type, and
`m` is its message; `rest` come after it. -/
def Answers {M : Type} (c : MessageCodec M) (default : M) (expected : PacketType)
    (ms : List (PacketType × Bytes)) (m : M) (rest : List (PacketType × Bytes)) : Prop :=
  ∃ beats body, ms = beats ++ (expected, body) :: rest ∧ (∀ q ∈ beats, q.1 = .heartbeat) ∧
    (if body = [] then some default else c.parseFromArray body) = some m

/-- Heartbeats only, or a first packet that is none. -/
theorem heartbeats_or_first (ms : List (PacketType × Bytes)) :
    (∀ q ∈ ms, q.1 = .heartbeat) ∨ ∃ beats p rest, ms = beats ++ p :: rest ∧
      (∀ q ∈ beats, q.1 = PacketType.heartbeat) ∧ p.1 ≠ .heartbeat := by
  induction ms with
  | nil => exact Or.inl (by simp)
  | cons p ms ih =>
    by_cases hp : p.1 = .heartbeat
    · rcases ih with hall | ⟨beats, q, rest, rfl, hbeats, hq⟩
      · exact Or.inl (List.forall_mem_cons.mpr ⟨hp, hall⟩)
      · exact Or.inr ⟨p :: beats, q, rest, rfl, List.forall_mem_cons.mpr ⟨hp, hbeats⟩, hq⟩
    · exact Or.inr ⟨[], p, ms, rfl, by simp, hp⟩

section
variable {M : Type} {c : MessageCodec M} {default : M} {expected : PacketType}
  {rs : List BlockingRead} (hrs : ∀ r ∈ rs, r ≠ .failed) {ms : List (PacketType × Bytes)}
  (hfit : ∀ m ∈ ms, m.2.length ≤ payloadMax) {closed : Bool}
include hrs hfit

/-- The call on a stream whose first packet that is no heartbeat is `p`. -/
theorem readProtobufPacket_first (c : MessageCodec M) (default : M) (expected : PacketType)
    (closed : Bool) {beats rest : List (PacketType × Bytes)} {p : PacketType × Bytes}
    (hms : ms = beats ++ p :: rest) (hbeats : ∀ q ∈ beats, q.1 = .heartbeat)
    (hp : p.1 ≠ .heartbeat) :
    (readProtobufPacket c default expected rs ⟨frames ms, closed⟩).Gives rs (frames ms).length
      (answer c default expected p)
      ⟨if p.1 ≠ expected then p.2 ++ frames rest else frames rest, closed⟩ := by
  have hfit' : (∀ q ∈ beats, q.2.length ≤ payloadMax) ∧ p.2.length ≤ payloadMax := by
    subst hms
    exact ⟨fun q hq => hfit q (List.mem_append_left _ hq), hfit p (by simp)⟩
  rw [hms, frames_append, frames_cons]
  have hgives := readProtobufPacket_gives c default expected hrs hbeats hfit'.1 hp hfit'.2
    (frames rest) closed
  refine hgives.mono ?_
  rw [List.length_append, List.length_append, List.length_append]
  have hlen : (headerOf p).length = packetHeaderSize := rfl
  omega

/-- A call that has returned when the packet `p` decides. -/
theorem readProtobufPacket_eq_answer {beats rest : List (PacketType × Bytes)}
    {p : PacketType × Bytes} (hms : ms = beats ++ p :: rest)
    (hbeats : ∀ q ∈ beats, q.1 = .heartbeat) (hp : p.1 ≠ .heartbeat) {result : Option M}
    {rest' : List BlockingRead} {s' : Socket}
    (hret : readProtobufPacket c default expected rs ⟨frames ms, closed⟩ =
      .returned result rest' s') :
    result = answer c default expected p ∧
      s' = ⟨if p.1 ≠ expected then p.2 ++ frames rest else frames rest, closed⟩ := by
  rcases readProtobufPacket_first hrs hfit c default expected closed hms hbeats hp with
    ⟨hwait, -⟩ | ⟨rest'', hret', -, -⟩
  · rw [hwait] at hret
    exact absurd hret (by simp)
  · rw [hret'] at hret
    obtain ⟨hresult, -, hs⟩ := ReadCall.returned.inj hret
    exact ⟨hresult.symm, hs.symm⟩

/-- Where there is an answer the call returns it, and has taken the heartbeats
and the packet it is in, and nothing of the packets after it. -/
theorem Answers.returned (hexp : expected ≠ .heartbeat) {m : M}
    {rest : List (PacketType × Bytes)} (h : Answers c default expected ms m rest)
    {result : Option M} {rest' : List BlockingRead} {s' : Socket}
    (hret : readProtobufPacket c default expected rs ⟨frames ms, closed⟩ =
      .returned result rest' s') :
    result = some m ∧ s' = ⟨frames rest, closed⟩ := by
  obtain ⟨beats, body, hms, hbeats, hbody⟩ := h
  obtain ⟨hresult, hs⟩ := readProtobufPacket_eq_answer hrs hfit hms hbeats hexp hret
  refine ⟨hresult.trans ?_, hs.trans ?_⟩
  · rw [answer, if_neg (not_not_intro rfl)]
    exact hbody
  · rw [if_neg (not_not_intro rfl)]

/-- A message that was returned is the answer in the stream. -/
theorem answers_of_returned {m : M} {rest' : List BlockingRead} {s' : Socket}
    (hret : readProtobufPacket c default expected rs ⟨frames ms, closed⟩ =
      .returned (some m) rest' s') :
    ∃ rest, Answers c default expected ms m rest := by
  rcases heartbeats_or_first ms with hall | ⟨beats, p, rest, hms, hbeats, hp⟩
  · rcases readProtobufPacket_starves c default expected hrs hall hfit closed with
      ⟨hwait, -⟩ | ⟨rest, s, hfalse⟩
    · rw [hwait] at hret
      exact absurd hret (by simp)
    · rw [hfalse] at hret
      exact absurd hret (by simp)
  · obtain ⟨hresult, -⟩ := readProtobufPacket_eq_answer hrs hfit hms hbeats hp hret
    rw [answer] at hresult
    split_ifs at hresult with htype hempty
    · refine ⟨rest, beats, p.2, ?_, hbeats, ?_⟩
      · rw [← not_not.mp htype]
        exact hms
      · rw [if_pos hempty]
        exact hresult.symm
    · refine ⟨rest, beats, p.2, ?_, hbeats, ?_⟩
      · rw [← not_not.mp htype]
        exact hms
      · rw [if_neg hempty]
        exact hresult.symm

/-- With reads for every byte of it the call returns, unless it waits for the
peer behind nothing but heartbeats. -/
theorem readProtobufPacket_returns (hserved : (frames ms).length < served rs)
    (hend : closed = true ∨ ∃ q ∈ ms, q.1 ≠ .heartbeat) :
    readProtobufPacket c default expected rs ⟨frames ms, closed⟩ ≠ .waiting := by
  intro hwaiting
  rcases heartbeats_or_first ms with hall | ⟨beats, p, rest, hms, hbeats, hp⟩
  · have hclosed : closed = true := hend.resolve_right fun ⟨q, hq, hne⟩ => hne (hall q hq)
    rcases readProtobufPacket_starves c default expected hrs hall hfit closed with
      ⟨-, hfew⟩ | ⟨rest, s, hfalse⟩
    · exact absurd (hfew hclosed) (by omega)
    · rw [hfalse] at hwaiting
      exact absurd hwaiting (by simp)
  · obtain ⟨rest', hret, -⟩ := (readProtobufPacket_first hrs hfit c default expected closed hms
      hbeats hp).returns hserved.le
    rw [hret] at hwaiting
    exact absurd hwaiting (by simp)

end

/-- Both readers on one stream of frames, however the kernel divides it:
`read_protobuf_packet` returns true just when the first packet that is no
heartbeat answers, and leaves to `NetQueue::process` exactly the packets after
it; `read_raw_packet` reads what `process` would hand over. -/
theorem blocking_reads_agree {M : Type} (c : MessageCodec M) (default : M)
    {expected : PacketType} (hexp : expected ≠ .heartbeat) {ms : List (PacketType × Bytes)}
    (hfit : ∀ m ∈ ms, m.2.length ≤ payloadMax) (closed : Bool) {rs : List BlockingRead}
    (hrs : ∀ r ∈ rs, r ≠ .failed) :
    (∀ result rest' s', readProtobufPacket c default expected rs ⟨frames ms, closed⟩ =
        .returned result rest' s' →
      (result.isSome = true ↔ ∃ m rest, Answers c default expected ms m rest) ∧
        ∀ m, result = some m → ∃ rest, Answers c default expected ms m rest ∧
          s' = ⟨frames rest, closed⟩ ∧ Delivers s' rest) ∧
    ((frames ms).length < served rs → (closed = true ∨ ∃ q ∈ ms, q.1 ≠ .heartbeat) →
      readProtobufPacket c default expected rs ⟨frames ms, closed⟩ ≠ .waiting) ∧
    (∀ k, readRawPackets k rs ⟨frames ms, closed⟩ <+: ms ∧ ((frames ms).length ≤ served rs →
      readRawPackets k rs ⟨frames ms, closed⟩ = ms.take k)) ∧
    Delivers ⟨frames ms, closed⟩ ms := by
  refine ⟨fun result rest' s' hret => ⟨⟨fun hsome => ?_, fun h => ?_⟩, fun m hm => ?_⟩,
    readProtobufPacket_returns hrs hfit, readRawPackets_frames hrs hfit closed,
    delivers_frames hfit closed⟩
  · obtain ⟨m, rfl⟩ := Option.isSome_iff_exists.mp hsome
    exact ⟨m, answers_of_returned hrs hfit hret⟩
  · obtain ⟨m, rest, hanswers⟩ := h
    rw [(hanswers.returned hrs hfit hexp hret).1]
    rfl
  · subst hm
    obtain ⟨rest, hanswers⟩ := answers_of_returned hrs hfit hret
    obtain ⟨-, rfl⟩ := hanswers.returned hrs hfit hexp hret
    have hrest : ∀ q ∈ rest, q.2.length ≤ payloadMax := by
      obtain ⟨beats, body, rfl, -⟩ := hanswers
      exact fun q hq => hfit q (by simp [hq])
    exact ⟨rest, hanswers, rfl, delivers_frames hrest closed⟩

/-- An assignment behind a heartbeat with a payload, the first header in two
reads with a signal between them. -/
theorem blocking_reads_agree_assignment :
    let c : MessageCodec ℕ := .ofTable [(5, [7, 8])]
    let ms : List (PacketType × Bytes) := [(.heartbeat, [9]), (.connectToSwitch, [7, 8]),
      (.heartbeat, []), (.agentMrp, [1])]
    let rs : List BlockingRead := [.upTo 2, .eintr, .upTo 90, .upTo 0, .upTo 5, .upTo 0, .upTo 0]
    let s' : Socket := ⟨frames [(.heartbeat, []), (.agentMrp, [1])], false⟩
    PacketType.connectToSwitch ≠ .heartbeat ∧ (∀ m ∈ ms, m.2.length ≤ payloadMax) ∧
      (∀ r ∈ rs, r ≠ .failed) ∧
      readProtobufPacket c 0 .connectToSwitch rs ⟨frames ms, false⟩ = .returned (some 5) [] s' ∧
      ∃ rest, Answers c 0 .connectToSwitch ms 5 rest ∧ s' = ⟨frames rest, false⟩ ∧
        Delivers s' rest := by
  intro c ms rs s'
  have hexp : PacketType.connectToSwitch ≠ .heartbeat := by decide
  have hfit : ∀ m ∈ ms, m.2.length ≤ payloadMax := by decide
  have hrs : ∀ r ∈ rs, r ≠ .failed := by decide
  have hret : readProtobufPacket c 0 .connectToSwitch rs ⟨frames ms, false⟩ =
      .returned (some 5) [] s' := by decide
  exact ⟨hexp, hfit, hrs, hret,
    ((blocking_reads_agree c 0 hexp hfit false hrs).1 _ _ _ hret).2 5 rfl⟩

end VNet.Common
