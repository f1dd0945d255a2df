import VNet.Common.SocketUtils
import VNet.NetQueue.SendRuns

namespace VNet.Conductor
open Protocol NetQueue Common

/-- The packets `onAgentMIP` sends: to the agent, and to the chosen switch. -/
inductive Answer
  | connectToSwitch
  | agentConnectionToken
  deriving DecidableEq, Repr

def Answer.type : Answer → PacketType
  | connectToSwitch => .connectToSwitch
  | agentConnectionToken => .agentConnectionToken

inductive WriteOp
  | heartbeat (rs : List WriteResult)
  | packet (answer : Answer) (body : Option Bytes) (rs : List WriteResult)
  | flush (rs : List WriteResult)
  deriving DecidableEq, Repr

def WriteOp.given : WriteOp → Option (PacketType × Bytes)
  | heartbeat _ => some (.heartbeat, [])
  | packet answer body _ => body.map (answer.type, ·)
  | flush _ => none

/-- The element of a connection, and the bytes the kernel has accepted on it. -/
structure Connection where
  element : NetworkElement
  kernel : Bytes
  deriving DecidableEq, Repr

namespace Connection

def start (fd : Fd) (ptr : ℕ) : Connection := ⟨.new fd ptr .sckHeader, []⟩

def step (c : Connection) : WriteOp → Connection
  | .heartbeat rs =>
    ⟨(sendHeartbeat rs c.element).element, c.kernel ++ (sendHeartbeat rs c.element).accepted⟩
  | .packet answer body rs =>
    ⟨c.element, c.kernel ++ (sendProtobufPacket rs answer.type body).accepted⟩
  | .flush rs =>
    ⟨(flushWriteBuffer rs c.element).element, c.kernel ++ (flushWriteBuffer rs c.element).accepted⟩

def run (c : Connection) (ops : List WriteOp) : Connection := Runs.run step c ops

def returned (c : Connection) : WriteOp → Option Bool
  | .heartbeat rs => (sendHeartbeat rs c.element).returned
  | .packet answer body rs => (sendProtobufPacket rs answer.type body).returned
  | .flush rs => (flushWriteBuffer rs c.element).returned

def Succeeds (c : Connection) (op : WriteOp) : Prop := c.returned op = some true

instance (c : Connection) (op : WriteOp) : Decidable (Succeeds c op) :=
  inferInstanceAs (Decidable (_ = _))

/-- A direct packet finds the write buffer empty. -/
def Ordered (c : Connection) : WriteOp → Prop
  | .packet _ _ _ => c.element.writeBuffer = []
  | _ => True

instance (c : Connection) : ∀ op, Decidable (Ordered c op)
  | .packet _ _ _ => inferInstanceAs (Decidable (_ = _))
  | .heartbeat _ => inferInstanceAs (Decidable True)
  | .flush _ => inferInstanceAs (Decidable True)

/-- The frames of the calls are in the kernel, up to what waits in the write
buffer; only bytes of heartbeats do, and these are all zero. -/
structure Inv (c : Connection) (given : List (PacketType × Bytes)) : Prop where
  writeOk : WriteOk c.element
  stream_eq : c.kernel ++ c.element.pending = frames given
  zeros : ∀ b ∈ c.element.pending, b = 0

theorem Inv.start (fd : Fd) (ptr : ℕ) : Inv (start fd ptr) [] where
  writeOk := .new _ _ _
  stream_eq := rfl
  zeros b hb := by simp [Connection.start, NetworkElement.new, NetworkElement.pending] at hb

theorem heartbeat_zeros : ∀ b ∈ frame .heartbeat [], b = 0 := by
  have heq : frame .heartbeat [] = List.replicate 6 0 := rfl
  intro b hb
  rw [heq] at hb
  exact List.eq_of_mem_replicate hb

/-- What waits after a call waited before it or was added by it. -/
theorem zeros_of_commits {e : NetworkElement} {x : Bytes} {o : WriteOutcome} (h : Commits e x o)
    (he : ∀ b ∈ e.pending, b = 0) (hx : ∀ b ∈ x, b = 0) : ∀ b ∈ o.element.pending, b = 0 := by
  intro b hb
  have hmem : b ∈ e.pending ++ x := by
    rw [h.stream_eq]
    exact List.mem_append_right _ hb
  rcases List.mem_append.mp hmem with hb | hb
  · exact he b hb
  · exact hx b hb

theorem Inv.step {c : Connection} {given : List (PacketType × Bytes)} {op : WriteOp}
    (h : Inv c given) (hs : Succeeds c op) (ho : Ordered c op) :
    Inv (c.step op) (given ++ op.given.toList) := by
  cases op with
  | heartbeat rs =>
    obtain ⟨x, hx⟩ := sendHeartbeat_spec rs c.element h.writeOk
    obtain ⟨rfl, -⟩ := hx.sent hs
    refine ⟨hx.commits.writeOk, ?_, zeros_of_commits hx.commits h.zeros heartbeat_zeros⟩
    simp only [Connection.step, WriteOp.given, Option.toList_some, frames_append, frames_singleton]
    rw [List.append_assoc, ← hx.commits.stream_eq, ← List.append_assoc, h.stream_eq]
  | packet answer body rs =>
    obtain ⟨b, rfl, hacc⟩ := sendProtobufPacket_accepted hs
    -- nothing is pending, so writing past the buffer keeps the order
    have hnil : c.element.pending = [] := NetworkElement.pending_eq_nil ho
    have heq := h.stream_eq
    rw [hnil, List.append_nil] at heq
    refine ⟨h.writeOk, ?_, h.zeros⟩
    simp only [Connection.step, WriteOp.given, Option.map_some, Option.toList_some, frames_append,
      frames_singleton]
    rw [hacc, hnil, List.append_nil, heq]
  | flush rs =>
    obtain ⟨hc, -⟩ := flushWriteBuffer_spec rs c.element h.writeOk.offset_le h.writeOk.pending_le
    refine ⟨hc.writeOk, ?_, zeros_of_commits hc h.zeros (by simp)⟩
    have heq := hc.stream_eq
    rw [List.append_nil] at heq
    simp only [Connection.step, WriteOp.given, Option.toList_none, List.append_nil]
    rw [List.append_assoc, ← heq, h.stream_eq]

theorem filterMap_given_cons (op : WriteOp) (ops : List WriteOp) :
    (op :: ops).filterMap WriteOp.given = op.given.toList ++ ops.filterMap WriteOp.given := by
  cases h : op.given with
  | none => simp [h]
  | some m => simp [h]

theorem Inv.run {c : Connection} {given : List (PacketType × Bytes)} (h : Inv c given)
    {ops : List WriteOp} (hs : Runs.Steps Connection.step Succeeds c ops)
    (ho : Runs.Steps Connection.step Ordered c ops) :
    Inv (c.run ops) (given ++ ops.filterMap WriteOp.given) := by
  induction ops generalizing c given with
  | nil =>
    rw [List.filterMap_nil, List.append_nil]
    exact h
  | cons op ops ih =>
    rw [filterMap_given_cons, ← List.append_assoc]
    exact ih (h.step hs.1 ho.1) hs.2 ho.2

/-- A list that starts like itself behind zeros is all zeros. -/
theorem zeros_of_prefix_append {p f : Bytes} (hp : p ≠ []) (hz : ∀ b ∈ p, b = 0)
    (h : f <+: p ++ f) : ∀ b ∈ f, b = 0 := by
  have hlen := List.length_pos_iff.mpr hp
  have hget : ∀ i (hi : i < f.length), f[i] = 0 := by
    intro i
    induction i using Nat.strong_induction_on with
    | _ i ih =>
      intro hi
      rw [h.getElem hi]
      by_cases hip : i < p.length
      · rw [List.getElem_append_left hip]
        exact hz _ (List.getElem_mem hip)
      · rw [List.getElem_append_right (Nat.not_lt.mp hip)]
        exact ih _ (by omega) _
  intro b hb
  obtain ⟨i, hi, rfl⟩ := List.mem_iff_getElem.mp hb
  exact hget i hi

/-- Only a heartbeat's frame is all zeros. -/
theorem eq_heartbeat_of_zeros {t : PacketType} {body : Bytes} (h : ∀ b ∈ frame t body, b = 0) :
    t = .heartbeat := by
  have hbyte : ∀ l : Bytes, (∀ b ∈ l, b = 0) → ∀ i, byteAt l i = 0 := by
    intro l hl i
    rw [byteAt, List.getD_eq_getElem?_getD]
    cases hi : l[i]? with
    | none => rfl
    | some b =>
      rw [Option.getD_some, hl b (List.mem_of_getElem? hi)]
      rfl
  have htype : getPacketType (frame t body) = .heartbeat := by
    have hd : ∀ b ∈ (frame t body).drop 4, b = 0 := fun b hb => h b (List.mem_of_mem_drop hb)
    rw [getPacketType, ntohPacketType, hbyte _ hd, hbyte _ hd]
    rfl
  rw [← htype]
  exact (congrArg Prod.fst (packet_frame t body)).symm

theorem Inv.overtaken {c : Connection} {given : List (PacketType × Bytes)} {op : WriteOp}
    (h : Inv c given) (hs : Succeeds c op) (ho : ¬ Ordered c op) :
    ¬ (c.step op).kernel <+: frames (given ++ op.given.toList) := by
  cases op with
  | heartbeat rs => exact absurd trivial ho
  | flush rs => exact absurd trivial ho
  | packet answer body rs =>
    obtain ⟨b, rfl, hacc⟩ := sendProtobufPacket_accepted hs
    have hne : c.element.pending ≠ [] := fun hnil => ho (h.writeOk.writeBuffer_eq_nil.mpr hnil)
    intro hpre
    simp only [Connection.step, WriteOp.given, Option.map_some, Option.toList_some, frames_append,
      frames_singleton] at hpre
    rw [hacc, ← h.stream_eq, List.append_assoc] at hpre
    have hf := zeros_of_prefix_append hne h.zeros ((List.prefix_append_right_inj _).mp hpre)
    have ht := eq_heartbeat_of_zeros hf
    cases answer <;> simp [Answer.type] at ht

/-- With all calls reporting success, the kernel's bytes are at all times a
front of the frames of the calls, in their order, exactly when every packet sent
directly finds the write buffer empty. -/
theorem kernel_prefix_iff_ordered (fd : Fd) (ptr : ℕ) (ops : List WriteOp)
    (hs : Runs.Steps step Succeeds (start fd ptr) ops) :
    (∀ done, done <+: ops → ∀ k, k <+: ((start fd ptr).run done).kernel →
      k <+: frames (done.filterMap WriteOp.given)) ↔
    Runs.Steps step Ordered (start fd ptr) ops := by
  have hinv : ∀ done rest, ops = done ++ rest → Runs.Steps step Ordered (start fd ptr) done →
      Inv ((start fd ptr).run done) (done.filterMap WriteOp.given) := by
    rintro done rest rfl ho
    have h := (Inv.start fd ptr).run ((Runs.steps_append _ _ _).mp hs).1 ho
    rwa [List.nil_append] at h
  apply Runs.forall_prefix_iff
  · rintro done ⟨rest, hdone⟩ ho k hk
    rw [← (hinv done rest hdone.symm ho).stream_eq]
    exact hk.trans (List.prefix_append _ _)
  · rintro done op ⟨rest, rfl⟩ ho h
    by_contra hover
    rw [List.append_assoc, Runs.steps_append] at hs
    apply (hinv done ([op] ++ rest) (List.append_assoc _ _ _) ho).overtaken hs.2.1 hover
    have hpre := h _ List.prefix_rfl
    rw [List.filterMap_append, filterMap_given_cons, List.filterMap_nil, List.append_nil] at hpre
    rwa [run, Runs.run_concat] at hpre

theorem kernel_prefix_iff_ordered_buffered :
    let ops : List WriteOp := [.heartbeat [.accepted 2, .eagain], .flush [.accepted 4],
      .packet .connectToSwitch (some [8, 1]) [.accepted 6, .eagain, .accepted 2]]
    Runs.Steps step Succeeds (start 5 0) ops ∧ ∀ done, done <+: ops →
      ∀ k, k <+: ((start 5 0).run done).kernel → k <+: frames (done.filterMap WriteOp.given) := by
  intro ops
  have hs : Runs.Steps step Succeeds (start 5 0) ops := by decide
  exact ⟨hs, (kernel_prefix_iff_ordered 5 0 ops hs).mpr (by decide)⟩

/-- A heartbeat half in the kernel and half in the buffer is cut in two by the
packet that follows it. -/
theorem packet_tears_heartbeat :
    ¬ ∀ ops : List WriteOp, Runs.Steps step Succeeds (start 5 0) ops →
      ((start 5 0).run ops).kernel <+: frames (ops.filterMap WriteOp.given) := by
  intro h
  have hpre := h [.heartbeat [.accepted 2, .eagain],
    .packet .connectToSwitch (some [8, 1]) [.accepted 6, .accepted 2]] (by decide)
  exact absurd hpre (by decide)

end Connection

end VNet.Conductor
