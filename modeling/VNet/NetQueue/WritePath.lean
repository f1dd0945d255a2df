import VNet.Lib.Runs
import VNet.NetQueue.Write

namespace VNet.NetQueue
open Protocol

inductive BufferOp
  | send (data : Bytes) (rs : List WriteResult)
  | flush (rs : List WriteResult)
  deriving DecidableEq, Repr

namespace BufferOp

def outcome (e : NetworkElement) : BufferOp → WriteOutcome
  | send data rs => NetQueue.send rs e data
  | flush rs => flushWriteBuffer rs e

def data : BufferOp → Bytes
  | send data _ => data
  | flush _ => []

end BufferOp

structure Writer where
  element : NetworkElement
  kernel : Bytes
  deriving DecidableEq, Repr

namespace Writer

def start (e : NetworkElement) : Writer := ⟨e, []⟩

def step (w : Writer) (op : BufferOp) : Writer where
  element := (op.outcome w.element).element
  kernel := w.kernel ++ (op.outcome w.element).accepted

def run (w : Writer) (ops : List BufferOp) : Writer := Runs.run step w ops

def Succeeds (w : Writer) (op : BufferOp) : Prop := (op.outcome w.element).returned = some true

instance (w : Writer) (op : BufferOp) : Decidable (Succeeds w op) :=
  inferInstanceAs (Decidable (_ = _))

end Writer

def NetworkElement.Unwritten (e : NetworkElement) : Prop :=
  e.writeBuffer = [] ∧ e.writeBufferOffset = 0

instance (e : NetworkElement) : Decidable e.Unwritten :=
  inferInstanceAs (Decidable (_ ∧ _))

theorem NetworkElement.pending_length (e : NetworkElement) :
    e.pending.length = e.writeBuffer.length - e.writeBufferOffset := by
  rw [NetworkElement.pending, List.length_drop]

theorem NetworkElement.Unwritten.writeOk {e : NetworkElement} (h : e.Unwritten) : WriteOk e := by
  refine ⟨Or.inl h, ?_⟩
  rw [NetworkElement.pending_eq_nil h.1]
  exact Nat.zero_le _

/-- A call moves waiting bytes to the kernel and puts a front of its data behind
them; when it returns true, all of its data. -/
theorem BufferOp.outcome_spec (op : BufferOp) {e : NetworkElement} (hok : WriteOk e) :
    ∃ x, Commits e x (op.outcome e) ∧ x <+: op.data ∧
      ((op.outcome e).returned = some true → x = op.data) := by
  cases op with
  | send data rs =>
    obtain ⟨x, hx⟩ := send_spec rs e data hok
    exact ⟨x, hx.commits, hx.isPrefix, fun hr => (hx.sent hr).1⟩
  | flush rs =>
    obtain ⟨hc, -⟩ := flushWriteBuffer_spec rs e hok.offset_le hok.pending_le
    exact ⟨[], hc, List.prefix_rfl, fun _ => rfl⟩

namespace Writer

/-- What the kernel has accepted and what waits are together the bytes `sent`. -/
structure InOrder (w : Writer) (sent : Bytes) : Prop where
  writeOk : WriteOk w.element
  stream_eq : w.kernel ++ w.element.pending = sent

theorem InOrder.start {e : NetworkElement} (h : e.Unwritten) : InOrder (start e) [] where
  writeOk := h.writeOk
  stream_eq := NetworkElement.pending_eq_nil h.1

theorem InOrder.step {w : Writer} {sent : Bytes} (h : InOrder w sent) (op : BufferOp) :
    ∃ x, InOrder (w.step op) (sent ++ x) ∧ x <+: op.data ∧ (Succeeds w op → x = op.data) := by
  obtain ⟨x, hc, hpre, hall⟩ := op.outcome_spec h.writeOk
  refine ⟨x, ⟨hc.writeOk, ?_⟩, hpre, hall⟩
  calc (w.step op).kernel ++ (w.step op).element.pending
      = w.kernel ++ ((op.outcome w.element).accepted ++ (op.outcome w.element).element.pending) :=
        List.append_assoc _ _ _
    _ = (w.kernel ++ w.element.pending) ++ x := by rw [← hc.stream_eq, List.append_assoc]
    _ = sent ++ x := by rw [h.stream_eq]

theorem InOrder.run {w : Writer} {sent : Bytes} (h : InOrder w sent) {ops : List BufferOp}
    (hops : Runs.Steps Writer.step Succeeds w ops) :
    InOrder (w.run ops) (sent ++ ops.flatMap BufferOp.data) := by
  induction ops generalizing w sent with
  | nil => rwa [List.flatMap_nil, List.append_nil]
  | cons op ops ih =>
    obtain ⟨hop, hops⟩ := hops
    obtain ⟨x, hx, -, hall⟩ := h.step op
    rw [hall hop] at hx
    have hrest := ih hx hops
    rwa [List.append_assoc, ← List.flatMap_cons] at hrest

/-- As long as every call returns true: at every point the bytes accepted by the
kernel and those that wait are the data of the sends in order; the write buffer
is empty with offset 0 or has unsent bytes; and there are never more than
`WRITE_BUFFER_MAX` of these.  Inside a call that still waits for the kernel, a
front of its data comes behind that of the calls before. -/
theorem write_path_in_order (e : NetworkElement) (he : e.Unwritten) (ops : List BufferOp)
    (hops : Runs.Steps step Succeeds (start e) ops) (before later : List BufferOp)
    (hpoint : ops = before ++ later) :
    let w := (start e).run before
    (w.kernel ++ w.element.pending = before.flatMap BufferOp.data ∧
      (w.element.writeBuffer = [] ∧ w.element.writeBufferOffset = 0 ∨
        w.element.writeBufferOffset < w.element.writeBuffer.length) ∧
      w.element.writeBuffer.length - w.element.writeBufferOffset ≤ writeBufferMax) ∧
    ∀ op : BufferOp, (op.outcome w.element).returned = none →
      ∃ x, x <+: op.data ∧
        (w.step op).kernel ++ (w.step op).element.pending =
          before.flatMap BufferOp.data ++ x ∧
        ((w.step op).element.writeBuffer = [] ∧ (w.step op).element.writeBufferOffset = 0 ∨
          (w.step op).element.writeBufferOffset < (w.step op).element.writeBuffer.length) ∧
        (w.step op).element.writeBuffer.length - (w.step op).element.writeBufferOffset ≤
          writeBufferMax := by
  intro w
  subst hpoint
  have h : InOrder w (before.flatMap BufferOp.data) :=
    (InOrder.start he).run ((Runs.steps_append _ _ _).mp hops).1
  refine ⟨⟨h.stream_eq, h.writeOk.offset, ?_⟩, fun op _ => ?_⟩
  · rw [← NetworkElement.pending_length]
    exact h.writeOk.pending_le
  · obtain ⟨x, hx, hpre, -⟩ := h.step op
    refine ⟨x, hpre, hx.stream_eq, hx.writeOk.offset, ?_⟩
    rw [← NetworkElement.pending_length]
    exact hx.writeOk.pending_le

/-- Three bytes of which the kernel takes one, two more behind the two that wait,
a flush that takes three of the four and a send that waits behind the last. -/
theorem write_path_in_order_partial :
    let w := (start (.new 5 0 .sckHeader)).run [.send [1, 2, 3] [.accepted 1, .eintr, .eagain],
      .send [4, 5] [], .flush [.accepted 3, .eagain]]
    w.kernel ++ w.element.pending = [1, 2, 3, 4, 5] ∧ w.kernel = [1, 2, 3, 4] := by
  refine ⟨?_, by decide⟩
  exact (write_path_in_order (.new 5 0 .sckHeader) (by decide)
    [.send [1, 2, 3] [.accepted 1, .eintr, .eagain], .send [4, 5] [],
      .flush [.accepted 3, .eagain], .send [6] []] (by decide)
    [.send [1, 2, 3] [.accepted 1, .eintr, .eagain], .send [4, 5] [],
      .flush [.accepted 3, .eagain]] [.send [6] []] rfl).1.1

/-- A send that appends to the write buffer finds at most `k` bytes at its front
that the kernel has taken already. -/
def AppendsBehind (k : ℕ) (w : Writer) (op : BufferOp) : Prop :=
  ∀ data rs, op = .send data rs → w.element.writeBuffer ≠ [] → w.element.writeBufferOffset ≤ k

end Writer

/-- A flush keeps the buffer, sent bytes included, until it is drained. -/
theorem flushWriteBuffer_writeBuffer (rs : List WriteResult) (e : NetworkElement) :
    (flushWriteBuffer rs e).element.writeBuffer = e.writeBuffer ∨
      (flushWriteBuffer rs e).element.writeBuffer = [] := by
  induction rs generalizing e with
  | nil =>
    unfold flushWriteBuffer
    split_ifs
    · exact Or.inl rfl
    · exact Or.inr rfl
  | cons r rs ih =>
    unfold flushWriteBuffer
    split_ifs
    · cases r with
      | eintr => exact ih e
      | eagain => exact Or.inl rfl
      | failed => exact Or.inl rfl
      | accepted n =>
        cases n with
        | zero => exact Or.inl rfl
        | succ n => exact ih { e with
            writeBufferOffset := e.writeBufferOffset + min (n + 1) e.pending.length }
    · exact Or.inr rfl

/-- A call leaves the buffer, or empties it, or starts one with nothing sent
yet, or appends to the one there is. -/
theorem BufferOp.outcome_writeBuffer (op : BufferOp) (e : NetworkElement) :
    (op.outcome e).element.writeBuffer = e.writeBuffer ∨
    (op.outcome e).element.writeBuffer = [] ∨
    (op.outcome e).element.writeBufferOffset = 0 ∨
    (e.writeBuffer ≠ [] ∧ (∃ data rs, op = .send data rs) ∧
      (op.outcome e).element.writeBufferOffset = e.writeBufferOffset) := by
  cases op with
  | send data rs =>
    simp only [outcome, NetQueue.send]
    split_ifs with hb
    · exact Or.inl rfl
    · exact Or.inr (Or.inr (Or.inr ⟨hb, ⟨data, rs, rfl⟩, rfl⟩))
    · cases sendDirect_element rs e data with
      | same helem => exact Or.inl (by rw [helem])
      | overflowed helem => exact Or.inl (by rw [helem])
      | waiting rest helem => exact Or.inr (Or.inr (Or.inl (by rw [helem])))
  | flush rs => exact (flushWriteBuffer_writeBuffer rs e).imp_right Or.inl

namespace Writer

structure SizeOk (k : ℕ) (w : Writer) : Prop where
  writeOk : WriteOk w.element
  size_le : w.element.writeBuffer.length ≤ k + writeBufferMax

theorem SizeOk.start {e : NetworkElement} (h : e.Unwritten) (k : ℕ) : SizeOk k (start e) where
  writeOk := h.writeOk
  size_le := by
    simp only [Writer.start, h.1, List.length_nil]
    exact Nat.zero_le _

theorem SizeOk.step {k : ℕ} {w : Writer} {op : BufferOp} (h : SizeOk k w)
    (hop : AppendsBehind k w op) : SizeOk k (w.step op) := by
  obtain ⟨x, hc, -⟩ := op.outcome_spec h.writeOk
  refine ⟨hc.writeOk, ?_⟩
  -- what is behind the offset is bounded by the code, what is before it by `k`
  have hpend := hc.writeOk.pending_le
  rw [NetworkElement.pending_length] at hpend
  have hsize := h.size_le
  simp only [Writer.step]
  rcases op.outcome_writeBuffer w.element with heq | heq | heq | ⟨hne, ⟨data, rs, hsend⟩, heq⟩
  · rw [heq]
    exact hsize
  · rw [heq, List.length_nil]
    exact Nat.zero_le _
  · rw [heq] at hpend
    omega
  · have hk := hop data rs hsend hne
    rw [heq] at hpend
    omega

/-- Over a set of runs, the size of the write buffer has a bound if and only if
the sends that append find boundedly many sent bytes at its front. -/
theorem write_buffer_bounded_iff (runs : Set (NetworkElement × List BufferOp))
    (hruns : ∀ r ∈ runs, r.1.Unwritten) :
    (∃ bound, ∀ r ∈ runs, ∀ before later, r.2 = before ++ later →
      ((start r.1).run before).element.writeBuffer.length < bound) ↔
    ∃ k, ∀ r ∈ runs, Runs.Steps step (AppendsBehind k) (start r.1) r.2 := by
  constructor
  · rintro ⟨bound, hbound⟩
    refine ⟨bound, fun r hr => (Runs.steps_iff_forall _ _).mpr ?_⟩
    rintro before op later hpoint data rs rfl hne
    have hlt := hbound r hr before (.send data rs :: later) hpoint
    have hok : WriteOk ((start r.1).run before).element := by
      refine Runs.invariant_always (I := fun w : Writer => WriteOk w.element) ?_
        (hruns r hr).writeOk before
      intro w op hw
      obtain ⟨x, hc, -⟩ := op.outcome_spec hw
      exact hc.writeOk
    exact hok.offset_le.trans hlt.le
  · rintro ⟨k, hk⟩
    refine ⟨k + writeBufferMax + 1, fun r hr before later hpoint => ?_⟩
    have hsteps := hk r hr
    rw [hpoint, Runs.steps_append] at hsteps
    have h : SizeOk k ((start r.1).run before) :=
      Runs.invariant (fun _ _ h hop => h.step hop) (SizeOk.start (hruns r hr) k) hsteps.1
    exact Nat.lt_succ_of_le h.size_le

theorem write_buffer_bounded_iff_once :
    ∃ bound, ∀ r ∈ ({(.new 5 0 .sckHeader, [.send [1, 2] [.eagain], .flush [.accepted 1, .eagain],
        .send [3] []])} : Set (NetworkElement × List BufferOp)),
      ∀ before later, r.2 = before ++ later →
        ((start r.1).run before).element.writeBuffer.length < bound := by
  refine (write_buffer_bounded_iff _ ?_).mpr ⟨1, ?_⟩
  · rintro r rfl
    exact ⟨rfl, rfl⟩
  · rintro r rfl
    refine ⟨?_, ?_, ?_, trivial⟩
    · rintro data rs - hne
      exact absurd rfl hne
    · rintro data rs hsend
      cases hsend
    · rintro data rs - -
      decide

/-- Calls on a buffer of which the kernel takes one byte at a time, while as many
are appended. -/
def trickle : ℕ → List BufferOp
  | 0 => []
  | k + 1 => .flush [.accepted 1, .eagain] :: .send [3] [] :: trickle k

/-- One round adds a byte to the buffer and a byte to what is sent of it. -/
theorem trickle_round (w : Writer)
    (hw : w.element.writeBuffer.length = w.element.writeBufferOffset + 2) :
    let ops : List BufferOp := [.flush [.accepted 1, .eagain], .send [3] []]
    Runs.Steps step Succeeds w ops ∧
      (w.run ops).element.writeBuffer.length = w.element.writeBuffer.length + 1 ∧
      (w.run ops).element.writeBufferOffset = w.element.writeBufferOffset + 1 := by
  intro ops
  have hpend : w.element.pending.length = 2 := by
    rw [NetworkElement.pending_length]
    omega
  have hflush : (BufferOp.flush [.accepted 1, .eagain]).outcome w.element =
      ⟨some true, { w.element with writeBufferOffset := w.element.writeBufferOffset + 1 },
        [⟨w.element.pending, .accepted 1⟩,
          ⟨w.element.writeBuffer.drop (w.element.writeBufferOffset + 1), .eagain⟩], [], none⟩ := by
    rw [BufferOp.outcome, flushWriteBuffer, if_pos (by omega), hpend]
    simp only [flushWriteBuffer]
    rw [if_pos (by omega)]
    rfl
  have hsend : (BufferOp.send [3] []).outcome
      { w.element with writeBufferOffset := w.element.writeBufferOffset + 1 } =
      ⟨some true, { w.element with
        writeBuffer := w.element.writeBuffer ++ [3]
        writeBufferOffset := w.element.writeBufferOffset + 1 }, [], [], none⟩ := by
    have hne : w.element.writeBuffer ≠ [] := by
      intro hnil
      rw [hnil] at hw
      simp at hw
    simp only [BufferOp.outcome, NetQueue.send]
    rw [if_pos hne, if_neg]
    rw [hw, List.length_singleton, writeBufferMax]
    omega
  have hstep : w.step (.flush [.accepted 1, .eagain]) =
      ⟨{ w.element with writeBufferOffset := w.element.writeBufferOffset + 1 },
        (w.step (.flush [.accepted 1, .eagain])).kernel⟩ := by
    rw [step, hflush]
  refine ⟨⟨?_, ?_, trivial⟩, ?_, ?_⟩
  · rw [Succeeds, hflush]
  · rw [Succeeds, hstep, hsend]
  · rw [run, Runs.run_cons, hstep, Runs.run_cons, Runs.run_nil, step, hsend]
    exact List.length_append
  · rw [run, Runs.run_cons, hstep, Runs.run_cons, Runs.run_nil, step, hsend]

theorem trickle_run (k : ℕ) (w : Writer)
    (hw : w.element.writeBuffer.length = w.element.writeBufferOffset + 2) :
    Runs.Steps step Succeeds w (trickle k) ∧
      (w.run (trickle k)).element.writeBuffer.length = w.element.writeBuffer.length + k := by
  induction k generalizing w with
  | zero => exact ⟨trivial, rfl⟩
  | succ k ih =>
    obtain ⟨hround, hlen, hoff⟩ := trickle_round w hw
    obtain ⟨hrest, hsize⟩ := ih (w.run [.flush [.accepted 1, .eagain], .send [3] []]) (by omega)
    refine ⟨⟨hround.1, hround.2.1, hrest⟩, ?_⟩
    rw [hlen] at hsize
    exact hsize.trans (by omega)

/-- Although no more than two bytes ever wait and every call returns true, the
buffer outgrows every bound. -/
theorem write_buffer_unbounded :
    ¬ ∃ bound, ∀ ops, Runs.Steps step Succeeds (start (.new 5 0 .sckHeader)) ops →
      ((start (.new 5 0 .sckHeader)).run ops).element.writeBuffer.length < bound := by
  rintro ⟨bound, h⟩
  obtain ⟨hsteps, hlen⟩ := trickle_run bound
    ((start (.new 5 0 .sckHeader)).step (.send [1, 2] [.eagain])) (by decide)
  have hlt := h (.send [1, 2] [.eagain] :: trickle bound) ⟨by decide, hsteps⟩
  have hsize : ((start (.new 5 0 .sckHeader)).run
      (.send [1, 2] [.eagain] :: trickle bound)).element.writeBuffer.length = 2 + bound := hlen
  omega

end Writer

end VNet.NetQueue
