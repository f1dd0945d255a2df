import VNet.NetQueue.Element

namespace VNet.NetQueue
open Protocol

/-- What `write()` returned: a count, of which the kernel never takes more than
it was offered, or -1 with `errno`. -/
inductive WriteResult
  | accepted (n : ℕ)
  | eintr
  | eagain
  | failed
  deriving DecidableEq, Repr

structure WriteCall where
  offered : Bytes
  result : WriteResult
  deriving DecidableEq, Repr

def WriteCall.taken (w : WriteCall) : Bytes :=
  match w.result with
  | .accepted n => w.offered.take n
  | _ => []

def WriteCall.Failed (w : WriteCall) : Prop := w.result = .failed ∨ w.result = .accepted 0

instance (w : WriteCall) : Decidable w.Failed :=
  inferInstanceAs (Decidable (_ ∨ _))

/-- The masks given to `EPOLL_CTL_MOD`, each with `EPOLLET | EPOLLONESHOT`. -/
inductive Interest
  | epollin
  | epollinEpollout
  deriving DecidableEq, Repr

/-- How a call on the write side went: what it returned, the element as it left
it, the writes it made, the kernel's answers it did not use, and the mask it
registered. `returned` is `none` while the call still waits for an answer. -/
structure WriteOutcome where
  returned : Option Bool
  element : NetworkElement
  calls : List WriteCall
  rest : List WriteResult
  registered : Option Interest
  deriving DecidableEq, Repr

namespace WriteOutcome

def accepted (o : WriteOutcome) : Bytes := o.calls.flatMap WriteCall.taken

/-- The call returned false although no write failed: the bytes waiting would
exceed `WRITE_BUFFER_MAX`. -/
def Overflowed (o : WriteOutcome) : Prop := o.returned = some false ∧ ∀ w ∈ o.calls, ¬ w.Failed

instance (o : WriteOutcome) : Decidable o.Overflowed :=
  inferInstanceAs (Decidable (_ ∧ ∀ w ∈ o.calls, ¬ w.Failed))

def after (w : WriteCall) (o : WriteOutcome) : WriteOutcome := { o with calls := w :: o.calls }

end WriteOutcome

def flushWriteBuffer : List WriteResult → NetworkElement → WriteOutcome
  | rs, e =>
    if e.writeBufferOffset < e.writeBuffer.length then
      match rs with
      | [] => ⟨none, e, [], [], none⟩
      | .eintr :: rs => (flushWriteBuffer rs e).after ⟨e.pending, .eintr⟩
      | .eagain :: rs => ⟨some true, e, [⟨e.pending, .eagain⟩], rs, none⟩
      | .failed :: rs => ⟨some false, e, [⟨e.pending, .failed⟩], rs, none⟩
      | .accepted 0 :: rs => ⟨some false, e, [⟨e.pending, .accepted 0⟩], rs, none⟩
      | .accepted (n + 1) :: rs =>
        (flushWriteBuffer rs { e with
          writeBufferOffset := e.writeBufferOffset + min (n + 1) e.pending.length }).after
            ⟨e.pending, .accepted (n + 1)⟩
    else
      ⟨some true, { e with writeBuffer := [], writeBufferOffset := 0 }, [], rs, some .epollin⟩

/-- The loop `while (total < n)` of `NetQueue::send`; `data` is what is left
from `ptr + total` on. -/
def sendDirect : List WriteResult → NetworkElement → Bytes → WriteOutcome
  | rs, e, data =>
    if data = [] then ⟨some true, e, [], rs, none⟩
    else match rs with
      | [] => ⟨none, e, [], [], none⟩
      | .eintr :: rs => (sendDirect rs e data).after ⟨data, .eintr⟩
      | .eagain :: rs =>
        if writeBufferMax < data.length then
          ⟨some false, { e with state := .sckError }, [⟨data, .eagain⟩], rs, none⟩
        else
          ⟨some true, { e with writeBuffer := data, writeBufferOffset := 0 }, [⟨data, .eagain⟩],
            rs, some .epollinEpollout⟩
      | .failed :: rs => ⟨some false, e, [⟨data, .failed⟩], rs, none⟩
      | .accepted 0 :: rs => ⟨some false, e, [⟨data, .accepted 0⟩], rs, none⟩
      | .accepted (n + 1) :: rs =>
        (sendDirect rs e (data.drop (n + 1))).after ⟨data, .accepted (n + 1)⟩

inductive SendDirect (e : NetworkElement) (o : WriteOutcome) : Prop
  | same (helem : o.element = e) (hreg : o.registered = none)
      (hret : o.returned ≠ some false ∨ ∃ w ∈ o.calls, w.Failed)
  | overflowed (helem : o.element = { e with state := .sckError }) (hreg : o.registered = none)
  | waiting (rest : Bytes)
      (helem : o.element = { e with writeBuffer := rest, writeBufferOffset := 0 })
      (hreg : o.registered = some .epollinEpollout) (hret : o.returned = some true)

theorem SendDirect.after {e : NetworkElement} {o : WriteOutcome} (h : SendDirect e o)
    (w : WriteCall) : SendDirect e (o.after w) := by
  cases h with
  | same helem hreg hret =>
    refine .same helem hreg (hret.imp_right fun ⟨v, hv, hf⟩ => ?_)
    exact ⟨v, List.mem_cons_of_mem _ hv, hf⟩
  | overflowed helem hreg => exact .overflowed helem hreg
  | waiting rest helem hreg hret => exact .waiting rest helem hreg hret

theorem sendDirect_element (rs : List WriteResult) (e : NetworkElement) (data : Bytes) :
    SendDirect e (sendDirect rs e data) := by
  induction rs generalizing data with
  | nil =>
    unfold sendDirect
    by_cases hd : data = []
    · rw [if_pos hd]
      exact .same rfl rfl (Or.inl (by simp))
    · rw [if_neg hd]
      exact .same rfl rfl (Or.inl (by simp))
  | cons r rs ih =>
    unfold sendDirect
    by_cases hd : data = []
    · rw [if_pos hd]
      exact .same rfl rfl (Or.inl (by simp))
    · rw [if_neg hd]
      cases r with
      | eintr => exact (ih data).after _
      | eagain =>
        dsimp only
        split_ifs
        · exact .overflowed rfl rfl
        · exact .waiting data rfl rfl rfl
      | failed => exact .same rfl rfl (Or.inr ⟨_, List.mem_singleton_self _, Or.inl rfl⟩)
      | accepted n =>
        cases n with
        | zero => exact .same rfl rfl (Or.inr ⟨_, List.mem_singleton_self _, Or.inr rfl⟩)
        | succ n => exact (ih _).after _

/-- A flush writes the write buffer and its offset, and no other field. -/
theorem flushWriteBuffer_element (rs : List WriteResult) (e : NetworkElement) :
    ∃ buffer offset, (flushWriteBuffer rs e).element =
      { e with writeBuffer := buffer, writeBufferOffset := offset } := by
  induction rs generalizing e with
  | nil =>
    unfold flushWriteBuffer
    split_ifs
    · exact ⟨_, _, rfl⟩
    · exact ⟨_, _, rfl⟩
  | cons r rs ih =>
    unfold flushWriteBuffer
    split_ifs
    · cases r with
      | eintr => exact ih e
      | eagain => exact ⟨_, _, rfl⟩
      | failed => exact ⟨_, _, rfl⟩
      | accepted n =>
        cases n with
        | zero => exact ⟨_, _, rfl⟩
        | succ n =>
          obtain ⟨buffer, offset, heq⟩ := ih { e with
            writeBufferOffset := e.writeBufferOffset + min (n + 1) e.pending.length }
          exact ⟨buffer, offset, heq⟩
    · exact ⟨_, _, rfl⟩

def send (rs : List WriteResult) (e : NetworkElement) (data : Bytes) : WriteOutcome :=
  if e.writeBuffer ≠ [] then
    if writeBufferMax < e.writeBuffer.length - e.writeBufferOffset + data.length then
      ⟨some false, { e with state := .sckError }, [], rs, none⟩
    else ⟨some true, { e with writeBuffer := e.writeBuffer ++ data }, [], rs, none⟩
  else sendDirect rs e data

def IgnoresWrites {α : Type} (f : NetworkElement → α) : Prop :=
  ∀ e buffer offset state,
    f { e with writeBuffer := buffer, writeBufferOffset := offset, state := state } = f e

theorem fd_ignoresWrites : IgnoresWrites NetworkElement.fd := fun _ _ _ _ => rfl

theorem ptr_ignoresWrites : IgnoresWrites NetworkElement.ptr := fun _ _ _ _ => rfl

section
variable {α : Type} {f : NetworkElement → α} (hf : IgnoresWrites f)
include hf

theorem flushWriteBuffer_keeps (rs : List WriteResult) (e : NetworkElement) :
    f (flushWriteBuffer rs e).element = f e := by
  obtain ⟨buffer, offset, helem⟩ := flushWriteBuffer_element rs e
  rw [helem]
  exact hf e _ _ _

theorem send_keeps (rs : List WriteResult) (e : NetworkElement) (data : Bytes) :
    f (send rs e data).element = f e := by
  unfold send
  split_ifs
  · exact hf e _ _ _
  · exact hf e _ _ _
  · cases sendDirect_element rs e data with
    | same helem => rw [helem]
    | overflowed helem =>
      rw [helem]
      exact hf e _ _ _
    | waiting rest helem =>
      rw [helem]
      exact hf e _ _ _

end

/-- The second half of `NetQueue::send(fd, type, msg)`, after the header. -/
def sendBody (header : WriteOutcome) (body : Bytes) : WriteOutcome :=
  if body = [] then header
  else
    let o := send header.rest header.element body
    { o with
      calls := header.calls ++ o.calls
      registered := o.registered <|> header.registered }

def sendMessage (rs : List WriteResult) (e : NetworkElement) (type : PacketType)
    (body : Option Bytes) : WriteOutcome :=
  match body with
  | none => ⟨some false, e, [], rs, none⟩
  | some body =>
    let header := send rs e (packetHeader (.ofNat body.length) type)
    if header.returned = some true then sendBody header body else header

def sendHeartbeat (rs : List WriteResult) (e : NetworkElement) : WriteOutcome :=
  send rs e (packetHeader 0 .heartbeat)

/-- The write buffer between two calls. -/
structure WriteOk (e : NetworkElement) : Prop where
  offset : e.writeBuffer = [] ∧ e.writeBufferOffset = 0 ∨
    e.writeBufferOffset < e.writeBuffer.length
  pending_le : e.pending.length ≤ writeBufferMax

theorem WriteOk.new (fd : Fd) (ptr : ℕ) (state : FiniteStateMachine) :
    WriteOk (.new fd ptr state) :=
  ⟨Or.inl ⟨rfl, rfl⟩, Nat.zero_le _⟩

theorem WriteOk.offset_le {e : NetworkElement} (h : WriteOk e) :
    e.writeBufferOffset ≤ e.writeBuffer.length := by
  rcases h.offset with ⟨-, h0⟩ | hlt
  · rw [h0]
    exact Nat.zero_le _
  · exact hlt.le

/-- The write buffer is empty exactly when nothing waits in it. -/
theorem WriteOk.writeBuffer_eq_nil {e : NetworkElement} (h : WriteOk e) :
    e.writeBuffer = [] ↔ e.pending = [] := by
  rcases h.offset with ⟨hnil, -⟩ | hlt
  · simp [hnil, NetworkElement.pending]
  · rw [NetworkElement.pending, List.drop_eq_nil_iff]
    constructor
    · intro hnil
      rw [hnil] at hlt
      exact absurd hlt (Nat.not_lt_zero _)
    · intro hle
      exact absurd hlt (Nat.not_lt.mpr hle)

/-- A call adds the bytes `x` behind those still waiting: together they are what
the kernel took and what waits now. -/
structure Commits (e : NetworkElement) (x : Bytes) (o : WriteOutcome) : Prop where
  writeOk : WriteOk o.element
  stream_eq : e.pending ++ x = o.accepted ++ o.element.pending

/-- How a call that was given `data` ends: it adds all of it and leaves the
state alone, or it adds a proper part of it and gives up. -/
structure SendSpec (e : NetworkElement) (data x : Bytes) (o : WriteOutcome) : Prop where
  commits : Commits e x o
  isPrefix : x <+: data
  sent : o.returned = some true → x = data ∧ o.element.state = e.state
  refused : o.returned = some false → x ≠ data ∧
    (o.element.state = .sckError ∨ ∃ w ∈ o.calls, w.Failed)

namespace WriteOutcome

@[simp] theorem after_returned (w : WriteCall) (o : WriteOutcome) :
    (o.after w).returned = o.returned := rfl

@[simp] theorem after_element (w : WriteCall) (o : WriteOutcome) :
    (o.after w).element = o.element := rfl

@[simp] theorem after_calls (w : WriteCall) (o : WriteOutcome) :
    (o.after w).calls = w :: o.calls := rfl

@[simp] theorem accepted_after (w : WriteCall) (o : WriteOutcome) :
    (o.after w).accepted = w.taken ++ o.accepted := rfl

end WriteOutcome

theorem NetworkElement.pending_eq_nil {e : NetworkElement} (h : e.writeBuffer = []) :
    e.pending = [] := by
  rw [NetworkElement.pending, h, List.drop_nil]

/-- Taking `k` waiting bytes away, by moving the offset. -/
theorem NetworkElement.pending_advance (e : NetworkElement) (k : ℕ) :
    e.writeBuffer.drop (e.writeBufferOffset + min k e.pending.length) = e.pending.drop k := by
  rw [← List.drop_drop, ← NetworkElement.pending]
  rcases Nat.le_total k e.pending.length with h | h
  · rw [min_eq_left h]
  · rw [min_eq_right h, List.drop_length, List.drop_of_length_le h]

/-- A call that took nothing and left the buffer as it was. -/
theorem Commits.unchanged {e : NetworkElement} {o : WriteOutcome} (h : WriteOk e)
    (ha : o.accepted = []) (hb : o.element.writeBuffer = e.writeBuffer)
    (ho : o.element.writeBufferOffset = e.writeBufferOffset) : Commits e [] o where
  writeOk := by
    refine ⟨?_, ?_⟩
    · rw [hb, ho]
      exact h.offset
    · rw [NetworkElement.pending, hb, ho]
      exact h.pending_le
  stream_eq := by
    rw [ha, NetworkElement.pending, NetworkElement.pending, hb, ho, List.nil_append,
      List.append_nil]

/-- A write that took waiting bytes, before a call that goes on behind them. -/
theorem Commits.after {e e' : NetworkElement} {x : Bytes} {o : WriteOutcome} {w : WriteCall}
    (h : Commits e' x o) (hw : e.pending = w.taken ++ e'.pending) : Commits e x (o.after w) where
  writeOk := h.writeOk
  stream_eq := by
    rw [hw, List.append_assoc, h.stream_eq, WriteOutcome.accepted_after,
      WriteOutcome.after_element, List.append_assoc]

theorem flushWriteBuffer_drained {e : NetworkElement}
    (h : ¬ e.writeBufferOffset < e.writeBuffer.length) (rs : List WriteResult)
    (registered : Option Interest) :
    Commits e [] ⟨some true, { e with writeBuffer := [], writeBufferOffset := 0 }, [], rs,
      registered⟩ where
  writeOk := ⟨Or.inl ⟨rfl, rfl⟩, Nat.zero_le _⟩
  stream_eq := by
    have hnil : e.pending = [] := List.drop_eq_nil_iff.mpr (Nat.not_lt.mp h)
    rw [hnil]
    rfl

/-- `flush_write_buffer` moves waiting bytes to the kernel and adds none. -/
theorem flushWriteBuffer_spec (rs : List WriteResult) (e : NetworkElement)
    (hle : e.writeBufferOffset ≤ e.writeBuffer.length) (hmax : e.pending.length ≤ writeBufferMax) :
    Commits e [] (flushWriteBuffer rs e) ∧ (flushWriteBuffer rs e).element.state = e.state := by
  induction rs generalizing e with
  | nil =>
    unfold flushWriteBuffer
    split_ifs with hlt
    · exact ⟨.unchanged ⟨Or.inr hlt, hmax⟩ rfl rfl rfl, rfl⟩
    · exact ⟨flushWriteBuffer_drained hlt _ _, rfl⟩
  | cons r rs ih =>
    unfold flushWriteBuffer
    split_ifs with hlt
    · have hok : WriteOk e := ⟨Or.inr hlt, hmax⟩
      match r with
      | .eintr =>
        obtain ⟨hc, hst⟩ := ih e hle hmax
        exact ⟨hc.after rfl, hst⟩
      | .eagain => exact ⟨.unchanged hok rfl rfl rfl, rfl⟩
      | .failed => exact ⟨.unchanged hok rfl rfl rfl, rfl⟩
      | .accepted 0 => exact ⟨.unchanged hok rfl rfl rfl, rfl⟩
      | .accepted (n + 1) =>
        -- the offset moves over what the kernel took
        have hadv := e.pending_advance (n + 1)
        have hl : e.pending.length = e.writeBuffer.length - e.writeBufferOffset := by
          rw [NetworkElement.pending, List.length_drop]
        obtain ⟨hc, hst⟩ := ih { e with
          writeBufferOffset := e.writeBufferOffset + min (n + 1) e.pending.length }
          (by simp only; omega)
          (by
            rw [NetworkElement.pending, hadv, List.length_drop]
            exact (Nat.sub_le _ _).trans hmax)
        refine ⟨hc.after ?_, hst⟩
        exact (List.take_append_drop (n + 1) e.pending).symm.trans (congrArg _ hadv.symm)
    · exact ⟨flushWriteBuffer_drained hlt _ _, rfl⟩

/-- A call that gave up before adding anything. -/
theorem SendSpec.refusal {e : NetworkElement} {data : Bytes} {o : WriteOutcome}
    (hc : Commits e [] o) (hd : data ≠ []) (hf : o.returned = some false)
    (hs : o.element.state = .sckError ∨ ∃ w ∈ o.calls, w.Failed) : SendSpec e data [] o where
  commits := hc
  isPrefix := List.nil_prefix
  sent h := by simp [hf] at h
  refused _ := ⟨hd.symm, hs⟩

/-- A write that took the front of the data, before the loop goes on with the rest. -/
theorem SendSpec.after {e : NetworkElement} {data x : Bytes} {o : WriteOutcome} {w : WriteCall}
    (he : e.writeBuffer = []) (h : SendSpec e data x o) :
    SendSpec e (w.taken ++ data) (w.taken ++ x) (o.after w) where
  commits := by
    refine ⟨h.commits.writeOk, ?_⟩
    have heq := h.commits.stream_eq
    rw [NetworkElement.pending_eq_nil he, List.nil_append] at heq ⊢
    rw [heq, WriteOutcome.accepted_after, WriteOutcome.after_element, List.append_assoc]
  isPrefix := (List.prefix_append_right_inj _).mpr h.isPrefix
  sent hr := by
    obtain ⟨hx, hst⟩ := h.sent hr
    exact ⟨by rw [hx], hst⟩
  refused hr := by
    obtain ⟨hx, hst⟩ := h.refused hr
    refine ⟨fun heq => hx (List.append_cancel_left heq), ?_⟩
    exact hst.imp_right fun ⟨v, hv, hf⟩ => ⟨v, List.mem_cons_of_mem _ hv, hf⟩

theorem sendDirect_spec (rs : List WriteResult) (e : NetworkElement) (data : Bytes)
    (hok : WriteOk e) (he : e.writeBuffer = []) :
    ∃ x, SendSpec e data x (sendDirect rs e data) := by
  induction rs generalizing data with
  | nil =>
    unfold sendDirect
    by_cases hd : data = []
    · rw [if_pos hd]
      exact ⟨[], .unchanged hok rfl rfl rfl, List.nil_prefix, fun _ => ⟨hd.symm, rfl⟩, by simp⟩
    · rw [if_neg hd]
      exact ⟨[], .unchanged hok rfl rfl rfl, List.nil_prefix, by simp, by simp⟩
  | cons r rs ih =>
    unfold sendDirect
    by_cases hd : data = []
    · rw [if_pos hd]
      exact ⟨[], .unchanged hok rfl rfl rfl, List.nil_prefix, fun _ => ⟨hd.symm, rfl⟩, by simp⟩
    · rw [if_neg hd]
      match r with
      | .eintr =>
        obtain ⟨x, hx⟩ := ih data
        exact ⟨x, hx.after (w := ⟨data, .eintr⟩) he⟩
      | .eagain =>
        simp only
        -- what the kernel did not take is buffered if it fits
        split_ifs with hmax
        · exact ⟨[], .refusal (.unchanged hok rfl rfl rfl) hd rfl (Or.inl rfl)⟩
        · refine ⟨data, ⟨⟨Or.inr (List.length_pos_iff.mpr hd), Nat.not_lt.mp hmax⟩, ?_⟩,
            List.prefix_rfl, fun _ => ⟨rfl, rfl⟩, by simp⟩
          rw [NetworkElement.pending_eq_nil he]
          rfl
      | .failed =>
        exact ⟨[], .refusal (.unchanged hok rfl rfl rfl) hd rfl
          (Or.inr ⟨_, List.mem_singleton_self _, Or.inl rfl⟩)⟩
      | .accepted 0 =>
        exact ⟨[], .refusal (.unchanged hok rfl rfl rfl) hd rfl
          (Or.inr ⟨_, List.mem_singleton_self _, Or.inr rfl⟩)⟩
      | .accepted (n + 1) =>
        obtain ⟨x, hx⟩ := ih (data.drop (n + 1))
        have h := hx.after (w := ⟨data, .accepted (n + 1)⟩) he
        have hdata : (WriteCall.mk data (.accepted (n + 1))).taken ++ data.drop (n + 1) = data :=
          List.take_append_drop _ _
        rw [hdata] at h
        exact ⟨_, h⟩

/-- `NetQueue::send` adds all its data or gives up on a part of it. -/
theorem send_spec (rs : List WriteResult) (e : NetworkElement) (data : Bytes) (hok : WriteOk e) :
    ∃ x, SendSpec e data x (send rs e data) := by
  have hl : e.pending.length = e.writeBuffer.length - e.writeBufferOffset := by
    rw [NetworkElement.pending, List.length_drop]
  unfold send
  split_ifs with hb hmax
  · have hd : data ≠ [] := by
      rintro rfl
      have := hok.pending_le
      simp only [List.length_nil] at hmax
      omega
    exact ⟨[], .refusal (.unchanged hok rfl rfl rfl) hd rfl (Or.inl rfl)⟩
  · have hpend : (e.writeBuffer ++ data).drop e.writeBufferOffset = e.pending ++ data :=
      List.drop_append_of_le_length hok.offset_le
    have hlt := hok.offset.resolve_left fun h => hb h.1
    refine ⟨data, ⟨⟨Or.inr ?_, ?_⟩, ?_⟩, List.prefix_rfl, fun _ => ⟨rfl, rfl⟩, by simp⟩
    · rw [List.length_append]
      exact hlt.trans_le (Nat.le_add_right _ _)
    · rw [NetworkElement.pending, hpend, List.length_append, hl]
      exact Nat.not_lt.mp hmax
    · exact hpend.symm
  · exact sendDirect_spec rs e data hok (not_not.mp hb)

/-- The body goes behind the header, or a part of it does. -/
theorem sendBody_spec {e : NetworkElement} {header : WriteOutcome} {hdr : Bytes}
    (h : SendSpec e hdr hdr header) (hr : header.returned = some true) (body : Bytes) :
    ∃ x, SendSpec e (hdr ++ body) (hdr ++ x) (sendBody header body) := by
  unfold sendBody
  split_ifs with hb
  · subst hb
    refine ⟨[], ?_⟩
    rwa [List.append_nil]
  · obtain ⟨x, hx⟩ := send_spec header.rest header.element body h.commits.writeOk
    refine ⟨x, ⟨hx.commits.writeOk, ?_⟩, (List.prefix_append_right_inj _).mpr hx.isPrefix, ?_, ?_⟩
    · have h1 := h.commits.stream_eq
      have h2 := hx.commits.stream_eq
      simp only [WriteOutcome.accepted, List.flatMap_append] at h1 h2 ⊢
      rw [← List.append_assoc, h1, List.append_assoc, h2, List.append_assoc]
    · intro hret
      obtain ⟨hbody, hst⟩ := hx.sent hret
      exact ⟨by rw [hbody], hst.trans (h.sent hr).2⟩
    · intro hret
      obtain ⟨hbody, hst⟩ := hx.refused hret
      refine ⟨fun heq => hbody (List.append_cancel_left heq), ?_⟩
      exact hst.imp_right fun ⟨w, hw, hf⟩ => ⟨w, List.mem_append_right _ hw, hf⟩

/-- A message is sent as its frame. -/
theorem sendMessage_spec (rs : List WriteResult) (e : NetworkElement) (type : PacketType)
    (body : Bytes) (hok : WriteOk e) :
    ∃ x, SendSpec e (frame type body) x (sendMessage rs e type (some body)) := by
  obtain ⟨x, hx⟩ := send_spec rs e (packetHeader (.ofNat body.length) type) hok
  simp only [sendMessage, frame]
  split_ifs with hr
  · obtain ⟨rfl, -⟩ := hx.sent hr
    obtain ⟨y, hy⟩ := sendBody_spec hx hr body
    exact ⟨_, hy⟩
  · refine ⟨x, hx.commits, hx.isPrefix.trans (List.prefix_append _ _), ?_, ?_⟩
    · intro hret
      exact absurd hret hr
    · intro hret
      obtain ⟨hne, hst⟩ := hx.refused hret
      refine ⟨?_, hst⟩
      -- equal to the whole frame, the part would be longer than the header
      rintro rfl
      have hlen := hx.isPrefix.length_le
      rw [List.length_append] at hlen
      have hb : body = [] := List.length_eq_zero_iff.mp (by omega)
      rw [hb, List.append_nil] at hne
      exact hne rfl

theorem sendHeartbeat_spec (rs : List WriteResult) (e : NetworkElement) (hok : WriteOk e) :
    ∃ x, SendSpec e (frame .heartbeat []) x (sendHeartbeat rs e) :=
  send_spec rs e _ hok

end VNet.NetQueue
