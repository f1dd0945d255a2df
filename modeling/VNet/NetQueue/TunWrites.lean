import VNet.NetQueue.WritePath

namespace VNet.NetQueue
open Protocol

def putTun (tunFd : Fd) (data : ℕ) : NetworkElement := .new tunFd data .tunReceive

def WriteCall.AllOrNothing (c : WriteCall) : Prop :=
  match c.result with
  | .accepted n => c.offered.length ≤ n
  | .eagain => True
  | .eintr => False
  | .failed => False

instance : ∀ c : WriteCall, Decidable c.AllOrNothing
  | ⟨_, .accepted _⟩ => inferInstanceAs (Decidable (_ ≤ _))
  | ⟨_, .eagain⟩ => inferInstanceAs (Decidable True)
  | ⟨_, .eintr⟩ => inferInstanceAs (Decidable False)
  | ⟨_, .failed⟩ => inferInstanceAs (Decidable False)

/-- The length of a whole IP packet is in the 16 bits of its total length. -/
def IpPacket (p : Bytes) : Prop := 0 < p.length ∧ p.length < 2 ^ 16

instance (p : Bytes) : Decidable (IpPacket p) := inferInstanceAs (Decidable (_ ∧ _))

def BufferOp.WholePacket : BufferOp → Prop
  | .send p _ => IpPacket p
  | .flush _ => True

instance : ∀ op : BufferOp, Decidable op.WholePacket
  | .send p _ => inferInstanceAs (Decidable (IpPacket p))
  | .flush _ => inferInstanceAs (Decidable True)

/-- The packets that are left when every write offers the next packet, and none
if one does not. A packet that the device has no room for is still the next. -/
def remaining : List WriteCall → List Bytes → Option (List Bytes)
  | [], ps => some ps
  | _ :: _, [] => none
  | c :: cs, p :: ps =>
    if c.offered = p then remaining cs (if c.result = .eagain then p :: ps else ps) else none

theorem remaining_append_writes (cs ds : List WriteCall) (ps : List Bytes) :
    remaining (cs ++ ds) ps = (remaining cs ps).bind (remaining ds) := by
  induction cs generalizing ps with
  | nil => rfl
  | cons c cs ih =>
    cases ps with
    | nil => rfl
    | cons p ps =>
      simp only [List.cons_append, remaining]
      split_ifs
      · exact ih _
      · exact ih _
      · rfl

/-- Packets sent later come behind those that are left. -/
theorem remaining_append_packets {cs : List WriteCall} {ps rest : List Bytes}
    (h : remaining cs ps = some rest) (qs : List Bytes) :
    remaining cs (ps ++ qs) = some (rest ++ qs) := by
  induction cs generalizing ps with
  | nil =>
    rw [remaining, Option.some.injEq] at h
    rw [remaining, h]
  | cons c cs ih =>
    cases ps with
    | nil => simp [remaining] at h
    | cons p ps =>
      rw [remaining] at h
      rw [List.cons_append, remaining]
      split_ifs at h ⊢
      · exact ih h
      · exact ih h

/-- One more write, of the next packet. -/
theorem remaining_concat {cs : List WriteCall} {ps rest : List Bytes} {p : Bytes}
    (h : remaining cs ps = some (p :: rest)) (r : WriteResult) :
    remaining (cs ++ [⟨p, r⟩]) ps = some (if r = .eagain then p :: rest else rest) := by
  rw [remaining_append_writes, h, Option.bind_some, remaining, if_pos rfl, remaining]

/-- One more write, of something else. -/
theorem remaining_concat_ne {cs : List WriteCall} {ps rest : List Bytes} {p : Bytes}
    (h : remaining cs ps = some (p :: rest)) {c : WriteCall} (hc : c.offered ≠ p) :
    remaining (cs ++ [c]) ps = none := by
  rw [remaining_append_writes, h, Option.bind_some, remaining, if_neg hc]

def BufferOp.taken (op : BufferOp) (e : NetworkElement) : List Bytes :=
  match op with
  | .send p _ => if (op.outcome e).returned = some true then [p] else []
  | .flush _ => []

/-- A TUN element, the packets that `send` took so far and the writes on its
descriptor, each in order, and which of the packets wait in the write buffer. -/
structure TunWriter where
  element : NetworkElement
  packets : List Bytes
  writes : List WriteCall
  waiting : List Bytes
  deriving DecidableEq, Repr

namespace TunWriter

def start (tunFd : Fd) (data : ℕ) : TunWriter := ⟨putTun tunFd data, [], [], []⟩

def step (w : TunWriter) (op : BufferOp) : TunWriter where
  element := (op.outcome w.element).element
  packets := w.packets ++ op.taken w.element
  writes := w.writes ++ (op.outcome w.element).calls
  waiting :=
    if (op.outcome w.element).element.writeBuffer = [] then []
    else w.waiting ++ op.taken w.element

def run (w : TunWriter) (ops : List BufferOp) : TunWriter := Runs.run step w ops

structure Promised (w : TunWriter) (op : BufferOp) : Prop where
  packet : op.WholePacket
  returned : (op.outcome w.element).returned ≠ none
  device : ∀ c ∈ (op.outcome w.element).calls, c.AllOrNothing

instance (w : TunWriter) (op : BufferOp) : Decidable (Promised w op) :=
  decidable_of_iff (op.WholePacket ∧ (op.outcome w.element).returned ≠ none ∧
      ∀ c ∈ (op.outcome w.element).calls, c.AllOrNothing)
    ⟨fun ⟨hp, hr, hd⟩ => ⟨hp, hr, hd⟩, fun h => ⟨h.packet, h.returned, h.device⟩⟩

/-- Every write carries exactly one whole packet, in the order sent. -/
def OnePacketEach (w : TunWriter) : Prop := ∃ rest, remaining w.writes w.packets = some rest

/-- A flush finds no more than one packet in the write buffer. -/
def Alone (w : TunWriter) : BufferOp → Prop
  | .send _ _ => True
  | .flush _ => w.waiting.length ≤ 1

instance (w : TunWriter) : ∀ op : BufferOp, Decidable (Alone w op)
  | .send _ _ => inferInstanceAs (Decidable True)
  | .flush _ => inferInstanceAs (Decidable (_ ≤ _))

end TunWriter

/-- On such a device a direct send of a packet makes one write, of the packet. -/
theorem sendDirect_packet {rs : List WriteResult} {e : NetworkElement} {p : Bytes}
    (hp : IpPacket p) (hret : (sendDirect rs e p).returned ≠ none)
    (hdev : ∀ c ∈ (sendDirect rs e p).calls, c.AllOrNothing) :
    (sendDirect rs e p).returned = some true ∧
    ((sendDirect rs e p).calls = [⟨p, .eagain⟩] ∧
        (sendDirect rs e p).element = { e with writeBuffer := p, writeBufferOffset := 0 } ∨
      ∃ n, (sendDirect rs e p).calls = [⟨p, .accepted n⟩] ∧ (sendDirect rs e p).element = e) := by
  have hne : p ≠ [] := List.length_pos_iff.mp hp.1
  cases rs with
  | nil =>
    rw [sendDirect, if_neg hne] at hret
    exact absurd rfl hret
  | cons r rs =>
    unfold sendDirect at hret hdev ⊢
    rw [if_neg hne] at hret hdev ⊢
    cases r with
    | eintr => exact (hdev ⟨p, .eintr⟩ List.mem_cons_self).elim
    | failed => exact (hdev ⟨p, .failed⟩ List.mem_cons_self).elim
    | eagain =>
      -- a packet always fits into the buffer
      have hfit : ¬ writeBufferMax < p.length := Nat.not_lt.mpr hp.2.le
      dsimp only
      rw [if_neg hfit]
      exact ⟨rfl, Or.inl ⟨rfl, rfl⟩⟩
    | accepted n =>
      cases n with
      | zero =>
        have hall : p.length ≤ 0 := hdev ⟨p, .accepted 0⟩ List.mem_cons_self
        exact absurd hp.1 (Nat.not_lt.mpr hall)
      | succ n =>
        have hall : p.length ≤ n + 1 := hdev ⟨p, .accepted (n + 1)⟩ List.mem_cons_self
        have hdone : sendDirect rs e (p.drop (n + 1)) = ⟨some true, e, [], rs, none⟩ := by
          rw [List.drop_of_length_le hall]
          unfold sendDirect
          rw [if_pos rfl]
        dsimp only
        rw [hdone]
        exact ⟨rfl, Or.inr ⟨n + 1, rfl, rfl⟩⟩

/-- A flush with nothing waiting makes no write. -/
theorem flushWriteBuffer_empty (rs : List WriteResult) {e : NetworkElement}
    (he : e.writeBuffer = []) : (flushWriteBuffer rs e).calls = [] ∧
      (flushWriteBuffer rs e).element = { e with writeBuffer := [], writeBufferOffset := 0 } := by
  unfold flushWriteBuffer
  rw [if_neg (by rw [he]; exact Nat.not_lt_zero _)]
  exact ⟨rfl, rfl⟩

/-- On such a device a flush makes one write, of all that waits. -/
theorem flushWriteBuffer_whole {rs : List WriteResult} {e : NetworkElement}
    (he : e.writeBuffer ≠ []) (hoff : e.writeBufferOffset = 0)
    (hret : (flushWriteBuffer rs e).returned ≠ none)
    (hdev : ∀ c ∈ (flushWriteBuffer rs e).calls, c.AllOrNothing) :
    (flushWriteBuffer rs e).calls = [⟨e.writeBuffer, .eagain⟩] ∧
        (flushWriteBuffer rs e).element = e ∨
      ∃ n, (flushWriteBuffer rs e).calls = [⟨e.writeBuffer, .accepted n⟩] ∧
        (flushWriteBuffer rs e).element =
          { e with writeBuffer := [], writeBufferOffset := 0 } := by
  have hpos : e.writeBufferOffset < e.writeBuffer.length := by
    rw [hoff]
    exact List.length_pos_iff.mpr he
  have hpend : e.pending = e.writeBuffer := by
    rw [NetworkElement.pending, hoff, List.drop_zero]
  cases rs with
  | nil =>
    rw [flushWriteBuffer, if_pos hpos] at hret
    exact absurd rfl hret
  | cons r rs =>
    unfold flushWriteBuffer at hret hdev ⊢
    rw [if_pos hpos] at hret hdev ⊢
    rw [hpend] at hdev ⊢
    cases r with
    | eintr => exact (hdev ⟨e.writeBuffer, .eintr⟩ List.mem_cons_self).elim
    | failed => exact (hdev ⟨e.writeBuffer, .failed⟩ List.mem_cons_self).elim
    | eagain => exact Or.inl ⟨rfl, rfl⟩
    | accepted n =>
      cases n with
      | zero =>
        have hall : e.writeBuffer.length ≤ 0 :=
          hdev ⟨e.writeBuffer, .accepted 0⟩ List.mem_cons_self
        exact absurd (List.length_pos_iff.mpr he) (Nat.not_lt.mpr hall)
      | succ n =>
        have hall : e.writeBuffer.length ≤ n + 1 :=
          hdev ⟨e.writeBuffer, .accepted (n + 1)⟩ List.mem_cons_self
        have hdone (e' : NetworkElement) (h : e'.writeBuffer.length ≤ e'.writeBufferOffset) :
            flushWriteBuffer rs e' = ⟨some true, { e' with
              writeBuffer := [], writeBufferOffset := 0 }, [], rs, some .epollin⟩ := by
          unfold flushWriteBuffer
          rw [if_neg (Nat.not_lt.mpr h)]
        dsimp only
        rw [hdone _ (by dsimp only; omega)]
        exact Or.inr ⟨n + 1, rfl, rfl⟩

namespace TunWriter

structure Tidy (w : TunWriter) : Prop where
  buffer_eq : w.element.writeBuffer = w.waiting.flatten
  offset_eq : w.element.writeBufferOffset = 0
  nonempty : ∀ p ∈ w.waiting, p ≠ []
  left : remaining w.writes w.packets = some w.waiting

variable {w : TunWriter}

theorem Tidy.start (tunFd : Fd) (data : ℕ) : Tidy (start tunFd data) where
  buffer_eq := rfl
  offset_eq := rfl
  nonempty _ hp := absurd hp List.not_mem_nil
  left := rfl

theorem Tidy.buffer_eq_nil (h : Tidy w) : w.element.writeBuffer = [] ↔ w.waiting = [] := by
  rw [h.buffer_eq, List.flatten_eq_nil_iff]
  constructor
  · intro hall
    exact List.eq_nil_iff_forall_not_mem.mpr fun p hp => h.nonempty p hp (hall p hp)
  · intro hnil p hp
    rw [hnil] at hp
    exact absurd hp List.not_mem_nil

inductive Effect (w : TunWriter) : BufferOp → TunWriter → Prop
  | refused (p rs) (hw : w.waiting ≠ []) :
      Effect w (.send p rs) { w with element := { w.element with state := .sckError } }
  | joined (p rs) (hw : w.waiting ≠ []) :
      Effect w (.send p rs) { w with
        element := { w.element with writeBuffer := w.element.writeBuffer ++ p }
        packets := w.packets ++ [p]
        waiting := w.waiting ++ [p] }
  | written (p rs n) (hw : w.waiting = []) :
      Effect w (.send p rs) { w with
        packets := w.packets ++ [p]
        writes := w.writes ++ [⟨p, .accepted n⟩]
        waiting := [] }
  | kept (p rs) (hw : w.waiting = []) :
      Effect w (.send p rs)
        { element := { w.element with writeBuffer := p, writeBufferOffset := 0 }
          packets := w.packets ++ [p]
          writes := w.writes ++ [⟨p, .eagain⟩]
          waiting := [p] }
  | idle (rs) (hw : w.waiting = []) : Effect w (.flush rs) { w with waiting := [] }
  | drained (rs n) (hw : w.waiting ≠ []) :
      Effect w (.flush rs) { w with
        element := { w.element with writeBuffer := [], writeBufferOffset := 0 }
        writes := w.writes ++ [⟨w.waiting.flatten, .accepted n⟩]
        waiting := [] }
  | full (rs) (hw : w.waiting ≠ []) :
      Effect w (.flush rs) { w with writes := w.writes ++ [⟨w.waiting.flatten, .eagain⟩] }

variable {op : BufferOp}

theorem step_eq {o : WriteOutcome} {ps : List Bytes} (ho : op.outcome w.element = o)
    (hps : op.taken w.element = ps) :
    w.step op = ⟨o.element, w.packets ++ ps, w.writes ++ o.calls,
      if o.element.writeBuffer = [] then [] else w.waiting ++ ps⟩ := by
  subst ho hps
  rfl

theorem Tidy.effect_send (h : Tidy w) {p : Bytes} {rs : List WriteResult}
    (hop : Promised w (.send p rs)) : Effect w (.send p rs) (w.step (.send p rs)) := by
  have hp : IpPacket p := hop.packet
  by_cases hb : w.element.writeBuffer = []
  · have hnil := h.buffer_eq_nil.mp hb
    have ho : (BufferOp.send p rs).outcome w.element = sendDirect rs w.element p :=
      if_neg (not_not.mpr hb)
    obtain ⟨hret, hcase⟩ := sendDirect_packet hp (ho ▸ hop.returned) (ho ▸ hop.device)
    have htaken : (BufferOp.send p rs).taken w.element = [p] := if_pos (by rw [ho, hret])
    rw [step_eq ho htaken]
    rcases hcase with ⟨hcalls, helem⟩ | ⟨n, hcalls, helem⟩
    · rw [hcalls, helem, if_neg (List.length_pos_iff.mp hp.1), hnil]
      exact .kept p rs hnil
    · rw [hcalls, helem, if_pos hb]
      exact .written p rs n hnil
  · have hne : w.waiting ≠ [] := fun hnil => hb (h.buffer_eq_nil.mpr hnil)
    by_cases hmax : writeBufferMax <
        w.element.writeBuffer.length - w.element.writeBufferOffset + p.length
    · have ho : (BufferOp.send p rs).outcome w.element =
          ⟨some false, { w.element with state := .sckError }, [], rs, none⟩ := by
        rw [BufferOp.outcome, send, if_pos hb, if_pos hmax]
      have htaken : (BufferOp.send p rs).taken w.element = [] := if_neg (by rw [ho]; simp)
      rw [step_eq ho htaken, if_neg hb, List.append_nil, List.append_nil, List.append_nil]
      exact .refused p rs hne
    · have ho : (BufferOp.send p rs).outcome w.element =
          ⟨some true, { w.element with writeBuffer := w.element.writeBuffer ++ p }, [], rs,
            none⟩ := by
        rw [BufferOp.outcome, send, if_pos hb, if_neg hmax]
      have htaken : (BufferOp.send p rs).taken w.element = [p] := if_pos (by rw [ho])
      rw [step_eq ho htaken, if_neg (List.append_ne_nil_of_left_ne_nil hb p), List.append_nil]
      exact .joined p rs hne

theorem Tidy.effect_flush (h : Tidy w) {rs : List WriteResult} (hop : Promised w (.flush rs)) :
    Effect w (.flush rs) (w.step (.flush rs)) := by
  have htaken : (BufferOp.flush rs).taken w.element = [] := rfl
  rw [step_eq rfl htaken, List.append_nil, List.append_nil, BufferOp.outcome]
  by_cases hb : w.element.writeBuffer = []
  · have hnil := h.buffer_eq_nil.mp hb
    have hsame : { w.element with writeBuffer := [], writeBufferOffset := 0 } = w.element := by
      rw [← hb, ← h.offset_eq]
    obtain ⟨hcalls, helem⟩ := flushWriteBuffer_empty rs hb
    rw [hcalls, helem, hsame, if_pos hb, List.append_nil]
    exact .idle rs hnil
  · have hne : w.waiting ≠ [] := fun hnil => hb (h.buffer_eq_nil.mpr hnil)
    rcases flushWriteBuffer_whole hb h.offset_eq hop.returned hop.device with
      ⟨hcalls, helem⟩ | ⟨n, hcalls, helem⟩
    · rw [hcalls, helem, if_neg hb, h.buffer_eq]
      exact .full rs hne
    · rw [hcalls, helem, if_pos rfl, h.buffer_eq]
      exact .drained rs n hne

theorem Tidy.effect (h : Tidy w) (hop : Promised w op) : Effect w op (w.step op) := by
  cases op with
  | send p rs => exact h.effect_send hop
  | flush rs => exact h.effect_flush hop

/-- Packets that a flush finds alone go out whole. -/
theorem Tidy.step (h : Tidy w) (hop : Promised w op) (halone : Alone w op) : Tidy (w.step op) := by
  have hsend (p : Bytes) : remaining w.writes (w.packets ++ [p]) = some (w.waiting ++ [p]) :=
    remaining_append_packets h.left [p]
  have heffect := h.effect hop
  generalize w.step op = w' at heffect ⊢
  cases heffect with
  | refused p rs hw => exact ⟨h.buffer_eq, h.offset_eq, h.nonempty, h.left⟩
  | joined p rs hw =>
    refine ⟨?_, h.offset_eq, ?_, hsend p⟩
    · simp [h.buffer_eq]
    · intro q hq
      rcases List.mem_append.mp hq with hq | hq
      · exact h.nonempty q hq
      · rw [List.mem_singleton.mp hq]
        exact List.length_pos_iff.mp hop.packet.1
  | written p rs n hw =>
    have hnext := hsend p
    rw [hw] at hnext
    refine ⟨h.buffer_eq_nil.mpr hw, h.offset_eq, fun _ hq => absurd hq List.not_mem_nil, ?_⟩
    exact remaining_concat hnext (.accepted n)
  | kept p rs hw =>
    have hnext := hsend p
    rw [hw] at hnext
    refine ⟨by simp, rfl, ?_, remaining_concat hnext .eagain⟩
    intro q hq
    rw [List.mem_singleton.mp hq]
    exact List.length_pos_iff.mp hop.packet.1
  | idle rs hw =>
    refine ⟨h.buffer_eq_nil.mpr hw, h.offset_eq, fun _ hq => absurd hq List.not_mem_nil, ?_⟩
    exact hw ▸ h.left
  | drained rs n hw =>
    obtain ⟨p, hp⟩ := List.length_eq_one_iff.mp (halone.antisymm (List.length_pos_iff.mpr hw))
    have hnext := h.left
    rw [hp] at hnext
    refine ⟨rfl, rfl, fun _ hq => absurd hq List.not_mem_nil, ?_⟩
    dsimp only
    rw [hp, List.flatten_singleton]
    exact remaining_concat hnext (.accepted n)
  | full rs hw =>
    obtain ⟨p, hp⟩ := List.length_eq_one_iff.mp (halone.antisymm (List.length_pos_iff.mpr hw))
    have hnext := h.left
    rw [hp] at hnext
    refine ⟨h.buffer_eq, h.offset_eq, h.nonempty, ?_⟩
    dsimp only
    rw [hp, List.flatten_singleton]
    exact remaining_concat hnext .eagain

def Broken (w : TunWriter) : Prop := ∀ more, remaining w.writes (w.packets ++ more) = none

theorem Broken.step (h : Broken w) (op : BufferOp) : Broken (w.step op) := by
  intro more
  rw [step_eq rfl rfl, List.append_assoc, remaining_append_writes, h]
  rfl

/-- Packets that a flush finds together go out as one write. -/
theorem Tidy.broken (h : Tidy w) (hop : Promised w op) (halone : ¬ Alone w op) :
    Broken (w.step op) := by
  have hjoined (r : WriteResult) (hw : 1 < w.waiting.length) (more : List Bytes) :
      remaining (w.writes ++ [⟨w.waiting.flatten, r⟩]) (w.packets ++ more) = none := by
    have hnext := remaining_append_packets h.left more
    have hne := h.nonempty
    cases hps : w.waiting with
    | nil => simp [hps] at hw
    | cons p ps =>
      cases ps with
      | nil => simp [hps] at hw
      | cons q ps =>
        rw [hps] at hnext hne
        refine remaining_concat_ne hnext fun heq => hne q (by simp) ?_
        have hnil : (q :: ps).flatten = [] := List.append_right_eq_self.mp heq
        exact List.flatten_eq_nil_iff.mp hnil q List.mem_cons_self
  have heffect := h.effect hop
  generalize w.step op = w' at heffect ⊢
  cases heffect with
  | refused p rs hw => exact absurd trivial halone
  | joined p rs hw => exact absurd trivial halone
  | written p rs n hw => exact absurd trivial halone
  | kept p rs hw => exact absurd trivial halone
  | idle rs hw => simp [Alone, hw] at halone
  | drained rs n hw => exact hjoined (.accepted n) (not_le.mp halone)
  | full rs hw => exact hjoined .eagain (not_le.mp halone)

theorem Tidy.onePacketEach_iff (h : Tidy w) {ops : List BufferOp}
    (hops : Runs.Steps TunWriter.step Promised w ops) :
    OnePacketEach (w.run ops) ↔ Runs.Steps TunWriter.step Alone w ops := by
  induction ops generalizing w with
  | nil => exact iff_of_true ⟨w.waiting, h.left⟩ trivial
  | cons op ops ih =>
    by_cases halone : Alone w op
    · exact (ih (h.step hops.1 halone) hops.2).trans (and_iff_right halone).symm
    · refine iff_of_false ?_ fun hsteps => halone hsteps.1
      rintro ⟨rest, hrest⟩
      have hbroken : Broken (w.run (op :: ops)) :=
        Runs.invariant_always (fun _ op h => h.step op) (h.broken hops.1 halone) ops
      have hnone := hbroken []
      rw [List.append_nil, hrest] at hnone
      simp at hnone

/-- A TUN device is given whole packets one by one if and only if no flush ever
finds two of them in the write buffer. -/
theorem tun_writes_one_packet_iff (tunFd : Fd) (data : ℕ) (ops : List BufferOp)
    (hops : Runs.Steps step Promised (start tunFd data) ops) :
    OnePacketEach ((start tunFd data).run ops) ↔
      Runs.Steps step Alone (start tunFd data) ops :=
  (Tidy.start tunFd data).onePacketEach_iff hops

def headerPacket (id : UInt8) : Bytes :=
  [0x45, 0, 0, 20, 0, id, 0, 0, 64, 1, 0, 0, 10, 0, 0, 1, 10, 0, 0, 2]

/-- A packet that finds the queue full, the flush that writes it and a second packet. -/
theorem tun_writes_one_packet_iff_full :
    OnePacketEach ((start 5 0).run [.send (headerPacket 1) [.eagain], .flush [.accepted 20],
      .send (headerPacket 2) [.accepted 20]]) :=
  (tun_writes_one_packet_iff 5 0 _ (by decide)).mpr (by decide)

/-- Two packets that find the queue full go out as one write of 40 bytes. -/
theorem tun_writes_join_packets :
    ¬ ∀ tunFd data ops, Runs.Steps step Promised (start tunFd data) ops →
      OnePacketEach ((start tunFd data).run ops) := by
  intro h
  obtain ⟨rest, hrest⟩ := h 5 0 [.send (headerPacket 1) [.eagain], .send (headerPacket 2) [],
    .flush [.accepted 40]] (by decide)
  have hnone : remaining [⟨headerPacket 1, .eagain⟩,
      ⟨headerPacket 1 ++ headerPacket 2, .accepted 40⟩]
      [headerPacket 1, headerPacket 2] = none := by
    decide
  exact Option.some_ne_none rest (hrest.symm.trans hnone)

end TunWriter

end VNet.NetQueue
