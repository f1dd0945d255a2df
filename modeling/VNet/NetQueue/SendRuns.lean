import VNet.Lib.Runs
import VNet.NetQueue.Write

namespace VNet.NetQueue
open Protocol

/-- A call on the write side of one element, with the kernel's answers to it.
A message whose `SerializeToString` fails has no body. -/
inductive SendOp
  | message (type : PacketType) (body : Option Bytes) (rs : List WriteResult)
  | heartbeat (rs : List WriteResult)
  | flush (rs : List WriteResult)
  deriving DecidableEq, Repr

namespace SendOp

def outcome (e : NetworkElement) : SendOp → WriteOutcome
  | message type body rs => sendMessage rs e type body
  | heartbeat rs => sendHeartbeat rs e
  | flush rs => flushWriteBuffer rs e

def given : SendOp → Option (PacketType × Bytes)
  | message type body _ => body.map (type, ·)
  | heartbeat _ => some (.heartbeat, [])
  | flush _ => none

end SendOp

def frames (ms : List (PacketType × Bytes)) : Bytes := ms.flatMap fun m => frame m.1 m.2

@[simp] theorem frames_append (ms ns : List (PacketType × Bytes)) :
    frames (ms ++ ns) = frames ms ++ frames ns :=
  List.flatMap_append

@[simp] theorem frames_singleton (m : PacketType × Bytes) : frames [m] = frame m.1 m.2 :=
  List.append_nil _

/-- One element as its callers see it: what the kernel has accepted, which
messages were sent and which were refused, and whether a write made by a send
has failed. -/
structure Sender where
  element : NetworkElement
  kernel : Bytes
  sent : List (PacketType × Bytes)
  refused : List (PacketType × Bytes)
  writeFailed : Bool
  deriving DecidableEq, Repr

namespace Sender

def start (e : NetworkElement) : Sender := ⟨e, [], [], [], false⟩

def step (s : Sender) (op : SendOp) : Sender where
  element := (op.outcome s.element).element
  kernel := s.kernel ++ (op.outcome s.element).accepted
  sent := if (op.outcome s.element).returned = some true then s.sent ++ op.given.toList else s.sent
  refused :=
    if (op.outcome s.element).returned = some false then s.refused ++ op.given.toList
    else s.refused
  writeFailed := s.writeFailed ||
    op.given.isSome && (op.outcome s.element).calls.any fun w => decide w.Failed

def run (s : Sender) (ops : List SendOp) : Sender := Runs.run step s ops

end Sender

theorem SendOp.outcome_given {e : NetworkElement} {op : SendOp} {m : PacketType × Bytes}
    (hop : op.given = some m) (hok : WriteOk e) :
    ∃ x, SendSpec e (frame m.1 m.2) x (op.outcome e) := by
  cases op with
  | message type body rs =>
    cases body with
    | none => simp [given] at hop
    | some body =>
      obtain rfl : (type, body) = m := Option.some.inj hop
      exact sendMessage_spec rs e type body hok
  | heartbeat rs =>
    obtain rfl : (PacketType.heartbeat, []) = m := Option.some.inj hop
    exact sendHeartbeat_spec rs e hok
  | flush rs => simp [given] at hop

theorem SendOp.outcome_not_given {e : NetworkElement} {op : SendOp} (hop : op.given = none)
    (hok : WriteOk e) :
    Commits e [] (op.outcome e) ∧ (op.outcome e).element.state = e.state := by
  cases op with
  | message type body rs =>
    cases body with
    | none => exact ⟨.unchanged hok rfl rfl rfl, rfl⟩
    | some body => simp [given] at hop
  | heartbeat rs => simp [given] at hop
  | flush rs => exact flushWriteBuffer_spec rs e hok.offset_le hok.pending_le

namespace Sender

def Returns (s : Sender) (op : SendOp) : Prop := (op.outcome s.element).returned ≠ none

instance (s : Sender) (op : SendOp) : Decidable (Returns s op) :=
  inferInstanceAs (Decidable (_ ≠ _))

/-- A call that returns; and no message is given to an element on which one was
refused for want of room, or whose connection a send has found broken. -/
def Ok (s : Sender) (op : SendOp) : Prop :=
  Returns s op ∧ (op.given ≠ none → s.element.state ≠ .sckError ∧ s.writeFailed = false)

instance (s : Sender) (op : SendOp) : Decidable (Ok s op) :=
  inferInstanceAs (Decidable (_ ∧ (_ → _)))

/-- The stream `a` is a front of the frames sent, or all of them and then a
part of one that was refused. -/
def StreamOk (s : Sender) (a : Bytes) : Prop :=
  a <+: frames s.sent ∨
    ∃ m ∈ s.refused, ∃ p, p ≠ [] ∧ p <+: frame m.1 m.2 ∧ p ≠ frame m.1 m.2 ∧ a = frames s.sent ++ p

structure Left (s : Sender) (x : Bytes) : Prop where
  writeOk : WriteOk s.element
  stream_eq : s.kernel ++ s.element.pending = frames s.sent ++ x
  refused : x ≠ [] → (∃ m ∈ s.refused, x <+: frame m.1 m.2 ∧ x ≠ frame m.1 m.2) ∧
    (s.element.state = .sckError ∨ s.writeFailed = true)

theorem Left.start {e : NetworkElement} (hok : WriteOk e) (he : e.pending = []) :
    Left (Sender.start e) [] where
  writeOk := hok
  stream_eq := by
    rw [Sender.start, he]
    rfl
  refused h := absurd rfl h

/-- A call without a message moves waiting bytes and changes nothing else. -/
theorem step_not_given {s : Sender} {op : SendOp} (hok : WriteOk s.element)
    (hop : op.given = none) :
    WriteOk (s.step op).element ∧ (s.step op).kernel ++ (s.step op).element.pending =
      s.kernel ++ s.element.pending ∧ (s.step op).sent = s.sent ∧
      (s.step op).refused = s.refused ∧ (s.step op).element.state = s.element.state ∧
      (s.step op).writeFailed = s.writeFailed := by
  obtain ⟨hc, hst⟩ := SendOp.outcome_not_given hop hok
  refine ⟨hc.writeOk, ?_, ?_, ?_, hst, ?_⟩
  · have heq := hc.stream_eq
    rw [List.append_nil] at heq
    simp only [step, List.append_assoc]
    rw [heq]
  · simp [step, hop]
  · simp [step, hop]
  · simp [step, hop]

theorem Left.step {s : Sender} {x : Bytes} {op : SendOp} (h : Left s x) (hok : Ok s op) :
    ∃ y, Left (s.step op) y := by
  cases hop : op.given with
  | none =>
    obtain ⟨hw, heq, hsent, href, hst, hf⟩ := step_not_given h.writeOk hop
    refine ⟨x, hw, ?_, ?_⟩
    · rw [heq, hsent, h.stream_eq]
    · rw [href, hst, hf]
      exact h.refused
  | some m =>
    obtain ⟨hst, hf⟩ := hok.2 (by simp [hop])
    -- a part of a message is only left over after a failure, and then no more is given
    have hx : x = [] := by
      by_contra hx
      rcases (h.refused hx).2 with h' | h'
      · exact hst h'
      · rw [hf] at h'
        exact absurd h' (by decide)
    obtain ⟨y, hy⟩ := SendOp.outcome_given hop h.writeOk
    have heq : (s.step op).kernel ++ (s.step op).element.pending = frames s.sent ++ y := by
      simp only [Sender.step, List.append_assoc]
      rw [← hy.commits.stream_eq, ← List.append_assoc, h.stream_eq, hx, List.append_nil]
    cases hret : (op.outcome s.element).returned with
    | none => exact absurd hret hok.1
    | some b =>
      cases b with
      | true =>
        obtain ⟨rfl, -⟩ := hy.sent hret
        refine ⟨[], hy.commits.writeOk, ?_, fun hne => absurd rfl hne⟩
        rw [heq]
        simp [Sender.step, hret, hop]
      | false =>
        obtain ⟨hne, herr⟩ := hy.refused hret
        refine ⟨y, hy.commits.writeOk, ?_, fun _ => ⟨⟨m, ?_, hy.isPrefix, hne⟩, ?_⟩⟩
        · rw [heq]
          simp [Sender.step, hret]
        · simp [Sender.step, hret, hop]
        · refine herr.imp id ?_
          rintro ⟨w, hw, hfail⟩
          have hany : (op.outcome s.element).calls.any (fun w => decide w.Failed) = true :=
            List.any_eq_true.mpr ⟨w, hw, decide_eq_true hfail⟩
          simp [Sender.step, hop, hany]

theorem Left.run {s : Sender} {x : Bytes} (h : Left s x) {ops : List SendOp}
    (hops : Runs.Steps Sender.step Ok s ops) : ∃ y, Left (s.run ops) y :=
  Runs.invariant (I := fun s => ∃ x, Left s x) (fun _ _ ⟨_, hx⟩ hok => hx.step hok) ⟨x, h⟩ hops

theorem Left.streamOk {s : Sender} {x : Bytes} (h : Left s x) {a : Bytes} (ha : a <+: s.kernel) :
    StreamOk s a := by
  have hpre : a <+: frames s.sent ++ x := by
    rw [← h.stream_eq]
    exact ha.trans (List.prefix_append _ _)
  rcases List.prefix_or_prefix_of_prefix hpre (List.prefix_append _ _) with hle | ⟨p, rfl⟩
  · exact Or.inl hle
  · have hp : p <+: x := (List.prefix_append_right_inj _).mp hpre
    by_cases hnil : p = []
    · rw [hnil, List.append_nil]
      exact Or.inl List.prefix_rfl
    · have hx : x ≠ [] := by
        rintro rfl
        exact hnil (List.prefix_nil.mp hp)
      obtain ⟨⟨m, hm, hxm, hne⟩, -⟩ := h.refused hx
      refine Or.inr ⟨m, hm, p, hnil, hp.trans hxm, ?_, rfl⟩
      rintro rfl
      exact hne (hxm.eq_of_length_le hp.length_le)

/-- Once part of a refused message stands in the stream, no byte is added to it. -/
theorem Left.final {s : Sender} {x : Bytes} (h : Left s x) (hx : x ≠ []) {ops : List SendOp}
    (hops : Runs.Steps Sender.step Ok s ops) :
    (s.run ops).kernel ++ (s.run ops).element.pending = s.kernel ++ s.element.pending := by
  induction ops generalizing s with
  | nil => rfl
  | cons op ops ih =>
    obtain ⟨hok, hops⟩ := hops
    have hop : op.given = none := by
      by_contra hne
      obtain ⟨hst, hf⟩ := hok.2 hne
      rcases (h.refused hx).2 with h' | h'
      · exact hst h'
      · rw [hf] at h'
        exact absurd h' (by decide)
    obtain ⟨hw, heq, hsent, href, hst, hf⟩ := step_not_given h.writeOk hop
    have hleft : Left (s.step op) x := by
      refine ⟨hw, ?_, ?_⟩
      · rw [heq, hsent, h.stream_eq]
      · rw [href, hst, hf]
        exact h.refused
    exact (ih hleft hops).trans heq

/-- A message that was refused spoils nothing, as long as no other is given to
the element after one was refused for want of room or met a broken connection:
the kernel's bytes, also between two writes of one call, are a front of the
frames sent, or these and then a part of one refused frame; and once there is
such a part, nothing more is written or buffered than was buffered before. -/
theorem refused_message_final (fd : Fd) (ptr : ℕ) (state : FiniteStateMachine) (ops : List SendOp)
    (hops : Runs.Steps step Ok (start (.new fd ptr state)) ops) :
    (∀ a, a <+: ((start (.new fd ptr state)).run ops).kernel →
      StreamOk ((start (.new fd ptr state)).run ops) a) ∧
    ∀ before later, ops = before ++ later →
      ¬ ((start (.new fd ptr state)).run before).kernel <+:
        frames ((start (.new fd ptr state)).run before).sent →
      ((start (.new fd ptr state)).run ops).kernel ++
          ((start (.new fd ptr state)).run ops).element.pending =
        ((start (.new fd ptr state)).run before).kernel ++
          ((start (.new fd ptr state)).run before).element.pending := by
  have hstart : Left (start (.new fd ptr state)) [] := .start (.new fd ptr state) rfl
  constructor
  · intro a ha
    obtain ⟨y, hy⟩ := hstart.run hops
    exact hy.streamOk ha
  · rintro before later rfl hpart
    obtain ⟨hbefore, hlater⟩ := (Runs.steps_append _ _ _).mp hops
    obtain ⟨y, hy⟩ := hstart.run hbefore
    -- `y` is what the kernel had taken of a refused message
    have hne : y ≠ [] := by
      rintro rfl
      have heq := hy.stream_eq
      rw [List.append_nil] at heq
      exact hpart (heq ▸ List.prefix_append _ _)
    have hfinal := hy.final hne hlater
    rwa [run, run, ← Runs.run_append] at hfinal

theorem refused_message_final_torn :
    let ops : List SendOp := [.heartbeat [.accepted 6],
      .message .agentMip (some [7]) [.accepted 6, .failed], .flush []]
    Runs.Steps step Ok (start (.new 5 0 .sckHeader)) ops ∧
      StreamOk ((start (.new 5 0 .sckHeader)).run ops)
        ((start (.new 5 0 .sckHeader)).run ops).kernel := by
  have hops : Runs.Steps step Ok (start (.new 5 0 .sckHeader)) [.heartbeat [.accepted 6],
      .message .agentMip (some [7]) [.accepted 6, .failed], .flush []] := by
    decide
  exact ⟨hops, (refused_message_final 5 0 .sckHeader _ hops).1 _ List.prefix_rfl⟩

/-- The header of a message goes out, its body finds no room, and the heartbeat
that follows is written behind the header. -/
theorem refused_message_not_final :
    ¬ ∀ ops : List SendOp,
      Runs.Steps step Returns (start (.new 5 0 .sckHeader)) ops →
      StreamOk ((start (.new 5 0 .sckHeader)).run ops)
        ((start (.new 5 0 .sckHeader)).run ops).kernel := by
  intro h
  -- only the length of the body matters, so it is never computed
  have hlen : (List.replicate 65537 (7 : UInt8)).length = 65537 := List.length_replicate
  generalize List.replicate 65537 (7 : UInt8) = body at hlen
  have hne : body ≠ [] := by
    rintro rfl
    simp at hlen
  have hhdr : packetHeader (.ofNat body.length) .agentMip = [0, 1, 0, 1, 0, 2] := by
    rw [hlen]
    decide
  have hmsg : (SendOp.message .agentMip (some body) [.accepted 6, .eagain]).outcome
      (.new 5 0 .sckHeader) =
      ⟨some false, { NetworkElement.new 5 0 .sckHeader with state := .sckError },
        [⟨[0, 1, 0, 1, 0, 2], .accepted 6⟩, ⟨body, .eagain⟩], [], none⟩ := by
    simp only [SendOp.outcome, sendMessage, hhdr]
    simp [send, sendDirect, sendBody, NetworkElement.new, WriteOutcome.after, hne, hlen,
      writeBufferMax]
  have hstep : (start (.new 5 0 .sckHeader)).step
      (.message .agentMip (some body) [.accepted 6, .eagain]) =
      ⟨{ NetworkElement.new 5 0 .sckHeader with state := .sckError }, [0, 1, 0, 1, 0, 2], [],
        [(.agentMip, body)], false⟩ := by
    simp [Sender.step, start, hmsg, SendOp.given, WriteOutcome.accepted, WriteCall.taken,
      WriteCall.Failed]
  have hreturns : Returns (start (.new 5 0 .sckHeader))
      (.message .agentMip (some body) [.accepted 6, .eagain]) := by
    simp [Returns, start, hmsg]
  have hreturns' : Returns ((start (.new 5 0 .sckHeader)).step
      (.message .agentMip (some body) [.accepted 6, .eagain])) (.heartbeat [.accepted 6]) := by
    rw [hstep]
    change ((SendOp.heartbeat [.accepted 6]).outcome
      { NetworkElement.new 5 0 .sckHeader with state := .sckError }).returned ≠ none
    decide
  have hok := h [.message .agentMip (some body) [.accepted 6, .eagain], .heartbeat [.accepted 6]]
    ⟨hreturns, hreturns', trivial⟩
  have hrun : (start (.new 5 0 .sckHeader)).run
      [.message .agentMip (some body) [.accepted 6, .eagain], .heartbeat [.accepted 6]] =
      ⟨{ NetworkElement.new 5 0 .sckHeader with state := .sckError },
        [0, 1, 0, 1, 0, 2, 0, 0, 0, 0, 0, 0], [(.heartbeat, [])], [(.agentMip, body)], false⟩ := by
    rw [run, Runs.run_cons, hstep]
    rfl
  rw [hrun] at hok
  have hsent : frames [(.heartbeat, [])] = [0, 0, 0, 0, 0, 0] := by decide
  simp only [StreamOk, hsent] at hok
  rcases hok with hok | ⟨-, -, p, -, -, -, hp⟩
  · exact absurd hok (by decide)
  · simp at hp

end Sender

end VNet.NetQueue
