import VNet.NetQueue.Link
import VNet.NetQueue.Progress

namespace VNet.NetQueue
open Protocol

/-- Whole frames leave nothing behind that could be a part of a payload. -/
theorem split_frames {ms : List (PacketType × Bytes)} (hfit : ∀ m ∈ ms, m.2.length ≤ payloadMax) :
    (framing.split (frames ms)).2.length < packetHeaderSize := by
  rw [LengthFraming.split_eq_of_flatten (t := []) (map_frame_isFrame hfit)
    LengthFraming.not_complete_nil (by rw [List.append_nil, frames, List.flatMap_def])]
  exact Nat.zero_lt_succ _

/-- On this socket `process` hands over these packets: in order and, once it has
read all that there is, all of them; and each of its calls returns. -/
structure Delivers (s : Socket) (ms : List (PacketType × Bytes)) : Prop where
  in_order : ∀ (fd : Fd) (ptr : ℕ) (calls : List (List Arrival)) (c : Conn),
    (∀ call ∈ calls, ∀ a ∈ call, a ≠ .broken) →
    (Conn.start fd ptr s.incoming s.closed).processAll calls = some c →
      c.packets <+: ms ∧ (c.socket.incoming = [] → c.packets = ms)
  returns : ∀ (fd : Fd) (ptr : ℕ) (calls : List (List Arrival)) (c : Conn),
    (∀ call ∈ calls, ∀ a ∈ call, a ≠ .broken) →
    (Conn.start fd ptr s.incoming s.closed).processAll calls = some c →
      ∀ arrivals : ℕ → Arrival, (∀ i, arrivals i ≠ .broken) →
        ∃ k c', c.process ((List.range k).map arrivals) = some c' ∧
          ((∀ i, arrivals i ≠ .notYet) → c'.packets = ms)

theorem Paused.packets_inOrder {ms : List (PacketType × Bytes)} {c : Conn}
    (h : Paused (frames ms) c) (hfit : ∀ m ∈ ms, m.2.length ≤ payloadMax) :
    c.packets <+: ms ∧ (c.socket.incoming = [] → c.packets = ms) := by
  obtain ⟨rest, hms, hrest⟩ := h.received.remaining hfit (List.append_nil _)
  refine ⟨⟨rest, hms.symm⟩, fun hin => ?_⟩
  rw [hin, List.append_nil, List.append_nil] at hrest
  have hnil := frames_eq_nil (fun m hm => hfit m (hms ▸ List.mem_append_right _ hm))
    (hrest ▸ h.incomplete)
  rw [hnil, List.append_nil] at hms
  exact hms.symm

theorem delivers_frames {ms : List (PacketType × Bytes)}
    (hfit : ∀ m ∈ ms, m.2.length ≤ payloadMax) (closed : Bool) :
    Delivers ⟨frames ms, closed⟩ ms where
  in_order fd ptr calls c hcalls hret := by
    have hstart := Paused.start fd ptr (frames ms) closed (Or.inr (split_frames hfit))
    exact (hstart.processAll hcalls hret).packets_inOrder hfit
  returns fd ptr calls c hcalls hret arrivals harr := by
    have hstart := Paused.start fd ptr (frames ms) closed (Or.inr (split_frames hfit))
    have h := (hstart.processAll hcalls hret).toFlowing
    obtain ⟨k, c', hret'⟩ := h.process_returns harr
    obtain ⟨h', hread⟩ := h.process (List.forall_mem_map.mpr fun i _ => harr i) hret'
    refine ⟨k, c', hret', fun hnot => (h'.packets_inOrder hfit).2 (hread ?_)⟩
    exact List.forall_mem_map.mpr fun i _ => hnot i

end VNet.NetQueue
