import VNet.Common.SocketUtils
import VNet.NetQueue.Receive

namespace VNet.Common
open Protocol NetQueue

def served (rs : List BlockingRead) : ℕ := rs.countP BlockingRead.isUpTo

@[simp] theorem served_upTo (k : ℕ) (rs : List BlockingRead) :
    served (.upTo k :: rs) = served rs + 1 :=
  List.countP_cons_of_pos rfl

namespace ReadCall

variable {α β : Type}

/-- The call comes to this result and leaves the socket so; it needs no more
than `n` reads that give bytes, and while it waits it has not had them. -/
def Gives (call : ReadCall α) (rs : List BlockingRead) (n : ℕ) (result : Option α) (s : Socket) :
    Prop :=
  (call = .waiting ∧ served rs < n) ∨
    ∃ rest, call = .returned result rest s ∧ rest <:+ rs ∧ served rs ≤ served rest + n

theorem gives_returned (a : Option α) (rs : List BlockingRead) (s : Socket) :
    (ReadCall.returned a rs s).Gives rs 0 a s :=
  Or.inr ⟨rs, rfl, List.suffix_rfl, le_rfl⟩

theorem Gives.mono {call : ReadCall α} {rs : List BlockingRead} {n m : ℕ} {result : Option α}
    {s : Socket} (h : call.Gives rs n result s) (hnm : n ≤ m) : call.Gives rs m result s := by
  rcases h with ⟨hwait, hfew⟩ | ⟨rest, hret, hsuffix, hserved⟩
  · exact Or.inl ⟨hwait, hfew.trans_le hnm⟩
  · exact Or.inr ⟨rest, hret, hsuffix, hserved.trans (by omega)⟩

/-- One call after the other needs the reads of both. -/
theorem Gives.andThen {call : ReadCall α} {next : α → List BlockingRead → Socket → ReadCall β}
    {rs : List BlockingRead} {n m : ℕ} {a : α} {result : Option β} {s s' : Socket}
    (h : call.Gives rs n (some a) s)
    (hnext : ∀ rest, rest <:+ rs → (next a rest s).Gives rest m result s') :
    (call.andThen next).Gives rs (n + m) result s' := by
  rcases h with ⟨hwait, hfew⟩ | ⟨rest, hret, hsuffix, hserved⟩
  · rw [hwait]
    exact Or.inl ⟨rfl, by omega⟩
  · rw [hret]
    rcases hnext rest hsuffix with ⟨hwait, hfew⟩ | ⟨rest', hret', hsuffix', hserved'⟩
    · exact Or.inl ⟨hwait, by omega⟩
    · exact Or.inr ⟨rest', hret', hsuffix'.trans hsuffix, by omega⟩

/-- Enough reads that give bytes, and the call has returned. -/
theorem Gives.returns {call : ReadCall α} {rs : List BlockingRead} {n : ℕ} {result : Option α}
    {s : Socket} (h : call.Gives rs n result s) (hn : n ≤ served rs) :
    ∃ rest, call = .returned result rest s ∧ rest <:+ rs ∧ served rs ≤ served rest + n :=
  h.resolve_left fun hwait => absurd hwait.2 (Nat.not_lt.mpr hn)

/-- The call needs what lies behind the end of the stream: it returns false, or
it waits, for the peer or for its first `n` reads. -/
def Starves (call : ReadCall α) (rs : List BlockingRead) (n : ℕ) (closed : Bool) : Prop :=
  (call = .waiting ∧ (closed = true → served rs < n)) ∨ ∃ rest s, call = .returned none rest s

theorem Gives.andThen_starves {call : ReadCall α}
    {next : α → List BlockingRead → Socket → ReadCall β} {rs : List BlockingRead} {n m : ℕ} {a : α}
    {s : Socket} {closed : Bool} (h : call.Gives rs n (some a) s)
    (hnext : ∀ rest, rest <:+ rs → (next a rest s).Starves rest m closed) :
    (call.andThen next).Starves rs (n + m) closed := by
  rcases h with ⟨hwait, hfew⟩ | ⟨rest, hret, hsuffix, hserved⟩
  · rw [hwait]
    exact Or.inl ⟨rfl, fun _ => by omega⟩
  · rw [hret]
    refine (hnext rest hsuffix).imp_left ?_
    rintro ⟨hwait, hfew⟩
    exact ⟨hwait, fun hclosed => by have := hfew hclosed; omega⟩

theorem Starves.andThen {call : ReadCall α} {next : α → List BlockingRead → Socket → ReadCall β}
    {rs : List BlockingRead} {n : ℕ} {closed : Bool} (h : call.Starves rs n closed) :
    (call.andThen next).Starves rs n closed := by
  rcases h with ⟨hwait, hfew⟩ | ⟨rest, s, hret⟩
  · rw [hwait]
    exact Or.inl ⟨rfl, hfew⟩
  · rw [hret]
    exact Or.inr ⟨rest, s, rfl⟩

theorem Gives.cons {call : ReadCall α} {r : BlockingRead} {rs : List BlockingRead} {n d : ℕ}
    {result : Option α} {s : Socket} (h : call.Gives rs n result s)
    (hr : served (r :: rs) ≤ served rs + d) : call.Gives (r :: rs) (n + d) result s := by
  rcases h with ⟨hwait, hfew⟩ | ⟨rest, hret, hsuffix, hserved⟩
  · exact Or.inl ⟨hwait, by omega⟩
  · exact Or.inr ⟨rest, hret, hsuffix.trans (List.suffix_cons r rs), by omega⟩

theorem andThen_assoc {γ : Type} (call : ReadCall α)
    (next : α → List BlockingRead → Socket → ReadCall β)
    (last : β → List BlockingRead → Socket → ReadCall γ) :
    (call.andThen next).andThen last = call.andThen fun a rs s => (next a rs s).andThen last := by
  cases call with
  | waiting => rfl
  | returned result rest s => cases result <;> rfl

theorem andThen_congr {call : ReadCall α} {next next' : α → List BlockingRead → Socket → ReadCall β}
    (h : ∀ a rest s, call = .returned (some a) rest s → next a rest s = next' a rest s) :
    call.andThen next = call.andThen next' := by
  cases call with
  | waiting => rfl
  | returned result rest s =>
    cases result with
    | none => rfl
    | some a => exact h a rest s rfl

end ReadCall

/-- A call uses up answers from the front, one at least if bytes are missing. -/
theorem readNBytes_rest {n : ℕ} {rs rest : List BlockingRead} {got : Bytes} {s s' : Socket}
    {result : Option Bytes} (h : readNBytes n rs got s = .returned result rest s') :
    rest <:+ rs ∧ (got.length < n → rest.length < rs.length) := by
  induction rs generalizing got s with
  | nil =>
    unfold readNBytes at h
    split_ifs at h with hn
    obtain ⟨-, rfl, -⟩ := ReadCall.returned.inj h
    exact ⟨List.suffix_rfl, fun hlt => absurd hlt (Nat.not_lt.mpr hn)⟩
  | cons r rs ih =>
    have htail : rest <:+ rs →
        rest <:+ r :: rs ∧ (got.length < n → rest.length < (r :: rs).length) :=
      fun hrest => ⟨hrest.trans (List.suffix_cons r rs),
        fun _ => Nat.lt_succ_of_le hrest.length_le⟩
    unfold readNBytes at h
    split_ifs at h with hn
    · obtain ⟨-, rfl, -⟩ := ReadCall.returned.inj h
      exact ⟨List.suffix_rfl, fun hlt => absurd hlt (Nat.not_lt.mpr hn)⟩
    · apply htail
      cases r with
      | eintr => exact (ih h).1
      | failed =>
        obtain ⟨-, rfl, -⟩ := ReadCall.returned.inj h
        exact List.suffix_rfl
      | upTo k =>
        dsimp only at h
        split at h
        · obtain ⟨-, rfl, -⟩ := ReadCall.returned.inj h
          exact List.suffix_rfl
        · exact (ih h).1
        · exact absurd h (by simp)

/-- A buffer that is full returns at once. -/
theorem readNBytes_full {n : ℕ} {got : Bytes} (hn : n ≤ got.length) (rs : List BlockingRead)
    (s : Socket) : readNBytes n rs got s = .returned (some got) rs s := by
  unfold readNBytes
  rw [if_pos hn]

/-- With the bytes in the stream the call returns exactly these, however the
kernel divides them. The induction is on the kernel's answers. -/
theorem readNBytes_gives {rs : List BlockingRead} (hrs : ∀ r ∈ rs, r ≠ .failed) {n : ℕ}
    {got bs : Bytes} (hn : got.length + bs.length = n) (rest : Bytes) (closed : Bool) :
    (readNBytes n rs got ⟨bs ++ rest, closed⟩).Gives rs bs.length (some (got ++ bs))
      ⟨rest, closed⟩ := by
  induction rs generalizing got bs with
  | nil =>
    cases bs with
    | nil =>
      rw [readNBytes_full hn.ge, List.append_nil]
      exact ReadCall.gives_returned _ _ _
    | cons b bs =>
      rw [List.length_cons] at hn
      unfold readNBytes
      rw [if_neg (by omega)]
      exact Or.inl ⟨rfl, Nat.succ_pos _⟩
  | cons r rs ih =>
    have hrs' : ∀ r' ∈ rs, r' ≠ .failed := fun r' hr' => hrs r' (List.mem_cons_of_mem _ hr')
    cases bs with
    | nil =>
      rw [readNBytes_full hn.ge, List.append_nil]
      exact ReadCall.gives_returned _ _ _
    | cons b bs =>
      rw [List.length_cons] at hn
      unfold readNBytes
      rw [if_neg (by omega)]
      cases r with
      | failed => exact absurd rfl (hrs _ List.mem_cons_self)
      | eintr => exact (ih hrs' hn).cons (d := 0) le_rfl
      | upTo k =>
        -- the first byte and some of the others
        obtain ⟨m, hm⟩ : ∃ m, min (n - got.length) (k + 1) = m + 1 :=
          ⟨min (n - got.length) (k + 1) - 1, by omega⟩
        have hlen : (bs.take m).length = m := by
          rw [List.length_take]
          omega
        have hread : Socket.read ⟨b :: bs ++ rest, closed⟩ (n - got.length) (.upTo k) =
            (.bytes (b :: bs.take m), ⟨bs.drop m ++ rest, closed⟩) := by
          rw [Socket.read_upTo (by simp) (by omega), hm]
          simp only [List.cons_append, List.take_succ_cons, List.drop_succ_cons]
          rw [List.take_append_of_le_length (by omega), List.drop_append_of_le_length (by omega)]
        have hgot : (got ++ b :: bs.take m) ++ bs.drop m = got ++ b :: bs := by
          rw [List.append_assoc, List.cons_append, List.take_append_drop]
        have hnext : (readNBytes n rs (got ++ b :: bs.take m) ⟨bs.drop m ++ rest, closed⟩).Gives rs
            (bs.drop m).length (some (got ++ b :: bs.take m ++ bs.drop m)) ⟨rest, closed⟩ := by
          apply ih hrs'
          rw [List.length_append, List.length_cons, hlen, List.length_drop]
          omega
        rw [hgot] at hnext
        dsimp only
        rw [hread]
        refine (hnext.cons (r := .upTo k) (d := 1) (served_upTo k rs).le).mono ?_
        rw [List.length_drop, List.length_cons]
        omega

/-- At the end of the stream a call that wants more returns false, or waits for
the peer to write. -/
theorem readNBytes_starves {rs : List BlockingRead} (hrs : ∀ r ∈ rs, r ≠ .failed) {n : ℕ}
    (hn : 0 < n) (closed : Bool) : (readNBytes n rs [] ⟨[], closed⟩).Starves rs 1 closed := by
  have hmissing : ¬ n ≤ ([] : Bytes).length := Nat.not_le.mpr hn
  induction rs with
  | nil =>
    unfold readNBytes
    rw [if_neg hmissing]
    exact Or.inl ⟨rfl, fun _ => Nat.zero_lt_one⟩
  | cons r rs ih =>
    unfold readNBytes
    rw [if_neg hmissing]
    cases r with
    | failed => exact absurd rfl (hrs _ List.mem_cons_self)
    | eintr => exact ih fun r' hr' => hrs r' (List.mem_cons_of_mem _ hr')
    | upTo k =>
      have hread := Socket.read_upTo_nil (s := ⟨[], closed⟩) rfl hn.ne' k
      dsimp only
      rw [List.length_nil, Nat.sub_zero, hread]
      cases closed with
      | true => exact Or.inr ⟨rs, _, rfl⟩
      | false => exact Or.inl ⟨rfl, fun h => absurd h (by decide)⟩

/-- The check for a payload saves a call that would return at once. -/
theorem readNBytes_guarded (len : ℕ) (rs : List BlockingRead) (s : Socket) :
    (if 0 < len then readNBytes len rs [] s else .returned (some []) rs s) =
      readNBytes len rs [] s := by
  split_ifs with hlen
  · rfl
  · exact (readNBytes_full (Nat.le_of_not_lt hlen) rs s).symm

def skipRound (next : Bytes → List BlockingRead → Socket → ReadCall Bytes) (header : Bytes)
    (rs : List BlockingRead) (s : Socket) : ReadCall Bytes :=
  (readNBytes (getPayloadSize header).toNat rs [] s).andThen fun _ rs s =>
    (readNBytes packetHeaderSize rs [] s).andThen next

/-- What follows a round has fewer answers. -/
theorem skipRound_congr {next next' : Bytes → List BlockingRead → Socket → ReadCall Bytes}
    {header : Bytes} {rs : List BlockingRead} {s : Socket}
    (h : ∀ header rest s, rest.length < rs.length → next header rest s = next' header rest s) :
    skipRound next header rs s = skipRound next' header rs s := by
  apply ReadCall.andThen_congr
  intro _ rest s₁ hskip
  apply ReadCall.andThen_congr
  intro header' rest' s₂ hheader
  have hle := (readNBytes_rest hskip).1.length_le
  have hlt := (readNBytes_rest hheader).2 (by decide)
  exact h header' rest' s₂ (hlt.trans_le hle)

theorem skipHeartbeats_succ (k : ℕ) (header : Bytes) (rs : List BlockingRead) (s : Socket) :
    skipHeartbeats (k + 1) header rs s =
      if getPacketType header = .heartbeat then skipRound (skipHeartbeats k) header rs s
      else .returned (some header) rs s := by
  rw [skipHeartbeats]
  dsimp only
  rw [readNBytes_guarded]
  rfl

/-- More rounds than answers are as good as any number of them. -/
theorem skipHeartbeats_rounds {k k' : ℕ} {header : Bytes} {rs : List BlockingRead} {s : Socket}
    (hk : rs.length < k) (hk' : rs.length < k') :
    skipHeartbeats k header rs s = skipHeartbeats k' header rs s := by
  induction k generalizing k' header rs s with
  | zero => exact absurd hk (Nat.not_lt_zero _)
  | succ k ih =>
    obtain ⟨k', rfl⟩ := Nat.exists_eq_succ_of_ne_zero (Nat.ne_zero_of_lt hk')
    rw [skipHeartbeats_succ, skipHeartbeats_succ]
    congr 1
    exact skipRound_congr fun header rest s hlt => ih (by omega) (by omega)

/-- The loop as the source has it, without a bound on its rounds. -/
theorem skipHeartbeats_eq (header : Bytes) (rs : List BlockingRead) (s : Socket) :
    skipHeartbeats (rs.length + 1) header rs s =
      if getPacketType header = .heartbeat then
        skipRound (fun header rs s => skipHeartbeats (rs.length + 1) header rs s) header rs s
      else .returned (some header) rs s := by
  rw [skipHeartbeats_succ]
  congr 1
  exact skipRound_congr fun header rest s hlt => skipHeartbeats_rounds hlt (Nat.lt_succ_self _)

end VNet.Common
