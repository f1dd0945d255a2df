import Mathlib.Logic.Function.Basic
import Mathlib.Tactic.Common

/-- One direction of a connection: what the receiver has read, and what is on
its way. -/
structure Channel (α : Type) where
  read : List α
  inFlight : List α
  deriving DecidableEq

namespace Channel

variable {α : Type}

def empty : Channel α := ⟨[], []⟩

def sent (c : Channel α) : List α := c.read ++ c.inFlight

def push (c : Channel α) (x : α) : Channel α := { c with inFlight := c.inFlight ++ [x] }

def pop (c : Channel α) : Channel α := ⟨c.read ++ c.inFlight.take 1, c.inFlight.drop 1⟩

theorem mem_sent_push (c : Channel α) (x y : α) : y ∈ (c.push x).sent ↔ y ∈ c.sent ∨ y = x := by
  simp [sent, push, or_assoc]

theorem sent_pop (c : Channel α) : c.pop.sent = c.sent := by
  rw [sent, pop, List.append_assoc, List.take_append_drop]
  rfl

theorem mem_read_pop {c : Channel α} {x y : α} {rest : List α} (h : c.inFlight = x :: rest) :
    y ∈ c.pop.read ↔ y ∈ c.read ∨ y = x := by
  simp [pop, h]

end Channel

inductive Side
  | client
  | server
  deriving DecidableEq, Repr

/-- A connection; `ends` says who is at its two ends. -/
structure Connection (κ α : Type) where
  ends : κ
  toServer : Channel α
  toClient : Channel α
  deriving DecidableEq

namespace Connection

variable {κ α : Type}

def out (c : Connection κ α) : Side → Channel α
  | .client => c.toServer
  | .server => c.toClient

def onOut (c : Connection κ α) (f : Channel α → Channel α) : Side → Connection κ α
  | .client => { c with toServer := f c.toServer }
  | .server => { c with toClient := f c.toClient }

@[simp] theorem onOut_ends (c : Connection κ α) (f : Channel α → Channel α) (side : Side) :
    (c.onOut f side).ends = c.ends := by
  cases side <;> rfl

theorem out_onOut (c : Connection κ α) (f : Channel α → Channel α) (side side' : Side) :
    (c.onOut f side).out side' = if side' = side then f (c.out side') else c.out side' := by
  cases side <;> cases side' <;> rfl

end Connection

abbrev Connections (κ α : Type) := ℕ → Option (Connection κ α)

namespace Connections

variable {κ α : Type}

def onOut (k : Connections κ α) (id : ℕ) (f : Channel α → Channel α) (side : Side) :
    Connections κ α :=
  match k id with
  | some c => Function.update k id (some (c.onOut f side))
  | none => k

def post (k : Connections κ α) (id : ℕ) (side : Side) (x : α) : Connections κ α :=
  k.onOut id (fun ch => ch.push x) side

def take (k : Connections κ α) (id : ℕ) (side : Side) : Connections κ α :=
  k.onOut id Channel.pop side

/-- Packets are sent one after the other; who is at the ends of a connection
says which side sends. -/
def postAll (side : κ → Side) (k : Connections κ α) : List (ℕ × α) → Connections κ α
  | [] => k
  | (id, x) :: rest =>
    match k id with
    | some c => postAll side (k.post id (side c.ends) x) rest
    | none => postAll side k rest

/-- In `k'` there is all that is in `k`, and perhaps more was sent and read. -/
def Grows (k k' : Connections κ α) : Prop :=
  ∀ id c, k id = some c → ∃ c', k' id = some c' ∧ c'.ends = c.ends ∧
    ∀ side, (∀ x ∈ (c.out side).sent, x ∈ (c'.out side).sent) ∧
      ∀ x ∈ (c.out side).read, x ∈ (c'.out side).read

/-- What was sent and read up to `k'` was up to `k`, or is new. -/
def Within (k k' : Connections κ α) (newSent newRead : ℕ → Side → α → Prop) : Prop :=
  ∀ id c', k' id = some c' → ∃ c, k id = some c ∧ c'.ends = c.ends ∧
    ∀ side, (∀ x ∈ (c'.out side).sent, x ∈ (c.out side).sent ∨ newSent id side x) ∧
      ∀ x ∈ (c'.out side).read, x ∈ (c.out side).read ∨ newRead id side x

variable {k k' k'' : Connections κ α} {id : ℕ} {c : Connection κ α} {side : Side}

theorem Grows.refl (k : Connections κ α) : Grows k k :=
  fun _ c hc => ⟨c, hc, rfl, fun _ => ⟨fun _ hx => hx, fun _ hx => hx⟩⟩

theorem Grows.trans (h : Grows k k') (h' : Grows k' k'') : Grows k k'' := by
  intro id c hc
  obtain ⟨c', hc', hends, hsub⟩ := h id c hc
  obtain ⟨c'', hc'', hends', hsub'⟩ := h' id c' hc'
  exact ⟨c'', hc'', hends'.trans hends, fun side =>
    ⟨fun x hx => (hsub' side).1 x ((hsub side).1 x hx),
      fun x hx => (hsub' side).2 x ((hsub side).2 x hx)⟩⟩

theorem Within.refl (k : Connections κ α) {newSent newRead : ℕ → Side → α → Prop} :
    Within k k newSent newRead :=
  fun _ c hc => ⟨c, hc, rfl, fun _ => ⟨fun _ hx => .inl hx, fun _ hx => .inl hx⟩⟩

theorem onOut_apply (k : Connections κ α) (id id' : ℕ) (f : Channel α → Channel α) (side : Side) :
    k.onOut id f side id' = if id' = id then (k id').map (fun c => c.onOut f side) else k id' := by
  unfold onOut
  split_ifs with h
  · subst h
    cases hk : k id' with
    | none => simp [hk]
    | some c => simp
  · cases hk : k id with
    | none => rfl
    | some c => simp [h]

/-- A change of one channel that loses nothing. -/
theorem grows_onOut (k : Connections κ α) (id : ℕ) {f : Channel α → Channel α} (side : Side)
    (hsent : ∀ ch : Channel α, ∀ x ∈ ch.sent, x ∈ (f ch).sent)
    (hread : ∀ ch : Channel α, ∀ x ∈ ch.read, x ∈ (f ch).read) :
    Grows k (k.onOut id f side) := by
  intro id' c hc
  rw [onOut_apply, hc]
  split_ifs
  · refine ⟨c.onOut f side, rfl, c.onOut_ends f side, fun side' => ?_⟩
    rw [Connection.out_onOut]
    split_ifs
    · exact ⟨hsent _, hread _⟩
    · exact ⟨fun _ hx => hx, fun _ hx => hx⟩
  · exact ⟨c, rfl, rfl, fun _ => ⟨fun _ hx => hx, fun _ hx => hx⟩⟩

theorem grows_post (k : Connections κ α) (id : ℕ) (side : Side) (x : α) :
    Grows k (k.post id side x) :=
  grows_onOut k id side (fun ch y hy => (ch.mem_sent_push x y).mpr (.inl hy)) fun _ _ hy => hy

theorem grows_take (k : Connections κ α) (id : ℕ) (side : Side) : Grows k (k.take id side) :=
  grows_onOut k id side (fun ch x hx => by rw [ch.sent_pop]; exact hx)
    fun _ _ hx => List.mem_append_left _ hx

/-- A new connection changes none that exists. -/
theorem grows_update (hk : k id = none) (c : Connection κ α) :
    Grows k (Function.update k id (some c)) := by
  intro id' c' hc'
  have hne : id' ≠ id := by
    rintro rfl
    rw [hk] at hc'
    simp at hc'
  rw [Function.update_of_ne hne]
  exact ⟨c', hc', rfl, fun _ => ⟨fun _ hx => hx, fun _ hx => hx⟩⟩

theorem grows_postAll (side : κ → Side) (k : Connections κ α) (posts : List (ℕ × α)) :
    Grows k (postAll side k posts) := by
  induction posts generalizing k with
  | nil => exact .refl k
  | cons p rest ih =>
    obtain ⟨id, x⟩ := p
    simp only [postAll]
    cases hk : k id with
    | none => exact ih k
    | some c => exact (grows_post k id (side c.ends) x).trans (ih _)

theorem Within.imp {P P' Q : ℕ → Side → α → Prop} (h : Within k k' P Q)
    (hP : ∀ id side x, P id side x → P' id side x) : Within k k' P' Q := by
  intro id c' hc'
  obtain ⟨c, hc, hends, hnew⟩ := h id c' hc'
  exact ⟨c, hc, hends, fun side =>
    ⟨fun x hx => ((hnew side).1 x hx).imp_right (hP id side x), (hnew side).2⟩⟩

theorem Within.trans {S S' R R' : ℕ → Side → α → Prop} (h : Within k k' S R)
    (h' : Within k' k'' S' R') : Within k k'' (fun id side x => S id side x ∨ S' id side x)
      fun id side x => R id side x ∨ R' id side x := by
  intro id c'' hc''
  obtain ⟨c', hc', hends', hnew'⟩ := h' id c'' hc''
  obtain ⟨c, hc, hends, hnew⟩ := h id c' hc'
  refine ⟨c, hc, hends'.trans hends, fun side => ⟨fun x hx => ?_, fun x hx => ?_⟩⟩
  · rcases (hnew' side).1 x hx with hx | hx
    · exact ((hnew side).1 x hx).imp_right .inl
    · exact .inr (.inr hx)
  · rcases (hnew' side).2 x hx with hx | hx
    · exact ((hnew side).2 x hx).imp_right .inl
    · exact .inr (.inr hx)

/-- What is taken has been read. -/
theorem mem_read_take {x : α} {rest : List α} (hk : k id = some c)
    (hx : (c.out side).inFlight = x :: rest) :
    ∃ c', k.take id side id = some c' ∧ c'.ends = c.ends ∧ x ∈ (c'.out side).read := by
  refine ⟨c.onOut Channel.pop side, ?_, c.onOut_ends _ _, ?_⟩
  · rw [take, onOut_apply, if_pos rfl, hk, Option.map_some]
  · rw [Connection.out_onOut, if_pos rfl]
    exact (Channel.mem_read_pop hx).mpr (.inr rfl)

theorem Within.take {x : α} {rest : List α} (hk : k id = some c)
    (hx : (c.out side).inFlight = x :: rest) :
    Within k (k.take id side) (fun _ _ _ => False)
      fun id' side' y => id' = id ∧ side' = side ∧ y = x := by
  intro id' c' hc'
  rw [Connections.take, onOut_apply] at hc'
  split_ifs at hc' with hid
  · rw [hid, hk, Option.map_some, Option.some.injEq] at hc'
    refine ⟨c, by rw [hid, hk], by rw [← hc', Connection.onOut_ends], fun side' => ?_⟩
    rw [← hc', Connection.out_onOut]
    split_ifs with hside
    · subst hside
      refine ⟨fun y hy => .inl (by rw [Channel.sent_pop] at hy; exact hy), fun y hy => ?_⟩
      exact ((Channel.mem_read_pop hx).mp hy).imp_right fun hyx => ⟨hid, rfl, hyx⟩
    · exact ⟨fun _ hy => .inl hy, fun _ hy => .inl hy⟩
  · exact ⟨c', hc', rfl, fun _ => ⟨fun _ hy => .inl hy, fun _ hy => .inl hy⟩⟩

/-- What is new after some packets were sent: these packets, each on the side
that is the sender's. -/
theorem Within.postAll (side : κ → Side) (k : Connections κ α) (posts : List (ℕ × α)) :
    Within k (Connections.postAll side k posts)
      (fun id side' x => (id, x) ∈ posts ∧ ∃ c, k id = some c ∧ side' = side c.ends)
      fun _ _ _ => False := by
  induction posts generalizing k with
  | nil => exact Within.refl k
  | cons p rest ih =>
    obtain ⟨id, x⟩ := p
    simp only [Connections.postAll]
    cases hk : k id with
    | none =>
      intro id' c' hc'
      obtain ⟨c, hc, hends, hnew⟩ := ih k id' c' hc'
      refine ⟨c, hc, hends, fun s => ⟨fun y hy => ?_, (hnew s).2⟩⟩
      exact ((hnew s).1 y hy).imp_right fun ⟨hmem, hside⟩ => ⟨List.mem_cons_of_mem _ hmem, hside⟩
    | some c₀ =>
      intro id' c' hc'
      obtain ⟨c, hc, hends, hnew⟩ := ih (k.post id (side c₀.ends) x) id' c' hc'
      rw [post, onOut_apply] at hc
      split_ifs at hc with hid
      · rw [hid, hk, Option.map_some, Option.some.injEq] at hc
        refine ⟨c₀, by rw [hid, hk], by rw [hends, ← hc, Connection.onOut_ends], fun s => ?_⟩
        have hfrom := congrArg (fun d => d.out s) hc
        simp only [Connection.out_onOut] at hfrom
        refine ⟨fun y hy => ?_, fun y hy => ?_⟩
        · -- there already, sent by this post or by a later one
          rcases (hnew s).1 y hy with hold | ⟨hmem, d, hd, hside⟩
          · rw [← hfrom] at hold
            split_ifs at hold with hs
            · rcases (Channel.mem_sent_push _ _ _).mp hold with hold | hyx
              · exact .inl hold
              · exact .inr ⟨by simp [hid, hyx], c₀, by rw [hid, hk], hs⟩
            · exact .inl hold
          · rw [post, onOut_apply, if_pos hid, hid, hk, Option.map_some, Option.some.injEq] at hd
            rw [← hd, Connection.onOut_ends] at hside
            exact .inr ⟨List.mem_cons_of_mem _ hmem, c₀, by rw [hid, hk], hside⟩
        · have hold := (hnew s).2 y hy
          rw [or_false, ← hfrom] at hold
          split_ifs at hold
          · exact .inl hold
          · exact .inl hold
      · refine ⟨c, hc, hends, fun s => ⟨fun y hy => ?_, (hnew s).2⟩⟩
        refine ((hnew s).1 y hy).imp_right fun ⟨hmem, d, hd, hside⟩ => ?_
        rw [post, onOut_apply, if_neg hid] at hd
        exact ⟨List.mem_cons_of_mem _ hmem, d, hd, hside⟩

def readFrom (k : Connections κ α) (id : ℕ) (side : Side) : List α :=
  ((k id).map fun c => (c.out side).read).getD []

theorem readFrom_some (h : k id = some c) (side : Side) :
    k.readFrom id side = (c.out side).read := by
  rw [readFrom, h]
  rfl

theorem readFrom_congr {id' : ℕ} (h : k' id' = k id') (side : Side) :
    k'.readFrom id' side = k.readFrom id' side := by
  rw [readFrom, readFrom, h]

theorem readFrom_onOut {id' : ℕ} {side' : Side} {f : Channel α → Channel α}
    (h : id' = id → side' = side → ∀ ch, (f ch).read = ch.read) (k : Connections κ α) :
    (k.onOut id f side).readFrom id' side' = k.readFrom id' side' := by
  rw [readFrom, readFrom, onOut_apply]
  split_ifs with hid
  · cases k id' with
    | none => rfl
    | some c =>
      simp only [Option.map_some, Option.getD_some, Connection.out_onOut]
      split_ifs with hside
      · exact h hid hside _
      · rfl
  · rfl

theorem readFrom_postAll (side : κ → Side) (k : Connections κ α) (posts : List (ℕ × α)) (id : ℕ)
    (side' : Side) : (k.postAll side posts).readFrom id side' = k.readFrom id side' := by
  induction posts generalizing k with
  | nil => rfl
  | cons p rest ih =>
    obtain ⟨id', x⟩ := p
    simp only [postAll]
    cases k id' with
    | none => exact ih k
    | some c =>
      exact (ih _).trans (readFrom_onOut (f := fun ch => ch.push x) (fun _ _ _ => rfl) k)

theorem readFrom_take_ne {id' : ℕ} {side' : Side} (h : id' = id → side' ≠ side)
    (k : Connections κ α) : (k.take id side).readFrom id' side' = k.readFrom id' side' :=
  readFrom_onOut (fun hid hside => absurd hside (h hid)) k

theorem readFrom_take {x : α} {rest : List α} (hk : k id = some c)
    (hx : (c.out side).inFlight = x :: rest) :
    (k.take id side).readFrom id side = k.readFrom id side ++ [x] := by
  rw [readFrom_some hk, readFrom, take, onOut_apply, if_pos rfl, hk]
  simp [Connection.out_onOut, Channel.pop, hx]

end Connections
