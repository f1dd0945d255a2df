import Mathlib.Algebra.Group.Int.Defs
import VNet.Dispatch
import VNet.Lib.Runs

namespace VNet
open Protocol NetQueue

/-- `ConnInfo`: what both programs keep in it, and what each keeps about the
peer. -/
structure ConnInfo (ρ : Type) where
  fd : Fd
  lastHbSent : ℤ
  peer : ρ
  deriving DecidableEq, Repr

/-- A packet handed over for sending on a descriptor, on behalf of the
`ConnInfo` at `info`, and what the call returned. -/
structure SendCall where
  info : ℕ
  fd : Fd
  type : PacketType
  body : Bytes
  ok : Bool
  deriving DecidableEq, Repr

/-- A program's globals, its heap of `ConnInfo`s, and the queue: the
descriptors in it with the `ptr` each was put in with. -/
structure Server (σ ρ : Type) where
  state : σ
  infos : FiniteMap ℕ (ConnInfo ρ)
  nextInfo : ℕ
  queue : FiniteMap Fd ℕ
  sent : List SendCall
  deriving DecidableEq

namespace Server

inductive Fault
  | freed (info : ℕ)
  deriving DecidableEq, Repr

variable {σ ρ : Type}

abbrev Run (σ ρ α : Type) := Exec (Server σ ρ) Fault α

def deref (p : ℕ) : Run σ ρ (ConnInfo ρ) := fun s =>
  match s.infos.lookup p with
  | some info => (.ok info, s)
  | none => (.error (.freed p), s)

def assign (p : ℕ) (f : ConnInfo ρ → ConnInfo ρ) : Run σ ρ Unit := do
  let info ← deref p
  Exec.change fun s => { s with infos := s.infos.insert p (f info) }

def delete (p : ℕ) : Run σ ρ Unit := do
  let _ ← deref p
  Exec.change fun s => { s with infos := s.infos.erase p }

def modify (f : σ → σ) : Run σ ρ Unit := Exec.change fun s => { s with state := f s.state }

/-- `NetQueue::close`: no callback is made. -/
def queueClose (fd : Fd) : Run σ ρ Unit := Exec.change fun s => { s with queue := s.queue.erase fd }

/-- `NetQueue::send` and `send_protobuf_packet`. The first finds no element for
a descriptor that is not in the queue, the second writes to one that is closed;
otherwise `ok` says how it goes. -/
def send (p : ℕ) (fd : Fd) (type : PacketType) (body : Option Bytes) (ok : Bool) :
    Run σ ρ Bool :=
  Exec.next fun s =>
    let r := ok && body.isSome && (s.queue.lookup fd).isSome
    (r, { s with sent := s.sent ++ [⟨p, fd, type, body.getD [], r⟩] })

def heartbeatInterval : ℤ := 30 * 10 ^ 9

/-- The lambda `try_hb` of `send_heartbeats`. -/
def tryHb (now : ℤ) (ok : Fd → Bool) (p : ℕ) : Run σ ρ Unit := do
  let c ← deref p
  if 0 ≤ c.fd ∧ heartbeatInterval ≤ now - c.lastHbSent then
    let _ ← send p c.fd .heartbeat (some []) (ok c.fd)
    assign p fun c => { c with lastHbSent := now }
  else pure ()

/-- The body of the loop around `accept4`. The kernel gives no descriptor that
is open. -/
def accept (fd : Fd) (info : ConnInfo ρ) (put : Bool) : Run σ ρ Unit :=
  Exec.change fun s =>
    if fd < 0 ∨ (s.queue.lookup fd).isSome then s
    else if put then
      { s with
        infos := s.infos.insert s.nextInfo info
        nextInfo := s.nextInfo + 1
        queue := s.queue.insert fd s.nextInfo }
    else { s with nextInfo := s.nextInfo + 1 }

def Holds (s : Server σ ρ) (fd : Fd) (p : ℕ) : Prop := s.queue.lookup fd = some p

instance (s : Server σ ρ) (fd : Fd) (p : ℕ) : Decidable (s.Holds fd p) :=
  inferInstanceAs (Decidable (_ = _))

def packetData (fd : Fd) (p : ℕ) (type : PacketType) (payload : Bytes) : SocketData :=
  ⟨fd, p, type, payload, payload.length, frame type payload, (frame type payload).length⟩

def socketReady (codec : Codec) (d : Dispatch (Server σ ρ) Fault) (data : SocketData) :
    Run σ ρ Unit := fun s =>
  if s.Holds data.fd data.ptrData then d.onSocketReady codec data s else (.ok (), s)

def socketClosed (d : Dispatch (Server σ ρ) Fault) (data : CloseData) : Run σ ρ Unit := fun s =>
  if s.Holds data.fd data.ptrData then
    (do d.onClose data; queueClose data.fd : Run σ ρ Unit) s
  else (.ok (), s)

variable {s s' : Server σ ρ} {p : ℕ} {info : ConnInfo ρ}

theorem deref_ok (h : s.infos.lookup p = some info) : (deref p : Run σ ρ _) s = (.ok info, s) := by
  simp only [deref, h]

theorem assign_ok (h : s.infos.lookup p = some info) (f : ConnInfo ρ → ConnInfo ρ) :
    (assign p f : Run σ ρ _) s = (.ok (), { s with infos := s.infos.insert p (f info) }) := by
  rw [assign, Exec.bind_ok (deref_ok h), Exec.change_apply]

theorem delete_ok (h : s.infos.lookup p = some info) :
    (delete p : Run σ ρ _) s = (.ok (), { s with infos := s.infos.erase p }) := by
  rw [delete, Exec.bind_ok (deref_ok h), Exec.change_apply]

def withState (s : Server σ ρ) (g : σ) : Server σ ρ := { s with state := g }

theorem withState_withState (s : Server σ ρ) (g g' : σ) :
    (s.withState g).withState g' = s.withState g' :=
  rfl

theorem delete_withState (h : s.infos.lookup p = some info) (g : σ) :
    (delete p : Run σ ρ _) (s.withState g) =
      (.ok (), { s with state := g, infos := s.infos.erase p }) :=
  delete_ok (s := s.withState g) h

theorem modify_apply (f : σ → σ) (s : Server σ ρ) :
    (modify f : Run σ ρ _) s = (.ok (), s.withState (f s.state)) :=
  rfl

theorem look_apply (s : Server σ ρ) :
    (Exec.look Server.state : Run σ ρ _) s = (.ok s.state, s) :=
  rfl

def sends (s : Server σ ρ) (fd : Fd) (body : Option Bytes) (ok : Bool) : Bool :=
  ok && body.isSome && (s.queue.lookup fd).isSome

def record (s : Server σ ρ) (c : SendCall) : Server σ ρ := { s with sent := s.sent ++ [c] }

theorem send_apply (s : Server σ ρ) (p : ℕ) (fd : Fd) (type : PacketType) (body : Option Bytes)
    (ok : Bool) : (send p fd type body ok : Run σ ρ _) s =
      (.ok (s.sends fd body ok), s.record ⟨p, fd, type, body.getD [], s.sends fd body ok⟩) :=
  rfl

theorem sends_withState (s : Server σ ρ) (g : σ) (fd : Fd) (body : Option Bytes) (ok : Bool) :
    (s.withState g).sends fd body ok = s.sends fd body ok :=
  rfl

theorem sends_record (s : Server σ ρ) (c : SendCall) (fd : Fd) (body : Option Bytes) (ok : Bool) :
    (s.record c).sends fd body ok = s.sends fd body ok :=
  rfl

/-- What heartbeats to some `ConnInfo`s leave as it was: all but the times in
them. Each call made on the way is on the descriptor of the `ConnInfo` it is made
for. -/
structure Kept (ps : List ℕ) (s s' : Server σ ρ) : Prop where
  state_eq : s'.state = s.state
  queue_eq : s'.queue = s.queue
  nextInfo_eq : s'.nextInfo = s.nextInfo
  infos_eq : ∀ p, (s'.infos.lookup p).map (fun i => (i.fd, i.peer)) =
    (s.infos.lookup p).map fun i => (i.fd, i.peer)
  sent_eq : ∃ calls, s'.sent = s.sent ++ calls ∧ ∀ c ∈ calls, c.type = .heartbeat ∧
    c.info ∈ ps ∧ ∃ info, s.infos.lookup c.info = some info ∧ c.fd = info.fd

variable {ps : List ℕ}

theorem Kept.refl (ps : List ℕ) (s : Server σ ρ) : Kept ps s s :=
  ⟨rfl, rfl, rfl, fun _ => rfl, [], (List.append_nil _).symm, by simp⟩

theorem Kept.before (h : Kept ps s s') (hp : s'.infos.lookup p = some info) :
    ∃ old, s.infos.lookup p = some old ∧ old.fd = info.fd ∧ old.peer = info.peer := by
  have heq := h.infos_eq p
  rw [hp, Option.map_some, eq_comm, Option.map_eq_some_iff] at heq
  obtain ⟨old, hold, hpair⟩ := heq
  exact ⟨old, hold, congrArg Prod.fst hpair, congrArg Prod.snd hpair⟩

theorem Kept.after (h : Kept ps s s') (hp : s.infos.lookup p = some info) :
    ∃ new, s'.infos.lookup p = some new ∧ new.fd = info.fd ∧ new.peer = info.peer := by
  have heq := h.infos_eq p
  rw [hp, Option.map_some, Option.map_eq_some_iff] at heq
  obtain ⟨new, hnew, hpair⟩ := heq
  exact ⟨new, hnew, congrArg Prod.fst hpair, congrArg Prod.snd hpair⟩

theorem tryHb_kept (s : Server σ ρ) (now : ℤ) (ok : Fd → Bool) (hmem : p ∈ ps) :
    Exec.Triple (Kept ps s) (tryHb now ok p) (fun _ => Kept ps s) fun _ => Kept ps s := by
  intro t ht
  cases hp : t.infos.lookup p with
  | none =>
    have hd : (deref p : Run σ ρ _) t = (.error (.freed p), t) := by simp only [deref, hp]
    rw [tryHb, Exec.bind_error hd]
    exact ht
  | some info =>
    rw [tryHb, Exec.bind_ok (deref_ok hp)]
    split_ifs with hdue
    · obtain ⟨old, hold, hfd, -⟩ := ht.before hp
      obtain ⟨calls, hsent, hcalls⟩ := ht.sent_eq
      rw [Exec.bind_ok (send_apply _ _ _ _ _ _), assign_ok (s := t.record _) hp]
      -- the heartbeat writes `lastHbSent` and nothing else
      refine ⟨ht.state_eq, ht.queue_eq, ht.nextInfo_eq, ?_, ?_⟩
      · intro q
        rw [← ht.infos_eq q, FiniteMap.lookup_insert_eq]
        split_ifs with hq
        · rw [hq, hp]
          rfl
        · rfl
      · refine ⟨calls ++ [⟨p, info.fd, .heartbeat, [], t.sends info.fd (some []) (ok info.fd)⟩],
          ?_, ?_⟩
        · rw [← List.append_assoc, ← hsent]
          rfl
        · intro c hc
          rcases List.mem_append.mp hc with hc | hc
          · exact hcalls c hc
          · rw [List.mem_singleton.mp hc]
            exact ⟨rfl, hmem, old, hold, hfd.symm⟩
    · exact ht

theorem forEach_tryHb_kept (s : Server σ ρ) (now : ℤ) (ok : Fd → Bool) (ps : List ℕ) :
    Kept ps s (Exec.forEach (tryHb now ok) ps s).2 := by
  have hstep : ∀ done p rest, ps = done ++ p :: rest →
      Exec.Triple (Kept ps s) (tryHb now ok p) (fun _ => Kept ps s) fun _ => Kept ps s :=
    fun done p rest hps => tryHb_kept s now ok (by simp [hps])
  have h := Exec.Triple.forEach_split (I := fun _ => Kept ps s) hstep [] ps rfl
  exact h.snd (Kept.refl ps s)

/-- Heartbeats to `ConnInfo`s that are allocated end without a fault. -/
theorem forEach_tryHb_ok (halive : ∀ p ∈ ps, ∃ info, s.infos.lookup p = some info) (now : ℤ)
    (ok : Fd → Bool) : (Exec.forEach (tryHb now ok) ps s).1 = .ok () := by
  have hstep : ∀ done p rest, ps = done ++ p :: rest →
      Exec.Triple (Kept ps s) (tryHb now ok p) (fun _ => Kept ps s) fun _ _ => False := by
    intro done p rest hps t ht
    have hmem : p ∈ ps := by simp [hps]
    obtain ⟨info, hinfo⟩ := halive p hmem
    obtain ⟨new, hnew, -⟩ := ht.after hinfo
    have hkept := tryHb_kept s now ok hmem t ht
    rw [tryHb, Exec.bind_ok (deref_ok hnew)] at hkept ⊢
    split_ifs at hkept ⊢ with hdue
    · rw [Exec.bind_ok (send_apply _ _ _ _ _ _), assign_ok (s := t.record _) hnew] at hkept ⊢
      exact hkept
    · exact hkept
  have h := Exec.Triple.forEach_split (I := fun _ => Kept ps s) hstep [] ps rfl
  exact h.fst_eq_ok (Kept.refl ps s)

/-- A heartbeat that is due is sent. -/
theorem forEach_tryHb_due {now : ℤ} (h : s.infos.lookup p = some info) (hfd : 0 ≤ info.fd)
    (hdue : heartbeatInterval ≤ now - info.lastHbSent) (ok : Fd → Bool) (ps : List ℕ) :
    ∃ c calls, (Exec.forEach (tryHb now ok) (p :: ps) s).2.sent = s.sent ++ c :: calls ∧
      c.info = p ∧ c.fd = info.fd := by
  let call : SendCall := ⟨p, info.fd, .heartbeat, [], s.sends info.fd (some []) (ok info.fd)⟩
  have hfirst : tryHb now ok p s = (.ok (), { s.record call with
      infos := s.infos.insert p { info with lastHbSent := now } }) := by
    rw [tryHb, Exec.bind_ok (deref_ok h), if_pos ⟨hfd, hdue⟩,
      Exec.bind_ok (send_apply _ _ _ _ _ _), assign_ok (s := s.record _) h]
    rfl
  have hrest := forEach_tryHb_kept { s.record call with
    infos := s.infos.insert p { info with lastHbSent := now } } now ok ps
  obtain ⟨calls, hsent, -⟩ := hrest.sent_eq
  refine ⟨call, calls, ?_, rfl, rfl⟩
  rw [Exec.forEach, Exec.bind_ok hfirst, hsent]
  simp [record]

/-- Every descriptor of the queue has its own `ConnInfo`, and the next one to
be allocated is new. -/
structure Wired (s : Server σ ρ) : Prop where
  alive : ∀ fd p, s.Holds fd p → ∃ info, s.infos.lookup p = some info ∧ info.fd = fd
  fresh : ∀ p info, s.infos.lookup p = some info → 0 < p ∧ p < s.nextInfo
  nextInfo_pos : 0 < s.nextInfo

theorem Wired.fd_unique (h : s.Wired) {fd fd' : Fd} {p : ℕ} (hp : s.Holds fd p)
    (hp' : s.Holds fd' p) : fd = fd' := by
  obtain ⟨info, hinfo, hfd⟩ := h.alive fd p hp
  obtain ⟨info', hinfo', hfd'⟩ := h.alive fd' p hp'
  rw [hinfo] at hinfo'
  rw [← hfd, ← hfd', Option.some.inj hinfo']

theorem Wired.nextInfo_free (h : s.Wired) : s.infos.lookup s.nextInfo = none := by
  by_contra hne
  obtain ⟨info, hinfo⟩ := Option.ne_none_iff_exists'.mp hne
  have hlt := (h.fresh _ _ hinfo).2
  omega

theorem Wired.not_holds_nextInfo (h : s.Wired) (fd : Fd) : ¬ s.Holds fd s.nextInfo := by
  intro hq
  obtain ⟨info, hinfo, -⟩ := h.alive fd _ hq
  rw [h.nextInfo_free] at hinfo
  simp at hinfo

/-- Only the queue and the heap matter. -/
theorem Wired.congr (h : s.Wired) (hqueue : s'.queue = s.queue) (hinfos : s'.infos = s.infos)
    (hnext : s'.nextInfo = s.nextInfo) : s'.Wired where
  alive fd p hp := by
    rw [Holds, hqueue] at hp
    rw [hinfos]
    exact h.alive fd p hp
  fresh p info hp := by
    rw [hinfos] at hp
    rw [hnext]
    exact h.fresh p info hp
  nextInfo_pos := by
    rw [hnext]
    exact h.nextInfo_pos

theorem Wired.kept (h : s.Wired) (hk : Kept ps s s') : s'.Wired where
  alive fd p hp := by
    rw [Holds, hk.queue_eq] at hp
    obtain ⟨info, hinfo, hfd⟩ := h.alive fd p hp
    obtain ⟨new, hnew, hnfd, -⟩ := hk.after hinfo
    exact ⟨new, hnew, hnfd.trans hfd⟩
  fresh p info hp := by
    obtain ⟨old, hold, -⟩ := hk.before hp
    rw [hk.nextInfo_eq]
    exact h.fresh p old hold
  nextInfo_pos := by
    rw [hk.nextInfo_eq]
    exact h.nextInfo_pos

/-- A connection leaves the queue; its `ConnInfo` may be left behind. -/
theorem Wired.queue_erase (h : s.Wired) (fd : Fd) : Wired { s with queue := s.queue.erase fd } where
  alive fd' p hp := by
    rw [Holds, FiniteMap.lookup_erase_eq] at hp
    split_ifs at hp with hfd
    exact h.alive fd' p hp
  fresh := h.fresh
  nextInfo_pos := h.nextInfo_pos

/-- A connection leaves the queue and its `ConnInfo` is deleted. -/
theorem Wired.erase (h : s.Wired) {fd : Fd} (hp : s.Holds fd p) :
    Wired { s with queue := s.queue.erase fd, infos := s.infos.erase p } where
  alive fd' p' hp' := by
    rw [Holds, FiniteMap.lookup_erase_eq] at hp'
    split_ifs at hp' with hfd
    have hne : p' ≠ p := by
      rintro rfl
      exact hfd (h.fd_unique hp' hp)
    rw [FiniteMap.lookup_erase_eq, if_neg hne]
    exact h.alive fd' p' hp'
  fresh p' info hp' := by
    rw [FiniteMap.lookup_erase_eq] at hp'
    split_ifs at hp' with hne
    exact h.fresh p' info hp'
  nextInfo_pos := h.nextInfo_pos

/-- A `ConnInfo` is overwritten, its descriptor stays. -/
theorem Wired.insert (h : s.Wired) (hp : s.infos.lookup p = some info) {new : ConnInfo ρ}
    (hfd : new.fd = info.fd) : Wired { s with infos := s.infos.insert p new } where
  alive fd p' hp' := by
    obtain ⟨info', hinfo', hfd'⟩ := h.alive fd p' hp'
    rw [FiniteMap.lookup_insert_eq]
    split_ifs with heq
    · rw [heq, hp] at hinfo'
      rw [← Option.some.inj hinfo'] at hfd'
      exact ⟨new, rfl, hfd.trans hfd'⟩
    · exact ⟨info', hinfo', hfd'⟩
  fresh p' info' hp' := by
    rw [FiniteMap.lookup_insert_eq] at hp'
    split_ifs at hp' with heq
    · rw [heq]
      exact h.fresh p info hp
    · exact h.fresh p' info' hp'
  nextInfo_pos := h.nextInfo_pos

/-- A new connection is put into the queue. -/
theorem Wired.accept (h : s.Wired) {fd : Fd} {new : ConnInfo ρ} (hnew : new.fd = fd) :
    Wired { s with
      infos := s.infos.insert s.nextInfo new
      nextInfo := s.nextInfo + 1
      queue := s.queue.insert fd s.nextInfo } where
  alive fd' p hp := by
    rw [Holds, FiniteMap.lookup_insert_eq] at hp
    rw [FiniteMap.lookup_insert_eq]
    split_ifs at hp with hfd
    · rw [Option.some.inj hp, if_pos rfl]
      exact ⟨new, rfl, hnew.trans hfd.symm⟩
    · obtain ⟨info, hinfo, hfd'⟩ := h.alive fd' p hp
      have hlt := (h.fresh p info hinfo).2
      rw [if_neg (by omega)]
      exact ⟨info, hinfo, hfd'⟩
  fresh p info hp := by
    rw [FiniteMap.lookup_insert_eq] at hp
    have hpos := h.nextInfo_pos
    split_ifs at hp with heq
    · rw [heq]
      exact ⟨hpos, Nat.lt_succ_self _⟩
    · obtain ⟨hp₀, hlt⟩ := h.fresh p info hp
      exact ⟨hp₀, by change p < s.nextInfo + 1; omega⟩
  nextInfo_pos := Nat.succ_pos _

theorem Wired.skip (h : s.Wired) : Wired { s with nextInfo := s.nextInfo + 1 } where
  alive := h.alive
  fresh p info hp := by
    obtain ⟨hp₀, hlt⟩ := h.fresh p info hp
    exact ⟨hp₀, by change p < s.nextInfo + 1; omega⟩
  nextInfo_pos := Nat.succ_pos _

end Server

end VNet
