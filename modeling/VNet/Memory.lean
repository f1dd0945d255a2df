import VNet.NetQueue.Refinement
import VNet.Server

namespace VNet
open Protocol NetQueue

/-- A packet handed over for sending: for which `ConnInfo`, on which descriptor,
its type and its body. -/
abbrev Request := ℕ × Fd × PacketType × Bytes

def SendCall.request (c : SendCall) : Request := (c.info, c.fd, c.type, c.body)

/-- `g_state`, the `ConnInfo`s on the heap, the packets handed over so far and
what the clock, and whatever else is asked with it, will answer. `misused` tells
that a `ConnInfo` was used that was not allocated. -/
structure Memory (α σ ρ : Type) where
  state : σ
  infos : FiniteMap ℕ (ConnInfo ρ)
  nextInfo : ℕ
  sent : List Request
  answers : ℕ → α
  misused : Bool

namespace Memory

variable {α σ ρ : Type} (m : Memory α σ ρ)

def answer : α := m.answers 0

abbrev now (m : Memory ℤ σ ρ) : ℤ := m.answer

def tick : Memory α σ ρ := { m with answers := fun n => m.answers (n + 1) }

def withState (g : σ) : Memory α σ ρ := { m with state := g }

def alloc (info : ConnInfo ρ) : Memory α σ ρ :=
  { m with infos := m.infos.insert m.nextInfo info, nextInfo := m.nextInfo + 1 }

def discard : Memory α σ ρ := { m with nextInfo := m.nextInfo + 1 }

def misuse : Memory α σ ρ := { m with misused := true }

def deref (p : ℕ) (f : ConnInfo ρ → Memory α σ ρ) : Memory α σ ρ :=
  match m.infos.lookup p with
  | some info => f info
  | none => m.misuse

def assign (p : ℕ) (f : ConnInfo ρ → ConnInfo ρ) : Memory α σ ρ :=
  m.deref p fun info => { m with infos := m.infos.insert p (f info) }

def delete (p : ℕ) : Memory α σ ρ := m.deref p fun _ => { m with infos := m.infos.erase p }

def note (r : Request) : Memory α σ ρ := { m with sent := m.sent ++ [r] }

theorem deref_some {p : ℕ} {info : ConnInfo ρ} (h : m.infos.lookup p = some info)
    (f : ConnInfo ρ → Memory α σ ρ) : m.deref p f = f info := by
  rw [deref, h]

theorem answers_deref {answers : ℕ → α} (hm : m.answers = answers) (p : ℕ)
    {f : ConnInfo ρ → Memory α σ ρ} (hf : ∀ info, (f info).answers = answers) :
    (m.deref p f).answers = answers := by
  unfold deref
  split
  · exact hf _
  · exact hm

theorem answers_assign (p : ℕ) (f : ConnInfo ρ → ConnInfo ρ) :
    (m.assign p f).answers = m.answers :=
  m.answers_deref rfl p fun _ => rfl

theorem answers_delete (p : ℕ) : (m.delete p).answers = m.answers :=
  m.answers_deref rfl p fun _ => rfl

end Memory

section
variable {κ α σ ρ : Type}

/-- `NetQueue::send(fd, type, msg)` in a handler that does not look at its
result; `body` is what `SerializeToString` gives. -/
def queueSend (fd : Fd) (type : PacketType) (body : Option Bytes)
    (next : Reaction (Memory α σ ρ)) : Reaction (Memory α σ ρ) :=
  match body with
  | none => next
  | some body =>
    .send fd (packetHeader (.ofNat body.length) type) fun sent =>
      if sent ∧ body ≠ [] then .send fd body fun _ => next else next

/-- A descriptor that `accept4` gives, whether epoll takes it, and whether the
map does. -/
structure Client where
  fd : Fd
  added : Bool
  stored : Bool
  deriving DecidableEq, Repr

def Client.put (c : Client) : Bool := c.added && c.stored

/-- The body of the loop around `accept4`; the descriptor is not one that is open. -/
def acceptClient (time : α → ℤ) (peer : ρ) (c : Client) : NetQueue.Run κ (Memory α σ ρ) Unit :=
  Exec.change fun w =>
    if c.fd < 0 ∨ (w.queue.fdToNetworkElement.lookup c.fd).isSome then w
    else
      { w with
        queue := (w.queue.put c.fd w.user.nextInfo .sckHeader c.added c.stored).2
        user := if (w.queue.put c.fd w.user.nextInfo .sckHeader c.added c.stored).1.isSome then
          w.user.tick.alloc ⟨c.fd, time w.user.answer, peer⟩ else w.user.tick.discard }

/-- The lambda `try_hb` of `send_heartbeats`. -/
def tryHb (kernel : Kernel κ) (now : ℤ) (p : ℕ) : NetQueue.Run κ (Memory α σ ρ) Unit := do
  let m ← Exec.look World.user
  match m.infos.lookup p with
  | none => Exec.change fun w => { w with user := w.user.misuse }
  | some c =>
    if 0 ≤ c.fd ∧ Server.heartbeatInterval ≤ now - c.lastHbSent then do
      let _ ← sendOn kernel c.fd (packetHeader 0 .heartbeat)
      Exec.change fun w => { w with
        user := (w.user.note (p, c.fd, .heartbeat, [])).assign p fun c =>
          { c with lastHbSent := now } }
    else pure ()

def sendHeartbeats (kernel : Kernel κ) (time : α → ℤ) (listed : σ → List ℕ) :
    NetQueue.Run κ (Memory α σ ρ) Unit := do
  let m ← Exec.look World.user
  Exec.change fun w => { w with user := w.user.tick }
  Exec.forEach (tryHb kernel (time m.answer)) (listed m.state)

end

variable {κ α σ ρ : Type}

/-- Between the two these answers were given, in their order; one may be listed twice. -/
def Reads (answers answers' : ℕ → α) (as : List α) : Prop :=
  ∃ n, ∃ ns : List ℕ, ns.Pairwise (· ≤ ·) ∧ (∀ i ∈ ns, i ≤ n) ∧ as = ns.map answers ∧
    answers' = fun i => answers (i + n)

theorem Reads.refl (answers : ℕ → α) : Reads answers answers [] :=
  ⟨0, [], .nil, by simp, rfl, rfl⟩

/-- The next answer, which stays the next. -/
theorem Reads.ahead (answers : ℕ → α) : Reads answers answers [answers 0] :=
  ⟨0, [0], by simp, by simp, rfl, rfl⟩

theorem Reads.once (answers : ℕ → α) : Reads answers (fun i => answers (i + 1)) [answers 0] :=
  ⟨1, [0], by simp, by simp, rfl, rfl⟩

theorem Reads.append {answers answers' answers'' : ℕ → α} {as as' : List α}
    (h : Reads answers answers' as) (h' : Reads answers' answers'' as') :
    Reads answers answers'' (as ++ as') := by
  obtain ⟨n, ns, hns, hle, rfl, rfl⟩ := h
  obtain ⟨n', ns', hns', hle', rfl, rfl⟩ := h'
  refine ⟨n' + n, ns ++ ns'.map (· + n), ?_, fun i hi => ?_, ?_, ?_⟩
  · refine List.pairwise_append.mpr ⟨hns, ?_, fun i hi j hj => ?_⟩
    · exact List.pairwise_map.mpr (hns'.imp fun hij => Nat.add_le_add_right hij n)
    · -- what comes later was read behind all of the first part
      obtain ⟨j', -, rfl⟩ := List.mem_map.mp hj
      exact (hle i hi).trans (Nat.le_add_left n j')
  · rcases List.mem_append.mp hi with hi | hi
    · exact (hle i hi).trans (Nat.le_add_left n n')
    · obtain ⟨j, hj, rfl⟩ := List.mem_map.mp hi
      exact Nat.add_le_add_right (hle' j hj) n
  · rw [List.map_append, List.map_map]
    rfl
  · funext i
    rw [← Nat.add_assoc]

/-- The memory and the table are those of the program, but for the results of its
sends. -/
structure Agrees (v : View (Memory α σ ρ)) (s : Server σ ρ) : Prop where
  state : s.state = v.user.state
  infos : s.infos = v.user.infos
  nextInfo : s.nextInfo = v.user.nextInfo
  sent : s.sent.map SendCall.request = v.user.sent
  held : ∀ fd, s.queue.lookup fd = v.held fd
  used : v.user.misused = false

section
variable {v : View (Memory α σ ρ)} {s : Server σ ρ}

theorem Agrees.tick (h : Agrees v s) : Agrees { v with user := v.user.tick } s :=
  ⟨h.state, h.infos, h.nextInfo, h.sent, h.held, h.used⟩

theorem Agrees.withState (h : Agrees v s) (g : σ) :
    Agrees { v with user := v.user.withState g } (s.withState g) :=
  ⟨rfl, h.infos, h.nextInfo, h.sent, h.held, h.used⟩

theorem Agrees.drop (h : Agrees v s) (fd : Fd) :
    Agrees (v.drop fd) { s with queue := s.queue.erase fd } where
  state := h.state
  infos := h.infos
  nextInfo := h.nextInfo
  sent := h.sent
  held fd' := by rw [FiniteMap.lookup_erase_eq, View.held_drop, h.held]
  used := h.used

theorem Agrees.note (h : Agrees v s) (c : SendCall) :
    Agrees { v with user := v.user.note c.request } (s.record c) where
  state := h.state
  infos := h.infos
  nextInfo := h.nextInfo
  sent := by
    rw [Server.record, List.map_append, h.sent]
    rfl
  held := h.held
  used := h.used

theorem Agrees.lookup (h : Agrees v s) {p : ℕ} {info : ConnInfo ρ}
    (hp : s.infos.lookup p = some info) : v.user.infos.lookup p = some info := by
  rw [← h.infos, hp]

theorem Agrees.assign (h : Agrees v s) {p : ℕ} {info : ConnInfo ρ}
    (hp : s.infos.lookup p = some info) (f : ConnInfo ρ → ConnInfo ρ) :
    Agrees { v with user := v.user.assign p f } { s with infos := s.infos.insert p (f info) } := by
  have hinfos : s.infos.insert p (f info) = v.user.infos.insert p (f info) := by rw [h.infos]
  rw [Memory.assign, Memory.deref_some _ (h.lookup hp)]
  exact ⟨h.state, hinfos, h.nextInfo, h.sent, h.held, h.used⟩

theorem Agrees.delete (h : Agrees v s) {p : ℕ} {info : ConnInfo ρ}
    (hp : s.infos.lookup p = some info) :
    Agrees { v with user := v.user.delete p } { s with infos := s.infos.erase p } := by
  have hinfos : s.infos.erase p = v.user.infos.erase p := by rw [h.infos]
  rw [Memory.delete, Memory.deref_some _ (h.lookup hp)]
  exact ⟨h.state, hinfos, h.nextInfo, h.sent, h.held, h.used⟩

theorem Agrees.holds (h : Agrees v s) {fd : Fd} {p : ℕ} : s.Holds fd p ↔ v.held fd = some p := by
  rw [Server.Holds, h.held]

theorem reacts_done {user : Memory α σ ρ} {v' : View (Memory α σ ρ)}
    (h : View.Reacts (.done user) v v') : v' = { v with user := user } := by
  cases h with
  | done => rfl

theorem reacts_close {fd : Fd} {user : Memory α σ ρ} {v' : View (Memory α σ ρ)}
    (h : View.Reacts (.close fd (.done user)) v v') : v' = { v.drop fd with user := user } := by
  cases h with
  | close h => exact reacts_done h

/-- A callback that the handler makes nothing of. -/
theorem nothing_agrees (h : Agrees v s) {v' : View (Memory α σ ρ)}
    (hreacts : View.Reacts (.done v.user) v v') : Agrees v' s := by
  rw [reacts_done hreacts]
  exact h

theorem reads_done {user : Memory α σ ρ} {v' : View (Memory α σ ρ)}
    (h : View.Reacts (.done user) v v')
    (hreads : Reads v.user.answers user.answers [v.user.answer]) :
    Reads v.user.answers v'.user.answers [v.user.answer] := by
  rw [reacts_done h]
  exact hreads

/-- An `onClose` takes the `ConnInfo` out of `g_state` and deletes it. -/
theorem Agrees.closed (h : Agrees v s) {p : ℕ} {info : ConnInfo ρ} (hne : p ≠ 0)
    (hp : s.infos.lookup p = some info) (g : ConnInfo ρ → σ) :
    Agrees
      { v with user :=
        if p = 0 then v.user else v.user.deref p fun info => (v.user.withState (g info)).delete p }
      { s.withState (g info) with infos := s.infos.erase p } := by
  rw [if_neg hne, Memory.deref_some _ (h.lookup hp)]
  exact (h.withState (g info)).delete hp

theorem reads_closed (m : Memory α σ ρ) (p : ℕ) (g : ConnInfo ρ → σ) :
    Reads m.answers (if p = 0 then m
      else m.deref p fun info => (m.withState (g info)).delete p).answers [m.answer] := by
  split_ifs
  · exact .ahead _
  · rw [m.answers_deref rfl p fun info => Memory.answers_delete (m.withState (g info)) p]
    exact .ahead _

theorem View.returned_user (v : View σ) (c : Called) : (v.returned c).user = v.user := by
  cases c <;> rfl

/-- What a handler's send does to the table and the memory: nothing. -/
theorem reacts_queueSend {fd : Fd} {type : PacketType} {body : Option Bytes}
    {next : Reaction (Memory α σ ρ)} {v' : View (Memory α σ ρ)}
    (h : View.Reacts (queueSend fd type body next) v v') : View.Reacts next v v' := by
  cases body with
  | none => exact h
  | some body =>
    cases h with
    | send sent _ h =>
      dsimp only at h
      split_ifs at h
      · cases h with
        | send sent' _ h => exact h
      · exact h

end

structure Passes (w w' : World κ (Memory α σ ρ)) (cs : List Called) (as : List α) : Prop where
  inv : w'.queue.Inv
  log_eq : w'.log.map (·.called) = w.log.map (·.called) ++ cs
  reads : Reads w.user.answers w'.user.answers as

theorem Passes.silent {w w' : World κ (Memory α σ ρ)} {as : List α} (hinv : w'.queue.Inv)
    (hlog : w'.log = w.log) (hreads : Reads w.user.answers w'.user.answers as) :
    Passes w w' [] as :=
  ⟨hinv, by rw [hlog, List.append_nil], hreads⟩

theorem Passes.refl {w : World κ (Memory α σ ρ)} (hinv : w.queue.Inv) : Passes w w [] [] :=
  .silent hinv rfl (.refl _)

theorem Passes.trans {w w' w'' : World κ (Memory α σ ρ)} {cs cs' : List Called} {as as' : List α}
    (h : Passes w w' cs as) (h' : Passes w' w'' cs' as') :
    Passes w w'' (cs ++ cs') (as ++ as') where
  inv := h'.inv
  log_eq := by rw [h'.log_eq, h.log_eq, List.append_assoc]
  reads := h.reads.append h'.reads

section
variable {w : World κ (Memory α σ ρ)} {s : Server σ ρ}

theorem put_isSome {q : Queue} (hinv : q.Inv) {fd : Fd}
    (hfree : q.fdToNetworkElement.lookup fd = none) (ptr : ℕ) (state : FiniteStateMachine)
    (added stored : Bool) :
    (q.put fd ptr state added stored).1.isSome = (added && stored) := by
  have hepoll : q.epoll.lookup fd = none := by
    rw [← Option.map_eq_none_iff, hinv.registered fd, hfree]
  cases added <;> cases stored <;> simp [Queue.put, hepoll]

/-- A descriptor that is free goes into both tables or into neither. -/
theorem Agrees.held_put (hinv : w.queue.Inv) (h : Agrees w.view s) {fd : Fd}
    (hfree : w.queue.fdToNetworkElement.lookup fd = none) (p : ℕ) (added stored : Bool) (fd' : Fd) :
    (if (added && stored) = true then s.queue.insert fd p else s.queue).lookup fd' =
      (w.queue.put fd p .sckHeader added stored).2.ptrOf fd' := by
  have hheld : w.queue.ptrOf fd = none := hinv.ptrOf_eq_none.mpr hfree
  have hsame : s.queue.lookup fd' = w.queue.ptrOf fd' := h.held fd'
  rw [hinv.ptrOf_put]
  by_cases hok : added = true ∧ stored = true
  · have hput : added = true ∧ w.queue.ptrOf fd = none ∧ stored = true := ⟨hok.1, hheld, hok.2⟩
    rw [if_pos hput, if_pos (by rwa [Bool.and_eq_true]), Function.update_apply,
      FiniteMap.lookup_insert_eq, hsame]
  · rw [if_neg (by rwa [Bool.and_eq_true]), if_neg (fun hput => hok ⟨hput.1, hput.2.2⟩), hsame]

theorem acceptClient_agrees (hinv : w.queue.Inv) (time : α → ℤ) (peer : ρ) (c : Client) :
    Exec.Ends (· = w) (acceptClient time peer c) fun _ w' =>
      Passes w w' [] [w.user.answer] ∧ ∀ s : Server σ ρ, Agrees w.view s → Agrees w'.view
        (Server.accept c.fd ⟨c.fd, time w.user.answer, peer⟩ c.put s).2 := by
  apply Exec.Triple.change
  rintro v rfl
  have hfree : ∀ s : Server σ ρ, Agrees v.view s →
      (s.queue.lookup c.fd).isSome = (v.queue.fdToNetworkElement.lookup c.fd).isSome := by
    intro s h
    rw [h.held, Bool.eq_iff_iff, Option.isSome_iff_ne_none, Option.isSome_iff_ne_none]
    exact not_congr hinv.ptrOf_eq_none
  by_cases hopen : c.fd < 0 ∨ (v.queue.fdToNetworkElement.lookup c.fd).isSome = true
  · rw [if_pos hopen]
    refine ⟨.silent hinv rfl (.ahead _), fun s h => ?_⟩
    rw [← hfree s h] at hopen
    rw [Server.accept, Exec.change_apply, if_pos hopen]
    exact h
  · have hnone : v.queue.fdToNetworkElement.lookup c.fd = none := by
      rw [not_or, Bool.not_eq_true, Option.isSome_eq_false_iff, Option.isNone_iff_eq_none] at hopen
      exact hopen.2
    rw [if_neg hopen, put_isSome hinv hnone]
    refine ⟨.silent (hinv.put _ _ _ _ _) rfl ?_, fun s h => ?_⟩
    · dsimp only
      split_ifs <;> exact .once _
    · have hheld := h.held_put hinv hnone s.nextInfo c.added c.stored
      have hnext : v.user.nextInfo = s.nextInfo := h.nextInfo.symm
      rw [← hfree s h] at hopen
      rw [Server.accept, Exec.change_apply, if_neg hopen, hnext, Client.put]
      by_cases hok : (c.added && c.stored) = true
      · rw [if_pos hok, if_pos hok]
        simp only [if_pos hok] at hheld
        refine ⟨h.state, ?_, congrArg (· + 1) h.nextInfo, h.sent, hheld, h.used⟩
        change s.infos.insert _ _ = v.user.infos.insert _ _
        rw [h.infos, h.nextInfo]
        rfl
      · rw [if_neg hok, if_neg hok]
        simp only [if_neg hok] at hheld
        exact ⟨h.state, h.infos, congrArg (· + 1) h.nextInfo, h.sent, hheld, h.used⟩

theorem tryHb_eq {p : ℕ} {info : ConnInfo ρ} (hp : s.infos.lookup p = some info) (now : ℤ)
    (ok : Fd → Bool) : Server.tryHb now ok p s = (.ok (),
      if 0 ≤ info.fd ∧ Server.heartbeatInterval ≤ now - info.lastHbSent then
        { s.record ⟨p, info.fd, .heartbeat, [], s.sends info.fd (some []) (ok info.fd)⟩ with
          infos := s.infos.insert p { info with lastHbSent := now } }
      else s) := by
  rw [Server.tryHb, Exec.bind_ok (Server.deref_ok hp)]
  split_ifs
  · rw [Exec.bind_ok (Server.send_apply _ _ _ _ _ _), Server.assign_ok (s := s.record _) hp]
    rfl
  · rfl

/-- One heartbeat; how its send goes does not show. -/
theorem tryHb_agrees (kernel : Kernel κ) (hinv : w.queue.Inv) (p : ℕ) (now : ℤ)
    (ok : Fd → Bool) :
    Exec.Ends (· = w) (tryHb kernel now p) fun _ w' => Passes w w' [] [] ∧
      ∀ s : Server σ ρ, Agrees w.view s → (∃ info, s.infos.lookup p = some info) →
        Agrees w'.view (Server.tryHb now ok p s).2 := by
  apply Exec.Triple.bind (Q := fun m v => m = w.user ∧ v = w)
  · apply Exec.Triple.look
    rintro v rfl
    exact ⟨rfl, rfl⟩
  · rintro m v ⟨rfl, rfl⟩
    cases hp : v.user.infos.lookup p with
    | none =>
      refine ⟨.silent hinv rfl (.refl _), fun s h halive => ?_⟩
      obtain ⟨info, hinfo⟩ := halive
      have hp' : v.user.infos.lookup p = some info := h.lookup hinfo
      rw [hp] at hp'
      simp at hp'
    | some info =>
      have hserver : ∀ s : Server σ ρ, Agrees v.view s → s.infos.lookup p = some info := by
        intro s h
        rw [h.infos]
        exact hp
      by_cases hdue : 0 ≤ info.fd ∧ Server.heartbeatInterval ≤ now - info.lastHbSent
      · simp only [if_pos hdue]
        have hvisible : Visible (Showing v v.log v.view) := Showing.visible
        have hstart : Showing v v.log v.view v := ⟨hinv, fun _ _ hfd => hfd, rfl, rfl⟩
        refine Exec.Triple.bind (sendOn_visible hvisible kernel info.fd _) (fun _ => ?_) v hstart
        apply Exec.Triple.change
        rintro u ⟨hu, -⟩
        have huser : u.user = v.user := congrArg View.user hu.view_eq
        refine ⟨.silent hu.inv hu.log_eq ?_, fun s h _ => ?_⟩
        · dsimp only
          rw [Memory.answers_assign, huser]
          exact .refl _
        · have hs := hserver s h
          rw [tryHb_eq hs, if_pos hdue]
          rw [← hu.view_eq] at h
          have hnoted := h.note ⟨p, info.fd, .heartbeat, [],
            s.sends info.fd (some []) (ok info.fd)⟩
          exact hnoted.assign hs fun c => { c with lastHbSent := now }
      · simp only [if_neg hdue]
        refine ⟨.refl hinv, fun s h _ => ?_⟩
        rw [tryHb_eq (hserver s h), if_neg hdue]
        exact h

theorem forEach_tryHb_agrees (kernel : Kernel κ) (now : ℤ) (ok : Fd → Bool) (ps : List ℕ)
    (hinv : w.queue.Inv) :
    Exec.Ends (· = w) (Exec.forEach (tryHb kernel now) ps) fun _ w' => Passes w w' [] [] ∧
      ∀ s : Server σ ρ, Agrees w.view s → (∀ p ∈ ps, ∃ info, s.infos.lookup p = some info) →
        Agrees w'.view (Exec.forEach (Server.tryHb now ok) ps s).2 := by
  induction ps generalizing w with
  | nil =>
    apply Exec.Triple.pure
    rintro v rfl
    exact ⟨.refl hinv, fun s h _ => h⟩
  | cons p ps ih =>
    apply Exec.Ends.intro
    rintro v rfl _ w' hrun
    obtain ⟨_, t, hfirst, hrest⟩ := Exec.bind_eq_ok hrun
    obtain ⟨ht, hagrees⟩ := (tryHb_agrees kernel hinv p now ok).of_eq rfl hfirst
    obtain ⟨hw', hagrees'⟩ := (ih ht.inv).of_eq rfl hrest
    refine ⟨ht.trans hw', fun s h halive => ?_⟩
    rw [List.forall_mem_cons] at halive
    obtain ⟨⟨info, hp⟩, halive⟩ := halive
    have hkept : Server.Kept [p] s (Server.tryHb now ok p s).2 :=
      (Server.tryHb_kept s now ok (List.mem_singleton_self p)).snd (Server.Kept.refl _ s)
    have hok : Server.tryHb now ok p s = (.ok (), (Server.tryHb now ok p s).2) := by
      rw [tryHb_eq hp]
    rw [Exec.forEach, Exec.bind_ok hok]
    refine hagrees' _ (hagrees s h ⟨info, hp⟩) fun q hq => ?_
    obtain ⟨i, hi⟩ := halive q hq
    obtain ⟨i', hi', -⟩ := hkept.after hi
    exact ⟨i', hi'⟩

theorem sendHeartbeats_agrees (kernel : Kernel κ) (time : α → ℤ) (listed : σ → List ℕ)
    (ok : Fd → Bool) (hinv : w.queue.Inv) :
    Exec.Ends (· = w) (sendHeartbeats kernel time listed) fun _ w' =>
      Passes w w' [] [w.user.answer] ∧ ∀ s : Server σ ρ, Agrees w.view s →
        (∀ p ∈ listed s.state, ∃ info, s.infos.lookup p = some info) → Agrees w'.view
          (Exec.forEach (Server.tryHb (time w.user.answer) ok) (listed s.state) s).2 := by
  apply Exec.Triple.bind (Q := fun m v => m = w.user ∧ v = w)
  · apply Exec.Triple.look
    rintro v rfl
    exact ⟨rfl, rfl⟩
  · rintro m v ⟨rfl, rfl⟩
    refine Exec.Triple.bind (P := (· = v)) (Q := fun _ u => u = { v with user := v.user.tick })
      (.change fun u hu => by rw [hu]) (fun _ => ?_) v rfl
    have hread : Passes v { v with user := v.user.tick } [] [v.user.answer] :=
      .silent hinv rfl (.once _)
    apply (forEach_tryHb_agrees (w := { v with user := v.user.tick }) kernel
      (time v.user.answer) ok (listed v.user.state) hinv).values
    rintro _ w' ⟨hw', hagrees⟩
    refine ⟨hread.trans hw', fun s h halive => ?_⟩
    have hstate : s.state = v.user.state := h.state
    rw [hstate] at halive ⊢
    exact hagrees s h.tick halive

end

/-- In each callback the handler does what the program does on the event for it,
if there is one; it takes one answer at most. The program keeps `Sound` in the
steps that are `ok`. -/
structure Simulates {ε : Type} (handler : NetworkQueueHandler (Memory α σ ρ))
    (event : α → Called → Option ε) (step : Server σ ρ → ε → Server σ ρ)
    (ok : Server σ ρ → ε → Prop) (Sound : Server σ ρ → Prop) : Prop where
  sound : ∀ s e, Sound s → ok s e → Sound (step s e)
  reads : ∀ {v v' c} {allowed : Called → Prop}, View.Calls handler allowed c v v' →
    Reads v.user.answers v'.user.answers [v.user.answer]
  agrees : ∀ {v v' s c} {allowed : Called → Prop}, Sound s → Agrees v s →
    View.Calls handler allowed c v v' →
    Agrees v' (Runs.run step s (event v.user.answer c).toList)

/-- From the first world to the second the program has handled these events: the
memory and the table are those of its run, as long as its steps are `ok`. -/
structure Follows {ε : Type} (step : Server σ ρ → ε → Server σ ρ) (ok : Server σ ρ → ε → Prop)
    (Sound : Server σ ρ → Prop) (w w' : World κ (Memory α σ ρ)) (es : List ε) (cs : List Called)
    (as : List α) : Prop extends Passes w w' cs as where
  agrees : ∀ s, Sound s → Agrees w.view s → Runs.Steps step ok s es →
    Agrees w'.view (Runs.run step s es)

def eventsOf {ε : Type} (event : α → Called → Option ε) (cs : List (α × Called)) : List ε :=
  cs.filterMap fun x => event x.1 x.2

section
variable {ε : Type} {handler : NetworkQueueHandler (Memory α σ ρ)} {event : α → Called → Option ε}
  {step : Server σ ρ → ε → Server σ ρ} {ok : Server σ ρ → ε → Prop} {Sound : Server σ ρ → Prop}

theorem Follows.refl {w : World κ (Memory α σ ρ)} (hinv : w.queue.Inv) :
    Follows step ok Sound w w [] [] [] :=
  ⟨.refl hinv, fun _ _ h _ => h⟩

/-- A single event. -/
theorem Passes.follows {w w' : World κ (Memory α σ ρ)} {e : ε} {cs : List Called} {as : List α}
    (h : Passes w w' cs as) (hagrees : ∀ s, Sound s → Agrees w.view s → Agrees w'.view (step s e)) :
    Follows step ok Sound w w' [e] cs as :=
  ⟨h, fun s hs hv _ => hagrees s hs hv⟩

theorem Follows.always {w w' : World κ (Memory α σ ρ)} {es : List ε} {cs : List Called}
    {as : List α} (h : Follows step (fun _ _ => True) Sound w w' es cs as) {s : Server σ ρ}
    (hs : Sound s) (hv : Agrees w.view s) : Agrees w'.view (Runs.run step s es) :=
  h.agrees s hs hv ((Runs.steps_iff_forall s es).mpr fun _ _ _ _ => trivial)

theorem Follows.trans (hsound : ∀ s e, Sound s → ok s e → Sound (step s e))
    {w w' w'' : World κ (Memory α σ ρ)} {es es' : List ε} {cs cs' : List Called} {as as' : List α}
    (h : Follows step ok Sound w w' es cs as) (h' : Follows step ok Sound w' w'' es' cs' as') :
    Follows step ok Sound w w'' (es ++ es') (cs ++ cs') (as ++ as') where
  toPasses := h.toPasses.trans h'.toPasses
  agrees s hs hv hok := by
    obtain ⟨hes, hes'⟩ := (Runs.steps_append _ _ _).mp hok
    rw [Runs.run_append]
    exact h'.agrees _ (Runs.invariant hsound hs hes) (h.agrees s hs hv hes) hes'

theorem Simulates.trace (h : Simulates handler event step ok Sound) {allowed : Called → Prop}
    {cs : List Called} {v v' : View (Memory α σ ρ)}
    (ht : Runs.Trace (View.Calls handler allowed) cs v v') :
    ∃ timed : List (α × Called), timed.map (·.2) = cs ∧
      Reads v.user.answers v'.user.answers (timed.map (·.1)) ∧
      ∀ s, Sound s → Agrees v s → Runs.Steps step ok s (eventsOf event timed) →
        Agrees v' (Runs.run step s (eventsOf event timed)) := by
  induction ht with
  | nil => exact ⟨[], rfl, .refl _, fun _ _ hv _ => hv⟩
  | @concat cs c v t u hrun hlast ih =>
    obtain ⟨timed, rfl, hreads, hagrees⟩ := ih
    have hevents : eventsOf event (timed ++ [(t.user.answer, c)]) =
        eventsOf event timed ++ (event t.user.answer c).toList := by
      rw [eventsOf, List.filterMap_append]
      cases hc : event t.user.answer c <;> simp [eventsOf, hc]
    refine ⟨timed ++ [(t.user.answer, c)], by simp, ?_, fun s hs hv hok => ?_⟩
    · rw [List.map_append]
      exact hreads.append (h.reads hlast)
    · rw [hevents, Runs.steps_append] at hok
      rw [hevents, Runs.run_append]
      exact h.agrees (Runs.invariant h.sound hs hok.1) (hagrees s hs hv hok.1) hlast

/-- A call of `wait_and_process` is a run of the program over the events for its
callbacks, which are for descriptors that were reported. -/
theorem Simulates.waitAndProcess (h : Simulates handler event step ok Sound) (kernel : Kernel κ)
    (fuel : ℕ) (reported : List (Fd × Events)) {w : World κ (Memory α σ ρ)}
    (hinv : w.queue.Inv) :
    Exec.Ends (· = w) (NetQueue.waitAndProcess kernel handler fuel reported) fun _ w' =>
      ∃ timed : List (α × Called), (∀ c ∈ timed, c.2.fd ∈ reported.map (·.1)) ∧
        Follows step ok Sound w w' (eventsOf event timed) (timed.map (·.2))
          (timed.map (·.1)) := by
  apply (waitAndProcess_ran kernel handler fuel reported hinv).values
  rintro _ w' ⟨hinv', -, cs, hlog, ht⟩
  obtain ⟨timed, htimed, hreads, hagrees⟩ := h.trace ht
  have hreported := ht.invariant (I := fun _ => True)
    (P := fun c => c.fd ∈ reported.map (·.1)) trivial
    fun _ _ _ _ _ hcall => ⟨trivial, hcall.1⟩
  refine ⟨timed, fun c hc => ?_, ⟨hinv', ?_, hreads⟩, hagrees⟩
  · apply hreported.2
    rw [← htimed]
    exact List.mem_map_of_mem hc
  · rw [hlog, List.map_append, htimed]

/-- A loop follows the program when its body does. -/
theorem Simulates.forEach (h : Simulates handler event step ok Sound) {β χ : Type}
    {body : β → NetQueue.Run κ (Memory α σ ρ) Unit} (Saw : β → χ → Prop) (events : χ → List ε)
    (calls : χ → List Called) (answers : χ → List α)
    (hbody : ∀ b (w : World κ (Memory α σ ρ)), w.queue.Inv →
      Exec.Ends (· = w) (body b) fun _ w' => ∃ x, Saw b x ∧
        Follows step ok Sound w w' (events x) (calls x) (answers x))
    (bs : List β) {w : World κ (Memory α σ ρ)} (hinv : w.queue.Inv) :
    Exec.Ends (· = w) (Exec.forEach body bs) fun _ w' => ∃ xs : List χ, List.Forall₂ Saw bs xs ∧
      Follows step ok Sound w w' (xs.flatMap events) (xs.flatMap calls)
        (xs.flatMap answers) := by
  induction bs generalizing w with
  | nil =>
    apply Exec.Triple.pure
    rintro w rfl
    exact ⟨[], .nil, .refl hinv⟩
  | cons b bs ih =>
    apply Exec.Ends.intro
    rintro v rfl _ w' hrun
    obtain ⟨_, u, hfirst, hrest⟩ := Exec.bind_eq_ok hrun
    obtain ⟨x, hx, hu⟩ := (hbody b v hinv).of_eq rfl hfirst
    obtain ⟨xs, hxs, hw'⟩ := (ih hu.inv).of_eq rfl hrest
    refine ⟨x :: xs, .cons hx hxs, ?_⟩
    simp only [List.flatMap_cons]
    exact hu.trans h.sound hw'

/-- The loop around `accept4` is a run over an event for each client. -/
theorem Simulates.acceptClients (h : Simulates handler event step ok Sound) (time : α → ℤ)
    (peer : ρ) (accepted : α → Client → ε)
    (haccepted : ∀ s a c, step s (accepted a c) =
      (Server.accept c.fd ⟨c.fd, time a, peer⟩ c.put s).2)
    (clients : List Client) {w : World κ (Memory α σ ρ)} (hinv : w.queue.Inv) :
    Exec.Ends (· = w) (Exec.forEach (acceptClient time peer) clients) fun _ w' =>
      ∃ timed : List (α × Client), timed.map (·.2) = clients ∧
        Follows step ok Sound w w' (timed.map fun c => accepted c.1 c.2) []
          (timed.map (·.1)) := by
  have hbody : ∀ (c : Client) (w : World κ (Memory α σ ρ)), w.queue.Inv →
      Exec.Ends (· = w) (acceptClient time peer c) fun _ w' => ∃ x : α × Client, x.2 = c ∧
        Follows step ok Sound w w' [accepted x.1 x.2] [] [x.1] := by
    intro c w hinv
    apply (acceptClient_agrees hinv time peer c).values
    rintro _ w' ⟨hw', hagrees⟩
    refine ⟨(w.user.answer, c), rfl, hw'.follows fun s _ hv => ?_⟩
    rw [haccepted]
    exact hagrees s hv
  apply (h.forEach (fun c x => x.2 = c) (fun x : α × Client => [accepted x.1 x.2])
    (fun _ => []) (fun x => [x.1]) hbody clients hinv).values
  rintro _ w' ⟨timed, hmap, hw'⟩
  have htimed : timed.map (·.2) = clients := by
    rw [← List.forall₂_eq_eq_eq, List.forall₂_map_left_iff]
    exact hmap.flip
  refine ⟨timed, htimed, ?_⟩
  have hnone : timed.flatMap (fun _ => ([] : List Called)) = [] :=
    List.flatMap_eq_nil_iff.mpr fun _ _ => rfl
  rw [← List.map_eq_flatMap, ← List.map_eq_flatMap, hnone] at hw'
  exact hw'

end

end VNet
