import VNet.NetQueue.Tables

namespace VNet.NetQueue
open Protocol

theorem processPass_fd (e : NetworkElement) :
    match processPass e with
    | .read _ resume => ∀ r, (resume r).2.fd = e.fd
    | .socketReady _ resume => ∀ e', (resume e').fd = e'.fd
    | .tunReady _ resume => ∀ e', (resume e').fd = e'.fd
    | .stop => True :=
  processPass_keeps fd_ignoresReads e

/-- The handler closed neither the element it was called for nor one with an
event further on in the batch. -/
def Callback.Safe (c : Callback) : Prop := ∀ id ∈ c.element :: c.upcoming, id ∉ c.closed

instance (c : Callback) : Decidable c.Safe :=
  inferInstanceAs (Decidable (∀ id ∈ c.element :: c.upcoming, id ∉ c.closed))

variable {κ σ : Type}

def World.Safe (w : World κ σ) : Prop := ∀ c ∈ w.log, c.Safe

/-- What a fault must come from: a freed element is only used after an unsafe
callback. -/
def Blamed : Fault → World κ σ → Prop
  | .freed _, w => ¬ w.Safe
  | .pending, _ => True

/-- All callbacks were safe exactly as long as the elements still to be used are
allocated. -/
structure Tracked (ids : List ElemId) (w : World κ σ) : Prop where
  inv : w.queue.Inv
  safe_iff : w.Safe ↔ ∀ id ∈ ids, w.queue.Live id

structure Handling (id : ElemId) (rest : List ElemId) (w : World κ σ) : Prop where
  tracked : Tracked (id :: rest) w
  upcoming_eq : w.upcoming = rest

structure Reacting (live : ElemId → Prop) (log : List Callback) (upcoming closed : List ElemId)
    (w : World κ σ) : Prop where
  inv : w.queue.Inv
  log_eq : w.log = log
  upcoming_eq : w.upcoming = upcoming
  live_iff : ∀ id, w.queue.Live id ↔ live id ∧ id ∉ closed

structure Keeps (w w' : World κ σ) : Prop where
  inv : w'.queue.Inv
  live_iff : ∀ id, w'.queue.Live id ↔ w.queue.Live id
  log_eq : w'.log = w.log
  upcoming_eq : w'.upcoming = w.upcoming

/-- A property of the queue's tables and of what is allocated, but not of the
contents of the elements. -/
structure Stable (P : World κ σ → Prop) : Prop where
  inv : ∀ {w}, P w → w.queue.Inv
  keeps : ∀ {w w'}, P w → Keeps w w' → P w'

theorem World.Safe.congr {w w' : World κ σ} (h : w'.log = w.log) : w'.Safe ↔ w.Safe := by
  rw [World.Safe, h]
  rfl

theorem Handling.stable (id : ElemId) (rest : List ElemId) :
    Stable (Handling (κ := κ) (σ := σ) id rest) where
  inv h := h.tracked.inv
  keeps h hk := by
    refine ⟨⟨hk.inv, ?_⟩, hk.upcoming_eq.trans h.upcoming_eq⟩
    rw [World.Safe.congr hk.log_eq, h.tracked.safe_iff]
    simp only [hk.live_iff]

theorem Reacting.stable (live : ElemId → Prop) (log : List Callback)
    (upcoming closed : List ElemId) :
    Stable (Reacting (κ := κ) (σ := σ) live log upcoming closed) where
  inv h := h.inv
  keeps h hk := by
    refine ⟨hk.inv, hk.log_eq.trans h.log_eq, hk.upcoming_eq.trans h.upcoming_eq, fun id => ?_⟩
    rw [hk.live_iff, h.live_iff]

section
variable {P : World κ σ → Prop} {E : Fault → World κ σ → Prop} {rest : List ElemId}

theorem deref_live {id : ElemId} (h : ∀ w, P w → w.queue.Live id) :
    Exec.Triple P (deref id) (fun e w => P w ∧ w.queue.elements.lookup id = some e) E := by
  intro w hw
  obtain ⟨e, he⟩ := h w hw
  simp only [deref, he]
  exact ⟨hw, trivial⟩

/-- Reading an element that may be gone: if it is, a callback was unsafe. -/
theorem deref_handling (id : ElemId) :
    Exec.Triple (Handling (κ := κ) (σ := σ) id rest) (deref id)
      (fun e w => Handling id rest w ∧ w.queue.elements.lookup id = some e) Blamed := by
  intro w hw
  cases he : w.queue.elements.lookup id with
  | some e =>
    simp only [deref, he]
    exact ⟨hw, trivial⟩
  | none =>
    simp only [deref, he]
    change ¬ w.Safe
    rw [hw.tracked.safe_iff]
    intro hall
    obtain ⟨e, he'⟩ := hall id List.mem_cons_self
    rw [he] at he'
    simp at he'

theorem assign_stable {id : ElemId} {e e' : NetworkElement} (hP : Stable P) (hfd : e'.fd = e.fd) :
    Exec.Triple (fun w => P w ∧ w.queue.elements.lookup id = some e) (assign id e')
      (fun _ w => P w ∧ w.queue.elements.lookup id = some e') E := by
  refine .bind (deref_live fun w hw => ⟨e, hw.2⟩) fun _ => .change ?_
  rintro w ⟨⟨hw, he⟩, -⟩
  have hinv := (hP.inv hw).setElement he hfd
  refine ⟨hP.keeps hw ⟨hinv, Queue.setElement_live ⟨e, he⟩ e', rfl, rfl⟩, ?_⟩
  simp only [Queue.setElement, FiniteMap.lookup_insert_eq, if_pos]

theorem epollMod_keeps {w : World κ σ} (h : w.queue.Inv) {id : ElemId} {e : NetworkElement}
    (he : w.queue.elements.lookup id = some e) (interest : Interest) :
    Keeps w { w with queue := w.queue.epollMod e.fd id interest } := by
  refine ⟨h.epollMod (h.owned id e he) interest, fun i => ?_, rfl, rfl⟩
  rw [Queue.Live, Queue.Live, Queue.epollMod_elements]

/-- The end of a call on the write side, when the element was read before it. -/
theorem settle_stable {id : ElemId} {e : NetworkElement} {o : WriteOutcome} (hP : Stable P)
    (hfd : o.element.fd = e.fd) (hE : ∀ w, E .pending w) :
    Exec.Triple (fun w => P w ∧ w.queue.elements.lookup id = some e) (settle id e.fd o)
      (fun _ => P) E := by
  refine .bind (assign_stable hP hfd) fun _ => .bind (Q := fun _ => P) (.change ?_) fun _ => ?_
  · rintro w ⟨hw, he⟩
    cases o.registered with
    | none => exact hw
    | some interest =>
      rw [← hfd]
      exact hP.keeps hw (epollMod_keeps (hP.inv hw) he interest)
  · cases o.returned with
    | none => exact .fault fun w _ => hE w
    | some b => exact .pure fun _ hw => hw

theorem writeAnswers_stable (kernel : Kernel κ) (fd : Fd) {id : ElemId} {e : NetworkElement}
    (hP : Stable P) :
    Exec.Triple (fun w => P w ∧ w.queue.elements.lookup id = some e) (writeAnswers kernel fd)
      (fun _ w => P w ∧ w.queue.elements.lookup id = some e) E := by
  refine .next ?_
  rintro w ⟨hw, he⟩
  have hinv := hP.inv hw
  exact ⟨hP.keeps hw ⟨hinv, fun _ => Iff.rfl, rfl, rfl⟩, he⟩

theorem noteOverflow_stable {id : ElemId} {e : NetworkElement} {o : WriteOutcome} (hP : Stable P) :
    Exec.Triple (fun w => P w ∧ w.queue.elements.lookup id = some e) (noteOverflow id o)
      (fun _ w => P w ∧ w.queue.elements.lookup id = some e) E := by
  refine .change ?_
  rintro w ⟨hw, he⟩
  have hinv := hP.inv hw
  split_ifs
  · exact ⟨hP.keeps hw ⟨hinv, fun _ => Iff.rfl, rfl, rfl⟩, he⟩
  · exact ⟨hw, he⟩

/-- `send` on any descriptor leaves the same elements allocated. -/
theorem sendOn_stable (kernel : Kernel κ) (fd : Fd) (data : Bytes) (hP : Stable P)
    (hE : ∀ w, E .pending w) : Exec.Triple P (sendOn kernel fd data) (fun _ => P) E := by
  refine .bind (Q := fun found w => P w ∧ w.queue.fdToNetworkElement.lookup fd = found)
    (.look fun w hw => ⟨hw, rfl⟩) fun found => ?_
  cases found with
  | none => exact .pure fun w hw => hw.1
  | some id =>
    have hread : Exec.Triple (fun w => P w ∧ w.queue.fdToNetworkElement.lookup fd = some id)
        (deref id) (fun e w => (P w ∧ w.queue.elements.lookup id = some e) ∧ e.fd = fd) E := by
      intro w hw
      obtain ⟨e, he, hfd⟩ := (hP.inv hw.1).mapped fd id hw.2
      simp only [deref, he]
      exact ⟨⟨hw.1, trivial⟩, hfd⟩
    refine .bind hread fun e => ?_
    intro w hw
    obtain ⟨hw, rfl⟩ := hw
    exact (Exec.Triple.bind (writeAnswers_stable kernel e.fd hP) fun rs =>
      .bind (noteOverflow_stable hP) fun _ =>
        settle_stable hP (send_keeps fd_ignoresWrites rs e data) hE) w hw

end

theorem closeElement_reacting {live : ElemId → Prop} {log : List Callback}
    {upcoming closed : List ElemId} {id : ElemId} {fd : Fd} {E : Fault → World κ σ → Prop} :
    Exec.Triple (fun w => Reacting live log upcoming closed w ∧
        w.queue.fdToNetworkElement.lookup fd = some id) (closeElement id)
      (fun _ => Reacting (κ := κ) (σ := σ) live log upcoming (closed ++ [id])) E := by
  refine .bind (deref_live fun w hw => ?_) fun e => .change ?_
  · obtain ⟨e, he, -⟩ := hw.1.inv.mapped fd id hw.2
    exact ⟨e, he⟩
  · rintro w ⟨⟨hw, -⟩, he⟩
    rw [if_pos (hw.inv.owned id e he)]
    refine ⟨hw.inv.remove he, hw.log_eq, hw.upcoming_eq, fun i => ?_⟩
    rw [Queue.remove_live, hw.live_iff, List.mem_append, List.mem_singleton, not_or, and_assoc]

theorem close_reacting {live : ElemId → Prop} {log : List Callback} {upcoming closed : List ElemId}
    (fd : Fd) {E : Fault → World κ σ → Prop} :
    Exec.Triple (Reacting live log upcoming closed) (close fd)
      (fun found => Reacting (κ := κ) (σ := σ) live log upcoming (closed ++ found.toList)) E := by
  refine .bind (Q := fun found w => Reacting live log upcoming closed w ∧
    w.queue.fdToNetworkElement.lookup fd = found) (.look fun w hw => ⟨hw, rfl⟩) fun found => ?_
  cases found with
  | none =>
    refine .pure fun w hw => ?_
    rw [Option.toList_none, List.append_nil]
    exact hw.1
  | some id => exact .bind closeElement_reacting fun _ => .pure fun w hw => hw

theorem react_reacting (kernel : Kernel κ) {live : ElemId → Prop} {log : List Callback}
    {upcoming : List ElemId} {E : Fault → World κ σ → Prop} (hE : ∀ w, E .pending w)
    (r : Reaction σ) (closed : List ElemId) :
    Exec.Triple (Reacting live log upcoming closed) (react kernel r closed)
      (fun closed' => Reacting (κ := κ) (σ := σ) live log upcoming closed') E := by
  induction r generalizing closed with
  | done user =>
    refine .bind (Q := fun _ => Reacting live log upcoming closed) (.change fun w hw => ?_)
      fun _ => .pure fun w hw => hw
    exact ⟨hw.inv, hw.log_eq, hw.upcoming_eq, hw.live_iff⟩
  | close fd next ih => exact .bind (close_reacting fd) fun found => ih _
  | send fd data next ih =>
    exact .bind (sendOn_stable kernel fd data (Reacting.stable _ _ _ _) hE) fun b => ih b closed

section
variable (kernel : Kernel κ) (handler : NetworkQueueHandler σ) {rest : List ElemId}

/-- A callback keeps the account: the elements the handler closes are those that
are gone after it. -/
theorem callback_handling (id : ElemId) (called : Called) (reaction : σ → Reaction σ) :
    Exec.Triple (Handling (κ := κ) (σ := σ) id rest) (callback kernel id called reaction)
      (fun _ => Handling id rest) Blamed := by
  intro w hw
  have hreact : Exec.Triple (Reacting w.queue.Live w.log w.upcoming [])
      (callback kernel id called reaction)
      (fun _ => Handling (κ := κ) (σ := σ) id rest) Blamed := by
    refine .bind (Q := fun _ => Reacting w.queue.Live w.log w.upcoming []) (.look fun v hv => hv)
      fun user => .bind (Q := fun _ => Reacting w.queue.Live w.log w.upcoming [])
        (.change fun v hv => ⟨hv.inv, hv.log_eq, hv.upcoming_eq, hv.live_iff⟩)
        fun _ => .bind (react_reacting kernel (fun _ => trivial) _ []) fun closed => .change ?_
    intro v hv
    refine ⟨⟨hv.inv, ?_⟩, hv.upcoming_eq.trans hw.upcoming_eq⟩
    have hsafe : World.Safe ({ v with
        calling := none, log := v.log ++ [⟨id, called, v.upcoming, closed⟩] } : World κ σ) ↔
        w.Safe ∧ ∀ i ∈ id :: rest, i ∉ closed := by
      simp only [World.Safe, hv.log_eq, hv.upcoming_eq, hw.upcoming_eq, List.forall_mem_append,
        List.forall_mem_singleton, Callback.Safe]
    rw [hsafe, hw.tracked.safe_iff, ← forall₂_and]
    simp only [hv.live_iff]
  exact hreact w ⟨hw.tracked.inv, rfl, rfl, fun i => by simp⟩

/-- After a callback the element is read again and written. -/
theorem resume_handling (id : ElemId) (resume : NetworkElement → NetworkElement)
    (hfd : ∀ e, (resume e).fd = e.fd) :
    Exec.Triple (Handling (κ := κ) (σ := σ) id rest)
      (do
        let e' ← deref id
        assign id (resume e')
        pure .again)
      (fun (_ : Flow) w => Handling id rest w ∧ w.queue.Live id) Blamed :=
  .bind (deref_handling id) fun e => .bind (assign_stable (Handling.stable id rest) (hfd e))
    fun _ => .pure fun _ hw => ⟨hw.1, _, hw.2⟩

/-- Every pass ends with the element in hand. -/
theorem processOnce_handling (id : ElemId) :
    Exec.Triple (Handling (κ := κ) (σ := σ) id rest) (processOnce kernel handler id)
      (fun _ w => Handling id rest w ∧ w.queue.Live id) Blamed := by
  refine .bind (deref_handling id) fun e => ?_
  have hfd := processPass_fd e
  cases hpass : processPass e with
  | read count resume =>
    rw [hpass] at hfd
    refine .bind (Q := fun _ w => Handling id rest w ∧ w.queue.elements.lookup id = some e)
      (.next ?_) fun r => .bind (assign_stable (Handling.stable id rest) (hfd r))
        fun _ => .pure fun _ hw => ⟨hw.1, _, hw.2⟩
    rintro w ⟨hw, he⟩
    exact ⟨(Handling.stable id rest).keeps hw ⟨hw.tracked.inv, fun _ => Iff.rfl, rfl, rfl⟩, he⟩
  | socketReady data resume =>
    rw [hpass] at hfd
    exact .bind ((callback_handling kernel id _ _).weaken fun _ hw => hw.1)
      fun _ => resume_handling id resume hfd
  | tunReady data resume =>
    rw [hpass] at hfd
    exact .bind ((callback_handling kernel id _ _).weaken fun _ hw => hw.1)
      fun _ => resume_handling id resume hfd
  | stop => exact .pure fun _ hw => ⟨hw.1, e, hw.2⟩

theorem process_handling (id : ElemId) (fuel : ℕ) :
    Exec.Triple (Handling (κ := κ) (σ := σ) id rest) (process kernel handler id fuel)
      (fun _ w => Handling id rest w ∧ w.queue.Live id) Blamed := by
  induction fuel with
  | zero => exact .fault fun _ _ => trivial
  | succ fuel ih =>
    refine .bind (processOnce_handling kernel handler id) fun flow => ?_
    cases flow with
    | stop => exact .pure fun _ hw => hw
    | again => exact ih.weaken fun _ hw => hw.1

theorem onInput_handling (fuel : ℕ) (id : ElemId) (ev : Events) :
    Exec.Triple (Handling (κ := κ) (σ := σ) id rest) (onInput kernel handler fuel id ev)
      (fun _ => Handling id rest) Blamed := by
  refine .ite (fun _ => ?_) fun _ => .pure fun _ hw => hw
  exact .bind (process_handling kernel handler id fuel) fun _ =>
    .bind ((deref_handling id).weaken fun _ hw => hw.1) fun e => .pure fun _ hw => hw.1

theorem onOutput_handling (id : ElemId) (ev : Events) (reason : Option CloseReason) :
    Exec.Triple (Handling (κ := κ) (σ := σ) id rest) (onOutput kernel id ev reason)
      (fun _ => Handling id rest) Blamed := by
  refine .ite (fun _ => ?_) fun _ => .pure fun _ hw => hw
  exact .bind (deref_handling id) fun e =>
    .bind (writeAnswers_stable kernel e.fd (Handling.stable id rest)) fun rs =>
    .bind (settle_stable (Handling.stable id rest)
      (flushWriteBuffer_keeps fd_ignoresWrites rs e) fun _ => trivial)
      fun _ => .pure fun _ hw => hw

/-- An element that goes on being used is read once more when it is armed. -/
theorem rearm_handling (id : ElemId) :
    Exec.Triple (Handling (κ := κ) (σ := σ) id rest) (rearm kernel id)
      (fun reason w => Handling id rest w ∧ (reason = none → w.queue.Live id)) Blamed := by
  refine .bind (deref_handling id) fun e =>
    .bind (Q := fun _ w => Handling id rest w ∧ w.queue.elements.lookup id = some e) (.next ?_)
      fun ok => .ite (fun _ => ?_) fun _ => .pure fun _ hw => ⟨hw.1, by simp⟩
  · rintro w ⟨hw, he⟩
    exact ⟨(Handling.stable id rest).keeps hw ⟨hw.tracked.inv, fun _ => Iff.rfl, rfl, rfl⟩, he⟩
  · refine .bind (Q := fun _ w => Handling id rest w ∧ w.queue.Live id) (.change ?_)
      fun _ => .pure fun _ hw => ⟨hw.1, fun _ => hw.2⟩
    rintro w ⟨hw, he⟩
    have hk := epollMod_keeps hw.tracked.inv he
      (if e.writeBuffer = [] then Interest.epollin else Interest.epollinEpollout)
    exact ⟨(Handling.stable id rest).keeps hw hk, (hk.live_iff id).mpr ⟨e, he⟩⟩

/-- Closing the element of the event leaves the account of the others. -/
theorem closeFor_tracked (id : ElemId) (reason : CloseReason) (hid : id ∉ rest) :
    Exec.Triple (Handling (κ := κ) (σ := σ) id rest) (closeFor kernel handler id reason)
      (fun _ => Tracked rest) Blamed := by
  refine .bind (deref_handling id) fun e =>
    .bind ((callback_handling kernel id _ _).weaken fun _ hw => hw.1) fun _ =>
    .bind (deref_handling id) fun e' => .change ?_
  rintro w ⟨hw, he⟩
  rw [if_pos (hw.tracked.inv.owned id e' he)]
  refine ⟨hw.tracked.inv.remove he, ?_⟩
  have hsafe := hw.tracked.safe_iff
  rw [List.forall_mem_cons, and_iff_right (show w.queue.Live id from ⟨e', he⟩)] at hsafe
  refine hsafe.trans (forall₂_congr fun i hi => ?_)
  rw [Queue.remove_live]
  refine (and_iff_left ?_).symm
  rintro rfl
  exact hid hi

theorem handleEvent_tracked (fuel : ℕ) (id : ElemId) (ev : Events) (closed : List ElemId)
    (hid : id ∉ rest) (hclosed : id ∉ closed) :
    Exec.Triple (Handling (κ := κ) (σ := σ) id rest) (handleEvent kernel handler fuel id ev closed)
      (fun closed' w => Tracked rest w ∧ ∀ i ∈ closed', i = id ∨ i ∈ closed) Blamed := by
  unfold handleEvent
  rw [if_neg hclosed]
  refine .bind (onInput_handling kernel handler fuel id ev) fun afterInput =>
    .bind (onOutput_handling kernel id ev afterInput) fun afterOutput =>
    .bind (Q := fun reason w => Handling id rest w ∧ (reason = none → w.queue.Live id)) ?_
      fun reason => ?_
  · cases onErrors ev afterOutput with
    | none => exact rearm_handling kernel id
    | some reason => exact .pure fun _ hw => ⟨hw, by simp⟩
  · cases reason with
    | none =>
      refine .pure fun w hw => ⟨⟨hw.1.tracked.inv, ?_⟩, fun i hi => Or.inr hi⟩
      -- rearming has just looked at the element, so it is live
      have hsafe := hw.1.tracked.safe_iff
      rwa [List.forall_mem_cons, and_iff_right (hw.2 rfl)] at hsafe
    | some reason =>
      refine .bind ((closeFor_tracked kernel handler id reason hid).weaken fun _ hw => hw.1)
        fun _ => .pure fun w hw => ⟨hw, fun i hi => ?_⟩
      rcases List.mem_append.mp hi with hi | hi
      · exact Or.inr hi
      · exact Or.inl (List.mem_singleton.mp hi)

theorem handleEvents_tracked (fuel : ℕ) (batch : List (ElemId × Events)) (closed : List ElemId)
    (hnodup : (batch.map (·.1)).Nodup) (hclosed : ∀ i ∈ batch.map (·.1), i ∉ closed) :
    Exec.Triple (Tracked (κ := κ) (σ := σ) (batch.map (·.1)))
      (handleEvents kernel handler fuel batch closed) (fun _ => Tracked []) Blamed := by
  induction batch generalizing closed with
  | nil => exact .pure fun _ hw => hw
  | cons x batch ih =>
    obtain ⟨id, ev⟩ := x
    rw [List.map_cons, List.nodup_cons] at hnodup
    rw [List.map_cons, List.forall_mem_cons] at hclosed
    refine .bind (Q := fun _ => Handling id (batch.map (·.1))) (.change fun w hw => ?_) fun _ => ?_
    · exact ⟨⟨hw.inv, hw.safe_iff⟩, rfl⟩
    · refine .bind (handleEvent_tracked kernel handler fuel id ev closed hnodup.1 hclosed.1)
        fun closed' => ?_
      intro w hw
      refine ih closed' hnodup.2 (fun i hi hmem => ?_) w hw.1
      rcases hw.2 i hmem with rfl | hmem
      · exact hnodup.1 hi
      · exact hclosed.2 i hi hmem

/-- `wait_and_process` on a queue in good order, all callbacks safe so far. -/
theorem waitAndProcess_tracked (fuel : ℕ) (reported : List (Fd × Events)) :
    Exec.Triple (Tracked (κ := κ) (σ := σ) []) (waitAndProcess kernel handler fuel reported)
      (fun _ => Tracked []) Blamed := by
  intro w hw
  obtain ⟨hinv, helems, hlive, hnodup⟩ :=
    Queue.epollWait_spec hw.inv (reported.take epollMaxEvents)
  refine Exec.Triple.bind (P := (· = w)) (Q := fun batch v => (batch.map (·.1)).Nodup ∧
    Tracked (batch.map (·.1)) v) (.next ?_) (fun batch => ?_) w rfl
  · rintro v rfl
    refine ⟨hnodup, hinv, ?_⟩
    have hsafe : v.Safe := hw.safe_iff.mpr (by simp)
    refine iff_of_true hsafe fun i hi => ?_
    obtain ⟨x, hx, rfl⟩ := List.mem_map.mp hi
    obtain ⟨e, he⟩ := (hlive x hx).1
    exact ⟨e, by rw [helems, he]⟩
  · intro v hv
    exact handleEvents_tracked kernel handler fuel batch [] hv.1 (by simp) v hv.2

end

inductive QueueOp
  | put (fd : Fd) (ptr : ℕ) (state : FiniteStateMachine) (added stored : Bool)
  | close (fd : Fd)
  | send (fd : Fd) (data : Bytes)
  | process (fd : Fd)
  | waitAndProcess (reported : List (Fd × Events))
  deriving DecidableEq, Repr

section
variable (kernel : Kernel κ) (handler : NetworkQueueHandler σ) (fuel : ℕ)

def processFd (fd : Fd) : Run κ σ Unit := do
  let found ← Exec.look fun w => w.queue.fdToNetworkElement.lookup fd
  match found with
  | none => pure ()
  | some id => do
    Exec.change fun w => { w with upcoming := [] }
    process kernel handler id fuel

def perform : QueueOp → Run κ σ Unit
  | .put fd ptr state added stored =>
    Exec.change fun w => { w with queue := (w.queue.put fd ptr state added stored).2 }
  | .close fd => do
    let _ ← close fd
    pure ()
  | .send fd data => do
    let _ ← sendOn kernel fd data
    pure ()
  | .process fd => processFd kernel handler fuel fd
  | .waitAndProcess reported => waitAndProcess kernel handler fuel reported

def performAll (ops : List QueueOp) : Run κ σ Unit := Exec.forEach (perform kernel handler fuel) ops

def World.start (k : κ) (user : σ) : World κ σ := ⟨.empty, k, user, [], [], none, []⟩

theorem processFd_tracked (fd : Fd) :
    Exec.Triple (Tracked (κ := κ) (σ := σ) []) (processFd kernel handler fuel fd)
      (fun _ => Tracked []) Blamed := by
  refine .bind (Q := fun found w => Tracked [] w ∧ w.queue.fdToNetworkElement.lookup fd = found)
    (.look fun w hw => ⟨hw, rfl⟩) fun found => ?_
  cases found with
  | none => exact .pure fun _ hw => hw.1
  | some id =>
    refine .bind (Q := fun _ => Handling id []) (.change fun v hv => ?_) fun _ => ?_
    · obtain ⟨e, he, -⟩ := hv.1.inv.mapped fd id hv.2
      have hsafe : v.Safe := hv.1.safe_iff.mpr (by simp)
      refine ⟨⟨hv.1.inv, iff_of_true hsafe ?_⟩, rfl⟩
      rintro i hi
      rw [List.mem_singleton.mp hi]
      exact ⟨e, he⟩
    · refine (process_handling kernel handler id fuel).values fun _ v hv => ?_
      refine ⟨hv.1.tracked.inv, iff_of_true (hv.1.tracked.safe_iff.mpr ?_) (by simp)⟩
      rintro i hi
      rw [List.mem_singleton.mp hi]
      exact hv.2

theorem close_tracked (fd : Fd) :
    Exec.Triple (Tracked (κ := κ) (σ := σ) []) (close fd) (fun _ => Tracked []) Blamed := by
  intro w hw
  have hreact : Reacting w.queue.Live w.log w.upcoming [] w :=
    ⟨hw.inv, rfl, rfl, fun i => by simp⟩
  refine (close_reacting fd (E := Blamed)).values (fun _ v h => ?_) w hreact
  refine ⟨h.inv, iff_of_true ?_ (by simp)⟩
  exact (World.Safe.congr h.log_eq).mpr (hw.safe_iff.mpr (by simp))

theorem Tracked.stable (ids : List ElemId) : Stable (Tracked (κ := κ) (σ := σ) ids) where
  inv h := h.inv
  keeps h hk := by
    refine ⟨hk.inv, ?_⟩
    rw [World.Safe.congr hk.log_eq, h.safe_iff]
    simp only [hk.live_iff]

theorem perform_tracked (op : QueueOp) :
    Exec.Triple (Tracked (κ := κ) (σ := σ) []) (perform kernel handler fuel op)
      (fun _ => Tracked []) Blamed := by
  cases op with
  | put fd ptr state added stored =>
    refine .change fun w hw => ⟨hw.inv.put fd ptr state added stored, ?_⟩
    exact iff_of_true (hw.safe_iff.mpr (by simp)) (by simp)
  | close fd => exact .bind (close_tracked fd) fun _ => .pure fun _ hw => hw
  | send fd data =>
    exact .bind (sendOn_stable kernel fd data (Tracked.stable []) fun _ => trivial)
      fun _ => .pure fun _ hw => hw
  | process fd => exact processFd_tracked kernel handler fuel fd
  | waitAndProcess reported => exact waitAndProcess_tracked kernel handler fuel reported

theorem performAll_tracked (ops : List QueueOp) :
    Exec.Triple (Tracked (κ := κ) (σ := σ) []) (performAll kernel handler fuel ops)
      (fun _ => Tracked []) Blamed :=
  Exec.Triple.forEach (I := fun _ => Tracked [])
    (fun _ => perform_tracked kernel handler fuel) [] ops

/-- For every kernel, every handler and every run of calls: as long as each
callback leaves alone the element it is for and the elements with events further
on in the batch, no freed element is used; and a run that comes to its end
without such a use had only callbacks of this kind. -/
theorem freed_iff_not_safe (k : κ) (user : σ) (ops : List QueueOp) :
    ((performAll kernel handler fuel ops (.start k user)).2.Safe →
      ∀ id, (performAll kernel handler fuel ops (.start k user)).1 ≠ .error (.freed id)) ∧
    ((performAll kernel handler fuel ops (.start k user)).1 = .ok () →
      (performAll kernel handler fuel ops (.start k user)).2.Safe) := by
  have hstart : Tracked [] (World.start k user) :=
    ⟨Queue.Inv.empty, iff_of_true (by simp [World.Safe, World.start]) (by simp)⟩
  obtain ⟨_, w, hr, h⟩ | ⟨f, w, hr, h⟩ :=
    (performAll_tracked kernel handler fuel ops).result hstart
  · rw [hr]
    exact ⟨fun _ id => by simp, fun _ => h.safe_iff.mpr (by simp)⟩
  · rw [hr]
    cases f with
    | freed i => exact ⟨fun hsafe => absurd hsafe h, fun hok => by simp at hok⟩
    | pending => exact ⟨fun _ id => by simp, fun hok => by simp at hok⟩

end

/-- A kernel whose reads are given in advance and whose writes all fit. -/
def scriptedKernel : Kernel (List ReadResult) where
  read
    | [], _, _ => (.eagain, [])
    | r :: rs, _, _ => (r, rs)
  write rs _ := ([.accepted 66000, .accepted 66000], rs)
  epollMod rs _ := (true, rs)

def refuse (victim : SocketData → Fd) : NetworkQueueHandler Unit where
  onClose _ _ := .done ()
  onSocketReady _ d := .close (victim d) (.done ())
  onTunReady _ _ := .done ()

def authPacket : List ReadResult := [.bytes (packetHeader 0 .authConnectToSwitch), .bytes []]

def oneEvent : List QueueOp := [.put 5 0 .sckHeader true true, .put 6 0 .sckHeader true true,
  .waitAndProcess [(5, ⟨true, false, false, false⟩)]]

theorem freed_iff_not_safe_other_closed :
    (performAll scriptedKernel (refuse fun _ => 6) 9 oneEvent (.start authPacket ())).1 = .ok () ∧
      (performAll scriptedKernel (refuse fun _ => 6) 9 oneEvent (.start authPacket ())).2.Safe := by
  have hok : (performAll scriptedKernel (refuse fun _ => 6) 9 oneEvent
      (.start authPacket ())).1 = .ok () := by rfl
  exact ⟨hok,
    (freed_iff_not_safe scriptedKernel (refuse fun _ => 6) 9 authPacket () oneEvent).2 hok⟩

/-- A handler that closes the connection it was called for, as the switch does on
a bad token, leaves `process` with a freed element. -/
theorem refused_connection_freed :
    ¬ ∀ (handler : NetworkQueueHandler Unit) (fuel : ℕ) (ops : List QueueOp) (id : ElemId),
      (performAll scriptedKernel handler fuel ops (.start authPacket ())).1 ≠
        .error (.freed id) := by
  intro h
  exact h (refuse SocketData.fd) 9 oneEvent 0 rfl

end VNet.NetQueue
