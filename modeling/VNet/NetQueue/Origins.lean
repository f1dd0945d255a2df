import VNet.NetQueue.Overflow

namespace VNet.NetQueue
open Protocol

variable {κ σ : Type}

structure Origin where
  fd : Fd
  ptr : ℕ
  state : FiniteStateMachine
  deriving DecidableEq, Repr

def FiniteStateMachine.isTun : FiniteStateMachine → Bool
  | .tunReceive => true
  | .tunReady => true
  | .tunError => true
  | .tunEof => true
  | _ => false

/-- The element is one of this `put`. A `send` that is refused puts an element of
either kind into `SCK_ERROR`. -/
structure Origin.Of (o : Origin) (e : NetworkElement) : Prop where
  fd : e.fd = o.fd
  ptr : e.ptr = o.ptr
  state : e.state.isTun = o.state.isTun ∨ e.state = .sckError

def Origin.Tells (o : Origin) (id : ElemId) : Called → Prop
  | .onClose data => data.netElement = id ∧ data.fd = o.fd ∧ data.ptrData = o.ptr
  | .onSocketReady data => data.fd = o.fd ∧ data.ptrData = o.ptr ∧ o.state.isTun = false
  | .onTunReady data => data.fd = o.fd ∧ data.ptrData = o.ptr ∧ o.state.isTun = true

theorem ptr_ignoresReads : IgnoresReads NetworkElement.ptr := fun _ _ _ _ => rfl

theorem headerRead_isTun {e : NetworkElement} (h : e.state = .sckHeader) (r : ReadResult) :
    (headerRead e r).2.state.isTun = false := by
  cases r with
  | eagain => simp [headerRead, h, FiniteStateMachine.isTun]
  | failed => rfl
  | bytes bs =>
    cases bs with
    | nil => rfl
    | cons b bs =>
      simp only [headerRead]
      split_ifs
      · rfl
      · simp [NetworkElement.store, h, FiniteStateMachine.isTun]

theorem payloadRead_isTun {e : NetworkElement} (h : e.state = .sckPayload) (n : ℕ)
    (r : ReadResult) : (payloadRead e n r).2.state.isTun = false := by
  cases r with
  | eagain => simp [payloadRead, h, FiniteStateMachine.isTun]
  | failed => rfl
  | bytes bs =>
    simp only [payloadRead]
    split_ifs
    · rfl
    · simp [NetworkElement.store, h, FiniteStateMachine.isTun]

theorem tunRead_isTun {e : NetworkElement} (h : e.state = .tunReceive) (r : ReadResult) :
    (tunRead e r).2.state.isTun = true := by
  cases r with
  | eagain => simp [tunRead, h, FiniteStateMachine.isTun]
  | failed => rfl
  | bytes bs => cases bs <;> rfl

/-- A read stays within the machine the element is in, which is not `SCK_ERROR`. -/
theorem read_isTun {e : NetworkElement} {count : ℕ} {resume : ReadResult → Flow × NetworkElement}
    (h : processPass e = .read count resume) (r : ReadResult) :
    (resume r).2.state.isTun = e.state.isTun ∧ e.state ≠ .sckError := by
  unfold processPass at h
  cases hst : e.state with
  | sckHeader =>
    rw [hst] at h
    obtain ⟨-, rfl⟩ := Pass.read.inj h
    exact ⟨headerRead_isTun hst r, by simp⟩
  | sckPayload =>
    rw [hst] at h
    obtain ⟨-, rfl⟩ := Pass.read.inj h
    exact ⟨payloadRead_isTun hst _ r, by simp⟩
  | tunReceive =>
    rw [hst] at h
    obtain ⟨-, rfl⟩ := Pass.read.inj h
    exact ⟨tunRead_isTun hst r, by simp⟩
  | _ =>
    rw [hst] at h
    simp at h

theorem Origin.Of.read {o : Origin} {e : NetworkElement} (h : o.Of e) {count : ℕ}
    {resume : ReadResult → Flow × NetworkElement} (hpass : processPass e = .read count resume)
    (r : ReadResult) : o.Of (resume r).2 where
  fd := (read_keeps fd_ignoresReads hpass r).trans h.fd
  ptr := (read_keeps ptr_ignoresReads hpass r).trans h.ptr
  state := by
    obtain ⟨hsame, hne⟩ := read_isTun hpass r
    rw [hsame]
    exact .inl (h.state.resolve_right hne)

theorem Origin.Of.send {o : Origin} {e : NetworkElement} (h : o.Of e) (rs : List WriteResult)
    (data : Bytes) : o.Of (send rs e data).element where
  fd := (send_keeps fd_ignoresWrites rs e data).trans h.fd
  ptr := (send_keeps ptr_ignoresWrites rs e data).trans h.ptr
  state := by
    rcases send_state rs e data with ⟨hsame, -⟩ | herr
    · rw [hsame]
      exact h.state
    · exact .inr herr

theorem Origin.Of.flush {o : Origin} {e : NetworkElement} (h : o.Of e) (rs : List WriteResult) :
    o.Of (flushWriteBuffer rs e).element where
  fd := (flushWriteBuffer_keeps fd_ignoresWrites rs e).trans h.fd
  ptr := (flushWriteBuffer_keeps ptr_ignoresWrites rs e).trans h.ptr
  state := by
    rw [flushWriteBuffer_state]
    exact h.state

/-- A packet is told of with what the element has. -/
theorem Origin.Of.tells {o : Origin} {e : NetworkElement} (h : o.Of e) {called : Called}
    {resume : NetworkElement → NetworkElement} (hpass : ReadyPass e called resume) (id : ElemId) :
    o.Tells id called := by
  unfold ReadyPass processPass at hpass
  cases hst : e.state with
  | sckReady =>
    simp only [hst, Pass.socketReady.injEq, reduceCtorEq, false_and, exists_false, or_false]
      at hpass
    obtain ⟨data, ⟨rfl, -⟩, rfl⟩ := hpass
    have hkind := h.state
    rw [hst] at hkind
    exact ⟨h.fd, h.ptr, (hkind.resolve_right (by simp)).symm⟩
  | tunReady =>
    simp only [hst, Pass.tunReady.injEq, reduceCtorEq, false_and, exists_false, false_or]
      at hpass
    obtain ⟨data, ⟨rfl, -⟩, rfl⟩ := hpass
    have hkind := h.state
    rw [hst] at hkind
    exact ⟨h.fd, h.ptr, (hkind.resolve_right (by simp)).symm⟩
  | _ => simp [hst] at hpass

/-- After the callback `process` puts the element at the start of its machine,
whatever the handler did to it. -/
theorem Origin.Of.resume {o : Origin} {e' : NetworkElement} (h : o.Of e') {e : NetworkElement}
    {called : Called} {resume : NetworkElement → NetworkElement} {id : ElemId}
    (hpass : ReadyPass e called resume) (ht : o.Tells id called) : o.Of (resume e') where
  fd := (hpass.resume_keeps fd_ignoresReads e').trans h.fd
  ptr := (hpass.resume_keeps ptr_ignoresReads e').trans h.ptr
  state := by
    left
    unfold ReadyPass processPass at hpass
    cases hst : e.state with
    | sckReady =>
      simp only [hst, Pass.socketReady.injEq, reduceCtorEq, false_and, exists_false, or_false]
        at hpass
      obtain ⟨data, ⟨-, rfl⟩, rfl⟩ := hpass
      exact ht.2.2.symm
    | tunReady =>
      simp only [hst, Pass.tunReady.injEq, reduceCtorEq, false_and, exists_false, false_or]
        at hpass
      obtain ⟨data, ⟨-, rfl⟩, rfl⟩ := hpass
      exact ht.2.2.symm
    | _ => simp [hst] at hpass

/-- Element `id` is of the `put` at place `id`, and so is every callback made for
it. -/
structure Traced (os : List Origin) (w : World κ σ) : Prop where
  inv : w.queue.Inv
  nextId : w.queue.nextId = os.length
  element : ∀ id e, w.queue.elements.lookup id = some e → ∃ o, os[id]? = some o ∧ o.Of e
  log : ∀ c ∈ w.log, ∃ o, os[c.element]? = some o ∧ o.Tells c.element c.called
  calling : ∀ id called, w.calling = some (id, called) → ∃ o, os[id]? = some o ∧ o.Tells id called

variable {os : List Origin} {w : World κ σ} {id : ElemId} {e e' : NetworkElement}

/-- The queue changes, the elements in it stay as they are or go. -/
theorem Traced.queue (h : Traced os w) {q : Queue} (hinv : q.Inv)
    (hnext : q.nextId = w.queue.nextId)
    (helems : ∀ i a, q.elements.lookup i = some a → w.queue.elements.lookup i = some a) :
    Traced os { w with queue := q } where
  inv := hinv
  nextId := hnext.trans h.nextId
  element i a ha := h.element i a (helems i a ha)
  log := h.log
  calling := h.calling

/-- One element is overwritten. -/
theorem Traced.overwrite (h : Traced os w) {q : Queue} (hinv : q.Inv)
    (hnext : q.nextId = w.queue.nextId) (he : w.queue.elements.lookup id = some e)
    (helems : ∀ i, q.elements.lookup i = if i = id then some e' else w.queue.elements.lookup i)
    (hof : ∀ o : Origin, os[id]? = some o → o.Of e → o.Of e') :
    Traced os { w with queue := q } where
  inv := hinv
  nextId := hnext.trans h.nextId
  element i a ha := by
    have ha' : q.elements.lookup i = some a := ha
    rw [helems] at ha'
    split_ifs at ha' with hi
    · obtain ⟨o, ho, hoe⟩ := h.element id e he
      rw [hi, ← Option.some.inj ha']
      exact ⟨o, ho, hof o ho hoe⟩
    · exact h.element i a ha'
  log := h.log
  calling := h.calling

/-- A callback has returned. -/
theorem Traced.returned (h : Traced os w) {called : Called}
    (hcalling : w.calling = some (id, called)) (closed : List ElemId) :
    Traced os (w.called id called closed) where
  inv := h.inv
  nextId := h.nextId
  element := h.element
  log c hc := by
    rcases List.mem_append.mp hc with hc | hc
    · exact h.log c hc
    · rw [List.mem_singleton.mp hc]
      exact h.calling id called hcalling
  calling i called' hc := by simp [World.called] at hc

theorem lookup_remove {q : Queue} {fd : Fd} {i : ElemId} {a : NetworkElement}
    (h : (q.remove id fd).elements.lookup i = some a) : q.elements.lookup i = some a := by
  simp only [Queue.remove, FiniteMap.lookup_erase_eq] at h
  split_ifs at h
  exact h

theorem Traced.maintained (os : List Origin) (handler : NetworkQueueHandler σ) :
    Maintained (κ := κ) handler fun _ w => Traced os w where
  kernel k h := ⟨h.inv, h.nextId, h.element, h.log, h.calling⟩
  user user h := ⟨h.inv, h.nextId, h.element, h.log, h.calling⟩
  upcoming upcoming h := ⟨h.inv, h.nextId, h.element, h.log, h.calling⟩
  sent := by
    intro ids w id fd e rs data h hfd he _
    have hinv := h.inv.settled he (send_keeps fd_ignoresWrites rs e data)
    rw [h.inv.fd_of_mapped hfd he] at hinv
    have h' := h.overwrite hinv (Queue.settled_nextId _ _ _ _) he
      (fun i => Queue.elements_settled _ _ i _ _) fun o _ ho => ho.send rs data
    exact ⟨h'.inv, h'.nextId, h'.element, h'.log, h'.calling⟩
  closed := by
    intro ids w id fd e _ h _ he _
    exact h.queue (h.inv.remove he) rfl fun i a => lookup_remove
  read := by
    intro ids w id e count resume r h he hpass
    exact h.overwrite (h.inv.setElement he (read_keeps fd_ignoresReads hpass r)) rfl he
      (fun i => Queue.elements_setElement _ _ i _) fun o _ ho => ho.read hpass r
  ready := by
    intro ids w id e called resume h he hpass
    obtain ⟨o, ho, hoe⟩ := h.element id e he
    refine ⟨h.inv, h.nextId, h.element, h.log, fun i called' hc => ?_⟩
    obtain ⟨rfl, rfl⟩ := Prod.mk.inj (Option.some.inj hc)
    exact ⟨o, ho, hoe.tells hpass _⟩
  resumed := by
    intro ids w id e e' called resume closed h hcalling hpass he'
    obtain ⟨o, ho, ht⟩ := h.calling id called hcalling
    refine (h.returned hcalling closed).overwrite
      (h.inv.setElement he' (hpass.resume_keeps fd_ignoresReads e')) rfl he'
      (fun i => Queue.elements_setElement _ _ i _) fun o' ho' hof => ?_
    -- the element and the callback are of the same `put`
    rw [ho, Option.some.injEq] at ho'
    rw [← ho'] at hof ⊢
    exact hof.resume hpass ht
  flushed := by
    intro rest w id e rs h he _
    have hinv := h.inv.settled he (flushWriteBuffer_keeps fd_ignoresWrites rs e)
    exact h.overwrite hinv (Queue.settled_nextId _ _ _ _) he
      (fun i => Queue.elements_settled _ _ i _ _) fun o _ ho => ho.flush rs
  rearmed := by
    intro rest w id e h he _
    refine h.queue (h.inv.epollMod (h.inv.owned id e he) e.mask) ?_ fun i a ha => ?_
    · unfold Queue.epollMod
      split <;> rfl
    · rwa [Queue.epollMod_elements] at ha
  closing := by
    intro rest w id e reason h he
    obtain ⟨o, ho, hoe⟩ := h.element id e he
    refine ⟨h.inv, h.nextId, h.element, h.log, fun i called' hc => ?_⟩
    obtain ⟨rfl, rfl⟩ := Prod.mk.inj (Option.some.inj hc)
    exact ⟨o, ho, rfl, hoe.fd, hoe.ptr⟩
  removed := by
    intro rest w id e data closed h hcalling he
    rw [if_pos (h.inv.owned id e he)]
    exact (h.returned hcalling closed).queue (h.inv.remove he) rfl fun i a => lookup_remove

def QueueOp.origin : QueueOp → Option Origin
  | .put fd ptr state _ _ => some ⟨fd, ptr, state⟩
  | _ => none

theorem Traced.put (h : Traced os w) (o : Origin) (added stored : Bool) : Traced (os ++ [o])
    { w with queue := (w.queue.put o.fd o.ptr o.state added stored).2 } := by
  have hold : ∀ {i : ElemId} {o' : Origin}, os[i]? = some o' → (os ++ [o])[i]? = some o' := by
    intro i o' hi
    rw [List.getElem?_append_left (List.getElem?_eq_some_iff.mp hi).1, hi]
  refine ⟨h.inv.put _ _ _ _ _, ?_, fun i a ha => ?_, fun c hc => ?_, fun i called hc => ?_⟩
  · simp only [Queue.put]
    split_ifs <;> simp [h.nextId]
  · have hnew : (os ++ [o])[w.queue.nextId]? = some o := by
      rw [h.nextId, List.getElem?_concat_length]
    simp only [Queue.put] at ha
    split_ifs at ha
    · rw [FiniteMap.lookup_insert_eq] at ha
      split_ifs at ha with hi
      · rw [hi, ← Option.some.inj ha]
        exact ⟨o, hnew, rfl, rfl, .inl rfl⟩
      · obtain ⟨o', ho', hof⟩ := h.element i a ha
        exact ⟨o', hold ho', hof⟩
    · obtain ⟨o', ho', hof⟩ := h.element i a ha
      exact ⟨o', hold ho', hof⟩
  · obtain ⟨o', ho', ht⟩ := h.log c hc
    exact ⟨o', hold ho', ht⟩
  · obtain ⟨o', ho', ht⟩ := h.calling i called hc
    exact ⟨o', hold ho', ht⟩

section
variable (kernel : Kernel κ) (handler : NetworkQueueHandler σ) (fuel : ℕ)

theorem close_traced (os : List Origin) (fd : Fd) :
    Exec.Ends (Traced os) (close (κ := κ) (σ := σ) fd) fun _ w => Traced os w := by
  apply Exec.Triple.bind (Q := fun _ w => Traced os w)
  · exact .look fun w hw => hw
  · intro found
    cases found with
    | none => exact .pure fun w hw => hw
    | some id =>
      refine .bind (Q := fun _ w => Traced os w) ?_ fun _ => .pure fun w hw => hw
      refine .bind (deref_ends id) fun e => .change fun w hw => ?_
      split_ifs
      · exact hw.1.queue (hw.1.inv.remove hw.2) rfl fun i a => lookup_remove
      · exact hw.1

theorem perform_traced (os : List Origin) (op : QueueOp) :
    Exec.Ends (Traced os) (perform kernel handler fuel op)
      fun _ w => Traced (os ++ op.origin.toList) w := by
  have hP : Maintained (κ := κ) handler fun _ w => Traced os w := Traced.maintained os handler
  cases op with
  | put fd ptr state added stored =>
    exact .change fun w hw => hw.put ⟨fd, ptr, state⟩ added stored
  | close fd =>
    simp only [QueueOp.origin, Option.toList_none, List.append_nil]
    exact .bind (close_traced os fd) fun _ => .pure fun w hw => hw
  | send fd data =>
    simp only [QueueOp.origin, Option.toList_none, List.append_nil]
    intro w hw
    refine Exec.Triple.bind (sendOn_ends kernel hP.toSteady [] w.calling fd data) ?_ w ⟨hw, rfl⟩
    exact fun _ => .pure fun v hv => hv.1
  | process fd =>
    simp only [QueueOp.origin, Option.toList_none, List.append_nil]
    apply Exec.Triple.bind (Q := fun _ w => Traced os w)
    · exact .look fun w hw => hw
    · intro found
      cases found with
      | none => exact .pure fun w hw => hw
      | some id =>
        refine .bind (Q := fun _ w => Traced os w) (.change fun w hw => ?_) fun _ => ?_
        · exact ⟨hw.inv, hw.nextId, hw.element, hw.log, hw.calling⟩
        · exact process_ends kernel hP.toSteady [] id fuel
  | waitAndProcess reported =>
    simp only [QueueOp.origin, Option.toList_none, List.append_nil]
    intro w hw
    have hspec := Queue.epollWait_spec hw.inv (reported.take epollMaxEvents)
    refine waitAndProcess_ends kernel hP fuel reported w hw.inv ?_ w rfl
    refine hw.queue hspec.1 (Queue.epollWait_nextId _ _) fun i a ha => ?_
    rwa [hspec.2.1] at ha

theorem performAll_traced (os : List Origin) (ops : List QueueOp) :
    Exec.Ends (Traced os) (performAll kernel handler fuel ops)
      fun _ w => Traced (os ++ ops.filterMap QueueOp.origin) w := by
  have hstep : ∀ done op, Exec.Ends (Traced (os ++ done.filterMap QueueOp.origin))
      (perform kernel handler fuel op)
      fun _ w => Traced (os ++ (done ++ [op]).filterMap QueueOp.origin) w := by
    intro done op
    have hop := perform_traced kernel handler fuel (os ++ done.filterMap QueueOp.origin) op
    have hlist : (done ++ [op]).filterMap QueueOp.origin =
        done.filterMap QueueOp.origin ++ op.origin.toList := by
      rw [List.filterMap_append]
      cases hor : op.origin <;> simp [hor]
    rwa [hlist, ← List.append_assoc]
  have h := Exec.Triple.forEach (I := fun done w => Traced (os ++ done.filterMap QueueOp.origin) w)
    hstep [] ops
  simpa [performAll] using h

/-- Callbacks are told what was put. In every run of calls that return, whatever
the kernel answers and the handler does, each callback for the element of a `put`
has the descriptor and the pointer that this `put` was given, and a packet is
reported as a TUN packet or as a socket packet according to the state the element
was put in with. -/
theorem callbacks_told_of_put (k : κ) (user : σ) (ops : List QueueOp) {w : World κ σ}
    (h : performAll kernel handler fuel ops (.start k user) = (.ok (), w)) :
    ∀ c ∈ w.log, ∃ o, (ops.filterMap QueueOp.origin)[c.element]? = some o ∧
      o.Tells c.element c.called := by
  have hstart : Traced [] (World.start (σ := σ) k user) := by
    refine ⟨Queue.Inv.empty, rfl, fun i a ha => ?_, by simp [World.start], by simp [World.start]⟩
    simp [World.start, Queue.empty] at ha
  have hw := (performAll_traced kernel handler fuel [] ops).of_eq hstart h
  rw [List.nil_append] at hw
  exact hw.log

end

/-- A packet comes in on the second of two descriptors. -/
theorem callbacks_told_of_put_packet :
    let ops : List QueueOp := [.put 4 40 .tunReceive true true, .put 5 50 .sckHeader true true,
      .waitAndProcess [(5, ⟨true, false, false, false⟩)]]
    let w := (performAll scriptedKernel idleHandler 5 ops (.start authPacket ())).2
    ∀ c ∈ w.log, ∃ o, [(⟨4, 40, .tunReceive⟩ : Origin), ⟨5, 50, .sckHeader⟩][c.element]? = some o ∧
      o.Tells c.element c.called := by
  intro ops w
  have h : performAll scriptedKernel idleHandler 5 ops (.start authPacket ()) = (.ok (), w) := by
    rfl
  exact callbacks_told_of_put scriptedKernel idleHandler 5 authPacket () ops h

end VNet.NetQueue
