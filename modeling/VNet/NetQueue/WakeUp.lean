import VNet.NetQueue.Preservation

namespace VNet.NetQueue
open Protocol

/-- The registration reports the next input, and the next room for output when
bytes wait to be written. -/
structure Registration.Wakes (r : Registration) (id : ElemId) (e : NetworkElement) : Prop where
  ptr : r.ptr = id
  armed : r.armed = true
  epollout : e.writeBuffer ≠ [] → r.interest = .epollinEpollout

def Queue.AwakeBut (q : Queue) (ids : List ElemId) : Prop :=
  ∀ id e, id ∉ ids → q.elements.lookup id = some e →
    ∃ r, q.epoll.lookup e.fd = some r ∧ r.Wakes id e

variable {κ σ : Type}

/-- In the middle of a batch only the elements with an event to be done with may
be disarmed. -/
structure Awake (ids : List ElemId) (w : World κ σ) : Prop where
  inv : w.queue.Inv
  awake : w.queue.AwakeBut ids

/-- A `send` asks for `EPOLLOUT`, or it leaves nothing waiting where nothing
waited before. -/
theorem send_registered (rs : List WriteResult) (e : NetworkElement) (data : Bytes) :
    (send rs e data).registered = some .epollinEpollout ∨
      ((send rs e data).registered = none ∧
        ((send rs e data).element.writeBuffer ≠ [] → e.writeBuffer ≠ [])) := by
  unfold send
  split_ifs with hb hmax
  · exact Or.inr ⟨rfl, fun _ => hb⟩
  · exact Or.inr ⟨rfl, fun _ => hb⟩
  · cases sendDirect_element rs e data with
    | same helem hreg =>
      refine Or.inr ⟨hreg, ?_⟩
      rw [helem]
      exact id
    | overflowed helem hreg =>
      refine Or.inr ⟨hreg, ?_⟩
      rw [helem]
      exact id
    | waiting rest helem hreg => exact Or.inl hreg

section
variable {q : Queue} {ids : List ElemId} {id : ElemId} {e e' : NetworkElement}

theorem Queue.AwakeBut.setElement (h : q.AwakeBut ids) (he : q.elements.lookup id = some e)
    (hfd : e'.fd = e.fd) (hbuf : e'.writeBuffer ≠ [] → e.writeBuffer ≠ []) :
    (q.setElement id e').AwakeBut ids := by
  intro i a hi ha
  rw [Queue.elements_setElement] at ha
  split_ifs at ha with heq
  · rw [heq] at hi ⊢
    obtain ⟨r, hr, hwakes⟩ := h id e hi he
    rw [← Option.some.inj ha, hfd]
    exact ⟨r, hr, hwakes.ptr, hwakes.armed, fun hb => hwakes.epollout (hbuf hb)⟩
  · exact h i a hi ha

/-- Changes to one descriptor do not disturb the others. -/
theorem Queue.AwakeBut.of_other (h : q.AwakeBut ids) (hinv : q.Inv)
    (he : q.elements.lookup id = some e) {i : ElemId} (hne : i ≠ id) (hi : i ∉ ids)
    {a : NetworkElement} (ha : q.elements.lookup i = some a) :
    a.fd ≠ e.fd ∧ ∃ r, q.epoll.lookup a.fd = some r ∧ r.Wakes i a := by
  refine ⟨fun hfd => hne (hinv.fd_inj ha he hfd), h i a hi ha⟩

theorem Queue.AwakeBut.epollMod (h : q.AwakeBut (id :: ids)) (hinv : q.Inv)
    (he : q.elements.lookup id = some e) {interest : Interest}
    (hmask : e.writeBuffer ≠ [] → interest = .epollinEpollout) :
    (q.epollMod e.fd id interest).AwakeBut ids := by
  have hsome := hinv.epoll_isSome he
  intro i a hi ha
  rw [Queue.epollMod_elements] at ha
  rw [Queue.epoll_epollMod q hsome]
  by_cases heq : i = id
  · rw [heq, he] at ha
    rw [heq, ← Option.some.inj ha, if_pos rfl]
    exact ⟨_, rfl, rfl, rfl, hmask⟩
  · obtain ⟨hfd, hr⟩ := h.of_other hinv he heq (by simp [heq, hi]) ha
    rw [if_neg hfd]
    exact hr

theorem Queue.AwakeBut.mono {ids' : List ElemId} (h : q.AwakeBut ids) (hsub : ids ⊆ ids') :
    q.AwakeBut ids' := by
  intro i a hi ha
  exact h i a (fun hmem => hi (hsub hmem)) ha

theorem Queue.AwakeBut.remove (h : q.AwakeBut ids) (hinv : q.Inv)
    (he : q.elements.lookup id = some e) {ids' : List ElemId} (hsub : ids ⊆ id :: ids') :
    (q.remove id e.fd).AwakeBut ids' := by
  intro i a hi ha
  simp only [Queue.remove, FiniteMap.lookup_erase_eq] at ha ⊢
  split_ifs at ha with heq
  have hids : i ∉ ids := by
    intro hmem
    rcases List.mem_cons.mp (hsub hmem) with rfl | hmem'
    · exact heq rfl
    · exact hi hmem'
  obtain ⟨hfd, hr⟩ := h.of_other hinv he heq hids ha
  rw [if_neg hfd]
  exact hr

/-- A call on the write side of an element. -/
theorem Queue.AwakeBut.settled (h : q.AwakeBut ids) (hinv : q.Inv)
    (he : q.elements.lookup id = some e) {o : WriteOutcome} (hfd : o.element.fd = e.fd)
    (hreg : id ∉ ids → o.registered = some .epollinEpollout ∨
      (o.registered = none ∧ (o.element.writeBuffer ≠ [] → e.writeBuffer ≠ []))) :
    (q.settled id e.fd o).AwakeBut ids := by
  intro i a hi ha
  rw [Queue.elements_settled] at ha
  have hepoll : ∀ fd, fd ≠ e.fd → (q.settled id e.fd o).epoll.lookup fd = q.epoll.lookup fd := by
    intro fd hne
    unfold Queue.settled
    cases o.registered with
    | none => rfl
    | some interest =>
      have hsome : ((q.setElement id o.element).epoll.lookup e.fd).isSome := hinv.epoll_isSome he
      dsimp only
      rw [Queue.epoll_epollMod _ hsome, if_neg hne]
      rfl
  split_ifs at ha with heq
  · rw [← Option.some.inj ha, heq, hfd]
    rw [heq] at hi
    rcases hreg hi with hout | ⟨hnone, hbuf⟩
    · -- the bytes were buffered and EPOLLOUT was registered for them
      have hsome : ((q.setElement id o.element).epoll.lookup e.fd).isSome := hinv.epoll_isSome he
      refine ⟨⟨id, .epollinEpollout, true⟩, ?_, rfl, rfl, fun _ => rfl⟩
      unfold Queue.settled
      rw [hout]
      dsimp only
      rw [Queue.epoll_epollMod _ hsome, if_pos rfl]
    · -- nothing was registered, and nothing was buffered that was not before
      obtain ⟨r, hr, hwakes⟩ := h id e hi he
      refine ⟨r, ?_, hwakes.ptr, hwakes.armed, fun hb => hwakes.epollout (hbuf hb)⟩
      unfold Queue.settled
      rw [hnone]
      exact hr
  · obtain ⟨hne, hr⟩ := h.of_other hinv he heq hi ha
    rw [hepoll _ hne]
    exact hr

/-- `epoll_wait` disarms only what it reports. -/
theorem Queue.epollWait_epoll (reported : List (Fd × Events)) {fd : Fd} {r : Registration}
    (hr : q.epoll.lookup fd = some r) (hptr : r.ptr ∉ (q.epollWait reported).1.map (·.1)) :
    (q.epollWait reported).2.epoll.lookup fd = some r := by
  induction reported generalizing q with
  | nil => exact hr
  | cons x rest ih =>
    obtain ⟨fd', ev⟩ := x
    unfold Queue.epollWait at hptr ⊢
    split
    · next ptr interest hreg =>
      simp only [hreg, List.map_cons, List.mem_cons, not_or] at hptr
      apply ih _ hptr.2
      rw [FiniteMap.lookup_insert_eq, if_neg]
      · exact hr
      · intro heq
        rw [heq, hreg] at hr
        exact hptr.1 (by rw [← Option.some.inj hr])
    · next hreg =>
      apply ih hr
      revert hptr
      split
      · next ptr interest hreg' => exact absurd hreg' (hreg ptr interest)
      · exact id

theorem Queue.AwakeBut.epollWait (h : q.AwakeBut []) (hinv : q.Inv)
    (reported : List (Fd × Events)) :
    (q.epollWait reported).2.AwakeBut ((q.epollWait reported).1.map (·.1)) := by
  intro i a hi ha
  rw [(Queue.epollWait_spec hinv reported).2.1] at ha
  obtain ⟨r, hr, hwakes⟩ := h i a (by simp) ha
  refine ⟨r, Queue.epollWait_epoll reported hr ?_, hwakes⟩
  rw [hwakes.ptr]
  exact hi

theorem Queue.AwakeBut.put (h : q.AwakeBut []) (fd : Fd) (ptr : ℕ)
    (state : FiniteStateMachine) (added stored : Bool) :
    (q.put fd ptr state added stored).2.AwakeBut [] := by
  unfold Queue.put
  split_ifs with hput
  · intro i a hi ha
    simp only [FiniteMap.lookup_insert_eq] at ha ⊢
    split_ifs at ha with hid
    · rw [← Option.some.inj ha]
      exact ⟨_, if_pos rfl, hid.symm, rfl, fun hb => absurd rfl hb⟩
    · obtain ⟨r, hr, hwakes⟩ := h i a (by simp) ha
      rw [if_neg ?_]
      · exact ⟨r, hr, hwakes⟩
      · intro hfd
        rw [hfd, hput.2.1] at hr
        simp at hr
  · exact h

end

theorem Awake.maintained (handler : NetworkQueueHandler σ) :
    MaintainedAlways (κ := κ) handler Awake where
  kernel k h := ⟨h.inv, h.awake⟩
  user user h := ⟨h.inv, h.awake⟩
  upcoming upcoming h := ⟨h.inv, h.awake⟩
  sent := by
    intro ids w id fd e rs data h hfd he _
    rw [← h.inv.fd_of_mapped hfd he]
    exact ⟨h.inv.settled he (send_keeps fd_ignoresWrites rs e data),
      h.awake.settled h.inv he (send_keeps fd_ignoresWrites rs e data) fun _ =>
        send_registered rs e data⟩
  closed := by
    intro ids w id fd e _ h _ he _
    exact ⟨h.inv.remove he, h.awake.remove h.inv he (List.subset_cons_self _ _)⟩
  read := by
    intro ids w id e count resume r h he hpass
    have hfd := read_keeps fd_ignoresReads hpass r
    refine ⟨h.inv.setElement he hfd, h.awake.setElement he hfd ?_⟩
    rw [read_keeps writeBuffer_ignoresReads hpass r]
    exact fun hb => hb
  ready h _ _ := ⟨h.inv, h.awake⟩
  resumed := by
    intro ids w id e e' called resume closed h _ hpass he'
    have hfd := hpass.resume_keeps fd_ignoresReads e'
    refine ⟨h.inv.setElement he' hfd, h.awake.setElement he' hfd ?_⟩
    rw [hpass.resume_keeps writeBuffer_ignoresReads e']
    exact fun hb => hb
  flushed := by
    intro rest w id e rs h he _
    exact ⟨h.inv.settled he (flushWriteBuffer_keeps fd_ignoresWrites rs e), h.awake.settled h.inv he
      (flushWriteBuffer_keeps fd_ignoresWrites rs e) fun hid => absurd List.mem_cons_self hid⟩
  rearmed := by
    intro rest w id e h he _
    refine ⟨h.inv.epollMod (h.inv.owned id e he) e.mask, h.awake.epollMod h.inv he ?_⟩
    intro hb
    -- the mask has EPOLLOUT exactly when bytes are left to write
    exact if_neg hb
  closing reason h _ := ⟨h.inv, h.awake⟩
  removed := by
    intro rest w id e data closed h _ he
    -- the element is still mapped, so `closeFor` removes it
    rw [if_pos (h.inv.owned id e he)]
    exact ⟨h.inv.remove he, h.awake.remove h.inv he (List.Subset.refl _)⟩
  inv h := h.inv
  waited := by
    intro w reported h
    exact ⟨(Queue.epollWait_spec h.inv reported).1, h.awake.epollWait h.inv reported⟩
  put := by
    intro w fd ptr state added stored h
    exact ⟨h.inv.put fd ptr state added stored, h.awake.put fd ptr state added stored⟩
  closedFd := by
    intro w id e h he
    exact ⟨h.inv.remove he, h.awake.remove h.inv he (List.nil_subset _)⟩

/-- After every run of calls that return, whatever the kernel answers and the
handler does, each element in the map is armed, for `EPOLLOUT` too when bytes
wait in its write buffer. -/
theorem no_lost_wakeup (kernel : Kernel κ) (handler : NetworkQueueHandler σ) (fuel : ℕ) (k : κ)
    (user : σ) (ops : List QueueOp) {w : World κ σ}
    (h : performAll kernel handler fuel ops (.start k user) = (.ok (), w)) (fd : Fd) (id : ElemId)
    (hid : w.queue.fdToNetworkElement.lookup fd = some id) :
    ∃ e r, w.queue.elements.lookup id = some e ∧ w.queue.epoll.lookup fd = some r ∧
      r.ptr = id ∧ r.armed = true ∧ (e.writeBuffer ≠ [] → r.interest = .epollinEpollout) := by
  have hstart : Awake [] (World.start k user) := by
    refine ⟨Queue.Inv.empty, ?_⟩
    intro i a _ ha
    simp [World.start, Queue.empty] at ha
  have hw := (performAll_ends kernel (Awake.maintained handler) fuel ops).of_eq hstart h
  obtain ⟨e, he, hfd⟩ := hw.inv.mapped fd id hid
  obtain ⟨r, hr, hwakes⟩ := hw.awake id e (by simp) he
  rw [hfd] at hr
  exact ⟨e, r, he, hr, hwakes.ptr, hwakes.armed, hwakes.epollout⟩

def stalledKernel : Kernel Unit where
  read _ _ _ := (.eagain, ())
  write _ _ := ([.eagain], ())
  epollMod _ _ := (true, ())

theorem no_lost_wakeup_stalled :
    let w := (performAll stalledKernel idleHandler 1 [.put 5 0 .sckHeader true true, .send 5 [7],
      .waitAndProcess [(5, ⟨true, true, false, false⟩)]] (.start () ())).2
    ∃ r, w.queue.epoll.lookup 5 = some r ∧ r.armed = true ∧ r.interest = .epollinEpollout := by
  intro w
  have hrun : performAll stalledKernel idleHandler 1 [.put 5 0 .sckHeader true true, .send 5 [7],
      .waitAndProcess [(5, ⟨true, true, false, false⟩)]] (.start () ()) = (.ok (), w) :=
    Prod.ext rfl rfl
  obtain ⟨e, r, he, hr, _, harmed, hout⟩ :=
    no_lost_wakeup stalledKernel idleHandler 1 () () _ hrun 5 0 rfl
  have hbuf : w.queue.elements.lookup 0 =
      some { NetworkElement.new 5 0 .sckHeader with writeBuffer := [7] } := rfl
  rw [hbuf, Option.some.injEq] at he
  exact ⟨r, hr, harmed, hout (by rw [← he]; simp)⟩

end VNet.NetQueue
