import VNet.NetQueue.Lifetime

namespace VNet.NetQueue
open Protocol

def Reaction.NoClose {σ : Type} : Reaction σ → Prop
  | .done _ => True
  | .close _ _ => False
  | .send _ _ next => ∀ b, (next b).NoClose

structure NetworkQueueHandler.NoClose {σ : Type} (handler : NetworkQueueHandler σ) : Prop where
  onClose : ∀ user data, (handler.onClose user data).NoClose
  onSocketReady : ∀ user data, (handler.onSocketReady user data).NoClose
  onTunReady : ∀ user data, (handler.onTunReady user data).NoClose

def idleHandler : NetworkQueueHandler Unit where
  onClose _ _ := .done ()
  onSocketReady _ _ := .done ()
  onTunReady _ _ := .done ()

theorem idleHandler_noClose : idleHandler.NoClose :=
  ⟨fun _ _ => trivial, fun _ _ => trivial, fun _ _ => trivial⟩

def Queue.settled (q : Queue) (id : ElemId) (fd : Fd) (o : WriteOutcome) : Queue :=
  match o.registered with
  | none => q.setElement id o.element
  | some interest => (q.setElement id o.element).epollMod fd id interest

variable {κ σ : Type}

namespace Queue

theorem Inv.fd_inj {q : Queue} (h : Inv q) {id id' : ElemId} {e e' : NetworkElement}
    (he : q.elements.lookup id = some e) (he' : q.elements.lookup id' = some e')
    (hfd : e.fd = e'.fd) : id = id' := by
  have hid := h.owned id e he
  rw [hfd, h.owned id' e' he'] at hid
  exact (Option.some.inj hid).symm

theorem elements_setElement (q : Queue) (id id' : ElemId) (e : NetworkElement) :
    (q.setElement id e).elements.lookup id' =
      if id' = id then some e else q.elements.lookup id' :=
  FiniteMap.lookup_insert_eq _ _ _ _

theorem elements_settled (q : Queue) (id id' : ElemId) (fd : Fd) (o : WriteOutcome) :
    (q.settled id fd o).elements.lookup id' =
      if id' = id then some o.element else q.elements.lookup id' := by
  unfold settled
  cases o.registered with
  | none => exact q.elements_setElement id id' o.element
  | some interest =>
    dsimp only
    rw [epollMod_elements]
    exact q.elements_setElement id id' o.element

theorem epollMod_map (q : Queue) (fd : Fd) (id : ElemId) (interest : Interest) :
    (q.epollMod fd id interest).fdToNetworkElement = q.fdToNetworkElement := by
  unfold epollMod
  split <;> rfl

theorem settled_map (q : Queue) (id : ElemId) (fd : Fd) (o : WriteOutcome) :
    (q.settled id fd o).fdToNetworkElement = q.fdToNetworkElement := by
  unfold settled
  cases o.registered with
  | none => rfl
  | some interest => exact epollMod_map _ _ _ _

theorem epollWait_map (q : Queue) (reported : List (Fd × Events)) :
    (q.epollWait reported).2.fdToNetworkElement = q.fdToNetworkElement := by
  induction reported generalizing q with
  | nil => rfl
  | cons x rest ih =>
    unfold epollWait
    split
    · exact ih _
    · exact ih q

theorem epoll_epollMod (q : Queue) {fd : Fd} (h : (q.epoll.lookup fd).isSome) (id : ElemId)
    (interest : Interest) (fd' : Fd) :
    (q.epollMod fd id interest).epoll.lookup fd' =
      if fd' = fd then some ⟨id, interest, true⟩ else q.epoll.lookup fd' := by
  unfold epollMod
  cases hr : q.epoll.lookup fd with
  | none =>
    rw [hr] at h
    simp at h
  | some r => exact FiniteMap.lookup_insert_eq _ _ _ _

theorem Inv.epoll_isSome {q : Queue} (h : Inv q) {id : ElemId} {e : NetworkElement}
    (he : q.elements.lookup id = some e) : (q.epoll.lookup e.fd).isSome := by
  have hreg := h.registered e.fd
  rw [h.owned id e he] at hreg
  cases hr : q.epoll.lookup e.fd with
  | none =>
    rw [hr] at hreg
    simp at hreg
  | some r => rfl

/-- The element found under a descriptor has this descriptor. -/
theorem Inv.fd_of_mapped {q : Queue} (h : Inv q) {fd : Fd} {id : ElemId} {e : NetworkElement}
    (hfd : q.fdToNetworkElement.lookup fd = some id) (he : q.elements.lookup id = some e) :
    e.fd = fd := by
  obtain ⟨e', he', hfd'⟩ := h.mapped fd id hfd
  rw [he, Option.some.injEq] at he'
  rw [he', hfd']

theorem Inv.settled {q : Queue} (h : Inv q) {id : ElemId} {e : NetworkElement}
    (he : q.elements.lookup id = some e) {o : WriteOutcome} (hfd : o.element.fd = e.fd) :
    Inv (q.settled id e.fd o) := by
  have hset := h.setElement he hfd
  unfold Queue.settled
  cases o.registered with
  | none => exact hset
  | some interest => exact hset.epollMod (h.owned id e he) interest

end Queue

def World.sent (w : World κ σ) (id : ElemId) (fd : Fd) (o : WriteOutcome) : World κ σ :=
  { w with
    queue := w.queue.settled id fd o
    overflows :=
      if o.Overflowed then w.overflows ++ [⟨id, w.calling, w.log.length⟩] else w.overflows }

def World.called (w : World κ σ) (id : ElemId) (called : Called) (closed : List ElemId) :
    World κ σ :=
  { w with calling := none, log := w.log ++ [⟨id, called, w.upcoming, closed⟩] }

/-- The mask an element is armed with at the end of its event. -/
def NetworkElement.mask (e : NetworkElement) : Interest :=
  if e.writeBuffer = [] then .epollin else .epollinEpollout

def ReadyPass (e : NetworkElement) (called : Called) (resume : NetworkElement → NetworkElement) :
    Prop :=
  (∃ data, processPass e = .socketReady data resume ∧ called = .onSocketReady data) ∨
    ∃ data, processPass e = .tunReady data resume ∧ called = .onTunReady data

theorem ReadyPass.resume_keeps {α : Type} {f : NetworkElement → α} (hf : IgnoresReads f)
    {e : NetworkElement} {called : Called} {resume : NetworkElement → NetworkElement}
    (h : ReadyPass e called resume) (e' : NetworkElement) : f (resume e') = f e' := by
  have hpass := processPass_keeps hf e
  rcases h with ⟨data, heq, _⟩ | ⟨data, heq, _⟩
  · rw [heq] at hpass
    exact hpass e'
  · rw [heq] at hpass
    exact hpass e'

/-- A property of the world between the steps of an event; `ids` are the elements
with an event of the batch that is not done with, the current one in front. -/
structure Steady (handler : NetworkQueueHandler σ) (P : List ElemId → World κ σ → Prop) :
    Prop where
  kernel : ∀ {ids w} k, P ids w → P ids { w with kernel := k }
  user : ∀ {ids w} user, P ids w → P ids { w with user := user }
  upcoming : ∀ {ids w} upcoming, P ids w → P ids { w with upcoming := upcoming }
  sent : ∀ {ids w id fd e} rs data, P ids w → w.queue.fdToNetworkElement.lookup fd = some id →
    w.queue.elements.lookup id = some e → (send rs e data).returned ≠ none →
    P ids (w.sent id fd (send rs e data))
  closed : ∀ {ids w id fd e}, ¬ handler.NoClose → P ids w →
    w.queue.fdToNetworkElement.lookup fd = some id → w.queue.elements.lookup id = some e →
    w.queue.fdToNetworkElement.lookup e.fd = some id →
    P ids { w with queue := w.queue.remove id e.fd }
  read : ∀ {ids w id e count resume} r, P ids w → w.queue.elements.lookup id = some e →
    processPass e = .read count resume →
    P ids { w with queue := w.queue.setElement id (resume r).2 }
  ready : ∀ {ids w id e called resume}, P ids w → w.queue.elements.lookup id = some e →
    ReadyPass e called resume → P ids { w with calling := some (id, called) }
  resumed : ∀ {ids w id e e' called resume} closed, P ids w →
    w.calling = some (id, called) → ReadyPass e called resume →
    w.queue.elements.lookup id = some e' →
    P ids { w.called id called closed with queue := w.queue.setElement id (resume e') }
  flushed : ∀ {rest w id e} rs, P (id :: rest) w → w.queue.elements.lookup id = some e →
    (flushWriteBuffer rs e).returned ≠ none →
    P (id :: rest) { w with queue := w.queue.settled id e.fd (flushWriteBuffer rs e) }

/-- The property goes from one event to the next: the element of the event is
armed again, or its `onClose` is called and it is removed. -/
structure Maintained (handler : NetworkQueueHandler σ) (P : List ElemId → World κ σ → Prop) : Prop
    extends Steady handler P where
  rearmed : ∀ {rest w id e}, P (id :: rest) w → w.queue.elements.lookup id = some e →
    (w.queue.epoll.lookup e.fd).isSome →
    P rest { w with queue := w.queue.epollMod e.fd id e.mask }
  closing : ∀ {rest w id e} reason, P (id :: rest) w → w.queue.elements.lookup id = some e →
    P (id :: rest) { w with calling := some (id, .onClose ⟨id, e.ptr, e.fd, reason⟩) }
  removed : ∀ {rest w id e data} closed, P (id :: rest) w →
    w.calling = some (id, .onClose data) → w.queue.elements.lookup id = some e →
    P rest
      { w.called id (.onClose data) closed with
        queue := if w.queue.fdToNetworkElement.lookup e.fd = some id then
          w.queue.remove id e.fd else w.queue }

section
variable {P : World κ σ → Prop}

theorem deref_ends (id : ElemId) :
    Exec.Ends P (deref id) fun e w => P w ∧ w.queue.elements.lookup id = some e := by
  intro w hw
  cases he : w.queue.elements.lookup id with
  | some e =>
    simp only [deref, he]
    exact ⟨hw, trivial⟩
  | none =>
    simp only [deref, he]

theorem assign_ends {id : ElemId} {e : NetworkElement} {Q : Unit → World κ σ → Prop}
    (h : ∀ w, P w → Q () { w with queue := w.queue.setElement id e }) :
    Exec.Ends P (assign id e) Q := by
  apply Exec.Triple.bind (deref_ends id)
  intro e'
  apply Exec.Triple.change
  intro w hw
  exact h w hw.1

theorem settle_ends {id : ElemId} {fd : Fd} {o : WriteOutcome} {Q : Bool → World κ σ → Prop}
    (h : ∀ w b, P w → o.returned = some b → Q b { w with queue := w.queue.settled id fd o }) :
    Exec.Ends P (settle id fd o) Q := by
  have hset : Exec.Ends P (assign id o.element) fun _ v => ∃ w, P w ∧
      v = { w with queue := w.queue.setElement id o.element } :=
    assign_ends fun w hw => ⟨w, hw, rfl⟩
  apply Exec.Triple.bind hset
  intro _
  apply Exec.Triple.bind (Q := fun _ v => ∃ w, P w ∧
    v = { w with queue := w.queue.settled id fd o })
  · apply Exec.Triple.change
    rintro v ⟨w, hw, rfl⟩
    refine ⟨w, hw, ?_⟩
    unfold Queue.settled
    cases o.registered <;> rfl
  · intro _
    cases hret : o.returned with
    | none => exact Exec.Triple.fault fun _ _ => trivial
    | some b =>
      apply Exec.Triple.pure
      rintro v ⟨w, hw, rfl⟩
      exact h w b hw hret

end

section
variable (kernel : Kernel κ) {handler : NetworkQueueHandler σ}
  {P : List ElemId → World κ σ → Prop} (hP : Steady handler P)

include hP

theorem writeAnswers_ends (ids : List ElemId) {R : Queue → Option (ElemId × Called) → Prop}
    (fd : Fd) :
    Exec.Ends (fun w => P ids w ∧ R w.queue w.calling) (writeAnswers kernel fd)
      fun _ w => P ids w ∧ R w.queue w.calling := by
  apply Exec.Triple.next
  intro w hw
  exact ⟨hP.kernel _ hw.1, hw.2⟩

/-- A `send` keeps the property, and is made inside the same callback. -/
theorem sendOn_ends (ids : List ElemId) (calling : Option (ElemId × Called)) (fd : Fd)
    (data : Bytes) :
    Exec.Ends (fun w => P ids w ∧ w.calling = calling) (sendOn kernel fd data)
      fun _ w => P ids w ∧ w.calling = calling := by
  apply Exec.Triple.bind (Q := fun found w => (P ids w ∧ w.calling = calling) ∧
    w.queue.fdToNetworkElement.lookup fd = found)
  · apply Exec.Triple.look
    intro w hw
    exact ⟨hw, rfl⟩
  · intro found
    cases found with
    | none =>
      apply Exec.Triple.pure
      intro w hw
      exact hw.1
    | some id =>
      apply Exec.Triple.bind (deref_ends id)
      intro e
      apply Exec.Triple.bind (Q := fun _ w => P ids w ∧ w.calling = calling ∧
        w.queue.fdToNetworkElement.lookup fd = some id ∧ w.queue.elements.lookup id = some e)
      · have hans := writeAnswers_ends kernel hP ids (R := fun q c => c = calling ∧
          q.fdToNetworkElement.lookup fd = some id ∧ q.elements.lookup id = some e) fd
        apply Exec.Triple.weaken hans
        intro w hw
        exact ⟨hw.1.1.1, hw.1.1.2, hw.1.2, hw.2⟩
      · intro rs
        -- the overflow is noted before the element is stored; `sent` is both at once
        apply Exec.Triple.bind (Q := fun _ v => ∃ w, P ids w ∧ w.calling = calling ∧
          w.queue.fdToNetworkElement.lookup fd = some id ∧ w.queue.elements.lookup id = some e ∧
          v = { w with overflows := (w.sent id fd (send rs e data)).overflows })
        · apply Exec.Triple.change
          intro w hw
          refine ⟨w, hw.1, hw.2.1, hw.2.2.1, hw.2.2.2, ?_⟩
          unfold World.sent
          split_ifs <;> rfl
        · intro _
          apply settle_ends
          rintro v b ⟨w, hw, hcalling, hfd, he, rfl⟩ hret
          exact ⟨hP.sent rs data hw hfd he (by simp [hret]), hcalling⟩

theorem closeElement_ends (ids : List ElemId) (calling : Option (ElemId × Called)) (fd : Fd)
    (id : ElemId) (hclose : ¬ handler.NoClose) :
    Exec.Ends (fun w => (P ids w ∧ w.calling = calling) ∧
        w.queue.fdToNetworkElement.lookup fd = some id) (closeElement id)
      fun _ w => P ids w ∧ w.calling = calling := by
  apply Exec.Triple.bind (deref_ends id)
  intro e
  apply Exec.Triple.change
  rintro w ⟨⟨hw, hfd⟩, he⟩
  split_ifs with hmap
  · exact ⟨hP.closed hclose hw.1 hfd he hmap, hw.2⟩
  · exact hw

theorem close_ends (ids : List ElemId) (calling : Option (ElemId × Called)) (fd : Fd)
    (hclose : ¬ handler.NoClose) :
    Exec.Ends (fun w => P ids w ∧ w.calling = calling) (close fd)
      fun _ w => P ids w ∧ w.calling = calling := by
  apply Exec.Triple.bind (Q := fun found w => (P ids w ∧ w.calling = calling) ∧
    w.queue.fdToNetworkElement.lookup fd = found)
  · apply Exec.Triple.look
    intro w hw
    exact ⟨hw, rfl⟩
  · intro found
    cases found with
    | none =>
      apply Exec.Triple.pure
      intro w hw
      exact hw.1
    | some id =>
      apply Exec.Triple.bind (closeElement_ends hP ids calling fd id hclose)
      intro _
      apply Exec.Triple.pure
      intro w hw
      exact hw

/-- The calls of a handler, which makes none of `close` if it is of that kind. -/
theorem react_ends (ids : List ElemId) (calling : Option (ElemId × Called)) (r : Reaction σ)
    (hr : handler.NoClose → r.NoClose) (closed : List ElemId) :
    Exec.Ends (fun w => P ids w ∧ w.calling = calling) (react kernel r closed)
      fun _ w => P ids w ∧ w.calling = calling := by
  induction r generalizing closed with
  | done user =>
    apply Exec.Triple.bind (Q := fun _ w => P ids w ∧ w.calling = calling)
    · apply Exec.Triple.change
      intro w hw
      exact ⟨hP.user user hw.1, hw.2⟩
    · intro _
      apply Exec.Triple.pure
      intro w hw
      exact hw
  | close fd next ih =>
    have hclose : ¬ handler.NoClose := fun h => hr h
    apply Exec.Triple.bind (close_ends hP ids calling fd hclose)
    intro found
    exact ih (fun h => absurd h hclose) _
  | send fd data next ih =>
    apply Exec.Triple.bind (sendOn_ends kernel hP ids calling fd data)
    intro b
    exact ih b (fun h => hr h b) closed

/-- A callback, from the world it begins in to the world it returns in. -/
theorem callback_ends (ids : List ElemId) {id : ElemId} {called : Called}
    {reaction : σ → Reaction σ} (hr : ∀ user, handler.NoClose → (reaction user).NoClose)
    {Q : World κ σ → Prop} (hbegin : ∀ w, Q w → P ids { w with calling := some (id, called) }) :
    Exec.Ends Q (callback kernel id called reaction) fun _ v => ∃ w closed, P ids w ∧
      w.calling = some (id, called) ∧ v = w.called id called closed := by
  apply Exec.Triple.bind (Q := fun _ => Q)
  · apply Exec.Triple.look
    intro w hw
    exact hw
  · intro user
    apply Exec.Triple.bind (Q := fun _ w => P ids w ∧ w.calling = some (id, called))
    · apply Exec.Triple.change
      intro w hw
      exact ⟨hbegin w hw, rfl⟩
    · intro _
      apply Exec.Triple.bind
        (react_ends kernel hP ids (some (id, called)) (reaction user) (hr user) [])
      intro closed
      apply Exec.Triple.change
      intro w hw
      exact ⟨w, closed, hw.1, hw.2, rfl⟩

/-- The end of a pass with a callback. -/
theorem resume_ends {ids : List ElemId} {id : ElemId} {e : NetworkElement} {called : Called}
    {resume : NetworkElement → NetworkElement} (hpass : ReadyPass e called resume) :
    Exec.Ends (fun v => ∃ w closed, P ids w ∧ w.calling = some (id, called) ∧
        v = w.called id called closed)
      (do
        let e' ← deref id
        assign id (resume e')
        pure .again)
      fun (_ : Flow) w => P ids w := by
  apply Exec.Triple.bind (deref_ends id)
  intro e'
  apply Exec.Triple.bind (Q := fun _ w => P ids w)
  · apply assign_ends
    rintro v ⟨⟨w, closed, hw, hcalling, rfl⟩, he'⟩
    exact hP.resumed closed hw hcalling hpass he'
  · intro _
    apply Exec.Triple.pure
    intro w hw
    exact hw

theorem processOnce_ends (ids : List ElemId) (id : ElemId) :
    Exec.Ends (P ids) (processOnce kernel handler id) fun _ w => P ids w := by
  apply Exec.Triple.bind (deref_ends id)
  intro e
  cases hpass : processPass e with
  | read count resume =>
    apply Exec.Triple.bind (Q := fun _ w => P ids w ∧
      w.queue.elements.lookup id = some e)
    · apply Exec.Triple.next
      intro w hw
      exact ⟨hP.kernel _ hw.1, hw.2⟩
    · intro r
      apply Exec.Triple.bind (Q := fun _ w => P ids w)
      · apply assign_ends
        intro w hw
        exact hP.read r hw.1 hw.2 hpass
      · intro _
        apply Exec.Triple.pure
        intro w hw
        exact hw
  | socketReady data resume =>
    have hready : ReadyPass e (.onSocketReady data) resume := Or.inl ⟨data, hpass, rfl⟩
    apply Exec.Triple.bind (callback_ends kernel hP _
      (fun user h => h.onSocketReady user data) fun w hw => hP.ready hw.1 hw.2 hready)
    intro _
    exact resume_ends hP hready
  | tunReady data resume =>
    have hready : ReadyPass e (.onTunReady data) resume := Or.inr ⟨data, hpass, rfl⟩
    apply Exec.Triple.bind (callback_ends kernel hP _
      (fun user h => h.onTunReady user data) fun w hw => hP.ready hw.1 hw.2 hready)
    intro _
    exact resume_ends hP hready
  | stop =>
    apply Exec.Triple.pure
    intro w hw
    exact hw.1

theorem process_ends (ids : List ElemId) (id : ElemId) (fuel : ℕ) :
    Exec.Ends (P ids) (process kernel handler id fuel) fun _ w => P ids w := by
  induction fuel with
  | zero => exact Exec.Triple.fault fun _ _ => trivial
  | succ fuel ih =>
    apply Exec.Triple.bind (processOnce_ends kernel hP ids id)
    intro flow
    cases flow with
    | stop =>
      apply Exec.Triple.pure
      intro w hw
      exact hw
    | again => exact ih

theorem onInput_ends (rest : List ElemId) (fuel : ℕ) (id : ElemId) (ev : Events) :
    Exec.Ends (P (id :: rest)) (onInput kernel handler fuel id ev) fun _ w => P (id :: rest) w := by
  apply Exec.Triple.ite
  · intro _
    apply Exec.Triple.bind (process_ends kernel hP (id :: rest) id fuel)
    intro _
    apply Exec.Triple.bind (deref_ends id)
    intro e
    apply Exec.Triple.pure
    intro w hw
    exact hw.1
  · intro _
    apply Exec.Triple.pure
    intro w hw
    exact hw

theorem onOutput_ends (rest : List ElemId) (id : ElemId) (ev : Events)
    (reason : Option CloseReason) :
    Exec.Ends (P (id :: rest)) (onOutput kernel id ev reason) fun _ w => P (id :: rest) w := by
  apply Exec.Triple.ite
  · intro _
    apply Exec.Triple.bind (deref_ends id)
    intro e
    apply Exec.Triple.bind (writeAnswers_ends kernel hP (id :: rest)
      (R := fun q _ => q.elements.lookup id = some e) e.fd)
    intro rs
    apply Exec.Triple.bind (Q := fun _ w => P (id :: rest) w)
    · apply settle_ends
      intro w b hw hret
      exact hP.flushed rs hw.1 hw.2 (by simp [hret])
    · intro flushed
      apply Exec.Triple.pure
      intro w hw
      exact hw
  · intro _
    apply Exec.Triple.pure
    intro w hw
    exact hw

end

section
variable (kernel : Kernel κ) {handler : NetworkQueueHandler σ}
  {P : List ElemId → World κ σ → Prop} (hP : Maintained handler P)

include hP

/-- An element that is armed again is done with. -/
theorem rearm_ends (rest : List ElemId) (id : ElemId) :
    Exec.Ends (P (id :: rest)) (rearm kernel id) fun reason w =>
      if reason = none then P rest w else P (id :: rest) w := by
  apply Exec.Triple.bind (deref_ends id)
  intro e
  apply Exec.Triple.bind (Q := fun ok w => P (id :: rest) w ∧
    w.queue.elements.lookup id = some e ∧ (ok = true → (w.queue.epoll.lookup e.fd).isSome))
  · apply Exec.Triple.next
    intro w hw
    refine ⟨hP.kernel _ hw.1, hw.2, ?_⟩
    intro hok
    -- EPOLL_CTL_MOD succeeds only on what is registered
    rw [Bool.and_eq_true] at hok
    exact hok.2
  · intro ok
    apply Exec.Triple.ite
    · intro hok
      apply Exec.Triple.bind (Q := fun _ w => P rest w)
      · apply Exec.Triple.change
        intro w hw
        exact hP.rearmed hw.1 hw.2.1 (hw.2.2 hok)
      · intro _
        apply Exec.Triple.pure
        intro w hw
        rw [if_pos rfl]
        exact hw
    · intro _
      apply Exec.Triple.pure
      intro w hw
      rw [if_neg (by simp)]
      exact hw.1

theorem rearmUnless_ends (rest : List ElemId) (id : ElemId) (reason : Option CloseReason) :
    Exec.Ends (P (id :: rest)) (rearmUnless kernel id reason) fun reason w =>
      if reason = none then P rest w else P (id :: rest) w := by
  cases reason with
  | none => exact rearm_ends kernel hP rest id
  | some reason =>
    apply Exec.Triple.pure
    intro w hw
    rw [if_neg (by simp)]
    exact hw

/-- The callback of `onClose`, and the removal right after it. -/
theorem closeFor_ends (rest : List ElemId) (id : ElemId) (reason : CloseReason) :
    Exec.Ends (P (id :: rest)) (closeFor kernel handler id reason) fun _ w => P rest w := by
  apply Exec.Triple.bind (deref_ends id)
  intro e
  apply Exec.Triple.bind (callback_ends kernel hP.toSteady _
    (fun user h => h.onClose user ⟨id, e.ptr, e.fd, reason⟩)
    fun w hw => hP.closing reason hw.1 hw.2)
  intro _
  apply Exec.Triple.bind (deref_ends id)
  intro e'
  apply Exec.Triple.change
  rintro v ⟨⟨w, closed, hw, hcalling, rfl⟩, he'⟩
  have hdone := hP.removed closed hw hcalling he'
  by_cases hmap : w.queue.fdToNetworkElement.lookup e'.fd = some id
  · rw [if_pos hmap] at hdone
    exact (if_pos hmap).symm ▸ hdone
  · rw [if_neg hmap] at hdone
    exact (if_neg hmap).symm ▸ hdone

theorem handleEvent_ends (rest : List ElemId) (fuel : ℕ) (id : ElemId) (ev : Events)
    {closed : List ElemId} (hid : id ∉ closed) :
    Exec.Ends (P (id :: rest)) (handleEvent kernel handler fuel id ev closed) fun closed' w =>
      P rest w ∧ ∀ i ∈ closed', i = id ∨ i ∈ closed := by
  unfold handleEvent
  rw [if_neg hid]
  apply Exec.Triple.bind (onInput_ends kernel hP.toSteady rest fuel id ev)
  intro afterInput
  apply Exec.Triple.bind (onOutput_ends kernel hP.toSteady rest id ev afterInput)
  intro afterOutput
  apply Exec.Triple.bind (rearmUnless_ends kernel hP rest id (onErrors ev afterOutput))
  intro reason
  cases reason with
  | none =>
    apply Exec.Triple.pure
    intro w hw
    rw [if_pos rfl] at hw
    exact ⟨hw, fun i hi => Or.inr hi⟩
  | some reason =>
    apply Exec.Triple.bind (Q := fun _ w => P rest w)
    · apply (closeFor_ends kernel hP rest id reason).weaken
      intro w hw
      rw [if_neg (by simp)] at hw
      exact hw
    · intro _
      apply Exec.Triple.pure
      intro w hw
      refine ⟨hw, fun i hi => ?_⟩
      rcases List.mem_append.mp hi with hold | hnew
      · exact Or.inr hold
      · exact Or.inl (List.mem_singleton.mp hnew)

/-- A part of a batch, with `after` still to come behind it. -/
theorem handleEvents_ends (fuel : ℕ) (after : List ElemId) (batch : List (ElemId × Events))
    {closed : List ElemId} (hnodup : (batch.map (·.1)).Nodup)
    (hclosed : ∀ i ∈ batch.map (·.1), i ∉ closed) :
    Exec.Ends (P (batch.map (·.1) ++ after)) (handleEvents kernel handler fuel batch closed)
      fun _ w => P after w := by
  induction batch generalizing closed with
  | nil =>
    apply Exec.Triple.pure
    intro w hw
    exact hw
  | cons x batch ih =>
    obtain ⟨id, ev⟩ := x
    rw [List.map_cons, List.nodup_cons] at hnodup
    rw [List.map_cons, List.forall_mem_cons] at hclosed
    apply Exec.Triple.bind (Q := fun _ w => P (id :: (batch.map (·.1) ++ after)) w)
    · apply Exec.Triple.change
      intro w hw
      exact hP.upcoming _ hw
    · intro _
      apply Exec.Triple.bind (handleEvent_ends kernel hP _ fuel id ev hclosed.1)
      intro closed' w hw
      apply ih hnodup.2 _ w hw.1
      intro i hi hmem
      rcases hw.2 i hmem with heq | hold
      · rw [heq] at hi
        exact hnodup.1 hi
      · exact hclosed.2 i hi hold

/-- A batch that was handled to its end, at the point where its first part is done. -/
theorem handleEvents_until {fuel : ℕ} {pre post : List (ElemId × Events)} {closed : List ElemId}
    {w w' : World κ σ} (hnodup : (pre.map (·.1)).Nodup)
    (hclosed : ∀ i ∈ pre.map (·.1), i ∉ closed) (hw : P ((pre ++ post).map (·.1)) w)
    (h : handleEvents kernel handler fuel (pre ++ post) closed w = (.ok (), w')) :
    ∃ closed' t, P (post.map (·.1)) t ∧
      handleEvents kernel handler fuel post closed' t = (.ok (), w') ∧
      ∀ i ∈ closed', i ∈ closed ∨ i ∈ pre.map (·.1) := by
  induction pre generalizing closed w with
  | nil => exact ⟨closed, w, hw, h, fun i hi => Or.inl hi⟩
  | cons x pre ih =>
    obtain ⟨id, ev⟩ := x
    rw [List.map_cons, List.nodup_cons] at hnodup
    rw [List.map_cons, List.forall_mem_cons] at hclosed
    obtain ⟨_, s, hs, h₁⟩ := Exec.bind_eq_ok h
    obtain ⟨closed₁, v, hv, h₂⟩ := Exec.bind_eq_ok h₁
    have hsw : { w with upcoming := (pre ++ post).map (·.1) } = s := congrArg Prod.snd hs
    have hs' : P (id :: (pre ++ post).map (·.1)) s := by
      rw [← hsw]
      exact hP.upcoming _ hw
    obtain ⟨hvP, hsub⟩ := (handleEvent_ends kernel hP _ fuel id ev hclosed.1).of_eq hs' hv
    -- no element comes up twice, so this event closed none of those to come
    have hfresh : ∀ i ∈ pre.map (·.1), i ∉ closed₁ := by
      intro i hi hmem
      rcases hsub i hmem with heq | hold
      · rw [heq] at hi
        exact hnodup.1 hi
      · exact hclosed.2 i hi hold
    obtain ⟨closed', t, ht, hpost, hclosed'⟩ := ih hnodup.2 hfresh hvP h₂
    refine ⟨closed', t, ht, hpost, ?_⟩
    intro i hi
    rcases hclosed' i hi with hold | hmem
    · rcases hsub i hold with heq | hold'
      · rw [heq]
        exact Or.inr List.mem_cons_self
      · exact Or.inl hold'
    · exact Or.inr (List.mem_cons_of_mem _ hmem)

/-- A whole call, when `epoll_wait` keeps the property too. -/
theorem waitAndProcess_ends (fuel : ℕ) (reported : List (Fd × Events)) (w : World κ σ)
    (hinv : w.queue.Inv)
    (hwait : P ((w.queue.epollWait (reported.take epollMaxEvents)).1.map (·.1))
      { w with queue := (w.queue.epollWait (reported.take epollMaxEvents)).2 }) :
    Exec.Ends (· = w) (waitAndProcess kernel handler fuel reported) fun _ v => P [] v := by
  have hspec := Queue.epollWait_spec hinv (reported.take epollMaxEvents)
  apply Exec.Triple.bind (Q := fun batch v =>
    batch = (w.queue.epollWait (reported.take epollMaxEvents)).1 ∧ P (batch.map (·.1) ++ []) v)
  · apply Exec.Triple.next
    rintro v rfl
    refine ⟨rfl, ?_⟩
    rw [List.append_nil]
    exact hwait
  · rintro batch v ⟨rfl, hv⟩
    exact handleEvents_ends kernel hP fuel [] _ hspec.2.2.2 (by simp) v hv

end

structure MaintainedAlways (handler : NetworkQueueHandler σ)
    (P : List ElemId → World κ σ → Prop) : Prop extends Maintained handler P where
  inv : ∀ {ids w}, P ids w → w.queue.Inv
  waited : ∀ {w} reported, P [] w →
    P ((w.queue.epollWait reported).1.map (·.1)) { w with queue := (w.queue.epollWait reported).2 }
  put : ∀ {w} fd ptr state added stored, P [] w →
    P [] { w with queue := (w.queue.put fd ptr state added stored).2 }
  closedFd : ∀ {w id e}, P [] w → w.queue.elements.lookup id = some e →
    P [] { w with queue := w.queue.remove id e.fd }

section
variable (kernel : Kernel κ) {handler : NetworkQueueHandler σ}
  {P : List ElemId → World κ σ → Prop} (hP : MaintainedAlways handler P) (fuel : ℕ)

include hP

theorem performClose_ends (fd : Fd) : Exec.Ends (P []) (close fd) fun _ w => P [] w := by
  apply Exec.Triple.bind (Q := fun _ w => P [] w)
  · apply Exec.Triple.look
    intro w hw
    exact hw
  · intro found
    cases found with
    | none =>
      apply Exec.Triple.pure
      intro w hw
      exact hw
    | some id =>
      apply Exec.Triple.bind (Q := fun _ w => P [] w)
      · apply Exec.Triple.bind (deref_ends id)
        intro e
        apply Exec.Triple.change
        intro w hw
        split_ifs
        · exact hP.closedFd hw.1 hw.2
        · exact hw.1
      · intro _
        apply Exec.Triple.pure
        intro w hw
        exact hw

theorem processFd_ends (fd : Fd) :
    Exec.Ends (P []) (processFd kernel handler fuel fd) fun _ w => P [] w := by
  apply Exec.Triple.bind (Q := fun _ w => P [] w)
  · apply Exec.Triple.look
    intro w hw
    exact hw
  · intro found
    cases found with
    | none =>
      apply Exec.Triple.pure
      intro w hw
      exact hw
    | some id =>
      apply Exec.Triple.bind (Q := fun _ w => P [] w)
      · apply Exec.Triple.change
        intro w hw
        exact hP.upcoming _ hw
      · intro _
        exact process_ends kernel hP.toSteady [] id fuel

theorem perform_ends (op : QueueOp) :
    Exec.Ends (P []) (perform kernel handler fuel op) fun _ w => P [] w := by
  cases op with
  | put fd ptr state added stored =>
    apply Exec.Triple.change
    intro w hw
    exact hP.put fd ptr state added stored hw
  | close fd =>
    apply Exec.Triple.bind (performClose_ends hP fd)
    intro _
    apply Exec.Triple.pure
    intro w hw
    exact hw
  | send fd data =>
    intro w hw
    refine Exec.Triple.bind (sendOn_ends kernel hP.toSteady [] w.calling fd data) ?_ w ⟨hw, rfl⟩
    intro _
    apply Exec.Triple.pure
    intro v hv
    exact hv.1
  | process fd => exact processFd_ends kernel hP fuel fd
  | waitAndProcess reported =>
    intro w hw
    exact waitAndProcess_ends kernel hP.toMaintained fuel reported w (hP.inv hw)
      (hP.waited _ hw) w rfl

/-- Every call of a run keeps the property. -/
theorem performAll_ends (ops : List QueueOp) :
    Exec.Ends (P []) (performAll kernel handler fuel ops) fun _ w => P [] w :=
  Exec.Triple.forEach (I := fun _ w => P [] w) (fun _ op => perform_ends kernel hP fuel op) [] ops

end

/-- The tables of the queue stay in good order. -/
theorem inv_maintained (handler : NetworkQueueHandler σ) :
    MaintainedAlways (κ := κ) handler fun _ w => w.queue.Inv where
  kernel k h := h
  user user h := h
  upcoming upcoming h := h
  sent := by
    intro ids w id fd e rs data h hfd he _
    rw [← h.fd_of_mapped hfd he]
    exact h.settled he (send_keeps fd_ignoresWrites rs e data)
  closed _ h _ he _ := h.remove he
  read := by
    intro ids w id e count resume r h he hpass
    exact h.setElement he (read_keeps fd_ignoresReads hpass r)
  ready h _ _ := h
  resumed := by
    intro ids w id e e' called resume closed h _ hpass he'
    exact h.setElement he' (hpass.resume_keeps fd_ignoresReads e')
  flushed := by
    intro rest w id e rs h he _
    exact h.settled he (flushWriteBuffer_keeps fd_ignoresWrites rs e)
  rearmed := by
    intro rest w id e h he _
    exact h.epollMod (h.owned id e he) e.mask
  closing reason h _ := h
  removed := by
    intro rest w id e data closed h _ he
    rw [if_pos (h.owned id e he)]
    exact h.remove he
  inv h := h
  waited reported h := (Queue.epollWait_spec h reported).1
  put fd ptr state added stored h := h.put fd ptr state added stored
  closedFd h he := h.remove he

end VNet.NetQueue
