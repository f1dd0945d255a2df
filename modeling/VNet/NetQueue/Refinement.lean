import VNet.NetQueue.Origins
import VNet.NetQueue.View

namespace VNet.NetQueue
open Protocol Runs

variable {κ σ : Type}

def Queue.ptrOf (q : Queue) (fd : Fd) : Option ℕ :=
  (q.fdToNetworkElement.lookup fd).bind fun id => (q.elements.lookup id).map (·.ptr)

def World.view (w : World κ σ) : View σ := ⟨w.queue.ptrOf, w.user⟩

namespace Queue

variable {q q' : Queue} {id : ElemId} {e : NetworkElement}

theorem Inv.ptrOf_eq_none (h : Inv q) {fd : Fd} :
    q.ptrOf fd = none ↔ q.fdToNetworkElement.lookup fd = none := by
  unfold ptrOf
  cases hfd : q.fdToNetworkElement.lookup fd with
  | none => simp
  | some id =>
    obtain ⟨e, he, -⟩ := h.mapped fd id hfd
    simp [he]

theorem Inv.ptrOf_fd (h : Inv q) (he : q.elements.lookup id = some e) :
    q.ptrOf e.fd = some e.ptr := by
  rw [ptrOf, h.owned id e he, Option.bind_some, he, Option.map_some]

theorem ptrOf_congr (hmap : q'.fdToNetworkElement = q.fdToNetworkElement)
    (hptr : ∀ i, (q'.elements.lookup i).map (·.ptr) = (q.elements.lookup i).map (·.ptr)) :
    q'.ptrOf = q.ptrOf := by
  funext fd
  unfold ptrOf
  simp only [hmap, hptr]

/-- An element that is overwritten with the same pointer. -/
theorem ptrOf_overwrite {e' : NetworkElement}
    (hmap : q'.fdToNetworkElement = q.fdToNetworkElement) (he : q.elements.lookup id = some e)
    (helems : ∀ i, q'.elements.lookup i = if i = id then some e' else q.elements.lookup i)
    (hptr : e'.ptr = e.ptr) : q'.ptrOf = q.ptrOf := by
  apply ptrOf_congr hmap
  intro i
  rw [helems]
  split_ifs with hi
  · rw [hi, he, Option.map_some, Option.map_some, hptr]
  · rfl

theorem Inv.ptrOf_remove (h : Inv q) (he : q.elements.lookup id = some e) :
    (q.remove id e.fd).ptrOf = Function.update q.ptrOf e.fd none := by
  funext fd
  simp only [ptrOf, Queue.remove, FiniteMap.lookup_erase_eq, Function.update_apply]
  by_cases hfd : fd = e.fd
  · rw [if_pos hfd, if_pos hfd, Option.bind_none]
  · rw [if_neg hfd, if_neg hfd]
    cases hmap : q.fdToNetworkElement.lookup fd with
    | none => rfl
    | some i =>
      obtain ⟨a, ha, hafd⟩ := h.mapped fd i hmap
      have hi : i ≠ id := by
        intro hi
        rw [hi, he, Option.some.injEq] at ha
        exact hfd (by rw [← hafd, ← ha])
      rw [Option.bind_some, Option.bind_some, if_neg hi]

theorem Inv.ptrOf_put (h : Inv q) (fd : Fd) (ptr : ℕ) (state : FiniteStateMachine)
    (added stored : Bool) : (q.put fd ptr state added stored).2.ptrOf =
      if added ∧ q.ptrOf fd = none ∧ stored then Function.update q.ptrOf fd (some ptr)
      else q.ptrOf := by
  have hfree : q.epoll.lookup fd = none ↔ q.ptrOf fd = none := by
    rw [h.ptrOf_eq_none, ← h.registered fd, Option.map_eq_none_iff]
  unfold Queue.put
  by_cases hput : added ∧ q.epoll.lookup fd = none ∧ stored
  · have hput' : added ∧ q.ptrOf fd = none ∧ stored := by rwa [hfree] at hput
    rw [if_pos hput, if_pos hput']
    funext f
    simp only [ptrOf, FiniteMap.lookup_insert_eq, Function.update_apply]
    by_cases hf : f = fd
    · rw [if_pos hf, if_pos hf, Option.bind_some, if_pos rfl]
      rfl
    · rw [if_neg hf, if_neg hf]
      cases hmap : q.fdToNetworkElement.lookup f with
      | none => rfl
      | some i =>
        -- the new element is not one that is mapped already
        obtain ⟨a, ha, -⟩ := h.mapped f i hmap
        rw [Option.bind_some, Option.bind_some, if_neg (Nat.ne_of_lt (h.fresh i a ha))]
  · have hput' : ¬ (added ∧ q.ptrOf fd = none ∧ stored) := by rwa [hfree] at hput
    rw [if_neg hput, if_neg hput']
    rfl

end Queue

/-- The world after a step that does not show. -/
structure Silent (w w' : World κ σ) : Prop where
  inv : w'.queue.Inv
  map_eq : w'.queue.fdToNetworkElement = w.queue.fdToNetworkElement
  view_eq : w'.view = w.view
  log_eq : w'.log = w.log

structure Visible (P : World κ σ → Prop) : Prop where
  inv : ∀ {w}, P w → w.queue.Inv
  silent : ∀ {w w'}, P w → Silent w w' → P w'

theorem Silent.overwrite {w w' : World κ σ} {id : ElemId} {e e' : NetworkElement}
    (hinv : w'.queue.Inv) (hmap : w'.queue.fdToNetworkElement = w.queue.fdToNetworkElement)
    (he : w.queue.elements.lookup id = some e)
    (helems : ∀ i, w'.queue.elements.lookup i =
      if i = id then some e' else w.queue.elements.lookup i)
    (hptr : e'.ptr = e.ptr) (huser : w'.user = w.user) (hlog : w'.log = w.log) : Silent w w' where
  inv := hinv
  map_eq := hmap
  view_eq := by rw [World.view, World.view, Queue.ptrOf_overwrite hmap he helems hptr, huser]
  log_eq := hlog

section
variable {P : World κ σ → Prop} (hP : Visible P) {id : ElemId} {e : NetworkElement}

include hP

theorem assign_visible {e' : NetworkElement} (hfd : e'.fd = e.fd) (hptr : e'.ptr = e.ptr) :
    Exec.Ends (fun w => P w ∧ w.queue.elements.lookup id = some e) (assign id e')
      fun _ w => P w := by
  apply assign_ends
  rintro w ⟨hw, he⟩
  have hinv := (hP.inv hw).setElement he hfd
  exact hP.silent hw (.overwrite hinv rfl he (fun i => w.queue.elements_setElement id i e') hptr
    rfl rfl)

theorem settle_visible {o : WriteOutcome} (hfd : o.element.fd = e.fd)
    (hptr : o.element.ptr = e.ptr) :
    Exec.Ends (fun w => P w ∧ w.queue.elements.lookup id = some e) (settle id e.fd o)
      fun _ w => P w := by
  apply settle_ends
  rintro w b ⟨hw, he⟩ _
  exact hP.silent hw (.overwrite ((hP.inv hw).settled he hfd) (Queue.settled_map _ _ _ _) he
    (fun i => w.queue.elements_settled id i e.fd o) hptr rfl rfl)

/-- The rest of the world does not show. -/
theorem Visible.congr {w w' : World κ σ} (hw : P w) (hqueue : w'.queue = w.queue)
    (huser : w'.user = w.user) (hlog : w'.log = w.log) : P w' := by
  apply hP.silent hw
  refine ⟨?_, by rw [hqueue], by rw [World.view, World.view, hqueue, huser], hlog⟩
  rw [hqueue]
  exact hP.inv hw

theorem writeAnswers_visible (kernel : Kernel κ) (fd : Fd) :
    Exec.Ends (fun w => P w ∧ w.queue.elements.lookup id = some e) (writeAnswers kernel fd)
      fun _ w => P w ∧ w.queue.elements.lookup id = some e := by
  apply Exec.Triple.next
  intro w hw
  exact ⟨hP.congr hw.1 rfl rfl rfl, hw.2⟩

theorem noteOverflow_visible (o : WriteOutcome) :
    Exec.Ends (fun w => P w ∧ w.queue.elements.lookup id = some e) (noteOverflow id o)
      fun _ w => P w ∧ w.queue.elements.lookup id = some e := by
  apply Exec.Triple.change
  rintro w ⟨hw, he⟩
  split_ifs
  · exact ⟨hP.congr hw rfl rfl rfl, he⟩
  · exact ⟨hw, he⟩

/-- A `send` does not show, and goes well only on a descriptor that is held. -/
theorem sendOn_visible (kernel : Kernel κ) (fd : Fd) (data : Bytes) :
    Exec.Ends P (sendOn kernel fd data) fun sent w =>
      P w ∧ (sent = true → w.view.held fd ≠ none) := by
  apply Exec.Triple.bind (Q := fun found w => P w ∧ w.queue.fdToNetworkElement.lookup fd = found)
  · apply Exec.Triple.look
    intro w hw
    exact ⟨hw, rfl⟩
  · intro found
    cases found with
    | none =>
      apply Exec.Triple.pure
      intro w hw
      exact ⟨hw.1, by simp⟩
    | some id =>
      have hheld : Visible fun w : World κ σ => P w ∧ w.view.held fd ≠ none := by
        refine ⟨fun h => hP.inv h.1, fun h hs => ⟨hP.silent h.1 hs, ?_⟩⟩
        rw [hs.view_eq]
        exact h.2
      have hread : Exec.Ends (fun w => P w ∧ w.queue.fdToNetworkElement.lookup fd = some id)
          (deref id) fun e w => ((P w ∧ w.view.held fd ≠ none) ∧
            w.queue.elements.lookup id = some e) ∧ e.fd = fd := by
        apply (deref_ends id).values
        rintro e w ⟨⟨hw, hfd⟩, he⟩
        refine ⟨⟨⟨hw, ?_⟩, he⟩, (hP.inv hw).fd_of_mapped hfd he⟩
        rw [World.view, Ne, (hP.inv hw).ptrOf_eq_none, hfd]
        simp
      apply Exec.Triple.bind hread
      intro e w hw
      obtain ⟨hw, rfl⟩ := hw
      refine Exec.Triple.bind (writeAnswers_visible hheld kernel e.fd) (fun rs => ?_) w hw
      apply Exec.Triple.bind (noteOverflow_visible hheld (send rs e data))
      intro _
      apply (settle_visible hheld (send_keeps fd_ignoresWrites rs e data)
        (send_keeps ptr_ignoresWrites rs e data)).values
      intro sent v hv
      exact ⟨hv.1, fun _ => hv.2⟩

end

def Queue.Within (q₀ q : Queue) : Prop :=
  ∀ fd id, q.fdToNetworkElement.lookup fd = some id → q₀.fdToNetworkElement.lookup fd = some id

structure Showing (w₀ : World κ σ) (log : List Callback) (m : View σ) (w : World κ σ) : Prop where
  inv : w.queue.Inv
  within : w₀.queue.Within w.queue
  log_eq : w.log = log
  view_eq : w.view = m

variable {w₀ w : World κ σ} {log : List Callback} {m : View σ}

theorem Showing.visible : Visible (Showing w₀ log m) where
  inv h := h.inv
  silent h hs := by
    refine ⟨hs.inv, ?_, hs.log_eq.trans h.log_eq, hs.view_eq.trans h.view_eq⟩
    unfold Queue.Within
    rw [hs.map_eq]
    exact h.within

theorem Showing.remove (h : Showing w₀ log m w) {id : ElemId} {e : NetworkElement}
    (he : w.queue.elements.lookup id = some e) :
    Showing w₀ log (m.drop e.fd) { w with queue := w.queue.remove id e.fd } where
  inv := h.inv.remove he
  within fd i hi := by
    simp only [Queue.remove, FiniteMap.lookup_erase_eq] at hi
    split_ifs at hi
    exact h.within fd i hi
  log_eq := h.log_eq
  view_eq := by
    rw [World.view, h.inv.ptrOf_remove he, ← h.view_eq]
    rfl

theorem View.drop_eq_self {m : View σ} {fd : Fd} (h : m.held fd = none) : m.drop fd = m := by
  rw [View.drop, ← h, Function.update_eq_self]

/-- `close` drops the descriptor, whether it is held or not. -/
theorem close_showing (fd : Fd) :
    Exec.Ends (Showing (κ := κ) w₀ log m) (close fd) fun _ w => Showing w₀ log (m.drop fd) w := by
  apply Exec.Triple.bind (Q := fun found w => Showing w₀ log m w ∧
    w.queue.fdToNetworkElement.lookup fd = found)
  · apply Exec.Triple.look
    intro w hw
    exact ⟨hw, rfl⟩
  · intro found
    cases found with
    | none =>
      apply Exec.Triple.pure
      rintro w ⟨hw, hnone⟩
      have hheld : m.held fd = none := by
        rw [← hw.view_eq]
        exact hw.inv.ptrOf_eq_none.mpr hnone
      rw [View.drop_eq_self hheld]
      exact hw
    | some id =>
      apply Exec.Triple.bind (Q := fun _ w => Showing w₀ log (m.drop fd) w)
      · apply Exec.Triple.bind (deref_ends id)
        intro e
        apply Exec.Triple.change
        rintro w ⟨⟨hw, hfd⟩, he⟩
        rw [if_pos (hw.inv.owned id e he), ← hw.inv.fd_of_mapped hfd he]
        exact hw.remove he
      · intro _
        apply Exec.Triple.pure
        intro w hw
        exact hw

/-- A handler's calls are made on the table. -/
theorem react_showing (kernel : Kernel κ) (r : Reaction σ) (closed : List ElemId) :
    Exec.Ends (Showing w₀ log m) (react kernel r closed)
      fun _ w => ∃ m', View.Reacts r m m' ∧ Showing w₀ log m' w := by
  induction r generalizing m closed with
  | done user =>
    apply Exec.Triple.bind (Q := fun _ w => Showing w₀ log { m with user := user } w)
    · apply Exec.Triple.change
      intro w hw
      refine ⟨hw.inv, hw.within, hw.log_eq, ?_⟩
      rw [← hw.view_eq]
      rfl
    · intro _
      apply Exec.Triple.pure
      intro w hw
      exact ⟨_, .done user m, hw⟩
  | close fd next ih =>
    apply Exec.Triple.bind (close_showing fd)
    intro found
    apply (ih _).values
    rintro _ w ⟨m', hreacts, hw⟩
    exact ⟨m', .close hreacts, hw⟩
  | send fd data next ih =>
    apply Exec.Triple.bind (sendOn_visible Showing.visible kernel fd data)
    rintro sent w ⟨hw, hsent⟩
    rw [hw.view_eq] at hsent
    have hnext := (ih sent closed).values fun _ v hv => by
      obtain ⟨m', hreacts, hv⟩ := hv
      exact (⟨m', .send sent hsent hreacts, hv⟩ :
        ∃ m', View.Reacts (.send fd data next) m m' ∧ Showing w₀ log m' v)
    exact hnext w hw

/-- A callback, from the world it begins in: the handler's calls, and an entry in
the log. -/
theorem callback_showing (kernel : Kernel κ) (hinv : w.queue.Inv) (id : ElemId) (called : Called)
    (reaction : σ → Reaction σ) :
    Exec.Ends (· = w) (callback kernel id called reaction) fun _ v => ∃ c m', c.called = called ∧
      View.Reacts (reaction w.user) w.view m' ∧ Showing w (w.log ++ [c]) m' v := by
  have hstart : Showing w w.log w.view w := ⟨hinv, fun _ _ h => h, rfl, rfl⟩
  apply Exec.Triple.bind (Q := fun user v => user = w.user ∧ Showing w w.log w.view v)
  · apply Exec.Triple.look
    rintro v rfl
    exact ⟨rfl, hstart⟩
  · intro user
    apply Exec.Triple.bind (Q := fun _ v => user = w.user ∧ Showing w w.log w.view v)
    · apply Exec.Triple.change
      rintro v ⟨huser, hv⟩
      exact ⟨huser, hv.inv, hv.within, hv.log_eq, hv.view_eq⟩
    · rintro _ v ⟨rfl, hv⟩
      refine Exec.Triple.bind (react_showing kernel (reaction w.user) []) (fun closed => ?_) v hv
      apply Exec.Triple.change
      rintro u ⟨m', hreacts, hu⟩
      refine ⟨⟨id, called, u.upcoming, closed⟩, m', rfl, hreacts, hu.inv, hu.within, ?_, hu.view_eq⟩
      rw [← hu.log_eq]

/-- A point of a call that began in `w₀`: the callbacks since then were made on
the table. -/
structure Ran (handler : NetworkQueueHandler σ) (allowed : Called → Prop) (w₀ w : World κ σ) :
    Prop where
  inv : w.queue.Inv
  within : w₀.queue.Within w.queue
  calls : ∃ cs, w.log = w₀.log ++ cs ∧
    Trace (View.Calls handler allowed) (cs.map (·.called)) w₀.view w.view

theorem ReadyPass.tells {e : NetworkElement} {called : Called}
    {resume : NetworkElement → NetworkElement} (h : ReadyPass e called resume) :
    called.fd = e.fd ∧ called.ptrData = e.ptr ∧ called.isReady = true := by
  unfold ReadyPass processPass at h
  cases hst : e.state with
  | sckReady =>
    simp only [hst, Pass.socketReady.injEq, reduceCtorEq, false_and, exists_false, or_false] at h
    obtain ⟨data, ⟨rfl, -⟩, rfl⟩ := h
    exact ⟨rfl, rfl, rfl⟩
  | tunReady =>
    simp only [hst, Pass.tunReady.injEq, reduceCtorEq, false_and, exists_false, false_or] at h
    obtain ⟨data, ⟨rfl, -⟩, rfl⟩ := h
    exact ⟨rfl, rfl, rfl⟩
  | _ => simp [hst] at h

theorem View.returned_ready (m : View σ) {called : Called} (h : called.isReady = true) :
    m.returned called = m := by
  cases called with
  | onClose data => simp [Called.isReady] at h
  | onSocketReady data => rfl
  | onTunReady data => rfl

section
variable {handler : NetworkQueueHandler σ} {allowed : Called → Prop}

theorem Ran.visible : Visible (Ran handler allowed w₀) where
  inv h := h.inv
  silent h hs := by
    obtain ⟨cs, hlog, htrace⟩ := h.calls
    refine ⟨hs.inv, ?_, cs, hs.log_eq.trans hlog, ?_⟩
    · unfold Queue.Within
      rw [hs.map_eq]
      exact h.within
    · rw [hs.view_eq]
      exact htrace

theorem Ran.refl (h : w.queue.Inv) : Ran handler allowed w w :=
  ⟨h, fun _ _ hfd => hfd, [], (List.append_nil _).symm, .nil _⟩

/-- One more callback. -/
theorem Ran.called {v : World κ σ} (h : Ran handler allowed w₀ v) {c : Callback}
    (hcall : View.Calls handler allowed c.called v.view m) (hw : Showing v (v.log ++ [c]) m w) :
    Ran handler allowed w₀ w where
  inv := hw.inv
  within fd id hfd := h.within fd id (hw.within fd id hfd)
  calls := by
    obtain ⟨cs, hlog, htrace⟩ := h.calls
    refine ⟨cs ++ [c], ?_, ?_⟩
    · rw [hw.log_eq, hlog, List.append_assoc]
    · rw [hw.view_eq, List.map_append]
      exact htrace.concat hcall

/-- An element that is still there was there at the start, under its descriptor. -/
theorem Ran.owned (h : Ran handler allowed w₀ w) {id : ElemId} {e : NetworkElement}
    (he : w.queue.elements.lookup id = some e) :
    w₀.queue.fdToNetworkElement.lookup e.fd = some id :=
  h.within e.fd id (h.inv.owned id e he)

/-- A callback for an element. -/
theorem callback_ran (kernel : Kernel κ) (id : ElemId) (e : NetworkElement) (called : Called) :
    Exec.Ends (fun w => Ran handler allowed w₀ w ∧ w.queue.elements.lookup id = some e)
      (callback kernel id called fun user => handler.reaction called user)
      fun _ w => ∃ v c m', Ran handler allowed w₀ v ∧ v.queue.elements.lookup id = some e ∧
        c.called = called ∧ View.Reacts (handler.reaction called v.user) v.view m' ∧
        Showing v (v.log ++ [c]) m' w := by
  intro w hw
  have hcallback := callback_showing kernel hw.1.inv id called (handler.reaction called)
  refine hcallback.values (fun _ u hu => ?_) w rfl
  obtain ⟨c, m', hc, hreacts, hu⟩ := hu
  exact ⟨w, c, m', hw.1, hw.2, hc, hreacts, hu⟩

variable (kernel : Kernel κ) {id : ElemId}

/-- A packet is handed over for a descriptor that is held, with its pointer. -/
theorem ready_ran {e : NetworkElement} {called : Called}
    {resume : NetworkElement → NetworkElement} (hpass : ReadyPass e called resume)
    (hid : ∀ c : Called, w₀.queue.fdToNetworkElement.lookup c.fd = some id → c.isReady = true →
      allowed c) :
    Exec.Ends (fun w => Ran handler allowed w₀ w ∧ w.queue.elements.lookup id = some e)
      (callback kernel id called fun user => handler.reaction called user)
      fun _ w => Ran handler allowed w₀ w := by
  obtain ⟨hfd, hptr, hready⟩ := hpass.tells
  apply (callback_ran kernel id e called).values
  rintro _ w ⟨v, c, m', hv, he, rfl, hreacts, hw⟩
  refine hv.called ⟨hid _ ?_ hready, ?_, m', hreacts, (m'.returned_ready hready).symm⟩ hw
  · rw [hfd]
    exact hv.owned he
  · rw [hfd, hptr]
    exact hv.inv.ptrOf_fd he

theorem processOnce_ran
    (hid : ∀ c : Called, w₀.queue.fdToNetworkElement.lookup c.fd = some id → c.isReady = true →
      allowed c) :
    Exec.Ends (Ran handler allowed w₀) (processOnce kernel handler id)
      fun _ w => Ran handler allowed w₀ w := by
  have hresume : ∀ {e : NetworkElement} {called : Called}
      {resume : NetworkElement → NetworkElement}, ReadyPass e called resume →
      Exec.Ends (Ran handler allowed w₀)
        (do
          let e' ← deref id
          assign id (resume e')
          pure Flow.again : Run κ σ Flow) fun _ w => Ran handler allowed w₀ w := by
    intro e called resume hpass
    apply Exec.Triple.bind (deref_ends id)
    intro e'
    apply Exec.Triple.bind (assign_visible Ran.visible
      (hpass.resume_keeps fd_ignoresReads e') (hpass.resume_keeps ptr_ignoresReads e'))
    intro _
    exact .pure fun w hw => hw
  apply Exec.Triple.bind (deref_ends id)
  intro e
  cases hpass : processPass e with
  | read count resume =>
    apply Exec.Triple.bind (Q := fun _ w => Ran handler allowed w₀ w ∧
      w.queue.elements.lookup id = some e)
    · apply Exec.Triple.next
      intro w hw
      exact ⟨Ran.visible.congr hw.1 rfl rfl rfl, hw.2⟩
    · intro r
      apply Exec.Triple.bind (assign_visible Ran.visible (read_keeps fd_ignoresReads hpass r)
        (read_keeps ptr_ignoresReads hpass r))
      intro _
      exact .pure fun w hw => hw
  | socketReady data resume =>
    have hready : ReadyPass e (.onSocketReady data) resume := Or.inl ⟨data, hpass, rfl⟩
    exact .bind (ready_ran kernel hready hid) fun _ => hresume hready
  | tunReady data resume =>
    have hready : ReadyPass e (.onTunReady data) resume := Or.inr ⟨data, hpass, rfl⟩
    exact .bind (ready_ran kernel hready hid) fun _ => hresume hready
  | stop => exact .pure fun w hw => hw.1

theorem process_ran
    (hid : ∀ c : Called, w₀.queue.fdToNetworkElement.lookup c.fd = some id → c.isReady = true →
      allowed c) (fuel : ℕ) :
    Exec.Ends (Ran handler allowed w₀) (process kernel handler id fuel)
      fun _ w => Ran handler allowed w₀ w := by
  induction fuel with
  | zero => exact Exec.Triple.fault fun _ _ => trivial
  | succ fuel ih =>
    apply Exec.Triple.bind (processOnce_ran kernel hid)
    intro flow
    cases flow with
    | stop => exact .pure fun w hw => hw
    | again => exact ih

/-- `onClose` is called for a descriptor that is held, which is dropped after it. -/
theorem closeFor_ran (reason : CloseReason)
    (hid : ∀ c : Called, w₀.queue.fdToNetworkElement.lookup c.fd = some id → allowed c) :
    Exec.Ends (Ran handler allowed w₀) (closeFor kernel handler id reason)
      fun _ w => Ran handler allowed w₀ w := by
  apply Exec.Triple.bind (deref_ends id)
  intro e
  apply Exec.Triple.bind (callback_ran kernel id e (.onClose ⟨id, e.ptr, e.fd, reason⟩))
  intro _
  apply Exec.Triple.bind (deref_ends id)
  intro e'
  apply Exec.Triple.change
  rintro w ⟨⟨v, c, m', hv, he, hc, hreacts, hw⟩, he'⟩
  rw [if_pos (hw.inv.owned id e' he')]
  -- the element has kept its descriptor through the callback
  have hfd : e.fd = e'.fd := hv.inv.fd_of_mapped (hw.within _ _ (hw.inv.owned id e' he')) he
  have hcall : View.Calls handler allowed c.called v.view (m'.drop e'.fd) := by
    rw [hc, ← hfd]
    exact ⟨hid _ (hv.owned he), hv.inv.ptrOf_fd he, m', hreacts, rfl⟩
  exact hv.called hcall (hw.remove he')

theorem onInput_ran (fuel : ℕ) (ev : Events)
    (hid : ∀ c : Called, w₀.queue.fdToNetworkElement.lookup c.fd = some id → allowed c) :
    Exec.Ends (Ran handler allowed w₀) (onInput kernel handler fuel id ev)
      fun _ w => Ran handler allowed w₀ w := by
  refine .ite (fun _ => ?_) fun _ => .pure fun w hw => hw
  apply Exec.Triple.bind (process_ran kernel (fun c hc _ => hid c hc) fuel)
  intro _
  exact .bind (deref_ends id) fun e => .pure fun w hw => hw.1

/-- Writing out what is left over does not show. -/
theorem onOutput_visible {P : World κ σ → Prop} (hP : Visible P) (ev : Events)
    (reason : Option CloseReason) :
    Exec.Ends P (onOutput kernel id ev reason) fun _ w => P w := by
  refine .ite (fun _ => ?_) fun _ => .pure fun w hw => hw
  apply Exec.Triple.bind (deref_ends id)
  intro e
  apply Exec.Triple.bind (writeAnswers_visible hP kernel e.fd)
  intro rs
  apply Exec.Triple.bind (settle_visible hP (flushWriteBuffer_keeps fd_ignoresWrites rs e)
    (flushWriteBuffer_keeps ptr_ignoresWrites rs e))
  intro _
  exact .pure fun w hw => hw

theorem rearm_visible {P : World κ σ → Prop} (hP : Visible P) :
    Exec.Ends P (rearm kernel id) fun _ w => P w := by
  apply Exec.Triple.bind (deref_ends id)
  intro e
  apply Exec.Triple.bind (Q := fun _ w => P w ∧ w.queue.elements.lookup id = some e)
  · apply Exec.Triple.next
    intro w hw
    exact ⟨hP.congr hw.1 rfl rfl rfl, hw.2⟩
  · intro ok
    refine .ite (fun _ => ?_) fun _ => .pure fun w hw => hw.1
    apply Exec.Triple.bind (Q := fun _ w => P w)
    · apply Exec.Triple.change
      rintro w ⟨hw, he⟩
      have hinv := hP.inv hw
      -- the interest is the kernel's, and no element is touched
      have hmod := hinv.epollMod (hinv.owned id e he)
      refine hP.silent hw ⟨hmod _, Queue.epollMod_map _ _ _ _, ?_, rfl⟩
      rw [World.view, World.view, Queue.ptrOf_congr (Queue.epollMod_map _ _ _ _)]
      intro i
      rw [Queue.epollMod_elements]
    · intro _
      exact .pure fun w hw => hw

theorem rearmUnless_visible {P : World κ σ → Prop} (hP : Visible P)
    (reason : Option CloseReason) :
    Exec.Ends P (rearmUnless kernel id reason) fun _ w => P w := by
  cases reason with
  | none => exact rearm_visible kernel hP
  | some reason => exact .pure fun w hw => hw

theorem handleEvent_ran (fuel : ℕ) (ev : Events) (closed : List ElemId)
    (hid : ∀ c : Called, w₀.queue.fdToNetworkElement.lookup c.fd = some id → allowed c) :
    Exec.Ends (Ran handler allowed w₀) (handleEvent kernel handler fuel id ev closed)
      fun _ w => Ran handler allowed w₀ w := by
  refine .ite (fun _ => .pure fun w hw => hw) fun _ => ?_
  apply Exec.Triple.bind (onInput_ran kernel fuel ev hid)
  intro afterInput
  apply Exec.Triple.bind (onOutput_visible kernel Ran.visible ev afterInput)
  intro afterOutput
  apply Exec.Triple.bind (rearmUnless_visible kernel Ran.visible _)
  intro reason
  cases reason with
  | none => exact .pure fun w hw => hw
  | some reason => exact .bind (closeFor_ran kernel reason hid) fun _ => .pure fun w hw => hw

theorem handleEvents_ran (fuel : ℕ) (batch : List (ElemId × Events)) (closed : List ElemId)
    (hids : ∀ x ∈ batch, ∀ c : Called, w₀.queue.fdToNetworkElement.lookup c.fd = some x.1 →
      allowed c) :
    Exec.Ends (Ran handler allowed w₀) (handleEvents kernel handler fuel batch closed)
      fun _ w => Ran handler allowed w₀ w := by
  induction batch generalizing closed with
  | nil => exact .pure fun w hw => hw
  | cons x batch ih =>
    rw [List.forall_mem_cons] at hids
    apply Exec.Triple.bind (Q := fun _ w => Ran handler allowed w₀ w)
    · apply Exec.Triple.change
      intro w hw
      exact Ran.visible.congr hw rfl rfl rfl
    · intro _
      apply Exec.Triple.bind (handleEvent_ran kernel fuel x.2 closed hids.1)
      intro closed'
      exact ih closed' hids.2

end

/-- Events come for descriptors that were reported. -/
theorem Queue.epollWait_reported (q : Queue) (reported : List (Fd × Events)) :
    ∀ x ∈ (q.epollWait reported).1,
      ∃ fd ∈ reported.map (·.1), (q.epoll.lookup fd).map (·.ptr) = some x.1 := by
  induction reported generalizing q with
  | nil => simp [Queue.epollWait]
  | cons y rest ih =>
    obtain ⟨fd, ev⟩ := y
    intro x hx
    rw [List.map_cons]
    unfold Queue.epollWait at hx
    split at hx
    · rename_i ptr interest hr
      rcases List.mem_cons.mp hx with rfl | hx
      · exact ⟨fd, List.mem_cons_self, by rw [hr]; rfl⟩
      · obtain ⟨fd', hfd', hptr⟩ := ih _ x hx
        refine ⟨fd', List.mem_cons_of_mem _ hfd', ?_⟩
        rw [FiniteMap.lookup_insert_eq] at hptr
        split_ifs at hptr with heq
        · rw [heq, hr]
          exact hptr
        · exact hptr
    · obtain ⟨fd', hfd', hptr⟩ := ih q x hx
      exact ⟨fd', List.mem_cons_of_mem _ hfd', hptr⟩

section
variable (kernel : Kernel κ) (handler : NetworkQueueHandler σ) (fuel : ℕ)

theorem waitAndProcess_ran (reported : List (Fd × Events)) (hinv : w.queue.Inv) :
    Exec.Ends (· = w) (waitAndProcess kernel handler fuel reported) fun _ v =>
      Ran handler (fun c => c.fd ∈ reported.map (·.1)) w v := by
  have hspec := Queue.epollWait_spec hinv (reported.take epollMaxEvents)
  have hmap := Queue.epollWait_map w.queue (reported.take epollMaxEvents)
  apply Exec.Triple.bind (Q := fun batch v =>
    batch = (w.queue.epollWait (reported.take epollMaxEvents)).1 ∧
      Ran handler (fun c => c.fd ∈ reported.map (·.1)) w v)
  · apply Exec.Triple.next
    rintro v rfl
    refine ⟨rfl, Ran.visible.silent (Ran.refl hinv) ⟨hspec.1, hmap, ?_, rfl⟩⟩
    rw [World.view, World.view, Queue.ptrOf_congr hmap]
    intro i
    rw [hspec.2.1]
  · rintro batch v ⟨rfl, hv⟩
    refine handleEvents_ran kernel fuel _ [] (fun x hx c hc => ?_) v hv
    obtain ⟨fd, hfd, hptr⟩ := w.queue.epollWait_reported _ x hx
    rw [hinv.registered fd] at hptr
    rw [hinv.map_inj hc hptr]
    exact List.map_subset _ (List.take_subset _ _) hfd

/-- A `process` hands over packets of its own descriptor only. -/
theorem processFd_ran (fd : Fd) (hinv : w.queue.Inv) :
    Exec.Ends (· = w) (processFd kernel handler fuel fd) fun _ v =>
      Ran handler (fun c => c.fd = fd ∧ c.isReady) w v := by
  apply Exec.Triple.bind (Q := fun found v => v = w ∧
    w.queue.fdToNetworkElement.lookup fd = found)
  · apply Exec.Triple.look
    rintro v rfl
    exact ⟨rfl, rfl⟩
  · intro found
    cases found with
    | none =>
      apply Exec.Triple.pure
      rintro v ⟨rfl, -⟩
      exact Ran.refl hinv
    | some id =>
      rintro v ⟨rfl, hfd⟩
      refine Exec.Triple.bind (Q := fun _ u =>
        Ran handler (fun c => c.fd = fd ∧ c.isReady) v u) ?_ (fun _ => ?_) v rfl
      · apply Exec.Triple.change
        rintro u rfl
        exact Ran.visible.congr (Ran.refl hinv) rfl rfl rfl
      · exact process_ran kernel (fun c hc hready => ⟨hinv.map_inj hc hfd, hready⟩) fuel

/-- One call on the queue is one step of the table. -/
theorem perform_performs (op : QueueOp) (hinv : w.queue.Inv) :
    Exec.Ends (· = w) (perform kernel handler fuel op) fun _ v => v.queue.Inv ∧
      ∃ cs, v.log = w.log ++ cs ∧ View.Performs handler (op, cs.map (·.called)) w.view v.view := by
  have hstart : Showing w w.log w.view w := ⟨hinv, fun _ _ h => h, rfl, rfl⟩
  cases op with
  | put fd ptr state added stored =>
    apply Exec.Triple.change
    rintro v rfl
    refine ⟨hinv.put fd ptr state added stored, [], (List.append_nil _).symm, rfl, ?_⟩
    rw [World.view, World.view, hinv.ptrOf_put fd ptr state added stored]
    split_ifs <;> rfl
  | close fd =>
    refine .bind (Q := fun _ v => Showing w w.log (w.view.drop fd) v) ?_ fun _ => ?_
    · rintro v rfl
      exact close_showing fd v hstart
    · apply Exec.Triple.pure
      intro v hv
      exact ⟨hv.inv, [], by rw [hv.log_eq, List.append_nil], rfl, hv.view_eq⟩
  | send fd data =>
    refine .bind (Q := fun _ v => Showing w w.log w.view v) ?_ fun _ => ?_
    · have hvisible : Visible (Showing w w.log w.view) := Showing.visible
      rintro v rfl
      exact ((sendOn_visible hvisible kernel fd data).values fun _ u hu => hu.1) v hstart
    · apply Exec.Triple.pure
      intro v hv
      exact ⟨hv.inv, [], by rw [hv.log_eq, List.append_nil], rfl, hv.view_eq⟩
  | process fd =>
    apply (processFd_ran kernel handler fuel fd hinv).values
    rintro _ v ⟨hv, -, cs, hlog, htrace⟩
    exact ⟨hv, cs, hlog, htrace⟩
  | waitAndProcess reported =>
    apply (waitAndProcess_ran kernel handler fuel reported hinv).values
    rintro _ v ⟨hv, -, cs, hlog, htrace⟩
    exact ⟨hv, cs, hlog, htrace⟩

structure Refines (w₀ : World κ σ) (ops : List QueueOp) (w : World κ σ) : Prop where
  inv : w.queue.Inv
  trace : ∃ steps : List (QueueOp × List Called), steps.map (·.1) = ops ∧
    w.log.map (·.called) = w₀.log.map (·.called) ++ steps.flatMap (·.2) ∧
    Trace (View.Performs handler) steps w₀.view w.view

theorem performAll_refines (ops : List QueueOp) (hinv : w₀.queue.Inv) :
    Exec.Ends (· = w₀) (performAll kernel handler fuel ops) fun _ w =>
      Refines handler w₀ ops w := by
  have hstep : ∀ done op, Exec.Ends (Refines handler w₀ done) (perform kernel handler fuel op)
      fun _ w => Refines handler w₀ (done ++ [op]) w := by
    rintro done op w ⟨hw, steps, hops, hlog, htrace⟩
    refine (perform_performs kernel handler fuel op hw).values (fun _ v hv => ?_) w rfl
    obtain ⟨hv, cs, hcs, hperforms⟩ := hv
    refine ⟨hv, steps ++ [(op, cs.map (·.called))], ?_, ?_, htrace.concat hperforms⟩
    · rw [List.map_append, hops]
      rfl
    · rw [hcs, List.map_append, hlog, List.flatMap_append, List.append_assoc]
      simp
  have hrun := Exec.Triple.forEach (I := fun done w => Refines handler w₀ done w) hstep [] ops
  apply hrun.weaken
  rintro w rfl
  exact ⟨hinv, [], rfl, by simp, .nil _⟩

/-- The queue is the table. In every run of calls that return, whatever the
kernel answers, the calls and the callbacks made in each of them, in their order,
are a run of the table from the empty one to the descriptors and pointers held at
the end, and the handler's calls in each callback are made on the table: each
callback is for a descriptor that is held at that moment, with the pointer it was
put in with, and the descriptor of an `onClose` is dropped right after it. -/
theorem queue_refines_view (k : κ) (user : σ) (ops : List QueueOp) {w : World κ σ}
    (h : performAll kernel handler fuel ops (.start k user) = (.ok (), w)) :
    ∃ steps : List (QueueOp × List Called), steps.map (·.1) = ops ∧
      steps.flatMap (·.2) = w.log.map (·.called) ∧
      Trace (View.Performs handler) steps ⟨fun _ => none, user⟩ w.view := by
  have hinv : (World.start k user).queue.Inv := Queue.Inv.empty
  obtain ⟨-, steps, hops, hlog, htrace⟩ :=
    (performAll_refines kernel handler fuel ops hinv).of_eq rfl h
  exact ⟨steps, hops, hlog.symm, htrace⟩

end

/-- A packet comes in on the second of two descriptors, and the handler closes
the first. -/
theorem queue_refines_view_closing :
    let handler : NetworkQueueHandler Unit :=
      { idleHandler with onSocketReady := fun _ _ => .close 4 (.done ()) }
    let ops : List QueueOp := [.put 4 40 .sckHeader true true, .put 5 50 .sckHeader true true,
      .waitAndProcess [(5, ⟨true, false, false, false⟩)]]
    let w := (performAll scriptedKernel handler 5 ops (.start authPacket ())).2
    w.log.length = 1 ∧ ∃ steps : List (QueueOp × List Called), steps.map (·.1) = ops ∧
      steps.flatMap (·.2) = w.log.map (·.called) ∧
      Trace (View.Performs handler) steps ⟨fun _ => none, ()⟩ w.view := by
  intro handler ops w
  have h : performAll scriptedKernel handler 5 ops (.start authPacket ()) = (.ok (), w) := by rfl
  exact ⟨by rfl, queue_refines_view scriptedKernel handler 5 authPacket () ops h⟩

section
variable (kernel : Kernel κ) (handler : NetworkQueueHandler σ) (fuel : ℕ)

/-- As long as a descriptor is not put in again, nothing is heard of it. -/
theorem silent_unless_put {fd : Fd} (hinv : w₀.queue.Inv) (hfd : w₀.view.held fd = none)
    {ops : List QueueOp} (hops : ∀ op ∈ ops, op.NoPut fd)
    (h : performAll kernel handler fuel ops w₀ = (.ok (), w)) :
    ∃ cs, w.log.map (·.called) = w₀.log.map (·.called) ++ cs ∧ ∀ c ∈ cs, c.fd ≠ fd := by
  obtain ⟨-, steps, rfl, hlog, htrace⟩ :=
    (performAll_refines kernel handler fuel ops hinv).of_eq rfl h
  refine ⟨_, hlog, ?_⟩
  have hrun := htrace.invariant (I := fun m => m.held fd = none)
    (P := fun step => ∀ c ∈ step.2, c.fd ≠ fd) hfd
    fun step hstep u v hu hperforms =>
      hperforms.held_none hu (hops _ (List.mem_map_of_mem hstep))
  intro c hc
  obtain ⟨step, hstep, hc⟩ := List.mem_flatMap.mp hc
  exact hrun.2 step hstep c hc

/-- After the user has closed a descriptor no callback is made for it, whatever
the kernel had reported or the queue had read by then, until it is put in again. -/
theorem silent_after_close (k : κ) (user : σ) (before after : List QueueOp) (fd : Fd)
    {w : World κ σ} (hops : ∀ op ∈ after, op.NoPut fd)
    (h : performAll kernel handler fuel (before ++ .close fd :: after) (.start k user) =
      (.ok (), w)) :
    ∃ u cs, performAll kernel handler fuel before (.start k user) = (.ok (), u) ∧
      w.log.map (·.called) = u.log.map (·.called) ++ cs ∧ ∀ c ∈ cs, c.fd ≠ fd := by
  have hinv : (World.start k user).queue.Inv := Queue.Inv.empty
  rw [performAll, Exec.forEach_append] at h
  obtain ⟨_, u, hbefore, hrest⟩ := Exec.bind_eq_ok h
  obtain ⟨_, v, hclose, hafter⟩ := Exec.bind_eq_ok hrest
  have hu := (performAll_refines kernel handler fuel before hinv).of_eq rfl hbefore
  obtain ⟨hv, cs, hlog, hcs, hdrop⟩ :=
    (perform_performs kernel handler fuel (.close fd) hu.inv).of_eq rfl hclose
  have hfd : v.view.held fd = none := by
    rw [hdrop]
    exact (View.held_drop _ _ _).trans (if_pos rfl)
  obtain ⟨cs', hlog', hsilent⟩ := silent_unless_put kernel handler fuel hv hfd hops hafter
  refine ⟨u, cs', hbefore, ?_, hsilent⟩
  rw [hlog', hlog, List.map_append, hcs, List.append_nil]

end

/-- The packet that comes in after `close` is not handed over. -/
theorem silent_after_close_packet :
    let before : List QueueOp := [.put 4 40 .sckHeader true true, .put 5 50 .sckHeader true true]
    let after : List QueueOp := [.waitAndProcess
      [(4, ⟨false, true, false, false⟩), (5, ⟨true, false, false, false⟩)]]
    let w := (performAll scriptedKernel idleHandler 5 (before ++ .close 5 :: after)
      (.start authPacket ())).2
    ∃ u cs, performAll scriptedKernel idleHandler 5 before (.start authPacket ()) = (.ok (), u) ∧
      w.log.map (·.called) = u.log.map (·.called) ++ cs ∧ ∀ c ∈ cs, c.fd ≠ 5 := by
  intro before after w
  have h : performAll scriptedKernel idleHandler 5 (before ++ .close 5 :: after)
      (.start authPacket ()) = (.ok (), w) := by rfl
  have hops : ∀ op ∈ after, op.NoPut 5 := by simp [after, QueueOp.NoPut]
  exact silent_after_close scriptedKernel idleHandler 5 authPacket () before after 5 hops h

end VNet.NetQueue
