import VNet.NetQueue.Preservation

namespace VNet.NetQueue
open Protocol

def Callback.isClose (c : Callback) : Bool :=
  match c.called with
  | .onClose _ => true
  | _ => false

def closings (log : List Callback) (id : ElemId) : ℕ :=
  log.countP fun c => c.isClose && decide (c.element = id)

def CloseIsLast (log : List Callback) : Prop :=
  ∀ before c after, log = before ++ c :: after → c.isClose = true →
    ∀ c' ∈ after, c'.element ≠ c.element

variable {κ σ : Type}

structure Account (w₀ : World κ σ) (ids : List ElemId) (w : World κ σ) : Prop where
  inv : w.queue.Inv
  old : ∀ fd id, w.queue.fdToNetworkElement.lookup fd = some id →
    w₀.queue.fdToNetworkElement.lookup fd = some id
  log : ∃ new, w.log = w₀.log ++ new ∧
    (∀ fd id, w₀.queue.fdToNetworkElement.lookup fd = some id →
      closings new id = if w.queue.fdToNetworkElement.lookup fd = some id then 0 else 1) ∧
    (∀ c ∈ new, ∃ fd, w₀.queue.fdToNetworkElement.lookup fd = some c.element) ∧ CloseIsLast new

theorem closings_append (log log' : List Callback) (id : ElemId) :
    closings (log ++ log') id = closings log id + closings log' id :=
  List.countP_append

theorem closings_ready {c : Callback} (h : c.isClose = false) (id : ElemId) :
    closings [c] id = 0 := by
  simp [closings, h]

theorem closings_close {c : Callback} (h : c.isClose = true) (id : ElemId) :
    closings [c] id = if c.element = id then 1 else 0 := by
  simp [closings, h, List.countP_cons]

theorem closings_eq_zero {log : List Callback} {id : ElemId} (h : closings log id = 0)
    {c : Callback} (hc : c ∈ log) (hclose : c.isClose = true) : c.element ≠ id := by
  intro heq
  have hnot := List.countP_eq_zero.mp h c hc
  simp [hclose, heq] at hnot

/-- A callback for an element whose `onClose` was not called yet. -/
theorem CloseIsLast.concat {log : List Callback} (h : CloseIsLast log) {c : Callback}
    (hc : closings log c.element = 0) : CloseIsLast (log ++ [c]) := by
  intro before c₀ after heq hclose c' hc'
  rcases List.eq_nil_or_concat after with rfl | ⟨after', last, rfl⟩
  · simp at hc'
  · have hsplit : log ++ [c] = (before ++ c₀ :: after') ++ [last] := by
      rw [heq]
      simp
    obtain ⟨hlog, hlast⟩ := List.append_inj' hsplit rfl
    have hlast' : c = last := by simpa using hlast
    rw [List.concat_eq_append, List.mem_append, List.mem_singleton] at hc'
    rcases hc' with hold | hnew
    · exact h before c₀ after' hlog hclose c' hold
    · rw [hnew, ← hlast']
      exact (closings_eq_zero hc (by rw [hlog]; simp) hclose).symm

section
variable {w₀ w : World κ σ} {ids ids' : List ElemId}

theorem Account.refl (hmap : w.queue.fdToNetworkElement =
    w₀.queue.fdToNetworkElement) (hlog : w.log = w₀.log) (hinv : w.queue.Inv) :
    Account w₀ ids w := by
  refine ⟨hinv, ?_, [], ?_, ?_, ?_, ?_⟩
  · intro fd id hid
    rw [← hmap]
    exact hid
  · rw [hlog, List.append_nil]
  · intro fd id hid
    rw [hmap, if_pos hid]
    rfl
  · simp
  · intro before c after heq
    simp at heq

/-- A step that leaves the map and the log alone. -/
theorem Account.same (h : Account w₀ ids w) {w' : World κ σ} (hinv : w'.queue.Inv)
    (hmap : w'.queue.fdToNetworkElement = w.queue.fdToNetworkElement) (hlog : w'.log = w.log) :
    Account w₀ ids' w' := by
  obtain ⟨new, heq, hcount, hknown, hlast⟩ := h.log
  refine ⟨hinv, ?_, new, ?_, ?_, hknown, hlast⟩
  · rw [hmap]
    exact h.old
  · rw [hlog, heq]
  · rw [hmap]
    exact hcount

/-- The count of an element that is in the map. -/
theorem Account.resumed (h : Account w₀ ids w) {w' : World κ σ} (hinv : w'.queue.Inv)
    (hmap : w'.queue.fdToNetworkElement = w.queue.fdToNetworkElement) {c : Callback}
    (hlog : w'.log = w.log ++ [c]) (hready : c.isClose = false) {fd : Fd}
    (hid : w.queue.fdToNetworkElement.lookup fd = some c.element) : Account w₀ ids w' := by
  obtain ⟨new, heq, hcount, hknown, hlast⟩ := h.log
  have hold := h.old fd c.element hid
  have hzero : closings new c.element = 0 := by
    rw [hcount fd c.element hold, if_pos hid]
  refine ⟨hinv, ?_, new ++ [c], ?_, ?_, ?_, hlast.concat hzero⟩
  · rw [hmap]
    exact h.old
  · rw [hlog, heq, List.append_assoc]
  · intro fd' id' hid'
    rw [closings_append, closings_ready hready, hmap, Nat.add_zero]
    exact hcount fd' id' hid'
  · intro c' hc'
    rcases List.mem_append.mp hc' with hc' | hc'
    · exact hknown c' hc'
    · rw [List.mem_singleton.mp hc']
      exact ⟨fd, hold⟩

theorem Queue.Inv.map_inj {q : Queue} (h : q.Inv) {fd fd' : Fd} {id : ElemId}
    (hid : q.fdToNetworkElement.lookup fd = some id)
    (hid' : q.fdToNetworkElement.lookup fd' = some id) : fd = fd' := by
  obtain ⟨e, he, hfd⟩ := h.mapped fd id hid
  obtain ⟨e', he', hfd'⟩ := h.mapped fd' id hid'
  rw [he, Option.some.injEq] at he'
  rw [← hfd, ← hfd', he']

/-- The last step of an element. -/
theorem Account.removed (hw₀ : w₀.queue.Inv) (h : Account w₀ ids w) {id : ElemId}
    {e : NetworkElement} (he : w.queue.elements.lookup id = some e) {w' : World κ σ}
    (hqueue : w'.queue = w.queue.remove id e.fd) {c : Callback} (hlog : w'.log = w.log ++ [c])
    (hclose : c.isClose = true) (hc : c.element = id) : Account w₀ ids' w' := by
  obtain ⟨new, heq, hcount, hknown, hlast⟩ := h.log
  have hid := h.inv.owned id e he
  have hold := h.old e.fd id hid
  -- it was still in the map, so this is its first `onClose`
  have hzero : closings new id = 0 := by
    rw [hcount e.fd id hold, if_pos hid]
  have hmap : ∀ fd, w'.queue.fdToNetworkElement.lookup fd =
      if fd = e.fd then none else w.queue.fdToNetworkElement.lookup fd := by
    intro fd
    rw [hqueue]
    exact FiniteMap.lookup_erase_eq _ _ _
  refine ⟨?_, ?_, new ++ [c], ?_, ?_, ?_, ?_⟩
  · rw [hqueue]
    exact h.inv.remove he
  · intro fd id' hid'
    rw [hmap] at hid'
    split_ifs at hid'
    exact h.old fd id' hid'
  · rw [hlog, heq, List.append_assoc]
  · intro fd id' hid'
    rw [closings_append, closings_close hclose, hc, hmap]
    by_cases hfd : fd = e.fd
    · rw [hfd, hold, Option.some.injEq] at hid'
      rw [← hid', hzero, if_pos rfl, if_pos hfd, if_neg (by simp)]
    · have hne : id ≠ id' := by
        intro heq'
        rw [← heq'] at hid'
        exact hfd (hw₀.map_inj hid' hold)
      rw [if_neg hne, if_neg hfd, Nat.add_zero]
      exact hcount fd id' hid'
  · intro c' hc'
    rcases List.mem_append.mp hc' with hc' | hc'
    · exact hknown c' hc'
    · rw [List.mem_singleton.mp hc', hc]
      exact ⟨e.fd, hold⟩
  · apply hlast.concat
    rw [hc]
    exact hzero

end

theorem ReadyPass.isClose {e : NetworkElement} {called : Called}
    {resume : NetworkElement → NetworkElement} (h : ReadyPass e called resume) (id : ElemId)
    (upcoming closed : List ElemId) : Callback.isClose ⟨id, called, upcoming, closed⟩ = false := by
  rcases h with ⟨data, _, rfl⟩ | ⟨data, _, rfl⟩
  · rfl
  · rfl

theorem Account.maintained {handler : NetworkQueueHandler σ} (hno : handler.NoClose)
    {w₀ : World κ σ} (hw₀ : w₀.queue.Inv) : Maintained handler (Account w₀) where
  kernel k h := h.same h.inv rfl rfl
  user user h := h.same h.inv rfl rfl
  upcoming upcoming h := h.same h.inv rfl rfl
  sent := by
    intro ids w id fd e rs data h hfd he _
    rw [← h.inv.fd_of_mapped hfd he]
    exact h.same (h.inv.settled he (send_keeps fd_ignoresWrites rs e data))
      (Queue.settled_map _ _ _ _) rfl
  closed := by
    intro ids w id fd e hclose
    exact absurd hno hclose
  read := by
    intro ids w id e count resume r h he hpass
    exact h.same (h.inv.setElement he (read_keeps fd_ignoresReads hpass r)) rfl rfl
  ready h _ _ := h.same h.inv rfl rfl
  resumed := by
    intro ids w id e e' called resume closed h _ hpass he'
    exact h.resumed (h.inv.setElement he' (hpass.resume_keeps fd_ignoresReads e')) rfl rfl
      (hpass.isClose id w.upcoming closed) (h.inv.owned id e' he')
  flushed := by
    intro rest w id e rs h he _
    exact h.same (h.inv.settled he (flushWriteBuffer_keeps fd_ignoresWrites rs e))
      (Queue.settled_map _ _ _ _) rfl
  rearmed := by
    intro rest w id e h he _
    exact h.same (h.inv.epollMod (h.inv.owned id e he) e.mask) (Queue.epollMod_map _ _ _ _) rfl
  closing reason h _ := h.same h.inv rfl rfl
  removed := by
    intro rest w id e data closed h _ he
    exact h.removed hw₀ he (if_pos (h.inv.owned id e he)) rfl rfl rfl

/-- Since `w₀` nothing has left the map, and no `onClose` was called. -/
structure Quiet (w₀ : World κ σ) (ids : List ElemId) (w : World κ σ) : Prop where
  inv : w.queue.Inv
  map_eq : w.queue.fdToNetworkElement = w₀.queue.fdToNetworkElement
  log : ∃ new, w.log = w₀.log ++ new ∧ ∀ c ∈ new, c.isClose = false

theorem Quiet.same {w₀ w w' : World κ σ} {ids : List ElemId} (h : Quiet w₀ ids w)
    (hinv : w'.queue.Inv) (hmap : w'.queue.fdToNetworkElement = w.queue.fdToNetworkElement)
    (hlog : w'.log = w.log) : Quiet w₀ ids w' := by
  refine ⟨hinv, hmap.trans h.map_eq, ?_⟩
  rw [hlog]
  exact h.log

theorem Quiet.steady {handler : NetworkQueueHandler σ} (hno : handler.NoClose) (w₀ : World κ σ) :
    Steady handler (Quiet w₀) where
  kernel k h := h.same h.inv rfl rfl
  user user h := h.same h.inv rfl rfl
  upcoming upcoming h := h.same h.inv rfl rfl
  sent := by
    intro ids w id fd e rs data h hfd he _
    rw [← h.inv.fd_of_mapped hfd he]
    exact h.same (h.inv.settled he (send_keeps fd_ignoresWrites rs e data))
      (Queue.settled_map _ _ _ _) rfl
  closed := by
    intro ids w id fd e hclose
    exact absurd hno hclose
  read := by
    intro ids w id e count resume r h he hpass
    exact h.same (h.inv.setElement he (read_keeps fd_ignoresReads hpass r)) rfl rfl
  ready h _ _ := h.same h.inv rfl rfl
  resumed := by
    intro ids w id e e' called resume closed h _ hpass he'
    obtain ⟨new, heq, hnew⟩ := h.log
    refine ⟨h.inv.setElement he' (hpass.resume_keeps fd_ignoresReads e'), h.map_eq,
      new ++ [⟨id, called, w.upcoming, closed⟩], ?_, ?_⟩
    · rw [← List.append_assoc, ← heq]
      rfl
    · intro c hc
      rcases List.mem_append.mp hc with hc | hc
      · exact hnew c hc
      · rw [List.mem_singleton.mp hc]
        -- a ready pass hands over a packet; it never calls `onClose`
        exact hpass.isClose id w.upcoming closed
  flushed := by
    intro rest w id e rs h he _
    exact h.same (h.inv.settled he (flushWriteBuffer_keeps fd_ignoresWrites rs e))
      (Queue.settled_map _ _ _ _) rfl

section
variable (kernel : Kernel κ)

/-- A callback is entered in the log when it returns, and nothing else is. -/
theorem callback_log {id : ElemId} {called : Called} {reaction : σ → Reaction σ} {u v : World κ σ}
    (hinv : u.queue.Inv) (h : callback kernel id called reaction u = (.ok (), v)) :
    ∃ closed, v.log = u.log ++ [⟨id, called, u.upcoming, closed⟩] := by
  have hreact : Exec.Triple (Reacting u.queue.Live u.log u.upcoming [])
      (callback kernel id called reaction)
      (fun _ v => ∃ closed, v.log = u.log ++ [⟨id, called, u.upcoming, closed⟩])
      (fun _ _ => True) := by
    apply Exec.Triple.bind (Q := fun _ => Reacting u.queue.Live u.log u.upcoming [])
    · apply Exec.Triple.look
      intro w hw
      exact hw
    · intro user
      apply Exec.Triple.bind (Q := fun _ => Reacting u.queue.Live u.log u.upcoming [])
      · apply Exec.Triple.change
        intro w hw
        exact ⟨hw.inv, hw.log_eq, hw.upcoming_eq, hw.live_iff⟩
      · intro _
        apply Exec.Triple.bind (react_reacting kernel (fun _ => trivial) _ [])
        intro closed
        apply Exec.Triple.change
        intro w hw
        refine ⟨closed, ?_⟩
        rw [hw.log_eq, hw.upcoming_eq]
  have hstart : Reacting u.queue.Live u.log u.upcoming [] u := ⟨hinv, rfl, rfl, fun i => by simp⟩
  exact Exec.Ends.of_eq hreact hstart h

/-- Arming an element calls nobody; when it fails the tables are as before. -/
theorem rearmUnless_world (id : ElemId) (reason : Option CloseReason) (y : World κ σ) :
    Exec.Ends (· = y) (rearmUnless kernel id reason) fun reason' z =>
      z.log = y.log ∧ (reason' ≠ none → z.queue = y.queue) := by
  cases reason with
  | some reason =>
    apply Exec.Triple.pure
    rintro w rfl
    exact ⟨rfl, fun _ => rfl⟩
  | none =>
    apply Exec.Triple.bind (deref_ends id)
    intro e
    apply Exec.Triple.bind (Q := fun _ w => w.log = y.log ∧ w.queue = y.queue)
    · apply Exec.Triple.next
      rintro w ⟨rfl, _⟩
      exact ⟨rfl, rfl⟩
    · intro ok
      apply Exec.Triple.ite
      · intro _
        apply Exec.Triple.bind (Q := fun _ w => w.log = y.log)
        · apply Exec.Triple.change
          intro w hw
          exact hw.1
        · intro _
          apply Exec.Triple.pure
          intro w hw
          exact ⟨hw, fun hne => absurd rfl hne⟩
      · intro _
        apply Exec.Triple.pure
        intro w hw
        exact ⟨hw.1, fun _ => hw.2⟩

variable (handler : NetworkQueueHandler σ)

/-- `onClose` is called in `u`, where the element is in the map; the callback
returns in `v`, with the element still there, and `w` is `v` without it. -/
structure RemovedAfter (c : Callback) (data : CloseData) (u v w : World κ σ) : Prop where
  called : callback kernel c.element (.onClose data) (fun user => handler.onClose user data) u =
    (.ok (), v)
  log_eq : v.log = u.log ++ [c]
  mapped : u.queue.fdToNetworkElement.lookup data.fd = some c.element
  still_mapped : v.queue.fdToNetworkElement.lookup data.fd = some c.element
  removed : w = { v with queue := v.queue.remove c.element data.fd }

variable {handler}

theorem closeFor_removes (hno : handler.NoClose) {id : ElemId} {reason : CloseReason}
    {u w : World κ σ} (hinv : u.queue.Inv)
    (h : closeFor kernel handler id reason u = (.ok (), w)) :
    ∃ c data v, c.called = .onClose data ∧ c.element = id ∧
      RemovedAfter kernel handler c data u v w := by
  obtain ⟨e, t, he, hrest⟩ := Exec.bind_eq_ok h
  obtain ⟨rfl, hlook⟩ := (deref_ends (P := (· = u)) id).of_eq rfl he
  obtain ⟨_, v, hcall, hclose⟩ := Exec.bind_eq_ok hrest
  obtain ⟨closed, hlog⟩ := callback_log kernel hinv hcall
  -- the handler closes nothing, so `onClose` leaves the map as it was
  obtain ⟨x, closed', hx, _, hv⟩ := (callback_ends kernel (Quiet.steady hno t) []
    (fun user hn => hn.onClose user ⟨id, e.ptr, e.fd, reason⟩) (Q := (· = t))
    (by rintro y rfl; exact ⟨hinv, rfl, [], by simp, by simp⟩)).of_eq rfl hcall
  have hmap : v.queue.fdToNetworkElement = t.queue.fdToNetworkElement := by
    rw [hv]
    exact hx.map_eq
  have hvinv : v.queue.Inv := by
    rw [hv]
    exact hx.inv
  -- `close` looks the element up again and finds it on its own descriptor
  obtain ⟨e', t', he', hend⟩ := Exec.bind_eq_ok hclose
  obtain ⟨rfl, hlook'⟩ := (deref_ends (P := (· = v)) id).of_eq rfl he'
  have hid := hinv.owned id e hlook
  have hid' := hvinv.owned id e' hlook'
  have hfd : e'.fd = e.fd := by
    rw [← hmap] at hid
    exact hvinv.map_inj hid' hid
  refine ⟨⟨id, .onClose ⟨id, e.ptr, e.fd, reason⟩, t.upcoming, closed⟩,
    ⟨id, e.ptr, e.fd, reason⟩, t', rfl, rfl, hcall, hlog, hid, ?_, ?_⟩
  · rw [hmap]
    exact hid
  · have hw : (if t'.queue.fdToNetworkElement.lookup e'.fd = some id then
        { t' with queue := t'.queue.remove id e'.fd } else t') = w := congrArg Prod.snd hend
    rw [if_pos hid'] at hw
    rw [← hw, hfd]

/-- An event calls no `onClose`, or it calls one at its end and removes the element. -/
theorem handleEvent_cases (hno : handler.NoClose) {fuel : ℕ} {id : ElemId} {ev : Events}
    {closed closed' : List ElemId} {w w' : World κ σ} (hinv : w.queue.Inv)
    (h : handleEvent kernel handler fuel id ev closed w = (.ok closed', w')) :
    (∃ new, w'.log = w.log ++ new ∧ ∀ c ∈ new, c.isClose = false) ∨
      ∃ c data u v new, c.called = .onClose data ∧ u.log = w.log ++ new ∧
        (∀ c ∈ new, c.isClose = false) ∧ RemovedAfter kernel handler c data u v w' := by
  unfold handleEvent at h
  split_ifs at h with hid
  · have hw : w' = w := (congrArg Prod.snd h).symm
    exact Or.inl ⟨[], by simp [hw], by simp⟩
  · obtain ⟨afterInput, x, hx, h₁⟩ := Exec.bind_eq_ok h
    obtain ⟨afterOutput, y, hy, h₂⟩ := Exec.bind_eq_ok h₁
    obtain ⟨reason, z, hz, h₃⟩ := Exec.bind_eq_ok h₂
    -- only `closeFor` at the end of the event takes the element away
    have hquiet := Quiet.steady hno w
    have hstart : Quiet w [id] w := ⟨hinv, rfl, [], by simp, by simp⟩
    have hxq := (onInput_ends kernel hquiet [] fuel id ev).of_eq hstart hx
    have hyq := (onOutput_ends kernel hquiet [] id ev afterInput).of_eq hxq hy
    obtain ⟨hlog, hqueue⟩ := (rearmUnless_world kernel id _ y).of_eq rfl hz
    obtain ⟨new, heq, hnew⟩ := hyq.log
    cases reason with
    | none =>
      have hw : w' = z := (congrArg Prod.snd h₃).symm
      exact Or.inl ⟨new, by rw [hw, hlog, heq], hnew⟩
    | some reason =>
      obtain ⟨_, w'', hclose, h₄⟩ := Exec.bind_eq_ok h₃
      have hw : w' = w'' := (congrArg Prod.snd h₄).symm
      have hzinv : z.queue.Inv := by
        rw [hqueue (by simp)]
        exact hyq.inv
      obtain ⟨c, data, v, hc, _, hremoved⟩ := closeFor_removes kernel hno hzinv hclose
      rw [hw]
      exact Or.inr ⟨c, data, z, v, new, hc, by rw [hlog, heq], hnew, hremoved⟩

/-- An entry with a mark stands behind entries without it. -/
theorem split_behind {α : Type} {p : α → Bool} {new rest before after : List α} {c : α}
    (hnew : ∀ x ∈ new, p x = false) (hc : p c = true)
    (heq : new ++ rest = before ++ c :: after) :
    ∃ mid, before = new ++ mid ∧ rest = mid ++ c :: after := by
  induction new generalizing before with
  | nil => exact ⟨before, rfl, heq⟩
  | cons x new ih =>
    cases before with
    | nil =>
      obtain ⟨hx, _⟩ := List.cons.inj heq
      have hfalse := hnew x List.mem_cons_self
      rw [hx, hc] at hfalse
      simp at hfalse
    | cons b before =>
      obtain ⟨hb, hrest⟩ := List.cons.inj heq
      obtain ⟨mid, hbefore, hmid⟩ := ih (fun y hy => hnew y (List.mem_cons_of_mem _ hy)) hrest
      exact ⟨mid, by rw [hbefore, hb]; rfl, hmid⟩

theorem handleEvent_log (hno : handler.NoClose) {fuel : ℕ} {id : ElemId} {ev : Events}
    {closed closed' : List ElemId} {w w' : World κ σ} (hinv : w.queue.Inv)
    (h : handleEvent kernel handler fuel id ev closed w = (.ok closed', w')) :
    w'.queue.Inv ∧ ∃ new, w'.log = w.log ++ new := by
  by_cases hid : id ∈ closed
  · unfold handleEvent at h
    rw [if_pos hid] at h
    have hw : w' = w := (congrArg Prod.snd h).symm
    rw [hw]
    exact ⟨hinv, [], by simp⟩
  · have hstart : Account w [id] w := Account.refl rfl rfl hinv
    have hdone := (handleEvent_ends kernel (Account.maintained hno hinv) [] fuel id ev hid).of_eq
      hstart h
    obtain ⟨new, heq, _⟩ := hdone.1.log
    exact ⟨hdone.1.inv, new, heq⟩

/-- The first event of a batch is handled before the others. -/
theorem handleEvents_cons_ok {fuel : ℕ} {id : ElemId} {ev : Events}
    {batch : List (ElemId × Events)} {closed : List ElemId} {w w' : World κ σ}
    (h : handleEvents kernel handler fuel ((id, ev) :: batch) closed w = (.ok (), w')) :
    ∃ closed' v, handleEvent kernel handler fuel id ev closed
        { w with upcoming := batch.map (·.1) } = (.ok closed', v) ∧
      handleEvents kernel handler fuel batch closed' v = (.ok (), w') := by
  obtain ⟨_, t, ht, hrest⟩ := Exec.bind_eq_ok h
  obtain ⟨closed', v, hv, hbatch⟩ := Exec.bind_eq_ok hrest
  have htw : t = { w with upcoming := batch.map (·.1) } := (congrArg Prod.snd ht).symm
  rw [htw] at hv
  exact ⟨closed', v, hv, hbatch⟩

theorem handleEvents_log (hno : handler.NoClose) {fuel : ℕ} {batch : List (ElemId × Events)}
    {closed : List ElemId} {w w' : World κ σ} (hinv : w.queue.Inv)
    (h : handleEvents kernel handler fuel batch closed w = (.ok (), w')) :
    ∃ new, w'.log = w.log ++ new := by
  induction batch generalizing closed w with
  | nil =>
    have hw : w' = w := (congrArg Prod.snd h).symm
    exact ⟨[], by simp [hw]⟩
  | cons x batch ih =>
    obtain ⟨closed', v, hv, hrest⟩ := handleEvents_cons_ok kernel h
    have hqueue : ({ w with upcoming := batch.map (·.1) } : World κ σ).queue.Inv := hinv
    obtain ⟨hvinv, new, heq⟩ := handleEvent_log kernel hno hqueue hv
    obtain ⟨new', heq'⟩ := ih hvinv hrest
    exact ⟨new ++ new', by rw [heq', heq, List.append_assoc]⟩

/-- Every `onClose` of a batch is followed at once by the removal, and then by
the events further on. -/
theorem handleEvents_removes (hno : handler.NoClose) {fuel : ℕ} {batch : List (ElemId × Events)}
    {closed : List ElemId} {w w' : World κ σ} (hinv : w.queue.Inv)
    (h : handleEvents kernel handler fuel batch closed w = (.ok (), w'))
    {before after : List Callback} {c : Callback} {data : CloseData}
    (hlog : w'.log = w.log ++ (before ++ c :: after)) (hc : c.called = .onClose data) :
    ∃ u v x rest closed', u.log = w.log ++ before ∧ RemovedAfter kernel handler c data u v x ∧
      handleEvents kernel handler fuel rest closed' x = (.ok (), w') := by
  have hclose : c.isClose = true := by
    unfold Callback.isClose
    rw [hc]
  induction batch generalizing closed w before with
  | nil =>
    have hw : w' = w := (congrArg Prod.snd h).symm
    rw [hw] at hlog
    simp at hlog
  | cons x batch ih =>
    obtain ⟨closed', v, hv, h₂⟩ := handleEvents_cons_ok kernel h
    have hqueue : ({ w with upcoming := batch.map (·.1) } : World κ σ).queue.Inv := hinv
    obtain ⟨hvinv, _⟩ := handleEvent_log kernel hno hqueue hv
    obtain ⟨later, hlater⟩ := handleEvents_log kernel hno hvinv h₂
    rcases handleEvent_cases kernel hno hqueue hv with
      ⟨new, heq, hnew⟩ | ⟨c₀, data₀, u, v₀, new, hc₀, heq, hnew, hremoved⟩
    · -- this event removes nothing, so the closing is one of a later event
      rw [hlater, heq, List.append_assoc] at hlog
      obtain ⟨mid, hbefore, hmid⟩ := split_behind hnew hclose (List.append_cancel_left hlog)
      rw [hmid] at hlater
      obtain ⟨u, v', x, rest, closed'', hu, hx, hrest⟩ := ih hvinv h₂ hlater
      refine ⟨u, v', x, rest, closed'', ?_, hx, hrest⟩
      rw [hu, heq, hbefore, List.append_assoc]
    · have hvlog : v.log = w.log ++ new ++ [c₀] := by
        rw [hremoved.removed]
        show v₀.log = _
        rw [hremoved.log_eq, heq]
      have hall : new ++ c₀ :: later = before ++ c :: after := by
        rw [hlater, hvlog] at hlog
        have hfull : w.log ++ (new ++ c₀ :: later) = w.log ++ (before ++ c :: after) := by
          rw [← hlog]
          simp
        exact List.append_cancel_left hfull
      -- the closing is the one of this event, or it is behind it
      obtain ⟨mid, hbefore, hmid⟩ := split_behind hnew hclose hall
      cases mid with
      | nil =>
        obtain ⟨rfl, _⟩ := List.cons.inj hmid
        rw [hc₀, Called.onClose.injEq] at hc
        rw [← hc]
        refine ⟨u, v₀, v, batch, closed', ?_, hremoved, h₂⟩
        rw [heq, hbefore, List.append_nil]
      | cons m mid =>
        obtain ⟨rfl, hmid'⟩ := List.cons.inj hmid
        rw [hmid'] at hlater
        obtain ⟨u', v', x, rest, closed'', hu, hx, hrest⟩ := ih hvinv h₂ hlater
        refine ⟨u', v', x, rest, closed'', ?_, hx, hrest⟩
        rw [hu, hvlog, hbefore]
        simp

end

/-- `NetQueue::close(element)` with any pointer; `foreign` is what stands behind a
pointer to something that is not an element of this queue. -/
def closePointer (element : Option ElemId) (foreign : Option NetworkElement) : Run κ σ Unit :=
  match element with
  | none => pure ()
  | some id => do
    let found ← Exec.look fun w => (w.queue.elements.lookup id).or foreign
    match found with
    | none => Exec.fault (.freed id)
    | some e => Exec.change fun w =>
      if w.queue.fdToNetworkElement.lookup e.fd = some id then
        { w with queue := w.queue.remove id e.fd }
      else w

inductive LifecycleCall
  | put (fd : Fd) (ptr : ℕ) (state : FiniteStateMachine) (added stored : Bool)
  | close (fd : Fd)
  | closeElement (element : Option ElemId) (foreign : Option NetworkElement)
  | send (fd : Fd) (data : Bytes)
  | waitAndProcess (reported : List (Fd × Events))
  deriving DecidableEq, Repr

section
variable (kernel : Kernel κ) (handler : NetworkQueueHandler σ) (fuel : ℕ)

def call : LifecycleCall → Run κ σ Unit
  | .put fd ptr state added stored => perform kernel handler fuel (.put fd ptr state added stored)
  | .close fd => perform kernel handler fuel (.close fd)
  | .closeElement element foreign => closePointer element foreign
  | .send fd data => perform kernel handler fuel (.send fd data)
  | .waitAndProcess reported => perform kernel handler fuel (.waitAndProcess reported)

def callAll (calls : List LifecycleCall) : Run κ σ Unit :=
  Exec.forEach (call kernel handler fuel) calls

/-- What one `wait_and_process` from `w` to `w'` did: `onClose` exactly once for
each element that left the map and never for the others, no callback for an
element behind its `onClose`, and each removal right behind its callback. -/
structure ClosedOnce (w w' : World κ σ) (new : List Callback) : Prop where
  log_eq : w'.log = w.log ++ new
  once : ∀ fd id, w.queue.fdToNetworkElement.lookup fd = some id →
    closings new id = if w'.queue.fdToNetworkElement.lookup fd = some id then 0 else 1
  known : ∀ c ∈ new, ∃ fd, w.queue.fdToNetworkElement.lookup fd = some c.element
  old : ∀ fd id, w'.queue.fdToNetworkElement.lookup fd = some id →
    w.queue.fdToNetworkElement.lookup fd = some id
  last : CloseIsLast new
  removes : ∀ before c after data, new = before ++ c :: after → c.called = .onClose data →
    ∃ u v x rest closed, u.log = w.log ++ before ∧ RemovedAfter kernel handler c data u v x ∧
      handleEvents kernel handler fuel rest closed x = (.ok (), w')

def SameTables (q q' : Queue) : Prop :=
  q'.elements = q.elements ∧ q'.fdToNetworkElement = q.fdToNetworkElement ∧ q'.epoll = q.epoll

def CallSpec (w w' : World κ σ) : LifecycleCall → Prop
  | .put fd ptr state added stored => (w.queue.put fd ptr state added stored).1 = none →
    SameTables w.queue w'.queue
  | .close fd => w.queue.fdToNetworkElement.lookup fd = none → w' = w
  | .closeElement element _ =>
    (∀ id fd, element = some id → w.queue.fdToNetworkElement.lookup fd ≠ some id) → w' = w
  | .send _ _ => w'.queue.fdToNetworkElement = w.queue.fdToNetworkElement
  | .waitAndProcess _ => ∃ new, ClosedOnce kernel handler fuel w w' new

variable {handler}

theorem closePointer_inv (element : Option ElemId) (foreign : Option NetworkElement) :
    Exec.Ends (fun w : World κ σ => w.queue.Inv) (closePointer element foreign)
      fun _ w => w.queue.Inv := by
  cases element with
  | none =>
    apply Exec.Triple.pure
    intro w hw
    exact hw
  | some id =>
    apply Exec.Triple.bind (Q := fun found w => w.queue.Inv ∧
      (w.queue.elements.lookup id).or foreign = found)
    · apply Exec.Triple.look
      intro w hw
      exact ⟨hw, rfl⟩
    · intro found
      cases found with
      | none => exact Exec.Triple.fault fun _ _ => trivial
      | some e =>
        apply Exec.Triple.change
        rintro w ⟨hinv, he⟩
        split_ifs with hmap
        · -- an element in the map is one of the queue's own
          obtain ⟨e', he', _⟩ := hinv.mapped e.fd id hmap
          rw [he', Option.some_or, Option.some.injEq] at he
          rw [he] at he'
          exact hinv.remove he'
        · exact hinv

/-- A pointer to no element of the map. -/
theorem closePointer_unmapped {element : Option ElemId} {foreign : Option NetworkElement}
    {w w' : World κ σ} (h : closePointer element foreign w = (.ok (), w'))
    (hno : ∀ id fd, element = some id → w.queue.fdToNetworkElement.lookup fd ≠ some id) :
    w' = w := by
  cases element with
  | none => exact (congrArg Prod.snd h).symm
  | some id =>
    obtain ⟨found, t, ht, h₁⟩ := Exec.bind_eq_ok h
    have htw : t = w := (congrArg Prod.snd ht).symm
    cases found with
    | none => simp [Exec.fault] at h₁
    | some e =>
      have hw : (if t.queue.fdToNetworkElement.lookup e.fd = some id then
          { t with queue := t.queue.remove id e.fd } else t) = w' := congrArg Prod.snd h₁
      rw [htw, if_neg (hno id e.fd rfl)] at hw
      exact hw.symm

theorem put_none {q : Queue} {fd : Fd} {ptr : ℕ} {state : FiniteStateMachine} {added stored : Bool}
    (h : (q.put fd ptr state added stored).1 = none) :
    SameTables q (q.put fd ptr state added stored).2 := by
  unfold Queue.put at h ⊢
  split_ifs at h ⊢
  exact ⟨rfl, rfl, rfl⟩

theorem close_none {fd : Fd} {w w' : World κ σ}
    (h : perform kernel handler fuel (.close fd) w = (.ok (), w'))
    (hfd : w.queue.fdToNetworkElement.lookup fd = none) : w' = w := by
  have hclose : perform kernel handler fuel (.close fd) w = (.ok (), w) := by
    have hnone : close fd w = (.ok none, w) := by
      unfold close
      have hlook : Exec.look (fun w : World κ σ => w.queue.fdToNetworkElement.lookup fd) w =
          ((.ok none, w) : Except Fault _ × _) := by
        rw [← hfd]
        rfl
      rw [Exec.bind_ok hlook]
      rfl
    exact Exec.bind_ok hnone
  rw [h] at hclose
  exact congrArg Prod.snd hclose

theorem waitAndProcess_closedOnce (hno : handler.NoClose) {reported : List (Fd × Events)}
    {w w' : World κ σ} (hinv : w.queue.Inv)
    (h : waitAndProcess kernel handler fuel reported w = (.ok (), w')) :
    w'.queue.Inv ∧ ∃ new, ClosedOnce kernel handler fuel w w' new := by
  have hspec := Queue.epollWait_spec hinv (reported.take epollMaxEvents)
  have hmap := Queue.epollWait_map w.queue (reported.take epollMaxEvents)
  have hdone := (waitAndProcess_ends kernel (Account.maintained hno hinv) fuel reported w hinv
    (Account.refl hmap rfl hspec.1)).of_eq rfl h
  obtain ⟨new, heq, honce, hknown, hlast⟩ := hdone.log
  refine ⟨hdone.inv, new, heq, honce, hknown, hdone.old, hlast, ?_⟩
  intro before c after data hnew hc
  obtain ⟨batch, t, ht, h₁⟩ := Exec.bind_eq_ok h
  have htw : t = { w with queue := (w.queue.epollWait (reported.take epollMaxEvents)).2 } :=
    (congrArg Prod.snd ht).symm
  have htinv : t.queue.Inv := by
    rw [htw]
    exact hspec.1
  have htlog : t.log = w.log := by rw [htw]
  rw [hnew, ← htlog] at heq
  obtain ⟨u, v, x, rest, closed, hu, hx, hrest⟩ := handleEvents_removes kernel hno htinv h₁ heq hc
  rw [htlog] at hu
  exact ⟨u, v, x, rest, closed, hu, hx, hrest⟩

theorem call_inv (c : LifecycleCall) :
    Exec.Ends (fun w : World κ σ => w.queue.Inv) (call kernel handler fuel c)
      fun _ w => w.queue.Inv := by
  cases c with
  | put fd ptr state added stored =>
    exact perform_ends kernel (inv_maintained handler) fuel (.put fd ptr state added stored)
  | close fd => exact perform_ends kernel (inv_maintained handler) fuel (.close fd)
  | closeElement element foreign => exact closePointer_inv element foreign
  | send fd data => exact perform_ends kernel (inv_maintained handler) fuel (.send fd data)
  | waitAndProcess reported =>
    exact perform_ends kernel (inv_maintained handler) fuel (.waitAndProcess reported)

theorem call_spec (hno : handler.NoClose) {c : LifecycleCall} {w w' : World κ σ}
    (hinv : w.queue.Inv) (h : call kernel handler fuel c w = (.ok (), w')) :
    CallSpec kernel handler fuel w w' c := by
  cases c with
  | put fd ptr state added stored =>
    intro hnone
    have hw : { w with queue := (w.queue.put fd ptr state added stored).2 } = w' :=
      congrArg Prod.snd h
    rw [← hw]
    exact put_none hnone
  | close fd =>
    intro hnone
    have hclose : perform kernel handler fuel (.close fd) w = (.ok (), w') := h
    exact close_none kernel fuel hclose hnone
  | closeElement element foreign =>
    intro hnone
    exact closePointer_unmapped h hnone
  | send fd data =>
    obtain ⟨_, t, ht, h₁⟩ := Exec.bind_eq_ok h
    have hstart : Quiet w [] w ∧ w.calling = w.calling := ⟨⟨hinv, rfl, [], by simp, by simp⟩, rfl⟩
    have hdone := (sendOn_ends kernel (Quiet.steady hno w) [] w.calling fd data).of_eq hstart ht
    have hw : t = w' := congrArg Prod.snd h₁
    rw [← hw]
    exact hdone.1.map_eq
  | waitAndProcess reported => exact (waitAndProcess_closedOnce kernel fuel hno hinv h).2

/-- After every run of calls the map, the epoll set and the elements agree; a call
that fails or names nothing in the map changes nothing; and `wait_and_process`
calls `onClose` once for what it removes, right before. -/
theorem queue_lifecycle (hno : handler.NoClose) (k : κ) (user : σ) (calls : List LifecycleCall)
    (c : LifecycleCall) {w w' : World κ σ}
    (h : callAll kernel handler fuel calls (.start k user) = (.ok (), w))
    (h' : call kernel handler fuel c w = (.ok (), w')) :
    w.queue.Inv ∧ w'.queue.Inv ∧ CallSpec kernel handler fuel w w' c := by
  have hall : Exec.Ends (fun w : World κ σ => w.queue.Inv) (callAll kernel handler fuel calls)
      fun _ w => w.queue.Inv :=
    Exec.Triple.forEach (I := fun _ (w : World κ σ) => w.queue.Inv)
      (fun _ c => call_inv kernel fuel c) [] calls
  have hw : w.queue.Inv := hall.of_eq Queue.Inv.empty h
  exact ⟨hw, (call_inv kernel fuel c).of_eq hw h', call_spec kernel fuel hno hw h'⟩

end

/-- Two connections, and an error on the first. -/
theorem queue_lifecycle_error :
    let w := (callAll scriptedKernel idleHandler 9 [.put 5 0 .sckHeader true true,
      .put 6 0 .sckHeader true true] (.start [] ())).2
    let w' := (call scriptedKernel idleHandler 9
      (.waitAndProcess [(5, ⟨false, false, true, false⟩)]) w).2
    w'.queue.Inv ∧ ∃ new, w'.log = w.log ++ new ∧ closings new 0 = 1 ∧ closings new 1 = 0 := by
  intro w w'
  have hrun : callAll scriptedKernel idleHandler 9 [.put 5 0 .sckHeader true true,
      .put 6 0 .sckHeader true true] (.start [] ()) = (.ok (), w) := Prod.ext rfl rfl
  have hcall : call scriptedKernel idleHandler 9
      (.waitAndProcess [(5, ⟨false, false, true, false⟩)]) w = (.ok (), w') := Prod.ext rfl rfl
  obtain ⟨_, hinv, new, hnew⟩ := queue_lifecycle scriptedKernel 9 idleHandler_noClose [] () _ _
    hrun hcall
  refine ⟨hinv, new, hnew.log_eq, ?_, ?_⟩
  · rw [hnew.once 5 0 rfl]
    rfl
  · rw [hnew.once 6 1 rfl]
    rfl

end VNet.NetQueue
