import VNet.NetQueue.Lifecycle

namespace VNet.NetQueue
open Protocol

def Called.isReady : Called → Bool
  | .onClose _ => false
  | .onSocketReady _ => true
  | .onTunReady _ => true

/-- The `send` was made by the handler while it had a packet of the same element
in hand. -/
def Overflow.OwnPacket (o : Overflow) : Prop :=
  ∃ called, o.during = some (o.element, called) ∧ called.isReady = true

variable {κ σ : Type}

/-- Every overflow that was not in a callback for a packet of the same element
has left the element in `SCK_ERROR`, with no such callback since. -/
structure Latched (ids : List ElemId) (w : World κ σ) : Prop where
  inv : w.queue.Inv
  known : ∀ o ∈ w.overflows, o.element < w.queue.nextId
  error : ∀ o ∈ w.overflows, ¬ o.OwnPacket → ∀ e, w.queue.elements.lookup o.element = some e →
    e.state = .sckError
  silent : ∀ o ∈ w.overflows, ¬ o.OwnPacket → ∀ c ∈ w.log.drop o.callbacks,
    c.element = o.element → c.isClose = true
  calling : ∀ o ∈ w.overflows, ¬ o.OwnPacket → ∀ called,
    w.calling = some (o.element, called) → called.isReady = false

/-- A `send` leaves the state alone or sets the error, which it does when the
bytes waiting would be too many. -/
theorem send_state (rs : List WriteResult) (e : NetworkElement) (data : Bytes) :
    ((send rs e data).element.state = e.state ∧ ¬ (send rs e data).Overflowed) ∨
      (send rs e data).element.state = .sckError := by
  unfold send
  split_ifs
  · exact Or.inr rfl
  · exact Or.inl ⟨rfl, fun h => by simp [WriteOutcome.Overflowed] at h⟩
  · cases sendDirect_element rs e data with
    | same helem _ hret =>
      refine Or.inl ⟨by rw [helem], fun h => ?_⟩
      rcases hret with hret | ⟨w, hw, hf⟩
      · exact hret h.1
      · exact h.2 w hw hf
    | overflowed helem => exact Or.inr (by rw [helem])
    | waiting rest helem _ hret =>
      refine Or.inl ⟨by rw [helem], fun h => ?_⟩
      rw [h.1] at hret
      simp at hret

theorem flushWriteBuffer_state (rs : List WriteResult) (e : NetworkElement) :
    (flushWriteBuffer rs e).element.state = e.state := by
  obtain ⟨buffer, offset, helem⟩ := flushWriteBuffer_element rs e
  rw [helem]

theorem processPass_sckError {e : NetworkElement} (h : e.state = .sckError) :
    processPass e = .stop := by
  simp only [processPass, h]

theorem ReadyPass.not_sckError {e : NetworkElement} {called : Called}
    {resume : NetworkElement → NetworkElement} (h : ReadyPass e called resume) :
    e.state ≠ .sckError := by
  intro hst
  have hstop := processPass_sckError hst
  rcases h with ⟨data, hpass, _⟩ | ⟨data, hpass, _⟩
  · rw [hstop] at hpass
    simp at hpass
  · rw [hstop] at hpass
    simp at hpass

theorem ReadyPass.isReady {e : NetworkElement} {called : Called}
    {resume : NetworkElement → NetworkElement} (h : ReadyPass e called resume) :
    called.isReady = true := by
  rcases h with ⟨data, _, rfl⟩ | ⟨data, _, rfl⟩
  · rfl
  · rfl

theorem Queue.epollMod_nextId (q : Queue) (fd : Fd) (id : ElemId) (interest : Interest) :
    (q.epollMod fd id interest).nextId = q.nextId := by
  unfold Queue.epollMod
  split <;> rfl

theorem Queue.settled_nextId (q : Queue) (id : ElemId) (fd : Fd) (o : WriteOutcome) :
    (q.settled id fd o).nextId = q.nextId := by
  unfold Queue.settled
  cases o.registered with
  | none => rfl
  | some interest => exact Queue.epollMod_nextId _ _ _ _

theorem Queue.epollWait_nextId (q : Queue) (reported : List (Fd × Events)) :
    (q.epollWait reported).2.nextId = q.nextId := by
  induction reported generalizing q with
  | nil => rfl
  | cons x rest ih =>
    unfold Queue.epollWait
    split
    · exact ih _
    · exact ih q

theorem mem_drop_concat {α : Type} {l : List α} {a x : α} {n : ℕ} (h : x ∈ (l ++ [a]).drop n) :
    x ∈ l.drop n ∨ x = a := by
  rw [List.drop_append, List.mem_append] at h
  rcases h with hold | hnew
  · exact Or.inl hold
  · exact Or.inr (List.mem_singleton.mp (List.mem_of_mem_drop hnew))

def Queue.KeepsErrors (q q' : Queue) : Prop :=
  ∀ i a', q'.elements.lookup i = some a' →
    ∃ a, q.elements.lookup i = some a ∧ (a.state = .sckError → a'.state = .sckError)

theorem Queue.KeepsErrors.of_eq {q q' : Queue}
    (h : ∀ i, q'.elements.lookup i = q.elements.lookup i) : q.KeepsErrors q' := by
  intro i a ha
  rw [h] at ha
  exact ⟨a, ha, fun h => h⟩

theorem Queue.keepsErrors_overwrite {q q' : Queue} {id : ElemId} {e e' : NetworkElement}
    (he : q.elements.lookup id = some e)
    (h : ∀ i, q'.elements.lookup i = if i = id then some e' else q.elements.lookup i)
    (hst : e.state = .sckError → e'.state = .sckError) : q.KeepsErrors q' := by
  intro i a ha
  rw [h] at ha
  split_ifs at ha with heq
  · rw [heq, ← Option.some.inj ha]
    exact ⟨e, he, hst⟩
  · exact ⟨a, ha, fun h => h⟩

theorem Queue.put_nextId_le (q : Queue) (fd : Fd) (ptr : ℕ) (state : FiniteStateMachine)
    (added stored : Bool) : q.nextId ≤ (q.put fd ptr state added stored).2.nextId := by
  unfold Queue.put
  split_ifs
  · exact Nat.le_succ _
  · exact Nat.le_succ _

section
variable {ids ids' : List ElemId} {w w' : World κ σ} {id : ElemId} {e e' : NetworkElement}

/-- A step that records no overflow and calls nobody. -/
theorem Latched.same (h : Latched ids w) (hinv : w'.queue.Inv)
    (hnext : w'.queue.nextId = w.queue.nextId) (hover : w'.overflows = w.overflows)
    (hlog : w'.log = w.log) (hcall : w'.calling = w.calling)
    (herror : w.queue.KeepsErrors w'.queue) : Latched ids' w' := by
  refine ⟨hinv, ?_, ?_, ?_, ?_⟩
  · rw [hover, hnext]
    exact h.known
  · rw [hover]
    intro o ho hown e' he'
    obtain ⟨e, he, hst⟩ := herror o.element e' he'
    exact hst (h.error o ho hown e he)
  · rw [hover, hlog]
    exact h.silent
  · rw [hover, hcall]
    exact h.calling

/-- One overflow more, of an element that is in `SCK_ERROR` now. -/
theorem Latched.overflowed (h : Latched ids w) (hid : id < w.queue.nextId)
    (hset : ∀ a, w.queue.elements.lookup id = some a → a.state = .sckError) :
    Latched ids { w with overflows := w.overflows ++ [⟨id, w.calling, w.log.length⟩] } := by
  have hsplit : ∀ o ∈ w.overflows ++ [⟨id, w.calling, w.log.length⟩], o ∈ w.overflows ∨
      o = ⟨id, w.calling, w.log.length⟩ := by
    intro o ho
    rw [List.mem_append, List.mem_singleton] at ho
    exact ho
  refine ⟨h.inv, ?_, ?_, ?_, ?_⟩
  · intro o ho
    rcases hsplit o ho with hold | rfl
    · exact h.known o hold
    · exact hid
  · intro o ho hown a ha
    rcases hsplit o ho with hold | rfl
    · exact h.error o hold hown a ha
    · exact hset a ha
  · intro o ho hown c hc
    rcases hsplit o ho with hold | rfl
    · exact h.silent o hold hown c hc
    · -- nothing has been called since
      dsimp only at hc
      rw [List.drop_length] at hc
      simp at hc
  · intro o ho hown called hcall
    rcases hsplit o ho with hold | rfl
    · exact h.calling o hold hown called hcall
    · cases hready : called.isReady with
      | false => rfl
      | true => exact absurd ⟨called, hcall, hready⟩ hown

theorem Latched.settled (h : Latched ids w) (he : w.queue.elements.lookup id = some e)
    {o : WriteOutcome} (hfd : o.element.fd = e.fd)
    (hst : e.state = .sckError → o.element.state = .sckError) :
    Latched ids { w with queue := w.queue.settled id e.fd o } :=
  h.same (h.inv.settled he hfd) (Queue.settled_nextId _ _ _ _) rfl rfl rfl
    (Queue.keepsErrors_overwrite he (fun i => w.queue.elements_settled id i e.fd o) hst)

theorem Latched.send (h : Latched ids w) (he : w.queue.elements.lookup id = some e)
    (rs : List WriteResult) (data : Bytes) :
    Latched ids (w.sent id e.fd (NetQueue.send rs e data)) := by
  have hstate := send_state rs e data
  have hsettled := h.settled he (send_keeps fd_ignoresWrites rs e data) fun hst =>
    hstate.elim (fun hsame => hsame.1.trans hst) fun hset => hset
  unfold World.sent
  by_cases hover : (NetQueue.send rs e data).Overflowed
  · rw [if_pos hover]
    have hid := h.inv.fresh id e he
    rw [← w.queue.settled_nextId id e.fd (NetQueue.send rs e data)] at hid
    refine hsettled.overflowed hid fun a ha => ?_
    have hlook := w.queue.elements_settled id id e.fd (NetQueue.send rs e data)
    rw [if_pos rfl] at hlook
    rw [← Option.some.inj (hlook.symm.trans ha)]
    exact hstate.resolve_left fun hsame => hsame.2 hover
  · rw [if_neg hover]
    exact hsettled

theorem Latched.remove (h : Latched ids w) (he : w.queue.elements.lookup id = some e) :
    Latched ids' { w with queue := w.queue.remove id e.fd } := by
  refine h.same (h.inv.remove he) rfl rfl rfl rfl ?_
  intro i a ha
  simp only [Queue.remove, FiniteMap.lookup_erase_eq] at ha
  split_ifs at ha
  exact ⟨a, ha, fun hst => hst⟩

theorem Latched.setElement (h : Latched ids w) (he : w.queue.elements.lookup id = some e)
    (hfd : e'.fd = e.fd) (hst : e.state = .sckError → e'.state = .sckError) :
    Latched ids { w with queue := w.queue.setElement id e' } :=
  h.same (h.inv.setElement he hfd) rfl rfl rfl rfl
    (Queue.keepsErrors_overwrite he (fun i => w.queue.elements_setElement id i e') hst)

/-- A callback for a packet is for an element that has not overflowed. -/
theorem Latched.ready (h : Latched ids w) (he : w.queue.elements.lookup id = some e)
    {called : Called} {resume : NetworkElement → NetworkElement}
    (hpass : ReadyPass e called resume) : Latched ids { w with calling := some (id, called) } := by
  refine ⟨h.inv, h.known, h.error, h.silent, ?_⟩
  intro o ho hown called' hcall
  obtain ⟨hid, _⟩ := Prod.mk.inj (Option.some.inj hcall)
  rw [hid] at he
  exact absurd (h.error o ho hown e he) hpass.not_sckError

/-- An element that is told of while no packet of it is. -/
theorem Latched.returned (h : Latched ids w) (called : Called) (closed : List ElemId)
    (hsilent : ∀ o ∈ w.overflows, ¬ o.OwnPacket → o.element = id →
      (⟨id, called, w.upcoming, closed⟩ : Callback).isClose = true) :
    Latched ids (w.called id called closed) := by
  refine ⟨h.inv, h.known, h.error, ?_, ?_⟩
  · intro o ho hown c hc hel
    rcases mem_drop_concat hc with hold | rfl
    · exact h.silent o ho hown c hold hel
    · exact hsilent o ho hown hel.symm
  · intro o _ _ called' hnone
    simp [World.called] at hnone

theorem Latched.resumed (h : Latched ids w) {called : Called} (closed : List ElemId)
    {resume : NetworkElement → NetworkElement} (hcall : w.calling = some (id, called))
    (hpass : ReadyPass e called resume) (he' : w.queue.elements.lookup id = some e') :
    Latched ids { w.called id called closed with queue := w.queue.setElement id (resume e') } := by
  -- the packet is not one of an element that has overflowed
  have hne : ∀ o ∈ w.overflows, ¬ o.OwnPacket → o.element ≠ id := by
    intro o ho hown heq
    rw [← heq] at hcall
    have hready := h.calling o ho hown called hcall
    rw [hpass.isReady] at hready
    simp at hready
  have hreturned := h.returned called closed fun o ho hown heq => absurd heq (hne o ho hown)
  refine ⟨h.inv.setElement he' (hpass.resume_keeps fd_ignoresReads e'), h.known, ?_,
    hreturned.silent, hreturned.calling⟩
  intro o ho hown a ha
  have ha' : (w.queue.setElement id (resume e')).elements.lookup o.element = some a := ha
  rw [Queue.elements_setElement, if_neg (hne o ho hown)] at ha'
  exact h.error o ho hown a ha'

theorem Latched.rearmed (h : Latched ids w) (he : w.queue.elements.lookup id = some e) :
    Latched ids' { w with queue := w.queue.epollMod e.fd id e.mask } :=
  h.same (h.inv.epollMod (h.inv.owned id e he) e.mask) (Queue.epollMod_nextId _ _ _ _)
    rfl rfl rfl (.of_eq fun _ => by rw [Queue.epollMod_elements])

theorem Latched.closing (h : Latched ids w) (data : CloseData) :
    Latched ids { w with calling := some (id, .onClose data) } := by
  refine ⟨h.inv, h.known, h.error, h.silent, ?_⟩
  intro o _ _ called hcall
  rw [← (Prod.mk.inj (Option.some.inj hcall)).2]
  rfl

theorem Latched.waited (h : Latched ids w) (reported : List (Fd × Events)) :
    Latched ids' { w with queue := (w.queue.epollWait reported).2 } := by
  have hspec := Queue.epollWait_spec h.inv reported
  exact h.same hspec.1 (Queue.epollWait_nextId _ _) rfl rfl rfl
    (.of_eq fun _ => by rw [hspec.2.1])

theorem Latched.put (h : Latched ids w) (fd : Fd) (ptr : ℕ) (state : FiniteStateMachine)
    (added stored : Bool) :
    Latched ids { w with queue := (w.queue.put fd ptr state added stored).2 } := by
  refine ⟨h.inv.put fd ptr state added stored, ?_, ?_, h.silent, h.calling⟩
  · intro o ho
    exact (h.known o ho).trans_le (w.queue.put_nextId_le fd ptr state added stored)
  · intro o ho hown a ha
    have ha' : (w.queue.put fd ptr state added stored).2.elements.lookup o.element = some a := ha
    unfold Queue.put at ha'
    split_ifs at ha'
    · -- the new element has a number of its own
      simp only [FiniteMap.lookup_insert_eq] at ha'
      rw [if_neg (Nat.ne_of_lt (h.known o ho))] at ha'
      exact h.error o ho hown a ha'
    · exact h.error o ho hown a ha'

end

theorem Latched.maintained (handler : NetworkQueueHandler σ) :
    MaintainedAlways (κ := κ) handler Latched where
  kernel k h := ⟨h.inv, h.known, h.error, h.silent, h.calling⟩
  user user h := ⟨h.inv, h.known, h.error, h.silent, h.calling⟩
  upcoming upcoming h := ⟨h.inv, h.known, h.error, h.silent, h.calling⟩
  sent := by
    intro ids w id fd e rs data h hfd he _
    rw [← h.inv.fd_of_mapped hfd he]
    exact h.send he rs data
  closed _ h _ he _ := h.remove he
  read := by
    intro ids w id e count resume r h he hpass
    refine h.setElement he (read_keeps fd_ignoresReads hpass r) ?_
    -- an element in error reads nothing
    intro hst
    rw [processPass_sckError hst] at hpass
    simp at hpass
  ready h he hpass := h.ready he hpass
  resumed closed h hcall hpass he' := h.resumed closed hcall hpass he'
  flushed rs h he _ := h.settled he (flushWriteBuffer_keeps fd_ignoresWrites rs _) fun hst => by
    rwa [flushWriteBuffer_state]
  rearmed h he _ := h.rearmed he
  closing reason h he := h.closing _
  removed := by
    intro rest w id e data closed h _ he
    rw [if_pos (h.inv.owned id e he)]
    exact (h.remove he).returned (.onClose data) closed fun _ _ _ _ => rfl
  inv h := h.inv
  waited reported h := h.waited reported
  put fd ptr state added stored h := h.put fd ptr state added stored
  closedFd h he := h.remove he

/-- Since `w₀` the callbacks for the element of `o` are those in `calls`, as long
as its event is to come or it is `gone` already. -/
structure Since (w₀ : World κ σ) (o : Overflow) (gone : Prop) (all : List ElemId)
    (calls : List Callback) (ids : List ElemId) (w : World κ σ) : Prop where
  latched : Latched ids w
  mem : o ∈ w.overflows
  suffix : ids <:+ all
  dead : gone → ¬ w.queue.Live o.element
  log : o.element ∈ ids ∨ gone → ∃ new, w.log = w₀.log ++ new ∧
    new.filter (fun c => c.element = o.element) = calls

section
variable {w₀ w w' : World κ σ} {o : Overflow} {gone : Prop} {all : List ElemId}
  {calls : List Callback} {ids ids' : List ElemId}

theorem Since.same (h : Since w₀ o gone all calls ids w) (hlatched : Latched ids' w')
    (hover : ∀ o ∈ w.overflows, o ∈ w'.overflows) (hids : ids' <:+ ids)
    (hlive : ∀ id, w'.queue.Live id → w.queue.Live id) (hlog : w'.log = w.log) :
    Since w₀ o gone all calls ids' w' := by
  refine ⟨hlatched, hover o h.mem, hids.trans h.suffix, ?_, ?_⟩
  · intro hgone hl
    exact h.dead hgone (hlive _ hl)
  · intro hcond
    rw [hlog]
    apply h.log
    exact hcond.imp_left fun hmem => hids.subset hmem

/-- A callback for another element. -/
theorem Since.called (h : Since w₀ o gone all calls ids w) (hlatched : Latched ids' w')
    (hover : w'.overflows = w.overflows) (hids : ids' <:+ ids)
    (hlive : ∀ id, w'.queue.Live id → w.queue.Live id) {c : Callback}
    (hlog : w'.log = w.log ++ [c]) (hc : o.element ∈ ids' ∨ gone → c.element ≠ o.element) :
    Since w₀ o gone all calls ids' w' := by
  refine ⟨hlatched, by rw [hover]; exact h.mem, hids.trans h.suffix, ?_, ?_⟩
  · intro hgone hl
    exact h.dead hgone (hlive _ hl)
  · intro hcond
    obtain ⟨new, heq, hcalls⟩ := h.log (hcond.imp_left fun hmem => hids.subset hmem)
    refine ⟨new ++ [c], ?_, ?_⟩
    · rw [hlog, heq, List.append_assoc]
    · rw [List.filter_append, hcalls]
      simp [hc hcond]

/-- The callback for the packet in hand is not one of the element that overflowed. -/
theorem Since.resumed (h : Since w₀ o gone all calls ids w) (hown : ¬ o.OwnPacket) {id : ElemId}
    {e e' : NetworkElement} {called : Called} {resume : NetworkElement → NetworkElement}
    (closed : List ElemId) (hcall : w.calling = some (id, called))
    (hpass : ReadyPass e called resume)
    (he' : w.queue.elements.lookup id = some e')
    (hlatched : Latched ids
      { w.called id called closed with queue := w.queue.setElement id (resume e') }) :
    Since w₀ o gone all calls ids
      { w.called id called closed with queue := w.queue.setElement id (resume e') } := by
  refine h.called hlatched rfl (List.suffix_refl _)
    (fun i hl => (Queue.setElement_live ⟨e', he'⟩ _ i).mp hl) rfl ?_
  intro _ heq
  rw [show id = o.element from heq] at hcall
  have hready := h.latched.calling o h.mem hown called hcall
  rw [hpass.isReady] at hready
  simp at hready

/-- Another element is closed: the one that overflowed has its event still to come, and
only one, or it is gone already. -/
theorem Since.removed {id : ElemId} {rest : List ElemId}
    (h : Since w₀ o gone all calls (id :: rest) w) (hall : all.Nodup) {e : NetworkElement}
    {data : CloseData} (closed : List ElemId)
    (he : w.queue.elements.lookup id = some e) {q : Queue}
    (hq : ∀ i, q.Live i → w.queue.Live i)
    (hlatched : Latched rest { w.called id (.onClose data) closed with queue := q }) :
    Since w₀ o gone all calls rest { w.called id (.onClose data) closed with queue := q } := by
  refine h.called hlatched rfl (List.suffix_cons _ _) hq rfl ?_
  rintro (hmem | hgone) heq
  · have hnodup := h.suffix.sublist.nodup hall
    rw [List.nodup_cons] at hnodup
    rw [show id = o.element from heq] at hnodup
    exact hnodup.1 hmem
  · apply h.dead hgone
    rw [show id = o.element from heq] at he
    exact ⟨e, he⟩

end

theorem Queue.live_settled {q : Queue} {id : ElemId} {e : NetworkElement}
    (he : q.elements.lookup id = some e) (fd : Fd) (o : WriteOutcome) (i : ElemId)
    (h : (q.settled id fd o).Live i) : q.Live i := by
  obtain ⟨a, ha⟩ := h
  rw [Queue.elements_settled] at ha
  split_ifs at ha with heq
  · rw [heq]
    exact ⟨e, he⟩
  · exact ⟨a, ha⟩

theorem Since.maintained (handler : NetworkQueueHandler σ) (w₀ : World κ σ) {o : Overflow}
    (hown : ¬ o.OwnPacket) (gone : Prop) {all : List ElemId} (hall : all.Nodup)
    (calls : List Callback) : Maintained handler (Since w₀ o gone all calls) where
  kernel k h := h.same ((Latched.maintained handler).kernel k h.latched) (fun _ ho => ho)
    (List.suffix_refl _) (fun _ hl => hl) rfl
  user user h := h.same ((Latched.maintained handler).user user h.latched) (fun _ ho => ho)
    (List.suffix_refl _) (fun _ hl => hl) rfl
  upcoming upcoming h := h.same ((Latched.maintained handler).upcoming upcoming h.latched)
    (fun _ ho => ho) (List.suffix_refl _) (fun _ hl => hl) rfl
  sent := by
    intro ids w id fd e rs data h hfd he hret
    refine h.same ((Latched.maintained handler).sent rs data h.latched hfd he hret) ?_
      (List.suffix_refl _) (Queue.live_settled he fd _) rfl
    intro o' ho'
    unfold World.sent
    dsimp only
    split_ifs
    · exact List.mem_append_left _ ho'
    · exact ho'
  closed := by
    intro ids w id fd e hclose h hfd he hmap
    refine h.same ((Latched.maintained handler).closed hclose h.latched hfd he hmap)
      (fun _ ho => ho) (List.suffix_refl _) ?_ rfl
    intro i hl
    exact ((Queue.remove_live _ _ _ _).mp hl).1
  read := by
    intro ids w id e count resume r h he hpass
    exact h.same ((Latched.maintained handler).read r h.latched he hpass) (fun _ ho => ho)
      (List.suffix_refl _) (fun i hl => (Queue.setElement_live ⟨e, he⟩ _ i).mp hl) rfl
  ready := by
    intro ids w id e called resume h he hpass
    exact h.same ((Latched.maintained handler).ready h.latched he hpass) (fun _ ho => ho)
      (List.suffix_refl _) (fun _ hl => hl) rfl
  resumed := by
    intro ids w id e e' called resume closed h hcall hpass he'
    exact h.resumed hown closed hcall hpass he'
      ((Latched.maintained handler).resumed closed h.latched hcall hpass he')
  flushed := by
    intro rest w id e rs h he hret
    exact h.same ((Latched.maintained handler).flushed rs h.latched he hret) (fun _ ho => ho)
      (List.suffix_refl _) (Queue.live_settled he _ _) rfl
  rearmed := by
    intro rest w id e h he hsome
    refine h.same ((Latched.maintained handler).rearmed h.latched he hsome) (fun _ ho => ho)
      (List.suffix_cons _ _) ?_ rfl
    rintro i ⟨a, ha⟩
    rw [Queue.epollMod_elements] at ha
    exact ⟨a, ha⟩
  closing := by
    intro rest w id e reason h he
    exact h.same ((Latched.maintained handler).closing reason h.latched he) (fun _ ho => ho)
      (List.suffix_refl _) (fun _ hl => hl) rfl
  removed := by
    intro rest w id e data closed h hcall he
    refine h.removed hall closed he ?_
      ((Latched.maintained handler).removed closed h.latched hcall he)
    intro i hl
    split_ifs at hl
    · exact ((Queue.remove_live _ _ _ _).mp hl).1
    · exact hl

section
variable (kernel : Kernel κ) {handler : NetworkQueueHandler σ} {fuel : ℕ} {id : ElemId}

/-- `process` does nothing to an element in `SCK_ERROR`. -/
theorem process_sckError {t x : World κ σ}
    (hst : ∀ e, t.queue.elements.lookup id = some e → e.state = .sckError)
    (h : process kernel handler id fuel t = (.ok (), x)) : x = t := by
  cases fuel with
  | zero => simp [process, Exec.fault] at h
  | succ fuel =>
    obtain ⟨flow, y, hy, h₁⟩ := Exec.bind_eq_ok h
    obtain ⟨e, y', he, h₂⟩ := Exec.bind_eq_ok hy
    obtain ⟨rfl, hlook⟩ := (deref_ends (P := (· = t)) id).of_eq rfl he
    rw [processPass_sckError (hst e hlook)] at h₂
    obtain ⟨hflow, hyt⟩ := Prod.mk.inj h₂
    rw [← Except.ok.inj hflow] at h₁
    have hx : y = x := congrArg Prod.snd h₁
    rw [← hx, ← hyt]

theorem onInput_sckError {ev : Events} (hin : ev.epollin = true) {t x : World κ σ}
    {reason : Option CloseReason}
    (hst : ∀ e, t.queue.elements.lookup id = some e → e.state = .sckError)
    (h : onInput kernel handler fuel id ev t = (.ok reason, x)) :
    reason = some .closeError ∧ x = t := by
  unfold onInput at h
  rw [if_pos hin] at h
  obtain ⟨_, y, hy, h₁⟩ := Exec.bind_eq_ok h
  have hyt := process_sckError kernel hst hy
  obtain ⟨e, y', he, h₂⟩ := Exec.bind_eq_ok h₁
  obtain ⟨rfl, hlook⟩ := (deref_ends (P := (· = y)) id).of_eq rfl he
  rw [hyt] at hlook
  obtain ⟨hreason, hx⟩ := Prod.mk.inj h₂
  refine ⟨?_, by rw [← hx, hyt]⟩
  rw [← Except.ok.inj hreason, hst e hlook]
  rfl

/-- Flushing an element that is to be closed does not save it. -/
theorem onOutput_closeError (ev : Events) (log : List Callback) :
    Exec.Ends (fun w : World κ σ => w.log = log) (onOutput kernel id ev (some .closeError))
      fun reason w => reason = some .closeError ∧ w.log = log := by
  apply Exec.Triple.ite
  · intro _
    apply Exec.Triple.bind (deref_ends id)
    intro e
    apply Exec.Triple.bind (Q := fun _ (w : World κ σ) => w.log = log)
    · apply Exec.Triple.next
      intro w hw
      exact hw.1
    · intro rs
      apply Exec.Triple.bind (Q := fun _ (w : World κ σ) => w.log = log)
      · apply settle_ends
        intro w b hw _
        exact hw
      · intro flushed
        apply Exec.Triple.pure
        intro w hw
        refine ⟨?_, hw⟩
        cases flushed <;> rfl
  · intro _
    apply Exec.Triple.pure
    intro w hw
    exact ⟨rfl, hw⟩

theorem closeFor_log {reason : CloseReason} {u w : World κ σ} (hinv : u.queue.Inv)
    (h : closeFor kernel handler id reason u = (.ok (), w)) :
    ∃ c data, c.element = id ∧ c.called = .onClose data ∧ data.reason = reason ∧
      w.log = u.log ++ [c] ∧ ¬ w.queue.Live id := by
  obtain ⟨e, t, he, h₁⟩ := Exec.bind_eq_ok h
  obtain ⟨rfl, _⟩ := (deref_ends (P := (· = u)) id).of_eq rfl he
  obtain ⟨_, v, hcall, h₂⟩ := Exec.bind_eq_ok h₁
  obtain ⟨closed, hlog⟩ := callback_log kernel hinv hcall
  obtain ⟨x, _, hx, _, hv⟩ := (callback_ends kernel (inv_maintained handler).toSteady []
    (fun user hn => hn.onClose user ⟨id, e.ptr, e.fd, reason⟩) (Q := (· = t))
    (by rintro y rfl; exact hinv)).of_eq rfl hcall
  obtain ⟨e', v', he', h₃⟩ := Exec.bind_eq_ok h₂
  obtain ⟨rfl, hlook'⟩ := (deref_ends (P := (· = v)) id).of_eq rfl he'
  have hid : v'.queue.fdToNetworkElement.lookup e'.fd = some id := by
    rw [hv] at hlook' ⊢
    exact hx.owned id e' hlook'
  have hw : (if v'.queue.fdToNetworkElement.lookup e'.fd = some id then
      { v' with queue := v'.queue.remove id e'.fd } else v') = w := congrArg Prod.snd h₃
  rw [if_pos hid] at hw
  refine ⟨⟨id, .onClose ⟨id, e.ptr, e.fd, reason⟩, t.upcoming, closed⟩, ⟨id, e.ptr, e.fd, reason⟩,
    rfl, rfl, rfl, ?_, ?_⟩
  · rw [← hw]
    exact hlog
  · rw [← hw, Queue.remove_live]
    exact fun hl => hl.2 rfl

/-- An input event closes an element in `SCK_ERROR`. -/
theorem handleEvent_sckError {rest closed closed' : List ElemId} {ev : Events} {t w : World κ σ}
    (ht : Latched (id :: rest) t)
    (hst : ∀ e, t.queue.elements.lookup id = some e → e.state = .sckError) (hid : id ∉ closed)
    (hin : ev.epollin = true) (hhup : ev.epollhup = false)
    (h : handleEvent kernel handler fuel id ev closed t = (.ok closed', w)) :
    ∃ c data, c.element = id ∧ c.called = .onClose data ∧ data.reason = .closeError ∧
      w.log = t.log ++ [c] ∧ ¬ w.queue.Live id := by
  unfold handleEvent at h
  rw [if_neg hid] at h
  obtain ⟨afterInput, x, hx, h₁⟩ := Exec.bind_eq_ok h
  obtain ⟨rfl, hxt⟩ := onInput_sckError kernel hin hst hx
  obtain ⟨afterOutput, y, hy, h₂⟩ := Exec.bind_eq_ok h₁
  obtain ⟨rfl, hlog⟩ := (onOutput_closeError kernel ev x.log).of_eq rfl hy
  rw [hxt] at hy hlog
  have hylatched := (onOutput_ends kernel (Latched.maintained handler).toSteady rest id ev _).of_eq
    ht hy
  -- without EPOLLHUP the reason stays CLOSE_ERROR
  have hreason : onErrors ev (some .closeError) = some .closeError := by
    unfold onErrors
    rw [hhup]
    cases ev.epollerr <;> rfl
  rw [hreason] at h₂
  obtain ⟨reason, z, hz, h₃⟩ := Exec.bind_eq_ok h₂
  -- with a reason to close, nothing is rearmed
  obtain ⟨hr, hzy⟩ := Prod.mk.inj (show (Except.ok (some CloseReason.closeError), y) =
    (Except.ok reason, z) from hz)
  rw [← Except.ok.inj hr, ← hzy] at h₃
  obtain ⟨_, w', hclose, h₄⟩ := Exec.bind_eq_ok h₃
  have hw : w' = w := congrArg Prod.snd h₄
  rw [hw] at hclose
  obtain ⟨c, data, hc, hcalled, hreason', hwlog, hdead⟩ :=
    closeFor_log kernel hylatched.inv hclose
  exact ⟨c, data, hc, hcalled, hreason', by rw [hwlog, hlog], hdead⟩

/-- The keys around one entry of a list that has each key once. -/
theorem nodup_around {α β : Type} {pre post : List (α × β)} {a : α} {b : β}
    (h : ((pre ++ (a, b) :: post).map (·.1)).Nodup) :
    (pre.map (·.1)).Nodup ∧ a ∉ pre.map (·.1) ∧ a ∉ post.map (·.1) ∧ (post.map (·.1)).Nodup ∧
      ∀ i ∈ post.map (·.1), i ∉ pre.map (·.1) := by
  rw [List.map_append, List.map_cons, List.nodup_append] at h
  obtain ⟨hpre, hrest, hdisj⟩ := h
  rw [List.nodup_cons] at hrest
  refine ⟨hpre, ?_, hrest.1, hrest.2, ?_⟩
  · intro hmem
    exact hdisj _ hmem _ List.mem_cons_self rfl
  · intro i hi hmem
    exact hdisj _ hmem _ (List.mem_cons_of_mem _ hi) rfl

section
variable {o : Overflow} (hown : ¬ o.OwnPacket) {ev : Events} (hin : ev.epollin = true)
  (hhup : ev.epollhup = false)
include hown hin hhup

/-- Its own event closes the element, and `onClose` is the one callback for it. -/
theorem Since.own_event {w₀ t v : World κ σ} {all post closed closed' : List ElemId}
    (hall : all.Nodup) (ht : Since w₀ o False all [] (o.element :: post) t)
    (hfresh : o.element ∉ closed)
    (hv : handleEvent kernel handler fuel o.element ev closed t = (.ok closed', v)) :
    (∃ c data, c.called = .onClose data ∧ data.reason = .closeError ∧
        Since w₀ o True post [c] post v) ∧
      ∀ i ∈ closed', i = o.element ∨ i ∈ closed := by
  obtain ⟨new, hnew, hnone⟩ := ht.log (Or.inl List.mem_cons_self)
  obtain ⟨c, data, hc, hcalled, hreason, hlog, hdead⟩ := handleEvent_sckError kernel
    ht.latched (ht.latched.error o ht.mem hown) hfresh hin hhup hv
  obtain ⟨hsince, hsub⟩ := (handleEvent_ends kernel
    (Since.maintained handler w₀ hown False hall []) _ fuel o.element ev hfresh).of_eq ht hv
  refine ⟨⟨c, data, hcalled, hreason, ?_⟩, hsub⟩
  refine ⟨hsince.latched, hsince.mem, List.suffix_refl _, fun _ => hdead, fun _ => ?_⟩
  refine ⟨new ++ [c], ?_, ?_⟩
  · rw [hlog, hnew, List.append_assoc]
  · rw [List.filter_append, hnone]
    simp [hc]

/-- The events before its own make no callback for it, and neither do those behind. -/
theorem handleEvents_overflowed {w₀ t w' : World κ σ} {pre post : List (ElemId × Events)}
    (hnodup : ((pre ++ (o.element, ev) :: post).map (·.1)).Nodup)
    (ht : Since w₀ o False ((pre ++ (o.element, ev) :: post).map (·.1)) []
      ((pre ++ (o.element, ev) :: post).map (·.1)) t)
    (h : handleEvents kernel handler fuel (pre ++ (o.element, ev) :: post) [] t = (.ok (), w')) :
    ∃ c data, c.called = .onClose data ∧ data.reason = .closeError ∧
      Since w₀ o True (post.map (·.1)) [c] [] w' := by
  obtain ⟨hpre, hnotpre, hnotpost, hpost, hdisj⟩ := nodup_around hnodup
  have hmaintained := Since.maintained handler w₀ hown False hnodup []
  obtain ⟨closed, u, hu, hrest, hclosed⟩ :=
    handleEvents_until kernel hmaintained hpre (by simp) ht h
  have hsub : ∀ i ∈ closed, i ∈ pre.map (·.1) := fun i hi =>
    (hclosed i hi).resolve_left (by simp)
  obtain ⟨_, s, hs, hevent⟩ := Exec.bind_eq_ok hrest
  obtain ⟨closed', v, hv, hlater⟩ := Exec.bind_eq_ok hevent
  have hus : { u with upcoming := post.map (·.1) } = s := congrArg Prod.snd hs
  have hssince := hmaintained.upcoming (post.map (·.1)) hu
  rw [hus] at hssince
  obtain ⟨⟨c, data, hcalled, hreason, hgone⟩, hsub'⟩ :=
    hssince.own_event kernel hown hin hhup hnodup (fun hmem => hnotpre (hsub _ hmem)) hv
  have hfresh : ∀ i ∈ post.map (·.1), i ∉ closed' := by
    intro i hi hmem
    rcases hsub' i hmem with rfl | hold
    · exact hnotpost hi
    · exact hdisj i hi (hsub i hold)
  rw [← List.append_nil (post.map (·.1))] at hgone
  have hend := (handleEvents_ends kernel (Since.maintained handler w₀ hown True
    (by rwa [List.append_nil]) [c]) fuel [] post hpost hfresh).of_eq hgone hlater
  rw [List.append_nil] at hend
  exact ⟨c, data, hcalled, hreason, hend⟩

/-- A call that reports input for an element that has overflowed makes one
callback for it, `onClose` with `CLOSE_ERROR`, and removes it. -/
theorem waitAndProcess_overflowed {w w' : World κ σ} (hw : Latched [] w) (ho : o ∈ w.overflows)
    {reported : List (Fd × Events)}
    (hev : (o.element, ev) ∈ (w.queue.epollWait (reported.take epollMaxEvents)).1)
    (h : waitAndProcess kernel handler fuel reported w = (.ok (), w')) :
    ∃ new c data, w'.log = w.log ++ new ∧
      new.filter (fun c => c.element = o.element) = [c] ∧ c.called = .onClose data ∧
      data.reason = .closeError ∧ ¬ w'.queue.Live o.element := by
  obtain ⟨batch, t, ht, hevents⟩ := Exec.bind_eq_ok h
  obtain ⟨hbatch, hworld⟩ := Prod.mk.inj (show
    (Except.ok (w.queue.epollWait (reported.take epollMaxEvents)).1,
      { w with queue := (w.queue.epollWait (reported.take epollMaxEvents)).2 }) =
    (Except.ok batch, t) from ht)
  have hnodup := (Queue.epollWait_spec hw.inv (reported.take epollMaxEvents)).2.2.2
  have hlatched := (Latched.maintained handler).waited (reported.take epollMaxEvents) hw
  rw [Except.ok.inj hbatch] at hev hnodup hlatched
  rw [hworld] at hlatched
  obtain ⟨pre, post, rfl⟩ := List.append_of_mem hev
  have hstart : Since w o False ((pre ++ (o.element, ev) :: post).map (·.1)) []
      ((pre ++ (o.element, ev) :: post).map (·.1)) t := by
    refine ⟨hlatched, ?_, List.suffix_refl _, False.elim, fun _ => ⟨[], ?_, rfl⟩⟩
    · rw [← hworld]
      exact ho
    · rw [← hworld, List.append_nil]
  obtain ⟨c, data, hcalled, hreason, hend⟩ :=
    handleEvents_overflowed kernel hown hin hhup hnodup hstart hevents
  obtain ⟨new, hnew, hfilter⟩ := hend.log (Or.inr trivial)
  exact ⟨new, c, data, hnew, hfilter, hcalled, hreason, hend.dead trivial⟩

end

end

def Overflow.later (o : Overflow) (w : World κ σ) : List Callback :=
  w.log.drop (o.callbacks + if o.during = none then 0 else 1)

/-- The overflow is final: the element is in `SCK_ERROR` as long as it is there,
no packet of it has been handed over since, and the next call that reports input
for it calls its `onClose` with `CLOSE_ERROR` and removes it. -/
structure Overflow.Final (o : Overflow) (kernel : Kernel κ) (handler : NetworkQueueHandler σ)
    (fuel : ℕ) (w : World κ σ) : Prop where
  error : ∀ e, w.queue.elements.lookup o.element = some e → e.state = .sckError
  silent : ∀ c ∈ o.later w, c.element = o.element → c.isClose = true
  closes : ∀ reported ev w',
    (o.element, ev) ∈ (w.queue.epollWait (reported.take epollMaxEvents)).1 →
    ev.epollin = true → ev.epollhup = false →
    perform kernel handler fuel (.waitAndProcess reported) w = (.ok (), w') →
    ∃ new c data, w'.log = w.log ++ new ∧
      new.filter (fun c => c.element = o.element) = [c] ∧ c.called = .onClose data ∧
      data.reason = .closeError ∧ ¬ w'.queue.Live o.element

/-- In every run, an overflow outside the callbacks for the element's own packets
is final. -/
theorem overflow_final (kernel : Kernel κ) (handler : NetworkQueueHandler σ) (fuel : ℕ) (k : κ)
    (user : σ) (ops : List QueueOp) {w : World κ σ}
    (h : performAll kernel handler fuel ops (.start k user) = (.ok (), w)) {o : Overflow}
    (ho : o ∈ w.overflows) (hown : ¬ o.OwnPacket) : o.Final kernel handler fuel w := by
  have hstart : Latched [] (World.start k user) := by
    refine ⟨Queue.Inv.empty, ?_, ?_, ?_, ?_⟩
    all_goals
      intro o ho
      simp [World.start] at ho
  have hw := (performAll_ends kernel (Latched.maintained handler) fuel ops).of_eq hstart h
  refine ⟨hw.error o ho hown, ?_, ?_⟩
  · intro c hc
    apply hw.silent o ho hown c
    unfold Overflow.later at hc
    rw [← List.drop_drop] at hc
    exact List.mem_of_mem_drop hc
  · intro reported ev w' hev hin hhup hcall
    exact waitAndProcess_overflowed kernel hown hin hhup hw ho hev hcall

def fullKernel : Kernel (List ReadResult) where
  read
    | [], _, _ => (.eagain, [])
    | r :: rs, _, _ => (r, rs)
  write rs _ := ([.eagain], rs)
  epollMod rs _ := (true, rs)

def replyOnce (data : Bytes) : NetworkQueueHandler Bool where
  onClose user _ := .done user
  onSocketReady user d := if user then .send d.fd data fun _ => .done false else .done false
  onTunReady user _ := .done user

theorem send_overflow {e : NetworkElement} {data : Bytes} (hbuf : e.writeBuffer = [])
    (hlen : writeBufferMax < data.length) :
    send [.eagain] e data =
      ⟨some false, { e with state := .sckError }, [⟨data, .eagain⟩], [], none⟩ := by
  have hne : data ≠ [] := by
    rintro rfl
    simp at hlen
  unfold send sendDirect
  rw [if_neg (not_not_intro hbuf), if_neg hne]
  dsimp only
  rw [if_pos hlen]

theorem sendOn_overflow {w : World (List ReadResult) σ} {id : ElemId} {e : NetworkElement}
    {fd : Fd} {data : Bytes} (hid : w.queue.fdToNetworkElement.lookup fd = some id)
    (he : w.queue.elements.lookup id = some e) (hbuf : e.writeBuffer = [])
    (hlen : writeBufferMax < data.length) :
    sendOn fullKernel fd data w = (.ok false,
      { w with
        queue := w.queue.setElement id { e with state := .sckError }
        overflows := w.overflows ++ [⟨id, w.calling, w.log.length⟩] }) := by
  have hlook : Exec.look (fun w : World (List ReadResult) σ =>
      w.queue.fdToNetworkElement.lookup fd) w = ((.ok (some id) : Except Fault _), w) := by
    rw [← hid]
    rfl
  have hover : (send [.eagain] e data).Overflowed := by
    rw [send_overflow hbuf hlen]
    exact ⟨rfl, by simp [WriteCall.Failed]⟩
  have hnote : noteOverflow id (send [.eagain] e data) w = (.ok (),
      { w with overflows := w.overflows ++ [⟨id, w.calling, w.log.length⟩] }) := by
    simp only [noteOverflow, Exec.change, if_pos hover]
  unfold sendOn
  rw [Exec.bind_ok hlook]
  dsimp only
  rw [Exec.bind_ok (deref_ok he),
    Exec.bind_ok (show writeAnswers fullKernel fd w = (.ok [.eagain], w) from rfl),
    Exec.bind_ok hnote, send_overflow hbuf hlen]
  have he' : ({ w with overflows := w.overflows ++ [⟨id, w.calling, w.log.length⟩] } :
      World (List ReadResult) σ).queue.elements.lookup id = some e := he
  unfold settle
  rw [Exec.bind_ok (assign_ok he' _)]
  rfl

/-- The pass that hands over the packet: the error of the reply is overwritten. -/
theorem processOnce_replyOnce {w : World (List ReadResult) Bool} {id : ElemId}
    {e : NetworkElement} {data : Bytes} (huser : w.user = true)
    (hid : w.queue.fdToNetworkElement.lookup e.fd = some id)
    (he : w.queue.elements.lookup id = some e) (hst : e.state = .sckReady)
    (hbuf : e.writeBuffer = []) (hlen : writeBufferMax < data.length) :
    processOnce fullKernel (replyOnce data) id w = (.ok .again,
      { w with
        queue := (w.queue.setElement id { e with state := .sckError }).setElement id
          { e with netBufferUsed := 0, state := .sckHeader }
        user := false
        calling := none
        log := w.log ++ [⟨id, .onSocketReady (socketData e), w.upcoming, []⟩]
        overflows := w.overflows ++
          [⟨id, some (id, .onSocketReady (socketData e)), w.log.length⟩] }) := by
  let called := Called.onSocketReady (socketData e)
  have hpass : processPass e = .socketReady (socketData e) fun e' =>
      { e' with netBufferUsed := 0, state := .sckHeader } := by
    simp only [processPass, hst]
  have hsend := sendOn_overflow (w := { w with calling := some (id, called) }) hid he hbuf hlen
  let v : World (List ReadResult) Bool := { w with
    queue := w.queue.setElement id { e with state := .sckError }
    user := false
    calling := none
    log := w.log ++ [⟨id, called, w.upcoming, []⟩]
    overflows := w.overflows ++ [⟨id, some (id, called), w.log.length⟩] }
  have hreact : react fullKernel ((replyOnce data).onSocketReady w.user (socketData e)) []
      { w with calling := some (id, called) } = (.ok [], { w with
        queue := w.queue.setElement id { e with state := .sckError }
        user := false
        calling := some (id, called)
        overflows := w.overflows ++ [⟨id, some (id, called), w.log.length⟩] }) := by
    rw [show (replyOnce data).onSocketReady w.user (socketData e) =
      .send e.fd data fun _ => .done false from if_pos huser]
    exact Exec.bind_ok hsend
  have hcallback : callback fullKernel id called
      (fun user => (replyOnce data).onSocketReady user (socketData e)) w = (.ok (), v) := by
    unfold callback
    rw [Exec.bind_ok (show Exec.look World.user w = ((.ok w.user : Except Fault Bool), w) from rfl),
      Exec.bind_ok (show Exec.change (fun w : World (List ReadResult) Bool =>
        { w with calling := some (id, called) }) w =
          ((.ok () : Except Fault Unit), { w with calling := some (id, called) }) from rfl),
      Exec.bind_ok hreact]
    rfl
  have hlook : v.queue.elements.lookup id = some { e with state := .sckError } :=
    lookup_setElement _ _ _
  unfold processOnce
  rw [Exec.bind_ok (deref_ok he), hpass]
  dsimp only
  rw [Exec.bind_ok hcallback, Exec.bind_ok (deref_ok hlook), Exec.bind_ok (assign_ok hlook _)]
  rfl

theorem processOnce_read {kernel : Kernel κ} {handler : NetworkQueueHandler σ} {id : ElemId}
    {w : World κ σ} {e e' : NetworkElement} {count : ℕ}
    {resume : ReadResult → Flow × NetworkElement} {r : ReadResult} {k : κ} {flow : Flow}
    (he : w.queue.elements.lookup id = some e)
    (hpass : processPass e = .read count resume) (hread : kernel.read w.kernel e.fd count = (r, k))
    (hresume : resume r = (flow, e')) :
    processOnce kernel handler id w =
      (.ok flow, { w with kernel := k, queue := w.queue.setElement id e' }) := by
  have hnext : (Exec.next fun w : World κ σ => ((kernel.read w.kernel e.fd count).1,
      { w with kernel := (kernel.read w.kernel e.fd count).2 })) w =
        ((.ok r : Except Fault ReadResult), { w with kernel := k }) := by
    rw [Exec.next_apply, hread]
  have he' : ({ w with kernel := k } : World κ σ).queue.elements.lookup id = some e := he
  unfold processOnce
  rw [Exec.bind_ok (deref_ok he), hpass]
  dsimp only
  rw [Exec.bind_ok hnext, hresume, Exec.bind_ok (assign_ok he' _)]
  rfl

theorem process_again {kernel : Kernel κ} {handler : NetworkQueueHandler σ} {id : ElemId}
    {w w' : World κ σ} (h : processOnce kernel handler id w = (.ok .again, w')) (fuel : ℕ) :
    process kernel handler id (fuel + 1) w = process kernel handler id fuel w' :=
  Exec.bind_ok h

def onePacket : List ReadResult := [.bytes (packetHeader 0 .heartbeat), .bytes []]

def inputEvent : List QueueOp := [.put 5 0 .sckHeader true true,
  .waitAndProcess [(5, ⟨true, false, false, false⟩)]]

def withHeader (used : ℕ) (state : FiniteStateMachine) : NetworkElement :=
  { NetworkElement.new 5 0 state with
    netBufferUsed := used, netBuffer := packetHeader 0 .heartbeat }

/-- A call that reports input for one element, which `process` leaves open. -/
theorem waitAndProcess_input {kernel : Kernel κ} {handler : NetworkQueueHandler σ} {fuel : ℕ}
    {fd : Fd} {id : ElemId} {q : Queue} {w v : World κ σ} {e : NetworkElement}
    (hwait : w.queue.epollWait [(fd, readable false)] = ([(id, readable false)], q))
    (hprocess : process kernel handler id fuel { w with queue := q, upcoming := [] } = (.ok (), v))
    (he : v.queue.elements.lookup id = some e) (hstate : closeReason e.state = none)
    (hmod : (kernel.epollMod v.kernel e.fd).1 = true)
    (hreg : (v.queue.epoll.lookup e.fd).isSome = true) :
    waitAndProcess kernel handler fuel [(fd, readable false)] w = (.ok (), { v with
      kernel := (kernel.epollMod v.kernel e.fd).2
      queue := v.queue.epollMod e.fd id e.mask }) := by
  have hinput : onInput kernel handler fuel id (readable false)
      { w with queue := q, upcoming := [] } = (.ok none, v) := by
    refine (Exec.bind_ok hprocess).trans ((Exec.bind_ok (deref_ok he)).trans ?_)
    rw [Exec.pure_apply, hstate]
  have hrearm : rearm kernel id v = (.ok none, { v with
      kernel := (kernel.epollMod v.kernel e.fd).2
      queue := v.queue.epollMod e.fd id e.mask }) := by
    unfold rearm
    rw [Exec.bind_ok (deref_ok he)]
    refine (Exec.bind_ok (Exec.next_apply _ _)).trans ?_
    rw [hmod, hreg]
    rfl
  have hevent : handleEvent kernel handler fuel id (readable false) []
      { w with queue := q, upcoming := [] } = (.ok [], { v with
        kernel := (kernel.epollMod v.kernel e.fd).2
        queue := v.queue.epollMod e.fd id e.mask }) := by
    unfold handleEvent
    rw [if_neg (by simp), Exec.bind_ok hinput,
      Exec.bind_ok (show onOutput kernel id (readable false) none v = (.ok none, v) from rfl)]
    exact Exec.bind_ok hrearm
  unfold waitAndProcess
  refine (Exec.bind_ok (Exec.next_apply _ _)).trans ?_
  rw [show [(fd, readable false)].take epollMaxEvents = [(fd, readable false)] from rfl, hwait]
  unfold handleEvents
  rw [Exec.bind_ok (Exec.change_apply _ _)]
  exact (Exec.bind_ok hevent).trans rfl

namespace ReplyOnce

def start : World (List ReadResult) Bool where
  queue := (Queue.empty.put 5 0 .sckHeader true true).2
  kernel := onePacket
  user := true
  upcoming := []
  log := []
  calling := none
  overflows := []

def waited : World (List ReadResult) Bool :=
  { start with queue := (start.queue.epollWait [(5, readable false)]).2 }

def headerArrived : World (List ReadResult) Bool :=
  { waited with
    kernel := [.bytes []]
    queue := waited.queue.setElement 0 (withHeader 6 .sckPayload) }

def packetReady : World (List ReadResult) Bool :=
  { headerArrived with
    kernel := []
    queue := headerArrived.queue.setElement 0 (withHeader 6 .sckReady) }

def overflow : Overflow := ⟨0, some (0, .onSocketReady (socketData (withHeader 6 .sckReady))), 0⟩

def replied : World (List ReadResult) Bool :=
  { packetReady with
    queue := (packetReady.queue.setElement 0 (withHeader 6 .sckError)).setElement 0
      (withHeader 0 .sckHeader)
    user := false
    calling := none
    log := [⟨0, .onSocketReady (socketData (withHeader 6 .sckReady)), [], []⟩]
    overflows := [overflow] }

def drained : World (List ReadResult) Bool :=
  { replied with queue := replied.queue.setElement 0 (withHeader 0 .sckHeader) }

theorem process_waited {data : Bytes} (hlen : writeBufferMax < data.length) :
    process fullKernel (replyOnce data) 0 9 waited = (.ok (), drained) := by
  have hheader : processOnce fullKernel (replyOnce data) 0 waited = (.ok .again, headerArrived) :=
    processOnce_read (e := .new 5 0 .sckHeader) rfl rfl rfl (by decide)
  have hpayload : processOnce fullKernel (replyOnce data) 0 headerArrived =
      (.ok .again, packetReady) :=
    processOnce_read (e := withHeader 6 .sckPayload) (lookup_setElement _ _ _) rfl rfl (by decide)
  have hreply : processOnce fullKernel (replyOnce data) 0 packetReady = (.ok .again, replied) :=
    processOnce_replyOnce (e := withHeader 6 .sckReady) rfl rfl (lookup_setElement _ _ _) rfl rfl
      hlen
  have hdrained : processOnce fullKernel (replyOnce data) 0 replied = (.ok .stop, drained) :=
    processOnce_read (e := withHeader 0 .sckHeader) (lookup_setElement _ _ _) rfl rfl rfl
  rw [process_again hheader, process_again hpayload, process_again hreply]
  exact Exec.bind_ok hdrained

end ReplyOnce

/-- The reply overflows, and the element goes back to waiting for a header. -/
theorem performAll_replyOnce {data : Bytes} (hlen : writeBufferMax < data.length) :
    ∃ w o, performAll fullKernel (replyOnce data) 9 inputEvent (.start onePacket true) =
      (.ok (), w) ∧ o ∈ w.overflows ∧
      w.queue.elements.lookup o.element = some (withHeader 0 .sckHeader) := by
  have hlook : ReplyOnce.drained.queue.elements.lookup 0 = some (withHeader 0 .sckHeader) :=
    lookup_setElement _ _ _
  let w : World (List ReadResult) Bool := { ReplyOnce.drained with
    queue := ReplyOnce.drained.queue.epollMod 5 0 .epollin }
  have hready : ReplyOnce.start.queue.epollWait [(5, readable false)] =
      ([(0, readable false)], ReplyOnce.waited.queue) := rfl
  have hwait : perform fullKernel (replyOnce data) 9
      (.waitAndProcess [(5, ⟨true, false, false, false⟩)]) ReplyOnce.start = (.ok (), w) :=
    waitAndProcess_input hready (ReplyOnce.process_waited hlen) hlook rfl rfl rfl
  have hput : perform fullKernel (replyOnce data) 9 (.put 5 0 .sckHeader true true)
      (.start onePacket true) = (.ok (), ReplyOnce.start) := rfl
  refine ⟨w, ReplyOnce.overflow, ?_, List.mem_singleton_self _, ?_⟩
  · show Exec.forEach (perform fullKernel (replyOnce data) 9) inputEvent _ = _
    unfold inputEvent Exec.forEach
    rw [Exec.bind_ok hput]
    unfold Exec.forEach
    rw [Exec.bind_ok hwait]
    rfl
  · show (ReplyOnce.drained.queue.epollMod 5 0 .epollin).elements.lookup 0 = _
    rw [Queue.epollMod_elements]
    exact hlook

theorem tooLong : writeBufferMax < (List.replicate 65537 (0 : UInt8)).length := by
  rw [List.length_replicate]
  decide

theorem performAll_send {data : Bytes} (hlen : writeBufferMax < data.length) :
    ∃ w, performAll fullKernel (replyOnce []) 9 [.put 5 0 .sckHeader true true, .send 5 data]
      (.start onePacket true) = (.ok (), w) ∧ ⟨0, none, 0⟩ ∈ w.overflows := by
  let w₀ : World (List ReadResult) Bool :=
    ⟨(Queue.empty.put 5 0 .sckHeader true true).2, onePacket, true, [], [], none, []⟩
  let w₁ : World (List ReadResult) Bool := { w₀ with
    queue := w₀.queue.setElement 0 (.new 5 0 .sckError), overflows := [⟨0, none, 0⟩] }
  have hsend : sendOn fullKernel 5 data w₀ = (.ok false, w₁) :=
    sendOn_overflow (e := .new 5 0 .sckHeader) rfl rfl rfl hlen
  have hperform : perform fullKernel (replyOnce []) 9 (.send 5 data) w₀ = (.ok (), w₁) :=
    Exec.bind_ok hsend
  have hput : perform fullKernel (replyOnce []) 9 (.put 5 0 .sckHeader true true)
      (.start onePacket true) = (.ok (), w₀) := rfl
  refine ⟨w₁, ?_, List.mem_singleton_self _⟩
  show Exec.forEach (perform fullKernel (replyOnce []) 9) _ _ = _
  unfold Exec.forEach
  rw [Exec.bind_ok hput]
  unfold Exec.forEach
  rw [Exec.bind_ok hperform]
  rfl

/-- As many bytes sent outside of callbacks. -/
theorem overflow_final_outside :
    ∃ w : World (List ReadResult) Bool,
      performAll fullKernel (replyOnce []) 9
        [.put 5 0 .sckHeader true true, .send 5 (List.replicate 65537 0)] (.start onePacket true) =
        (.ok (), w) ∧
      (⟨0, none, 0⟩ : Overflow).Final fullKernel (replyOnce []) 9 w := by
  obtain ⟨w, hrun, ho⟩ := performAll_send tooLong
  refine ⟨w, hrun, overflow_final fullKernel (replyOnce []) 9 onePacket true _ hrun ho ?_⟩
  rintro ⟨called, hduring, _⟩
  simp at hduring

/-- A reply of 65537 bytes to the element's own packet: the error is forgotten. -/
theorem own_packet_overflow_not_final :
    ¬ ∀ (handler : NetworkQueueHandler Bool) (fuel : ℕ) (ops : List QueueOp)
      (w : World (List ReadResult) Bool),
      performAll fullKernel handler fuel ops (.start onePacket true) = (.ok (), w) →
      ∀ o ∈ w.overflows, o.Final fullKernel handler fuel w := by
  intro h
  obtain ⟨w, o, hrun, ho, hlook⟩ := performAll_replyOnce tooLong
  have hst := (h _ 9 inputEvent w hrun o ho).error _ hlook
  simp [withHeader, NetworkElement.new] at hst

end VNet.NetQueue
