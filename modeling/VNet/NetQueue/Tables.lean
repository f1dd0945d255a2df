import VNet.NetQueue.Queue

namespace VNet.NetQueue
open Protocol

namespace Queue

def Live (q : Queue) (id : ElemId) : Prop := ∃ e, q.elements.lookup id = some e

/-- The map, the epoll set and the allocated elements describe the same
descriptors, each by its own element. -/
structure Inv (q : Queue) : Prop where
  mapped : ∀ fd id, q.fdToNetworkElement.lookup fd = some id →
    ∃ e, q.elements.lookup id = some e ∧ e.fd = fd
  owned : ∀ id e, q.elements.lookup id = some e → q.fdToNetworkElement.lookup e.fd = some id
  registered : ∀ fd, (q.epoll.lookup fd).map (·.ptr) = q.fdToNetworkElement.lookup fd
  fresh : ∀ id e, q.elements.lookup id = some e → id < q.nextId

theorem Inv.empty : Inv empty where
  mapped fd id h := by simp [Queue.empty] at h
  owned id e h := by simp [Queue.empty] at h
  registered fd := by simp [Queue.empty]
  fresh id e h := by simp [Queue.empty] at h

theorem Inv.setElement {q : Queue} (h : Inv q) {id : ElemId} {e e' : NetworkElement}
    (he : q.elements.lookup id = some e) (hfd : e'.fd = e.fd) : Inv (q.setElement id e') where
  mapped fd i hi := by
    obtain ⟨a, ha, hafd⟩ := h.mapped fd i hi
    simp only [Queue.setElement, FiniteMap.lookup_insert_eq]
    split_ifs with heq
    · subst heq
      rw [he] at ha
      exact ⟨e', rfl, hfd.trans (Option.some.inj ha ▸ hafd)⟩
    · exact ⟨a, ha, hafd⟩
  owned i a hi := by
    simp only [Queue.setElement, FiniteMap.lookup_insert_eq] at hi
    split_ifs at hi with heq
    · obtain rfl := Option.some.inj hi
      subst heq
      rw [hfd]
      exact h.owned i e he
    · exact h.owned i a hi
  registered := h.registered
  fresh i a hi := by
    simp only [Queue.setElement, FiniteMap.lookup_insert_eq] at hi
    split_ifs at hi with heq
    · subst heq
      exact h.fresh i e he
    · exact h.fresh i a hi

theorem setElement_live {q : Queue} {id : ElemId} (h : q.Live id) (e : NetworkElement)
    (i : ElemId) :
    (q.setElement id e).Live i ↔ q.Live i := by
  simp only [Live, setElement, FiniteMap.lookup_insert_eq]
  split_ifs with heq
  · subst heq
    exact iff_of_true ⟨e, rfl⟩ h
  · rfl

theorem Inv.epollMod {q : Queue} (h : Inv q) {id : ElemId} {fd : Fd}
    (hid : q.fdToNetworkElement.lookup fd = some id) (interest : Interest) :
    Inv (q.epollMod fd id interest) := by
  unfold Queue.epollMod
  split
  · exact h
  · refine ⟨h.mapped, h.owned, ?_, h.fresh⟩
    intro f
    simp only [FiniteMap.lookup_insert_eq]
    split_ifs with heq
    · rw [heq, hid]
      rfl
    · exact h.registered f

theorem epollMod_elements (q : Queue) (fd : Fd) (id : ElemId) (interest : Interest) :
    (q.epollMod fd id interest).elements = q.elements := by
  unfold Queue.epollMod
  split <;> rfl

theorem Inv.remove {q : Queue} (h : Inv q) {id : ElemId} {e : NetworkElement}
    (he : q.elements.lookup id = some e) : Inv (q.remove id e.fd) where
  mapped fd i hi := by
    simp only [Queue.remove, FiniteMap.lookup_erase_eq] at hi ⊢
    split_ifs at hi with hfd
    obtain ⟨a, ha, hafd⟩ := h.mapped fd i hi
    refine ⟨a, ?_, hafd⟩
    -- the element removed was on `e.fd` only
    rw [if_neg ?_, ha]
    rintro rfl
    rw [he] at ha
    exact hfd (hafd.symm.trans (Option.some.inj ha ▸ rfl))
  owned i a hi := by
    simp only [Queue.remove, FiniteMap.lookup_erase_eq] at hi ⊢
    split_ifs at hi with hne
    rw [if_neg ?_]
    · exact h.owned i a hi
    · intro hfd
      have h1 := h.owned i a hi
      rw [hfd, h.owned id e he] at h1
      exact hne (Option.some.inj h1).symm
  registered fd := by
    simp only [Queue.remove, FiniteMap.lookup_erase_eq]
    split_ifs
    · rfl
    · exact h.registered fd
  fresh i a hi := by
    simp only [Queue.remove, FiniteMap.lookup_erase_eq] at hi
    split_ifs at hi
    exact h.fresh i a hi

theorem remove_live (q : Queue) (id : ElemId) (fd : Fd) (i : ElemId) :
    (q.remove id fd).Live i ↔ q.Live i ∧ i ≠ id := by
  simp only [Live, remove, FiniteMap.lookup_erase_eq]
  split_ifs with heq <;> simp [heq]

theorem Inv.put {q : Queue} (h : Inv q) (fd : Fd) (ptr : ℕ) (state : FiniteStateMachine)
    (added stored : Bool) : Inv (q.put fd ptr state added stored).2 := by
  unfold Queue.put
  split_ifs with hput
  · obtain ⟨-, hfd, -⟩ := hput
    -- `EPOLL_CTL_ADD` succeeded, so the descriptor was not mapped
    have hnone : q.fdToNetworkElement.lookup fd = none := by
      rw [← h.registered fd, hfd]
      rfl
    refine ⟨?_, ?_, ?_, ?_⟩
    · intro f i hi
      simp only [FiniteMap.lookup_insert_eq] at hi ⊢
      split_ifs at hi with hf
      · obtain rfl := Option.some.inj hi
        rw [if_pos rfl]
        exact ⟨_, rfl, hf.symm⟩
      · obtain ⟨a, ha, hafd⟩ := h.mapped f i hi
        rw [if_neg (Nat.ne_of_lt (h.fresh i a ha))]
        exact ⟨a, ha, hafd⟩
    · intro i a hi
      simp only [FiniteMap.lookup_insert_eq] at hi ⊢
      split_ifs at hi with hid
      · obtain rfl := Option.some.inj hi
        rw [hid]
        exact if_pos rfl
      · rw [if_neg ?_]
        · exact h.owned i a hi
        · intro hafd
          have h1 := h.owned i a hi
          rw [hafd, hnone] at h1
          simp at h1
    · intro f
      simp only [FiniteMap.lookup_insert_eq]
      split_ifs
      · rfl
      · exact h.registered f
    · intro i a hi
      simp only [FiniteMap.lookup_insert_eq] at hi
      split_ifs at hi with hid
      · subst hid
        exact Nat.lt_succ_self _
      · exact (h.fresh i a hi).trans (Nat.lt_succ_self _)
  · exact ⟨h.mapped, h.owned, h.registered, fun i a hi =>
      (h.fresh i a hi).trans (Nat.lt_succ_self _)⟩

/-- `epoll_wait` only disarms; it reports elements that are allocated, each once. -/
theorem epollWait_spec {q : Queue} (h : Inv q) (reported : List (Fd × Events)) :
    Inv (q.epollWait reported).2 ∧ (q.epollWait reported).2.elements = q.elements ∧
      (∀ x ∈ (q.epollWait reported).1, q.Live x.1 ∧
        ∃ fd r, q.epoll.lookup fd = some r ∧ r.ptr = x.1 ∧ r.armed = true) ∧
      ((q.epollWait reported).1.map (·.1)).Nodup := by
  induction reported generalizing q with
  | nil => exact ⟨h, rfl, by simp [epollWait], by simp [epollWait]⟩
  | cons x rest ih =>
    obtain ⟨fd, ev⟩ := x
    unfold epollWait
    split
    · rename_i ptr interest hr
      have hmap : q.fdToNetworkElement.lookup fd = some ptr := by
        rw [← h.registered fd, hr]
        rfl
      have hinv : Inv { q with epoll := q.epoll.insert fd ⟨ptr, interest, false⟩ } := by
        refine ⟨h.mapped, h.owned, ?_, h.fresh⟩
        intro f
        simp only [FiniteMap.lookup_insert_eq]
        split_ifs with heq
        · rw [heq, hmap]
          rfl
        · exact h.registered f
      obtain ⟨h1, h2, h3, h4⟩ := ih hinv
      obtain ⟨e, he, hefd⟩ := h.mapped fd ptr hmap
      -- an armed registration is not the one disarmed here
      have hother : ∀ f r, (q.epoll.insert fd ⟨ptr, interest, false⟩).lookup f = some r →
          r.armed = true → f ≠ fd ∧ q.epoll.lookup f = some r := by
        intro f r hf harmed
        rw [FiniteMap.lookup_insert_eq] at hf
        split_ifs at hf with heq
        · rw [← Option.some.inj hf] at harmed
          simp at harmed
        · exact ⟨heq, hf⟩
      refine ⟨h1, h2, ?_, ?_⟩
      · intro y hy
        rcases List.mem_cons.mp hy with rfl | hy
        · exact ⟨⟨e, he⟩, fd, _, hr, rfl, rfl⟩
        · obtain ⟨hlive, f, r, hf, hptr, harmed⟩ := h3 y hy
          exact ⟨hlive, f, r, (hother f r hf harmed).2, hptr, harmed⟩
      · rw [List.map_cons, List.nodup_cons]
        refine ⟨?_, h4⟩
        intro hmem
        obtain ⟨y, hy, hyptr⟩ := List.mem_map.mp hmem
        obtain ⟨-, f, r, hf, hptr, harmed⟩ := h3 y hy
        obtain ⟨hne, hf⟩ := hother f r hf harmed
        have hmap' : q.fdToNetworkElement.lookup f = some ptr := by
          rw [← h.registered f, hf, Option.map_some, hptr, hyptr]
        obtain ⟨a, ha, hafd⟩ := h.mapped f ptr hmap'
        rw [he] at ha
        exact hne (hafd.symm.trans ((Option.some.inj ha) ▸ hefd))
    · exact ih h

end Queue

variable {κ σ : Type}

theorem deref_ok {w : World κ σ} {id : ElemId} {e : NetworkElement}
    (h : w.queue.elements.lookup id = some e) : deref id w = (.ok e, w) := by
  simp only [deref, h]

theorem assign_ok {w : World κ σ} {id : ElemId} {e : NetworkElement}
    (h : w.queue.elements.lookup id = some e) (e' : NetworkElement) :
    assign id e' w = (.ok (), { w with queue := w.queue.setElement id e' }) :=
  Exec.bind_ok (deref_ok h)

theorem lookup_setElement (q : Queue) (id : ElemId) (e : NetworkElement) :
    (q.setElement id e).elements.lookup id = some e := by
  simp only [Queue.setElement, FiniteMap.lookup_insert_eq, if_pos]

end VNet.NetQueue
