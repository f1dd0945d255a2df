import VNet.NetQueue.Lifetime

namespace VNet.NetQueue
open Protocol

variable {κ σ : Type}

/-- `_real_close`; the kernel takes a closed descriptor out of the epoll set. -/
def realClose (fd : Fd) : Run κ σ Unit :=
  Exec.change fun w => { w with queue := { w.queue with epoll := w.queue.epoll.erase fd } }

def deleteElement (id : ElemId) : Run κ σ Unit := do
  let _ ← deref id
  Exec.change fun w =>
    { w with queue := { w.queue with elements := w.queue.elements.erase id } }

/-- The body of the loop in `~NetQueue`. -/
def destroyEntry (entry : Fd × ElemId) : Run κ σ Unit := do
  realClose entry.1
  deleteElement entry.2

/-- `~NetQueue`, on the entries of the map in the order they come. -/
def destroy (entries : List (Fd × ElemId)) : Run κ σ Unit := do
  Exec.forEach destroyEntry entries
  Exec.change fun w => { w with queue := { w.queue with fdToNetworkElement := ∅ } }

def Enumerates (q : Queue) (entries : List (Fd × ElemId)) : Prop :=
  entries.Perm (q.fdToNetworkElement.entries.map fun x => (x.1, x.2))

section
variable {q : Queue} {entries : List (Fd × ElemId)}

theorem Enumerates.mem_iff (h : Enumerates q entries) (fd : Fd) (id : ElemId) :
    (fd, id) ∈ entries ↔ q.fdToNetworkElement.lookup fd = some id := by
  rw [Enumerates] at h
  rw [h.mem_iff, ← Option.mem_def, AList.mem_lookup_iff]
  simp

theorem Enumerates.fds_nodup (h : Enumerates q entries) : (entries.map Prod.fst).Nodup := by
  rw [(h.map Prod.fst).nodup_iff, List.map_map]
  exact q.fdToNetworkElement.nodupKeys

/-- The map has each element under one descriptor. -/
theorem Enumerates.ids_nodup (h : Enumerates q entries) (hq : q.Inv) :
    (entries.map Prod.snd).Nodup := by
  refine (List.Nodup.of_map _ h.fds_nodup).map_on ?_
  rintro ⟨fd, id⟩ hx ⟨fd', id'⟩ hy rfl
  obtain ⟨e, he, hfd⟩ := hq.mapped fd id ((h.mem_iff _ _).mp hx)
  obtain ⟨e', he', hfd'⟩ := hq.mapped fd' id ((h.mem_iff _ _).mp hy)
  rw [he, Option.some.injEq] at he'
  rw [← hfd, ← hfd', he']

theorem Enumerates.mem_ids_iff (h : Enumerates q entries) (hq : q.Inv) (id : ElemId) :
    id ∈ entries.map Prod.snd ↔ q.Live id := by
  constructor
  · intro hmem
    obtain ⟨⟨fd, id'⟩, hx, rfl⟩ := List.mem_map.mp hmem
    obtain ⟨e, he, -⟩ := hq.mapped fd id' ((h.mem_iff _ _).mp hx)
    exact ⟨e, he⟩
  · rintro ⟨e, he⟩
    exact List.mem_map.mpr ⟨(e.fd, id), (h.mem_iff _ _).mpr (hq.owned id e he), rfl⟩

theorem Enumerates.mem_fds_iff (h : Enumerates q entries) (hq : q.Inv) (fd : Fd) :
    fd ∈ entries.map Prod.fst ↔ (q.epoll.lookup fd).isSome := by
  rw [← Option.isSome_map (f := Registration.ptr), hq.registered, Option.isSome_iff_exists]
  simp only [List.mem_map, Prod.exists, exists_and_right, exists_eq_right, h.mem_iff]

structure Released (q : Queue) (done : List (Fd × ElemId)) (w : World κ σ) : Prop where
  elements : ∀ id, w.queue.elements.lookup id =
    if id ∈ done.map Prod.snd then none else q.elements.lookup id
  epoll : ∀ fd, w.queue.epoll.lookup fd =
    if fd ∈ done.map Prod.fst then none else q.epoll.lookup fd

theorem Released.start (w : World κ σ) : Released w.queue [] w where
  elements id := by simp
  epoll fd := by simp

theorem deleteElement_ok {w : World κ σ} {id : ElemId} {e : NetworkElement}
    (he : w.queue.elements.lookup id = some e) : deleteElement id w = (.ok (),
      { w with queue := { w.queue with elements := w.queue.elements.erase id } }) :=
  Exec.bind_ok (deref_ok he)

theorem destroyEntry_ok {w : World κ σ} {entry : Fd × ElemId} {e : NetworkElement}
    (he : w.queue.elements.lookup entry.2 = some e) : destroyEntry entry w = (.ok (),
      { w with queue := { w.queue with
        elements := w.queue.elements.erase entry.2
        epoll := w.queue.epoll.erase entry.1 } }) := by
  have hclose : realClose entry.1 w = (.ok (), { w with queue := { w.queue with
      epoll := w.queue.epoll.erase entry.1 } }) := rfl
  exact (Exec.bind_ok hclose).trans (deleteElement_ok he)

/-- An entry still to come has an element that is allocated. -/
theorem destroyEntry_released {done : List (Fd × ElemId)} {entry : Fd × ElemId}
    (hlive : q.Live entry.2) (hnew : entry.2 ∉ done.map Prod.snd) :
    Exec.Triple (Released (κ := κ) (σ := σ) q done) (destroyEntry entry)
      (fun _ => Released q (done ++ [entry])) fun _ _ => False := by
  intro w hw
  obtain ⟨e, he⟩ := hlive
  have hderef : w.queue.elements.lookup entry.2 = some e := by
    rw [hw.elements, if_neg hnew, he]
  rw [destroyEntry_ok hderef]
  constructor
  · intro id
    simp only [FiniteMap.lookup_erase_eq, hw.elements, List.map_append, List.mem_append,
      List.map_cons, List.map_nil, List.mem_singleton]
    split_ifs <;> simp_all
  · intro fd
    simp only [FiniteMap.lookup_erase_eq, hw.epoll, List.map_append, List.mem_append,
      List.map_cons, List.map_nil, List.mem_singleton]
    split_ifs <;> simp_all

theorem destroy_released (hq : q.Inv) (h : Enumerates q entries) :
    Exec.Triple (Released (κ := κ) (σ := σ) q []) (destroy entries)
      (fun _ => Released q entries) fun _ _ => False := by
  refine .bind (Exec.Triple.forEach_split (I := Released q) (fun done entry rest hall => ?_) []
    entries rfl) fun _ => .change fun w hw => ⟨hw.elements, hw.epoll⟩
  have hids := h.ids_nodup hq
  rw [List.nil_append] at hall
  rw [hall, List.map_append, List.map_cons] at hids
  refine destroyEntry_released ((h.mem_ids_iff hq entry.2).mp ?_) ?_
  · rw [hall]
    simp
  · intro hmem
    exact (List.nodup_append.mp hids).2.2 entry.2 hmem entry.2 List.mem_cons_self rfl

end

variable (kernel : Kernel κ) (handler : NetworkQueueHandler σ) (fuel : ℕ)

/-- The whole life of a queue. After every run of calls that return, whatever the
kernel answers and the handler does, `~NetQueue` deletes no element twice, closes
each descriptor that is registered, each once and no other, and leaves neither an
element nor a registration behind. -/
theorem destroy_releases_all (k : κ) (user : σ) (ops : List QueueOp) {w : World κ σ}
    (h : performAll kernel handler fuel ops (.start k user) = (.ok (), w))
    {entries : List (Fd × ElemId)} (hentries : Enumerates w.queue entries) :
    ∃ w', destroy entries w = (.ok (), w') ∧ (∀ id, ¬ w'.queue.Live id) ∧
      (∀ fd, w'.queue.epoll.lookup fd = none) ∧ (entries.map Prod.fst).Nodup ∧
      ∀ fd, fd ∈ entries.map Prod.fst ↔ (w.queue.epoll.lookup fd).isSome := by
  have hinv : w.queue.Inv := by
    have hstart : Tracked [] (World.start k user) :=
      ⟨Queue.Inv.empty, iff_of_true (by simp [World.Safe, World.start]) (by simp)⟩
    have hend := performAll_tracked kernel handler fuel ops _ hstart
    rw [h] at hend
    exact hend.inv
  obtain ⟨_, w', hrun, hw'⟩ | ⟨_, _, -, hfalse⟩ :=
    (destroy_released hinv hentries).result (Released.start w)
  · refine ⟨w', hrun, ?_, ?_, hentries.fds_nodup, hentries.mem_fds_iff hinv⟩
    · rintro id ⟨e, he⟩
      rw [hw'.elements] at he
      split_ifs at he with hmem
      exact hmem ((hentries.mem_ids_iff hinv id).mpr ⟨e, he⟩)
    · intro fd
      rw [hw'.epoll]
      split_ifs with hmem
      · rfl
      · exact Option.not_isSome_iff_eq_none.mp fun hsome =>
          hmem ((hentries.mem_fds_iff hinv fd).mpr hsome)
  · exact hfalse.elim

/-- Two descriptors, one of them closed before. -/
theorem destroy_releases_all_one_closed :
    let ops : List QueueOp := [.put 4 40 .tunReceive true true, .put 5 50 .sckHeader true true,
      .close 4]
    let w := (performAll scriptedKernel (refuse SocketData.fd) 5 ops (.start authPacket ())).2
    (destroy [(5, 1)] w).1 = .ok () ∧ ∀ id, ¬ (destroy [(5, 1)] w).2.queue.Live id := by
  intro ops w
  have h : performAll scriptedKernel (refuse SocketData.fd) 5 ops (.start authPacket ()) =
      (.ok (), w) := by rfl
  have hentries : Enumerates w.queue [(5, 1)] := .refl _
  obtain ⟨w', hrun, hlive, -⟩ := destroy_releases_all scriptedKernel (refuse SocketData.fd) 5
    authPacket () ops h hentries
  rw [hrun]
  exact ⟨rfl, hlive⟩

end VNet.NetQueue
