import VNet.Blackbox.TwoSwitches

namespace VNet.Blackbox
open VNet.Protocol Config BlackBox

/-- A packet that came in, by number; `sender` is who was registered on the
descriptor it came in on, if an agent sent it. -/
structure Parcel where
  id : ℕ
  sender : Option Text
  raw : Bytes
  deriving DecidableEq, Repr

/-- The switches, the packets on their way between them, and the numbers of
those that are done with. -/
structure Fabric where
  boxes : ℕ → BlackBox
  inFlight : List Parcel
  nextId : ℕ
  done : List ℕ

namespace Fabric

/-- What happens at a switch; `arrive` is the packet at place `n` of those on
their way. -/
inductive Event
  | hook (i : ℕ) (h : Hook)
  | fromAgent (i : ℕ) (fd : ℤ) (raw : Bytes)
  | fromTun (i : ℕ) (raw : Bytes)
  | arrive (n i : ℕ) (link : ℤ)
  | lose (n : ℕ)
  deriving DecidableEq, Repr

def decision (w : Fabric) : Event → Option (Parcel × ℕ × PacketDecision)
  | .fromAgent i fd raw =>
    some (⟨w.nextId, ((w.boxes i).registry.findByFd fd).map AgentEntry.name, raw⟩, i,
      (w.boxes i).process .agent fd raw)
  | .fromTun i raw =>
    some (⟨w.nextId, none, raw⟩, i, (w.boxes i).process .tun (w.boxes i).tunFd raw)
  | .arrive n i link =>
    (w.inFlight[n]?).map fun p => (p, i, (w.boxes i).process .switch link p.raw)
  | _ => none

def settle (w : Fabric) (p : Parcel) (d : PacketDecision) : Fabric :=
  if d.action = .forwardSwitch then { w with inFlight := w.inFlight ++ [p] }
  else { w with done := w.done ++ [p.id] }

def unlink (w : Fabric) (n : ℕ) : Fabric := { w with inFlight := w.inFlight.eraseIdx n }

def step (w : Fabric) (e : Event) : Fabric :=
  match e with
  | .hook i h => { w with boxes := Function.update w.boxes i ((w.boxes i).step h) }
  | .lose n =>
    match w.inFlight[n]? with
    | some p => { w.unlink n with done := w.done ++ [p.id] }
    | none => w
  | .arrive n _ _ =>
    match w.decision e with
    | some (p, _, d) => (w.unlink n).settle p d
    | none => w
  | _ =>
    match w.decision e with
    | some (p, _, d) => { w with nextId := w.nextId + 1 }.settle p d
    | none => w

def start (c : Config) (tunFd : ℕ → ℤ) : Fabric := ⟨fun i => new c (tunFd i), [], 0, []⟩

abbrev run (c : Config) (tunFd : ℕ → ℤ) (es : List Event) : Fabric :=
  Runs.run step (start c tunFd) es

def hooksAt (i : ℕ) (es : List Event) : List Hook :=
  es.filterMap fun e => match e with
    | .hook j h => if j = i then some h else none
    | _ => none

@[simp] theorem settle_boxes (w : Fabric) (p : Parcel) (d : PacketDecision) :
    (w.settle p d).boxes = w.boxes := by
  unfold settle
  split_ifs <;> rfl

@[simp] theorem settle_nextId (w : Fabric) (p : Parcel) (d : PacketDecision) :
    (w.settle p d).nextId = w.nextId := by
  unfold settle
  split_ifs <;> rfl

theorem step_boxes (w : Fabric) (e : Event) (i : ℕ) :
    (w.step e).boxes i = (w.boxes i).run (hooksAt i [e]) := by
  cases e with
  | hook j h =>
    simp only [step, hooksAt, List.filterMap_cons, List.filterMap_nil]
    by_cases hij : j = i
    · subst hij
      rw [if_pos rfl, Function.update_self]
      rfl
    · rw [if_neg hij, Function.update_of_ne (Ne.symm hij)]
      rfl
  | lose n =>
    simp only [step]
    split <;> rfl
  | arrive n j link =>
    simp only [step]
    split
    · rw [settle_boxes]
      rfl
    · rfl
  | _ =>
    simp only [step, decision, settle_boxes]
    rfl

theorem hooksAt_append (i : ℕ) (as bs : List Event) :
    hooksAt i (as ++ bs) = hooksAt i as ++ hooksAt i bs :=
  List.filterMap_append ..

/-- Each switch is in the state that the calls at it lead to. -/
theorem run_boxes (c : Config) (tunFd : ℕ → ℤ) (es : List Event) (i : ℕ) :
    (run c tunFd es).boxes i = (new c (tunFd i)).run (hooksAt i es) := by
  induction es using List.reverseRecOn with
  | nil => rfl
  | append_singleton es e ih =>
    rw [run, Runs.run_concat, step_boxes, ih, hooksAt_append, BlackBox.run, ← Runs.run_append]

/-- Every packet that has come in is on its way or done with, and not both. -/
def Accounted (w : Fabric) : Prop :=
  (w.inFlight.map Parcel.id ++ w.done).Perm (List.range w.nextId)

/-- A packet that is settled joins the others. -/
theorem settle_perm (w : Fabric) (p : Parcel) (d : PacketDecision) :
    ((w.settle p d).inFlight.map Parcel.id ++ (w.settle p d).done).Perm
      (p.id :: (w.inFlight.map Parcel.id ++ w.done)) := by
  unfold settle
  split_ifs
  · simp only [List.map_append, List.map_cons, List.map_nil, List.append_assoc]
    exact List.perm_middle
  · simp only [← List.append_assoc]
    exact List.perm_append_singleton _ _

theorem unlink_perm {w : Fabric} {n : ℕ} {p : Parcel} (h : w.inFlight[n]? = some p) :
    (p.id :: ((w.unlink n).inFlight.map Parcel.id ++ w.done)).Perm
      (w.inFlight.map Parcel.id ++ w.done) := by
  obtain ⟨hn, hp⟩ := List.getElem?_eq_some_iff.mp h
  rw [← List.cons_append]
  refine List.Perm.append_right _ ?_
  have hperm := (List.getElem_cons_eraseIdx_perm hn).map Parcel.id
  rw [hp, List.map_cons] at hperm
  exact hperm

theorem Accounted.step {w : Fabric} (h : w.Accounted) (e : Event) : (w.step e).Accounted := by
  -- a packet that comes in has the next number
  have hnew : ∀ (p : Parcel) (d : PacketDecision), p.id = w.nextId →
      ({ w with nextId := w.nextId + 1 }.settle p d).Accounted := by
    intro p d hid
    rw [Accounted, settle_nextId, List.range_succ]
    refine (settle_perm _ p d).trans ?_
    rw [hid]
    exact (List.Perm.cons _ h).trans (List.perm_append_singleton _ _).symm
  cases e with
  | hook i hk => exact h
  | fromAgent i fd raw => exact hnew _ _ rfl
  | fromTun i raw => exact hnew _ _ rfl
  | arrive n i link =>
    simp only [Fabric.step, decision]
    cases hp : w.inFlight[n]? with
    | none => exact h
    | some p =>
      simp only [Option.map_some]
      rw [Accounted, settle_nextId]
      exact (settle_perm _ p _).trans ((unlink_perm hp).trans h)
  | lose n =>
    simp only [Fabric.step]
    cases hp : w.inFlight[n]? with
    | none => exact h
    | some p =>
      rw [Accounted]
      simp only [← List.append_assoc]
      exact (List.perm_append_singleton _ _).trans ((unlink_perm hp).trans h)

variable (inetPton : Text → Option UInt32)

def Delivers (text : Text) (b : BlackBox) (dst : UInt32) (d : PacketDecision) : Prop :=
  ∃ e, b.registry.findByIpv4 dst = some e ∧ Assigns inetPton text e.name dst ∧
    d = .deliverLocal e.fd

/-- What the file allows to be done with a packet: with one that an agent sent,
what its sender may do; one from the internet goes to an agent with a rule for
where it comes from. -/
def Allowed (text : Text) (b : BlackBox) (hdr : IPv4Header) (d : PacketDecision) :
    Option Text → Prop
  | some name => Assigns inetPton text name hdr.srcIp ∧
      ((AgentPermitted inetPton text name hdr.dstIp ∧ (d.action = .forwardSwitch ∨
          d.action = .requestRoute ∨ Delivers inetPton text b hdr.dstIp d)) ∨
        (InternetPermitted inetPton text b.tunFd name hdr.dstIp ∧ d = .forwardInternet b.tunFd))
  | none => Delivers inetPton text b hdr.dstIp d ∧ ∃ name, Assigns inetPton text name hdr.dstIp ∧
      InternetRule inetPton text name hdr.srcIp

def Cleared (text : Text) (p : Parcel) : Prop :=
  ∃ hdr name, ipv4Parse p.raw = some hdr ∧ p.sender = some name ∧
    Assigns inetPton text name hdr.srcIp ∧ AgentPermitted inetPton text name hdr.dstIp

variable {inetPton} {text : Text} {c : Config}

/-- An entry found by an address is that of the agent the file gives it to. -/
theorem assigns_of_findByIpv4 (hc : Loaded inetPton text c) {b : BlackBox} (hb : b.Registered)
    (hconfig : b.config = c) {ip : UInt32} {e : AgentEntry}
    (he : b.registry.findByIpv4 ip = some e) : Assigns inetPton text e.name ip := by
  have hnamed := hb.indexed.ip_named ip e he
  have hip := hb.ip_eq e.name e hnamed
  have h0 := hb.ip_ne_zero e.name e hnamed
  rw [hconfig] at hip
  rw [hip] at h0
  rw [← hb.indexed.ip_eq ip e he, hip]
  exact assigns_findIpForAgent hc h0

theorem delivers_of_action (hc : Loaded inetPton text c) {b : BlackBox} (hb : b.Registered)
    (hconfig : b.config = c) {source : SourceType} {fd : ℤ} {raw : Bytes} {hdr : IPv4Header}
    (hparse : ipv4Parse raw = some hdr) (h : (b.process source fd raw).action = .deliverLocal) :
    Delivers inetPton text b hdr.dstIp (b.process source fd raw) := by
  rcases b.process_target source fd raw with hdrop | ⟨hdr', hparse', htarget⟩
  · rw [h] at hdrop
    simp at hdrop
  · rw [hparse, Option.some.injEq] at hparse'
    subst hparse'
    rcases htarget with ⟨e, he, hd⟩ | ⟨-, hd⟩ | hd | hd
    · exact ⟨e, he, assigns_of_findByIpv4 hc hb hconfig he, hd⟩
    all_goals
      rw [hd] at h
      simp [PacketDecision.forwardSwitch, PacketDecision.requestRoute,
        PacketDecision.forwardInternet] at h

/-- What a switch does with a packet of an agent is allowed to its sender. -/
theorem allowed_fromAgent (hc : Loaded inetPton text c) (tunFd : ℤ) (hooks : List Hook) {fd : ℤ}
    {raw : Bytes} (h : (((new c tunFd).run hooks).process .agent fd raw).action ≠ .drop) :
    ∃ hdr e, ipv4Parse raw = some hdr ∧
      ((new c tunFd).run hooks).registry.findByFd fd = some e ∧
      Allowed inetPton text ((new c tunFd).run hooks) hdr
        (((new c tunFd).run hooks).process .agent fd raw) (some e.name) := by
  have hreg := run_registered c tunFd hooks
  have hconfig : ((new c tunFd).run hooks).config = c := run_config _ hooks
  generalize hb : (new c tunFd).run hooks = b at h hreg hconfig ⊢
  rcases b.process_agent_cases fd raw with hdrop | ⟨hdr, e, hparse, he, hsrc, hd⟩
  · exact absurd hdrop h
  · have hassign : Assigns inetPton text e.name hdr.srcIp := by
      rw [hsrc]
      rw [← hb] at he
      exact assigns_of_findByFd hc he
    have hroute := routeToDestination_permitted hc hconfig hassign hdr.dstIp
    rw [← hsrc] at hd
    dsimp only at hroute
    rw [← hd] at hroute
    refine ⟨hdr, e, hparse, he, hassign, ?_⟩
    rcases hroute with ⟨hperm, haction⟩ | hinternet | ⟨hdrop, -⟩
    · refine .inl ⟨hperm, ?_⟩
      rcases haction with hlocal | hforward | hrequest
      · exact .inr (.inr (delivers_of_action hc hreg hconfig hparse hlocal))
      · exact .inl hforward
      · exact .inr (.inl hrequest)
    · exact .inr hinternet
    · exact absurd hdrop h

/-- A packet from the internet is delivered to an agent with a rule for it. -/
theorem allowed_fromTun (hc : Loaded inetPton text c) {b : BlackBox} (hb : b.Registered)
    (hconfig : b.config = c) {fd : ℤ} {raw : Bytes} (h : (b.process .tun fd raw).action ≠ .drop) :
    ∃ hdr, ipv4Parse raw = some hdr ∧
      Allowed inetPton text b hdr (b.process .tun fd raw) none := by
  cases hparse : ipv4Parse raw with
  | none =>
    rw [process, hparse] at h
    exact absurd rfl h
  | some hdr =>
    simp only [process, hparse, processFromTun] at h ⊢
    cases he : b.registry.findByIpv4 hdr.dstIp with
    | none =>
      rw [he] at h
      exact absurd rfl h
    | some e =>
      simp only [he] at h ⊢
      cases hacl : b.config.canReachInternetIp hdr.dstIp hdr.srcIp with
      | false =>
        rw [hacl] at h
        exact absurd rfl h
      | true =>
        rw [hconfig, hc.internet_iff] at hacl
        obtain ⟨name, hrule, hname⟩ := hacl
        exact ⟨hdr, rfl, ⟨e, he, assigns_of_findByIpv4 hc hb hconfig he, rfl⟩, name, hname, hrule⟩

/-- A switch passes on what another one has forwarded only to the destination. -/
theorem allowed_arrive (hc : Loaded inetPton text c) {b : BlackBox} (hb : b.Registered)
    (hconfig : b.config = c) {p : Parcel} (hp : Cleared inetPton text p) {link : ℤ}
    (h : (b.process .switch link p.raw).action ≠ .drop) : ∃ hdr, ipv4Parse p.raw = some hdr ∧
      Allowed inetPton text b hdr (b.process .switch link p.raw) p.sender := by
  obtain ⟨hdr, name, hparse, hsender, hassign, hperm⟩ := hp
  have hlocal := (b.process_switch_action link p.raw).resolve_right h
  rw [hsender]
  exact ⟨hdr, hparse, hassign,
    .inl ⟨hperm, .inr (.inr (delivers_of_action hc hb hconfig hparse hlocal))⟩⟩

/-- The packet came in on a descriptor of its sender, or from the internet. -/
def Sent (c : Config) (tunFd : ℕ → ℤ) (es : List Event) (p : Parcel) : Prop :=
  match p.sender with
  | some name => ∃ as i fd bs, es = as ++ .fromAgent i fd p.raw :: bs ∧
      (run c tunFd as).nextId = p.id ∧ LatestOn (new c (tunFd i)) (hooksAt i as) name fd
  | none => ∃ as i bs, es = as ++ .fromTun i p.raw :: bs ∧ (run c tunFd as).nextId = p.id

theorem Sent.snoc {tunFd : ℕ → ℤ} {es : List Event} {p : Parcel} (h : Sent c tunFd es p)
    (e : Event) : Sent c tunFd (es ++ [e]) p := by
  unfold Sent at h ⊢
  cases hp : p.sender with
  | some name =>
    rw [hp] at h
    obtain ⟨as, i, fd, bs, rfl, hid, hlatest⟩ := h
    exact ⟨as, i, fd, bs ++ [e], by simp, hid, hlatest⟩
  | none =>
    rw [hp] at h
    obtain ⟨as, i, bs, rfl, hid⟩ := h
    exact ⟨as, i, bs ++ [e], by simp, hid⟩

def Travelling (inetPton : Text → Option UInt32) (text : Text) (c : Config) (tunFd : ℕ → ℤ)
    (es : List Event) : Prop :=
  ∀ p ∈ (run c tunFd es).inFlight, Cleared inetPton text p ∧ Sent c tunFd es p

/-- What is decided for a packet is allowed, and it was sent. -/
theorem allowed_of_decision (hc : Loaded inetPton text c) {tunFd : ℕ → ℤ} {es : List Event}
    (h : Travelling inetPton text c tunFd es) {e : Event} {p : Parcel} {i : ℕ}
    {d : PacketDecision} (hd : (run c tunFd es).decision e = some (p, i, d))
    (hdrop : d.action ≠ .drop) : Sent c tunFd (es ++ [e]) p ∧ ∃ hdr, ipv4Parse p.raw = some hdr ∧
      Allowed inetPton text ((run c tunFd es).boxes i) hdr d p.sender := by
  have hreg : ∀ j, ((run c tunFd es).boxes j).Registered := by
    intro j
    rw [run_boxes]
    exact run_registered _ _ _
  have hconfig : ∀ j, ((run c tunFd es).boxes j).config = c := by
    intro j
    rw [run_boxes]
    exact run_config _ _
  cases e with
  | fromAgent j fd raw =>
    simp only [decision, Option.some.injEq, Prod.mk.injEq] at hd
    obtain ⟨rfl, rfl, rfl⟩ := hd
    simp only [run_boxes] at hdrop ⊢
    obtain ⟨hdr, entry, hparse, he, hallowed⟩ := allowed_fromAgent hc _ _ hdrop
    simp only [he, Option.map_some]
    exact ⟨⟨es, j, fd, [], rfl, rfl, latestOn_of_findByFd he⟩, hdr, hparse, hallowed⟩
  | fromTun j raw =>
    simp only [decision, Option.some.injEq, Prod.mk.injEq] at hd
    obtain ⟨rfl, rfl, rfl⟩ := hd
    exact ⟨⟨es, j, [], rfl, rfl⟩, allowed_fromTun hc (hreg j) (hconfig j) hdrop⟩
  | arrive n j link =>
    simp only [decision, Option.map_eq_some_iff, Prod.mk.injEq] at hd
    obtain ⟨q, hq, rfl, rfl, rfl⟩ := hd
    obtain ⟨hcleared, hsent⟩ := h q (List.mem_of_getElem? hq)
    exact ⟨hsent.snoc _, allowed_arrive hc (hreg j) (hconfig j) hcleared hdrop⟩
  | hook j hk => simp [decision] at hd
  | lose n => simp [decision] at hd

theorem mem_settle {w : Fabric} {p q : Parcel} {d : PacketDecision}
    (h : q ∈ (w.settle p d).inFlight) :
    q ∈ w.inFlight ∨ (q = p ∧ d.action = .forwardSwitch) := by
  unfold settle at h
  split_ifs at h with hd
  · rcases List.mem_append.mp h with h | h
    · exact .inl h
    · exact .inr ⟨List.mem_singleton.mp h, hd⟩
  · exact .inl h

/-- What is on its way was there before, or has just been forwarded. -/
theorem mem_inFlight_step {w : Fabric} {e : Event} {p : Parcel} (h : p ∈ (w.step e).inFlight) :
    p ∈ w.inFlight ∨ ∃ i d, w.decision e = some (p, i, d) ∧ d.action = .forwardSwitch := by
  cases e with
  | hook i hk => exact .inl h
  | fromAgent i fd raw =>
    refine (mem_settle h).imp_right ?_
    rintro ⟨rfl, hd⟩
    exact ⟨i, _, rfl, hd⟩
  | fromTun i raw =>
    refine (mem_settle h).imp_right ?_
    rintro ⟨rfl, hd⟩
    exact ⟨i, _, rfl, hd⟩
  | arrive n i link =>
    simp only [step, decision] at h ⊢
    cases hq : w.inFlight[n]? with
    | none =>
      rw [hq] at h
      exact .inl h
    | some q =>
      rw [hq] at h
      rcases mem_settle h with h | ⟨rfl, hd⟩
      · exact .inl (List.mem_of_mem_eraseIdx h)
      · exact .inr ⟨i, _, rfl, hd⟩
  | lose n =>
    simp only [step] at h
    split at h
    · exact .inl (List.mem_of_mem_eraseIdx h)
    · exact .inl h

theorem travelling (hc : Loaded inetPton text c) (tunFd : ℕ → ℤ) (es : List Event) :
    Travelling inetPton text c tunFd es := by
  induction es using List.reverseRecOn with
  | nil => exact fun p hp => absurd hp List.not_mem_nil
  | append_singleton es e ih =>
    intro p hp
    rw [run, Runs.run_concat] at hp
    rcases mem_inFlight_step hp with hold | ⟨i, d, hd, haction⟩
    · exact ⟨(ih p hold).1, (ih p hold).2.snoc e⟩
    · obtain ⟨hsent, hdr, hparse, hallowed⟩ := allowed_of_decision hc ih hd (by simp [haction])
      refine ⟨?_, hsent⟩
      cases hsender : p.sender with
      | some name =>
        rw [hsender] at hallowed
        obtain ⟨hassign, ⟨hperm, -⟩ | ⟨-, hinternet⟩⟩ := hallowed
        · exact ⟨hdr, name, hparse, hsender, hassign, hperm⟩
        · rw [hinternet] at haction
          simp [PacketDecision.forwardInternet] at haction
      | none =>
        -- a packet from the internet is not forwarded
        rw [hsender] at hallowed
        obtain ⟨⟨entry, -, -, hlocal⟩, -⟩ := hallowed
        rw [hlocal] at haction
        simp [PacketDecision.deliverLocal] at haction

theorem accounted_run (c : Config) (tunFd : ℕ → ℤ) (es : List Event) :
    (run c tunFd es).Accounted := by
  have hstart : (start c tunFd).Accounted := List.Perm.refl _
  exact Runs.invariant_always (fun _ e h => h.step e) hstart es

theorem Accounted.not_done {w : Fabric} (h : w.Accounted) {p : Parcel} (hp : p ∈ w.inFlight) :
    p.id ∉ w.done ∧ p.id < w.nextId := by
  have hnodup := h.nodup_iff.mpr List.nodup_range
  have hmem := List.mem_map_of_mem (f := Parcel.id) hp
  refine ⟨fun hdone => ?_, List.mem_range.mp (h.subset (List.mem_append_left _ hmem))⟩
  exact (List.nodup_append.mp hnodup).2.2 _ hmem _ hdone rfl

/-- A packet is new when it is processed, or on its way, and then it is not
forwarded again. -/
theorem decision_cases {w : Fabric} {e : Event} {p : Parcel} {i : ℕ} {d : PacketDecision}
    (h : w.decision e = some (p, i, d)) :
    p.id = w.nextId ∨ (p ∈ w.inFlight ∧ d.action ≠ .forwardSwitch) := by
  cases e with
  | fromAgent j fd raw =>
    simp only [decision, Option.some.injEq, Prod.mk.injEq] at h
    exact .inl (by rw [← h.1])
  | fromTun j raw =>
    simp only [decision, Option.some.injEq, Prod.mk.injEq] at h
    exact .inl (by rw [← h.1])
  | arrive n j link =>
    simp only [decision, Option.map_eq_some_iff, Prod.mk.injEq] at h
    obtain ⟨q, hq, rfl, rfl, rfl⟩ := h
    refine .inr ⟨List.mem_of_getElem? hq, ?_⟩
    rcases (w.boxes j).process_switch_action link q.raw with haction | haction
    · simp [haction]
    · simp [haction]
  | hook j hk => simp [decision] at h
  | lose n => simp [decision] at h

structure Later (w w' : Fabric) : Prop where
  done : w.done ⊆ w'.done
  nextId : w.nextId ≤ w'.nextId
  old : ∀ p ∈ w'.inFlight, p.id < w.nextId → p ∈ w.inFlight

theorem Later.refl (w : Fabric) : Later w w := ⟨List.Subset.refl _, le_rfl, fun _ hp _ => hp⟩

theorem Later.trans {w w' w'' : Fabric} (h : Later w w') (h' : Later w' w'') : Later w w'' where
  done := List.Subset.trans h.done h'.done
  nextId := h.nextId.trans h'.nextId
  old p hp hlt := h.old p (h'.old p hp (hlt.trans_le h.nextId)) hlt

theorem later_step (w : Fabric) (e : Event) : Later w (w.step e) := by
  have hold : ∀ p ∈ (w.step e).inFlight, p.id < w.nextId → p ∈ w.inFlight := by
    intro p hp hlt
    rcases mem_inFlight_step hp with hold | ⟨i, d, hd, haction⟩
    · exact hold
    · rcases decision_cases hd with hnew | ⟨hmem, -⟩
      · omega
      · exact hmem
  have hsettle : ∀ (w' : Fabric) (p : Parcel) (d : PacketDecision), w'.done = w.done →
      w.nextId ≤ w'.nextId →
      w.done ⊆ (w'.settle p d).done ∧ w.nextId ≤ (w'.settle p d).nextId := by
    intro w' p d hdone hle
    rw [settle_nextId, ← hdone]
    refine ⟨?_, hle⟩
    unfold settle
    split_ifs
    · exact List.Subset.refl _
    · exact List.subset_append_left _ _
  have hgrows : w.done ⊆ (w.step e).done ∧ w.nextId ≤ (w.step e).nextId := by
    cases e with
    | hook i hk => exact ⟨List.Subset.refl _, le_rfl⟩
    | fromAgent i fd raw => exact hsettle _ _ _ rfl (Nat.le_succ _)
    | fromTun i raw => exact hsettle _ _ _ rfl (Nat.le_succ _)
    | arrive n i link =>
      simp only [step]
      split
      · exact hsettle _ _ _ rfl le_rfl
      · exact ⟨List.Subset.refl _, le_rfl⟩
    | lose n =>
      simp only [step]
      split
      · exact ⟨List.subset_append_left _ _, le_rfl⟩
      · exact ⟨List.Subset.refl _, le_rfl⟩
  exact ⟨hgrows.1, hgrows.2, hold⟩

theorem later_run (c : Config) (tunFd : ℕ → ℤ) (as bs : List Event) :
    Later (run c tunFd as) (run c tunFd (as ++ bs)) := by
  induction bs using List.reverseRecOn with
  | nil =>
    rw [List.append_nil]
    exact .refl _
  | append_singleton bs e ih =>
    have hlast : run c tunFd (as ++ (bs ++ [e])) = (run c tunFd (as ++ bs)).step e := by
      rw [← List.append_assoc, run, Runs.run_concat]
    rw [hlast]
    exact ih.trans (later_step _ e)

/-- After its processing a packet is on its way when it was forwarded, and else
done with. -/
theorem decided {w : Fabric} (hw : w.Accounted) {e : Event} {p : Parcel} {i : ℕ}
    {d : PacketDecision} (h : w.decision e = some (p, i, d)) :
    p.id < (w.step e).nextId ∧ (d.action = .forwardSwitch → p ∈ (w.step e).inFlight) ∧
      (d.action ≠ .forwardSwitch → p.id ∈ (w.step e).done) := by
  have hsettled : ∀ w' : Fabric, p.id < w'.nextId → p.id < (w'.settle p d).nextId ∧
      (d.action = .forwardSwitch → p ∈ (w'.settle p d).inFlight) ∧
      (d.action ≠ .forwardSwitch → p.id ∈ (w'.settle p d).done) := by
    intro w' hlt
    refine ⟨by rw [settle_nextId]; exact hlt, fun haction => ?_, fun haction => ?_⟩
    · rw [settle, if_pos haction]
      exact List.mem_append_right _ (List.mem_singleton_self _)
    · rw [settle, if_neg haction]
      exact List.mem_append_right _ (List.mem_singleton_self _)
  cases e with
  | fromAgent j fd raw =>
    simp only [step, h]
    refine hsettled _ ?_
    simp only [decision, Option.some.injEq, Prod.mk.injEq] at h
    rw [← h.1]
    exact Nat.lt_succ_self _
  | fromTun j raw =>
    simp only [step, h]
    refine hsettled _ ?_
    simp only [decision, Option.some.injEq, Prod.mk.injEq] at h
    rw [← h.1]
    exact Nat.lt_succ_self _
  | arrive n j link =>
    simp only [step, h]
    refine hsettled _ ?_
    simp only [decision, Option.map_eq_some_iff, Prod.mk.injEq] at h
    obtain ⟨q, hq, rfl, -⟩ := h
    exact (hw.not_done (List.mem_of_getElem? hq)).2
  | hook j hk => simp [decision] at h
  | lose n => simp [decision] at h

theorem Accounted.eq_of_id {w : Fabric} (h : w.Accounted) {p q : Parcel} (hp : p ∈ w.inFlight)
    (hq : q ∈ w.inFlight) (hid : p.id = q.id) : p = q := by
  have hnodup := (List.nodup_append.mp (h.nodup_iff.mpr List.nodup_range)).1
  exact List.inj_on_of_nodup_map hnodup hp hq hid

/-- Each packet is on its way or done with, and is processed at most twice: it
is then forwarded by the first switch, and the second one, which gets the same
bytes, does not forward it again. -/
theorem packet_processed_once (c : Config) (tunFd : ℕ → ℤ) (es : List Event) :
    (run c tunFd es).Accounted ∧
    ∀ as e bs, es = as ++ e :: bs → ∀ e' p i d p' i' d',
      (run c tunFd as).decision e = some (p, i, d) →
      (run c tunFd es).decision e' = some (p', i', d') → p.id = p'.id →
      p = p' ∧ d.action = .forwardSwitch ∧ d'.action ≠ .forwardSwitch := by
  refine ⟨accounted_run c tunFd es, ?_⟩
  rintro as e bs rfl e' p i d p' i' d' h h' hid
  obtain ⟨hlt, hforward, hdone⟩ := decided (accounted_run c tunFd as) h
  have hlast : run c tunFd (as ++ [e]) = (run c tunFd as).step e := Runs.run_concat _ _ _
  have hl := later_run c tunFd (as ++ [e]) bs
  rw [List.append_assoc, List.singleton_append, hlast] at hl
  have hacc := accounted_run c tunFd (as ++ [e])
  rw [hlast] at hacc
  rcases decision_cases h' with hnew | ⟨hmem, haction'⟩
  · have hle := hl.nextId
    rw [hid, hnew] at hlt
    omega
  · have hnot := ((accounted_run c tunFd (as ++ e :: bs)).not_done hmem).1
    have haction : d.action = .forwardSwitch := by
      by_contra hne
      rw [← hid] at hnot
      exact hnot (hl.done (hdone hne))
    -- it has been on its way since it was forwarded
    have hmem' := hl.old p' hmem (hid ▸ hlt)
    exact ⟨hacc.eq_of_id (hforward haction) hmem' hid, haction, haction'⟩

theorem Allowed.delivers {b : BlackBox} {hdr : IPv4Header} {d : PacketDecision}
    {sender : Option Text} (h : Allowed inetPton text b hdr d sender)
    (hlocal : d.action = .deliverLocal) : Delivers inetPton text b hdr.dstIp d := by
  cases sender with
  | none => exact h.1
  | some name =>
    obtain ⟨-, ⟨-, hforward | hrequest | hdelivers⟩ | ⟨-, hinternet⟩⟩ := h
    · rw [hlocal] at hforward
      cases hforward
    · rw [hlocal] at hrequest
      cases hrequest
    · exact hdelivers
    · rw [hinternet] at hlocal
      cases hlocal

/-- Where no two agents share a descriptor, the one a packet is delivered to is
registered on the target. -/
theorem Delivers.registered {b : BlackBox} {dst : UInt32} {d : PacketDecision}
    (h : Delivers inetPton text b dst d) (hb : b.registry.Consistent) :
    ∃ e, b.registry.findByFd d.targetFd = some e ∧ Assigns inetPton text e.name dst := by
  obtain ⟨e, he, hassign, rfl⟩ := h
  exact ⟨e, (hb e (.inr (.inr ⟨_, he⟩))).2.1, hassign⟩

/-- Isolation over any number of switches. Whatever the routes, the order of
events and the way of a forwarded packet, what any switch does with a packet is
what the file allows to the agent that sent it from its own address; a packet from
the internet reaches only an agent with a rule for its source. A local delivery is
to the descriptor of the entry under the destination, and at a switch where no
agent was authenticated on the descriptor of another one this is where the agent
authenticated last that has the destination. -/
theorem fabric_isolated (inetPton : Text → Option UInt32) {text : Text} {c₀ c : Config}
    (hload : load inetPton (some text) c₀ = (.ok (), c)) (tunFd : ℕ → ℤ) {es : List Event}
    {e : Event} {p : Parcel} {i : ℕ} {d : PacketDecision}
    (hd : (run c tunFd es).decision e = some (p, i, d)) (hdrop : d.action ≠ .drop) :
    ∃ hdr, ipv4Parse p.raw = some hdr ∧
      Allowed inetPton text ((run c tunFd es).boxes i) hdr d p.sender ∧
      Sent c tunFd (es ++ [e]) p ∧
      (d.action = .deliverLocal →
        Runs.Steps BlackBox.step NoClash (new c (tunFd i)) (hooksAt i es) →
        ∃ name, Assigns inetPton text name hdr.dstIp ∧
          LatestOn (new c (tunFd i)) (hooksAt i es) name d.targetFd) := by
  have hc := load_loaded inetPton hload
  obtain ⟨hsent, hdr, hparse, hallowed⟩ :=
    allowed_of_decision hc (travelling hc tunFd es) hd hdrop
  refine ⟨hdr, hparse, hallowed, hsent, fun hlocal hclash => ?_⟩
  have hdelivers := hallowed.delivers hlocal
  rw [run_boxes] at hdelivers
  have hconsistent := (linked_run hc (tunFd i) hclash).consistent
  obtain ⟨entry, hentry, hassign⟩ := hdelivers.registered hconsistent
  exact ⟨entry.name, hassign, latestOn_of_findByFd hentry⟩

def crossing : List Event :=
  [.hook 0 (.agentAuthenticated ['a'] 5 true), .hook 1 (.agentAuthenticated ['b'] 6 true),
    .hook 0 (.routeUpdate 0x0201000a 9), .fromAgent 0 5 pairPacket]

theorem fabric_isolated_crossing :
    let c := (load pairAddress (some pairFile) .empty).2
    ∃ hdr name, Allowed pairAddress pairFile ((run c (fun _ => -1) crossing).boxes 1) hdr
        (.deliverLocal 6) (some ['a']) ∧
      Sent c (fun _ => -1) (crossing ++ [.arrive 0 1 8]) ⟨0, some ['a'], pairPacket⟩ ∧
      Assigns pairAddress pairFile name hdr.dstIp ∧
      LatestOn (new c (-1)) (hooksAt 1 crossing) name 6 := by
  intro c
  have hload : load pairAddress (some pairFile) .empty = (.ok (), c) := Prod.ext (by decide) rfl
  have hd : (run c (fun _ => -1) crossing).decision (.arrive 0 1 8) =
      some (⟨0, some ['a'], pairPacket⟩, 1, .deliverLocal 6) := by decide +kernel
  obtain ⟨hdr, -, hallowed, hsent, hlatest⟩ :=
    fabric_isolated pairAddress hload (fun _ => -1) hd (by decide)
  have hclash : Runs.Steps BlackBox.step NoClash (new c (-1)) (hooksAt 1 crossing) := by
    refine ⟨fun _ _ entry hentry => ?_, trivial⟩
    exact absurd hentry (by simp [new])
  obtain ⟨name, hassign, hname⟩ := hlatest rfl hclash
  exact ⟨hdr, name, hallowed, hsent, hassign, hname⟩

/-- The first switch forwards the packet, and the second gets the same. -/
theorem packet_processed_once_crossing :
    (run (load pairAddress (some pairFile) .empty).2 (fun _ => -1) crossing).Accounted ∧
    (PacketDecision.deliverLocal 6).action ≠ .forwardSwitch := by
  have h := packet_processed_once (load pairAddress (some pairFile) .empty).2 (fun _ => -1) crossing
  have htwice := h.2 (crossing.take 3) (.fromAgent 0 5 pairPacket) [] rfl (.arrive 0 1 8)
    ⟨0, some ['a'], pairPacket⟩ 0 (.forwardSwitch 9) ⟨0, some ['a'], pairPacket⟩ 1 (.deliverLocal 6)
    (by decide +kernel) (by decide +kernel) rfl
  exact ⟨h.1, htwice.2.2⟩

end Fabric
end VNet.Blackbox
