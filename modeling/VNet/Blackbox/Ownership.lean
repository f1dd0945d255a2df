import Mathlib.Data.Finset.Card
import VNet.Blackbox.AgentRegistry
import VNet.Lib.Runs

namespace VNet.Blackbox

inductive RegistryCall
  | registerAgent (name : Text) (virtualIpv4 : UInt32) (fd : ℤ) (allocated : Bool)
  | unregisterByFd (fd : ℤ)
  | unregisterByName (name : Text)
  deriving DecidableEq, Repr

namespace AgentRegistry

def step (r : AgentRegistry) : RegistryCall → AgentRegistry
  | .registerAgent name ip fd allocated => (r.registerAgent name ip fd allocated).2
  | .unregisterByFd fd => r.unregisterByFd fd
  | .unregisterByName name => r.unregisterByName name

def run (calls : List RegistryCall) : AgentRegistry := Runs.run step empty calls

def size (r : AgentRegistry) : ℕ := r.byName.entries.length

def destructorDeletes (r : AgentRegistry) : List ℕ := r.byName.entries.map fun x => x.2.addr

def destroy (r : AgentRegistry) : AgentRegistry where
  byIpv4 := ∅
  byFd := ∅
  byName := ∅
  live := r.destructorDeletes.foldl Finset.erase r.live
  nextAddr := r.nextAddr

/-- The index of names has every entry that is allocated and not deleted, each
under one name, and no others. -/
structure Accounted (r : AgentRegistry) : Prop where
  indexed : r.Indexed
  named_live : ∀ name e, r.findByName name = some e → e.addr ∈ r.live
  live_named : ∀ a ∈ r.live, ∃ name e, r.findByName name = some e ∧ e.addr = a
  addr_inj : ∀ name name' e e', r.findByName name = some e → r.findByName name' = some e' →
    e.addr = e'.addr → name = name'
  fresh : ∀ a ∈ r.live, a < r.nextAddr

variable {r : AgentRegistry} {e : AgentEntry}

theorem Accounted.empty : Accounted empty where
  indexed := .empty
  named_live := by simp
  live_named a ha := by simp [AgentRegistry.empty] at ha
  addr_inj := by simp
  fresh a ha := by simp [AgentRegistry.empty] at ha

theorem findByName_removeEntry_eq_some {name : Text} {e' : AgentEntry} :
    (r.removeEntry e).findByName name = some e' ↔ name ≠ e.name ∧ r.findByName name = some e' := by
  rw [findByName_removeEntry]
  split_ifs with hname
  · simp [hname]
  · simp [hname]

/-- Removing an entry that is found by its name. -/
theorem Accounted.removeEntry (h : r.Accounted) (he : r.findByName e.name = some e) :
    (r.removeEntry e).Accounted where
  indexed := h.indexed.removeEntry he
  named_live name e' he' := by
    obtain ⟨hname, hold⟩ := findByName_removeEntry_eq_some.mp he'
    refine Finset.mem_erase.mpr ⟨fun haddr => ?_, h.named_live name e' hold⟩
    exact hname (h.addr_inj name e.name e' e hold he haddr)
  live_named a ha := by
    obtain ⟨hne, hlive⟩ := Finset.mem_erase.mp ha
    obtain ⟨name, e', he', rfl⟩ := h.live_named a hlive
    refine ⟨name, e', findByName_removeEntry_eq_some.mpr ⟨fun hname => ?_, he'⟩, rfl⟩
    rw [hname, he, Option.some.injEq] at he'
    exact hne (congrArg AgentEntry.addr he'.symm)
  addr_inj name name' e₁ e₂ h₁ h₂ :=
    h.addr_inj name name' e₁ e₂ (findByName_removeEntry_eq_some.mp h₁).2
      (findByName_removeEntry_eq_some.mp h₂).2
  fresh a ha := h.fresh a (Finset.mem_of_mem_erase ha)

/-- A new entry has an address of its own. -/
theorem Accounted.addEntry (h : r.Accounted) {name : Text} (hname : r.findByName name = none)
    (ip : UInt32) (fd : ℤ) : (r.addEntry name ip fd).2.Accounted := by
  have hold : ∀ name' e, r.findByName name' = some e → e.addr ≠ r.nextAddr :=
    fun name' e he => (h.fresh _ (h.named_live name' e he)).ne
  have hfind : ∀ name' e, (r.addEntry name ip fd).2.findByName name' = some e →
      (name' = name ∧ e = (r.addEntry name ip fd).1) ∨ r.findByName name' = some e := by
    intro name' e he
    rw [findByName_addEntry] at he
    split_ifs at he with heq
    · exact Or.inl ⟨heq, (Option.some.inj he).symm⟩
    · exact Or.inr he
  constructor
  · exact h.indexed.addEntry hname ip fd
  · intro name' e he
    rcases hfind name' e he with ⟨-, rfl⟩ | he
    · exact Finset.mem_insert_self _ _
    · exact Finset.mem_insert_of_mem (h.named_live name' e he)
  · intro a ha
    rcases Finset.mem_insert.mp ha with rfl | ha
    · refine ⟨name, (r.addEntry name ip fd).1, ?_, rfl⟩
      rw [findByName_addEntry, if_pos rfl]
    · obtain ⟨name', e, he, rfl⟩ := h.live_named a ha
      refine ⟨name', e, ?_, rfl⟩
      have hne : name' ≠ name := by
        rintro rfl
        rw [hname] at he
        simp at he
      rw [findByName_addEntry, if_neg hne, he]
  · intro name₁ name₂ e₁ e₂ h₁ h₂ haddr
    rcases hfind name₁ e₁ h₁ with ⟨hnew₁, heq₁⟩ | hold₁
    · rcases hfind name₂ e₂ h₂ with ⟨hnew₂, -⟩ | hold₂
      · rw [hnew₁, hnew₂]
      · rw [heq₁] at haddr
        exact absurd haddr.symm (hold name₂ e₂ hold₂)
    · rcases hfind name₂ e₂ h₂ with ⟨-, heq₂⟩ | hold₂
      · rw [heq₂] at haddr
        exact absurd haddr (hold name₁ e₁ hold₁)
      · exact h.addr_inj name₁ name₂ e₁ e₂ hold₁ hold₂ haddr
  · intro a ha
    rcases Finset.mem_insert.mp ha with rfl | ha
    · exact Nat.lt_succ_self _
    · exact (h.fresh a ha).trans (Nat.lt_succ_self _)

theorem Accounted.keptByRemoval : KeptByRemoval Accounted where
  indexed _ h := h.indexed
  removeEntry _ _ h he := h.removeEntry he

theorem Accounted.step (h : r.Accounted) (call : RegistryCall) : (r.step call).Accounted := by
  cases call with
  | registerAgent name ip fd allocated =>
    apply Accounted.keptByRemoval.registerAgent h
    intro r h hname
    exact h.addEntry hname ip fd
  | unregisterByFd fd => exact Accounted.keptByRemoval.unregisterByFd h fd
  | unregisterByName name => exact Accounted.keptByRemoval.unregisterByName h name

theorem Accounted.run (calls : List RegistryCall) : (run calls).Accounted :=
  Runs.invariant_always (fun _ call h => h.step call) .empty calls

theorem mem_entries_iff {x : Σ _ : Text, AgentEntry} :
    x ∈ r.byName.entries ↔ r.findByName x.1 = some x.2 :=
  AList.mem_lookup_iff.symm

theorem Accounted.mem_destructorDeletes (h : r.Accounted) (a : ℕ) :
    a ∈ r.destructorDeletes ↔ a ∈ r.live := by
  rw [destructorDeletes, List.mem_map]
  constructor
  · rintro ⟨x, hx, rfl⟩
    exact h.named_live x.1 x.2 (mem_entries_iff.mp hx)
  · intro ha
    obtain ⟨name, e, he, rfl⟩ := h.live_named a ha
    exact ⟨⟨name, e⟩, mem_entries_iff.mpr he, rfl⟩

theorem Accounted.destructorDeletes_nodup (h : r.Accounted) : r.destructorDeletes.Nodup := by
  refine List.Nodup.map_on (fun x hx y hy haddr => ?_) r.byName.nodupKeys.nodup
  have hx' := mem_entries_iff.mp hx
  have hy' := mem_entries_iff.mp hy
  have hname : x.1 = y.1 := h.addr_inj x.1 y.1 x.2 y.2 hx' hy' haddr
  rw [hname, hy', Option.some.injEq] at hx'
  exact Sigma.ext hname (heq_of_eq hx'.symm)

theorem Accounted.size_eq (h : r.Accounted) : r.size = r.live.card := by
  have hlive : r.live = r.destructorDeletes.toFinset := by
    apply Finset.ext
    intro a
    rw [List.mem_toFinset, h.mem_destructorDeletes]
  rw [hlive, List.toFinset_card_of_nodup h.destructorDeletes_nodup, destructorDeletes,
    List.length_map, size]

theorem foldl_erase_eq_empty {as : List ℕ} {live : Finset ℕ} (h : ∀ a ∈ live, a ∈ as) :
    as.foldl Finset.erase live = ∅ := by
  induction as generalizing live with
  | nil => exact Finset.eq_empty_of_forall_notMem fun a ha => by simpa using h a ha
  | cons a as ih =>
    apply ih
    intro b hb
    obtain ⟨hne, hlive⟩ := Finset.mem_erase.mp hb
    exact (List.mem_cons.mp (h b hlive)).resolve_left hne

/-- After any calls, with names that may share addresses and file descriptors:
what an index finds is allocated, not deleted, and stands under its own key; the
index of names has every such entry exactly once, so `size` counts them and the
destructor deletes each of them once. -/
theorem registry_accounts_for_entries (calls : List RegistryCall) :
    let r := run calls
    (∀ name e, r.findByName name = some e → e.addr ∈ r.live ∧ e.name = name) ∧
    (∀ fd e, r.findByFd fd = some e → e.addr ∈ r.live ∧ e.fd = fd) ∧
    (∀ ip e, r.findByIpv4 ip = some e → e.addr ∈ r.live ∧ e.virtualIpv4 = ip) ∧
    (∀ a ∈ r.live, ∃! name, ∃ e, r.findByName name = some e ∧ e.addr = a) ∧
    r.size = r.live.card ∧ r.destructorDeletes.Nodup ∧
    (∀ a, a ∈ r.destructorDeletes ↔ a ∈ r.live) ∧ r.destroy.live = ∅ := by
  intro r
  have h : r.Accounted := .run calls
  refine ⟨fun name e he => ?_, fun fd e he => ?_, fun ip e he => ?_, fun a ha => ?_, h.size_eq,
    h.destructorDeletes_nodup, h.mem_destructorDeletes, ?_⟩
  · exact ⟨h.named_live name e he, h.indexed.name_eq name e he⟩
  · exact ⟨h.named_live _ e (h.indexed.fd_named fd e he), h.indexed.fd_eq fd e he⟩
  · exact ⟨h.named_live _ e (h.indexed.ip_named ip e he), h.indexed.ip_eq ip e he⟩
  · obtain ⟨name, e, he, haddr⟩ := h.live_named a ha
    refine ⟨name, ⟨e, he, haddr⟩, ?_⟩
    rintro name' ⟨e', he', haddr'⟩
    exact h.addr_inj name' name e' e he' he (haddr'.trans haddr.symm)
  · exact foldl_erase_eq_empty fun a ha => (h.mem_destructorDeletes a).mpr ha

end AgentRegistry

end VNet.Blackbox
