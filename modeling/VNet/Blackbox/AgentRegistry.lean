import Mathlib.Data.Finset.Erase
import VNet.Blackbox.Config

namespace VNet.Blackbox

/-- `AgentEntry`, with the number of its allocation in place of its address. -/
structure AgentEntry where
  addr : ℕ
  name : Text
  virtualIpv4 : UInt32
  fd : ℤ
  deriving DecidableEq, Repr

/-- `AgentRegistry`: the three indices, and the entries allocated and not yet
deleted. -/
structure AgentRegistry where
  byIpv4 : FiniteMap UInt32 AgentEntry
  byFd : FiniteMap ℤ AgentEntry
  byName : FiniteMap Text AgentEntry
  live : Finset ℕ
  nextAddr : ℕ

namespace AgentRegistry

def empty : AgentRegistry := ⟨∅, ∅, ∅, ∅, 0⟩

def findByIpv4 (r : AgentRegistry) (ipv4 : UInt32) : Option AgentEntry := r.byIpv4.lookup ipv4

def findByFd (r : AgentRegistry) (fd : ℤ) : Option AgentEntry := r.byFd.lookup fd

def findByName (r : AgentRegistry) (name : Text) : Option AgentEntry := r.byName.lookup name

def removeEntry (r : AgentRegistry) (e : AgentEntry) : AgentRegistry :=
  { r with
    byIpv4 := r.byIpv4.erase e.virtualIpv4
    byFd := r.byFd.erase e.fd
    byName := r.byName.erase e.name
    live := r.live.erase e.addr }

def unregisterByFd (r : AgentRegistry) (fd : ℤ) : AgentRegistry :=
  match r.findByFd fd with
  | none => r
  | some e => r.removeEntry e

def unregisterByName (r : AgentRegistry) (name : Text) : AgentRegistry :=
  match r.findByName name with
  | none => r
  | some e => r.removeEntry e

def addEntry (r : AgentRegistry) (name : Text) (virtualIpv4 : UInt32) (fd : ℤ) :
    AgentEntry × AgentRegistry :=
  let entry : AgentEntry := ⟨r.nextAddr, name, virtualIpv4, fd⟩
  (entry,
    { byIpv4 := r.byIpv4.insert virtualIpv4 entry
      byFd := r.byFd.insert fd entry
      byName := r.byName.insert name entry
      live := insert r.nextAddr r.live
      nextAddr := r.nextAddr + 1 })

/-- `register_agent`; `allocated` tells whether `new (std::nothrow)` got memory.
An entry of the same name is removed first, as `unregister_by_name` does. -/
def registerAgent (r : AgentRegistry) (name : Text) (virtualIpv4 : UInt32) (fd : ℤ)
    (allocated : Bool) : Option AgentEntry × AgentRegistry :=
  let r := r.unregisterByName name
  if allocated then
    let (entry, r) := r.addEntry name virtualIpv4 fd
    (some entry, r)
  else (none, r)

variable (r : AgentRegistry) (e : AgentEntry)

@[simp] theorem findByName_empty (name : Text) : empty.findByName name = none := rfl

@[simp] theorem findByFd_empty (fd : ℤ) : empty.findByFd fd = none := rfl

@[simp] theorem findByIpv4_empty (ip : UInt32) : empty.findByIpv4 ip = none := rfl

theorem findByName_removeEntry (name : Text) :
    (r.removeEntry e).findByName name = if name = e.name then none else r.findByName name :=
  FiniteMap.lookup_erase_eq _ _ _

theorem findByFd_removeEntry (fd : ℤ) :
    (r.removeEntry e).findByFd fd = if fd = e.fd then none else r.findByFd fd :=
  FiniteMap.lookup_erase_eq _ _ _

theorem findByIpv4_removeEntry (ip : UInt32) :
    (r.removeEntry e).findByIpv4 ip = if ip = e.virtualIpv4 then none else r.findByIpv4 ip :=
  FiniteMap.lookup_erase_eq _ _ _

theorem findByName_addEntry (name : Text) (ip : UInt32) (fd : ℤ) (name' : Text) :
    (r.addEntry name ip fd).2.findByName name' =
      if name' = name then some (r.addEntry name ip fd).1 else r.findByName name' :=
  FiniteMap.lookup_insert_eq _ _ _ _

theorem findByFd_addEntry (name : Text) (ip : UInt32) (fd fd' : ℤ) :
    (r.addEntry name ip fd).2.findByFd fd' =
      if fd' = fd then some (r.addEntry name ip fd).1 else r.findByFd fd' :=
  FiniteMap.lookup_insert_eq _ _ _ _

theorem findByIpv4_addEntry (name : Text) (ip : UInt32) (fd : ℤ) (ip' : UInt32) :
    (r.addEntry name ip fd).2.findByIpv4 ip' =
      if ip' = ip then some (r.addEntry name ip fd).1 else r.findByIpv4 ip' :=
  FiniteMap.lookup_insert_eq _ _ _ _

/-- Entries stand under their own keys, and those found by file descriptor or by
address are found by name too. -/
structure Indexed (r : AgentRegistry) : Prop where
  name_eq : ∀ name e, r.findByName name = some e → e.name = name
  fd_eq : ∀ fd e, r.findByFd fd = some e → e.fd = fd
  fd_named : ∀ fd e, r.findByFd fd = some e → r.findByName e.name = some e
  ip_eq : ∀ ip e, r.findByIpv4 ip = some e → e.virtualIpv4 = ip
  ip_named : ∀ ip e, r.findByIpv4 ip = some e → r.findByName e.name = some e

variable {r e}

theorem Indexed.empty : Indexed empty := by
  constructor <;> simp

/-- An entry found under another file descriptor than a named one has another name. -/
theorem Indexed.name_ne_of_fd (h : r.Indexed) (he : r.findByName e.name = some e) {fd : ℤ}
    {e' : AgentEntry} (hfd : fd ≠ e.fd) (he' : r.findByFd fd = some e') : e'.name ≠ e.name := by
  intro hname
  have hsame := h.fd_named fd e' he'
  rw [hname, he, Option.some.injEq] at hsame
  apply hfd
  rw [hsame]
  exact (h.fd_eq fd e' he').symm

/-- An entry found under another address than a named one has another name. -/
theorem Indexed.name_ne_of_ip (h : r.Indexed) (he : r.findByName e.name = some e) {ip : UInt32}
    {e' : AgentEntry} (hip : ip ≠ e.virtualIpv4) (he' : r.findByIpv4 ip = some e') :
    e'.name ≠ e.name := by
  intro hname
  have hsame := h.ip_named ip e' he'
  rw [hname, he, Option.some.injEq] at hsame
  apply hip
  rw [hsame]
  exact (h.ip_eq ip e' he').symm

theorem Indexed.removeEntry (h : r.Indexed) (he : r.findByName e.name = some e) :
    (r.removeEntry e).Indexed := by
  constructor
  · intro name e' he'
    rw [findByName_removeEntry] at he'
    split_ifs at he'
    exact h.name_eq name e' he'
  · intro fd e' he'
    rw [findByFd_removeEntry] at he'
    split_ifs at he'
    exact h.fd_eq fd e' he'
  · intro fd e' he'
    rw [findByFd_removeEntry] at he'
    split_ifs at he' with hfd
    rw [findByName_removeEntry, if_neg (h.name_ne_of_fd he hfd he')]
    exact h.fd_named fd e' he'
  · intro ip e' he'
    rw [findByIpv4_removeEntry] at he'
    split_ifs at he'
    exact h.ip_eq ip e' he'
  · intro ip e' he'
    rw [findByIpv4_removeEntry] at he'
    split_ifs at he' with hip
    rw [findByName_removeEntry, if_neg (h.name_ne_of_ip he hip he')]
    exact h.ip_named ip e' he'

theorem Indexed.findByName_unregisterByName (h : r.Indexed) (name name' : Text) :
    (r.unregisterByName name).findByName name' =
      if name' = name then none else r.findByName name' := by
  unfold AgentRegistry.unregisterByName
  cases he : r.findByName name with
  | none =>
    split_ifs with hname
    · rw [hname, he]
    · rfl
  | some e => rw [findByName_removeEntry, h.name_eq name e he]

/-- A new entry may take over a file descriptor or an address, but not a name. -/
theorem Indexed.addEntry (h : r.Indexed) {name : Text} (hname : r.findByName name = none)
    (ip : UInt32) (fd : ℤ) : (r.addEntry name ip fd).2.Indexed := by
  -- the name is free, so the new entry hides no old one
  have hkeep : ∀ e, r.findByName e.name = some e →
      (r.addEntry name ip fd).2.findByName e.name = some e := by
    intro e he
    have hne : e.name ≠ name := by
      intro heq
      rw [heq, hname] at he
      simp at he
    rw [findByName_addEntry, if_neg hne, he]
  have hnew : (r.addEntry name ip fd).2.findByName (r.addEntry name ip fd).1.name =
      some (r.addEntry name ip fd).1 := by
    rw [findByName_addEntry]
    exact if_pos rfl
  constructor
  · intro name' e he
    rw [findByName_addEntry] at he
    split_ifs at he with heq
    · rw [← Option.some.inj he, heq]
      rfl
    · exact h.name_eq name' e he
  · intro fd' e he
    rw [findByFd_addEntry] at he
    split_ifs at he with heq
    · rw [← Option.some.inj he, heq]
      rfl
    · exact h.fd_eq fd' e he
  · intro fd' e he
    rw [findByFd_addEntry] at he
    split_ifs at he with heq
    · rw [← Option.some.inj he]
      exact hnew
    · exact hkeep e (h.fd_named fd' e he)
  · intro ip' e he
    rw [findByIpv4_addEntry] at he
    split_ifs at he with heq
    · rw [← Option.some.inj he, heq]
      rfl
    · exact h.ip_eq ip' e he
  · intro ip' e he
    rw [findByIpv4_addEntry] at he
    split_ifs at he with heq
    · rw [← Option.some.inj he]
      exact hnew
    · exact hkeep e (h.ip_named ip' e he)

theorem registerAgent_snd (r : AgentRegistry) (name : Text) (ip : UInt32) (fd : ℤ)
    (allocated : Bool) : (r.registerAgent name ip fd allocated).2 =
      if allocated then ((r.unregisterByName name).addEntry name ip fd).2
      else r.unregisterByName name := by
  cases allocated <;> rfl

structure KeptByRemoval (I : AgentRegistry → Prop) : Prop where
  indexed : ∀ r, I r → r.Indexed
  removeEntry : ∀ r e, I r → r.findByName e.name = some e → I (r.removeEntry e)

namespace KeptByRemoval

variable {I : AgentRegistry → Prop}

theorem unregisterByFd (hI : KeptByRemoval I) (h : I r) (fd : ℤ) : I (r.unregisterByFd fd) := by
  unfold AgentRegistry.unregisterByFd
  cases he : r.findByFd fd with
  | none => exact h
  | some e => exact hI.removeEntry r e h ((hI.indexed r h).fd_named fd e he)

theorem unregisterByName (hI : KeptByRemoval I) (h : I r) (name : Text) :
    I (r.unregisterByName name) := by
  unfold AgentRegistry.unregisterByName
  cases he : r.findByName name with
  | none => exact h
  | some e =>
    apply hI.removeEntry r e h
    rw [(hI.indexed r h).name_eq name e he]
    exact he

/-- The entry is added under a name that is free by then. -/
theorem registerAgent (hI : KeptByRemoval I) (h : I r) {name : Text} {ip : UInt32} {fd : ℤ}
    (hadd : ∀ r, I r → r.findByName name = none → I (r.addEntry name ip fd).2)
    (allocated : Bool) : I (r.registerAgent name ip fd allocated).2 := by
  have hold := hI.unregisterByName h name
  rw [registerAgent_snd]
  split_ifs
  · apply hadd _ hold
    rw [(hI.indexed r h).findByName_unregisterByName, if_pos rfl]
  · exact hold

end KeptByRemoval

theorem Indexed.keptByRemoval : KeptByRemoval Indexed where
  indexed _ h := h
  removeEntry _ _ h he := h.removeEntry he

theorem findByName_of_unregisterByFd {fd : ℤ} {name : Text}
    (he : (r.unregisterByFd fd).findByName name = some e) : r.findByName name = some e := by
  unfold AgentRegistry.unregisterByFd at he
  cases hf : r.findByFd fd with
  | none => simpa only [hf] using he
  | some e' =>
    simp only [hf, findByName_removeEntry] at he
    split_ifs at he
    exact he

theorem Indexed.findByFd_of_unregisterByFd (h : r.Indexed) {fd fd' : ℤ}
    (he : (r.unregisterByFd fd).findByFd fd' = some e) : r.findByFd fd' = some e ∧ fd' ≠ fd := by
  unfold AgentRegistry.unregisterByFd at he
  cases hf : r.findByFd fd with
  | none =>
    simp only [hf] at he
    refine ⟨he, ?_⟩
    intro heq
    rw [heq, hf] at he
    simp at he
  | some e' =>
    simp only [hf, findByFd_removeEntry] at he
    split_ifs at he with hne
    rw [h.fd_eq fd e' hf] at hne
    exact ⟨he, hne⟩

theorem Indexed.findByFd_of_unregisterByName (h : r.Indexed) {name : Text} {fd : ℤ}
    (he : (r.unregisterByName name).findByFd fd = some e) :
    r.findByFd fd = some e ∧ e.name ≠ name := by
  unfold AgentRegistry.unregisterByName at he
  cases hn : r.findByName name with
  | none =>
    simp only [hn] at he
    refine ⟨he, ?_⟩
    intro heq
    have hnamed := h.fd_named fd e he
    rw [heq, hn] at hnamed
    simp at hnamed
  | some e' =>
    have hname := h.name_eq name e' hn
    simp only [hn, findByFd_removeEntry] at he
    split_ifs at he with hne
    refine ⟨he, ?_⟩
    rw [← hname] at hn ⊢
    exact h.name_ne_of_fd hn hne he

/-- After a registration, an entry found by name is the new one or an old one. -/
theorem Indexed.findByName_of_registerAgent (h : r.Indexed) {name name' : Text} {ip : UInt32}
    {fd : ℤ} {allocated : Bool}
    (he : (r.registerAgent name ip fd allocated).2.findByName name' = some e) :
    (allocated = true ∧ name' = name ∧ e.virtualIpv4 = ip ∧ e.fd = fd) ∨
      (r.findByName name' = some e ∧ name' ≠ name) := by
  rw [registerAgent_snd] at he
  split_ifs at he with halloc
  · rw [findByName_addEntry, h.findByName_unregisterByName] at he
    split_ifs at he with hname
    · rw [← Option.some.inj he]
      exact Or.inl ⟨halloc, hname, rfl, rfl⟩
    · exact Or.inr ⟨he, hname⟩
  · rw [h.findByName_unregisterByName] at he
    split_ifs at he with hname
    exact Or.inr ⟨he, hname⟩

/-- After a registration, an entry found by file descriptor is the new one or an
old one of another name. -/
theorem Indexed.findByFd_of_registerAgent (h : r.Indexed) {name : Text} {ip : UInt32}
    {fd fd' : ℤ} {allocated : Bool}
    (he : (r.registerAgent name ip fd allocated).2.findByFd fd' = some e) :
    (allocated = true ∧ fd' = fd ∧ e.name = name) ∨
      (r.findByFd fd' = some e ∧ e.name ≠ name ∧ (allocated = true → fd' ≠ fd)) := by
  rw [registerAgent_snd] at he
  split_ifs at he with halloc
  · rw [findByFd_addEntry] at he
    split_ifs at he with hfd
    · rw [← Option.some.inj he]
      exact Or.inl ⟨halloc, hfd, rfl⟩
    · have hold := h.findByFd_of_unregisterByName he
      exact Or.inr ⟨hold.1, hold.2, fun _ => hfd⟩
  · have hold := h.findByFd_of_unregisterByName he
    exact Or.inr ⟨hold.1, hold.2, fun hcon => absurd hcon halloc⟩

end AgentRegistry

end VNet.Blackbox
