import Mathlib.Data.Finset.Insert
import Mathlib.Data.List.AList

/-- A finite table with at most one value per key. -/
abbrev FiniteMap (K V : Type*) := AList fun _ : K => V

namespace FiniteMap

variable {K V : Type*} [DecidableEq K]

theorem lookup_insert_eq (m : FiniteMap K V) (k k' : K) (v : V) :
    (m.insert k v).lookup k' = if k' = k then some v else m.lookup k' := by
  split_ifs with h
  · subst h
    exact AList.lookup_insert m
  · exact AList.lookup_insert_ne h

theorem lookup_erase_eq (m : FiniteMap K V) (k k' : K) :
    (m.erase k).lookup k' = if k' = k then none else m.lookup k' := by
  split_ifs with h
  · subst h
    exact AList.lookup_erase k' m
  · exact AList.lookup_erase_ne h

def filterValues (p : V → Bool) (m : FiniteMap K V) : FiniteMap K V where
  entries := m.entries.filter fun e => p e.2
  nodupKeys := List.NodupKeys.sublist List.filter_sublist m.nodupKeys

theorem lookup_filterValues (p : V → Bool) (m : FiniteMap K V) (k : K) :
    (m.filterValues p).lookup k = (m.lookup k).filter p := by
  apply Option.ext
  intro v
  have hl : v ∈ (m.filterValues p).lookup k ↔ Sigma.mk k v ∈ (m.filterValues p).entries :=
    AList.mem_lookup_iff
  have hr : v ∈ m.lookup k ↔ Sigma.mk k v ∈ m.entries := AList.mem_lookup_iff
  rw [← Option.mem_def, hl]
  simp only [filterValues, List.mem_filter, Option.filter_eq_some_iff]
  rw [← hr, Option.mem_def]

def members [DecidableEq V] (m : FiniteMap K (Finset V)) (k : K) : Finset V := (m.lookup k).getD ∅

def addMember [DecidableEq V] (m : FiniteMap K (Finset V)) (k : K) (v : V) :
    FiniteMap K (Finset V) :=
  m.insert k (insert v (m.members k))

theorem mem_members_addMember [DecidableEq V] (m : FiniteMap K (Finset V)) (k k' : K) (v v' : V) :
    v' ∈ (m.addMember k v).members k' ↔ (k' = k ∧ v' = v) ∨ v' ∈ m.members k' := by
  simp only [members, addMember, lookup_insert_eq]
  split_ifs with h
  · subst h
    simp
  · simp [h]

end FiniteMap
