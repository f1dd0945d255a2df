import Mathlib.Data.List.Perm.Basic
import Mathlib.Data.List.Rotate

namespace Cyclic

/-- The eligible positions among the first `r` from the cursor `k` on, in the
order in which they are met. -/
def ahead (P : ℕ → Bool) (n k r : ℕ) : List ℕ := (((List.range n).rotate k).take r).filter P

variable {P : ℕ → Bool} {n k r : ℕ}

/-- The whole circle from `k` on. -/
theorem map_add_mod (n k : ℕ) :
    (List.range n).map (fun i => (k + i) % n) = (List.range n).rotate k := by
  apply List.ext_getElem
  · simp
  · intro i hi hi'
    simp only [List.getElem_map, List.getElem_range, List.getElem_rotate, List.length_range]
    rw [Nat.add_comm]

theorem ahead_perm (P : ℕ → Bool) (n k : ℕ) :
    (ahead P n k n).Perm ((List.range n).filter P) := by
  have hall : ((List.range n).rotate k).take n = (List.range n).rotate k :=
    List.take_of_length_le (by rw [List.length_rotate, List.length_range])
  rw [ahead, hall]
  exact (List.rotate_perm _ _).filter _

/-- Only the remainder of the cursor matters. -/
theorem rotate_range_congr {i j : ℕ} (h : i % n = j % n) :
    (List.range n).rotate i = (List.range n).rotate j := by
  have hmod : ∀ i, (List.range n).rotate (i % n) = (List.range n).rotate i := by
    intro i
    have hrotate := List.rotate_mod (List.range n) i
    rwa [List.length_range] at hrotate
  rw [← hmod i, h, hmod j]

/-- A turn passes over the first `j` positions and stops at the next; what was
ahead behind it still is. -/
theorem ahead_succ (hr : r ≤ n) {x : ℕ} {t : List ℕ} (h : ahead P n k r = x :: t) :
    ∃ j, j < r ∧ x = (k + j) % n ∧ P x = true ∧ (∀ i < j, P ((k + i) % n) = false) ∧
      ahead P n (x + 1) (r - (j + 1)) = t := by
  obtain ⟨front, back, htake, hfront, hx, rfl⟩ := List.filter_eq_cons_iff.mp h
  have hlen : r = front.length + (back.length + 1) := by
    have hl := congrArg List.length htake
    rw [List.length_take, List.length_rotate, List.length_range, min_eq_left hr,
      List.length_append, List.length_cons] at hl
    exact hl
  -- the positions of the circle from `k` on, up to `x` and behind it
  have hcircle : (List.range n).rotate k =
      front ++ [x] ++ (back ++ ((List.range n).rotate k).drop r) := by
    conv_lhs => rw [← List.take_append_drop r ((List.range n).rotate k), htake]
    simp
  have hget : ∀ i y, (front ++ [x])[i]? = some y → y = (k + i) % n := by
    intro i y hy
    have hi : i < front.length + 1 := by
      have hsome := (List.getElem?_eq_some_iff.mp hy).1
      rwa [List.length_append, List.length_singleton] at hsome
    have hrotate := List.getElem?_rotate (l := List.range n) (n := k) (m := i)
      (by rw [List.length_range]; omega)
    rw [hcircle, List.getElem?_append_left (by simpa using hi), hy, List.length_range,
      List.getElem?_range (Nat.mod_lt _ (by omega)), Option.some.injEq] at hrotate
    rw [hrotate, Nat.add_comm]
  have hpos : x = (k + front.length) % n := hget front.length x (by simp)
  refine ⟨front.length, by omega, hpos, hx, ?_, ?_⟩
  · intro i hi
    have hy : (front ++ [x])[i]? = some front[i] := by
      rw [List.getElem?_append_left hi, List.getElem?_eq_getElem hi]
    rw [← hget i _ hy]
    exact Bool.eq_false_iff.mpr (hfront _ (List.getElem_mem hi))
  · have hcursor : (x + 1) % n = (k + (front ++ [x]).length) % n := by
      rw [hpos, Nat.mod_add_mod, List.length_append, List.length_singleton]
      congr 1
    have hrotate : (List.range n).rotate (x + 1) =
        back ++ ((List.range n).rotate k).drop r ++ (front ++ [x]) := by
      rw [rotate_range_congr hcursor, ← List.rotate_rotate, hcircle, List.rotate_append_length_eq,
        ← hcircle]
    rw [ahead, hrotate, List.append_assoc, List.take_append_of_le_length (by omega),
      List.take_of_length_le (by omega)]

end Cyclic
