import VNet.Conductor.Transitions
import VNet.Lib.Cyclic

namespace VNet.Conductor
open Protocol NetQueue

variable {s : Program} {network : Text}

def pickSwitches (network : Text) : ℕ → Run (List (Option ℕ))
  | 0 => pure []
  | k + 1 => do
    let sw ← pickSwitch network
    let rest ← pickSwitches network k
    pure (sw :: rest)

/-- The switch at a position of `switches` is one that the agent can reach. -/
def reachableAt (network : Text) (s : Program) (i : ℕ) : Bool :=
  match s.infos.lookup (s.state.switches.getD i 0) with
  | some sw => reachable network sw
  | none => false

theorem reachableAt_eq (network : Text) (halive : SwitchesAlive s) {i : ℕ}
    (hi : i < s.state.switches.length) :
    ∃ sw, s.infos.lookup (s.state.switches.getD i 0) = some sw ∧
      reachableAt network s i = reachable network sw := by
  have hmem : s.state.switches.getD i 0 ∈ s.state.switches := by
    rw [List.getD_eq_getElem _ _ hi]
    exact List.getElem_mem hi
  obtain ⟨sw, hsw⟩ := halive _ hmem
  refine ⟨sw, hsw, ?_⟩
  simp only [reachableAt, hsw]

/-- Rounds in which the loop meets a switch out of reach leave no trace. -/
theorem pickFrom_append (halive : SwitchesAlive s) (hne : s.state.switches ≠ []) {start : ℕ}
    {before : List ℕ} (hbefore : ∀ i ∈ before,
      reachableAt network s ((start + i) % sizeRange % s.state.switches.length) = false)
    (is : List ℕ) :
    pickFrom network s.state.switches start (before ++ is) s =
      pickFrom network s.state.switches start is s := by
  have hpos : 0 < s.state.switches.length := List.length_pos_iff.mpr hne
  induction before with
  | nil => rfl
  | cons i before ih =>
    obtain ⟨sw, hsw, hreach⟩ := reachableAt_eq network halive
      (Nat.mod_lt ((start + i) % sizeRange) hpos)
    have hno := hbefore i List.mem_cons_self
    rw [hreach] at hno
    rw [List.cons_append, pickFrom, Exec.bind_ok (Server.deref_ok hsw), if_neg (by simp [hno])]
    exact ih fun i' hi' => hbefore i' (List.mem_cons_of_mem _ hi')

theorem pickSwitch_eq (hne : s.state.switches ≠ []) {p : ℕ} {s' : Program}
    (h : pickFrom network s.state.switches s.state.rrIndex
      (List.range s.state.switches.length) s = (.ok p, s')) :
    pickSwitch network s = (.ok (some p), s') := by
  rw [pickSwitch, Exec.bind_ok (Server.look_apply s), if_neg hne, Exec.bind_ok h]
  rfl

/-- The call returns the first switch in reach from `rr_index` on, and leaves
`rr_index` behind it. -/
theorem pickSwitch_turn (halive : SwitchesAlive s) {r x : ℕ} {t : List ℕ}
    (hr : r ≤ s.state.switches.length) (hcursor : s.state.rrIndex + r < sizeRange)
    (hlen : s.state.switches.length < sizeRange)
    (h : Cyclic.ahead (reachableAt network s) s.state.switches.length s.state.rrIndex r = x :: t) :
    pickSwitch network s = (.ok s.state.switches[x]?, withRr s (x + 1)) ∧
      ∃ r', r' ≤ s.state.switches.length ∧ x + 1 + r' < sizeRange ∧
        Cyclic.ahead (reachableAt network s) s.state.switches.length (x + 1) r' = t := by
  obtain ⟨j, hj, hx, hreach, hbefore, hahead⟩ := Cyclic.ahead_succ hr h
  have hpos : 0 < s.state.switches.length := by omega
  have hne : s.state.switches ≠ [] := List.length_pos_iff.mp hpos
  have hlt : x < s.state.switches.length := by
    rw [hx]
    exact Nat.mod_lt _ hpos
  -- up to the round `j` the sum in the loop stays below 2^64
  have hsum : ∀ i, i ≤ j → (s.state.rrIndex + i) % sizeRange = s.state.rrIndex + i :=
    fun i hi => Nat.mod_eq_of_lt (by omega)
  refine ⟨?_, r - (j + 1), by omega, ?_, hahead⟩
  · obtain ⟨sw, hsw, hreach'⟩ := reachableAt_eq network halive hlt
    rw [hreach'] at hreach
    have hpick : pickFrom network s.state.switches s.state.rrIndex
        (List.range s.state.switches.length) s =
        (.ok (s.state.switches.getD x 0), withRr s (x + 1)) := by
      rw [show s.state.switches.length = j + (s.state.switches.length - j - 1 + 1) by omega,
        List.range_add, pickFrom_append halive hne, List.range_succ_eq_map, List.map_cons,
        Nat.add_zero, pickFrom, hsum j le_rfl, ← hx, Exec.bind_ok (Server.deref_ok hsw),
        if_pos hreach, Nat.mod_eq_of_lt (by omega : x + 1 < sizeRange)]
      · rfl
      · intro i hi
        rw [hsum i (List.mem_range.mp hi).le]
        exact hbefore i (List.mem_range.mp hi)
    rw [pickSwitch_eq hne hpick, List.getD_eq_getElem _ _ hlt, List.getElem?_eq_getElem hlt]
  · have hle : x ≤ s.state.rrIndex + j := by
      rw [hx]
      exact Nat.mod_le _ _
    omega

/-- Without a switch in reach the call returns the one at `rr_index`. -/
theorem pickSwitch_fallback (halive : SwitchesAlive s) (hne : s.state.switches ≠ [])
    (hnone : ∀ i < s.state.switches.length, reachableAt network s i = false)
    (hcursor : s.state.rrIndex + 1 < sizeRange) :
    pickSwitch network s =
      (.ok s.state.switches[s.state.rrIndex % s.state.switches.length]?,
        withRr s (s.state.rrIndex + 1)) := by
  have hlt : s.state.rrIndex % s.state.switches.length < s.state.switches.length :=
    Nat.mod_lt _ (List.length_pos_iff.mpr hne)
  have hpick : pickFrom network s.state.switches s.state.rrIndex
      (List.range s.state.switches.length) s =
      (.ok (s.state.switches.getD (s.state.rrIndex % s.state.switches.length) 0),
        withRr s (s.state.rrIndex + 1)) := by
    rw [← List.append_nil (List.range _), pickFrom_append halive hne, pickFrom,
      Nat.mod_eq_of_lt hcursor]
    · rfl
    · intro i _
      exact hnone _ (Nat.mod_lt _ (List.length_pos_iff.mpr hne))
  rw [pickSwitch_eq hne hpick, List.getD_eq_getElem _ _ hlt, List.getElem?_eq_getElem hlt]

theorem pickSwitches_succ {k : ℕ} {sw : Option ℕ} {s₁ s₂ : Program} {rest : List (Option ℕ)}
    (h : pickSwitch network s = (.ok sw, s₁)) (hrest : pickSwitches network k s₁ = (.ok rest, s₂)) :
    pickSwitches network (k + 1) s = (.ok (sw :: rest), s₂) := by
  rw [pickSwitches, Exec.bind_ok h, Exec.bind_ok hrest]
  rfl

/-- As long as there are switches ahead within one time around the circle, the
calls return them in order. -/
theorem pickSwitches_ahead (m : ℕ) (halive : SwitchesAlive s) {r : ℕ}
    (hr : r ≤ s.state.switches.length) (hcursor : s.state.rrIndex + r < sizeRange)
    (hlen : s.state.switches.length < sizeRange)
    (hm : m ≤ (Cyclic.ahead (reachableAt network s) s.state.switches.length
      s.state.rrIndex r).length) :
    ∃ rr, pickSwitches network m s =
      (.ok (((Cyclic.ahead (reachableAt network s) s.state.switches.length
        s.state.rrIndex r).take m).map fun i => s.state.switches[i]?), withRr s rr) := by
  induction m generalizing s r with
  | zero => exact ⟨s.state.rrIndex, rfl⟩
  | succ m ih =>
    cases hahead : Cyclic.ahead (reachableAt network s) s.state.switches.length
        s.state.rrIndex r with
    | nil =>
      rw [hahead] at hm
      exact absurd hm (by simp)
    | cons x t =>
      obtain ⟨hpick, r', hr', hcursor', hahead'⟩ := pickSwitch_turn halive hr hcursor hlen hahead
      rw [hahead, List.length_cons] at hm
      obtain ⟨rr, hrest⟩ := ih (s := withRr s (x + 1)) halive hr' hcursor' hlen (by
        change m ≤ (Cyclic.ahead (reachableAt network s) s.state.switches.length (x + 1) r').length
        rw [hahead']
        omega)
      refine ⟨rr, pickSwitches_succ hpick (hrest.trans ?_)⟩
      change (_, _) = (_, _)
      rw [← hahead']
      rfl

theorem pickSwitches_fallback (m : ℕ) (halive : SwitchesAlive s) (hne : s.state.switches ≠ [])
    (hnone : ∀ i < s.state.switches.length, reachableAt network s i = false)
    (hcursor : s.state.rrIndex + m < sizeRange) :
    pickSwitches network m s =
      (.ok ((List.range m).map fun i =>
        s.state.switches[(s.state.rrIndex + i) % s.state.switches.length]?),
        withRr s (s.state.rrIndex + m)) := by
  induction m generalizing s with
  | zero => rfl
  | succ m ih =>
    have hpick := pickSwitch_fallback halive hne hnone (by omega)
    have hrest := ih (s := withRr s (s.state.rrIndex + 1)) halive hne hnone (by
      change s.state.rrIndex + 1 + m < sizeRange
      omega)
    rw [pickSwitches_succ hpick hrest, List.range_succ_eq_map, List.map_cons, List.map_map]
    have hsum : ∀ i, s.state.rrIndex + 1 + i = s.state.rrIndex + (i + 1) := by
      intro i
      omega
    simp only [withRr, Server.withState, Function.comp_def, hsum, Nat.add_zero]

/-- So many calls return the switches at the positions, each of them once, and
change nothing but `rr_index`. -/
def ReturnsEachOnce (network : Text) (calls : ℕ) (s : Program) (positions : List ℕ) : Prop :=
  ∃ (ps : List ℕ) (rr : ℕ), ps.Perm positions ∧
    pickSwitches network calls s = (.ok (ps.map fun i => s.state.switches[i]?), withRr s rr)

/-- With no registration or removal in between, as many calls as there are
switches in reach return each of them once, from any `rr_index`; when there are
none, as many calls as there are switches return each switch once; and a call
returns null only if there is no switch. -/
theorem round_robin_fair (network : Text) (s : Program) (halive : SwitchesAlive s) :
    let n := s.state.switches.length
    let inReach := (List.range n).filter (reachableAt network s)
    (s.state.rrIndex + n + inReach.length < sizeRange →
      ReturnsEachOnce network inReach.length s inReach) ∧
    (inReach = [] → s.state.switches ≠ [] → s.state.rrIndex + n + n < sizeRange →
      ReturnsEachOnce network n s (List.range n)) ∧
    ∃ sw rr, pickSwitch network s = (.ok sw, withRr s rr) ∧
      (sw = none ↔ s.state.switches = []) := by
  intro n inReach
  refine ⟨fun hcursor => ?_, fun hnone hne hcursor => ?_, ?_⟩
  · have hperm := Cyclic.ahead_perm (reachableAt network s) n s.state.rrIndex
    obtain ⟨rr, hpicks⟩ := pickSwitches_ahead inReach.length halive (le_refl n)
      (by omega) (by omega) hperm.length_eq.ge
    rw [List.take_of_length_le hperm.length_eq.le] at hpicks
    exact ⟨_, rr, hperm, hpicks⟩
  · have hout : ∀ i < n, reachableAt network s i = false := by
      intro i hi
      have hnot := List.filter_eq_nil_iff.mp hnone i (List.mem_range.mpr hi)
      exact Bool.eq_false_iff.mpr hnot
    have hpicks := pickSwitches_fallback n halive hne hout (by omega)
    refine ⟨_, s.state.rrIndex + n, List.rotate_perm (List.range n) s.state.rrIndex, ?_⟩
    rw [hpicks, ← Cyclic.map_add_mod, List.map_map]
    rfl
  · by_cases hnil : s.state.switches = []
    · exact ⟨none, s.state.rrIndex, pickSwitch_none hnil, by simp [hnil]⟩
    · obtain ⟨p, rr, -, hpick⟩ := pickSwitch_some network hnil halive
      exact ⟨some p, rr, hpick s rfl rfl, by simp [hnil]⟩

def threeSwitches : Program where
  state := ⟨[1, 2, 3], [], [], 7, []⟩
  infos := (((∅ : FiniteMap ℕ (ConnInfo Peer)).insert 1 ⟨5, 0, { network := ['w'] }⟩).insert 2
    ⟨6, 0, { network := ['v'] }⟩).insert 3 ⟨7, 0, { network := ['w'] }⟩
  nextInfo := 4
  queue := ∅
  sent := []

theorem round_robin_fair_three : ReturnsEachOnce ['w'] 2 threeSwitches [0, 2] := by
  have halive : SwitchesAlive threeSwitches := by
    intro p hp
    have hmem : p = 1 ∨ p = 2 ∨ p = 3 := by simpa [threeSwitches] using hp
    rcases hmem with rfl | rfl | rfl
    · exact ⟨_, rfl⟩
    · exact ⟨_, rfl⟩
    · exact ⟨_, rfl⟩
  have hreach : (List.range 3).filter (reachableAt ['w'] threeSwitches) = [0, 2] := by decide
  have h := (round_robin_fair ['w'] threeSwitches halive).1
  rw [show threeSwitches.state.switches.length = 3 from rfl, hreach] at h
  exact h (by decide)

end VNet.Conductor
