import Mathlib.Data.List.Infix
import Mathlib.Tactic.Common

namespace Runs

variable {σ ε : Type*} (step : σ → ε → σ)

def run (s : σ) (es : List ε) : σ := es.foldl step s

/-- Every step of the run meets `ok` at the state it starts from. -/
def Steps (ok : σ → ε → Prop) : σ → List ε → Prop
  | _, [] => True
  | s, e :: es => ok s e ∧ Steps ok (step s e) es

instance decidableSteps {ok : σ → ε → Prop} [∀ s e, Decidable (ok s e)] :
    ∀ (s : σ) (es : List ε), Decidable (Steps step ok s es)
  | _, [] => inferInstanceAs (Decidable True)
  | s, e :: es => @instDecidableAnd (ok s e) _ _ (decidableSteps (step s e) es)

variable {step}

@[simp] theorem run_nil (s : σ) : run step s [] = s := rfl

@[simp] theorem run_cons (s : σ) (e : ε) (es : List ε) :
    run step s (e :: es) = run step (step s e) es := rfl

theorem run_append (s : σ) (as bs : List ε) :
    run step s (as ++ bs) = run step (run step s as) bs := by
  simp [run]

theorem run_concat (s : σ) (es : List ε) (e : ε) :
    run step s (es ++ [e]) = step (run step s es) e := by
  rw [run_append]
  rfl

theorem steps_append {ok : σ → ε → Prop} (s : σ) (as bs : List ε) :
    Steps step ok s (as ++ bs) ↔ Steps step ok s as ∧ Steps step ok (run step s as) bs := by
  induction as generalizing s with
  | nil => simp [Steps]
  | cons a as ih => simp [Steps, ih, and_assoc]

/-- The steps of a run seen one by one: each event with the events before it. -/
theorem steps_iff_forall {ok : σ → ε → Prop} (s : σ) (es : List ε) :
    Steps step ok s es ↔ ∀ as e bs, es = as ++ e :: bs → ok (run step s as) e := by
  induction es generalizing s with
  | nil => simp [Steps]
  | cons x xs ih =>
    constructor
    · rintro ⟨hx, hxs⟩ as e bs h
      cases as with
      | nil =>
        obtain ⟨rfl, rfl⟩ := List.cons.inj h
        exact hx
      | cons a as =>
        obtain ⟨rfl, hrest⟩ := List.cons.inj h
        exact (ih _).mp hxs as e bs hrest
    · intro h
      refine ⟨h [] x xs rfl, (ih _).mpr fun as e bs he => ?_⟩
      exact h (x :: as) e bs (by rw [he]; rfl)

/-- What every step that meets `ok` preserves holds after the run. -/
theorem invariant {ok : σ → ε → Prop} {I : σ → Prop}
    (hstep : ∀ s e, I s → ok s e → I (step s e)) {s : σ} (hs : I s) {es : List ε}
    (hes : Steps step ok s es) : I (run step s es) := by
  induction es generalizing s with
  | nil => exact hs
  | cons e es ih => exact ih (hstep s e hs hes.1) hes.2

/-- What every step preserves holds after every run. -/
theorem invariant_always {I : σ → Prop} (hstep : ∀ s e, I s → I (step s e)) {s : σ} (hs : I s)
    (es : List ε) : I (run step s es) := by
  induction es generalizing s with
  | nil => exact hs
  | cons e es ih => exact ih (hstep s e hs)

/-- A property that the runs have whose steps all meet `ok`, and that the first
step loses which does not, holds at all times of a run exactly when its steps meet `ok`. -/
theorem forall_prefix_iff {ok : σ → ε → Prop} {P : List ε → Prop} {s : σ} {es : List ε}
    (hrun : ∀ done, done <+: es → Steps step ok s done → P done)
    (hstep : ∀ done e, done ++ [e] <+: es → Steps step ok s done → P (done ++ [e]) →
      ok (run step s done) e) :
    (∀ done, done <+: es → P done) ↔ Steps step ok s es := by
  constructor
  · intro h
    have hall : ∀ done, done <+: es → Steps step ok s done := by
      intro done hdone
      induction done using List.reverseRecOn with
      | nil => trivial
      | append_singleton done e ih =>
        have hbefore := ih ((List.prefix_append _ _).trans hdone)
        have hlast := hstep done e hdone hbefore (h _ hdone)
        exact (steps_append _ _ _).mpr ⟨hbefore, hlast, trivial⟩
    exact hall es List.prefix_rfl
  · rintro hes done ⟨rest, rfl⟩
    exact hrun done (List.prefix_append _ _) ((steps_append _ _ _).mp hes).1

/-- What only an event of one kind brings about was brought about by one. -/
theorem exists_event {I Q : σ → Prop} {P : σ → ε → Prop} (hI : ∀ s e, I s → I (step s e))
    (hstep : ∀ s e, I s → Q (step s e) → Q s ∨ P s e) {s : σ} (hs : I s) (hnot : ¬ Q s)
    {es : List ε} (h : Q (run step s es)) :
    ∃ as e bs, es = as ++ e :: bs ∧ P (run step s as) e := by
  induction es using List.reverseRecOn with
  | nil => exact absurd h hnot
  | append_singleton es e ih =>
    rw [run_concat] at h
    rcases hstep _ e (invariant_always hI hs es) h with hbefore | hevent
    · obtain ⟨as, e', bs, rfl, hevent⟩ := ih hbefore
      exact ⟨as, e', bs ++ [e], by simp, hevent⟩
    · exact ⟨es, e, [], rfl, hevent⟩

variable (step) in
def count (P : σ → ε → Prop) [∀ s e, Decidable (P s e)] : σ → List ε → ℕ
  | _, [] => 0
  | s, e :: es => (if P s e then 1 else 0) + count P (step s e) es

/-- What each step of one kind takes from a stock and each step of another kind
adds to it: the former are no more than the latter and the stock at the start. -/
theorem count_add_le {I : σ → Prop} {P Q : σ → ε → Prop} [∀ s e, Decidable (P s e)]
    [∀ s e, Decidable (Q s e)] {stock : σ → ℕ} (hI : ∀ s e, I s → I (step s e))
    (hstep : ∀ s e, I s →
      (if P s e then 1 else 0) + stock (step s e) ≤ (if Q s e then 1 else 0) + stock s)
    {s : σ} (hs : I s) (es : List ε) :
    count step P s es + stock (run step s es) ≤ count step Q s es + stock s := by
  induction es generalizing s with
  | nil => exact le_rfl
  | cons e es ih =>
    have hrest := ih (hI s e hs)
    have hfirst := hstep s e hs
    simp only [count, run_cons]
    omega

def outputs {α : Type*} (step : σ → ε → σ) (out : σ → ε → List α) : σ → List ε → List α
  | _, [] => []
  | s, e :: es => out s e ++ outputs step out (step s e) es

theorem outputs_concat {α : Type*} (out : σ → ε → List α) (s : σ) (es : List ε) (e : ε) :
    outputs step out s (es ++ [e]) = outputs step out s es ++ out (run step s es) e := by
  induction es generalizing s with
  | nil => simp [outputs]
  | cons x xs ih => simp [outputs, ih, List.append_assoc]

/-- A run of a machine whose steps are a relation: the labels of its steps, and
the states it goes from and to. -/
inductive Trace {α : Type*} (R : α → σ → σ → Prop) : List α → σ → σ → Prop
  | nil (s : σ) : Trace R [] s s
  | concat {as : List α} {a : α} {s t u : σ} : Trace R as s t → R a t u → Trace R (as ++ [a]) s u

namespace Trace

variable {α : Type*} {R : α → σ → σ → Prop}

/-- What every step preserves holds after the run, and each label has what a step
from there gives it. -/
theorem invariant {I : σ → Prop} {P : α → Prop} {as : List α} {s t : σ} (h : Trace R as s t)
    (hs : I s) (hstep : ∀ a ∈ as, ∀ u v, I u → R a u v → I v ∧ P a) : I t ∧ ∀ a ∈ as, P a := by
  induction h with
  | nil s => exact ⟨hs, by simp⟩
  | concat hrun hlast ih =>
    have hbefore := ih hs fun a ha => hstep a (List.mem_append_left _ ha)
    have hafter := hstep _ (List.mem_append_right _ (List.mem_singleton_self _)) _ _ hbefore.1 hlast
    refine ⟨hafter.1, fun a ha => ?_⟩
    rcases List.mem_append.mp ha with ha | ha
    · exact hbefore.2 a ha
    · rw [List.mem_singleton.mp ha]
      exact hafter.2

end Trace

end Runs
