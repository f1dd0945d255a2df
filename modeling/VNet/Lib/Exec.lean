import Mathlib.Tactic.Common

/-- A computation on states `σ`, with faults `φ` and values `α`. -/
def Exec (σ φ α : Type) := σ → Except φ α × σ

namespace Exec

variable {σ φ α β : Type}

instance : Monad (Exec σ φ) where
  pure a := fun s => (.ok a, s)
  bind m f := fun s =>
    match m s with
    | (.ok a, s') => f a s'
    | (.error e, s') => (.error e, s')

def fault (e : φ) : Exec σ φ α := fun s => (.error e, s)

def look (f : σ → α) : Exec σ φ α := fun s => (.ok (f s), s)

def change (f : σ → σ) : Exec σ φ Unit := fun s => (.ok (), f s)

def next (f : σ → α × σ) : Exec σ φ α := fun s => (.ok (f s).1, (f s).2)

def forEach (f : α → Exec σ φ Unit) : List α → Exec σ φ Unit
  | [] => pure ()
  | x :: xs => do
    f x
    forEach f xs

theorem pure_apply (a : α) (s : σ) : (pure a : Exec σ φ α) s = (.ok a, s) := rfl

theorem next_apply (f : σ → α × σ) (s : σ) :
    (next f : Exec σ φ α) s = (.ok (f s).1, (f s).2) := rfl

theorem change_apply (f : σ → σ) (s : σ) : (change f : Exec σ φ Unit) s = (.ok (), f s) := rfl

theorem bind_ok {m : Exec σ φ α} {f : α → Exec σ φ β} {s s' : σ} {a : α} (h : m s = (.ok a, s')) :
    (m >>= f) s = f a s' := by
  change (match m s with | (.ok a, s') => f a s' | (.error e, s') => (.error e, s')) = _
  rw [h]

theorem bind_error {m : Exec σ φ α} {f : α → Exec σ φ β} {s s' : σ} {e : φ}
    (h : m s = (.error e, s')) : (m >>= f) s = (.error e, s') := by
  change (match m s with | (.ok a, s') => f a s' | (.error e, s') => (.error e, s')) = _
  rw [h]

theorem pure_bind (a : α) (f : α → Exec σ φ β) : (pure a : Exec σ φ α) >>= f = f a := rfl

theorem bind_assoc {γ : Type} (m : Exec σ φ α) (f : α → Exec σ φ β) (g : β → Exec σ φ γ) :
    (m >>= f) >>= g = m >>= fun a => f a >>= g := by
  funext s
  cases hm : m s with
  | mk r t =>
    cases r with
    | ok a =>
      rw [bind_ok hm]
      change (match (m >>= f) s with | (.ok b, t) => g b t | (.error e, t) => (.error e, t)) = _
      rw [bind_ok hm]
      rfl
    | error e => rw [bind_error hm, bind_error (bind_error hm)]

theorem bind_pure_unit (m : Exec σ φ Unit) : (do m; pure ()) = m := by
  funext s
  cases hm : m s with
  | mk r t =>
    cases r with
    | ok a => rw [bind_ok hm, pure_apply]
    | error e => rw [bind_error hm]

theorem bind_pure_snd (m : Exec σ φ α) (s : σ) :
    ((m >>= fun _ => pure ()) s).2 = (m s).2 := by
  cases hm : m s with
  | mk r t =>
    cases r with
    | ok a =>
      rw [bind_ok hm]
      rfl
    | error e => rw [bind_error hm]

/-- A sequence that ended did so in each part. -/
theorem bind_eq_ok {m : Exec σ φ α} {f : α → Exec σ φ β} {s s' : σ} {b : β}
    (h : (m >>= f) s = (.ok b, s')) : ∃ a t, m s = (.ok a, t) ∧ f a t = (.ok b, s') := by
  cases hm : m s with
  | mk r t =>
    cases r with
    | ok a =>
      rw [bind_ok hm] at h
      exact ⟨a, t, rfl, h⟩
    | error e =>
      rw [bind_error hm] at h
      simp at h

/-- A sequence that stopped did so in one of its parts. -/
theorem bind_eq_error {m : Exec σ φ α} {f : α → Exec σ φ β} {s s' : σ} {e : φ}
    (h : (m >>= f) s = (.error e, s')) :
    m s = (.error e, s') ∨ ∃ a t, m s = (.ok a, t) ∧ f a t = (.error e, s') := by
  cases hm : m s with
  | mk r t =>
    cases r with
    | ok a =>
      rw [bind_ok hm] at h
      exact Or.inr ⟨a, t, rfl, h⟩
    | error e' =>
      rw [bind_error hm] at h
      cases h
      exact Or.inl rfl

theorem eq_ok_of_fst {m : Exec σ φ Unit} {s : σ} (h : (m s).1 = .ok ()) :
    m s = (.ok (), (m s).2) :=
  Prod.ext h rfl

/-- A loop that stopped did so at one of the values, after it was done with the
ones before. -/
theorem forEach_eq_error {f : α → Exec σ φ Unit} {xs : List α} {s s' : σ} {e : φ}
    (h : forEach f xs s = (.error e, s')) :
    ∃ before x after t, xs = before ++ x :: after ∧ forEach f before s = (.ok (), t) ∧
      f x t = (.error e, s') := by
  induction xs generalizing s with
  | nil =>
    rw [forEach, pure_apply] at h
    cases h
  | cons x xs ih =>
    rcases bind_eq_error h with hx | ⟨_, t, hx, hrest⟩
    · exact ⟨[], x, xs, s, rfl, rfl, hx⟩
    · obtain ⟨before, y, after, u, rfl, hbefore, hy⟩ := ih hrest
      exact ⟨x :: before, y, after, u, rfl, (bind_ok hx).trans hbefore, hy⟩

theorem forEach_append (f : α → Exec σ φ Unit) (xs ys : List α) :
    forEach f (xs ++ ys) = (do forEach f xs; forEach f ys) := by
  induction xs with
  | nil => rfl
  | cons x xs ih => rw [List.cons_append, forEach, forEach, ih, bind_assoc]

theorem forEach_map (f : α → Exec σ φ Unit) (g : β → α) (xs : List β) :
    forEach f (xs.map g) = forEach (fun x => f (g x)) xs := by
  induction xs with
  | nil => rfl
  | cons x xs ih => rw [List.map_cons, forEach, forEach, ih]

/-- The same loop, when its body does the same for each of the values. -/
theorem forEach_congr {f g : α → Exec σ φ Unit} {xs : List α} (h : ∀ x ∈ xs, f x = g x) :
    forEach f xs = forEach g xs := by
  induction xs with
  | nil => rfl
  | cons x xs ih =>
    rw [List.forall_mem_cons] at h
    rw [forEach, forEach, h.1, ih h.2]

/-- Started where `P` holds, `m` ends where `Q` holds of its value, or stops
where `E` holds of its fault. -/
def Triple (P : σ → Prop) (m : Exec σ φ α) (Q : α → σ → Prop) (E : φ → σ → Prop) : Prop :=
  ∀ s, P s → match m s with
    | (.ok a, s') => Q a s'
    | (.error e, s') => E e s'

/-- A triple about the computations that end; nothing is said of faults. -/
abbrev Ends (P : σ → Prop) (m : Exec σ φ α) (Q : α → σ → Prop) : Prop :=
  Triple P m Q fun _ _ => True

theorem Ends.of_eq {P : σ → Prop} {m : Exec σ φ α} {Q : α → σ → Prop} (h : Ends P m Q) {s s' : σ}
    (hs : P s) {a : α} (heq : m s = (.ok a, s')) : Q a s' := by
  have hr := h s hs
  rw [heq] at hr
  exact hr

theorem Ends.intro {P : σ → Prop} {m : Exec σ φ α} {Q : α → σ → Prop}
    (h : ∀ s, P s → ∀ a s', m s = (.ok a, s') → Q a s') : Ends P m Q := by
  intro s hs
  cases hm : m s with
  | mk r s' =>
    cases r with
    | ok a => exact h s hs a s' hm
    | error e => trivial

variable {P P' : σ → Prop} {Q : α → σ → Prop} {R : β → σ → Prop} {E : φ → σ → Prop}

namespace Triple

theorem pure {a : α} (h : ∀ s, P s → Q a s) : Triple P (Pure.pure a : Exec σ φ α) Q E :=
  fun s hs => h s hs

theorem bind {m : Exec σ φ α} {f : α → Exec σ φ β} (hm : Triple P m Q E)
    (hf : ∀ a, Triple (Q a) (f a) R E) : Triple P (m >>= f) R E := by
  intro s hs
  have h := hm s hs
  cases hr : m s with
  | mk r s' =>
    rw [hr] at h
    cases r with
    | ok a =>
      rw [bind_ok hr]
      exact hf a s' h
    | error e =>
      rw [bind_error hr]
      exact h

theorem weaken {m : Exec σ φ α} (hm : Triple P m Q E) (h : ∀ s, P' s → P s) :
    Triple P' m Q E :=
  fun s hs => hm s (h s hs)

/-- How a computation that meets a triple ends. -/
theorem result {m : Exec σ φ α} (hm : Triple P m Q E) {s : σ} (hs : P s) :
    (∃ a s', m s = (.ok a, s') ∧ Q a s') ∨ ∃ e s', m s = (.error e, s') ∧ E e s' := by
  have hr := hm s hs
  cases hms : m s with
  | mk r s' =>
    rw [hms] at hr
    cases r with
    | ok a => exact Or.inl ⟨a, s', rfl, hr⟩
    | error e => exact Or.inr ⟨e, s', rfl, hr⟩

/-- What holds of the state however the computation ends. -/
theorem snd {m : Exec σ φ α} {I : σ → Prop} (hm : Triple P m (fun _ => I) (fun _ => I)) {s : σ}
    (hs : P s) : I (m s).2 := by
  obtain ⟨a, s', hr, h⟩ | ⟨e, s', hr, h⟩ := hm.result hs
  · rwa [hr]
  · rwa [hr]

/-- A computation that has no fault ends. -/
theorem fst_eq_ok {m : Exec σ φ Unit} {Q : Unit → σ → Prop}
    (hm : Triple P m Q fun _ _ => False) {s : σ} (hs : P s) : (m s).1 = .ok () := by
  obtain ⟨a, s', hr, -⟩ | ⟨e, s', -, h⟩ := hm.result hs
  · rw [hr]
  · exact h.elim

theorem values {m : Exec σ φ α} {Q' : α → σ → Prop} (hm : Triple P m Q E)
    (h : ∀ a s, Q a s → Q' a s) : Triple P m Q' E := by
  intro s hs
  obtain ⟨a, s', hr, hQ⟩ | ⟨e, s', hr, hE⟩ := hm.result hs
  · rw [hr]
    exact h a s' hQ
  · rw [hr]
    exact hE

theorem faults {m : Exec σ φ α} {E' : φ → σ → Prop} (hm : Triple P m Q E)
    (h : ∀ e s, E e s → E' e s) : Triple P m Q E' := by
  intro s hs
  obtain ⟨a, s', hr, hQ⟩ | ⟨e, s', hr, hE⟩ := hm.result hs
  · rw [hr]
    exact hQ
  · rw [hr]
    exact h e s' hE

theorem fault {e : φ} (h : ∀ s, P s → E e s) : Triple P (Exec.fault e : Exec σ φ α) Q E :=
  fun s hs => h s hs

theorem look {f : σ → α} (h : ∀ s, P s → Q (f s) s) : Triple P (Exec.look f : Exec σ φ α) Q E :=
  fun s hs => h s hs

theorem change {f : σ → σ} {Q : Unit → σ → Prop} (h : ∀ s, P s → Q () (f s)) :
    Triple P (Exec.change f : Exec σ φ Unit) Q E :=
  fun s hs => h s hs

theorem next {f : σ → α × σ} (h : ∀ s, P s → Q (f s).1 (f s).2) :
    Triple P (Exec.next f : Exec σ φ α) Q E :=
  fun s hs => h s hs

theorem ite {c : Prop} [Decidable c] {m n : Exec σ φ α} (hm : c → Triple P m Q E)
    (hn : ¬ c → Triple P n Q E) : Triple P (if c then m else n) Q E := by
  split_ifs with hc
  · exact hm hc
  · exact hn hc

/-- What holds of the values already done, step by step, for values that are
taken from a list. -/
theorem forEach_split {I : List α → σ → Prop} {f : α → Exec σ φ Unit} {all : List α}
    (h : ∀ done x rest, all = done ++ x :: rest →
      Triple (I done) (f x) (fun _ => I (done ++ [x])) E) (done xs : List α)
    (hall : all = done ++ xs) :
    Triple (I done) (Exec.forEach f xs) (fun _ => I all) E := by
  induction xs generalizing done with
  | nil =>
    apply Triple.pure
    intro s hs
    rw [hall, List.append_nil]
    exact hs
  | cons x xs ih =>
    apply Triple.bind (h done x xs hall)
    intro _
    apply ih
    rw [hall, List.append_assoc]
    rfl

/-- What holds of the values already done, step by step. -/
theorem forEach {I : List α → σ → Prop} {f : α → Exec σ φ Unit}
    (h : ∀ done x, Triple (I done) (f x) (fun _ => I (done ++ [x])) E) (done xs : List α) :
    Triple (I done) (Exec.forEach f xs) (fun _ => I (done ++ xs)) E :=
  forEach_split (fun done x _ _ => h done x) done xs rfl

end Triple

end Exec
