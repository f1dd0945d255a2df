import VNet.Lib.Runs
import VNet.NetQueue.Overflow

namespace VNet.NetQueue
open Protocol Runs

/-- The descriptors that are held, each with its pointer, and the user's state. -/
structure View (σ : Type) where
  held : Fd → Option ℕ
  user : σ

def Called.fd : Called → Fd
  | .onClose data => data.fd
  | .onSocketReady data => data.fd
  | .onTunReady data => data.fd

def Called.ptrData : Called → ℕ
  | .onClose data => data.ptrData
  | .onSocketReady data => data.ptrData
  | .onTunReady data => data.ptrData

variable {σ : Type}

def NetworkQueueHandler.reaction (handler : NetworkQueueHandler σ) (called : Called) (user : σ) :
    Reaction σ :=
  match called with
  | .onClose data => handler.onClose user data
  | .onSocketReady data => handler.onSocketReady user data
  | .onTunReady data => handler.onTunReady user data

namespace View

def add (m : View σ) (fd : Fd) (ptr : ℕ) : View σ :=
  { m with held := Function.update m.held fd (some ptr) }

def drop (m : View σ) (fd : Fd) : View σ := { m with held := Function.update m.held fd none }

theorem held_add (m : View σ) (fd fd' : Fd) (ptr : ℕ) :
    (m.add fd ptr).held fd' = if fd' = fd then some ptr else m.held fd' :=
  Function.update_apply _ _ _ _

theorem held_drop (m : View σ) (fd fd' : Fd) :
    (m.drop fd).held fd' = if fd' = fd then none else m.held fd' :=
  Function.update_apply _ _ _ _

theorem held_drop_none {m : View σ} {fd : Fd} (h : m.held fd = none) (fd' : Fd) :
    (m.drop fd').held fd = none := by
  rw [held_drop, h, ite_self]

def returned (m : View σ) : Called → View σ
  | .onClose data => m.drop data.fd
  | .onSocketReady _ => m
  | .onTunReady _ => m

/-- The calls of a handler. A `send` does not show; it fails on a descriptor that
is not held, and may fail on any other. -/
inductive Reacts : Reaction σ → View σ → View σ → Prop
  | done (user : σ) (m : View σ) : Reacts (.done user) m { m with user := user }
  | close {fd : Fd} {next : Reaction σ} {m m' : View σ} :
      Reacts next (m.drop fd) m' → Reacts (.close fd next) m m'
  | send {fd : Fd} {data : Bytes} {next : Bool → Reaction σ} {m m' : View σ} (sent : Bool) :
      (sent = true → m.held fd ≠ none) → Reacts (next sent) m m' →
      Reacts (.send fd data next) m m'

variable (handler : NetworkQueueHandler σ)

def Calls (allowed : Called → Prop) (called : Called) (m m' : View σ) : Prop :=
  allowed called ∧ m.held called.fd = some called.ptrData ∧
    ∃ m₁, Reacts (handler.reaction called m.user) m m₁ ∧ m' = m₁.returned called

/-- A call on the queue, with the callbacks made in it. -/
def Performs : QueueOp × List Called → View σ → View σ → Prop
  | (.put fd ptr _ added stored, cs), m, m' =>
    cs = [] ∧ m' = if added ∧ m.held fd = none ∧ stored then m.add fd ptr else m
  | (.close fd, cs), m, m' => cs = [] ∧ m' = m.drop fd
  | (.send _ _, cs), m, m' => cs = [] ∧ m' = m
  | (.process fd, cs), m, m' => Trace (Calls handler fun c => c.fd = fd ∧ c.isReady) cs m m'
  | (.waitAndProcess reported, cs), m, m' =>
    Trace (Calls handler fun c => c.fd ∈ reported.map (·.1)) cs m m'

end View

/-- A handler puts nothing in. -/
theorem View.Reacts.held_none {r : Reaction σ} {m m' : View σ} (h : Reacts r m m') {fd : Fd}
    (hfd : m.held fd = none) : m'.held fd = none := by
  induction h with
  | done user m => exact hfd
  | close _ ih => exact ih (held_drop_none hfd _)
  | send sent _ _ ih => exact ih hfd

theorem View.Calls.held_none {handler : NetworkQueueHandler σ} {allowed : Called → Prop}
    {called : Called} {m m' : View σ} (h : Calls handler allowed called m m') {fd : Fd}
    (hfd : m.held fd = none) : m'.held fd = none ∧ called.fd ≠ fd := by
  obtain ⟨-, hheld, m₁, hreacts, rfl⟩ := h
  have hm₁ := hreacts.held_none hfd
  constructor
  · cases called with
    | onClose data => exact held_drop_none hm₁ data.fd
    | onSocketReady data => exact hm₁
    | onTunReady data => exact hm₁
  · rintro rfl
    rw [hheld] at hfd
    simp at hfd

def QueueOp.NoPut (fd : Fd) : QueueOp → Prop
  | .put fd' _ _ _ _ => fd' ≠ fd
  | _ => True

theorem View.Performs.held_none {handler : NetworkQueueHandler σ} {op : QueueOp}
    {cs : List Called} {m m' : View σ} (h : Performs handler (op, cs) m m') {fd : Fd}
    (hfd : m.held fd = none) (hop : op.NoPut fd) :
    m'.held fd = none ∧ ∀ c ∈ cs, c.fd ≠ fd := by
  have htrace : ∀ {allowed : Called → Prop}, Trace (Calls handler allowed) cs m m' →
      m'.held fd = none ∧ ∀ c ∈ cs, c.fd ≠ fd := fun ht =>
    ht.invariant (I := fun m => m.held fd = none) hfd fun c _ u v hu hcall => hcall.held_none hu
  cases op with
  | put fd' ptr state added stored =>
    obtain ⟨rfl, rfl⟩ := h
    refine ⟨?_, by simp⟩
    split_ifs
    · rw [held_add, if_neg (Ne.symm hop)]
      exact hfd
    · exact hfd
  | close fd' =>
    obtain ⟨rfl, rfl⟩ := h
    exact ⟨held_drop_none hfd fd', by simp⟩
  | send fd' data =>
    obtain ⟨rfl, rfl⟩ := h
    exact ⟨hfd, by simp⟩
  | process fd' => exact htrace h
  | waitAndProcess reported => exact htrace h

end VNet.NetQueue
