import VNet.Lib.Exec
import VNet.Lib.Maps

namespace Files

/-- How a system call goes; `killed` is for a program that does not get over it. -/
inductive Outcome
  | ok
  | failed
  | killed
  deriving DecidableEq, Repr

inductive Stop
  | killed
  deriving DecidableEq, Repr

variable {π β : Type} [DecidableEq π]

abbrev Disk (π β : Type) := FiniteMap π (List β)

abbrev Run (π β α : Type) := Exec (Disk π β) Stop α

def call (o : Outcome) (f : Disk π β → Disk π β) : Run π β Bool := fun disk =>
  match o with
  | .ok => (.ok true, f disk)
  | .failed => (.ok false, disk)
  | .killed => (.error .killed, disk)

def create (o : Outcome) (p : π) : Run π β Bool := call o fun disk => disk.insert p []

def rename (o : Outcome) (p q : π) : Run π β Bool :=
  call o fun disk => match disk.lookup p with
    | some content => (disk.erase p).insert q content
    | none => disk

/-- The writes of a stream, which put out `out` before they are over. -/
def putOut (o : Outcome) (p : π) (out : List β) : Run π β Bool := fun disk =>
  call o id (disk.insert p ((disk.lookup p).getD [] ++ out))

/-- The answers to one replacement: to opening the file, to the writes while it is
written and to those when it is closed, each with how much they put out, and to the
renaming. A close that goes well puts out the rest. -/
structure Answers where
  opened : Outcome
  out : ℕ
  written : Outcome
  closedOut : ℕ
  closed : Outcome
  renamed : Outcome
  deriving DecidableEq, Repr

namespace Answers

variable (a : Answers)

def rest (body : List β) : List β :=
  if a.closed = .ok then body.drop a.out else (body.drop a.out).take a.closedOut

def content (body : List β) : List β := body.take a.out ++ a.rest body

/-- The program gets to the renaming, and it goes well; how the close went is not
looked at. -/
def Renames : Prop :=
  a.opened = .ok ∧ a.written = .ok ∧ a.closed ≠ .killed ∧ a.renamed = .ok

instance : Decidable a.Renames := inferInstanceAs (Decidable (_ ∧ _))

theorem content_eq_iff (body : List β) :
    a.content body = body ↔ a.closed = .ok ∨ body.length ≤ a.out + a.closedOut := by
  unfold content rest
  split_ifs with hok
  · exact iff_of_true (List.take_append_drop _ _) (.inl hok)
  · rw [← List.take_add, List.take_eq_self_iff]
    exact (or_iff_right hok).symm

end Answers

def save (tmp path : π) (body : List β) (a : Answers) : Run π β Unit := do
  let written ← putOut a.written tmp (body.take a.out)
  let _ ← putOut a.closed tmp (a.rest body)
  if written then do
    let _ ← rename a.renamed tmp path
    pure ()
  else pure ()

/-- Write the file `tmp` and rename it to `path`; there is no body when it cannot
be made. -/
def replace (tmp path : π) (body : Option (List β)) (a : Answers) : Run π β Unit := do
  let opened ← create a.opened tmp
  if opened then
    match body with
    | none => pure ()
    | some body => save tmp path body a
  else pure ()

omit [DecidableEq π] in
/-- How a call ends: it answers, or the program is killed. -/
theorem call_cases (o : Outcome) (f : Disk π β → Disk π β) (disk : Disk π β) :
    (o = .ok ∧ call o f disk = (.ok true, f disk)) ∨
      (o = .failed ∧ call o f disk = (.ok false, disk)) ∨
      (o = .killed ∧ call o f disk = (.error .killed, disk)) := by
  cases o with
  | ok => exact .inl ⟨rfl, rfl⟩
  | failed => exact .inr (.inl ⟨rfl, rfl⟩)
  | killed => exact .inr (.inr ⟨rfl, rfl⟩)

/-- The last call: the file that was written takes the other's place. -/
theorem rename_lookup {tmp path : π} (o : Outcome) {content : List β} {disk : Disk π β}
    (h : disk.lookup tmp = some content) : (rename o tmp path disk).2.lookup path =
      if o = .ok then some content else disk.lookup path := by
  cases o with
  | ok =>
    simp only [rename, call, h]
    exact AList.lookup_insert _
  | failed => rfl
  | killed => rfl

/-- The writes go to one file and to no other. -/
theorem putOut_eq {tmp path : π} (hne : path ≠ tmp) (o : Outcome) (out : List β)
    {content : List β} {disk : Disk π β} (h : disk.lookup tmp = some content) :
    ∃ disk', disk'.lookup tmp = some (content ++ out) ∧
      disk'.lookup path = disk.lookup path ∧ putOut o tmp out disk = call o id disk' := by
  refine ⟨disk.insert tmp (content ++ out), AList.lookup_insert _, AList.lookup_insert_ne hne, ?_⟩
  rw [putOut, h]
  rfl

/-- Once the file is open. -/
theorem save_lookup {tmp path : π} (hne : path ≠ tmp) (body : List β) (a : Answers)
    {disk : Disk π β} (h : disk.lookup tmp = some []) : (save tmp path body a disk).2.lookup path =
      if a.written = .ok ∧ a.closed ≠ .killed ∧ a.renamed = .ok then some (a.content body)
      else disk.lookup path := by
  obtain ⟨disk₁, htmp₁, hpath₁, hput₁⟩ := putOut_eq hne a.written (body.take a.out) h
  obtain ⟨disk₂, htmp₂, hpath₂, hput₂⟩ := putOut_eq hne a.closed (a.rest body) htmp₁
  have hrename : (rename a.renamed tmp path disk₂).2.lookup path = _ :=
    rename_lookup a.renamed htmp₂
  rw [← hpath₁, ← hpath₂]
  unfold save
  rcases call_cases a.written id disk₁ with ⟨hw, hcall⟩ | ⟨hw, hcall⟩ | ⟨hw, hcall⟩
  · rw [Exec.bind_ok (hput₁.trans hcall)]
    rcases call_cases a.closed id disk₂ with ⟨hc, hcall'⟩ | ⟨hc, hcall'⟩ | ⟨hc, hcall'⟩
    · rw [id, Exec.bind_ok (hput₂.trans hcall'), if_pos rfl, Exec.bind_pure_snd]
      simpa [hw, hc, Answers.content] using hrename
    · rw [id, Exec.bind_ok (hput₂.trans hcall'), if_pos rfl, Exec.bind_pure_snd]
      simpa [hw, hc, Answers.content] using hrename
    · rw [id, Exec.bind_error (hput₂.trans hcall'), if_neg (by simp [hc])]
  · have hnot : ¬ (a.written = .ok ∧ a.closed ≠ .killed ∧ a.renamed = .ok) := by simp [hw]
    rw [Exec.bind_ok (hput₁.trans hcall), if_neg hnot]
    rcases call_cases a.closed id disk₂ with ⟨-, hcall'⟩ | ⟨-, hcall'⟩ | ⟨-, hcall'⟩
    · rw [Exec.bind_ok (hput₂.trans hcall')]
      rfl
    · rw [Exec.bind_ok (hput₂.trans hcall')]
      rfl
    · rw [Exec.bind_error (hput₂.trans hcall')]
  · rw [Exec.bind_error (hput₁.trans hcall), if_neg (by simp [hw]), hpath₂]

/-- A file is replaced as a whole or not at all: whatever goes wrong, and wherever
the program is killed, it has the old content unless the renaming went well. -/
theorem replace_lookup {tmp path : π} (hne : path ≠ tmp) (body : Option (List β)) (a : Answers)
    (disk : Disk π β) : (replace tmp path body a disk).2.lookup path =
      if a.Renames ∧ body.isSome then body.map a.content else disk.lookup path := by
  unfold replace create
  rcases call_cases a.opened (fun disk => disk.insert tmp []) disk with
    ⟨hopened, hcall⟩ | ⟨hopened, hcall⟩ | ⟨hopened, hcall⟩
  · have hother : (disk.insert tmp []).lookup path = disk.lookup path := AList.lookup_insert_ne hne
    rw [Exec.bind_ok hcall, if_pos rfl]
    cases body with
    | none =>
      rw [if_neg (by simp)]
      exact hother
    | some body =>
      refine (save_lookup hne body a (AList.lookup_insert _)).trans ?_
      rw [hother]
      simp [Answers.Renames, hopened]
  · rw [Exec.bind_ok hcall, if_neg (by simp), if_neg (by simp [Answers.Renames, hopened])]
    rfl
  · rw [Exec.bind_error hcall, if_neg (by simp [Answers.Renames, hopened])]

end Files
