import Mathlib.Data.List.Infix
import Mathlib.Tactic.Common

/-- A header of `headerLen` symbols announces `size` further symbols. -/
structure LengthFraming (α : Type*) where
  headerLen : ℕ
  size : List α → ℕ
  headerLen_pos : 0 < headerLen
  size_append : ∀ a b, headerLen ≤ a.length → size (a ++ b) = size a

namespace LengthFraming

variable {α : Type*} (F : LengthFraming α)

def IsFrame (f : List α) : Prop := f.length = F.headerLen + F.size f

def Complete (s : List α) : Prop := F.headerLen + F.size s ≤ s.length

instance (s : List α) : Decidable (F.Complete s) :=
  inferInstanceAs (Decidable (F.headerLen + F.size s ≤ s.length))

instance (f : List α) : Decidable (F.IsFrame f) :=
  inferInstanceAs (Decidable (f.length = F.headerLen + F.size f))

def splitUpTo : ℕ → List α → List (List α) × List α
  | 0, s => ([], s)
  | n + 1, s =>
    if F.Complete s then
      let r := splitUpTo n (s.drop (F.headerLen + F.size s))
      (s.take (F.headerLen + F.size s) :: r.1, r.2)
    else ([], s)

/-- The whole frames at the start of a stream, and the tail they leave. -/
def split (s : List α) : List (List α) × List α := F.splitUpTo s.length s

/-- Every header met while cutting the stream announces at most `bound`. -/
def Fits (bound : ℕ) (s : List α) : Prop :=
  (∀ f ∈ (F.split s).1, F.size f ≤ bound) ∧
    (F.headerLen ≤ (F.split s).2.length → F.size (F.split s).2 ≤ bound)

variable {F}

theorem IsFrame.headerLen_le {f : List α} (hf : F.IsFrame f) : F.headerLen ≤ f.length := by
  unfold IsFrame at hf
  omega

theorem IsFrame.size_append {f : List α} (hf : F.IsFrame f) (r : List α) :
    F.size (f ++ r) = F.size f :=
  F.size_append f r hf.headerLen_le

theorem IsFrame.complete_append {f : List α} (hf : F.IsFrame f) (r : List α) :
    F.Complete (f ++ r) := by
  unfold Complete
  rw [hf.size_append, List.length_append, hf]
  omega

theorem not_complete_nil : ¬ F.Complete ([] : List α) := by
  have := F.headerLen_pos
  simp only [Complete, List.length_nil]
  omega

/-- A stream shorter than a header holds no frame. -/
theorem not_complete_of_short {s : List α} (h : s.length < F.headerLen) : ¬ F.Complete s := by
  unfold Complete
  omega

/-- A whole frame at the start of a stream is determined by the stream. -/
theorem IsFrame.append_inj {f g a b : List α} (hf : F.IsFrame f) (hg : F.IsFrame g)
    (h : f ++ a = g ++ b) : f = g ∧ a = b := by
  have hsize : F.size f = F.size g := by
    rw [← hf.size_append a, ← hg.size_append b, h]
  have hlen : f.length = g.length := by
    rw [hf, hg, hsize]
  exact List.append_inj h hlen

theorem Complete.isFrame_take {s : List α} (hs : F.Complete s) :
    F.IsFrame (s.take (F.headerLen + F.size s)) := by
  have hlen : (s.take (F.headerLen + F.size s)).length = F.headerLen + F.size s := by
    rw [List.length_take]
    exact min_eq_left hs
  have hsize : F.size (s.take (F.headerLen + F.size s)) = F.size s := by
    have h := F.size_append (s.take (F.headerLen + F.size s)) (s.drop (F.headerLen + F.size s))
      (by rw [hlen]; omega)
    rwa [List.take_append_drop, eq_comm] at h
  rw [IsFrame, hlen, hsize]

/-- Frames read off one stream in two ways agree as long as both have frames:
the shorter list is an initial segment of the longer one. -/
theorem frames_append_of_eq {fs gs : List (List α)} {a b : List α}
    (hfs : ∀ f ∈ fs, F.IsFrame f) (hgs : ∀ g ∈ gs, F.IsFrame g) (hb : ¬ F.Complete b)
    (h : fs.flatten ++ a = gs.flatten ++ b) :
    ∃ hs, gs = fs ++ hs ∧ a = hs.flatten ++ b := by
  induction fs generalizing gs with
  | nil => exact ⟨gs, rfl, by simpa using h⟩
  | cons f fs ih =>
    have hf : F.IsFrame f := hfs f (by simp)
    cases gs with
    | nil =>
      simp only [List.flatten_cons, List.flatten_nil, List.nil_append, List.append_assoc] at h
      exact absurd (h ▸ hf.complete_append _) hb
    | cons g gs =>
      have hg : F.IsFrame g := hgs g (by simp)
      simp only [List.flatten_cons, List.append_assoc] at h
      obtain ⟨rfl, hrest⟩ := hf.append_inj hg h
      obtain ⟨hs, rfl, ha⟩ := ih (fun f' hf' => hfs f' (by simp [hf']))
        (fun g' hg' => hgs g' (by simp [hg'])) hrest
      exact ⟨hs, by simp, ha⟩

theorem splitUpTo_flatten (n : ℕ) (s : List α) :
    (F.splitUpTo n s).1.flatten ++ (F.splitUpTo n s).2 = s := by
  induction n generalizing s with
  | zero => rfl
  | succ n ih =>
    unfold splitUpTo
    split_ifs with hc
    · simp only [List.flatten_cons, List.append_assoc, ih, List.take_append_drop]
    · rfl

theorem splitUpTo_isFrame (n : ℕ) (s : List α) : ∀ f ∈ (F.splitUpTo n s).1, F.IsFrame f := by
  induction n generalizing s with
  | zero => simp [splitUpTo]
  | succ n ih =>
    unfold splitUpTo
    split_ifs with hc
    · simp only [List.mem_cons, forall_eq_or_imp]
      exact ⟨hc.isFrame_take, ih _⟩
    · simp

/-- Each cut removes a header at least, so `n` cuts are enough for `n` symbols. -/
theorem splitUpTo_tail (n : ℕ) (s : List α) (hn : s.length ≤ n) :
    ¬ F.Complete (F.splitUpTo n s).2 := by
  induction n generalizing s with
  | zero =>
    have hs : s = [] := List.length_eq_zero_iff.mp (Nat.le_zero.mp hn)
    subst hs
    exact not_complete_nil
  | succ n ih =>
    unfold splitUpTo
    split_ifs with hc
    · apply ih
      have := F.headerLen_pos
      rw [List.length_drop]
      omega
    · exact hc

theorem split_flatten (s : List α) : (F.split s).1.flatten ++ (F.split s).2 = s :=
  splitUpTo_flatten _ s

theorem split_isFrame (s : List α) : ∀ f ∈ (F.split s).1, F.IsFrame f :=
  splitUpTo_isFrame _ s

theorem split_tail (s : List α) : ¬ F.Complete (F.split s).2 :=
  splitUpTo_tail _ s le_rfl

/-- The cut of a stream is the only one into whole frames and a tail without a
whole frame. -/
theorem split_eq_of_flatten {fs : List (List α)} {s t : List α}
    (hfs : ∀ f ∈ fs, F.IsFrame f) (ht : ¬ F.Complete t) (h : fs.flatten ++ t = s) :
    F.split s = (fs, t) := by
  obtain ⟨hs, hgs, htail⟩ := frames_append_of_eq hfs (split_isFrame s) (split_tail s)
    (h.trans (split_flatten s).symm)
  cases hs with
  | nil =>
    apply Prod.ext
    · simpa using hgs
    · simpa using htail.symm
  | cons f hs =>
    have hf : F.IsFrame f := split_isFrame s f (by simp [hgs])
    simp only [List.flatten_cons, List.append_assoc] at htail
    exact absurd (htail ▸ hf.complete_append _) ht

/-- A header behind any number of whole frames is one of those the cut meets. -/
theorem Fits.size_le {bound : ℕ} {s b : List α} {fs : List (List α)} (hs : F.Fits bound s)
    (hfs : ∀ f ∈ fs, F.IsFrame f) (h : s = fs.flatten ++ b) (hb : F.headerLen ≤ b.length) :
    F.size b ≤ bound := by
  obtain ⟨gs, hgs, rfl⟩ := frames_append_of_eq hfs (split_isFrame s) (split_tail s)
    (h.symm.trans (split_flatten s).symm)
  cases gs with
  | nil => exact hs.2 hb
  | cons g gs =>
    have hmem : g ∈ (F.split s).1 := by simp [hgs]
    simp only [List.flatten_cons, List.append_assoc]
    rw [(split_isFrame s g hmem).size_append]
    exact hs.1 g hmem

/-- A stream that does not fit has an oversized header behind whole frames. -/
theorem exists_oversized {bound : ℕ} {s : List α} (hs : ¬ F.Fits bound s) :
    ∃ (fs : List (List α)) (b : List α), (∀ f ∈ fs, F.IsFrame f) ∧ s = fs.flatten ++ b ∧
      F.headerLen ≤ b.length ∧ bound < F.size b := by
  rw [Fits, not_and_or] at hs
  rcases hs with hs | hs
  · push Not at hs
    obtain ⟨f, hf, hsize⟩ := hs
    obtain ⟨as, bs, hsplit⟩ := List.append_of_mem hf
    have hframe := split_isFrame s f hf
    refine ⟨as, f ++ (bs.flatten ++ (F.split s).2), ?_, ?_, ?_, ?_⟩
    · intro g hg
      exact split_isFrame s g (by simp [hsplit, hg])
    · conv_lhs => rw [← split_flatten (F := F) s, hsplit]
      simp
    · rw [List.length_append]
      exact hframe.headerLen_le.trans (Nat.le_add_right _ _)
    · rwa [hframe.size_append]
  · push Not at hs
    exact ⟨(F.split s).1, (F.split s).2, split_isFrame s, (split_flatten s).symm, hs.1, hs.2⟩

end LengthFraming
