import VNet.Blackbox.Grammar

namespace VNet.Blackbox

def LoadError.num : LoadError → Option ℕ
  | .cannotOpen => none
  | .expectedTwoTokens num _ => some num
  | .invalidIpv4 num _ => some num
  | .duplicateIp num _ => some num
  | .duplicateAgentName num _ => some num
  | .unknownAgent num _ => some num
  | .invalidInternetIp num _ => some num

namespace Config

section
variable (inetPton : Text → Option UInt32)

/-- Pass 1 stops at a line before it enters anything of it. -/
theorem assignIp_error (c₀ : Config) (l : Line) :
    Exec.Triple (· = c₀) (assignIp inetPton l) (fun _ _ => True)
      (fun e c => c = c₀ ∧ isIpv4 inetPton l.second = true ∧ e.num = some l.num) := by
  unfold assignIp
  apply Exec.Triple.ite
  · intro _
    exact Exec.Triple.pure fun _ _ => trivial
  · intro hl
    have hl : isIpv4 inetPton l.second = true := by simpa using hl
    apply Exec.Triple.ite
    · intro _
      exact Exec.Triple.fault fun c hc => ⟨hc, hl, rfl⟩
    · intro _
      apply Exec.Triple.bind (Q := fun _ c => c = c₀)
      · exact Exec.Triple.look fun _ hc => hc
      · intro _
        apply Exec.Triple.ite
        · intro _
          exact Exec.Triple.fault fun c hc => ⟨hc, hl, rfl⟩
        · intro _
          apply Exec.Triple.ite
          · intro _
            exact Exec.Triple.fault fun c hc => ⟨hc, hl, rfl⟩
          · intro _
            exact Exec.Triple.change fun _ _ => trivial

/-- So does pass 2. -/
theorem addRule_error (c₀ : Config) (l : Line) :
    Exec.Triple (· = c₀) (addRule inetPton l) (fun _ _ => True)
      (fun e c => c = c₀ ∧ isIpv4 inetPton l.second = false ∧ e.num = some l.num) := by
  unfold addRule
  apply Exec.Triple.ite
  · intro _
    exact Exec.Triple.pure fun _ _ => trivial
  · intro hl
    have hl : isIpv4 inetPton l.second = false := by simpa using hl
    apply Exec.Triple.bind (Q := fun _ c => c = c₀)
    · exact Exec.Triple.look fun _ hc => hc
    · intro c
      cases c.nameToIp.lookup l.first with
      | none => exact Exec.Triple.fault fun c hc => ⟨hc, hl, rfl⟩
      | some src =>
        apply Exec.Triple.ite
        · intro _
          apply Exec.Triple.ite
          · intro _
            exact Exec.Triple.fault fun c hc => ⟨hc, hl, rfl⟩
          · intro _
            exact Exec.Triple.change fun _ _ => trivial
        · intro _
          cases c.nameToIp.lookup l.second with
          | none => exact Exec.Triple.fault fun c hc => ⟨hc, hl, rfl⟩
          | some dst => exact Exec.Triple.change fun _ _ => trivial

/-- The first line with a token and no second one; `num` is the number of the
first line. -/
def FirstShort (num : ℕ) (raws : List Text) (e : LoadError) : Prop :=
  ∃ before raw after, raws = before ++ raw :: after ∧
    (∀ r ∈ before, counts r = true → 2 ≤ (tokens r).length) ∧
    counts raw = true ∧ (tokens raw).length < 2 ∧ e = .expectedTwoTokens (num + before.length) raw

theorem FirstShort.cons {num : ℕ} {raw : Text} {raws : List Text} {e : LoadError}
    (h : FirstShort (num + 1) raws e) (hraw : counts raw = true → 2 ≤ (tokens raw).length) :
    FirstShort num (raw :: raws) e := by
  obtain ⟨before, short, after, rfl, hbefore, hcounts, htok, rfl⟩ := h
  refine ⟨raw :: before, short, after, rfl, List.forall_mem_cons.mpr ⟨hraw, hbefore⟩, hcounts,
    htok, ?_⟩
  rw [List.length_cons, Nat.add_right_comm, Nat.add_assoc]

/-- Reading the lines stops only there. -/
theorem readLines_error {num : ℕ} {raws : List Text} {e : LoadError}
    (h : readLines num raws = .error e) : FirstShort num raws e := by
  induction raws generalizing num with
  | nil => cases h
  | cons raw raws ih =>
    have hrest : ∀ {line : Option Line}, readLine num raw = .ok line →
        readLines (num + 1) raws = .error e := by
      intro line hline
      unfold readLines at h
      rw [hline] at h
      cases hlines : readLines (num + 1) raws with
      | error e' =>
        rw [hlines] at h
        exact h
      | ok lines =>
        rw [hlines] at h
        cases h
    cases hcounts : counts raw with
    | false => exact (ih (hrest (readLine_skip hcounts num))).cons (by simp [hcounts])
    | true =>
      by_cases htok : 2 ≤ (tokens raw).length
      · obtain ⟨l, hl, -⟩ := readLine_row hcounts htok num
        exact (ih (hrest hl)).cons fun _ => htok
      · have hshort := Nat.lt_of_not_le htok
        unfold readLines at h
        rw [readLine_short hcounts hshort] at h
        cases h
        exact ⟨[], raw, raws, rfl, by simp, hcounts, hshort, rfl⟩

def Gives (lines : List Line) (name : Text) (ip : UInt32) : Prop :=
  ∃ l ∈ lines, IsAssignment inetPton l name ip

/-- The lookups give exactly the assignments among the lines `assigned` and the
rules among the lines `ruled`. -/
structure Entered (assigned ruled : List Line) (c : Config) : Prop where
  agents_iff : ∀ name ip, c.agents.lookup name = some ip ↔ Gives inetPton assigned name ip
  name_iff : ∀ name ip, ip ≠ 0 → (c.findIpForAgent name = ip ↔ Gives inetPton assigned name ip)
  ip_iff : ∀ ip name, name ≠ [] → (c.findAgentForIp ip = name ↔ Gives inetPton assigned name ip)
  agent_iff : ∀ a b, c.canAgentsCommunicate a b = true ↔ ∃ l ∈ ruled, IsAgentRule inetPton l ∧
    ((Gives inetPton assigned l.first a ∧ Gives inetPton assigned l.second b) ∨
      (Gives inetPton assigned l.first b ∧ Gives inetPton assigned l.second a))
  internet_iff : ∀ a ip, c.canReachInternetIp a ip = true ↔
    ∃ l ∈ ruled, IsInternetRule inetPton l ip ∧ Gives inetPton assigned l.first a
  any_internet_iff : ∀ a, c.hasAnyInternetAccess a = true ↔
    ∃ ip, c.canReachInternetIp a ip = true

variable {inetPton} {lines : List Line} {c₁ c : Config}

/-- Pass 2 has read the lines `ruled`, after pass 1 all of them. -/
theorem Entered.of_ruled {ruled : List Line} (h₁ : Assigned inetPton lines c₁)
    (h : Ruled inetPton c₁.nameToIp c₁.ipToName ruled c) : Entered inetPton lines ruled c where
  agents_iff name ip := by
    rw [agents, h.names_eq]
    exact h₁.name_iff name ip
  name_iff name ip h0 := by
    refine findIpForAgent_iff (fun name ip => ?_) name h0
    rw [h.names_eq]
    exact h₁.name_iff name ip
  ip_iff ip name hnil := by
    refine findAgentForIp_iff (fun ip name => ?_) ip hnil
    rw [h.ips_eq]
    exact h₁.ip_iff ip name
  agent_iff a b := by
    rw [canAgentsCommunicate, decide_eq_true_eq, h.agent_iff]
    simp only [h₁.name_iff, Gives]
  internet_iff a ip := by
    rw [canReachInternetIp, decide_eq_true_eq, h.internet_iff]
    simp only [h₁.name_iff, Gives]
  any_internet_iff a := by simp [hasAnyInternetAccess, canReachInternetIp, Finset.ext_iff]

theorem Entered.of_assigned (h : Assigned inetPton lines c) : Entered inetPton lines [] c :=
  .of_ruled h (.start inetPton h)

/-- What the error of `addLines` leaves: the line it stopped at is an address
assignment, or a rule when all of these were entered. -/
theorem addLines_error {e : LoadError} (h : addLines inetPton lines empty = (.error e, c)) :
    ∃ before l after, lines = before ++ l :: after ∧ e.num = some l.num ∧
      ((isIpv4 inetPton l.second = true ∧ Entered inetPton before [] c) ∨
        (isIpv4 inetPton l.second = false ∧ Entered inetPton lines before c)) := by
  have hassign : ∀ done l, Exec.Triple (PassOne inetPton done) (assignIp inetPton l)
      (fun _ => PassOne inetPton (done ++ [l])) (fun _ _ => True) :=
    fun done l => (assignIp_spec inetPton done l).faults fun _ _ _ => trivial
  have hempty : PassOne inetPton [] empty :=
    ⟨Assigned.empty inetPton, by simp [assignments], by simp [assignments], by simp [assignments]⟩
  rcases Exec.bind_eq_error h with hone | ⟨_, t, hone, htwo⟩
  · obtain ⟨before, l, after, t, hlines, hbefore, hl⟩ := Exec.forEach_eq_error hone
    have hpass := Exec.Triple.forEach hassign [] before empty hempty
    rw [hbefore] at hpass
    have hstop := assignIp_error inetPton t l t rfl
    rw [hl] at hstop
    obtain ⟨rfl, hip, hnum⟩ := hstop
    exact ⟨before, l, after, hlines, hnum, Or.inl ⟨hip, .of_assigned hpass.1⟩⟩
  · have hpass := Exec.Triple.forEach hassign [] lines empty hempty
    rw [hone] at hpass
    obtain ⟨before, l, after, u, hlines, hbefore, hl⟩ := Exec.forEach_eq_error htwo
    have hrules : ∀ done l, Exec.Triple (Ruled inetPton t.nameToIp t.ipToName done)
        (addRule inetPton l) (fun _ => Ruled inetPton t.nameToIp t.ipToName (done ++ [l]))
        (fun _ _ => True) :=
      fun done l => (addRule_spec inetPton _ _ done l).faults fun _ _ _ => trivial
    have hruled := Exec.Triple.forEach hrules [] before t (Ruled.start inetPton hpass.1)
    rw [hbefore] at hruled
    have hstop := addRule_error inetPton u l u rfl
    rw [hl] at hstop
    obtain ⟨rfl, hip, hnum⟩ := hstop
    exact ⟨before, l, after, hlines, hnum, Or.inr ⟨hip, .of_ruled hpass.1 hruled⟩⟩

end

/-- A load that fails leaves the configuration alone if the file cannot be
opened. Otherwise what was there before makes no difference: a line without two
tokens, the first of which is reported, leaves nothing; a bad assignment leaves the
assignments of the lines before it; a bad rule leaves all assignments and the rules of
the lines before it. -/
theorem failed_load_entered (inetPton : Text → Option UInt32) (file : Option Text)
    (c c' : Config) (e : LoadError) (h : load inetPton file c = (.error e, c')) :
    (file = none ∧ c' = c) ∨
    ∃ text, file = some text ∧ (∀ c₀, load inetPton (some text) c₀ = (.error e, c')) ∧
      ((FirstShort 1 (getlines text) e ∧ Entered inetPton [] [] c') ∨
        ∃ before l after, readLines 1 (getlines text) = .ok (before ++ l :: after) ∧
          e.num = some l.num ∧
          ((isIpv4 inetPton l.second = true ∧ Entered inetPton before [] c') ∨
            (isIpv4 inetPton l.second = false ∧
              Entered inetPton (before ++ l :: after) before c'))) := by
  cases file with
  | none =>
    cases h
    exact Or.inl ⟨rfl, rfl⟩
  | some text =>
    refine Or.inr ⟨text, rfl, fun c₀ => h, ?_⟩
    unfold load at h
    cases hlines : readLines 1 (getlines text) with
    | error e' =>
      simp only [hlines] at h
      cases h
      exact Or.inl ⟨readLines_error hlines, .of_assigned (Assigned.empty inetPton)⟩
    | ok lines =>
      simp only [hlines] at h
      obtain ⟨before, l, after, rfl, hnum, hleft⟩ := addLines_error h
      exact Or.inr ⟨before, l, after, rfl, hnum, hleft⟩

def loneAddress (s : Text) : Option UInt32 :=
  if s = ['1', '0', '.', '0', '.', '1', '.', '1'] then some 0x0101000a else none

def strayRule : Text :=
  ['a', ' ', '1', '0', '.', '0', '.', '1', '.', '1', '\n', 'a', ' ', 'b', '\n']

theorem failed_load_entered_stray :
    (load loneAddress (some strayRule) empty).1 = .error (.unknownAgent 2 ['b']) ∧
      load loneAddress (some strayRule) empty =
        load loneAddress (some strayRule) (load loneAddress (some strayRule) empty).2 := by
  have hfail : load loneAddress (some strayRule) empty =
      (.error (.unknownAgent 2 ['b']), (load loneAddress (some strayRule) empty).2) :=
    Prod.ext (by decide) rfl
  refine ⟨congrArg Prod.fst hfail, ?_⟩
  rcases failed_load_entered loneAddress (some strayRule) empty _ _ hfail with
    ⟨hcon, -⟩ | ⟨text, htext, hany, -⟩
  · cases hcon
  · cases htext
    exact hfail.trans (hany _).symm

/-- A configuration with an agent is asked to load a file with a bad line, and
the agent is gone. -/
theorem failed_load_not_atomic :
    let c := (load loneAddress (some ['a', ' ', '1', '0', '.', '0', '.', '1', '.', '1', '\n'])
      empty).2
    (load loneAddress (some ['a', ' ', '1', '0', '.', '0', '.', '1', '.', '1', '\n'])
      empty).1 = .ok () ∧
    (load loneAddress (some ['a', '\n']) c).1 = .error (.expectedTwoTokens 1 ['a']) ∧
    c.findIpForAgent ['a'] = 0x0101000a ∧
    (load loneAddress (some ['a', '\n']) c).2.findIpForAgent ['a'] = 0 := by
  refine ⟨?_, ?_, ?_, ?_⟩ <;> decide

end Config

end VNet.Blackbox
