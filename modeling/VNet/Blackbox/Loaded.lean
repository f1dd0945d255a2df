import VNet.Blackbox.Config

namespace VNet.Blackbox.Config

variable (inetPton : Text → Option UInt32)

def IsAssignment (l : Line) (name : Text) (ip : UInt32) : Prop :=
  l.first = name ∧ ipv4 inetPton l.second = some ip

def IsAgentRule (l : Line) : Prop :=
  isIpv4 inetPton l.second = false ∧ ¬ internetPrefix <+: l.second

def IsInternetRule (l : Line) (ip : UInt32) : Prop :=
  isIpv4 inetPton l.second = false ∧ internetPrefix <+: l.second ∧
    ipv4 inetPton (l.second.drop internetPrefix.length) = some ip

def row (l : Line) : Text × Text := (l.first, l.second)

def assignments (rows : List (Text × Text)) : List (Text × UInt32) :=
  rows.filterMap fun r => (ipv4 inetPton r.2).map fun ip => (r.1, ip)

structure AssignOk (rows : List (Text × Text)) : Prop where
  ip_ne_zero : ∀ a ∈ assignments inetPton rows, a.2 ≠ 0
  ips_distinct : ((assignments inetPton rows).map (·.2)).Nodup
  names_distinct : ((assignments inetPton rows).map (·.1)).Nodup

def RuleOk (known : Text → Prop) (r : Text × Text) : Prop :=
  known r.1 ∧
    ((∃ rest ip, r.2 = internetPrefix ++ rest ∧ ipv4 inetPton rest = some ip ∧ ip ≠ 0) ∨
      (¬ internetPrefix <+: r.2 ∧ known r.2))

theorem assignments_append (rows rows' : List (Text × Text)) :
    assignments inetPton (rows ++ rows') =
      assignments inetPton rows ++ assignments inetPton rows' :=
  List.filterMap_append

theorem mem_assignments_iff {lines : List Line} {name : Text} {ip : UInt32} :
    (name, ip) ∈ assignments inetPton (lines.map row) ↔
      ∃ l ∈ lines, IsAssignment inetPton l name ip := by
  unfold assignments IsAssignment
  simp only [List.filterMap_map, List.mem_filterMap, Function.comp, row,
    Option.map_eq_some_iff, Prod.mk.injEq]
  constructor
  · rintro ⟨l, hl, ip', hip, hname, rfl⟩
    exact ⟨l, hl, hname, hip⟩
  · rintro ⟨l, hl, hname, hip⟩
    exact ⟨l, hl, ip, hip, hname, rfl⟩

theorem ipv4_of_parseIpv4 {s : Text} (h : parseIpv4 inetPton s ≠ 0) :
    ipv4 inetPton s = some (parseIpv4 inetPton s) := by
  unfold parseIpv4 at h ⊢
  cases hs : ipv4 inetPton s with
  | none => simp [hs] at h
  | some ip => rfl

theorem ipv4_of_isIpv4 {s : Text} (h : isIpv4 inetPton s = true) :
    ipv4 inetPton s = some (parseIpv4 inetPton s) := by
  unfold isIpv4 at h
  unfold parseIpv4
  cases hs : ipv4 inetPton s with
  | none => simp [hs] at h
  | some ip => rfl

theorem ipv4_eq_none {s : Text} (h : isIpv4 inetPton s = false) : ipv4 inetPton s = none := by
  simpa [isIpv4] using h

theorem isIpv4_of_none {s : Text} (h : ipv4 inetPton s = none) : isIpv4 inetPton s = false := by
  simp [isIpv4, h]

/-- The tables hold exactly the assignments of the lines read so far. -/
structure Assigned (lines : List Line) (c : Config) : Prop where
  name_iff : ∀ name ip, c.nameToIp.lookup name = some ip ↔
    ∃ l ∈ lines, IsAssignment inetPton l name ip
  ip_iff : ∀ ip name, c.ipToName.lookup ip = some name ↔
    ∃ l ∈ lines, IsAssignment inetPton l name ip
  ip_ne_zero : ∀ l ∈ lines, ipv4 inetPton l.second ≠ some 0
  agentAcl_eq : c.agentAcl = ∅
  internetAcl_eq : c.internetAcl = ∅

theorem Assigned.empty : Assigned inetPton [] empty where
  name_iff name ip := by simp [Config.empty]
  ip_iff ip name := by simp [Config.empty]
  ip_ne_zero l hl := by simp at hl
  agentAcl_eq := rfl
  internetAcl_eq := rfl

/-- A line without an address assigns nothing. -/
theorem Assigned.skip {lines : List Line} {c : Config} {l : Line} (h : Assigned inetPton lines c)
    (hl : isIpv4 inetPton l.second = false) : Assigned inetPton (lines ++ [l]) c := by
  have hnone := ipv4_eq_none inetPton hl
  have hiff : ∀ name ip, (∃ k ∈ lines ++ [l], IsAssignment inetPton k name ip) ↔
      ∃ k ∈ lines, IsAssignment inetPton k name ip := by
    intro name ip
    simp [IsAssignment, hnone, or_and_right, exists_or]
  refine ⟨?_, ?_, ?_, h.agentAcl_eq, h.internetAcl_eq⟩
  · intro name ip
    rw [hiff, h.name_iff]
  · intro ip name
    rw [hiff, h.ip_iff]
  · intro k hk
    rcases List.mem_append.mp hk with hk | hk
    · exact h.ip_ne_zero k hk
    · rw [List.mem_singleton.mp hk, hnone]
      simp

/-- A line that assigns a new address to a new name. -/
theorem Assigned.assign {lines : List Line} {c : Config} {l : Line} {ip : UInt32}
    (h : Assigned inetPton lines c) (hip : ipv4 inetPton l.second = some ip) (h0 : ip ≠ 0)
    (hi : c.ipToName.lookup ip = none) (hn : c.nameToIp.lookup l.first = none) :
    Assigned inetPton (lines ++ [l]) { c with
      nameToIp := c.nameToIp.insert l.first ip
      ipToName := c.ipToName.insert ip l.first } := by
  have hiff : ∀ name ip', (∃ k ∈ lines ++ [l], IsAssignment inetPton k name ip') ↔
      (∃ k ∈ lines, IsAssignment inetPton k name ip') ∨ (l.first = name ∧ ip = ip') := by
    intro name ip'
    simp [IsAssignment, hip, or_and_right, exists_or]
  refine ⟨?_, ?_, ?_, h.agentAcl_eq, h.internetAcl_eq⟩
  · intro name ip'
    rw [hiff, ← h.name_iff, FiniteMap.lookup_insert_eq]
    split_ifs with hname
    · subst hname
      simp [hn]
    · simp [Ne.symm hname]
  · intro ip' name
    rw [hiff, ← h.ip_iff, FiniteMap.lookup_insert_eq]
    split_ifs with heq
    · subst heq
      simp [hi]
    · simp [Ne.symm heq]
  · intro k hk
    rcases List.mem_append.mp hk with hk | hk
    · exact h.ip_ne_zero k hk
    · rw [List.mem_singleton.mp hk, hip]
      simpa using h0

def PassOne (lines : List Line) (c : Config) : Prop :=
  Assigned inetPton lines c ∧ AssignOk inetPton (lines.map row)

theorem assignments_snoc_none {lines : List Line} {l : Line} (h : ipv4 inetPton l.second = none) :
    assignments inetPton ((lines ++ [l]).map row) = assignments inetPton (lines.map row) := by
  rw [List.map_append, assignments_append]
  simp [assignments, row, h]

theorem assignments_snoc_some (lines : List Line) {l : Line} {ip : UInt32}
    (h : ipv4 inetPton l.second = some ip) :
    assignments inetPton ((lines ++ [l]).map row) =
      assignments inetPton (lines.map row) ++ [(l.first, ip)] := by
  rw [List.map_append, assignments_append]
  simp [assignments, row, h]

/-- An address that is zero or already taken, or a name already taken, breaks
the order of the assignments. -/
theorem AssignOk.snoc_iff {lines : List Line} {c : Config} {l : Line} {ip : UInt32}
    (hc : PassOne inetPton lines c) (hip : ipv4 inetPton l.second = some ip) :
    AssignOk inetPton ((lines ++ [l]).map row) ↔
      ip ≠ 0 ∧ c.ipToName.lookup ip = none ∧ c.nameToIp.lookup l.first = none := by
  have hnew := assignments_snoc_some inetPton lines hip
  -- the tables hold what was assigned so far, so a lookup says whether there is a clash
  have hip_mem : ip ∈ (assignments inetPton (lines.map row)).map (·.2) ↔
      c.ipToName.lookup ip ≠ none := by
    rw [Option.ne_none_iff_exists']
    simp only [hc.1.ip_iff, ← mem_assignments_iff]
    simp
  have hname_mem : l.first ∈ (assignments inetPton (lines.map row)).map (·.1) ↔
      c.nameToIp.lookup l.first ≠ none := by
    rw [Option.ne_none_iff_exists']
    simp only [hc.1.name_iff, ← mem_assignments_iff]
    simp
  constructor
  · intro h
    have hmem : (l.first, ip) ∈ assignments inetPton ((lines ++ [l]).map row) := by
      rw [hnew]
      simp
    refine ⟨h.ip_ne_zero _ hmem, ?_, ?_⟩
    · have hnodup := h.ips_distinct
      rw [hnew, List.map_append, List.nodup_append] at hnodup
      by_contra hsome
      exact hnodup.2.2 ip (hip_mem.mpr hsome) ip (by simp) rfl
    · have hnodup := h.names_distinct
      rw [hnew, List.map_append, List.nodup_append] at hnodup
      by_contra hsome
      exact hnodup.2.2 l.first (hname_mem.mpr hsome) l.first (by simp) rfl
  · rintro ⟨h0, hi, hn⟩
    refine ⟨?_, ?_, ?_⟩
    · intro a ha
      rw [hnew] at ha
      rcases List.mem_append.mp ha with ha | ha
      · exact hc.2.ip_ne_zero a ha
      · rw [List.mem_singleton.mp ha]
        exact h0
    · rw [hnew, List.map_append, List.nodup_append]
      refine ⟨hc.2.ips_distinct, by simp, ?_⟩
      intro x hx y hy heq
      have hy' : y = ip := by simpa using hy
      rw [heq, hy', hip_mem] at hx
      exact hx hi
    · rw [hnew, List.map_append, List.nodup_append]
      refine ⟨hc.2.names_distinct, by simp, ?_⟩
      intro x hx y hy heq
      have hy' : y = l.first := by simpa using hy
      rw [heq, hy', hname_mem] at hx
      exact hx hn

/-- Pass 1 goes on with a line exactly when the assignments stay in order. -/
theorem assignIp_spec (lines : List Line) (l : Line) :
    Exec.Triple (PassOne inetPton lines) (assignIp inetPton l)
      (fun _ => PassOne inetPton (lines ++ [l]))
      (fun _ _ => ¬ AssignOk inetPton ((lines ++ [l]).map row)) := by
  unfold assignIp
  apply Exec.Triple.ite
  · -- a rule waits for the second pass
    intro hl
    have hl : isIpv4 inetPton l.second = false := by simpa using hl
    apply Exec.Triple.pure
    intro c hc
    refine ⟨hc.1.skip inetPton hl, ?_⟩
    obtain ⟨h₁, h₂, h₃⟩ := hc.2
    rw [← assignments_snoc_none inetPton (ipv4_eq_none inetPton hl)] at h₁ h₂ h₃
    exact ⟨h₁, h₂, h₃⟩
  · -- the three ways out are the three conditions of `AssignOk.snoc_iff`
    intro hl
    have hip := ipv4_of_isIpv4 inetPton (by simpa using hl)
    apply Exec.Triple.ite
    · intro h0
      apply Exec.Triple.fault
      intro c hc
      rw [AssignOk.snoc_iff inetPton hc hip]
      exact fun h => h.1 h0
    · intro h0
      apply Exec.Triple.bind (Q := fun c' c => c' = c ∧ PassOne inetPton lines c)
      · exact Exec.Triple.look fun c hc => ⟨rfl, hc⟩
      · intro c
        apply Exec.Triple.ite
        · intro hi
          apply Exec.Triple.fault
          rintro c' ⟨rfl, hc⟩
          rw [AssignOk.snoc_iff inetPton hc hip]
          intro h
          rw [h.2.1] at hi
          simp at hi
        · intro hi
          apply Exec.Triple.ite
          · intro hn
            apply Exec.Triple.fault
            rintro c' ⟨rfl, hc⟩
            rw [AssignOk.snoc_iff inetPton hc hip]
            intro h
            rw [h.2.2] at hn
            simp at hn
          · intro hn
            apply Exec.Triple.change
            rintro c' ⟨rfl, hc⟩
            have hi : c.ipToName.lookup (parseIpv4 inetPton l.second) = none := by simpa using hi
            have hn : c.nameToIp.lookup l.first = none := by simpa using hn
            exact ⟨hc.1.assign inetPton hip h0 hi hn,
              (AssignOk.snoc_iff inetPton hc hip).mpr ⟨h0, hi, hn⟩⟩

/-- The access tables hold exactly the rules of the lines read so far, and these
name known agents. -/
structure Ruled (names : FiniteMap Text UInt32) (ips : FiniteMap UInt32 Text) (lines : List Line)
    (c : Config) : Prop where
  names_eq : c.nameToIp = names
  ips_eq : c.ipToName = ips
  agent_iff : ∀ a b, b ∈ c.agentAcl.members a ↔ ∃ l ∈ lines, IsAgentRule inetPton l ∧
    ((names.lookup l.first = some a ∧ names.lookup l.second = some b) ∨
      (names.lookup l.first = some b ∧ names.lookup l.second = some a))
  internet_iff : ∀ a ip, ip ∈ c.internetAcl.members a ↔
    ∃ l ∈ lines, IsInternetRule inetPton l ip ∧ names.lookup l.first = some a
  agent_known : ∀ l ∈ lines, IsAgentRule inetPton l →
    (names.lookup l.first).isSome ∧ (names.lookup l.second).isSome
  internet_known : ∀ l ∈ lines, isIpv4 inetPton l.second = false → internetPrefix <+: l.second →
    (names.lookup l.first).isSome ∧ ∃ ip, ip ≠ 0 ∧ IsInternetRule inetPton l ip

variable {names : FiniteMap Text UInt32} {ips : FiniteMap UInt32 Text}

theorem Ruled.start {c : Config} {lines : List Line} (h : Assigned inetPton lines c) :
    Ruled inetPton c.nameToIp c.ipToName [] c where
  names_eq := rfl
  ips_eq := rfl
  agent_iff a b := by simp [h.agentAcl_eq, FiniteMap.members]
  internet_iff a ip := by simp [h.internetAcl_eq, FiniteMap.members]
  agent_known l hl := by simp at hl
  internet_known l hl := by simp at hl

/-- What a new line has to give for the access tables to stay exact. -/
theorem Ruled.snoc {lines : List Line} {c c' : Config} {l : Line}
    (h : Ruled inetPton names ips lines c)
    (hn : c'.nameToIp = c.nameToIp) (hi : c'.ipToName = c.ipToName)
    (hagent : ∀ a b, b ∈ c'.agentAcl.members a ↔ b ∈ c.agentAcl.members a ∨ IsAgentRule inetPton l ∧
      ((names.lookup l.first = some a ∧ names.lookup l.second = some b) ∨
        (names.lookup l.first = some b ∧ names.lookup l.second = some a)))
    (hinet : ∀ a ip, ip ∈ c'.internetAcl.members a ↔ ip ∈ c.internetAcl.members a ∨
      IsInternetRule inetPton l ip ∧ names.lookup l.first = some a)
    (hknown : IsAgentRule inetPton l →
      (names.lookup l.first).isSome ∧ (names.lookup l.second).isSome)
    (hinternet : isIpv4 inetPton l.second = false → internetPrefix <+: l.second →
      (names.lookup l.first).isSome ∧ ∃ ip, ip ≠ 0 ∧ IsInternetRule inetPton l ip) :
    Ruled inetPton names ips (lines ++ [l]) c' where
  names_eq := hn.trans h.names_eq
  ips_eq := hi.trans h.ips_eq
  agent_iff a b := by
    rw [hagent, h.agent_iff]
    simp only [List.mem_append, List.mem_singleton, or_and_right, exists_or, exists_eq_left]
  internet_iff a ip := by
    rw [hinet, h.internet_iff]
    simp only [List.mem_append, List.mem_singleton, or_and_right, exists_or, exists_eq_left]
  agent_known k hk := by
    rcases List.mem_append.mp hk with hk | hk
    · exact h.agent_known k hk
    · rw [List.mem_singleton.mp hk]
      exact hknown
  internet_known k hk := by
    rcases List.mem_append.mp hk with hk | hk
    · exact h.internet_known k hk
    · rw [List.mem_singleton.mp hk]
      exact hinternet

/-- Pass 2 on an assignment. -/
theorem Ruled.skip {lines : List Line} {c : Config} {l : Line}
    (h : Ruled inetPton names ips lines c)
    (hl : isIpv4 inetPton l.second = true) : Ruled inetPton names ips (lines ++ [l]) c := by
  apply h.snoc inetPton rfl rfl
  · simp [IsAgentRule, hl]
  · simp [IsInternetRule, hl]
  · simp [IsAgentRule, hl]
  · simp [hl]

theorem Ruled.internet {lines : List Line} {c : Config} {l : Line} {src ip : UInt32}
    (h : Ruled inetPton names ips lines c) (hl : isIpv4 inetPton l.second = false)
    (hpre : internetPrefix <+: l.second) (hsrc : names.lookup l.first = some src)
    (hip : ipv4 inetPton (l.second.drop internetPrefix.length) = some ip) (h0 : ip ≠ 0) :
    Ruled inetPton names ips (lines ++ [l])
      { c with internetAcl := c.internetAcl.addMember src ip } := by
  refine h.snoc inetPton ?_ ?_ ?_ ?_ ?_ ?_
  · rfl
  · rfl
  · simp [IsAgentRule, hpre]
  · intro a x
    rw [FiniteMap.mem_members_addMember, or_comm]
    simp [IsInternetRule, hl, hpre, hip, hsrc, and_comm, eq_comm]
  · simp [IsAgentRule, hpre]
  · intro _ _
    exact ⟨by simp [hsrc], ip, h0, hl, hpre, hip⟩

theorem Ruled.agent {lines : List Line} {c : Config} {l : Line} {src dst : UInt32}
    (h : Ruled inetPton names ips lines c) (hl : isIpv4 inetPton l.second = false)
    (hpre : ¬ internetPrefix <+: l.second) (hsrc : names.lookup l.first = some src)
    (hdst : names.lookup l.second = some dst) :
    Ruled inetPton names ips (lines ++ [l])
      { c with agentAcl := (c.agentAcl.addMember src dst).addMember dst src } := by
  refine h.snoc inetPton ?_ ?_ ?_ ?_ ?_ ?_
  · rfl
  · rfl
  · intro a b
    rw [FiniteMap.mem_members_addMember, FiniteMap.mem_members_addMember]
    simp only [IsAgentRule, hl, hpre, hsrc, hdst, Option.some.injEq, not_false_eq_true, and_self,
      true_and]
    constructor
    · rintro (⟨rfl, rfl⟩ | ⟨rfl, rfl⟩ | hold)
      · exact Or.inr (Or.inr ⟨rfl, rfl⟩)
      · exact Or.inr (Or.inl ⟨rfl, rfl⟩)
      · exact Or.inl hold
    · rintro (hold | ⟨rfl, rfl⟩ | ⟨rfl, rfl⟩)
      · exact Or.inr (Or.inr hold)
      · exact Or.inr (Or.inl ⟨rfl, rfl⟩)
      · exact Or.inl ⟨rfl, rfl⟩
  · simp [IsInternetRule, hpre]
  · simp [hsrc, hdst]
  · intro _ hp
    exact absurd hp hpre

variable (names ips) in
/-- Pass 2 goes on with a line exactly when it is a rule about known agents. -/
theorem addRule_spec (lines : List Line) (l : Line) :
    Exec.Triple (Ruled inetPton names ips lines) (addRule inetPton l)
      (fun _ => Ruled inetPton names ips (lines ++ [l]))
      (fun _ _ => ipv4 inetPton l.second = none ∧
        ¬ RuleOk inetPton (fun name => names.lookup name ≠ none) (row l)) := by
  unfold addRule
  apply Exec.Triple.ite
  · intro hl
    apply Exec.Triple.pure
    intro c hc
    exact hc.skip inetPton hl
  · intro hl
    have hl : isIpv4 inetPton l.second = false := by simpa using hl
    have hnone := ipv4_eq_none inetPton hl
    apply Exec.Triple.bind
      (Q := fun c' c => c'.nameToIp = names ∧ Ruled inetPton names ips lines c)
    · exact Exec.Triple.look fun c hc => ⟨hc.names_eq, hc⟩
    · intro c c' hc
      obtain ⟨rfl, hc⟩ := hc
      -- the source has to be known whatever the rule says
      cases hsrc : c.nameToIp.lookup l.first with
      | none => exact ⟨hnone, fun h => h.1 hsrc⟩
      | some src =>
        by_cases hpre : internetPrefix <+: l.second
        · by_cases h0 : parseIpv4 inetPton (l.second.drop internetPrefix.length) = 0
          · simp only [if_pos hpre, if_pos h0]
            refine ⟨hnone, fun h => ?_⟩
            rcases h.2 with ⟨rest, ip, heq, hip, hne⟩ | ⟨hnot, _⟩
            · have hdrop : l.second.drop internetPrefix.length = rest := by
                rw [show l.second = internetPrefix ++ rest from heq, List.drop_left]
              rw [hdrop, parseIpv4, hip] at h0
              exact hne h0
            · exact hnot hpre
          · simp only [if_pos hpre, if_neg h0]
            exact hc.internet inetPton hl hpre hsrc (ipv4_of_parseIpv4 inetPton h0) h0
        · simp only [if_neg hpre]
          cases hdst : c.nameToIp.lookup l.second with
          | none =>
            refine ⟨hnone, fun h => ?_⟩
            rcases h.2 with ⟨rest, ip, heq, _⟩ | ⟨_, hknown⟩
            · exact hpre ⟨rest, heq.symm⟩
            · exact hknown hdst
          | some dst => exact hc.agent inetPton hl hpre hsrc hdst

theorem readLine_first {num : ℕ} {raw : Text} {l : Line} (h : readLine num raw = .ok (some l)) :
    l.first ≠ [] := by
  unfold readLine at h
  split at h
  · simp at h
  · split at h
    · simp at h
    · dsimp only at h
      split at h
      · simp at h
      · next htok =>
        have hl : _ = l := Option.some.inj (Except.ok.inj h)
        rw [← hl]
        exact fun hnil => htok (Or.inl hnil)

theorem readLines_first {num : ℕ} {raws : List Text} {lines : List Line}
    (h : readLines num raws = .ok lines) : ∀ l ∈ lines, l.first ≠ [] := by
  induction raws generalizing num lines with
  | nil =>
    have hl : [] = lines := Except.ok.inj h
    rw [← hl]
    simp
  | cons raw raws ih =>
    unfold readLines at h
    cases hraw : readLine num raw with
    | error e =>
      rw [hraw] at h
      exact absurd h (by intro h'; cases h')
    | ok line =>
      cases hrest : readLines (num + 1) raws with
      | error e =>
        rw [hraw, hrest] at h
        exact absurd h (by intro h'; cases h')
      | ok rest =>
        rw [hraw, hrest] at h
        have hl : line.toList ++ rest = lines := Except.ok.inj h
        rw [← hl]
        intro l hmem
        rcases List.mem_append.mp hmem with hmem | hmem
        · rw [Option.mem_toList] at hmem
          rw [Option.mem_def.mp hmem] at hraw
          exact readLine_first hraw
        · exact ih hrest l hmem

def fileLines (text : Text) : List Line :=
  match readLines 1 (getlines text) with
  | .error _ => []
  | .ok lines => lines

def Assigns (text : Text) (name : Text) (ip : UInt32) : Prop :=
  ∃ l ∈ fileLines text, IsAssignment inetPton l name ip

def AgentRule (text : Text) (first second : Text) : Prop :=
  ∃ l ∈ fileLines text, IsAgentRule inetPton l ∧ l.first = first ∧ l.second = second

def InternetRule (text : Text) (name : Text) (ip : UInt32) : Prop :=
  ∃ l ∈ fileLines text, IsInternetRule inetPton l ip ∧ l.first = name

/-- The lookups of a configuration give exactly what the file says. -/
structure Loaded (text : Text) (c : Config) : Prop where
  name_iff : ∀ name ip, c.nameToIp.lookup name = some ip ↔ Assigns inetPton text name ip
  ip_iff : ∀ ip name, c.ipToName.lookup ip = some name ↔ Assigns inetPton text name ip
  ip_ne_zero : ∀ name ip, Assigns inetPton text name ip → ip ≠ 0
  name_ne_nil : ∀ name ip, Assigns inetPton text name ip → name ≠ []
  agent_iff : ∀ a b, c.canAgentsCommunicate a b = true ↔ ∃ first second,
    (AgentRule inetPton text first second ∨ AgentRule inetPton text second first) ∧
      Assigns inetPton text first a ∧ Assigns inetPton text second b
  internet_iff : ∀ a ip, c.canReachInternetIp a ip = true ↔ ∃ name,
    InternetRule inetPton text name ip ∧ Assigns inetPton text name a

/-- The rows of a file are in order: its assignments are, and its other rows are
rules about the agents it names. -/
def RowsOk (rows : List (Text × Text)) : Prop :=
  AssignOk inetPton rows ∧ ∀ r ∈ rows, ipv4 inetPton r.2 = none →
    RuleOk inetPton (fun name => name ∈ (assignments inetPton rows).map (·.1)) r

theorem Assigned.known_iff {lines : List Line} {c : Config} (h : Assigned inetPton lines c)
    (name : Text) : c.nameToIp.lookup name ≠ none ↔
      name ∈ (assignments inetPton (lines.map row)).map (·.1) := by
  rw [Option.ne_none_iff_exists']
  simp only [h.name_iff, ← mem_assignments_iff]
  simp

/-- Rows in order stay so when the last ones are taken away. -/
theorem AssignOk.of_append (rows rows' : List (Text × Text))
    (h : AssignOk inetPton (rows ++ rows')) : AssignOk inetPton rows := by
  obtain ⟨h₁, h₂, h₃⟩ := h
  rw [assignments_append] at h₁ h₂ h₃
  rw [List.map_append] at h₂ h₃
  exact ⟨fun a ha => h₁ a (List.mem_append_left _ ha), (List.nodup_append.mp h₂).1,
    (List.nodup_append.mp h₃).1⟩

theorem passOne_spec (lines : List Line) :
    Exec.Triple (· = empty) (Exec.forEach (assignIp inetPton) lines)
      (fun _ => PassOne inetPton lines) (fun _ _ => ¬ RowsOk inetPton (lines.map row)) := by
  have hstep : ∀ done l rest, lines = done ++ l :: rest →
      Exec.Triple (PassOne inetPton done) (assignIp inetPton l)
        (fun _ => PassOne inetPton (done ++ [l]))
        (fun _ _ => ¬ RowsOk inetPton (lines.map row)) := by
    intro done l rest hlines
    apply (assignIp_spec inetPton done l).faults
    intro _ _ hbad hok
    apply hbad
    apply AssignOk.of_append inetPton _ (rest.map row)
    have heq : (done ++ [l]).map row ++ rest.map row = lines.map row := by
      rw [hlines]
      simp
    rw [heq]
    exact hok.1
  apply (Exec.Triple.forEach_split hstep [] lines rfl).weaken
  intro c hc
  rw [hc]
  exact ⟨Assigned.empty inetPton, by simp [assignments], by simp [assignments],
    by simp [assignments]⟩

theorem passTwo_spec {lines : List Line} {c : Config} (hc : PassOne inetPton lines c) :
    Exec.Triple (· = c) (Exec.forEach (addRule inetPton) lines)
      (fun _ => Ruled inetPton c.nameToIp c.ipToName lines)
      (fun _ _ => ¬ RowsOk inetPton (lines.map row)) := by
  have hstep : ∀ done l rest, lines = done ++ l :: rest →
      Exec.Triple (Ruled inetPton c.nameToIp c.ipToName done) (addRule inetPton l)
        (fun _ => Ruled inetPton c.nameToIp c.ipToName (done ++ [l]))
        (fun _ _ => ¬ RowsOk inetPton (lines.map row)) := by
    intro done l rest hlines
    apply (addRule_spec inetPton c.nameToIp c.ipToName done l).faults
    intro _ _ hbad hok
    apply hbad.2
    have hmem : row l ∈ lines.map row := List.mem_map_of_mem (by simp [hlines])
    have hrule := hok.2 (row l) hmem hbad.1
    simpa only [hc.1.known_iff] using hrule
  apply (Exec.Triple.forEach_split hstep [] lines rfl).weaken
  intro c' hc'
  rw [hc']
  exact Ruled.start inetPton hc.1

/-- Both passes together accept exactly the rows in order. -/
theorem addLines_spec (lines : List Line) :
    Exec.Triple (· = empty) (addLines inetPton lines)
      (fun _ c => ∃ c₁, PassOne inetPton lines c₁ ∧
        Ruled inetPton c₁.nameToIp c₁.ipToName lines c)
      (fun _ _ => ¬ RowsOk inetPton (lines.map row)) := by
  apply Exec.Triple.bind (passOne_spec inetPton lines)
  intro _ c hc
  exact (passTwo_spec inetPton hc).values (fun _ _ hruled => ⟨c, hc, hruled⟩) c rfl

/-- A load that succeeds has read the lines and run both passes over them. -/
theorem load_ok {text : Text} {c₀ c : Config} (h : load inetPton (some text) c₀ = (.ok (), c)) :
    readLines 1 (getlines text) = .ok (fileLines text) ∧
      addLines inetPton (fileLines text) empty = (.ok (), c) := by
  unfold load at h
  unfold fileLines
  cases hl : readLines 1 (getlines text) with
  | error e => simp [hl] at h
  | ok lines =>
    simp only [hl] at h
    exact ⟨rfl, h⟩

/-- A successful load enters exactly what the file says. -/
theorem load_loaded {text : Text} {c₀ c : Config}
    (h : load inetPton (some text) c₀ = (.ok (), c)) : Loaded inetPton text c := by
  obtain ⟨hlines, hadd⟩ := load_ok inetPton h
  have hspec := addLines_spec inetPton (fileLines text) empty rfl
  rw [hadd] at hspec
  -- `c₁` is what the first pass made; the second one leaves its two tables alone
  obtain ⟨c₁, ⟨hassigned, _⟩, hruled⟩ := hspec
  have hname : ∀ name ip, c₁.nameToIp.lookup name = some ip ↔ Assigns inetPton text name ip :=
    hassigned.name_iff
  refine ⟨?_, ?_, ?_, ?_, ?_, ?_⟩
  · rw [hruled.names_eq]
    exact hname
  · rw [hruled.ips_eq]
    exact hassigned.ip_iff
  · intro name ip hip h0
    obtain ⟨l, hl, _, hsecond⟩ := hip
    rw [h0] at hsecond
    exact hassigned.ip_ne_zero l hl hsecond
  · intro name ip hip
    obtain ⟨l, hl, hfirst, _⟩ := hip
    rw [← hfirst]
    exact readLines_first hlines l hl
  · intro a b
    simp only [canAgentsCommunicate, decide_eq_true_eq]
    rw [hruled.agent_iff]
    simp only [hname]
    constructor
    · rintro ⟨l, hl, hrule, ⟨ha, hb⟩ | ⟨hb, ha⟩⟩
      · exact ⟨l.first, l.second, Or.inl ⟨l, hl, hrule, rfl, rfl⟩, ha, hb⟩
      · exact ⟨l.second, l.first, Or.inr ⟨l, hl, hrule, rfl, rfl⟩, ha, hb⟩
    · rintro ⟨_, _, ⟨l, hl, hrule, rfl, rfl⟩ | ⟨l, hl, hrule, rfl, rfl⟩, ha, hb⟩
      · exact ⟨l, hl, hrule, Or.inl ⟨ha, hb⟩⟩
      · exact ⟨l, hl, hrule, Or.inr ⟨hb, ha⟩⟩
  · intro a ip
    simp only [canReachInternetIp, decide_eq_true_eq]
    rw [hruled.internet_iff]
    simp only [hname]
    constructor
    · rintro ⟨l, hl, hrule, ha⟩
      exact ⟨l.first, ⟨l, hl, hrule, rfl⟩, ha⟩
    · rintro ⟨_, ⟨l, hl, hrule, rfl⟩, ha⟩
      exact ⟨l, hl, hrule, ha⟩

end VNet.Blackbox.Config
