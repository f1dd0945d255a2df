import Mathlib.Data.List.TakeWhile
import VNet.Blackbox.Loaded

namespace VNet.Blackbox.Config

def tokens (s : Text) : List Text := (s.splitOnP isSpace).filter fun t => t ≠ []

theorem tokens_nil : tokens [] = [] := rfl

theorem tokens_cons_space {c : Char} (hc : isSpace c = true) (s : Text) :
    tokens (c :: s) = tokens s := by
  simp [tokens, List.splitOnP_cons_eq_if_modifyHead, hc]

/-- White space in front of a line makes no difference. -/
theorem tokens_dropWhile {p : Char → Bool} (hp : ∀ c, p c = true → isSpace c = true) (s : Text) :
    tokens (s.dropWhile p) = tokens s := by
  induction s with
  | nil => rfl
  | cons c s ih =>
    rw [List.dropWhile_cons]
    split_ifs with hc
    · rw [ih, tokens_cons_space (hp c hc)]
    · rfl

/-- The first piece, and the tokens behind it. -/
theorem tokens_split (s : Text) :
    tokens s = [s.takeWhile fun c => !isSpace c].filter (fun t => t ≠ []) ++
      tokens (s.dropWhile fun c => !isSpace c) := by
  have hpiece : ∀ c ∈ s.takeWhile fun c => !isSpace c, isSpace c = false := by
    intro c hc
    simpa using List.mem_takeWhile_imp hc
  cases hrest : s.dropWhile fun c => !isSpace c with
  | nil =>
    have hs : s.takeWhile (fun c => !isSpace c) = s := by
      have happ := List.takeWhile_append_dropWhile (p := fun c => !isSpace c) (l := s)
      rwa [hrest, List.append_nil] at happ
    rw [hs] at hpiece
    rw [hs, tokens, List.splitOnP_eq_singleton hpiece, tokens_nil, List.append_nil]
  | cons c rest =>
    have hc : isSpace c = true := by
      have hhead := List.head_dropWhile_not (fun c => !isSpace c) (l := s) (by simp [hrest])
      simpa [hrest] using hhead
    have hs : s = s.takeWhile (fun c => !isSpace c) ++ c :: rest := by
      rw [← hrest, List.takeWhile_append_dropWhile]
    conv_lhs => rw [hs, tokens, List.splitOnP_append_cons_of_forall_mem hpiece c hc]
    rw [tokens_cons_space hc, ← List.singleton_append, List.filter_append]
    rfl

/-- `iss >> token` takes the first token, or nothing when there is none. -/
theorem tokens_extract_nil {s : Text} (h : (extract s).1 = []) : tokens s = [] := by
  -- a character behind the white space would start a token
  have hall : s.dropWhile isSpace = [] := by
    cases hrest : s.dropWhile isSpace with
    | nil => rfl
    | cons c rest =>
      have hc := List.head_dropWhile_not isSpace (l := s) (by simp [hrest])
      simp only [hrest, List.head_cons] at hc
      simp [extract, hrest, hc] at h
  rw [← tokens_dropWhile (fun _ hc => hc) s, hall]
  rfl

theorem tokens_extract_cons {s : Text} (h : (extract s).1 ≠ []) :
    tokens s = (extract s).1 :: tokens (extract s).2 := by
  have hfilter : [(extract s).1].filter (fun t => t ≠ []) = [(extract s).1] := by simp [h]
  rw [← tokens_dropWhile (fun _ hc => hc) s, tokens_split]
  change [(extract s).1].filter (fun t => t ≠ []) ++ tokens (extract s).2 = _
  rw [hfilter]
  rfl

def counts (raw : Text) : Bool :=
  match raw.dropWhile fun c => c = ' ' || c = '\t' with
  | [] => false
  | c :: _ => c ≠ '#'

def firstTwo (raw : Text) : Text × Text := ((tokens raw).getD 0 [], (tokens raw).getD 1 [])

theorem tokens_blank (raw : Text) :
    tokens (raw.dropWhile fun c => c = ' ' || c = '\t') = tokens raw := by
  apply tokens_dropWhile
  intro c hc
  have hc : c = ' ' ∨ c = '\t' := by simpa using hc
  rcases hc with rfl | rfl <;> rfl

theorem readLine_skip {raw : Text} (h : counts raw = false) (num : ℕ) :
    readLine num raw = .ok none := by
  unfold counts at h
  unfold readLine
  cases hraw : raw.dropWhile fun c => c = ' ' || c = '\t' with
  | nil => rfl
  | cons c cs =>
    rw [hraw] at h
    have hc : c = '#' := by simpa using h
    dsimp only
    rw [if_pos hc]

/-- What a line that counts starts with, behind the blanks. -/
theorem counts_cons {raw : Text} (h : counts raw = true) :
    ∃ c cs, (raw.dropWhile fun c => c = ' ' || c = '\t') = c :: cs ∧ c ≠ '#' ∧
      tokens raw = tokens (c :: cs) := by
  unfold counts at h
  cases hraw : raw.dropWhile fun c => c = ' ' || c = '\t' with
  | nil => simp [hraw] at h
  | cons c cs =>
    rw [hraw] at h
    exact ⟨c, cs, rfl, by simpa using h, by rw [← hraw, tokens_blank]⟩

theorem readLine_short {raw : Text} (h : counts raw = true) (htok : (tokens raw).length < 2)
    (num : ℕ) : readLine num raw = .error (.expectedTwoTokens num raw) := by
  obtain ⟨c, cs, hraw, hc, htokens⟩ := counts_cons h
  rw [htokens] at htok
  unfold readLine
  rw [hraw]
  dsimp only
  rw [if_neg hc]
  apply if_pos
  by_contra hboth
  rw [not_or] at hboth
  rw [tokens_extract_cons hboth.1, tokens_extract_cons hboth.2] at htok
  simp only [List.length_cons] at htok
  omega

theorem readLine_row {raw : Text} (h : counts raw = true) (htok : 2 ≤ (tokens raw).length)
    (num : ℕ) : ∃ l, readLine num raw = .ok (some l) ∧ row l = firstTwo raw := by
  obtain ⟨c, cs, hraw, hc, htokens⟩ := counts_cons h
  rw [htokens] at htok
  have hfirst : (extract (c :: cs)).1 ≠ [] := by
    intro hnil
    rw [tokens_extract_nil hnil] at htok
    simp at htok
  have hsecond : (extract (extract (c :: cs)).2).1 ≠ [] := by
    intro hnil
    rw [tokens_extract_cons hfirst, tokens_extract_nil hnil] at htok
    simp at htok
  unfold readLine firstTwo
  rw [hraw, htokens, tokens_extract_cons hfirst, tokens_extract_cons hsecond]
  dsimp only
  rw [if_neg hc, if_neg (by simp [hfirst, hsecond])]
  exact ⟨_, rfl, rfl⟩

/-- The rows of a file: the first two tokens of each of its lines that count. -/
def rowsOf (raws : List Text) : List (Text × Text) := (raws.filter counts).map firstTwo

def TwoTokens (raws : List Text) : Prop :=
  ∀ raw ∈ raws, counts raw = true → 2 ≤ (tokens raw).length

/-- The lines are read exactly when each has its two tokens, and then they give
the rows of the file. -/
theorem readLines_spec (raws : List Text) (num : ℕ) :
    match readLines num raws with
    | .ok lines => TwoTokens raws ∧ lines.map row = rowsOf raws
    | .error _ => ¬ TwoTokens raws := by
  induction raws generalizing num with
  | nil => exact ⟨by simp [TwoTokens], rfl⟩
  | cons raw raws ih =>
    have hrest := ih (num + 1)
    unfold readLines
    cases hcounts : counts raw with
    | false =>
      -- a blank line or a comment
      rw [readLine_skip hcounts]
      have htwo : TwoTokens (raw :: raws) ↔ TwoTokens raws := by simp [TwoTokens, hcounts]
      cases hlines : readLines (num + 1) raws with
      | error e =>
        rw [hlines] at hrest
        exact fun h => hrest (htwo.mp h)
      | ok lines =>
        rw [hlines] at hrest
        refine ⟨htwo.mpr hrest.1, ?_⟩
        rw [rowsOf, List.filter_cons_of_neg (by simp [hcounts])]
        exact hrest.2
    | true =>
      by_cases htok : 2 ≤ (tokens raw).length
      · obtain ⟨l, hl, hrow⟩ := readLine_row hcounts htok num
        have htwo : TwoTokens (raw :: raws) ↔ TwoTokens raws := by simp [TwoTokens, htok]
        rw [hl]
        cases hlines : readLines (num + 1) raws with
        | error e =>
          rw [hlines] at hrest
          exact fun h => hrest (htwo.mp h)
        | ok lines =>
          rw [hlines] at hrest
          refine ⟨htwo.mpr hrest.1, ?_⟩
          rw [rowsOf, List.filter_cons_of_pos hcounts, List.map_cons, ← hrow]
          exact congrArg (row l :: ·) hrest.2
      · rw [readLine_short hcounts (Nat.lt_of_not_le htok)]
        exact fun h => htok (h raw List.mem_cons_self hcounts)

section
variable (inetPton : Text → Option UInt32)

def rows (text : Text) : List (Text × Text) := rowsOf (getlines text)

/-- A file that `load` accepts: every line that counts has two tokens; addresses
and names are assigned once, and no address is zero; and every other line is a
rule about the agents of the file. -/
def Grammar (text : Text) : Prop := TwoTokens (getlines text) ∧ RowsOk inetPton (rows text)

def Owns (text name : Text) (ip : UInt32) : Prop :=
  (name, ip) ∈ assignments inetPton (rows text)

/-- What the lookups of a configuration say of a file. -/
structure Tables (text : Text) (c : Config) : Prop where
  name_iff : ∀ name ip, ip ≠ 0 → (c.findIpForAgent name = ip ↔ Owns inetPton text name ip)
  ip_iff : ∀ ip name, name ≠ [] → (c.findAgentForIp ip = name ↔ Owns inetPton text name ip)
  inverse : ∀ name ip, name ≠ [] → ip ≠ 0 →
    (c.findIpForAgent name = ip ↔ c.findAgentForIp ip = name)
  agent_iff : ∀ a b, c.canAgentsCommunicate a b = true ↔
    ∃ r ∈ rows text, ipv4 inetPton r.2 = none ∧ ¬ internetPrefix <+: r.2 ∧
      ((Owns inetPton text r.1 a ∧ Owns inetPton text r.2 b) ∨
        (Owns inetPton text r.1 b ∧ Owns inetPton text r.2 a))
  internet_iff : ∀ a ip, c.canReachInternetIp a ip = true ↔
    ∃ r ∈ rows text, ipv4 inetPton r.2 = none ∧ Owns inetPton text r.1 a ∧
      ∃ rest, r.2 = internetPrefix ++ rest ∧ ipv4 inetPton rest = some ip
  any_internet_iff : ∀ a, c.hasAnyInternetAccess a = true ↔
    ∃ ip, c.canReachInternetIp a ip = true

variable {inetPton} {text : Text} {c₀ c : Config}

/-- The lines of a file that was read are its rows. -/
theorem fileLines_rows (h : readLines 1 (getlines text) = .ok (fileLines text)) :
    TwoTokens (getlines text) ∧ (fileLines text).map row = rows text := by
  have hspec := readLines_spec (getlines text) 1
  rw [h] at hspec
  exact hspec

theorem assigns_iff_owns (h : (fileLines text).map row = rows text) (name : Text) (ip : UInt32) :
    Assigns inetPton text name ip ↔ Owns inetPton text name ip := by
  rw [Owns, ← h]
  exact (mem_assignments_iff inetPton).symm

/-- What both passes have gone through is in order. -/
theorem rowsOk_of_passes {lines : List Line} {c₁ : Config} (h₁ : PassOne inetPton lines c₁)
    (h₂ : Ruled inetPton c₁.nameToIp c₁.ipToName lines c) : RowsOk inetPton (lines.map row) := by
  refine ⟨h₁.2, ?_⟩
  intro r hr hnone
  obtain ⟨l, hl, rfl⟩ := List.mem_map.mp hr
  have hrule : isIpv4 inetPton l.second = false := isIpv4_of_none inetPton hnone
  have hknown : ∀ name, (c₁.nameToIp.lookup name).isSome →
      name ∈ (assignments inetPton (lines.map row)).map (·.1) := by
    intro name hsome
    rw [← h₁.1.known_iff]
    exact Option.isSome_iff_ne_none.mp hsome
  by_cases hpre : internetPrefix <+: l.second
  · obtain ⟨hfirst, ip, h0, _, ⟨rest, hrest⟩, hip⟩ := h₂.internet_known l hl hrule hpre
    refine ⟨hknown _ hfirst, Or.inl ⟨rest, ip, hrest.symm, ?_, h0⟩⟩
    rwa [← hrest, List.drop_left] at hip
  · obtain ⟨hfirst, hsecond⟩ := h₂.agent_known l hl ⟨hrule, hpre⟩
    exact ⟨hknown _ hfirst, Or.inr ⟨hpre, hknown _ hsecond⟩⟩

theorem grammar_of_load (h : load inetPton (some text) c₀ = (.ok (), c)) :
    Grammar inetPton text := by
  obtain ⟨hlines, hadd⟩ := load_ok inetPton h
  obtain ⟨htwo, hrows⟩ := fileLines_rows hlines
  have hspec := addLines_spec inetPton (fileLines text) empty rfl
  rw [hadd] at hspec
  obtain ⟨c₁, hone, hruled⟩ := hspec
  have hok := rowsOk_of_passes hone hruled
  rw [hrows] at hok
  exact ⟨htwo, hok⟩

theorem load_of_grammar (h : Grammar inetPton text) :
    (load inetPton (some text) c₀).1 = .ok () := by
  have hread := readLines_spec (getlines text) 1
  cases hlines : readLines 1 (getlines text) with
  | error e =>
    rw [hlines] at hread
    exact absurd h.1 hread
  | ok lines =>
    rw [hlines] at hread
    obtain ⟨_, c, hadd, -⟩ | ⟨e, c, -, hbad⟩ := (addLines_spec inetPton lines).result rfl
    · simp only [load, hlines, hadd]
    · refine absurd ?_ hbad
      rw [hread.2]
      exact h.2

theorem findIpForAgent_iff {P : Text → UInt32 → Prop}
    (h : ∀ name ip, c.nameToIp.lookup name = some ip ↔ P name ip) (name : Text) {ip : UInt32}
    (h0 : ip ≠ 0) : c.findIpForAgent name = ip ↔ P name ip := by
  rw [← h, findIpForAgent]
  cases c.nameToIp.lookup name with
  | none => simp [h0.symm]
  | some ip' => simp

theorem findAgentForIp_iff {P : Text → UInt32 → Prop}
    (h : ∀ ip name, c.ipToName.lookup ip = some name ↔ P name ip) (ip : UInt32) {name : Text}
    (hnil : name ≠ []) : c.findAgentForIp ip = name ↔ P name ip := by
  rw [← h, findAgentForIp]
  cases c.ipToName.lookup ip with
  | none => simp [hnil.symm]
  | some name' => simp

theorem tables_of_load (h : load inetPton (some text) c₀ = (.ok (), c)) :
    Tables inetPton text c := by
  obtain ⟨hlines, _⟩ := load_ok inetPton h
  obtain ⟨_, hrows⟩ := fileLines_rows hlines
  have hc := load_loaded inetPton h
  have howns : ∀ name ip, Assigns inetPton text name ip ↔ Owns inetPton text name ip :=
    assigns_iff_owns hrows
  have hname : ∀ name ip, ip ≠ 0 → (c.findIpForAgent name = ip ↔ Owns inetPton text name ip) := by
    intro name ip h0
    rw [← howns]
    exact findIpForAgent_iff hc.name_iff name h0
  have hip : ∀ ip name, name ≠ [] → (c.findAgentForIp ip = name ↔ Owns inetPton text name ip) := by
    intro ip name hnil
    rw [← howns]
    exact findAgentForIp_iff hc.ip_iff ip hnil
  -- a row of the file is a line of the file
  have hrow : ∀ P : Text × Text → Prop,
      (∃ r ∈ rows text, P r) ↔ ∃ l ∈ fileLines text, P (row l) := by
    intro P
    rw [← hrows]
    simp
  refine ⟨hname, hip, ?_, ?_, ?_, ?_⟩
  · intro name ip hnil h0
    rw [hname name ip h0, hip ip name hnil]
  · intro a b
    rw [hc.agent_iff, hrow]
    simp only [← howns]
    constructor
    · rintro ⟨_, _, ⟨l, hl, hrule, rfl, rfl⟩ | ⟨l, hl, hrule, rfl, rfl⟩, ha, hb⟩
      · exact ⟨l, hl, ipv4_eq_none inetPton hrule.1, hrule.2, Or.inl ⟨ha, hb⟩⟩
      · exact ⟨l, hl, ipv4_eq_none inetPton hrule.1, hrule.2, Or.inr ⟨hb, ha⟩⟩
    · rintro ⟨l, hl, hnone, hpre, ⟨ha, hb⟩ | ⟨hb, ha⟩⟩
      · exact ⟨_, _, Or.inl ⟨l, hl, ⟨isIpv4_of_none inetPton hnone, hpre⟩, rfl, rfl⟩, ha, hb⟩
      · exact ⟨_, _, Or.inr ⟨l, hl, ⟨isIpv4_of_none inetPton hnone, hpre⟩, rfl, rfl⟩, ha, hb⟩
  · intro a ip
    rw [hc.internet_iff, hrow]
    simp only [← howns]
    constructor
    · rintro ⟨_, ⟨l, hl, ⟨hrule, ⟨rest, hrest⟩, hip⟩, rfl⟩, ha⟩
      refine ⟨l, hl, ipv4_eq_none inetPton hrule, ha, rest, hrest.symm, ?_⟩
      rwa [← hrest, List.drop_left] at hip
    · rintro ⟨l, hl, hnone, ha, rest, hrest, hip⟩
      have hrest : l.second = internetPrefix ++ rest := hrest
      refine ⟨l.first, ⟨l, hl, ⟨?_, ⟨rest, hrest.symm⟩, ?_⟩, rfl⟩, ha⟩
      · exact isIpv4_of_none inetPton hnone
      · rw [hrest, List.drop_left]
        exact hip
  · intro a
    simp [hasAnyInternetAccess, canReachInternetIp, Finset.ext_iff]

end

/-- `load` accepts exactly the files of the grammar, whatever the configuration
held before, and its lookups then say exactly what the file says. -/
theorem load_ok_iff_grammar (inetPton : Text → Option UInt32) (text : Text) (c₀ : Config) :
    ((load inetPton (some text) c₀).1 = .ok () ↔ Grammar inetPton text) ∧
      ((load inetPton (some text) c₀).1 = .ok () →
        Tables inetPton text (load inetPton (some text) c₀).2) := by
  have hpair : (load inetPton (some text) c₀).1 = .ok () →
      load inetPton (some text) c₀ = (.ok (), (load inetPton (some text) c₀).2) := by
    intro h
    rw [← h]
  exact ⟨⟨fun h => grammar_of_load (hpair h), load_of_grammar⟩, fun h => tables_of_load (hpair h)⟩

end VNet.Blackbox.Config
