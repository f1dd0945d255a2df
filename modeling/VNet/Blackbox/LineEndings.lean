import VNet.Blackbox.FailedLoad

namespace VNet.Blackbox.Config

/-- Every `'\n'` replaced by `"\r\n"`. -/
def crlf (text : Text) : Text := text.flatMap fun c => if c = '\n' then ['\r', '\n'] else [c]

def terminatedLines (text : Text) : List Text := (text.splitOn '\n').dropLast

/-- Nothing but spaces and tabs. -/
def Blank (line : Text) : Prop := ∀ c ∈ line, c = ' ' ∨ c = '\t'

instance (line : Text) : Decidable (Blank line) :=
  inferInstanceAs (Decidable (∀ c ∈ line, _))

/-- A text is a last line without a newline, or a line and the text behind it. -/
theorem lines_induction {P : Text → Prop} (last : ∀ line, '\n' ∉ line → P line)
    (line : ∀ line rest, '\n' ∉ line → P rest → P (line ++ '\n' :: rest)) (text : Text) :
    P text := by
  suffices h : ∀ front, '\n' ∉ front → P (front ++ text) by
    exact h [] (by simp)
  induction text with
  | nil =>
    intro front hfront
    rw [List.append_nil]
    exact last front hfront
  | cons c text ih =>
    intro front hfront
    by_cases hc : c = '\n'
    · subst hc
      exact line front text hfront (ih [] (by simp))
    · have hlonger : '\n' ∉ front ++ [c] := by simp [hfront, Ne.symm hc]
      have hrest := ih (front ++ [c]) hlonger
      rwa [List.append_assoc, List.singleton_append] at hrest

theorem getlines_line {line : Text} (h : '\n' ∉ line) (rest : Text) :
    getlines (line ++ '\n' :: rest) = line :: getlines rest := by
  induction line with
  | nil => rfl
  | cons c line ih =>
    obtain ⟨hc, hline⟩ := not_or.mp (fun hmem => h (List.mem_cons.mpr hmem))
    rw [List.cons_append, getlines, if_neg (Ne.symm hc), ih hline]

theorem terminatedLines_line {line : Text} (h : '\n' ∉ line) (rest : Text) :
    terminatedLines (line ++ '\n' :: rest) = line :: terminatedLines rest := by
  rw [terminatedLines, List.splitOn_append_cons_self_of_not_mem h,
    List.dropLast_cons_of_ne_nil (List.splitOn_ne_nil _ _), terminatedLines]

theorem terminatedLines_last {line : Text} (h : '\n' ∉ line) : terminatedLines line = [] := by
  rw [terminatedLines, List.splitOn_eq_singleton h]
  rfl

theorem crlf_last {line : Text} (h : '\n' ∉ line) : crlf line = line := by
  induction line with
  | nil => rfl
  | cons c line ih =>
    obtain ⟨hc, hline⟩ := not_or.mp (fun hmem => h (List.mem_cons.mpr hmem))
    have hrest := ih hline
    rw [crlf] at hrest
    rw [crlf, List.flatMap_cons, if_neg (Ne.symm hc), hrest]
    rfl

theorem crlf_line {line : Text} (h : '\n' ∉ line) (rest : Text) :
    crlf (line ++ '\n' :: rest) = (line ++ ['\r']) ++ '\n' :: crlf rest := by
  have hline := crlf_last h
  rw [crlf] at hline
  rw [crlf, List.flatMap_append, List.flatMap_cons, hline, crlf]
  simp

theorem getlines_crlf_line {line : Text} (h : '\n' ∉ line) (rest : Text) :
    getlines (crlf (line ++ '\n' :: rest)) = (line ++ ['\r']) :: getlines (crlf rest) := by
  rw [crlf_line h]
  exact getlines_line (by simp [h]) _

theorem tokens_concat_space {c : Char} (hc : isSpace c = true) (s : Text) :
    tokens (s ++ [c]) = tokens s := by
  rw [tokens, List.splitOnP_append_cons s [] hc, List.filter_append, tokens]
  exact List.append_nil _

theorem dropWhile_blank {line : Text} :
    (line.dropWhile fun c => c = ' ' || c = '\t') = [] ↔ Blank line := by
  simp [List.dropWhile_eq_nil_iff, Blank]

theorem counts_concat_cr {line : Text} (h : ¬ Blank line) :
    counts (line ++ ['\r']) = counts line := by
  have hne := dropWhile_blank.not.mpr h
  unfold counts
  rw [List.dropWhile_append, if_neg (by simpa using hne)]
  cases hrest : line.dropWhile fun c => c = ' ' || c = '\t' with
  | nil => exact absurd hrest hne
  | cons c cs => rfl

/-- Only behind blanks does a carriage return make the line count, and then it
has no token. -/
theorem counts_blank_cr {line : Text} (h : Blank line) :
    counts (line ++ ['\r']) = true ∧ tokens (line ++ ['\r']) = [] := by
  constructor
  · unfold counts
    rw [List.dropWhile_append, if_pos (by simpa using dropWhile_blank.mpr h)]
    rfl
  · rw [tokens_concat_space rfl, ← tokens_blank, dropWhile_blank.mpr h, tokens_nil]

theorem readLine_num {num : ℕ} {raw : Text} {l : Line} (h : readLine num raw = .ok (some l)) :
    l.num = num := by
  unfold readLine at h
  split at h
  · cases h
  · split at h
    · cases h
    · dsimp only at h
      split at h
      · cases h
      · cases h
        rfl

/-- A line that is not blank is read the same with a carriage return, but for the
text of the error. -/
theorem readLine_concat_cr {line : Text} (h : ¬ Blank line) (num : ℕ) :
    (readLine num (line ++ ['\r'])).toOption = (readLine num line).toOption := by
  have hcount := counts_concat_cr h
  have htokens : tokens (line ++ ['\r']) = tokens line := tokens_concat_space rfl line
  cases hc : counts line with
  | false => rw [readLine_skip hc, readLine_skip (hcount.trans hc)]
  | true =>
    by_cases htok : 2 ≤ (tokens line).length
    · obtain ⟨l, hl, hrow⟩ := readLine_row hc htok num
      obtain ⟨l', hl', hrow'⟩ := readLine_row (hcount.trans hc) (htokens ▸ htok) num
      have hsame : l' = l := by
        have hnum := (readLine_num hl').trans (readLine_num hl).symm
        rw [firstTwo, htokens, ← firstTwo, ← hrow] at hrow'
        obtain ⟨hfirst, hsecond⟩ := Prod.mk.inj hrow'
        cases l
        cases l'
        simp_all
      rw [hl, hl', hsame]
    · rw [readLine_short hc (Nat.lt_of_not_le htok),
        readLine_short (hcount.trans hc) (htokens.symm ▸ Nat.lt_of_not_le htok)]
      rfl

theorem readLines_cons_toOption (num : ℕ) (raw : Text) (raws : List Text) :
    (readLines num (raw :: raws)).toOption =
      (readLine num raw).toOption.bind fun line =>
        (readLines (num + 1) raws).toOption.map fun lines => line.toList ++ lines := by
  rw [readLines]
  cases readLine num raw with
  | error e => rfl
  | ok line =>
    cases readLines (num + 1) raws with
    | error e => rfl
    | ok lines => rfl

theorem readLines_crlf {text : Text} (h : ∀ line ∈ terminatedLines text, ¬ Blank line) (num : ℕ) :
    (readLines num (getlines (crlf text))).toOption = (readLines num (getlines text)).toOption := by
  induction text using lines_induction generalizing num with
  | last line hline => rw [crlf_last hline]
  | line line rest hline ih =>
    rw [terminatedLines_line hline] at h
    have hfirst := readLine_concat_cr (h line List.mem_cons_self) num
    have hrest := ih (fun line' hmem => h line' (List.mem_cons_of_mem _ hmem)) (num + 1)
    rw [getlines_crlf_line hline, getlines_line hline, readLines_cons_toOption,
      readLines_cons_toOption, hfirst, hrest]

/-- A blank line that ends with a carriage return is one of those that `load`
finds too short. -/
theorem not_twoTokens_crlf {text line : Text} (hmem : line ∈ terminatedLines text)
    (hblank : Blank line) : ¬ TwoTokens (getlines (crlf text)) := by
  suffices h : line ++ ['\r'] ∈ getlines (crlf text) by
    intro htwo
    obtain ⟨hcounts, htokens⟩ := counts_blank_cr hblank
    have hlen := htwo _ h hcounts
    rw [htokens] at hlen
    exact absurd hlen (by simp)
  induction text using lines_induction with
  | last last hlast =>
    rw [terminatedLines_last hlast] at hmem
    cases hmem
  | line first rest hfirst ih =>
    rw [terminatedLines_line hfirst] at hmem
    rw [getlines_crlf_line hfirst]
    rcases List.mem_cons.mp hmem with rfl | hmem
    · exact List.mem_cons_self
    · exact List.mem_cons_of_mem _ (ih hmem)

structure SameLookups (c c' : Config) : Prop where
  findAgentForIp : ∀ ip, c.findAgentForIp ip = c'.findAgentForIp ip
  findIpForAgent : ∀ name, c.findIpForAgent name = c'.findIpForAgent name
  agents : c.agents = c'.agents
  canAgentsCommunicate : ∀ a b, c.canAgentsCommunicate a b = c'.canAgentsCommunicate a b
  canReachInternetIp : ∀ a ip, c.canReachInternetIp a ip = c'.canReachInternetIp a ip
  hasAnyInternetAccess : ∀ a, c.hasAnyInternetAccess a = c'.hasAnyInternetAccess a

theorem SameLookups.refl (c : Config) : SameLookups c c :=
  ⟨fun _ => rfl, fun _ => rfl, rfl, fun _ _ => rfl, fun _ _ => rfl, fun _ => rfl⟩

variable (inetPton : Text → Option UInt32)

/-- Texts that read as the same lines load the same, whatever was there before. -/
theorem load_of_readLines {text text' : Text}
    (h : (readLines 1 (getlines text')).toOption = (readLines 1 (getlines text)).toOption)
    (c c' : Config) :
    ((load inetPton (some text) c).1 = .ok () ↔ (load inetPton (some text') c').1 = .ok ()) ∧
      ((load inetPton (some text) c).1 = .ok () →
        (load inetPton (some text) c).2 = (load inetPton (some text') c').2) := by
  cases hread : readLines 1 (getlines text) with
  | error e =>
    rw [hread] at h
    cases hread' : readLines 1 (getlines text') with
    | error e' => simp [load, hread, hread']
    | ok lines =>
      rw [hread'] at h
      cases h
  | ok lines =>
    rw [hread] at h
    cases hread' : readLines 1 (getlines text') with
    | error e' =>
      rw [hread'] at h
      cases h
    | ok lines' =>
      rw [hread'] at h
      obtain rfl : lines' = lines := Option.some.inj h
      simp [load, hread, hread']

/-- A text and the same text with `"\r\n"` for every newline give the same result
and the same lookups, unless `load` accepts the text and a newline of it ends a
line of nothing but spaces and tabs. -/
theorem line_endings_iff (text : Text) (c c' : Config) :
    (((load inetPton (some text) c).1 = .ok () ↔
        (load inetPton (some (crlf text)) c').1 = .ok ()) ∧
      ((load inetPton (some text) c).1 = .ok () →
        SameLookups (load inetPton (some text) c).2 (load inetPton (some (crlf text)) c').2)) ↔
    (¬ Grammar inetPton text ∨ ∀ line ∈ terminatedLines text, ¬ Blank line) := by
  have hload : (load inetPton (some text) c).1 = .ok () ↔ Grammar inetPton text :=
    ⟨fun h => grammar_of_load (Prod.ext h rfl), load_of_grammar⟩
  by_cases hblank : ∀ line ∈ terminatedLines text, ¬ Blank line
  · obtain ⟨hresult, hconfig⟩ := load_of_readLines inetPton (readLines_crlf hblank 1) c c'
    refine iff_of_true ⟨hresult, fun h => ?_⟩ (Or.inr hblank)
    rw [← hconfig h]
    exact SameLookups.refl _
  · -- the carriage return alone is no line of two tokens
    obtain ⟨line, hmem, hline⟩ : ∃ line ∈ terminatedLines text, Blank line := by
      by_contra hno
      exact hblank fun line hmem hline => hno ⟨line, hmem, hline⟩
    have hcr : (load inetPton (some (crlf text)) c').1 ≠ .ok () := by
      intro h
      have hgrammar := grammar_of_load
        (show load inetPton (some (crlf text)) c' = (.ok (), _) from Prod.ext h rfl)
      exact not_twoTokens_crlf hmem hline hgrammar.1
    simp only [hcr, iff_false, hload, hblank, or_false]
    exact ⟨fun h => h.1, fun h => ⟨h, fun hok => absurd hok h⟩⟩

/-- A comment and a blank line load, and do not with carriage returns. -/
theorem line_endings_matter :
    let text : Text := ['#', 'a', '\n', '\n']
    '\r' ∉ text ∧ (load loneAddress (some text) empty).1 = .ok () ∧
      (load loneAddress (some (crlf text)) empty).1 = .error (.expectedTwoTokens 2 ['\r']) := by
  refine ⟨?_, ?_, ?_⟩ <;> decide

end VNet.Blackbox.Config
