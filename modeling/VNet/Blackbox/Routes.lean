import VNet.Blackbox.Process

namespace VNet.Blackbox
namespace BlackBox

open VNet.Protocol

/-- The last update for `d` in the history named `f`, and the switch behind `f`
was not disconnected after it. -/
def LastRoute (hooks : List Hook) (d : UInt32) (f : ℤ) : Prop :=
  ∃ before after, hooks = before ++ .routeUpdate d f :: after ∧
    (∀ g, Hook.routeUpdate d g ∉ after) ∧ Hook.switchDisconnected f ∉ after

theorem not_lastRoute_nil (d : UInt32) (f : ℤ) : ¬ LastRoute [] d f := by
  rintro ⟨before, after, h, -, -⟩
  simp at h

/-- One more call sets the route, or keeps it unless it is another update for
the destination or the disconnect of the switch. -/
theorem lastRoute_concat (hooks : List Hook) (h : Hook) (d : UInt32) (f : ℤ) :
    LastRoute (hooks ++ [h]) d f ↔
      h = .routeUpdate d f ∨
        LastRoute hooks d f ∧ (∀ g, h ≠ .routeUpdate d g) ∧ h ≠ .switchDisconnected f := by
  constructor
  · rintro ⟨before, after, heq, hupd, hdis⟩
    rcases List.eq_nil_or_concat after with rfl | ⟨after, last, rfl⟩
    · exact Or.inl (List.append_inj_right' heq rfl |> List.singleton_inj.mp)
    · rw [List.concat_eq_append] at heq hupd hdis
      rw [← List.cons_append, ← List.append_assoc] at heq
      obtain ⟨rfl, hlast⟩ := List.append_inj' heq rfl
      obtain rfl := List.singleton_inj.mp hlast
      refine Or.inr ⟨⟨before, after, rfl, ?_, ?_⟩, ?_, ?_⟩
      · exact fun g hg => hupd g (List.mem_append_left _ hg)
      · exact fun hg => hdis (List.mem_append_left _ hg)
      · rintro g rfl
        exact hupd g (List.mem_append_right _ (List.mem_singleton_self _))
      · rintro rfl
        exact hdis (List.mem_append_right _ (List.mem_singleton_self _))
  · rintro (rfl | ⟨⟨before, after, rfl, hupd, hdis⟩, hne, hns⟩)
    · exact ⟨hooks, [], rfl, by simp, by simp⟩
    · refine ⟨before, after ++ [h], by simp, fun g hg => ?_, fun hg => ?_⟩
      · rcases List.mem_append.mp hg with hg | hg
        · exact hupd g hg
        · exact hne g (List.mem_singleton.mp hg).symm
      · rcases List.mem_append.mp hg with hg | hg
        · exact hdis hg
        · exact hns (List.mem_singleton.mp hg).symm

/-- What a call does to the route for one destination: only the two hooks for
routes touch it. -/
theorem step_route (b : BlackBox) (h : Hook) (d : UInt32) :
    (b.step h).routing.routes.lookup d = match h with
      | .routeUpdate d' f =>
        if d = d' then (if f < 0 then none else some f) else b.routing.routes.lookup d
      | .switchDisconnected s => (b.routing.routes.lookup d).filter fun fd => fd ≠ s
      | _ => b.routing.routes.lookup d := by
  cases h with
  | agentAuthenticated name fd allocated =>
    simp only [step, onAgentAuthenticated_snd]
    split_ifs <;> rfl
  | agentDisconnected fd => rfl
  | routeUpdate d' f =>
    simp only [step, onRouteUpdate]
    by_cases hf : f < 0
    · simp only [if_pos hf]
      exact FiniteMap.lookup_erase_eq _ _ _
    · simp only [if_neg hf]
      exact FiniteMap.lookup_insert_eq _ _ _ _
  | switchDisconnected s => exact FiniteMap.lookup_filterValues _ _ _

/-- The table has an entry for `d` exactly if the history leaves a route. -/
theorem run_route (config : Config) (tunFd : ℤ) (hooks : List Hook) (d : UInt32) (f : ℤ) :
    ((new config tunFd).run hooks).routing.routes.lookup d = some f ↔
      0 ≤ f ∧ LastRoute hooks d f := by
  induction hooks using List.reverseRecOn generalizing f with
  | nil =>
    constructor
    · intro h
      cases h
    · intro h
      exact absurd h.2 (not_lastRoute_nil d f)
  | append_singleton hooks h ih =>
    rw [run, Runs.run_concat, step_route, lastRoute_concat]
    cases h with
    | agentAuthenticated name fd allocated => simp [ih]
    | agentDisconnected fd => simp [ih]
    | routeUpdate d' g =>
      by_cases hd : d = d'
      · subst hd
        by_cases hg : g < 0
        · simp only [if_pos hg, if_true]
          constructor
          · intro hcon
            cases hcon
          · rintro ⟨hf, heq | ⟨-, hne, -⟩⟩
            · cases heq
              omega
            · exact absurd rfl (hne g)
        · simp only [if_neg hg, if_true]
          constructor
          · rintro ⟨⟩
            exact ⟨by omega, Or.inl rfl⟩
          · rintro ⟨-, heq | ⟨-, hne, -⟩⟩
            · cases heq
              rfl
            · exact absurd rfl (hne g)
      · simp only [if_neg hd, ih]
        simp [Ne.symm hd]
    | switchDisconnected s =>
      simp only [Option.filter_eq_some_iff, ih, decide_eq_true_eq]
      simp [and_assoc, eq_comm]

theorem run_lookup_iff (config : Config) (tunFd : ℤ) (hooks : List Hook) (d : UInt32) (f : ℤ)
    (hf : 0 ≤ f) :
    ((new config tunFd).run hooks).routing.lookup d = f ↔ LastRoute hooks d f := by
  have hroute := run_route config tunFd hooks d f
  simp only [hf, true_and] at hroute
  rw [← hroute, RoutingTable.lookup]
  cases ((new config tunFd).run hooks).routing.routes.lookup d with
  | none =>
    simp only [Option.getD_none, reduceCtorEq, iff_false]
    omega
  | some g => simp

theorem run_lookup_eq_neg_one (config : Config) (tunFd : ℤ) (hooks : List Hook) (d : UInt32)
    (h : ∀ f, 0 ≤ f → ¬ LastRoute hooks d f) :
    ((new config tunFd).run hooks).routing.lookup d = -1 := by
  rw [RoutingTable.lookup]
  cases hl : ((new config tunFd).run hooks).routing.routes.lookup d with
  | none => rfl
  | some f =>
    obtain ⟨hf, hlast⟩ := (run_route config tunFd hooks d f).mp hl
    exact absurd hlast (h f hf)

/-- No history in which nothing after the disconnect names the switch leaves a
route through it. -/
theorem not_lastRoute_of_disconnected {before after : List Hook} {s : ℤ}
    (hafter : ∀ d, Hook.routeUpdate d s ∉ after) (d : UInt32) :
    ¬ LastRoute (before ++ .switchDisconnected s :: after) d s := by
  induction after using List.reverseRecOn with
  | nil =>
    rw [lastRoute_concat]
    rintro (hcon | ⟨-, -, hcon⟩)
    · cases hcon
    · exact hcon rfl
  | append_singleton after h ih =>
    rw [← List.cons_append, ← List.append_assoc, lastRoute_concat]
    rintro (rfl | ⟨hlast, -, -⟩)
    · exact hafter d (List.mem_append_right _ (List.mem_singleton_self _))
    · exact ih (fun d hd => hafter d (List.mem_append_left _ hd)) hlast

theorem lookup_of_forwardSwitch {b : BlackBox} {source : SourceType} {fd : ℤ} {raw : Bytes}
    (h : (b.process source fd raw).action = .forwardSwitch) :
    ∃ d, 0 ≤ b.routing.lookup d ∧ (b.process source fd raw).targetFd = b.routing.lookup d := by
  rcases b.process_target source fd raw with hd | ⟨hdr, -, hd⟩
  · rw [hd] at h
    cases h
  · rcases hd with ⟨e, -, hd⟩ | ⟨hl, hd⟩ | hd | hd
    · rw [hd] at h
      cases h
    · exact ⟨hdr.dstIp, hl, by rw [hd]; rfl⟩
    · rw [hd] at h
      cases h
    · rw [hd] at h
      cases h

/-- Every lookup is settled by the history: it gives the switch of the last
update for the destination, unless that update withdrew the route or the switch
was disconnected after it.  So no packet goes to a disconnected switch before an
update names it again, and a disconnect changes no route through another. -/
theorem routes_replay_history (config : Config) (tunFd : ℤ) (hooks : List Hook) :
    (∀ d f, 0 ≤ f →
      (((new config tunFd).run hooks).routing.lookup d = f ↔ LastRoute hooks d f)) ∧
    (∀ d, (∀ f, 0 ≤ f → ¬ LastRoute hooks d f) →
      ((new config tunFd).run hooks).routing.lookup d = -1) ∧
    (∀ s before after, hooks = before ++ .switchDisconnected s :: after →
      (∀ d, Hook.routeUpdate d s ∉ after) → ∀ source fd raw,
        (((new config tunFd).run hooks).process source fd raw).action = .forwardSwitch →
          (((new config tunFd).run hooks).process source fd raw).targetFd ≠ s) ∧
    ∀ s d, ((new config tunFd).run hooks).routing.lookup d ≠ s →
      (((new config tunFd).run hooks).onSwitchDisconnected s).routing.lookup d =
        ((new config tunFd).run hooks).routing.lookup d := by
  refine ⟨fun d f hf => run_lookup_iff config tunFd hooks d f hf,
    fun d h => run_lookup_eq_neg_one config tunFd hooks d h, ?_, ?_⟩
  · rintro s before after rfl hafter source fd raw hfwd htarget
    obtain ⟨d, hl, heq⟩ := lookup_of_forwardSwitch hfwd
    rw [htarget] at heq
    rw [← heq] at hl
    exact not_lastRoute_of_disconnected hafter d
      ((run_lookup_iff config tunFd _ d s hl).mp heq.symm)
  · intro s d hne
    have hstep := step_route ((new config tunFd).run hooks) (.switchDisconnected s) d
    simp only [step] at hstep
    rw [RoutingTable.lookup] at hne
    rw [RoutingTable.lookup, hstep, RoutingTable.lookup]
    cases hl : ((new config tunFd).run hooks).routing.routes.lookup d with
    | none => rfl
    | some f =>
      rw [hl, Option.getD_some] at hne
      rw [Option.filter_some, if_pos (decide_eq_true hne)]

end BlackBox

end VNet.Blackbox
