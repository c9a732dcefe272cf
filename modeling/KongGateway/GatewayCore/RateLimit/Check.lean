import KongGateway.GatewayCore.RateLimit
import KongGateway.Lib.Run

/-!
# RateLimit — what one check does

On the path with rules a check is a conjunction: every rule looks at the
stored state of its own key, and the request is accepted if all of them
stage a next state. A refused check leaves the map as it was; an
accepted one writes the staged states back, and of several rules with
one key the last one's state stays.
-/

namespace KongGateway.GatewayCore

open RustStd

/-- The key under which a rule finds its state for a request. -/
def ruleKey (ctx : RateLimitContext) (rule : ScopedLimitRule) : String :=
  scopeKey rule.scope (ctx.value rule.scope)

/-- The last rule of a scope: the one whose staged state stays. -/
def lastRule (scope : LimitScope) : List ScopedLimitRule → Option ScopedLimitRule
  | [] => none
  | rule :: rest =>
    match lastRule scope rest with
    | some last => some last
    | none => if rule.scope = scope then some rule else none

theorem lastRule_spec {scope : LimitScope} {rules : List ScopedLimitRule}
    {last : ScopedLimitRule} (h : lastRule scope rules = some last) :
    last ∈ rules ∧ last.scope = scope := by
  induction rules with
  | nil => cases h
  | cons rule rest ih =>
    simp only [lastRule] at h
    split at h
    · rename_i later hlater
      cases h
      obtain ⟨hmem, hscope⟩ := ih hlater
      exact ⟨List.mem_cons_of_mem _ hmem, hscope⟩
    · split at h
      · rename_i hscope
        cases h
        exact ⟨List.mem_cons_self, hscope⟩
      · cases h

theorem exists_lastRule {rules : List ScopedLimitRule} {rule : ScopedLimitRule}
    (h : rule ∈ rules) : ∃ last, lastRule rule.scope rules = some last := by
  induction rules with
  | nil => cases h
  | cons head rest ih =>
    simp only [lastRule]
    split
    · exact ⟨_, rfl⟩
    · rename_i hnone
      rcases List.mem_cons.mp h with rfl | hmem
      · exact ⟨rule, if_pos rfl⟩
      · obtain ⟨last, hlast⟩ := ih hmem
        rw [hnone] at hlast
        cases hlast

namespace RateLimitConfig

variable {cfg : RateLimitConfig} {ctx : RateLimitContext} {now : Instant}
  {states : LimitStates}

/-- What an accepted check on the path with rules does to the map. -/
structure Granted (cfg : RateLimitConfig) (ctx : RateLimitContext) (now : Instant)
    (before after : LimitStates) : Prop where
  staged : ∀ rule ∈ cfg.effectiveRules,
    ∃ next, cfg.stageRule rule now (before.lookup (ruleKey ctx rule)) = some next
  written : ∀ scope last, lastRule scope cfg.effectiveRules = some last →
    cfg.stageRule last now (before.lookup (scopeKey scope (ctx.value scope)))
      = some (after.lookup (scopeKey scope (ctx.value scope)))
  kept : ∀ key, (∀ rule ∈ cfg.effectiveRules, ruleKey ctx rule ≠ key) →
    after.lookup key = before.lookup key

/-! ## The staging loop -/

private theorem stageRules_eq_none {rules : List ScopedLimitRule}
    (h : cfg.stageRules states now (rules.map fun rule => (rule, ctx.value rule.scope))
      = none) :
    ∃ rule ∈ rules, cfg.stageRule rule now (states.lookup (ruleKey ctx rule)) = none := by
  induction rules with
  | nil => simp [stageRules] at h
  | cons rule rest ih =>
    simp only [List.map_cons, stageRules] at h
    split at h
    · rename_i hrefuse
      exact ⟨rule, List.mem_cons_self, hrefuse⟩
    · split at h
      · rename_i hrest
        obtain ⟨refusing, hmem, hrefuse⟩ := ih hrest
        exact ⟨refusing, List.mem_cons_of_mem _ hmem, hrefuse⟩
      · cases h

private theorem mem_stageRules {rules : List ScopedLimitRule}
    {staged : List (String × LimitState)}
    (h : cfg.stageRules states now (rules.map fun rule => (rule, ctx.value rule.scope))
      = some staged) :
    (∀ rule ∈ rules,
        ∃ next, cfg.stageRule rule now (states.lookup (ruleKey ctx rule)) = some next)
      ∧ ∀ entry ∈ staged, ∃ rule ∈ rules, ruleKey ctx rule = entry.1 := by
  induction rules generalizing staged with
  | nil =>
    simp only [List.map_nil, stageRules, Option.some.injEq] at h
    subst h
    simp
  | cons rule rest ih =>
    simp only [List.map_cons, stageRules] at h
    split at h
    · cases h
    · rename_i next hnext
      split at h
      · cases h
      · rename_i stagedRest hrest
        cases h
        obtain ⟨hall, hback⟩ := ih hrest
        refine ⟨fun other hother => ?_, fun entry hmem => ?_⟩
        · rcases List.mem_cons.mp hother with rfl | hother
          · exact ⟨next, hnext⟩
          · exact hall other hother
        · rcases List.mem_cons.mp hmem with rfl | hmem
          · exact ⟨rule, List.mem_cons_self, rfl⟩
          · obtain ⟨writer, hwriter, hkey⟩ := hback entry hmem
            exact ⟨writer, List.mem_cons_of_mem _ hwriter, hkey⟩

/-! ## The write-back loop -/

private theorem lookup_commit_of_notMem {staged : List (String × LimitState)} {key : String}
    (h : ∀ entry ∈ staged, entry.1 ≠ key) (states : LimitStates) :
    (commit states staged).lookup key = states.lookup key := by
  induction staged generalizing states with
  | nil => rfl
  | cons entry rest ih =>
    have hcommit : commit states (entry :: rest)
        = commit (states.insert entry.1 entry.2) rest := rfl
    rw [hcommit, ih fun other hother => h other (List.mem_cons_of_mem _ hother)]
    exact LimitStates.lookup_insert_ne _ _ (Ne.symm (h entry List.mem_cons_self))

private theorem stored_of_commit {staged : List (String × LimitState)} {key : String}
    {states : LimitStates} (h : commit states staged key ≠ none) :
    states key ≠ none ∨ ∃ entry ∈ staged, entry.1 = key := by
  induction staged generalizing states with
  | nil => exact .inl h
  | cons entry rest ih =>
    have hcommit : commit states (entry :: rest)
        = commit (states.insert entry.1 entry.2) rest := rfl
    rw [hcommit] at h
    rcases ih h with hstored | ⟨later, hmem, hkey⟩
    · by_cases hkey : entry.1 = key
      · exact .inr ⟨entry, List.mem_cons_self, hkey⟩
      · left
        rwa [LimitStates.insert, Function.update_of_ne (Ne.symm hkey)] at hstored
    · exact .inr ⟨later, List.mem_cons_of_mem _ hmem, hkey⟩

/-- Whatever map the staged states are written to, the last rule of a
scope leaves its own under the key of the scope. -/
private theorem lookup_commit_lastRule {rules : List ScopedLimitRule}
    {staged : List (String × LimitState)}
    (h : cfg.stageRules states now (rules.map fun rule => (rule, ctx.value rule.scope))
      = some staged) {scope : LimitScope} {last : ScopedLimitRule}
    (hlast : lastRule scope rules = some last) (base : LimitStates) :
    cfg.stageRule last now (states.lookup (scopeKey scope (ctx.value scope)))
      = some ((commit base staged).lookup (scopeKey scope (ctx.value scope))) := by
  induction rules generalizing staged base with
  | nil => cases hlast
  | cons rule rest ih =>
    simp only [List.map_cons, stageRules] at h
    split at h
    · cases h
    · rename_i next hnext
      split at h
      · cases h
      · rename_i stagedRest hrest
        cases h
        have hcommit :
            commit base ((scopeKey rule.scope (ctx.value rule.scope), next) :: stagedRest)
            = commit (base.insert (scopeKey rule.scope (ctx.value rule.scope)) next)
                stagedRest := rfl
        rw [hcommit]
        cases hlater : lastRule scope rest with
        | some later =>
          simp only [lastRule, hlater, Option.some.injEq] at hlast
          subst hlast
          exact ih hrest hlater _
        | none =>
          simp only [lastRule, hlater] at hlast
          split at hlast
          · rename_i hscope
            cases hlast
            subst hscope
            -- no later rule has this scope, so no later entry has this key
            rw [lookup_commit_of_notMem _, LimitStates.lookup_insert_self]
            · exact hnext
            · intro entry hmem hkey
              obtain ⟨writer, hwriter, hwkey⟩ := (mem_stageRules hrest).2 entry hmem
              obtain ⟨found, hfound⟩ := exists_lastRule hwriter
              rw [(scopeKey_injective (hwkey.trans hkey)).1, hlater] at hfound
              cases hfound
          · cases hlast

/-! ## The check -/

/-- **One check with rules**: some rule refuses and nothing changes, or
all rules stage a next state and the map is written. -/
theorem checkWithContext_cases (hon : cfg.enabled = true) (hrules : cfg.isLegacy = false)
    (ctx : RateLimitContext) (now : Instant) (states : LimitStates) :
    (cfg.checkWithContext ctx now states = (false, states)
      ∧ ∃ rule ∈ cfg.effectiveRules,
          cfg.stageRule rule now (states.lookup (ruleKey ctx rule)) = none)
    ∨ ∃ after, cfg.checkWithContext ctx now states = (true, after)
      ∧ cfg.Granted ctx now states after := by
  cases hstage : cfg.stageRules states now (cfg.effectiveRulesForContext ctx) with
  | none =>
    have hcheck : cfg.checkWithContext ctx now states = (false, states) := by
      simp [checkWithContext, hon, hrules, hstage]
    exact .inl ⟨hcheck, stageRules_eq_none hstage⟩
  | some staged =>
    have hcheck : cfg.checkWithContext ctx now states = (true, commit states staged) := by
      simp [checkWithContext, hon, hrules, hstage]
    obtain ⟨hall, hback⟩ := mem_stageRules hstage
    refine .inr ⟨commit states staged, hcheck, hall, fun scope last hlast => ?_,
      fun key hkey => ?_⟩
    · exact lookup_commit_lastRule hstage hlast states
    · refine lookup_commit_of_notMem (fun entry hmem hk => ?_) states
      obtain ⟨rule, hrule, hwkey⟩ := hback entry hmem
      exact hkey rule hrule (hwkey.trans hk)

theorem stored_of_checkWithContext (hon : cfg.enabled = true) (hrules : cfg.isLegacy = false)
    {key : String} (h : (cfg.checkWithContext ctx now states).2 key ≠ none) :
    states key ≠ none ∨ ∃ rule ∈ cfg.effectiveRules, ruleKey ctx rule = key := by
  cases hstage : cfg.stageRules states now (cfg.effectiveRulesForContext ctx) with
  | none =>
    left
    simpa [checkWithContext, hon, hrules, hstage] using h
  | some staged =>
    simp only [checkWithContext, hon, hrules, hstage, Bool.not_true, Bool.false_eq_true,
      if_false] at h
    rcases stored_of_commit h with hstored | ⟨entry, hmem, hkey⟩
    · exact .inl hstored
    · obtain ⟨rule, hrule, hwkey⟩ := (mem_stageRules hstage).2 entry hmem
      exact .inr ⟨rule, hrule, hwkey.trans hkey⟩

theorem Granted.written_of_mem {before after : LimitStates}
    (h : cfg.Granted ctx now before after) {rule : ScopedLimitRule}
    (hrule : rule ∈ cfg.effectiveRules) :
    ∃ writer ∈ cfg.effectiveRules, writer.scope = rule.scope
      ∧ cfg.stageRule writer now (before.lookup (ruleKey ctx rule))
        = some (after.lookup (ruleKey ctx rule)) := by
  obtain ⟨writer, hlast⟩ := exists_lastRule hrule
  obtain ⟨hmem, hscope⟩ := lastRule_spec hlast
  exact ⟨writer, hmem, hscope, h.written _ _ hlast⟩

/-- **One check without rules**: the client's bucket is written whatever
the decision. -/
theorem checkWithContext_legacy (hon : cfg.enabled = true) (hlegacy : cfg.isLegacy = true)
    (ctx : RateLimitContext) (now : Instant) (states : LimitStates) :
    cfg.checkWithContext ctx now states
      = let key := scopeKey .client (ctx.value .client)
        ((cfg.applyLegacyTokenBucket (states.lookup key) now).1,
          states.insert key (cfg.applyLegacyTokenBucket (states.lookup key) now).2) := by
  rw [checkWithContext, if_neg (by simp [hon]), if_pos hlegacy]
  rfl

theorem checkWithContext_lookup_of_ne (cfg : RateLimitConfig) (now : Instant)
    (states : LimitStates) {scope : LimitScope} {value : String}
    (h : ctx.value scope ≠ value) :
    (cfg.checkWithContext ctx now states).2.lookup (scopeKey scope value)
      = states.lookup (scopeKey scope value) := by
  have hne : ∀ scope', scopeKey scope' (ctx.value scope') ≠ scopeKey scope value := by
    intro scope' hkey
    obtain ⟨rfl, hvalue⟩ := scopeKey_injective hkey
    exact h hvalue
  cases hon : cfg.enabled with
  | false => simp [checkWithContext, hon]
  | true =>
    cases hrules : cfg.isLegacy with
    | true =>
      rw [checkWithContext_legacy hon hrules]
      exact LimitStates.lookup_insert_ne _ _ (Ne.symm (hne .client))
    | false =>
      rcases checkWithContext_cases hon hrules ctx now states with
        ⟨hcheck, -⟩ | ⟨after, hcheck, hgranted⟩
      · rw [hcheck]
      · rw [hcheck]
        exact hgranted.kept _ fun rule _ => hne rule.scope

/-! ## Traces of checks -/

/-- The decisions of the limiter on a trace of checks, each with its
clock reading, in the order the states are locked. -/
def decisions (cfg : RateLimitConfig) (states : LimitStates)
    (trace : List (RateLimitContext × Instant)) : List Bool :=
  Run.outputs (fun states check => cfg.checkWithContext check.1 check.2 states) states trace

end RateLimitConfig

end KongGateway.GatewayCore
