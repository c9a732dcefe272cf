import KongGateway.GatewayCore.RateLimit.SlidingWindow
import KongGateway.Lib.WindowCounter

/-!
# RateLimit — the windows of a fixed-window rule

A window opens with the first accepted check after the one before has
passed; a refused check opens none, whichever rule refused it. The
windows of a key are those of a `WindowCounter` whose events are the
accepted checks of the key.
-/

namespace KongGateway.GatewayCore

open RustStd WindowCounter

/-! ## One check -/

def LimitState.fixedWindow (state : LimitState) : WindowCounter.State :=
  ⟨state.fixedWindowStart, state.fixedWindowCount⟩

/-- The start of the window an accepted check was counted in. -/
def AcceptedCheck.windowStart (check : AcceptedCheck) (scope : LimitScope) : Option Instant :=
  (check.left.lookup (scopeKey scope (check.ctx.value scope))).fixedWindowStart

/-- The window starts of the accepted checks of a key, oldest first. -/
def Recording.windowStarts (r : Recording) (scope : LimitScope) (value : String) :
    List Instant :=
  (r.acceptedOf scope value).filterMap fun check => check.windowStart scope

/-- A check that the fixed-window arm accepts is counted in the current
window, or opens one. -/
theorem countFixedWindow_step {window : Duration} (hpos : 0 < window) {limit : Nat}
    {now : Instant} {state : LimitState}
    (hfresh : state.fixedWindowStart = none → state.fixedWindowCount = 0)
    (hok : (countFixedWindow window limit now state).1 = true) :
    Step window limit now state.fixedWindow
      (countFixedWindow window limit now state).2.fixedWindow := by
  cases hstart : state.fixedWindowStart with
  | none =>
    have hzero : ¬ window ≤ durationSince now now := by
      rw [not_le, durationSince_lt_iff hpos]
      exact Nat.lt_add_of_pos_right hpos
    simp only [countFixedWindow, hstart, Option.getD_none, if_neg hzero, hfresh hstart] at hok ⊢
    split_ifs at hok ⊢ with hroom
    refine .opens (fun start hsome => ?_) hroom
    rw [LimitState.fixedWindow, hstart] at hsome
    cases hsome
  | some start =>
    by_cases hover : window ≤ durationSince now start
    · simp only [countFixedWindow, hstart, Option.getD_some, if_pos hover] at hok ⊢
      split_ifs at hok ⊢ with hroom
      rw [← not_lt, durationSince_lt_iff hpos, not_lt] at hover
      refine .opens (fun other hsome => ?_) hroom
      rw [LimitState.fixedWindow, hstart] at hsome
      cases hsome
      exact hover
    · simp only [countFixedWindow, hstart, Option.getD_some, if_neg hover] at hok ⊢
      split_ifs at hok ⊢ with hroom
      rw [not_le, durationSince_lt_iff hpos] at hover
      exact .stays hstart hover hroom

theorem RateLimitConfig.stageRule_fixed {cfg : RateLimitConfig} {rule : ScopedLimitRule}
    (hpolicy : cfg.policyOf rule = .fixedWindow) {now : Instant} {current next : LimitState}
    (hfresh : current.fixedWindowStart = none → current.fixedWindowCount = 0)
    (h : cfg.stageRule rule now current = some next) :
    Step (fromSecs rule.window) rule.limit.toNat now current.fixedWindow next.fixedWindow := by
  obtain ⟨-, hok, rfl⟩ := stageRule_eq_some.mp h
  rw [hpolicy, applyPolicy] at hok ⊢
  exact countFixedWindow_step rule.window_pos hfresh hok

/-! ## The windows and the history -/

namespace Recording

/-- The counter of a key fits its history, and every accepted check lies
in the window it was counted in. -/
structure WindowsFit (rule : ScopedLimitRule) (value : String) (r : Recording) : Prop where
  fits : Fits (fromSecs rule.window) rule.limit.toNat
    (r.states.lookup (scopeKey rule.scope value)).fixedWindow
    (r.windowStarts rule.scope value) (r.times rule.scope value)
  inWindow : ∀ check ∈ r.acceptedOf rule.scope value, ∃ start,
    check.windowStart rule.scope = some start ∧ start ≤ check.time
      ∧ check.time < start + fromSecs rule.window

variable {cfg : RateLimitConfig} {rule : ScopedLimitRule} {value : String} {r : Recording}

theorem WindowsFit.start : WindowsFit rule value .start where
  fits := .empty
  inWindow := fun _ hmem => by cases hmem

theorem WindowsFit.step (h : WindowsFit rule value r)
    (hpolicy : cfg.policyOf rule = .fixedWindow) (hon : cfg.enabled = true)
    (hnodup : (cfg.effectiveRules.map ScopedLimitRule.scope).Nodup)
    (hrule : rule ∈ cfg.effectiveRules) {check : RateLimitContext × Instant}
    (horder : r.InOrder check) : WindowsFit rule value (r.step cfg check) := by
  have hlegacy := RateLimitConfig.isLegacy_eq_false hrule (by simp [hpolicy])
  cases keyStep hon hlegacy hrule value r check with
  | kept hstate hhistory =>
    refine ⟨?_, ?_⟩
    · rw [hstate, windowStarts, times, hhistory]
      exact h.fits
    · rw [hhistory]
      exact h.inWindow
  | granted hvalue hstaged hwriter hscope hwritten hhistory =>
    rw [List.inj_on_of_nodup_map hnodup hwriter hrule hscope] at hwritten
    have hstep := RateLimitConfig.stageRule_fixed hpolicy
      (fun hnone => (h.fits.fresh hnone).1) hwritten
    obtain ⟨start, hstart, hle, hlt, hfits⟩ :=
      h.fits.step hstep rule.window_pos horder.times_le
    have hnew : AcceptedCheck.windowStart ⟨check.1, check.2, (r.step cfg check).states⟩
        rule.scope = some start := by
      rw [AcceptedCheck.windowStart, hvalue]
      exact hstart
    refine ⟨?_, fun accepted hmem => ?_⟩
    · simpa [windowStarts, times, hhistory, hnew] using hfits
    · rw [hhistory] at hmem
      rcases List.mem_append.mp hmem with hmem | hmem
      · exact h.inWindow accepted hmem
      · rw [List.mem_singleton.mp hmem]
        exact ⟨start, hnew, hle, hlt⟩

end Recording

/-- **The fixed-window bound.** For a rule that shares its scope with no
other, on every trace with a clock that does not run backwards: every
accepted check of a key lies in its window, windows of a key start the
same or at least a window apart, none has more accepted checks than the
limit, and no half-open interval as long as a window has more than twice
as many. -/
theorem fixed_window_bound {cfg : RateLimitConfig} (hon : cfg.enabled = true)
    (hnodup : (cfg.effectiveRules.map ScopedLimitRule.scope).Nodup) {rule : ScopedLimitRule}
    (hrule : rule ∈ cfg.effectiveRules) (hpolicy : cfg.policyOf rule = .fixedWindow)
    {trace : List (RateLimitContext × Instant)}
    (hclock : (trace.map Prod.snd).Pairwise (· ≤ ·)) (value : String) :
    let r := Recording.after cfg trace
    (∀ check ∈ r.acceptedOf rule.scope value, ∃ start,
      check.windowStart rule.scope = some start ∧ start ≤ check.time
        ∧ check.time < start + fromSecs rule.window)
    ∧ (r.windowStarts rule.scope value).Pairwise
      (fun start next => start = next ∨ start + fromSecs rule.window ≤ next)
    ∧ (∀ start, (r.windowStarts rule.scope value).count start ≤ rule.limit.toNat)
    ∧ ∀ s, r.countWithin rule.scope value s (fromSecs rule.window) ≤ 2 * rule.limit.toNat
      ∧ (r.times rule.scope value).countP
        (fun time => s < time ∧ time ≤ s + fromSecs rule.window) ≤ 2 * rule.limit.toNat := by
  intro r
  have hfit : Recording.WindowsFit rule value r :=
    Recording.after_invariant .start
      (fun _ _ h horder => h.step hpolicy hon hnodup hrule horder) hclock
  refine ⟨hfit.inWindow, hfit.fits.spaced, hfit.fits.full,
    fun s => ⟨hfit.fits.interval s, ?_⟩⟩
  rw [Recording.countP_open_eq]
  exact hfit.fits.interval (s + 1)

/-! ### Two windows back to back, and a limiter that is switched off -/

def oncePerSecond : ScopedLimitRule where
  scope := .client
  limit := 1
  windowSeconds := 1
  policy := some .fixedWindow

def counting (enabled : Bool) : RateLimitConfig where
  enabled := enabled
  scopedLimits := [oncePerSecond]

/-- One check at the start of the second and two a second later. -/
theorem two_windows_within_bound :
    (Recording.after (counting true) [(orderByUser, 0), (orderByUser, 1000000000),
      (orderByUser, 1000000000)]).times .client "orders:10.0.0.9" = [0, 1000000000]
    ∧ (Recording.after (counting true) [(orderByUser, 0), (orderByUser, 1000000000),
        (orderByUser, 1000000000)]).countWithin .client "orders:10.0.0.9" 1 (fromSecs 1)
      ≤ 2 * 1 := by
  have hrule : oncePerSecond ∈ (counting true).effectiveRules := by decide
  have hclock : (([(orderByUser, 0), (orderByUser, 1000000000), (orderByUser, 1000000000)] :
      List (RateLimitContext × Instant)).map Prod.snd).Pairwise (· ≤ ·) := by decide
  exact ⟨by decide +kernel,
    ((fixed_window_bound rfl (by decide) hrule rfl hclock "orders:10.0.0.9").2.2.2 1).1⟩

/-- Switched off, the limiter asks no rule and accepts three checks at
once. -/
theorem three_at_once_when_off :
    ¬ (Recording.after (counting false) [(orderByUser, 0), (orderByUser, 0),
        (orderByUser, 0)]).countWithin .client "orders:10.0.0.9" 0 (fromSecs 1)
      ≤ 2 * oncePerSecond.limit.toNat := by
  decide +kernel

end KongGateway.GatewayCore
