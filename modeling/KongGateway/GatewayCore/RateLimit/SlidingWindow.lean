import Mathlib.Data.List.Nodup
import Mathlib.Data.List.TakeWhile
import KongGateway.GatewayCore.RateLimit.Accepted

/-!
# RateLimit — the sliding window is exact

The deque of a sliding-window rule is pruned at the front, when a check
of its key comes, and the pruned deque is kept only if all rules accept.
Still, what a check finds behind the pruning are the accepted checks of
the key within the window, neither more nor fewer: what earlier checks
have pruned stays out of the window, and what they have left is in
order.
-/

namespace KongGateway.GatewayCore

open RustStd

/-! ## Pruning -/

/-- The deque of a key behind the loop that pops expired hits off. -/
def pruneHits (window : Duration) (now : Instant) (hits : List Instant) : List Instant :=
  hits.dropWhile fun front => decide (window ≤ durationSince now front)

private theorem dropWhile_eq_filter {α : Type*} {R : α → α → Prop} {p : α → Bool} {l : List α}
    (hsorted : l.Pairwise R) (hp : ∀ a b, R a b → p b = true → p a = true) :
    l.dropWhile p = l.filter fun a => !p a := by
  induction l with
  | nil => rfl
  | cons a l ih =>
    rw [List.pairwise_cons] at hsorted
    by_cases ha : p a = true
    · rw [List.dropWhile_cons_of_pos ha, ih hsorted.2]
      simp [ha]
    · -- nothing behind an element that stays is dropped
      have hall : ∀ b ∈ l, (!p b) = true := by
        intro b hb
        by_contra hpb
        exact ha (hp a b (hsorted.1 b hb) (by simpa using hpb))
      rw [List.dropWhile_cons_of_neg ha, List.filter_cons_of_pos (by simpa using ha),
        List.filter_eq_self.mpr hall]

/-- Of hits in order, pruning keeps exactly those within the window. -/
theorem pruneHits_eq_filter {window : Duration} (hpos : 0 < window) (now : Instant)
    {hits : List Instant} (hsorted : hits.Pairwise (· ≤ ·)) :
    pruneHits window now hits = hits.filter fun time => decide (now < time + window) := by
  rw [pruneHits, dropWhile_eq_filter hsorted]
  · refine List.filter_congr fun time _ => ?_
    rw [← decide_not, decide_eq_decide, not_le, durationSince_lt_iff hpos]
  · intro a b hab hb
    rw [decide_eq_true_eq] at hb ⊢
    exact Nat.le_trans hb (Nat.sub_le_sub_left hab now)

theorem ScopedLimitRule.window_pos (rule : ScopedLimitRule) : 0 < fromSecs rule.window := by
  have hone : 1 ≤ rule.window.toNat := by
    show 1 ≤ (if rule.windowSeconds ≤ 1 then 1 else rule.windowSeconds).toNat
    split
    · rfl
    · rename_i hlt
      rw [UInt64.le_iff_toNat_le] at hlt
      exact Nat.le_of_lt (Nat.lt_of_not_le hlt)
  exact Nat.mul_pos (by decide) hone

namespace RateLimitConfig

variable {cfg : RateLimitConfig} {rule : ScopedLimitRule} {now : Instant}
  {current next : LimitState}

theorem pushSlidingHit_eq (window : Duration) (limit : Nat) (now : Instant)
    (state : LimitState) :
    pushSlidingHit window limit now state
      = if (pruneHits window now state.slidingHits).length < limit then
          (true, { state with slidingHits := pruneHits window now state.slidingHits ++ [now] })
        else (false, { state with slidingHits := pruneHits window now state.slidingHits }) := rfl

/-- A sliding-window rule refuses when its quota is reached or its window
is full. -/
theorem stageRule_sliding_none (hpolicy : cfg.policyOf rule = .slidingWindow) :
    cfg.stageRule rule now current = none
      ↔ rule.limit.toNat ≤ (pruneHits (fromSecs rule.window) now current.slidingHits).length
        ∨ quotaReached rule current = true := by
  rw [stageRule, hpolicy, applyPolicy, pushSlidingHit_eq]
  cases quotaReached rule current with
  | true => simp
  | false =>
    simp only [Bool.false_eq_true, if_false, or_false]
    split_ifs with hlen
    · simp [hlen]
    · simpa using hlen

theorem stageRule_sliding_some (hpolicy : cfg.policyOf rule = .slidingWindow)
    (h : cfg.stageRule rule now current = some next) :
    next.slidingHits = pruneHits (fromSecs rule.window) now current.slidingHits ++ [now]
      ∧ (pruneHits (fromSecs rule.window) now current.slidingHits).length < rule.limit.toNat := by
  obtain ⟨-, hok, rfl⟩ := stageRule_eq_some.mp h
  rw [hpolicy, applyPolicy, pushSlidingHit_eq] at hok ⊢
  split_ifs at hok ⊢ with hlen
  exact ⟨rfl, hlen⟩

theorem isLegacy_eq_false (hrule : rule ∈ cfg.effectiveRules)
    (hpolicy : cfg.policyOf rule ≠ .tokenBucket) : cfg.isLegacy = false := by
  cases hlimits : cfg.scopedLimits with
  | cons head rest => simp [isLegacy, hlimits]
  | nil =>
    -- the only rule is the default one, with the policy of the configuration
    simp only [effectiveRules, hlimits, List.isEmpty_nil, if_true, List.mem_singleton] at hrule
    subst hrule
    simpa [isLegacy, hlimits, policyOf, defaultRule] using hpolicy

end RateLimitConfig

/-! ## The deque and the history -/

namespace Recording

/-- The accepted checks of a key within the window that ends at `now`. -/
def recent (r : Recording) (scope : LimitScope) (value : String) (window : Duration)
    (now : Instant) : List Instant :=
  (r.times scope value).filter fun time => decide (now < time + window ∧ time ≤ now)

/-- The deque of a key is the end of its history, and what is missing
from it has left the window of an accepted check; no interval as long
as the window has more accepted checks than the limit. -/
structure SlidesExactly (rule : ScopedLimitRule) (value : String) (r : Recording) : Prop where
  deque : ∃ pruned, r.times rule.scope value
      = pruned ++ (r.states.lookup (scopeKey rule.scope value)).slidingHits
    ∧ ∀ time ∈ pruned, ∃ later ∈ r.times rule.scope value,
      time + fromSecs rule.window ≤ later
  sorted : (r.times rule.scope value).Pairwise (· ≤ ·)
  bound : ∀ s, r.countWithin rule.scope value s (fromSecs rule.window) ≤ rule.limit.toNat

variable {cfg : RateLimitConfig} {rule : ScopedLimitRule} {value : String} {r : Recording}
  {now : Instant}

/-- **What a check finds** behind the pruning. -/
theorem SlidesExactly.pruneHits_eq (h : SlidesExactly rule value r)
    (hnow : ∀ time ∈ r.times rule.scope value, time ≤ now) :
    pruneHits (fromSecs rule.window) now
        (r.states.lookup (scopeKey rule.scope value)).slidingHits
      = r.recent rule.scope value (fromSecs rule.window) now := by
  obtain ⟨pruned, htimes, hpruned⟩ := h.deque
  have hsorted := h.sorted
  rw [htimes, List.pairwise_append] at hsorted
  rw [pruneHits_eq_filter rule.window_pos now hsorted.2.1]
  -- the pruned hits are out of the window that ends now, too
  have hout : pruned.filter (fun time => decide (now < time + fromSecs rule.window ∧ time ≤ now))
      = [] := by
    refine List.filter_eq_nil_iff.mpr fun time hmem => ?_
    obtain ⟨later, hlater, hle⟩ := hpruned time hmem
    have hpast := Nat.le_trans hle (hnow later hlater)
    simp only [decide_eq_true_eq, not_and]
    exact fun hlt => absurd hpast (Nat.not_le.mpr hlt)
  rw [recent, htimes, List.filter_append, hout, List.nil_append]
  refine List.filter_congr fun time hmem => ?_
  have hle : time ≤ now := hnow time (by rw [htimes]; exact List.mem_append_right _ hmem)
  simp [hle]

theorem SlidesExactly.start : SlidesExactly rule value .start where
  deque := ⟨[], rfl, by simp⟩
  sorted := List.Pairwise.nil
  bound := fun _ => Nat.zero_le _

theorem SlidesExactly.granted (h : SlidesExactly rule value r)
    (hpolicy : cfg.policyOf rule = .slidingWindow) {r' : Recording}
    (hnow : ∀ time ∈ r.times rule.scope value, time ≤ now)
    (hstage : cfg.stageRule rule now (r.states.lookup (scopeKey rule.scope value))
      = some (r'.states.lookup (scopeKey rule.scope value)))
    (htimes' : r'.times rule.scope value = r.times rule.scope value ++ [now]) :
    SlidesExactly rule value r' := by
  obtain ⟨hhits, hroom⟩ := RateLimitConfig.stageRule_sliding_some hpolicy hstage
  refine ⟨?_, ?_, fun s => ?_⟩
  · obtain ⟨pruned, htimes, hpruned⟩ := h.deque
    refine ⟨pruned ++ (r.states.lookup (scopeKey rule.scope value)).slidingHits.takeWhile
      fun front => decide (fromSecs rule.window ≤ durationSince now front), ?_, ?_⟩
    · rw [htimes', hhits, htimes, pruneHits, List.append_assoc, List.append_assoc,
        ← List.append_assoc (List.takeWhile _ _), List.takeWhile_append_dropWhile]
    · intro time hmem
      rw [htimes']
      rcases List.mem_append.mp hmem with hold | hnew
      · obtain ⟨later, hlater, hle⟩ := hpruned time hold
        exact ⟨later, List.mem_append_left _ hlater, hle⟩
      · -- popped at this check, whose time is recorded
        have hexpired := List.mem_takeWhile_imp hnew
        rw [decide_eq_true_eq, ← not_lt, durationSince_lt_iff rule.window_pos, not_lt] at hexpired
        exact ⟨now, by simp, hexpired⟩
  · rw [htimes', List.pairwise_append]
    refine ⟨h.sorted, List.pairwise_singleton _ _, fun time hmem last hlast => ?_⟩
    rw [List.mem_singleton.mp hlast]
    exact hnow time hmem
  · rw [h.pruneHits_eq hnow] at hroom
    have hbound := h.bound s
    rw [countWithin, htimes', List.countP_append, List.countP_singleton]
    split_ifs with hin
    · -- the checks of the interval are all in the window that ends now
      have hsub : (r.times rule.scope value).countP
            (fun time => decide (s ≤ time ∧ time < s + fromSecs rule.window))
          ≤ (r.recent rule.scope value (fromSecs rule.window) now).length := by
        rw [recent, ← List.countP_eq_length_filter]
        refine List.countP_mono_left fun time hmem hwithin => ?_
        rw [decide_eq_true_eq] at hin hwithin ⊢
        exact ⟨Nat.lt_of_lt_of_le hin.2 (Nat.add_le_add_right hwithin.1 _), hnow time hmem⟩
      exact Nat.lt_of_le_of_lt hsub hroom
    · exact hbound

theorem SlidesExactly.step (h : SlidesExactly rule value r)
    (hpolicy : cfg.policyOf rule = .slidingWindow) (hon : cfg.enabled = true)
    (hnodup : (cfg.effectiveRules.map ScopedLimitRule.scope).Nodup)
    (hrule : rule ∈ cfg.effectiveRules) {check : RateLimitContext × Instant}
    (horder : r.InOrder check) : SlidesExactly rule value (r.step cfg check) := by
  have hlegacy := RateLimitConfig.isLegacy_eq_false hrule (by simp [hpolicy])
  cases keyStep hon hlegacy hrule value r check with
  | kept hstate hhistory =>
    have htimes : (r.step cfg check).times rule.scope value = r.times rule.scope value := by
      rw [times, hhistory, times]
    refine ⟨?_, ?_, fun s => ?_⟩
    · rw [htimes, hstate]
      exact h.deque
    · rw [htimes]
      exact h.sorted
    · rw [countWithin, htimes]
      exact h.bound s
  | granted hvalue hstaged hwriter hscope hwritten hhistory =>
    rw [List.inj_on_of_nodup_map hnodup hwriter hrule hscope] at hwritten
    exact h.granted hpolicy horder.times_le hwritten (by simp [times, hhistory])

end Recording

/-- **The sliding window is exact.** For a rule that shares its scope
with no other, on every trace with a clock that does not run backwards:
a check works on the times of the accepted checks of its key within the
window, in order; the rule refuses it if and only if these are at least
the limit or its quota is reached; and no half-open interval as long as
the window has more accepted checks of a key than the limit. -/
theorem sliding_window_exact {cfg : RateLimitConfig} (hon : cfg.enabled = true)
    (hnodup : (cfg.effectiveRules.map ScopedLimitRule.scope).Nodup) {rule : ScopedLimitRule}
    (hrule : rule ∈ cfg.effectiveRules) (hpolicy : cfg.policyOf rule = .slidingWindow)
    {trace : List (RateLimitContext × Instant)}
    (hclock : (trace.map Prod.snd).Pairwise (· ≤ ·)) :
    (∀ before check rest, trace = before ++ check :: rest →
      let state := (Recording.after cfg before).states.lookup (ruleKey check.1 rule)
      let recent := (Recording.after cfg before).recent rule.scope (check.1.value rule.scope)
        (fromSecs rule.window) check.2
      pruneHits (fromSecs rule.window) check.2 state.slidingHits = recent
        ∧ (cfg.stageRule rule check.2 state = none
          ↔ rule.limit.toNat ≤ recent.length ∨ RateLimitConfig.quotaReached rule state = true))
    ∧ ∀ value s,
      (Recording.after cfg trace).countWithin rule.scope value s (fromSecs rule.window)
        ≤ rule.limit.toNat
      ∧ ((Recording.after cfg trace).times rule.scope value).countP
          (fun time => s < time ∧ time ≤ s + fromSecs rule.window) ≤ rule.limit.toNat := by
  have hexact : ∀ {trace : List (RateLimitContext × Instant)} (value : String),
      (trace.map Prod.snd).Pairwise (· ≤ ·) →
      Recording.SlidesExactly rule value (Recording.after cfg trace) := by
    intro trace value hclock
    exact Recording.after_invariant .start
      (fun _ _ h horder => h.step hpolicy hon hnodup hrule horder) hclock
  refine ⟨fun before check rest htrace => ?_, fun value s => ⟨(hexact value hclock).bound s, ?_⟩⟩
  · subst htrace
    have horder : (Recording.after cfg before).InOrder check := Recording.inOrder_after hclock
    rw [List.map_append, List.pairwise_append] at hclock
    have hprune := (hexact (check.1.value rule.scope) hclock.1).pruneHits_eq horder.times_le
    refine ⟨hprune, ?_⟩
    rw [RateLimitConfig.stageRule_sliding_none hpolicy, ruleKey, hprune]
  · rw [Recording.countP_open_eq]
    exact (hexact value hclock).bound (s + 1)

/-! ### A full window, a quota, and a limiter that is switched off -/

def twicePerSecond : ScopedLimitRule where
  scope := .client
  limit := 2
  windowSeconds := 1
  policy := some .slidingWindow

def sliding (enabled : Bool) (rule : ScopedLimitRule) : RateLimitConfig where
  enabled := enabled
  scopedLimits := [rule]

/-- The third check within a second is refused. -/
theorem third_check_finds_full_window :
    (sliding true twicePerSecond).stageRule twicePerSecond 2
      ((Recording.after (sliding true twicePerSecond)
        [(orderByUser, 0), (orderByUser, 1)]).states.lookup (ruleKey orderByUser twicePerSecond))
      = none := by
  have hrule : twicePerSecond ∈ (sliding true twicePerSecond).effectiveRules := by decide
  have hclock : (([(orderByUser, 0), (orderByUser, 1), (orderByUser, 2)] :
      List (RateLimitContext × Instant)).map Prod.snd).Pairwise (· ≤ ·) := by decide
  exact ((sliding_window_exact rfl (by decide) hrule rfl hclock).1 [(orderByUser, 0),
    (orderByUser, 1)] (orderByUser, 2) [] rfl).2.mpr (.inl (by decide +kernel))

/-- The rule with a quota of one refuses the second check, which finds
one accepted check in the window where two have room. Switched off, the
limiter accepts three checks at once, and the deque stays empty. -/
theorem quota_refuses_below_limit :
    (let r := Recording.after (sliding true { twicePerSecond with quota := some 1 })
        [(orderByUser, 0)];
      (r.recent .client "orders:10.0.0.9" (fromSecs 1) 1).length < 2
        ∧ (sliding true { twicePerSecond with quota := some 1 }).stageRule
          { twicePerSecond with quota := some 1 } 1 (r.states.lookup "client:orders:10.0.0.9")
          = none)
    ∧ (let r := Recording.after (sliding false twicePerSecond)
        [(orderByUser, 0), (orderByUser, 0), (orderByUser, 0)];
      (r.states.lookup "client:orders:10.0.0.9").slidingHits = []
        ∧ r.recent .client "orders:10.0.0.9" (fromSecs 1) 0 = [0, 0, 0]
        ∧ ¬ r.countWithin .client "orders:10.0.0.9" 0 (fromSecs 1) ≤ 2) := by
  decide +kernel

end KongGateway.GatewayCore
