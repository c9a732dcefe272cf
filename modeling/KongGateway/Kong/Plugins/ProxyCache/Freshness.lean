import KongGateway.Lib.MapM
import KongGateway.Kong.Plugins.ProxyCache
import KongGateway.Kong.Tools.Http

/-!
# Freshness — when a stored response is served

With `cache_control` the directives of the request decide on a stored
response, each in its own branch; without it the age is compared with
`cache_ttl`. A comparison with a directive that is no number raises an
error. Ages are differences of times in seconds, and are exact.
-/

namespace KongGateway.Kong.Plugins.ProxyCache

open Bytes
open Tools (Directive Directives HeaderValue parseDirectiveHeader calculateResourceTtl)

/-! ## Configuration, requests and stored responses -/

structure CacheConf where
  requestMethod : List Text
  cacheControl : Bool
  cacheTtl : Option Int
  cacheTtl_pos : ∀ ttl, cacheTtl = some ttl → 0 < ttl

structure CacheRequest where
  method : Text
  cacheControl : HeaderValue
  /-- `ngx.var.authorization` -/
  authorization : Bool

/-- What is stored of a response besides its content. -/
structure StoredResponse where
  timestamp : Int
  ttl : Option ℚ
  version : Nat
  deriving DecidableEq

inductive Fetched where
  | found (res : StoredResponse)
  | missing
  | failed

/-- What the access phase does. -/
inductive Action where
  | bypass
  | gatewayTimeout
  | miss
  | failed
  | purge
  | refresh
  | hit
  deriving DecidableEq

/-- Where it raises an error: reading the header, comparing with a
directive, or comparing with a `cache_ttl` that is not set. -/
inductive Raise where
  | header
  | directive
  | cacheTtl
  deriving DecidableEq

def cacheVersion : Nat := 1

def StoredResponse.age (res : StoredResponse) (now : Int) : ℚ := now - res.timestamp

/-! ## The access phase -/

def cacheableRequest (conf : CacheConf) (cc : Directives) (request : CacheRequest) : Bool :=
  if request.method ∉ conf.requestMethod then false
  else if conf.cacheControl && ((cc.get (ofText "no-store")).isSome
      || (cc.get (ofText "no-cache")).isSome || request.authorization) then false
  else true

/-- A comparison with a directive, which the request may not have. -/
def refuses (refused : LuaNumber → Bool) : Option Directive → Except Raise Bool
  | none => .ok false
  | some (.number n) => .ok (refused n)
  | some (.text _) => .error .directive
  | some .flag => .error .directive

/-- A comparison with a directive that takes the ttl into account. -/
def refusesWithTtl (ttl : Option ℚ) (refused : ℚ → LuaNumber → Bool) (directive : Option Directive) :
    Except Raise Bool :=
  match ttl with
  | some ttl => refuses (refused ttl) directive
  | none => if directive.isSome then .error .directive else .ok false

/-- The decision on a stored response. -/
def acceptStored (conf : CacheConf) (cc : Directives) (res : StoredResponse) (now : Int) :
    Except Raise Action :=
  if conf.cacheControl then do
    if ← refuses (fun n => n.lt (.finite (res.age now))) (cc.get (ofText "max-age")) then
      .ok .refresh
    else if ← refusesWithTtl res.ttl (fun ttl n => n.lt (.finite (res.age now - ttl)))
        (cc.get (ofText "max-stale")) then
      .ok .refresh
    else if ← refusesWithTtl res.ttl (fun ttl n => LuaNumber.lt (.finite (ttl - res.age now)) n)
        (cc.get (ofText "min-fresh")) then
      .ok .refresh
    else .ok .hit
  else
    match conf.cacheTtl with
    | none => .error .cacheTtl
    | some cacheTtl => if (cacheTtl : ℚ) < res.age now then .ok .refresh else .ok .hit

/-- `ProxyCacheHandler:access`, for what the strategy fetches. -/
def access (tonumber : Text → Option LuaNumber) (conf : CacheConf) (request : CacheRequest)
    (fetched : Fetched) (now : Int) : Except Raise Action :=
  match parseDirectiveHeader tonumber request.cacheControl with
  | .error _ => .error .header
  | .ok cc =>
    if cacheableRequest conf cc request then
      match fetched with
      | .missing =>
        if conf.cacheControl && (cc.get (ofText "only-if-cached")).isSome then
          .ok .gatewayTimeout
        else .ok .miss
      | .failed => .ok .failed
      | .found res =>
        if res.version ≠ cacheVersion then .ok .purge else acceptStored conf cc res now
    else .ok .bypass

/-! ## Storing a response -/

/-- `header_filter`: the ttl of a response that may be stored. `matched` is
whether its status and its content type are configured. -/
def headerFilter (tonumber : Text → Option LuaNumber) (parseHttpTime : Text → Option Int)
    (conf : CacheConf) (now : Int) (matched : Bool) (cacheControl expires : HeaderValue) :
    Except String (Option (Option LuaNumber)) := do
  let cc ← parseDirectiveHeader tonumber cacheControl
  if !matched then .ok none
  else if !conf.cacheControl then .ok (some (conf.cacheTtl.map fun ttl => .finite ttl))
  else if (cc.get (ofText "private")).isSome || (cc.get (ofText "no-store")).isSome
      || (cc.get (ofText "no-cache")).isSome then .ok none
  else
    let ttl ← calculateResourceTtl parseHttpTime now expires cc
    if ttl.lt (.finite 0) || ttl = .finite 0 then .ok none else .ok (some (some ttl))

/-- `body_filter`: a number that is not finite cannot be encoded. -/
def bodyFilter (now : Int) (resTtl : Option LuaNumber) : Option StoredResponse :=
  match resTtl with
  | none => some { timestamp := now, ttl := none, version := cacheVersion }
  | some (.finite ttl) => some { timestamp := now, ttl := some ttl, version := cacheVersion }
  | some _ => none

/-! ## Freshness -/

/-- The number is at least `q`. -/
def AtLeast (q : ℚ) : LuaNumber → Prop
  | .finite p => q ≤ p
  | .posInf => True
  | .negInf => False
  | .nan => False

/-- The age is within the lifetime of the response: its ttl, and what
`max-stale` adds to it, or `cache_ttl`. -/
def Fresh (conf : CacheConf) (cc : Directives) (res : StoredResponse) (now : Int) : Prop :=
  if conf.cacheControl then
    ∃ ttl, res.ttl = some ttl ∧ (res.age now ≤ ttl
      ∨ ∃ n, cc.get (ofText "max-stale") = some (.number n) ∧ AtLeast (res.age now - ttl) n)
  else ∃ cacheTtl, conf.cacheTtl = some cacheTtl ∧ res.age now ≤ cacheTtl

/-- No directive raises an error, and what is served is fresh. -/
structure Respected (conf : CacheConf) (request : CacheRequest) (fetched : Fetched) (now : Int)
    (tonumber : Text → Option LuaNumber) (outcome : Except Raise Action) : Prop where
  header : outcome ≠ .error .header
  directive : outcome ≠ .error .directive
  fresh : outcome = .ok .hit → ∀ cc res, fetched = .found res →
    parseDirectiveHeader tonumber request.cacheControl = .ok cc → Fresh conf cc res now

/-! ## What the directives must be -/

/-- The directive is a number if it is there; it refuses, or the rest holds. -/
def Answered (refused : LuaNumber → Bool) (directive : Option Directive) (rest : Prop) : Prop :=
  (∀ d, directive = some d → ∃ n, d = .number n)
    ∧ ((∃ n, directive = some (.number n) ∧ refused n = true) ∨ rest)

/-- The same where the ttl is taken into account. -/
def AnsweredWithTtl (ttl : Option ℚ) (refused : ℚ → LuaNumber → Bool)
    (directive : Option Directive) (rest : Prop) : Prop :=
  match ttl with
  | some ttl => Answered (refused ttl) directive rest
  | none => directive = none ∧ rest

/-- The directives that are looked at are numbers, and unless one of them
refuses, the age is within the ttl or there is a `max-stale`, not NaN. -/
def Settled (cc : Directives) (ttl : Option ℚ) (age : ℚ) : Prop :=
  Answered (fun n => n.lt (.finite age)) (cc.get (ofText "max-age"))
    (AnsweredWithTtl ttl (fun ttl n => n.lt (.finite (age - ttl))) (cc.get (ofText "max-stale"))
      (AnsweredWithTtl ttl (fun ttl n => LuaNumber.lt (.finite (ttl - age)) n)
        (cc.get (ofText "min-fresh"))
        (∃ t, ttl = some t ∧ (age ≤ t
          ∨ ∃ n, cc.get (ofText "max-stale") = some (.number n) ∧ n ≠ .nan))))

/-- A decision that raises no error because of a directive, and that is to
serve the response only if `fresh`. -/
structure Sound (fresh : Prop) (decision : Except Raise Action) : Prop where
  raises : ∀ err, decision = .error err → err = .cacheTtl
  hit : decision = .ok .hit → fresh

theorem sound_hit_iff (fresh : Prop) : Sound fresh (.ok .hit) ↔ fresh := by
  constructor
  · intro h
    exact h.hit rfl
  · intro h
    constructor
    · intro err herr
      cases herr
    · intro _
      exact h

theorem sound_refresh (fresh : Prop) : Sound fresh (.ok .refresh) := by
  constructor
  · intro err herr
    cases herr
  · intro hhit
    cases hhit

theorem not_sound_directive (fresh : Prop) : ¬ Sound fresh (.error .directive) := by
  intro h
  cases h.raises .directive rfl

theorem sound_refuses_iff (fresh : Prop) (refused : LuaNumber → Bool) (directive : Option Directive)
    (rest : Except Raise Action) :
    Sound fresh (do if ← refuses refused directive then .ok .refresh else rest)
      ↔ Answered refused directive (Sound fresh rest) := by
  unfold Answered
  cases directive with
  | none =>
    show Sound fresh rest ↔ _
    simp
  | some d =>
    cases d with
    | number n =>
      show Sound fresh (if refused n = true then .ok .refresh else rest) ↔ _
      by_cases hrefused : refused n = true
      · rw [if_pos hrefused]
        simp [hrefused, sound_refresh]
      · rw [if_neg hrefused]
        simp [hrefused]
    | text value =>
      constructor
      · intro h
        exact absurd h (not_sound_directive fresh)
      · rintro ⟨hnumber, -⟩
        obtain ⟨n, hn⟩ := hnumber _ rfl
        cases hn
    | flag =>
      constructor
      · intro h
        exact absurd h (not_sound_directive fresh)
      · rintro ⟨hnumber, -⟩
        obtain ⟨n, hn⟩ := hnumber _ rfl
        cases hn

theorem sound_refusesWithTtl_iff (fresh : Prop) (ttl : Option ℚ) (refused : ℚ → LuaNumber → Bool)
    (directive : Option Directive) (rest : Except Raise Action) :
    Sound fresh (do if ← refusesWithTtl ttl refused directive then .ok .refresh else rest)
      ↔ AnsweredWithTtl ttl refused directive (Sound fresh rest) := by
  cases ttl with
  | some ttl => exact sound_refuses_iff fresh (refused ttl) directive rest
  | none =>
    cases directive with
    | none =>
      show Sound fresh rest ↔ none = none ∧ Sound fresh rest
      exact ⟨fun h => ⟨rfl, h⟩, fun h => h.2⟩
    | some d =>
      constructor
      · intro h
        exact absurd h (not_sound_directive fresh)
      · rintro ⟨hnone, -⟩
        cases hnone

theorem answered_congr {refused : LuaNumber → Bool} {directive : Option Directive} {rest rest' : Prop}
    (h : (∀ n, directive = some (.number n) → refused n = false) → (rest ↔ rest')) :
    Answered refused directive rest ↔ Answered refused directive rest' := by
  unfold Answered
  refine and_congr_right fun _ => ?_
  by_cases hrefused : ∃ n, directive = some (.number n) ∧ refused n = true
  · exact ⟨fun _ => .inl hrefused, fun _ => .inl hrefused⟩
  · refine or_congr_right (h fun n hn => ?_)
    exact Bool.eq_false_iff.mpr fun htrue => hrefused ⟨n, hn, htrue⟩

/-- What `max-stale` does not refuse is at most that much older. -/
theorem atLeast_of_not_lt {n : LuaNumber} {q : ℚ} (h : n.lt (.finite q) = false) :
    AtLeast q n ↔ n ≠ .nan := by
  cases n with
  | finite p => exact iff_of_true (not_lt.mp (of_decide_eq_false h)) (fun hnan => by cases hnan)
  | posInf => exact iff_of_true trivial (fun hnan => by cases hnan)
  | negInf => cases h
  | nan => exact iff_of_false id (fun hne => hne rfl)

/-! ## The decision on a stored response -/

theorem acceptStored_sound_iff {conf : CacheConf} (hcontrol : conf.cacheControl = true)
    (cc : Directives) (res : StoredResponse) (now : Int) :
    Sound (Fresh conf cc res now) (acceptStored conf cc res now)
      ↔ Settled cc res.ttl (res.age now) := by
  unfold acceptStored Settled
  rw [if_pos hcontrol, sound_refuses_iff]
  apply answered_congr
  intro _
  rw [sound_refusesWithTtl_iff]
  cases httl : res.ttl with
  | none =>
    have hnotFresh : ¬ Fresh conf cc res now := by
      unfold Fresh
      rw [if_pos hcontrol, httl]
      rintro ⟨ttl, hnone, -⟩
      cases hnone
    show _ = none ∧ _ ↔ _ = none ∧ _
    refine and_congr_right fun _ => ?_
    rw [sound_refusesWithTtl_iff, sound_hit_iff]
    refine and_congr_right fun _ => ?_
    simp [hnotFresh]
  | some ttl =>
    show Answered _ _ _ ↔ Answered _ _ _
    apply answered_congr
    intro hstale
    rw [sound_refusesWithTtl_iff]
    show Answered _ _ _ ↔ Answered _ _ _
    apply answered_congr
    intro _
    rw [sound_hit_iff]
    unfold Fresh
    rw [if_pos hcontrol, httl]
    refine exists_congr fun t => and_congr_right fun ht => or_congr_right ?_
    refine exists_congr fun n => and_congr_right fun hn => ?_
    cases ht
    exact atLeast_of_not_lt (hstale n hn)

/-- Without `cache_control` only what is as old as `cache_ttl` is served. -/
theorem acceptStored_of_cacheTtl {conf : CacheConf} (hcontrol : conf.cacheControl = false)
    (cc : Directives) (res : StoredResponse) (now : Int) :
    Sound (Fresh conf cc res now) (acceptStored conf cc res now) := by
  unfold acceptStored Fresh
  rw [if_neg (by simp [hcontrol]), if_neg (by simp [hcontrol])]
  cases hcacheTtl : conf.cacheTtl with
  | none =>
    constructor
    · intro err herr
      cases herr
      rfl
    · intro hhit
      cases hhit
  | some cacheTtl =>
    by_cases hage : (cacheTtl : ℚ) < res.age now
    · simp only [if_pos hage]
      exact sound_refresh _
    · simp only [if_neg hage]
      rw [sound_hit_iff]
      exact ⟨cacheTtl, rfl, not_lt.mp hage⟩

/-- Whatever the access phase does without looking at a stored response. -/
theorem respected_of_action {conf : CacheConf} {request : CacheRequest} {fetched : Fetched}
    {now : Int} {tonumber : Text → Option LuaNumber} {action : Action} (h : action ≠ .hit) :
    Respected conf request fetched now tonumber (.ok action) where
  header := fun herr => by cases herr
  directive := fun herr => by cases herr
  fresh := fun hhit => absurd (Except.ok.inj hhit) h

theorem respected_found_iff {conf : CacheConf} {request : CacheRequest} {res : StoredResponse}
    {now : Int} {tonumber : Text → Option LuaNumber} {cc : Directives}
    (hcc : parseDirectiveHeader tonumber request.cacheControl = .ok cc) {decision : Except Raise Action}
    (hheader : decision ≠ .error .header) :
    Respected conf request (.found res) now tonumber decision
      ↔ Sound (Fresh conf cc res now) decision := by
  constructor
  · intro h
    constructor
    · intro err herr
      cases err with
      | header => exact absurd herr hheader
      | directive => exact absurd herr h.directive
      | cacheTtl => rfl
    · intro hhit
      exact h.fresh hhit cc res rfl hcc
  · intro h
    refine ⟨hheader, fun herr => ?_, fun hhit cc' res' hres hcc' => ?_⟩
    · cases h.raises .directive herr
    · cases hres
      cases hcc.symm.trans hcc'
      exact h.hit hhit

theorem refuses_ne_header {refused : LuaNumber → Bool} {directive : Option Directive}
    {rest : Except Raise Action} (h : rest ≠ .error .header) :
    (do if ← refuses refused directive then Except.ok Action.refresh else rest)
      ≠ .error .header := by
  cases directive with
  | none => exact h
  | some d =>
    cases d with
    | number n =>
      show (if refused n = true then Except.ok Action.refresh else rest) ≠ _
      split
      · intro herr
        cases herr
      · exact h
    | text value =>
      intro herr
      cases herr
    | flag =>
      intro herr
      cases herr

theorem refusesWithTtl_ne_header {ttl : Option ℚ} {refused : ℚ → LuaNumber → Bool}
    {directive : Option Directive} {rest : Except Raise Action} (h : rest ≠ .error .header) :
    (do if ← refusesWithTtl ttl refused directive then Except.ok Action.refresh else rest)
      ≠ .error .header := by
  cases ttl with
  | some ttl => exact refuses_ne_header h
  | none =>
    cases directive with
    | none => exact h
    | some d =>
      intro herr
      cases herr

theorem acceptStored_ne_header (conf : CacheConf) (cc : Directives) (res : StoredResponse)
    (now : Int) : acceptStored conf cc res now ≠ .error .header := by
  unfold acceptStored
  split
  · apply refuses_ne_header
    apply refusesWithTtl_ne_header
    apply refusesWithTtl_ne_header
    intro herr
    cases herr
  · cases conf.cacheTtl with
    | none =>
      intro herr
      cases herr
    | some cacheTtl =>
      show (if (cacheTtl : ℚ) < res.age now then _ else _) ≠ _
      split
      · intro herr
        cases herr
      · intro herr
        cases herr

/-- The stored response that the access phase decides on. -/
def DecidesOn (conf : CacheConf) (cc : Directives) (request : CacheRequest) (fetched : Fetched)
    (res : StoredResponse) : Prop :=
  cacheableRequest conf cc request = true ∧ fetched = .found res ∧ res.version = cacheVersion

/-- No response is served beyond its lifetime and no directive raises an
error exactly when the header does not start with a piece without a name
and, with `cache_control`, the directives settle the age of what is
stored. -/
theorem served_within_lifetime_iff (tonumber : Text → Option LuaNumber) (conf : CacheConf)
    (request : CacheRequest) (fetched : Fetched) (now : Int) :
    Respected conf request fetched now tonumber (access tonumber conf request fetched now)
      ↔ request.cacheControl.FirstNamed
        ∧ ∀ cc res, parseDirectiveHeader tonumber request.cacheControl = .ok cc →
          DecidesOn conf cc request fetched res → conf.cacheControl = true →
          Settled cc res.ttl (res.age now) := by
  rw [← Tools.parseDirectiveHeader_ok_iff tonumber]
  unfold access
  cases hcc : parseDirectiveHeader tonumber request.cacheControl with
  | error err =>
    constructor
    · intro h
      exact absurd rfl h.header
    · rintro ⟨⟨cc, hok⟩, -⟩
      cases hok
  | ok cc =>
    show Respected conf request fetched now tonumber (if _ then _ else _) ↔ _
    by_cases hrequest : cacheableRequest conf cc request = true
    · rw [if_pos hrequest]
      cases fetched with
      | missing =>
        apply iff_of_true
        · show Respected _ _ _ _ _ (if _ then _ else _)
          split
          · exact respected_of_action (by decide)
          · exact respected_of_action (by decide)
        · refine ⟨⟨cc, rfl⟩, ?_⟩
          rintro cc' res - ⟨-, hfound, -⟩
          cases hfound
      | failed =>
        apply iff_of_true
        · exact respected_of_action (by decide)
        · refine ⟨⟨cc, rfl⟩, ?_⟩
          rintro cc' res - ⟨-, hfound, -⟩
          cases hfound
      | found res =>
        show Respected _ _ _ _ _ (if _ then _ else _) ↔ _
        by_cases hversion : res.version = cacheVersion
        · rw [if_neg (not_not.mpr hversion),
            respected_found_iff hcc (acceptStored_ne_header conf cc res now)]
          constructor
          · intro h
            refine ⟨⟨cc, rfl⟩, fun cc' res' hcc' hdecides hcontrol => ?_⟩
            cases hcc'
            cases hdecides.2.1
            exact (acceptStored_sound_iff hcontrol cc res now).mp h
          · rintro ⟨-, h⟩
            cases hcontrol : conf.cacheControl with
            | false => exact acceptStored_of_cacheTtl hcontrol cc res now
            | true =>
              exact (acceptStored_sound_iff hcontrol cc res now).mpr
                (h cc res rfl ⟨hrequest, rfl, hversion⟩ hcontrol)
        · rw [if_pos hversion]
          apply iff_of_true
          · exact respected_of_action (by decide)
          · refine ⟨⟨cc, rfl⟩, ?_⟩
            rintro cc' res' - ⟨-, hfound, hversion'⟩
            cases hfound
            exact absurd hversion' hversion
    · rw [if_neg hrequest]
      apply iff_of_true
      · exact respected_of_action (by decide)
      · refine ⟨⟨cc, rfl⟩, ?_⟩
        rintro cc' res hcc' ⟨hrequest', -⟩
        cases hcc'
        exact absurd hrequest' hrequest

/-! ### A response past its lifetime -/

/-- A configuration with `cache_control`. -/
def controlledConf : CacheConf where
  requestMethod := [ofText "GET"]
  cacheControl := true
  cacheTtl := some 300
  cacheTtl_pos := by
    intro ttl httl
    cases httl
    decide

/-- A request without directives. -/
def plainRequest : CacheRequest where
  method := ofText "GET"
  cacheControl := .absent
  authorization := false

/-- `tonumber` of the one number that the example has. -/
def tenOnly (value : Text) : Option LuaNumber := if value = ofText "10" then some (.finite 10) else none

/-- A response of `max-age=10` is served after 100 seconds. -/
theorem stale_response_served :
    ∃ resTtl res, headerFilter tenOnly (fun _ => none) controlledConf 0 true
        (.text (ofText "max-age=10")) .absent = .ok (some resTtl)
      ∧ bodyFilter 0 resTtl = some res
      ∧ access tenOnly controlledConf plainRequest (.found res) 100 = .ok .hit
      ∧ ¬ Respected controlledConf plainRequest (.found res) 100 tenOnly
        (access tenOnly controlledConf plainRequest (.found res) 100) := by
  have haccess : access tenOnly controlledConf plainRequest
      (.found ⟨0, some 10, cacheVersion⟩) 100 = .ok .hit := by
    decide +kernel
  refine ⟨some (.finite 10), ⟨0, some 10, cacheVersion⟩, by decide +kernel, rfl, haccess, ?_⟩
  intro h
  obtain ⟨ttl, httl, hage⟩ := h.fresh haccess ∅ _ rfl rfl
  cases httl
  rcases hage with hage | ⟨n, hn, -⟩
  · revert hage
    decide +kernel
  · cases hn

end KongGateway.Kong.Plugins.ProxyCache
