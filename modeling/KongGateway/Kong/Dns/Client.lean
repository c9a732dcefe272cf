import KongGateway.Lib.LuaPattern
import KongGateway.Lib.LuaStd
import KongGateway.Lib.Run
import Mathlib.Tactic.Linarith

/-!
# Client — how long DNS answers live

The cache of the DNS client: `resolve_all` with its callback, the queries
that a call or a stale update still has to make, and the reuse of stale
answers. A call does not yield between an answer and its being stored, so
that both have one time; between two queries anything can happen. The cache
is one store with a time of expiry per entry.
-/

namespace KongGateway.Kong.Dns.Client

open LuaStd

def typeA : Int := 1
def typeAAAA : Int := 28
def typeSRV : Int := 33

/-- `TYPE_A_OR_AAAA` -/
def typeAOrAAAA : Int := -1

/-- Ten years. -/
def longLastingTtl : ℚ := 10 * 365 * 24 * 60 * 60

def cacheOnlyErrorCode : Nat := 100
def emptyRecordErrorCode : Nat := 101

/-- The ttl of an mlcache value for which none is given. -/
def mlcacheTtl : ℚ := 30

/-- A record of a response. -/
structure Record where
  name : String
  type : Int
  ttl : ℚ
  address : String := ""
  target : String := ""
deriving DecidableEq, Repr

/-- An answer list. With an error code there are no records and no time of
expiry. -/
structure Answers where
  records : List Record := []
  errcode : Option Nat := none
  errstr : String := ""
  ttl : Option ℚ := none
  expire : ℚ := 0
  expireAt : Option ℚ := none
deriving DecidableEq, Repr

/-- What a query comes back with. -/
inductive Response
  | failure
  | error (errcode : Nat) (errstr : String)
  | records (records : List Record)

structure HostAddress where
  ipv4 : Option String := none
  ipv6 : Option String := none

structure Resolv where
  search : Option (List String) := none
  ndots : Nat := 1

/-- What `new` keeps of the options; the hosts file is read at
`startedAt`. -/
structure Settings where
  validTtl : Option ℚ := none
  errorTtl : ℚ := 1
  staleTtl : ℚ := 3600
  enableIpv4 : Bool := true
  enableIpv6 : Bool := true
  enableSrv : Bool := true
  resolv : Resolv := {}
  hosts : List (String × HostAddress) := []
  startedAt : ℚ := 0

/-- The name and the type of a cache key. -/
abbrev Key := String × Int

/-! ## Names -/

/-- `^_[^._]+%._[^._]+%.[^.]+` -/
def isSrv (name : String) : Bool :=
  (LuaPattern.matchStart [.lit '_', .plus fun c => c ≠ '.' ∧ c ≠ '_', .lit '.', .lit '_',
    .plus fun c => c ≠ '.' ∧ c ≠ '_', .lit '.', .plus fun c => c ≠ '.'] name.toList).isSome

def isFqdn (name : String) (ndots : Nat) : Bool :=
  name.toList.getLast? = some '.' || ndots ≤ name.toList.count '.'

def searchNames (client : Settings) (name : String) : List String :=
  match client.resolv.search with
  | none => [name]
  | some search =>
    if isFqdn name client.resolv.ndots || (client.hosts.lookup name).isSome then [name]
    else search.map (fun domain => name ++ "." ++ domain) ++ [name]

/-- `^[^[].*:` -/
def ipv6Bracket (name : String) : String :=
  match name.toList with
  | [] => name
  | c :: rest => if c ≠ '[' ∧ ':' ∈ rest then "[" ++ name ++ "]" else name

/-- `^%d+%.%d+%.%d+%.%d+$` -/
def isIpv4 (name : String) : Bool :=
  (LuaPattern.matchAll [.plus Char.isDigit, .lit '.', .plus Char.isDigit, .lit '.',
    .plus Char.isDigit, .lit '.', .plus Char.isDigit] name.toList).isSome

def checkAndGetIpAnswers (name : String) : Option (List Record) :=
  if isIpv4 name then some [{ name, type := typeA, ttl := 0, address := name }]
  else if ':' ∈ name.toList then
    some [{ name, type := typeAAAA, ttl := 0, address := ipv6Bracket name }]
  else none

/-- `init_hosts`: IPv4 is put in last. -/
def hostsCache (client : Settings) (key : Key) : Option Answers := do
  let host ← client.hosts.lookup key.1
  let answers (address : String) (type : Int) : Answers :=
    { records := [{ name := key.1, type, ttl := longLastingTtl, address }]
      ttl := some longLastingTtl
      expire := client.startedAt + longLastingTtl }
  let ipv4 := host.ipv4.map fun address => answers address typeA
  let ipv6 := host.ipv6.map fun address => answers address typeAAAA
  if key.2 = typeA then ipv4
  else if key.2 = typeAAAA then ipv6
  else if key.2 = typeAOrAAAA then ipv4.or ipv6
  else none

/-! ## Responses -/

def emptyAnswers (client : Settings) : Answers where
  errcode := some emptyRecordErrorCode
  errstr := "empty record received"
  ttl := some client.errorTtl

/-- `CACHE_ONLY_ANSWERS` -/
def cacheOnlyAnswers : Answers where
  errcode := some cacheOnlyErrorCode
  errstr := "cache only lookup failed"

/-- The records of the queried type, as they are handed on. -/
def processRecords (client : Settings) (qtype : Int) (records : List Record) : List Record :=
  (records.filter (·.type = qtype)).map fun record =>
    { record with
      name := lower record.name
      ttl := client.validTtl.getD record.ttl
      address := if record.type = typeAAAA then ipv6Bracket record.address else record.address
      target := if record.type = typeSRV then ipv6Bracket record.target else record.target }

/-- The ttl that the loop over the records ends with. -/
def responseTtl (client : Settings) (records : List Record) : ℚ :=
  records.foldl (fun ttl record => if client.validTtl.isSome then ttl else min ttl record.ttl)
    (min (client.validTtl.getD 0xffffffff) 0xffffffff)

/-- Nothing is to be processed when the query failed. -/
def processAnswers (client : Settings) (now : ℚ) (qtype : Int) : Response → Option Answers
  | .failure => none
  | .error errcode errstr =>
    some { errcode := some errcode, errstr, ttl := some client.errorTtl }
  | .records records =>
    let processed := processRecords client qtype records
    if processed = [] then some (emptyAnswers client)
    else
      let ttl := responseTtl client records
      some { records := processed, ttl := some ttl, expire := now + ttl }

/-! ## The cache -/

/-- A value in the cache; an entry without a time of expiry stays. -/
structure Entry where
  value : Option Answers
  expiry : Option ℚ
deriving DecidableEq, Repr

/-- A call or a stale update whose queries are being made. -/
structure Thread where
  key : Key
  isUpdate : Bool
  queries : List (String × Int)
deriving DecidableEq

/-- A response with records, when it came and for which key. -/
structure Reception where
  key : Key
  time : ℚ
  qtype : Int
  records : List Record
deriving DecidableEq

structure State where
  now : ℚ := 0
  cache : Key → Option Entry := fun _ => none
  tasks : List Key := []
  threads : List Thread := []
  received : List Reception := []

def Entry.isFresh (entry : Entry) (now : ℚ) : Bool :=
  match entry.expiry with
  | none => true
  | some expiry => now ≤ expiry

/-- `ttl` and `neg_ttl` of the cache. -/
def defaultTtl (client : Settings) (value : Option Answers) : ℚ :=
  if value.isSome then mlcacheTtl else client.errorTtl

namespace State

def set (s : State) (key : Key) (value : Option Answers) (ttl : ℚ) : State :=
  let entry : Entry := ⟨value, if ttl = 0 then none else some (s.now + ttl)⟩
  { s with cache := Function.update s.cache key (some entry) }

/-- What a callback has returned is stored, unless its ttl is negative. -/
def store (s : State) (client : Settings) (key : Key) (value : Option Answers) (newTtl : Option ℚ) :
    State :=
  let ttl := newTtl.getD (defaultTtl client value)
  if ttl < 0 then s else s.set key value ttl

end State

/-- A response with records is written down. -/
def State.receive (s : State) (key : Key) (qtype : Int) : Response → State
  | .records records => { s with received := ⟨key, s.now, qtype, records⟩ :: s.received }
  | _ => s

/-- Answers with an error code are turned into an error. -/
def deliver (key : Key) (value : Option Answers) : Option (Key × Answers) :=
  value.bind fun answers => if answers.errcode.isSome then none else some (key, answers)

/-- The queries that `resolve_query_types` makes one after the other, as
long as they have errors. -/
def queriesFor (client : Settings) (key : Key) : List (String × Int) :=
  let names := searchNames client key.1
  if key.2 ≠ typeAOrAAAA then names.map (·, key.2)
  else (if client.enableIpv4 then names.map (·, typeA) else [])
    ++ (if client.enableIpv6 then names.map (·, typeAAAA) else [])

/-- The stale answers that can still be used, with what is left of them. -/
def staleAnswers (client : Settings) (s : State) (key : Key) : Option (Answers × ℚ) := do
  let entry ← s.cache key
  let answers ← entry.value
  if answers.errcode.isSome then none
  else
    let expireAt := answers.expireAt.getD (answers.expire + client.staleTtl)
    let remaining := min (expireAt - s.now) 60
    if 0 < remaining then
      some ({ answers with
        ttl := some remaining, expire := remaining + s.now, expireAt := some expireAt }, remaining)
    else none

/-- `resolve_callback` and what mlcache does with its result. -/
def resolveCallback (client : Settings) (s : State) (key : Key) (cacheOnly : Bool) :
    Option (Key × Answers) × State :=
  match checkAndGetIpAnswers key.1 with
  | some records =>
    let answers : Answers :=
      { records, ttl := some longLastingTtl, expire := s.now + longLastingTtl }
    (deliver key (some answers), s.store client key (some answers) answers.ttl)
  | none =>
    match hostsCache client key with
    | some answers => (deliver key (some answers), s.store client key (some answers) answers.ttl)
    | none =>
      match staleAnswers client s key with
      | some (answers, remaining) =>
        (deliver key (some answers),
          { s with tasks := s.tasks ++ [key] }.store client key (some answers)
            (some remaining))
      | none =>
        if cacheOnly then (deliver key (some cacheOnlyAnswers), s)
        else
          match queriesFor client key with
          | [] => (none, s.store client key none none)
          | queries => (none, { s with threads := s.threads ++ [⟨key, false, queries⟩] })

/-- What a call does before it has to wait for a query. -/
def resolveAll (client : Settings) (s : State) (name : String) (qtype : Option Int)
    (cacheOnly : Bool) : Option (Key × Answers) × State :=
  let name := lower name
  let key := (name,
    qtype.getD (if client.enableSrv && isSrv name then typeSRV else typeAOrAAAA))
  match s.cache key with
  | none => resolveCallback client s key cacheOnly
  | some entry =>
    if entry.isFresh s.now then (deliver key entry.value, s)
    else resolveCallback client s key cacheOnly

/-- `stale_update_task` -/
def startUpdate (client : Settings) (s : State) (key : Key) : State :=
  match queriesFor client key with
  | [] => s
  | queries => { s with threads := s.threads ++ [⟨key, true, queries⟩] }

/-- A thread has its answers: a call returns and stores them, an update
stores them if they have no error. A negative ttl makes the update raise. -/
def finish (client : Settings) (s : State) (thread : Thread) (answers : Answers) :
    Option (Key × Answers) × State :=
  if thread.isUpdate then
    (none, if answers.errcode.isSome then s
      else s.store client thread.key (some answers) answers.ttl)
  else
    (deliver thread.key (some answers), s.store client thread.key (some answers) answers.ttl)

/-- The response to the query that a thread waits for. -/
def respond (client : Settings) (s : State) (i : Nat) (response : Response) :
    Option (Key × Answers) × State :=
  match s.threads[i]? with
  | none => (none, s)
  | some ⟨_, _, []⟩ => (none, s)
  | some ⟨key, isUpdate, (_, qtype) :: queries⟩ =>
    let received := s.receive key qtype response
    let ended := { received with threads := s.threads.eraseIdx i }
    match processAnswers client s.now qtype response with
    | none => (none, ended)
    | some answers =>
      if answers.errcode.isSome ∧ queries ≠ [] then
        (none, { received with threads := s.threads.set i ⟨key, isUpdate, queries⟩ })
      else finish client ended ⟨key, isUpdate, queries⟩ answers

inductive Action
  | pass (seconds : ℚ≥0)
  | evict (key : Key)
  | resolveAll (name : String) (qtype : Option Int) (cacheOnly : Bool)
  | startUpdate (i : Nat)
  | dropUpdate (i : Nat)
  | respond (i : Nat) (response : Response)

/-- A step of the client, with the answers that a call returns in it. -/
def step (client : Settings) (s : State) : Action → Option (Key × Answers) × State
  | .pass seconds => (none, { s with now := s.now + seconds })
  | .evict key => (none, { s with cache := Function.update s.cache key none })
  | .resolveAll name qtype cacheOnly => resolveAll client s name qtype cacheOnly
  | .startUpdate i =>
    match s.tasks[i]? with
    | none => (none, s)
    | some key => (none, startUpdate client { s with tasks := s.tasks.eraseIdx i } key)
  | .dropUpdate i => (none, { s with tasks := s.tasks.eraseIdx i })
  | .respond i response => respond client s i response

abbrev next (client : Settings) (s : State) (action : Action) : State := (step client s action).2

/-! ## Lifetimes -/

/-- `T`: the ttl that is set for all records, or the smallest ttl of the
records of a response. -/
def lifetime (client : Settings) (records : List Record) : Option ℚ :=
  client.validTtl <|> (records.map Record.ttl).min?

/-- Neither an IP literal nor in the hosts file. -/
def Outside (client : Settings) (name : String) : Prop :=
  (checkAndGetIpAnswers name).isNone ∧ (client.hosts.lookup name).isNone

instance (client : Settings) (name : String) : Decidable (Outside client name) :=
  inferInstanceAs (Decidable (_ ∧ _))

/-- The answers have come with a response; `deadline` is when its lifetime
and the time for stale answers are over. -/
def Received (client : Settings) (received : List Reception) (key : Key) (answers : Answers)
    (deadline : ℚ) : Prop :=
  ∃ r ∈ received, r.key = key ∧ answers.records = processRecords client r.qtype r.records
    ∧ ∃ T, lifetime client r.records = some T ∧ deadline = r.time + T + client.staleTtl

/-- The answers have been received at most `T + stale_ttl` seconds ago. -/
def Recent (client : Settings) (s : State) (key : Key) (answers : Answers) : Prop :=
  ∃ deadline, Received client s.received key answers deadline ∧ s.now ≤ deadline

/-- The times with which a lifetime can be kept. -/
def ProperLifetime (client : Settings) (T : ℚ) : Prop :=
  T ≠ 0 ∧ 0 ≤ T + client.staleTtl ∧ (T < 0 ∨ 0 ≤ client.staleTtl)

instance (client : Settings) (T : ℚ) : Decidable (ProperLifetime client T) :=
  inferInstanceAs (Decidable (_ ∧ _ ∧ _))

/-- A response that has records of the queried type has a proper
lifetime. -/
def ProperResponse (client : Settings) (qtype : Int) : Response → Prop
  | .records records => (∃ record ∈ records, record.type = qtype) →
      ∀ T, lifetime client records = some T → ProperLifetime client T
  | _ => True

def ProperAction (client : Settings) (s : State) : Action → Prop
  | .respond i response => ∀ key isUpdate name qtype queries,
      s.threads[i]? = some ⟨key, isUpdate, (name, qtype) :: queries⟩ →
      ProperResponse client qtype response
  | _ => True

/-- When the answers are no longer used: the field, or what it is set to
when they are used for the first time. -/
def finalExpiry (client : Settings) (answers : Answers) : ℚ :=
  answers.expireAt.getD (answers.expire + client.staleTtl)

/-- An entry expires, and its answers are not used, past the deadline. -/
structure KeptInTime (client : Settings) (received : List Reception) (key : Key)
    (answers : Answers) (expiry : Option ℚ) (deadline : ℚ) : Prop where
  received : Received client received key answers deadline
  expires : ∃ e, expiry = some e ∧ e ≤ deadline
  final : finalExpiry client answers ≤ deadline

/-- **The invariant** of the cache. -/
def InTime (client : Settings) (s : State) : Prop :=
  ∀ key entry answers, s.cache key = some entry → entry.value = some answers →
    answers.errcode = none → Outside client key.1 →
    ∃ deadline, KeptInTime client s.received key answers entry.expiry deadline

/-! ## The ttl of a response -/

section

variable {client : Settings} {s : State} {key : Key}

theorem foldl_min {l : List ℚ} {m : ℚ} (h : l.min? = some m) (c : ℚ) : l.foldl min c = min c m := by
  cases l with
  | nil => cases h
  | cons a l =>
    cases h
    rw [List.foldl_cons, List.foldl_assoc]

theorem responseTtl_eq {records : List Record} {T : ℚ} (h : lifetime client records = some T) :
    responseTtl client records = min T 0xffffffff := by
  rw [responseTtl]
  rw [lifetime] at h
  cases hvalid : client.validTtl with
  | some ttl =>
    rw [hvalid] at h
    cases h
    simp
  | none =>
    rw [hvalid] at h
    simp only [Option.isSome_none, Bool.false_eq_true, if_false, Option.getD_none]
    rw [← List.foldl_map, foldl_min h, min_self, min_comm]

theorem exists_lifetime {records : List Record} (h : records ≠ []) :
    ∃ T, lifetime client records = some T := by
  rw [lifetime]
  cases client.validTtl with
  | some ttl => exact ⟨ttl, rfl⟩
  | none =>
    cases records with
    | nil => contradiction
    | cons record records => exact ⟨_, rfl⟩

theorem responseTtl_proper {records : List Record} {T : ℚ}
    (h : lifetime client records = some T) (hT : ProperLifetime client T) :
    responseTtl client records ≠ 0 ∧ responseTtl client records ≤ T
      ∧ (0 < responseTtl client records → 0 ≤ client.staleTtl) := by
  obtain ⟨hne, hsum, hsign⟩ := hT
  rw [responseTtl_eq h]
  rcases le_total T 0xffffffff with hle | hle
  · rw [min_eq_left hle]
    refine ⟨hne, le_refl T, fun hpos => ?_⟩
    rcases hsign with hneg | hstale
    · exact absurd hpos (not_lt_of_gt hneg)
    · exact hstale
  · rw [min_eq_right hle]
    refine ⟨by norm_num, hle, fun _ => ?_⟩
    rcases hsign with hneg | hstale
    · linarith
    · exact hstale

/-! ## Steps of the cache -/

theorem Received.mono {received more : List Reception} (h : received ⊆ more) {answers : Answers}
    {deadline : ℚ} (hr : Received client received key answers deadline) :
    Received client more key answers deadline := by
  obtain ⟨r, hmem, hrest⟩ := hr
  exact ⟨r, h hmem, hrest⟩

theorem InTime.of_cache_eq {s' : State} (h : InTime client s) (hcache : s'.cache = s.cache)
    (hreceived : s.received ⊆ s'.received) : InTime client s' := by
  intro key entry answers hentry hvalue herr hout
  rw [hcache] at hentry
  obtain ⟨deadline, hkept⟩ := h key entry answers hentry hvalue herr hout
  exact ⟨deadline, hkept.received.mono hreceived, hkept.expires, hkept.final⟩

theorem InTime.update {entry : Option Entry} (h : InTime client s)
    (hentry : ∀ e answers, entry = some e → e.value = some answers → answers.errcode = none →
      Outside client key.1 →
      ∃ deadline, KeptInTime client s.received key answers e.expiry deadline) :
    InTime client { s with cache := Function.update s.cache key entry } := by
  intro key' e answers he hvalue herr hout
  change Function.update s.cache key entry key' = some e at he
  by_cases hkey : key' = key
  · subst hkey
    rw [Function.update_self] at he
    exact hentry e answers he hvalue herr hout
  · rw [Function.update_of_ne hkey] at he
    exact h key' e answers he hvalue herr hout

@[simp] theorem store_now (value : Option Answers) (ttl : Option ℚ) :
    (s.store client key value ttl).now = s.now := by
  rw [State.store]
  split <;> rfl

@[simp] theorem store_received (value : Option Answers) (ttl : Option ℚ) :
    (s.store client key value ttl).received = s.received := by
  rw [State.store]
  split <;> rfl

theorem InTime.store {value : Option Answers} {ttl : Option ℚ} (h : InTime client s)
    (hvalue : ∀ answers, value = some answers → answers.errcode = none → Outside client key.1 →
      ∃ t deadline, ttl = some t ∧ t ≠ 0 ∧ (0 < t → s.now + t ≤ deadline)
        ∧ Received client s.received key answers deadline
        ∧ finalExpiry client answers ≤ deadline) :
    InTime client (s.store client key value ttl) := by
  rw [State.store]
  split
  · exact h
  · rename_i hneg
    refine h.update ?_
    intro e answers he hv herr hout
    cases he
    obtain ⟨t, deadline, rfl, hne, hdeadline, hreceived, hfinal⟩ := hvalue answers hv herr hout
    rw [Option.getD_some] at hneg
    refine ⟨deadline, hreceived, ⟨s.now + t, ?_, hdeadline ?_⟩, hfinal⟩
    · rw [Option.getD_some, if_neg hne]
    · exact lt_of_le_of_ne (not_lt.mp hneg) (Ne.symm hne)

theorem deliver_eq_some {value : Option Answers} {returned : Key × Answers}
    (h : deliver key value = some returned) :
    returned.1 = key ∧ value = some returned.2 ∧ returned.2.errcode = none := by
  cases value with
  | none => cases h
  | some answers =>
    rw [deliver, Option.bind_some] at h
    split at h
    · cases h
    · rename_i herr
      cases h
      exact ⟨rfl, rfl, Option.not_isSome_iff_eq_none.mp herr⟩

/-! ## Steps of the client -/

theorem hostsCache_of_outside (h : Outside client key.1) : hostsCache client key = none := by
  rw [hostsCache, Option.isNone_iff_eq_none.mp h.2]
  rfl

theorem staleAnswers_eq_some {answers : Answers} {remaining : ℚ}
    (h : staleAnswers client s key = some (answers, remaining)) :
    ∃ entry old, s.cache key = some entry ∧ entry.value = some old ∧ old.errcode = none
      ∧ remaining = min (finalExpiry client old - s.now) 60 ∧ 0 < remaining
      ∧ answers.records = old.records ∧ answers.expireAt = some (finalExpiry client old) := by
  rw [staleAnswers] at h
  cases hentry : s.cache key with
  | none =>
    rw [hentry] at h
    cases h
  | some entry =>
    rw [hentry, Option.bind_eq_bind, Option.bind_some] at h
    cases hvalue : entry.value with
    | none =>
      rw [hvalue] at h
      cases h
    | some old =>
      rw [hvalue, Option.bind_eq_bind, Option.bind_some] at h
      split at h
      · cases h
      · rename_i herr
        dsimp only at h
        split at h
        · rename_i hpos
          cases h
          exact ⟨entry, old, rfl, hvalue, Option.not_isSome_iff_eq_none.mp herr, rfl, hpos,
            rfl, rfl⟩
        · cases h

theorem staleAnswers_inTime {answers : Answers} {remaining : ℚ} (h : InTime client s)
    (hstale : staleAnswers client s key = some (answers, remaining))
    (hout : Outside client key.1) :
    ∃ deadline, 0 < remaining ∧ s.now + remaining ≤ deadline
      ∧ Received client s.received key answers deadline ∧ finalExpiry client answers ≤ deadline := by
  obtain ⟨entry, old, hentry, hvalue, herr, hremaining, hpos, hrecords, hexpireAt⟩ :=
    staleAnswers_eq_some hstale
  obtain ⟨deadline, hreceived, -, hfinal⟩ := h key entry old hentry hvalue herr hout
  have hle : remaining ≤ finalExpiry client old - s.now := hremaining ▸ min_le_left _ _
  refine ⟨deadline, hpos, by linarith, ?_, ?_⟩
  · rw [Received, hrecords]
    exact hreceived
  · rw [finalExpiry, hexpireAt]
    exact hfinal

/-- What a step does: the cache stays in time, and what is returned is
recent. -/
def KeepsInTime (client : Settings) (result : Option (Key × Answers) × State) : Prop :=
  InTime client result.2 ∧ ∀ key answers, result.1 = some (key, answers) →
    Outside client key.1 → Recent client result.2 key answers

theorem KeepsInTime.of_none (h : InTime client s) : KeepsInTime client (none, s) :=
  ⟨h, fun _ _ hreturned => nomatch hreturned⟩

theorem KeepsInTime.of_store {answers : Answers} {ttl : Option ℚ} (h : InTime client s)
    (hstore : answers.errcode = none → Outside client key.1 →
      ∃ t deadline, ttl = some t ∧ t ≠ 0 ∧ (0 < t → s.now + t ≤ deadline)
        ∧ Received client s.received key answers deadline
        ∧ finalExpiry client answers ≤ deadline ∧ s.now ≤ deadline) :
    KeepsInTime client
      (deliver key (some answers), s.store client key (some answers) ttl) := by
  constructor
  · refine h.store ?_
    intro answers' hvalue herr hout
    cases hvalue
    obtain ⟨t, deadline, httl, hne, hle, hreceived, hfinal, -⟩ := hstore herr hout
    exact ⟨t, deadline, httl, hne, hle, hreceived, hfinal⟩
  · intro key' answers' hreturned hout
    change deliver key (some answers) = some (key', answers') at hreturned
    obtain ⟨rfl, hvalue, herr⟩ := deliver_eq_some hreturned
    cases hvalue
    obtain ⟨t, deadline, -, -, -, hreceived, -, hnow⟩ := hstore herr hout
    exact ⟨deadline, by rwa [store_received], by rwa [store_now]⟩

theorem resolveCallback_keeps (h : InTime client s) (cacheOnly : Bool) :
    KeepsInTime client (resolveCallback client s key cacheOnly) := by
  rw [resolveCallback]
  split
  · rename_i hip
    refine .of_store h fun _ hout => ?_
    rw [Option.isNone_iff_eq_none.mp hout.1] at hip
    cases hip
  · split
    · rename_i hhosts
      refine .of_store h fun _ hout => ?_
      rw [hostsCache_of_outside hout] at hhosts
      cases hhosts
    · split
      · rename_i hstale
        have htasks : InTime client { s with tasks := s.tasks ++ [key] } :=
          h.of_cache_eq rfl (List.Subset.refl _)
        refine .of_store htasks fun _ hout => ?_
        obtain ⟨deadline, hpos, hle, hreceived, hfinal⟩ := staleAnswers_inTime h hstale hout
        exact ⟨_, deadline, rfl, ne_of_gt hpos, fun _ => hle, hreceived, hfinal, by linarith⟩
      · split
        · exact .of_none h
        · split
          · exact .of_none (h.store fun _ hvalue => nomatch hvalue)
          · exact .of_none (h.of_cache_eq rfl (List.Subset.refl _))

theorem KeepsInTime.of_fresh (h : InTime client s) {entry : Entry}
    (hentry : s.cache key = some entry) (hfresh : entry.isFresh s.now = true) :
    KeepsInTime client (deliver key entry.value, s) := by
  refine ⟨h, fun key' answers hreturned hout => ?_⟩
  change deliver key entry.value = some (key', answers) at hreturned
  obtain ⟨rfl, hvalue, herr⟩ := deliver_eq_some hreturned
  obtain ⟨deadline, hreceived, ⟨e, hexpiry, hle⟩, -⟩ := h _ entry answers hentry hvalue herr hout
  rw [Entry.isFresh, hexpiry] at hfresh
  exact ⟨deadline, hreceived, le_trans (of_decide_eq_true hfresh) hle⟩

theorem resolveAll_keeps (h : InTime client s) (name : String) (qtype : Option Int)
    (cacheOnly : Bool) : KeepsInTime client (resolveAll client s name qtype cacheOnly) := by
  rw [resolveAll]
  split
  · exact resolveCallback_keeps h cacheOnly
  · rename_i hentry
    split
    · rename_i hfresh
      exact .of_fresh h hentry hfresh
    · exact resolveCallback_keeps h cacheOnly

theorem startUpdate_keeps (h : InTime client s) (key : Key) :
    InTime client (startUpdate client s key) := by
  rw [startUpdate]
  split
  · exact h
  · exact h.of_cache_eq rfl (List.Subset.refl _)

@[simp] theorem receive_now (qtype : Int) (response : Response) :
    (s.receive key qtype response).now = s.now := by
  cases response <;> rfl

theorem InTime.receive (h : InTime client s) (qtype : Int) (response : Response) :
    InTime client (s.receive key qtype response) := by
  cases response with
  | records records => exact h.of_cache_eq rfl (List.subset_cons_self _ _)
  | failure => exact h
  | error errcode errstr => exact h

theorem processAnswers_proper {qtype : Int} {response : Response} {answers : Answers}
    (h : processAnswers client s.now qtype response = some answers)
    (hproper : ProperResponse client qtype response) (herr : answers.errcode = none) :
    ∃ t deadline, answers.ttl = some t ∧ t ≠ 0 ∧ (0 < t → s.now + t ≤ deadline)
      ∧ Received client (s.receive key qtype response).received key answers deadline
      ∧ finalExpiry client answers ≤ deadline ∧ s.now ≤ deadline := by
  cases response with
  | failure => cases h
  | error errcode errstr =>
    cases h
    cases herr
  | records records =>
    rw [processAnswers] at h
    split at h
    · cases h
      cases herr
    · rename_i hprocessed
      cases h
      obtain ⟨processed, hmem⟩ := List.exists_mem_of_ne_nil _ hprocessed
      rw [processRecords, List.mem_map] at hmem
      obtain ⟨record, hrecord, -⟩ := hmem
      rw [List.mem_filter, decide_eq_true_eq] at hrecord
      obtain ⟨T, hT⟩ := @exists_lifetime client records (List.ne_nil_of_mem hrecord.1)
      have hTproper := hproper ⟨record, hrecord⟩ T hT
      obtain ⟨hne, hle, hstale⟩ := responseTtl_proper hT hTproper
      refine ⟨_, s.now + T + client.staleTtl, rfl, hne, fun hpos => ?_, ?_, ?_, ?_⟩
      · have := hstale hpos
        linarith
      · exact ⟨_, List.mem_cons_self, rfl, rfl, T, hT, rfl⟩
      · rw [finalExpiry, Option.getD_none]
        linarith
      · have := hTproper.2.1
        linarith

theorem respond_keeps (h : InTime client s) {i : Nat} {response : Response}
    (hproper : ProperAction client s (.respond i response)) :
    KeepsInTime client (respond client s i response) := by
  rw [respond]
  split
  · exact .of_none h
  · exact .of_none h
  · rename_i key isUpdate name qtype queries hthread
    have hresponse := hproper key isUpdate name qtype queries hthread
    have hreceived : InTime client (s.receive key qtype response) := h.receive qtype response
    have hended : InTime client { s.receive key qtype response with
        threads := s.threads.eraseIdx i } :=
      hreceived.of_cache_eq rfl (List.Subset.refl _)
    have hnow : (s.receive key qtype response).now = s.now := receive_now qtype response
    dsimp only
    split
    · exact .of_none hended
    · rename_i answers hanswers
      split
      · exact .of_none (hreceived.of_cache_eq rfl (List.Subset.refl _))
      · have hkept := @processAnswers_proper client s key qtype response answers hanswers hresponse
        rw [finish]
        split
        · split
          · exact .of_none hended
          · refine .of_none (hended.store fun answers' hvalue herr hout => ?_)
            cases hvalue
            obtain ⟨t, deadline, httl, hne, hle, hrest, hfinal, -⟩ := hkept herr
            refine ⟨t, deadline, httl, hne, ?_, hrest, hfinal⟩
            rwa [hnow]
        · refine .of_store hended fun herr _ => ?_
          obtain ⟨t, deadline, httl, hne, hle, hrest, hfinal, hrecent⟩ := hkept herr
          refine ⟨t, deadline, httl, hne, ?_, hrest, hfinal, ?_⟩
          · rwa [hnow]
          · rwa [hnow]

/-- **A step** with proper lifetimes keeps the cache in time. -/
theorem step_keeps (h : InTime client s) {action : Action}
    (hproper : ProperAction client s action) : KeepsInTime client (step client s action) := by
  cases action with
  | pass seconds => exact .of_none (h.of_cache_eq rfl (List.Subset.refl _))
  | evict key => exact .of_none (h.update fun _ _ he => nomatch he)
  | resolveAll name qtype cacheOnly => exact resolveAll_keeps h name qtype cacheOnly
  | startUpdate i =>
    rw [step]
    split
    · exact .of_none h
    · rename_i key _
      have htasks : InTime client { s with tasks := s.tasks.eraseIdx i } :=
        h.of_cache_eq rfl (List.Subset.refl _)
      exact .of_none (startUpdate_keeps htasks key)
  | dropUpdate i => exact .of_none (h.of_cache_eq rfl (List.Subset.refl _))
  | respond i response => exact respond_keeps h hproper

/-- **The run** keeps the cache in time. -/
theorem exec_inTime {now : ℚ} {actions : List Action}
    (h : Run.Guarded (next client) (ProperAction client) { now } actions) :
    InTime client (Run.exec (next client) { now } actions) := by
  have hstep : ∀ s action, InTime client s → ProperAction client s action →
      InTime client (next client s action) :=
    fun _ _ hs hproper => (step_keeps hs hproper).1
  have hstart : InTime client { now } := by
    intro key entry answers hentry
    cases hentry
  exact Run.Guarded.invariant hstep hstart h

/-- **DNS answers do not outlive their lifetime**: in a run in which every
response with records of the queried type has a proper lifetime, what a
call returns is recent. -/
theorem answers_recent {now : ℚ} {actions : List Action} {action : Action} {key : Key}
    {answers : Answers}
    (h : Run.Guarded (next client) (ProperAction client) { now } (actions ++ [action]))
    (hreturned : (step client (Run.exec (next client) { now } actions) action).1
      = some (key, answers))
    (hout : Outside client key.1) :
    Recent client (Run.exec (next client) { now } (actions ++ [action])) key answers := by
  rw [Run.guarded_append, Run.guarded_cons] at h
  rw [Run.exec_append]
  exact (step_keeps (exec_inTime h.1) h.2.1).2 key answers hreturned hout

end

/-! ### Short runs -/

def again : Action := .resolveAll "a.test" none false

/-- A response with one address. -/
def address (ttl : ℚ) : List Record :=
  [{ name := "a.test", type := typeA, ttl, address := "1.2.3.4" }]

/-- A call, the response to it, and time. -/
def resolvedFor (ttl : ℚ) (seconds : ℚ≥0) : List Action :=
  [again, .respond 0 (.records (address ttl)), .pass seconds]

theorem outside_test : Outside {} "a.test" := by decide +kernel

/-- An address with a ttl of 30 seconds is returned from the cache and, as
stale, behind its ttl. -/
theorem answers_recent_thirty :
    (∃ answers, (step {} (Run.exec (next {}) { now := 0 } (resolvedFor 30 20)) again).1
          = some (("a.test", typeAOrAAAA), answers)
        ∧ Recent {} (Run.exec (next {}) { now := 0 } (resolvedFor 30 20 ++ [again]))
          ("a.test", typeAOrAAAA) answers)
      ∧ ∃ answers, (step {} (Run.exec (next {}) { now := 0 } (resolvedFor 30 50)) again).1
          = some (("a.test", typeAOrAAAA), answers)
        ∧ Recent {} (Run.exec (next {}) { now := 0 } (resolvedFor 30 50 ++ [again]))
          ("a.test", typeAOrAAAA) answers := by
  have hproper : ProperResponse {} typeA (.records (address 30)) := by
    intro _ T hT
    have hlife : lifetime {} (address 30) = some 30 := by decide +kernel
    rw [hlife] at hT
    cases hT
    decide +kernel
  have hguarded : ∀ seconds : ℚ≥0, Run.Guarded (next {}) (ProperAction {}) { now := 0 }
      (resolvedFor 30 seconds ++ [again]) := by
    intro seconds
    refine ⟨trivial, fun key isUpdate name qtype queries hthread => ?_, trivial, trivial, trivial⟩
    have hthreads : (next {} { now := 0 } again).threads
        = [⟨("a.test", typeAOrAAAA), false, [("a.test", typeA), ("a.test", typeAAAA)]⟩] := by
      decide +kernel
    rw [hthreads] at hthread
    cases hthread
    exact hproper
  constructor
  · refine ⟨{ records := address 30, ttl := some 30, expire := 30 }, by decide +kernel, ?_⟩
    exact answers_recent (hguarded 20) (by decide +kernel) outside_test
  · refine ⟨{ records := address 30, ttl := some 60, expire := 110, expireAt := some 3630 },
      by decide +kernel, ?_⟩
    exact answers_recent (hguarded 50) (by decide +kernel) outside_test

/-- An address with a ttl of 0 is returned after 4000 seconds, with the 3600
seconds for stale answers long over. -/
theorem answers_zero_ttl :
    ∃ answers, (step {} (Run.exec (next {}) { now := 0 } (resolvedFor 0 4000)) again).1
        = some (("a.test", typeAOrAAAA), answers)
      ∧ Outside {} "a.test"
      ∧ ¬ Recent {} (Run.exec (next {}) { now := 0 } (resolvedFor 0 4000 ++ [again]))
        ("a.test", typeAOrAAAA) answers := by
  refine ⟨{ records := address 0, ttl := some 0, expire := 0 }, by decide +kernel, outside_test, ?_⟩
  rintro ⟨deadline, ⟨r, hr, -, -, T, hT, rfl⟩, hnow⟩
  have hreceived : (Run.exec (next {}) { now := 0 } (resolvedFor 0 4000 ++ [again])).received
      = [⟨("a.test", typeAOrAAAA), 0, typeA, address 0⟩] := by decide +kernel
  have htime : (Run.exec (next {}) { now := 0 } (resolvedFor 0 4000 ++ [again])).now = 4000 := by
    decide +kernel
  have hlife : lifetime {} (address 0) = some 0 := by decide +kernel
  rw [hreceived, List.mem_singleton] at hr
  subst hr
  rw [hlife] at hT
  cases hT
  rw [htime] at hnow
  exact absurd hnow (by decide +kernel)

end KongGateway.Kong.Dns.Client
