import KongGateway.Lib.LuaPattern
import KongGateway.Lib.Numerals
import KongGateway.Lib.Run

/-!
# RedisConnections — the pools of Redis connections

The plugins rate-limiting and response-ratelimiting each have a table of
socket options that all their calls of `get_redis_connection` fill in and
pass to `connect`. A connection is taken from the pool that is named in
the options, or from the pool of the host and port; a database is selected
only on a fresh one.
-/

namespace KongGateway.Kong.Plugins.RedisConnections

open Bytes Numerals

abbrev Text := List Byte

/-- `get_redis_configuration`, without the timeout. -/
structure RedisConfig where
  host : Text
  port : Nat
  username : Option Text := none
  password : Option Text := none
  database : Nat
  ssl : Bool := false
  sslVerify : Bool := false
  serverName : Option Text := none
  deriving DecidableEq

structure SockOpts where
  ssl : Bool := false
  sslVerify : Bool := false
  serverName : Option Text := none
  pool : Option Text := none
  deriving DecidableEq

/-- A connection with the database that is selected on it. -/
structure Conn where
  host : Text
  port : Nat
  database : Nat
  deriving DecidableEq

/-- The plugins with a `get_redis_connection` of their own. -/
inductive Plugin where
  | rateLimiting
  | responseRatelimiting
  deriving DecidableEq

/-- A connection that is handed out: for which configuration, and the pool
it goes back to. -/
structure Handed where
  conf : RedisConfig
  conn : Conn
  pool : Text
  deriving DecidableEq

/-- The state of a worker. -/
structure State where
  sockOpts : Plugin → SockOpts := fun _ => {}
  idle : Text → List Conn := fun _ => []
  handed : List Handed := []

/-- `fmt("%s:%d;%d", host, port, database)` -/
def dbKey (host : Text) (port database : Nat) : Text :=
  host ++ 58 :: (decimal port ++ 59 :: decimal database)

/-- The name of a pool that is not named in the options. -/
def defaultPool (host : Text) (port : Nat) : Text := host ++ 58 :: decimal port

def isPresent (text : Option Text) : Bool := text.isSome && text ≠ some []

/-- Whether the operations of a call succeed. -/
structure Outcome where
  connects : Bool := true
  auths : Bool := true
  selects : Bool := true
  deriving DecidableEq

/-- The options after they have been filled in for a configuration. -/
def setSockOpts (opts : SockOpts) (conf : RedisConfig) : SockOpts :=
  { ssl := conf.ssl
    sslVerify := conf.sslVerify
    serverName := conf.serverName
    pool := if conf.database ≠ 0 then some (dbKey conf.host conf.port conf.database)
      else opts.pool }

/-- What is done on a fresh connection. -/
def freshConn (conf : RedisConfig) (outcome : Outcome) : Option Conn :=
  if isPresent conf.password && !outcome.auths then none
  else if conf.database ≠ 0 then
    if outcome.selects then some ⟨conf.host, conf.port, conf.database⟩ else none
  else some ⟨conf.host, conf.port, 0⟩

/-- `get_redis_connection`: the connection, if there is one, and the state. -/
def getRedisConnection (plugin : Plugin) (conf : RedisConfig) (outcome : Outcome) (s : State) :
    Option Handed × State :=
  let opts := setSockOpts (s.sockOpts plugin) conf
  let pool := opts.pool.getD (defaultPool conf.host conf.port)
  let s := { s with sockOpts := fun other => if other = plugin then opts else s.sockOpts other }
  if !outcome.connects then (none, s)
  else
    match s.idle pool with
    | conn :: rest =>
      (some ⟨conf, conn, pool⟩,
        { s with idle := fun name => if name = pool then rest else s.idle name })
    | [] => ((freshConn conf outcome).map fun conn => ⟨conf, conn, pool⟩, s)

/-! ## Runs -/

inductive Event where
  | get (plugin : Plugin) (conf : RedisConfig) (outcome : Outcome)
  /-- `set_keepalive(10000, 100)` of a connection that is handed out. -/
  | keepalive (handed : Handed)
  /-- A connection that is handed out is closed. -/
  | close (handed : Handed)
  /-- An idle connection of a pool is closed. -/
  | expire (pool : Text) (conn : Conn)

def step (s : State) : Event → State
  | .get plugin conf outcome =>
    let got := getRedisConnection plugin conf outcome s
    { got.2 with handed := got.1.toList ++ got.2.handed }
  | .keepalive handed =>
    if handed ∈ s.handed then
      { s with
        handed := s.handed.erase handed
        idle := fun name =>
          if name = handed.pool then (handed.conn :: s.idle name).take 100 else s.idle name }
    else s
  | .close handed => { s with handed := s.handed.erase handed }
  | .expire pool conn =>
    { s with idle := fun name => if name = pool then (s.idle name).erase conn else s.idle name }

/-- A call for database 0 is made while the options name no pool. -/
def Guard (s : State) : Event → Prop
  | .get plugin conf _ => conf.database = 0 → (s.sockOpts plugin).pool = none
  | _ => True

/-! ## The names of pools -/

theorem append_decimal_inj {a a' : Text} {c c' : Byte} (hc : isDigit c = false)
    (hc' : isDigit c' = false) {n n' : Nat}
    (h : a ++ c :: decimal n = a' ++ c' :: decimal n') : a = a' ∧ c = c' ∧ n = n' := by
  have hdigits : ∀ n, ∀ d ∈ (decimal n).reverse, isDigit d = true := fun n d hd =>
    isDigit_of_mem_decimal (List.mem_reverse.mp hd)
  have hrev := congrArg List.reverse h
  simp only [List.reverse_append, List.reverse_cons, List.append_assoc, List.singleton_append]
    at hrev
  have htake := congrArg (List.takeWhile isDigit) hrev
  rw [LuaPattern.takeWhile_append_eq (hdigits n) (by simpa using hc),
    LuaPattern.takeWhile_append_eq (hdigits n') (by simpa using hc')] at htake
  have hn := decimal_injective (List.reverse_injective htake)
  rw [htake] at hrev
  have hrest := List.append_cancel_left hrev
  rw [List.cons.injEq] at hrest
  exact ⟨List.reverse_injective hrest.2, hrest.1, hn⟩

theorem defaultPool_inj {host host' : Text} {port port' : Nat}
    (h : defaultPool host port = defaultPool host' port') : host = host' ∧ port = port' := by
  obtain ⟨hhost, -, hport⟩ := append_decimal_inj (by decide) (by decide) h
  exact ⟨hhost, hport⟩

theorem dbKey_eq (host : Text) (port database : Nat) :
    dbKey host port database = defaultPool host port ++ 59 :: decimal database := by
  simp [dbKey, defaultPool]

theorem dbKey_inj {host host' : Text} {port port' database database' : Nat}
    (h : dbKey host port database = dbKey host' port' database') :
    host = host' ∧ port = port' ∧ database = database' := by
  rw [dbKey_eq, dbKey_eq] at h
  obtain ⟨hpool, -, hdatabase⟩ := append_decimal_inj (by decide) (by decide) h
  obtain ⟨hhost, hport⟩ := defaultPool_inj hpool
  exact ⟨hhost, hport, hdatabase⟩

theorem dbKey_ne_defaultPool (host host' : Text) (port port' database : Nat) :
    dbKey host port database ≠ defaultPool host' port' := by
  intro h
  rw [dbKey_eq] at h
  obtain ⟨-, hsep, -⟩ := append_decimal_inj (by decide) (by decide) h
  revert hsep
  decide

/-- The pool of connections to a database. -/
def poolOf (conn : Conn) : Text :=
  if conn.database ≠ 0 then dbKey conn.host conn.port conn.database
  else defaultPool conn.host conn.port

theorem poolOf_injective : Function.Injective poolOf := by
  rintro ⟨host, port, database⟩ ⟨host', port', database'⟩ h
  unfold poolOf at h
  simp only at h
  split at h
  · split at h
    · obtain ⟨rfl, rfl, rfl⟩ := dbKey_inj h
      rfl
    · exact absurd h (dbKey_ne_defaultPool _ _ _ _ _)
  · split at h
    · exact absurd h.symm (dbKey_ne_defaultPool _ _ _ _ _)
    · obtain ⟨rfl, rfl⟩ := defaultPool_inj h
      have hzero : database = 0 := by omega
      have hzero' : database' = 0 := by omega
      rw [hzero, hzero']

/-! ## The database of a connection -/

/-- The connection that a configuration asks for. -/
def RedisConfig.conn (conf : RedisConfig) : Conn := ⟨conf.host, conf.port, conf.database⟩

/-- Idle connections lie in the pool of their database, and those that are
handed out are as configured. -/
structure Inv (s : State) : Prop where
  idle : ∀ pool, ∀ conn ∈ s.idle pool, poolOf conn = pool
  handed : ∀ handed ∈ s.handed, handed.conn = handed.conf.conn ∧ handed.pool = poolOf handed.conn

theorem setSockOpts_pool {opts : SockOpts} {conf : RedisConfig}
    (h : conf.database = 0 → opts.pool = none) :
    (setSockOpts opts conf).pool.getD (defaultPool conf.host conf.port) = poolOf conf.conn := by
  unfold setSockOpts poolOf RedisConfig.conn
  simp only
  split
  · rfl
  · rename_i hzero
    rw [h (by omega)]
    rfl

theorem freshConn_eq {conf : RedisConfig} {outcome : Outcome} {conn : Conn}
    (h : freshConn conf outcome = some conn) : conn = conf.conn := by
  unfold freshConn at h
  unfold RedisConfig.conn
  split at h
  · cases h
  · split at h
    · split at h
      · exact (Option.some.inj h).symm
      · cases h
    · rename_i hzero
      rw [← Option.some.inj h, show conf.database = 0 by omega]

theorem getRedisConnection_spec {plugin : Plugin} {conf : RedisConfig} (outcome : Outcome)
    {s : State} (hs : Inv s) (h : conf.database = 0 → (s.sockOpts plugin).pool = none) :
    (∀ handed ∈ (getRedisConnection plugin conf outcome s).1,
      handed.conn = handed.conf.conn ∧ handed.pool = poolOf handed.conn)
    ∧ (∀ pool, ∀ conn ∈ (getRedisConnection plugin conf outcome s).2.idle pool, poolOf conn = pool)
    ∧ (getRedisConnection plugin conf outcome s).2.handed = s.handed := by
  have hpool := setSockOpts_pool h
  unfold getRedisConnection
  simp only [hpool]
  split
  · exact ⟨fun _ hhanded => (nomatch hhanded), hs.idle, rfl⟩
  · split
    · rename_i conn rest hidle
      have hconn : conn = conf.conn :=
        poolOf_injective (hs.idle _ conn (by rw [hidle]; exact List.mem_cons_self))
      refine ⟨?_, fun pool other hother => ?_, rfl⟩
      · rintro handed ⟨rfl⟩
        exact ⟨hconn, by rw [hconn]⟩
      · simp only at hother
        split at hother
        · rename_i hname
          rw [hname]
          exact hs.idle _ other (by rw [hidle]; exact List.mem_cons_of_mem conn hother)
        · exact hs.idle pool other hother
    · refine ⟨?_, hs.idle, rfl⟩
      intro handed hhanded
      obtain ⟨conn, hconn, rfl⟩ := Option.mem_map.mp hhanded
      have heq := freshConn_eq hconn
      exact ⟨heq, by rw [heq]⟩

theorem inv_step {s : State} {event : Event} (hs : Inv s) (h : Guard s event) :
    Inv (step s event) := by
  cases event with
  | get plugin conf outcome =>
    obtain ⟨hgot, hidle, hrest⟩ := getRedisConnection_spec outcome hs h
    refine ⟨hidle, fun handed hhanded => ?_⟩
    simp only [step, List.mem_append, Option.mem_toList, hrest] at hhanded
    rcases hhanded with hhanded | hhanded
    · exact hgot handed hhanded
    · exact hs.handed handed hhanded
  | keepalive handed =>
    unfold step
    simp only
    split
    · rename_i hmem
      obtain ⟨-, hback⟩ := hs.handed handed hmem
      refine ⟨fun pool conn hconn => ?_, fun other hother =>
        hs.handed other (List.mem_of_mem_erase hother)⟩
      simp only at hconn
      split at hconn
      · rename_i hname
        rcases List.mem_cons.mp (List.mem_of_mem_take hconn) with rfl | hconn
        · rw [hname, hback]
        · exact hs.idle pool conn hconn
      · exact hs.idle pool conn hconn
    · exact hs
  | close handed =>
    exact ⟨hs.idle, fun other hother => hs.handed other (List.mem_of_mem_erase hother)⟩
  | expire pool conn =>
    refine ⟨fun name other hother => ?_, hs.handed⟩
    simp only [step] at hother
    split at hother
    · exact hs.idle name other (List.mem_of_mem_erase hother)
    · exact hs.idle name other hother

/-- While every call for database 0 finds no pool in the options, the
connections that are handed out are to the configured host and port, with
the configured database selected. -/
theorem connections_use_configured_database (events : List Event)
    (h : Run.Guarded step Guard {} events) :
    ∀ handed ∈ (Run.exec step {} events).handed, handed.conn.host = handed.conf.host
      ∧ handed.conn.port = handed.conf.port ∧ handed.conn.database = handed.conf.database := by
  have hinit : Inv {} := ⟨fun _ _ hconn => (nomatch hconn), fun _ hhanded => (nomatch hhanded)⟩
  have hinv : Inv (Run.exec step {} events) :=
    h.invariant (fun _ _ hs hguard => inv_step hs hguard) hinit
  intro handed hhanded
  rw [(hinv.handed handed hhanded).1]
  exact ⟨rfl, rfl, rfl⟩

/-- A configuration for a database of one server. -/
def localRedis (database : Nat) : RedisConfig :=
  { host := ofText "127.0.0.1", port := 6379, database := database }

/-- The events of a configuration that gets a connection and returns it,
and of a second one that gets a connection. -/
def oneAfterOther (first second : RedisConfig) : List Event :=
  [.get .rateLimiting first {}, .keepalive ⟨first, first.conn, poolOf first.conn⟩,
    .get .rateLimiting second {}]

theorem database_of_second_configuration :
    ⟨localRedis 1, (localRedis 1).conn, poolOf (localRedis 1).conn⟩
        ∈ (Run.exec step {} (oneAfterOther (localRedis 0) (localRedis 1))).handed
      ∧ (localRedis 1).conn.database = (localRedis 1).database := by
  have hmem : ⟨localRedis 1, (localRedis 1).conn, poolOf (localRedis 1).conn⟩
      ∈ (Run.exec step {} (oneAfterOther (localRedis 0) (localRedis 1))).handed := by
    decide +kernel
  have hguarded : Run.Guarded step Guard {} (oneAfterOther (localRedis 0) (localRedis 1)) :=
    ⟨fun _ => rfl, trivial, fun hzero => (nomatch hzero), trivial⟩
  exact ⟨hmem, (connections_use_configured_database _ hguarded _ hmem).2.2⟩

/-- After a call for database 1, the options still name its pool: a call
for database 0 is handed the connection with database 1. -/
theorem database_of_other_configuration :
    ¬ ∀ handed ∈ (Run.exec step {} (oneAfterOther (localRedis 1) (localRedis 0))).handed,
      handed.conn.database = handed.conf.database := by
  have hhanded : (Run.exec step {} (oneAfterOther (localRedis 1) (localRedis 0))).handed
      = [⟨localRedis 0, ⟨ofText "127.0.0.1", 6379, 1⟩, dbKey (ofText "127.0.0.1") 6379 1⟩] := by
    decide +kernel
  rw [hhanded]
  intro h
  exact absurd (h _ List.mem_cons_self) (by decide)

end KongGateway.Kong.Plugins.RedisConnections
