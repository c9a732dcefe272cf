import KongGateway.Lib.Connectives
import KongGateway.Lib.LuaStd

/-!
# Expressions — the protocol guard of expression routes

`get_expression` of the expressions router puts a test of `net.protocol`
behind the expression of a route. The expressions are read by a library
that is not part of this repository: `Atc` stands for it, with the trees
that it reads off texts and the truth of its predicates, and
`Atc.Grammar` is what its grammar says of the texts that are put together
here. The test binds to the last run of conjuncts of the user's
expression only.
-/

namespace KongGateway.Kong.Router.Expressions

open Connectives LuaStd

abbrev Text := List Char

/-- The protocols of a route. -/
inductive Protocol
  | grpc
  | grpcs
  | http
  | https
  | tcp
  | tls
  | tlsPassthrough
  | udp
deriving DecidableEq

def Protocol.name : Protocol → Text
  | .grpc => "grpc".toList
  | .grpcs => "grpcs".toList
  | .http => "http".toList
  | .https => "https".toList
  | .tcp => "tcp".toList
  | .tls => "tls".toList
  | .tlsPassthrough => "tls_passthrough".toList
  | .udp => "udp".toList

/-- A route with an expression. A route has a protocol at least. -/
structure Route where
  expression : Text
  protocols : List Protocol
  protocols_ne : protocols ≠ []

/-! ## Text of expressions -/

def logicalOr : Text := " || ".toList
def logicalAnd : Text := " && ".toList
def opEqual : Text := "==".toList

/-- `str:gsub` of one character. -/
def gsubChar (c : Char) (replacement : Text) (str : Text) : Text :=
  str.flatMap fun d => if d = c then replacement else [d]

/-- `escape_str`: a raw string, or one with escapes if it holds the end
of a raw string. -/
def escapeStr (str : Text) : Text :=
  if (splitAtText "\"#".toList str).isNone then "r#\"".toList ++ str ++ "\"#".toList
  else
    let str := gsubChar '\\' "\\\\".toList str
    let str := gsubChar '"' "\\\"".toList str
    "\"".toList ++ str ++ "\"".toList

/-- `expression_append`. -/
def expressionAppend (buf sep str : Text) (idx : Nat) : Text :=
  (if buf ≠ [] ∧ 1 < idx then buf ++ sep else buf) ++ str

/-- One comparison of `gen_for_field`. -/
def comparison (name op val : Text) : Text := name ++ ' ' :: (op ++ ' ' :: escapeStr val)

/-- The loop of `gen_for_field`. -/
def genValues {α : Type} (name : Text) (op : α → Text) (val : Text → α → Text) :
    Nat → List α → Text → Text
  | _, [], buf => buf
  | i, p :: rest, buf =>
    genValues name op val (i + 1) rest
      (expressionAppend buf logicalOr (comparison name (op p) (val (op p) p)) i)

/-- `gen_for_field`. -/
def genForField {α : Type} (name : Text) (op : α → Text) (vals : List α)
    (val : Text → α → Text) : Option Text :=
  if vals = [] then none else some (genValues name op val 1 vals ['('] ++ [')'])

def netPort : Text := "net.port".toList

/-- `\s`. -/
def isSpace (c : Char) : Bool := c = ' ' || (9 ≤ c.toNat && c.toNat ≤ 13)

/-- A match of `NET_PORT_REG` at the start: the blanks, the operator and
what follows. -/
def matchNetPort (text : Text) : Option (Text × Char × Text) :=
  if netPort.isPrefixOf text then
    let after := text.drop netPort.length
    match after.dropWhile isSpace with
    | c :: rest =>
      if c = '=' ∨ c = '>' ∨ c = '<' ∨ c = '!' then some (after.takeWhile isSpace, c, rest)
      else none
    | [] => none
  else none

/-- `re_gsub` with `NET_PORT_REG`; every round shortens the text. -/
def replaceNetPort : Nat → Text → Text
  | 0, text => text
  | _ + 1, [] => []
  | fuel + 1, c :: rest =>
    match matchNetPort (c :: rest) with
    | some (blanks, op, after) =>
      "net.dst.port".toList ++ blanks ++ op :: replaceNetPort fuel after
    | none => c :: replaceNetPort fuel rest

/-- `amending_expression` of a route with an expression. -/
def amendingExpression (route : Route) : Text :=
  if (splitAtText netPort route.expression).isNone then route.expression
  else replaceNetPort route.expression.length route.expression

/-- `protocol_val_transform`, with `PROTOCOLS_OVERRIDE`. -/
def protocolValTransform : Protocol → Protocol
  | .tlsPassthrough => .tcp
  | .grpc => .http
  | .grpcs => .https
  | p => p

/-- Whether the route has a single protocol that is not tested. -/
def unguarded (route : Route) : Bool :=
  route.protocols = [.https] || route.protocols = [.tls] || route.protocols = [.tlsPassthrough]

def netProtocol : Text := "net.protocol".toList

/-- The test of `net.protocol`. -/
def protocolGuard (route : Route) : Option Text :=
  genForField netProtocol (fun _ => opEqual) route.protocols
    fun _ p => (protocolValTransform p).name

/-- `get_expression`. -/
def getExpression (route : Route) : Text :=
  let exp := amendingExpression route
  if unguarded route then exp
  else
    match protocolGuard route with
    | some gen => exp ++ logicalAnd ++ gen
    | none => exp

/-! ## The library that reads expressions -/

/-- The atc-router: how it reads texts, and which predicates are true of
a request. -/
structure Atc (Request : Type) where
  Pred : Type
  parse : Text → Option (Expression Pred)
  holds : Request → Pred → Bool
  protocol : Request → Text

namespace Atc

variable {Request : Type} (atc : Atc Request)

/-- Whether an expression is true of a request. -/
def accepts (text : Text) (r : Request) : Bool :=
  match atc.parse text with
  | some e => e.eval (atc.holds r)
  | none => false

theorem accepts_of_parse {atc : Atc Request} {text : Text} {e : Expression atc.Pred}
    (h : atc.parse text = some e) (r : Request) : atc.accepts text r = e.eval (atc.holds r) := by
  rw [accepts, h]

/-- The documented grammar where texts are put together: an expression
is a list of terms with operators between them. -/
structure Grammar : Prop where
  conj : ∀ {s t e g}, atc.parse s = some e → atc.parse t = some (.term g) →
    atc.parse (s ++ logicalAnd ++ t) = some (e.snoc .and g)
  disj : ∀ {s t e g}, atc.parse s = some e → atc.parse t = some (.term g) →
    atc.parse (s ++ logicalOr ++ t) = some (e.snoc .or g)
  paren : ∀ {s e}, atc.parse s = some e →
    atc.parse ('(' :: (s ++ [')'])) = some (.term (.paren false e))
  /-- A comparison with `net.protocol` is a predicate. -/
  protocol : ∀ p : Protocol, ∃ q,
    atc.parse (comparison netProtocol opEqual p.name) = some (.term (.pred q))
      ∧ ∀ r, atc.holds r q = decide (atc.protocol r = p.name)

end Atc

/-- Whether the protocol of the request is one of the route's, as they
are mapped. -/
def OfProtocols {Request : Type} (atc : Atc Request) (route : Route) (r : Request) : Prop :=
  ∃ p ∈ route.protocols, atc.protocol r = (protocolValTransform p).name

/-- What the expression of a route promises for a request. -/
def Guards {Request : Type} (atc : Atc Request) (route : Route) (r : Request) : Prop :=
  atc.accepts (getExpression route) r = true
    ↔ atc.accepts route.expression r = true ∧ OfProtocols atc route r

/-! ## The test of the protocol -/

section Guard

variable {Request : Type} {atc : Atc Request}

theorem genValues_eq {α : Type} (name : Text) (op : α → Text) (val : Text → α → Text) {i : Nat}
    (hi : 1 < i) (vals : List α) {buf : Text} (hbuf : buf ≠ []) :
    genValues name op val i vals buf
      = buf ++ vals.flatMap fun p => logicalOr ++ comparison name (op p) (val (op p) p) := by
  induction vals generalizing i buf with
  | nil => simp [genValues]
  | cons p rest ih =>
    rw [genValues, ih (by omega) (by simp [expressionAppend, hbuf, hi]), expressionAppend,
      if_pos ⟨hbuf, hi⟩]
    simp

theorem parse_disj (grammar : atc.Grammar) (protocols : List Protocol) {s : Text}
    {e : Expression atc.Pred} (hs : atc.parse s = some e) :
    ∃ terms, atc.parse (s ++ protocols.flatMap fun p =>
          logicalOr ++ comparison netProtocol opEqual (protocolValTransform p).name)
        = some (e.orAll terms)
      ∧ ∀ r, (terms.any fun t => t.eval (atc.holds r)) = true
          ↔ ∃ p ∈ protocols, atc.protocol r = (protocolValTransform p).name := by
  induction protocols generalizing s e with
  | nil => exact ⟨[], by simpa [Expression.orAll] using hs, by simp⟩
  | cons p rest ih =>
    obtain ⟨q, hq, hholds⟩ := grammar.protocol (protocolValTransform p)
    obtain ⟨terms, hparse, hany⟩ := ih (grammar.disj hs hq)
    refine ⟨.pred q :: terms, ?_, fun r => ?_⟩
    · rw [List.flatMap_cons, ← List.append_assoc, ← List.append_assoc, hparse]
      rfl
    · rw [List.any_cons, Bool.or_eq_true, hany, Term.eval, hholds, decide_eq_true_eq,
        List.exists_mem_cons_iff]

/-- **The test is true of the requests with one of the protocols.** -/
theorem parse_protocolGuard (grammar : atc.Grammar) (route : Route) :
    ∃ gen g, protocolGuard route = some gen ∧ atc.parse gen = some (.term g)
      ∧ ∀ r, g.eval (atc.holds r) = true ↔ OfProtocols atc route r := by
  obtain ⟨p, rest, hprotocols⟩ := List.exists_cons_of_ne_nil route.protocols_ne
  obtain ⟨q, hq, hholds⟩ := grammar.protocol (protocolValTransform p)
  obtain ⟨terms, hparse, hany⟩ := parse_disj grammar rest hq
  refine ⟨_, .paren false ((Expression.term (.pred q)).orAll terms), if_neg route.protocols_ne,
    ?_, fun r => ?_⟩
  · rw [hprotocols, genValues, genValues_eq _ _ _ (by decide) _ (by simp [expressionAppend]),
      expressionAppend, if_neg (by simp)]
    exact grammar.paren hparse
  · rw [Term.eval_paren, Expression.eval_orAll, Bool.or_eq_true, hany, Expression.eval_term,
      Term.eval, hholds, decide_eq_true_eq, OfProtocols, hprotocols, List.exists_mem_cons_iff]

theorem parse_getExpression (grammar : atc.Grammar) {route : Route} (hguard : ¬ unguarded route)
    {e : Expression atc.Pred} (he : atc.parse (amendingExpression route) = some e) :
    ∃ g, atc.parse (getExpression route) = some (e.snoc .and g)
      ∧ ∀ r, g.eval (atc.holds r) = true ↔ OfProtocols atc route r := by
  obtain ⟨gen, g, hgen, hparse, heval⟩ := parse_protocolGuard grammar route
  refine ⟨g, ?_, heval⟩
  rw [getExpression, if_neg hguard, hgen]
  exact grammar.conj he hparse

/-- **When the test guards the route**: for a request with one of the
protocols, when replacing the old name of the port leaves the expression
true or false; for another request, when no run of conjuncts before the
last one is true. -/
theorem guards_iff (grammar : atc.Grammar) {route : Route} (hguard : ¬ unguarded route)
    {e : Expression atc.Pred} (he : atc.parse (amendingExpression route) = some e)
    (r : Request) :
    Guards atc route r
      ↔ (OfProtocols atc route r →
          atc.accepts (amendingExpression route) r = atc.accepts route.expression r)
        ∧ (¬ OfProtocols atc route r → e.earlier (atc.holds r) = false) := by
  obtain ⟨g, hparse, heval⟩ := parse_getExpression grammar hguard he
  have hexp : atc.accepts (getExpression route) r
      = (e.earlier (atc.holds r) || (e.last (atc.holds r) && g.eval (atc.holds r))) := by
    rw [Atc.accepts_of_parse hparse, Expression.eval_snoc_and]
  have hamended : atc.accepts (amendingExpression route) r
      = (e.earlier (atc.holds r) || e.last (atc.holds r)) := Atc.accepts_of_parse he r
  rw [Guards, hexp, hamended, ← heval r]
  cases g.eval (atc.holds r) <;> cases e.earlier (atc.holds r) <;> cases e.last (atc.holds r) <;>
    cases atc.accepts route.expression r <;> decide

end Guard

end KongGateway.Kong.Router.Expressions
