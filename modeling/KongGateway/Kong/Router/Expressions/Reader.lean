import KongGateway.Kong.Router.Expressions

/-!
# Reader — a reader of expressions that has the grammar

A machine that reads expressions from left to right. It keeps the
expressions that are still open around the one it reads, and a predicate
as its text; quotes around parentheses and operators it does not know.
Reading a text inside another goes as reading it alone
(`run_embed`), which gives the rules of the grammar. With it the guard
of a route with two alternatives is seen to fail.
-/

namespace KongGateway.Kong.Router.Expressions.Reader

open Connectives

/-- What was read last. -/
inductive Cur
  | start
  | bang
  | word (w : Text)
  | closed (t : Term Text)
  | amp (t : Term Text)
  | bar (t : Term Text)

/-- An expression with the operator behind it, if there is one yet. -/
abbrev Before := Option (Expression Text × Op)

structure State where
  before : Before := none
  /-- What stands before the open parentheses, and which are negated. -/
  outer : List (Before × Bool) := []
  cur : Cur := .start

def close : Before → Term Text → Expression Text
  | none, t => .term t
  | some (e, op), t => .snoc e op t

/-- A predicate without the blanks behind it. -/
def trim (w : Text) : Text := (w.reverse.dropWhile (· = ' ')).reverse

def Cur.term? : Cur → Option (Term Text)
  | .word w => some (.pred (trim w))
  | .closed t => some t
  | _ => none

def step (σ : State) (c : Char) : Option State :=
  if c = ' ' then
    match σ.cur with
    | .start | .closed _ => some σ
    | .word w => some { σ with cur := .word (w ++ [c]) }
    | _ => none
  else if c = '(' then
    match σ.cur with
    | .start => some { before := none, outer := (σ.before, false) :: σ.outer, cur := .start }
    | .bang => some { before := none, outer := (σ.before, true) :: σ.outer, cur := .start }
    | _ => none
  else if c = ')' then
    match σ.cur.term?, σ.outer with
    | some t, (before, negated) :: outer =>
      some { before, outer, cur := .closed (.paren negated (close σ.before t)) }
    | _, _ => none
  else if c = '&' then
    match σ.cur with
    | .amp t => some { σ with before := some (close σ.before t, .and), cur := .start }
    | cur => cur.term?.map fun t => { σ with cur := .amp t }
  else if c = '|' then
    match σ.cur with
    | .bar t => some { σ with before := some (close σ.before t, .or), cur := .start }
    | cur => cur.term?.map fun t => { σ with cur := .bar t }
  else
    match σ.cur with
    | .start => some { σ with cur := if c = '!' then .bang else .word [c] }
    | .word w => some { σ with cur := .word (w ++ [c]) }
    | _ => none

def run (σ : State) : Text → Option State
  | [] => some σ
  | c :: rest => (step σ c).bind (run · rest)

def finish (σ : State) : Option (Expression Text) :=
  if σ.outer.isEmpty then σ.cur.term?.map (close σ.before) else none

def read (text : Text) : Option (Expression Text) := (run {} text).bind finish

/-! ## Reading inside another text -/

theorem run_append (σ : State) (s t : Text) : run σ (s ++ t) = (run σ s).bind (run · t) := by
  induction s generalizing σ with
  | nil => rfl
  | cons c rest ih =>
    rw [List.cons_append, run, run]
    cases step σ c with
    | none => rfl
    | some σ' => exact ih σ'

/-- An expression behind another one. -/
def prependTo (b : Before) : Expression Text → Expression Text
  | .term t => close b t
  | .snoc e op t => .snoc (prependTo b e) op t

def Before.prepend (b : Before) : Before → Before
  | none => b
  | some (e, op) => some (prependTo b e, op)

theorem close_prepend (b x : Before) (t : Term Text) :
    close (b.prepend x) t = prependTo b (close x t) := by
  cases x <;> rfl

/-- The outermost expression stands behind `b`, inside of `base`. -/
def embedLevels (b : Before) (base : List (Before × Bool)) :
    Before → List (Before × Bool) → Before × List (Before × Bool)
  | x, [] => (b.prepend x, base)
  | x, (y, negated) :: rest =>
    (x, ((embedLevels b base y rest).1, negated) :: (embedLevels b base y rest).2)

def embed (b : Before) (base : List (Before × Bool)) (σ : State) : State where
  before := (embedLevels b base σ.before σ.outer).1
  outer := (embedLevels b base σ.before σ.outer).2
  cur := σ.cur

theorem embedLevels_close (b : Before) (base : List (Before × Bool)) (x : Before)
    (levels : List (Before × Bool)) (t : Term Text) (op : Op) :
    embedLevels b base (some (close x t, op)) levels
      = (some (close (embedLevels b base x levels).1 t, op),
          (embedLevels b base x levels).2) := by
  cases levels with
  | nil =>
    show (some (prependTo b (close x t), op), base) = (some (close (b.prepend x) t, op), base)
    rw [close_prepend]
  | cons level rest => rfl

theorem step_embed (b : Before) (base : List (Before × Bool)) {σ σ' : State} {c : Char}
    (h : step σ c = some σ') : step (embed b base σ) c = some (embed b base σ') := by
  obtain ⟨before, outer, cur⟩ := σ
  unfold step at h ⊢
  split_ifs at h ⊢ with h₁ h₂ h₃ h₄ h₅
  · cases cur <;> cases h <;> rfl
  · cases cur <;> cases h <;> rfl
  · show (match cur.term?, (embedLevels b base before outer).2 with
      | some t, (before', negated) :: outer' =>
        some (State.mk before' outer' (.closed (.paren negated
          (close (embedLevels b base before outer).1 t))))
      | _, _ => none) = _
    rcases hterm : cur.term? with - | t
    · simp [hterm] at h
    · cases outer with
      | nil => simp [hterm] at h
      | cons level rest =>
        simp only [hterm, Option.some.injEq] at h
        subst h
        rfl
  · cases cur <;> simp only [Cur.term?, Option.map_some, Option.map_none] at h <;> cases h
    · rfl
    · rfl
    · simp only [embed, embedLevels_close]
  · cases cur <;> simp only [Cur.term?, Option.map_some, Option.map_none] at h <;> cases h
    · rfl
    · rfl
    · simp only [embed, embedLevels_close]
  · cases cur <;> cases h <;> rfl
  · cases cur <;> cases h <;> rfl

theorem run_embed (b : Before) (base : List (Before × Bool)) {σ σ' : State} {s : Text}
    (h : run σ s = some σ') : run (embed b base σ) s = some (embed b base σ') := by
  induction s generalizing σ with
  | nil =>
    cases h
    rfl
  | cons c rest ih =>
    rw [run] at h ⊢
    obtain ⟨σ₁, hstep, hrest⟩ := Option.bind_eq_some_iff.mp h
    rw [step_embed b base hstep]
    exact ih hrest

/-! ## The rules of the grammar -/

theorem read_cases {s : Text} {e : Expression Text} (h : read s = some e) :
    ∃ σ t, run {} s = some σ ∧ σ.outer = [] ∧ σ.cur.term? = some t ∧ e = close σ.before t := by
  obtain ⟨σ, hrun, hfinish⟩ := Option.bind_eq_some_iff.mp h
  unfold finish at hfinish
  split_ifs at hfinish with houter
  obtain ⟨t, hterm, he⟩ := Option.map_eq_some_iff.mp hfinish
  exact ⟨σ, t, hrun, List.isEmpty_iff.mp houter, hterm, he.symm⟩

theorem read_of_run {s : Text} {σ : State} {t : Term Text} (hrun : run {} s = some σ)
    (houter : σ.outer = []) (hterm : σ.cur.term? = some t) : read s = some (close σ.before t) := by
  rw [read, hrun, Option.bind_some, finish, if_pos (by rw [houter]; rfl), hterm]
  rfl

theorem term_space (w : Text) : (Cur.word (w ++ [' '])).term? = (Cur.word w).term? := by
  simp [Cur.term?, trim]

theorem run_op {σ : State} {t : Term Text} (hterm : σ.cur.term? = some t) :
    run σ logicalAnd
        = some { σ with before := some (close σ.before t, .and), cur := .start }
      ∧ run σ logicalOr
        = some { σ with before := some (close σ.before t, .or), cur := .start } := by
  obtain ⟨before, outer, cur⟩ := σ
  cases cur with
  | word w =>
    rw [← term_space] at hterm
    cases hterm
    exact ⟨rfl, rfl⟩
  | closed t =>
    cases hterm
    exact ⟨rfl, rfl⟩
  | _ => cases hterm

theorem read_op {op : Op} {sep s t : Text} {e : Expression Text} {g : Term Text}
    (hsep : ∀ {σ : State} {t : Term Text}, σ.cur.term? = some t →
      run σ sep = some { σ with before := some (close σ.before t, op), cur := .start })
    (hs : read s = some e) (ht : read t = some (.term g)) :
    read (s ++ sep ++ t) = some (e.snoc op g) := by
  obtain ⟨σ, l, hrun, houter, hterm, rfl⟩ := read_cases hs
  obtain ⟨σ', l', hrun', houter', hterm', hclose⟩ := read_cases ht
  have hembed : run (embed (some (close σ.before l, op)) [] {}) t
      = some (embed (some (close σ.before l, op)) [] σ') := run_embed _ _ hrun'
  have hall : run {} (s ++ sep ++ t) = some (embed (some (close σ.before l, op)) [] σ') := by
    rw [run_append, run_append, hrun, Option.bind_some, hsep hterm, Option.bind_some, houter]
    exact hembed
  obtain ⟨before', outer', cur'⟩ := σ'
  subst houter'
  rw [read_of_run hall rfl hterm']
  show some (close (Before.prepend (some (close σ.before l, op)) before') l') = _
  rw [close_prepend, ← hclose]
  rfl

theorem prependTo_none : ∀ e, prependTo none e = e
  | .term _ => rfl
  | .snoc e op t => by rw [prependTo, prependTo_none e]

theorem read_paren {s : Text} {e : Expression Text} (hs : read s = some e) :
    read ('(' :: (s ++ [')'])) = some (.term (.paren false e)) := by
  obtain ⟨⟨before, outer, cur⟩, l, hrun, houter, hterm, rfl⟩ := read_cases hs
  subst houter
  have hembed : run (embed none [(none, false)] {}) s
      = some { before := Before.prepend none before, outer := [(none, false)], cur } :=
    run_embed _ _ hrun
  have hbefore : Before.prepend none before = before := by
    cases before with
    | none => rfl
    | some x => rw [Before.prepend, prependTo_none]
  rw [hbefore] at hembed
  have hclose : step { before, outer := [(none, false)], cur } ')'
      = some { cur := .closed (.paren false (close before l)) } := by
    rw [step, if_neg (by decide), if_neg (by decide), if_pos rfl, hterm]
  have hall : run {} ('(' :: (s ++ [')']))
      = some { cur := .closed (.paren false (close before l)) } := by
    show run (embed none [(none, false)] {}) (s ++ [')']) = _
    rw [run_append, hembed, Option.bind_some, run, hclose]
    rfl
  exact read_of_run hall rfl rfl

/-! ## A router that reads so -/

/-- A request, as far as the predicates here look at it. -/
structure Request where
  protocol : Protocol
  path : Text

def httpPath : Text := "http.path".toList

/-- Predicates are comparisons of the protocol and the path. -/
def atc : Atc Request where
  Pred := Text
  parse := read
  holds r q := q = comparison netProtocol opEqual r.protocol.name
    || q = comparison httpPath opEqual r.path
  protocol r := r.protocol.name

theorem grammar : atc.Grammar where
  conj := read_op fun hterm => (run_op hterm).1
  disj := read_op fun hterm => (run_op hterm).2
  paren := read_paren
  protocol p := by
    refine ⟨comparison netProtocol opEqual p.name, by cases p <;> rfl, fun r => ?_⟩
    have hpath : comparison netProtocol opEqual p.name ≠ comparison httpPath opEqual r.path := by
      intro h
      exact absurd (List.cons.inj h).1 (by decide)
    have hname : comparison netProtocol opEqual p.name
          = comparison netProtocol opEqual r.protocol.name ↔ r.protocol.name = p.name := by
      cases p <;> cases r.protocol <;> decide
    show (decide _ || decide _) = decide _
    rw [decide_eq_false hpath, Bool.or_false, decide_eq_decide]
    exact hname

/-- Two alternatives for one protocol. -/
def alternatives : Route where
  expression := "http.path == r#\"/a\"# || http.path == r#\"/b\"#".toList
  protocols := [.http]
  protocols_ne := by decide

/-- The expression of the route, as it is read. -/
def pathA : Term atc.Pred := .pred (comparison httpPath opEqual "/a".toList)
def pathB : Term atc.Pred := .pred (comparison httpPath opEqual "/b".toList)

theorem parse_alternatives :
    atc.parse (amendingExpression alternatives) = some ((Expression.term pathA).snoc .or pathB) :=
  rfl

theorem guards_alternatives :
    Guards atc alternatives { protocol := .https, path := "/b".toList }
      ↔ (OfProtocols atc alternatives { protocol := .https, path := "/b".toList } →
          atc.accepts (amendingExpression alternatives) { protocol := .https, path := "/b".toList }
            = atc.accepts alternatives.expression { protocol := .https, path := "/b".toList })
        ∧ (¬ OfProtocols atc alternatives { protocol := .https, path := "/b".toList } →
          ((Expression.term pathA).snoc .or pathB).earlier
            (atc.holds { protocol := .https, path := "/b".toList }) = false) :=
  guards_iff grammar (by decide) parse_alternatives _

/-- The first alternative is taken for a protocol that the route does not
have. -/
theorem first_alternative_unguarded :
    ¬ ∀ (Request : Type) (atc : Atc Request), atc.Grammar → ∀ route : Route, ¬ unguarded route →
      (atc.parse (amendingExpression route)).isSome → ∀ r, Guards atc route r := by
  intro hall
  have hguards := hall Request atc grammar alternatives (by decide)
    (by rw [parse_alternatives]; rfl) { protocol := .https, path := "/a".toList }
  obtain ⟨g, hparse, -⟩ := parse_getExpression grammar (by decide) parse_alternatives
  have haccepts : atc.accepts (getExpression alternatives)
      { protocol := .https, path := "/a".toList } = true := by
    have hearlier : ((Expression.term pathA).snoc .or pathB).earlier
        (atc.holds { protocol := .https, path := "/a".toList }) = true := rfl
    rw [Atc.accepts_of_parse hparse, Expression.eval_snoc_and, hearlier, Bool.true_or]
  obtain ⟨-, p, hp, hprotocol⟩ := hguards.mp haccepts
  rw [List.mem_singleton.mp hp] at hprotocol
  exact absurd hprotocol (by decide)

end KongGateway.Kong.Router.Expressions.Reader
