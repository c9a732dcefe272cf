import Mathlib.Data.List.Basic

/-!
# Connectives — expressions with `&&` and `||` as they are read

An expression is a list of terms with an operator between each two, a
term is a predicate or an expression in parentheses that may be negated.
The operators stay in the order of the text; that `&&` binds tighter is
in the meaning: an expression is the disjunction of its runs of
conjuncts.
-/

namespace Connectives

inductive Op
  | and
  | or
deriving DecidableEq

mutual

inductive Term (Pred : Type) : Type
  | pred (p : Pred)
  | paren (negated : Bool) (e : Expression Pred)

inductive Expression (Pred : Type) : Type
  | term (t : Term Pred)
  | snoc (e : Expression Pred) (op : Op) (t : Term Pred)

end

section Meaning

variable {Pred : Type} (holds : Pred → Bool)

mutual

def Term.eval : Term Pred → Bool
  | .pred p => holds p
  | .paren negated e => negated != (e.earlier || e.last)

/-- Whether a run of conjuncts before the last one is true. -/
def Expression.earlier : Expression Pred → Bool
  | .term _ => false
  | .snoc e .and _ => e.earlier
  | .snoc e .or _ => e.earlier || e.last

/-- Whether the last run of conjuncts is true. -/
def Expression.last : Expression Pred → Bool
  | .term t => t.eval
  | .snoc e .and t => e.last && t.eval
  | .snoc _ .or t => t.eval

end

def Expression.eval (e : Expression Pred) : Bool := e.earlier holds || e.last holds

theorem Expression.eval_snoc_and (e : Expression Pred) (t : Term Pred) :
    (e.snoc .and t).eval holds = (e.earlier holds || (e.last holds && t.eval holds)) := by
  rw [Expression.eval, Expression.earlier, Expression.last]

theorem Expression.eval_snoc_or (e : Expression Pred) (t : Term Pred) :
    (e.snoc .or t).eval holds = (e.eval holds || t.eval holds) := by
  rw [Expression.eval, Expression.earlier, Expression.last, Expression.eval]

@[simp] theorem Term.eval_paren (e : Expression Pred) :
    (Term.paren false e).eval holds = e.eval holds := by
  rw [Term.eval, Expression.eval, Bool.false_bne]

theorem Expression.eval_term (t : Term Pred) : (Expression.term t).eval holds = t.eval holds := by
  rw [Expression.eval, Expression.earlier, Expression.last, Bool.false_or]

/-- The disjunction of one expression and further terms. -/
def Expression.orAll (e : Expression Pred) (terms : List (Term Pred)) : Expression Pred :=
  terms.foldl (fun e t => e.snoc .or t) e

theorem Expression.eval_orAll (e : Expression Pred) (terms : List (Term Pred)) :
    (e.orAll terms).eval holds = (e.eval holds || terms.any fun t => t.eval holds) := by
  induction terms generalizing e with
  | nil => rw [orAll, List.foldl_nil, List.any_nil, Bool.or_false]
  | cons t rest ih =>
    show ((e.snoc .or t).orAll rest).eval holds = _
    rw [ih, eval_snoc_or, List.any_cons, Bool.or_assoc]

end Meaning

end Connectives
