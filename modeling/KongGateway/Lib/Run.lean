import Mathlib.Data.List.Basic

/-!
# Run — input-driven runs and guarded invariants

A system is a total step function `step : σ → ι → σ` together with a
guard `guard : σ → ι → Prop` that says which inputs are possible (or
well behaved) in which state. A run is a list of inputs; a state is
reached when some guarded run leads to it. Every prefix of a guarded
run is guarded, so a statement about the state after every guarded run
is a statement about every state along the way.
-/

namespace Run

variable {σ ι : Type*}

/-- The state after the inputs, applied from left to right. -/
def exec (step : σ → ι → σ) (s : σ) (inputs : List ι) : σ :=
  inputs.foldl step s

/-- Every input meets the guard in the state it is applied in. -/
def Guarded (step : σ → ι → σ) (guard : σ → ι → Prop) : σ → List ι → Prop
  | _, [] => True
  | s, i :: rest => guard s i ∧ Guarded step guard (step s i) rest

instance Guarded.decidable (step : σ → ι → σ) (guard : σ → ι → Prop)
    [∀ s i, Decidable (guard s i)] :
    ∀ (s : σ) (inputs : List ι), Decidable (Guarded step guard s inputs)
  | _, [] => inferInstanceAs (Decidable True)
  | s, i :: rest =>
    have := Guarded.decidable step guard (step s i) rest
    inferInstanceAs (Decidable (guard s i ∧ Guarded step guard (step s i) rest))

variable {step : σ → ι → σ} {guard : σ → ι → Prop}

@[simp] theorem exec_nil (s : σ) : exec step s [] = s := rfl

@[simp] theorem exec_cons (s : σ) (i : ι) (rest : List ι) :
    exec step s (i :: rest) = exec step (step s i) rest := rfl

theorem exec_append (s : σ) (pre post : List ι) :
    exec step s (pre ++ post) = exec step (exec step s pre) post := by
  simp [exec, List.foldl_append]

@[simp] theorem guarded_nil (s : σ) : Guarded step guard s [] := trivial

@[simp] theorem guarded_cons (s : σ) (i : ι) (rest : List ι) :
    Guarded step guard s (i :: rest)
      ↔ guard s i ∧ Guarded step guard (step s i) rest := Iff.rfl

theorem guarded_append {s : σ} {pre post : List ι} :
    Guarded step guard s (pre ++ post)
      ↔ Guarded step guard s pre
        ∧ Guarded step guard (exec step s pre) post := by
  induction pre generalizing s with
  | nil => simp
  | cons i rest ih => simp [ih, and_assoc]

theorem Guarded.mono {guard' : σ → ι → Prop}
    (himp : ∀ s i, guard s i → guard' s i) {s : σ} {inputs : List ι}
    (h : Guarded step guard s inputs) : Guarded step guard' s inputs := by
  induction inputs generalizing s with
  | nil => trivial
  | cons i rest ih => exact ⟨himp s i h.1, ih h.2⟩

theorem Guarded.and {guard' : σ → ι → Prop} {s : σ} {inputs : List ι}
    (h : Guarded step guard s inputs) (h' : Guarded step guard' s inputs) :
    Guarded step (fun s i => guard s i ∧ guard' s i) s inputs := by
  induction inputs generalizing s with
  | nil => trivial
  | cons i rest ih => exact ⟨⟨h.1, h'.1⟩, ih h.2 h'.2⟩

/-- A run is guarded when every one of its inputs is, in the state its
prefix leads to. -/
theorem Guarded.of_prefix {s : σ} {inputs : List ι}
    (h : ∀ pre i, pre ++ [i] <+: inputs → guard (exec step s pre) i) :
    Guarded step guard s inputs := by
  induction inputs generalizing s with
  | nil => trivial
  | cons i rest ih =>
    refine ⟨h [] i (by simp), ih fun pre j hpre => ?_⟩
    exact h (i :: pre) j (by simpa using hpre)

/-- **The invariant rule**: what a guarded step preserves, every guarded
run preserves. -/
theorem Guarded.invariant {Inv : σ → Prop}
    (hstep : ∀ s i, Inv s → guard s i → Inv (step s i))
    {s : σ} {inputs : List ι} (hs : Inv s)
    (h : Guarded step guard s inputs) : Inv (exec step s inputs) := by
  induction inputs generalizing s with
  | nil => exact hs
  | cons i rest ih => exact ih (hstep s i hs h.1) h.2

theorem exec_invariant {Inv : σ → Prop}
    (hstep : ∀ s i, Inv s → Inv (step s i)) {s : σ} (hs : Inv s)
    (inputs : List ι) : Inv (exec step s inputs) := by
  induction inputs generalizing s with
  | nil => exact hs
  | cons i rest ih => exact ih (hstep s i hs)

/-! ## Answers -/

section Outputs

variable {τ ω : Type*}

/-- The answers of a system to the inputs, one by one. -/
def outputs (step : σ → ι → ω × σ) : σ → List ι → List ω
  | _, [] => []
  | s, i :: rest => (step s i).1 :: outputs step (step s i).2 rest

variable {step : σ → ι → ω × σ} {step' : τ → ι → ω × τ}

@[simp] theorem outputs_nil (s : σ) : outputs step s [] = [] := rfl

@[simp] theorem outputs_cons (s : σ) (i : ι) (rest : List ι) :
    outputs step s (i :: rest) = (step s i).1 :: outputs step (step s i).2 rest := rfl

theorem getElem?_outputs {s : σ} {inputs : List ι} {k : Nat} {o : ω}
    (h : (outputs step s inputs)[k]? = some o) :
    ∃ t i, inputs[k]? = some i ∧ (step t i).1 = o := by
  induction inputs generalizing s k with
  | nil => cases h
  | cons i rest ih =>
    cases k with
    | zero => exact ⟨s, i, rfl, Option.some.inj h⟩
    | succ k => exact ih h

/-- **The simulation rule**: states related for the inputs still to come
answer them alike. -/
theorem outputs_eq_of_simulation {R : List ι → σ → τ → Prop}
    (hstep : ∀ i rest s t, R (i :: rest) s t →
      (step s i).1 = (step' t i).1 ∧ R rest (step s i).2 (step' t i).2)
    {inputs : List ι} {s : σ} {t : τ} (h : R inputs s t) :
    outputs step s inputs = outputs step' t inputs := by
  induction inputs generalizing s t with
  | nil => rfl
  | cons i rest ih =>
    obtain ⟨hanswer, hnext⟩ := hstep i rest s t h
    rw [outputs_cons, outputs_cons, hanswer, ih hnext]

/-- **Answers without a trace**: if an input answered with `o` could as
well not have been made, for all inputs after it, then taking one such
input out changes no other answer. `Inv` is what the run knows of its
state and the inputs still to come. -/
theorem outputs_eraseIdx (Inv : σ → List ι → Prop) {o : ω}
    (hinv : ∀ s i rest, Inv s (i :: rest) → Inv (step s i).2 rest)
    (hforget : ∀ s i rest, Inv s (i :: rest) → (step s i).1 = o →
      outputs step (step s i).2 rest = outputs step s rest)
    {s : σ} {inputs : List ι} (hs : Inv s inputs) {k : Nat}
    (hk : (outputs step s inputs)[k]? = some o) :
    outputs step s (inputs.eraseIdx k) = (outputs step s inputs).eraseIdx k := by
  induction inputs generalizing s k with
  | nil => simp at hk
  | cons i rest ih =>
    cases k with
    | zero =>
      simp only [outputs_cons, List.getElem?_cons_zero, Option.some.injEq] at hk
      simp only [outputs_cons, List.eraseIdx_zero, List.tail_cons]
      exact (hforget s i rest hs hk).symm
    | succ k =>
      simp only [outputs_cons, List.getElem?_cons_succ] at hk
      simp only [outputs_cons, List.eraseIdx_cons_succ]
      rw [ih (hinv s i rest hs) hk]

end Outputs

end Run
