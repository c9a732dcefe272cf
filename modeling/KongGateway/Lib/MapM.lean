import Mathlib.Data.List.Basic

/-!
# MapM — passes over a list that may fail
-/

namespace MapM

variable {β γ ε : Type}

theorem eq_pure_map {m : Type → Type} [Monad m] [LawfulMonad m] {f : β → m γ} {g : β → γ}
    {l : List β} (h : ∀ x ∈ l, f x = pure (g x)) : l.mapM f = pure (l.map g) := by
  induction l with
  | nil => simp
  | cons x l ih =>
    rw [List.mapM_cons, h x List.mem_cons_self,
      ih fun y hy => h y (List.mem_cons_of_mem x hy)]
    simp

theorem mem_of_some {f : β → Option γ} {l : List β} {r : List γ} (h : l.mapM f = some r) {y : γ}
    (hy : y ∈ r) : ∃ x ∈ l, f x = some y := by
  induction l generalizing r with
  | nil =>
    obtain rfl : [] = r := by simpa using h
    cases hy
  | cons a l ih =>
    simp only [List.mapM_cons, Option.bind_eq_bind, Option.bind_eq_some_iff,
      Option.pure_def, Option.some.injEq] at h
    obtain ⟨b, hb, rest, hrest, rfl⟩ := h
    rcases List.mem_cons.mp hy with rfl | hy
    · exact ⟨a, List.mem_cons_self, hb⟩
    · obtain ⟨x, hx, hfx⟩ := ih hrest hy
      exact ⟨x, List.mem_cons_of_mem a hx, hfx⟩

theorem bind_ok {x : Except ε β} {f : β → Except ε γ} {c : γ} (h : x >>= f = .ok c) :
    ∃ b, x = .ok b ∧ f b = .ok c := by
  cases x with
  | error err => cases h
  | ok b => exact ⟨b, rfl, h⟩

theorem cons_ok {f : β → Except ε γ} {a : β} {l : List β} {r : List γ}
    (h : (a :: l).mapM f = .ok r) :
    ∃ b rest, f a = .ok b ∧ l.mapM f = .ok rest ∧ r = b :: rest := by
  rw [List.mapM_cons] at h
  obtain ⟨b, hb, h⟩ := bind_ok h
  obtain ⟨rest, hrest, h⟩ := bind_ok h
  exact ⟨b, rest, hb, hrest, (Except.ok.inj h).symm⟩

theorem mem_of_ok {f : β → Except ε γ} {l : List β} {r : List γ} (h : l.mapM f = .ok r) {y : γ}
    (hy : y ∈ r) : ∃ x ∈ l, f x = .ok y := by
  induction l generalizing r with
  | nil =>
    obtain rfl : [] = r := by simpa [pure, Except.pure] using h
    cases hy
  | cons a l ih =>
    obtain ⟨b, rest, hb, hrest, rfl⟩ := cons_ok h
    rcases List.mem_cons.mp hy with rfl | hy
    · exact ⟨a, List.mem_cons_self, hb⟩
    · obtain ⟨x, hx, hfx⟩ := ih hrest hy
      exact ⟨x, List.mem_cons_of_mem a hx, hfx⟩

theorem map_eq_map_of_ok {δ : Type} {f : β → Except ε γ} {g : γ → δ} {k : β → δ}
    (hg : ∀ x y, f x = .ok y → g y = k x) {l : List β} {r : List γ} (h : l.mapM f = .ok r) :
    r.map g = l.map k := by
  induction l generalizing r with
  | nil =>
    obtain rfl : [] = r := by simpa [pure, Except.pure] using h
    rfl
  | cons a l ih =>
    obtain ⟨b, rest, hb, hrest, rfl⟩ := cons_ok h
    rw [List.map_cons, List.map_cons, hg a b hb, ih hrest]

theorem map_of_ok {f : β → Except ε γ} {g : γ → β} (hg : ∀ x y, f x = .ok y → g y = x)
    {l : List β} {r : List γ} (h : l.mapM f = .ok r) : r.map g = l := by
  simpa using map_eq_map_of_ok hg h

theorem eq_map_of_ok {f : β → Except ε γ} {g : β → γ} (hg : ∀ x y, f x = .ok y → y = g x)
    {l : List β} {r : List γ} (h : l.mapM f = .ok r) : r = l.map g := by
  simpa using map_eq_map_of_ok (g := id) hg h

def okOr (default : γ) : Except ε γ → γ
  | .ok y => y
  | .error _ => default

theorem flatMap_of_ok {δ : Type} {f : β → Except ε γ} {g : γ → List δ} {l : List β} {r : List γ}
    (h : l.mapM f = .ok r) : r.flatMap g = l.flatMap fun x => okOr [] ((f x).map g) := by
  induction l generalizing r with
  | nil =>
    obtain rfl : [] = r := by simpa [pure, Except.pure] using h
    rfl
  | cons a l ih =>
    obtain ⟨b, rest, hb, hrest, rfl⟩ := cons_ok h
    rw [List.flatMap_cons, List.flatMap_cons, ih hrest, hb]
    rfl

theorem ok_of_mem {f : β → Except ε γ} {l : List β} {r : List γ} (h : l.mapM f = .ok r) {x : β}
    (hx : x ∈ l) : ∃ y ∈ r, f x = .ok y := by
  induction l generalizing r with
  | nil => cases hx
  | cons a l ih =>
    obtain ⟨b, rest, hb, hrest, rfl⟩ := cons_ok h
    rcases List.mem_cons.mp hx with rfl | hx
    · exact ⟨b, List.mem_cons_self, hb⟩
    · obtain ⟨y, hy, hfy⟩ := ih hrest hx
      exact ⟨y, List.mem_cons_of_mem b hy, hfy⟩

/-- A loop that may fail keeps an invariant on the state and the elements
it has been through. -/
theorem foldlM_invariant {step : γ → β → Except ε γ} (Inv : List β → γ → Prop)
    (hstep : ∀ done x s s', Inv done s → step s x = .ok s' → Inv (done ++ [x]) s')
    {l : List β} {s s' : γ} (hinit : Inv [] s) (h : l.foldlM step s = .ok s') : Inv l s' := by
  suffices hrun : ∀ done s, Inv done s → l.foldlM step s = .ok s' → Inv (done ++ l) s' by
    simpa using hrun [] s hinit h
  clear hinit h
  induction l with
  | nil =>
    intro done s hinv h
    obtain rfl : s = s' := by simpa [pure, Except.pure] using h
    simpa using hinv
  | cons x l ih =>
    intro done s hinv h
    rw [List.foldlM_cons] at h
    obtain ⟨t, ht, h⟩ := bind_ok h
    simpa using ih (done ++ [x]) t (hstep done x s t hinv ht) h

end MapM
