import Cs564.Lib.Run

/-!
# Outcomes of stateful code that may throw

Rules for `EStateM` code.  `Triple` has a precondition, a postcondition for a return and one for an exception.
`Simulates` compares code on two kinds of state that does the same thing, step by step: if one of them returns, the other
one returns, and if it throws, the other one throws the same, unless the first one gave up with an exception that is
excused.
-/

namespace Cs564

variable {ε σ τ α β α' β' : Type}

/-- The state that code leaves, whether it returns or throws. -/
def stateAfter : EStateM.Result ε σ α → σ
  | .ok _ s => s
  | .error _ s => s

/-- How code ended, without the state that it left. -/
def outcome : EStateM.Result ε σ α → Except ε α
  | .ok a _ => .ok a
  | .error e _ => .error e

/-! ### Triples -/

/-- The result is a return with `post` or an exception with `exc`. -/
def Ends (post : α → σ → Prop) (exc : ε → σ → Prop) : EStateM.Result ε σ α → Prop
  | .ok a s => post a s
  | .error e s => exc e s

/-- The code returned, and what it left is as `p` says. -/
def returned (p : α → σ → Bool) : EStateM.Result ε σ α → Bool
  | .ok a s => p a s
  | .error _ _ => false

/-- The code threw, and what it left is as `p` says. -/
def threw (p : ε → σ → Bool) : EStateM.Result ε σ α → Bool
  | .ok _ _ => false
  | .error e s => p e s

theorem exists_ok {p : α → σ → Bool} {r : EStateM.Result ε σ α} (h : returned p r = true) :
    ∃ a s, r = .ok a s ∧ p a s = true := by
  cases r with
  | ok a s => exact ⟨a, s, rfl, h⟩
  | error e s => cases h

theorem exists_error {p : ε → σ → Bool} {r : EStateM.Result ε σ α} (h : threw p r = true) :
    ∃ e s, r = .error e s ∧ p e s = true := by
  cases r with
  | ok a s => cases h
  | error e s => exact ⟨e, s, rfl, h⟩

/-- The two steps of code that returns. -/
theorem bind_ok_cases {x : EStateM ε σ α} {f : α → EStateM ε σ β} {s t : σ} {b : β} (h : (x >>= f) s = .ok b t) :
    ∃ a s', x s = .ok a s' ∧ f a s' = .ok b t := by
  rw [run_bind] at h
  cases hx : x s with
  | ok a s' =>
    rw [hx] at h
    exact ⟨a, s', rfl, h⟩
  | error e s' =>
    rw [hx] at h
    cases h

/-- From a state with `pre` the code returns with `post` or throws with `exc`. -/
def Triple (pre : σ → Prop) (x : EStateM ε σ α) (post : α → σ → Prop) (exc : ε → σ → Prop) : Prop :=
  ∀ s, pre s → Ends post exc (x s)

namespace Triple

variable {pre pre' : σ → Prop} {x : EStateM ε σ α} {f : α → EStateM ε σ β} {post post' : α → σ → Prop}
  {exc exc' : ε → σ → Prop} {mid : β → σ → Prop}

theorem bind (h : Triple pre x post exc) (hf : ∀ a, Triple (post a) (f a) mid exc) : Triple pre (x >>= f) mid exc := by
  intro s hs
  have hx := h s hs
  rw [run_bind]
  cases hrun : x s with
  | ok a s' =>
    rw [hrun] at hx
    exact hf a s' hx
  | error e s' =>
    rw [hrun] at hx
    exact hx

theorem pure {a : α} (h : ∀ s, pre s → post a s) : Triple pre (pure a) post exc := h

theorem throw {e : ε} (h : ∀ s, pre s → exc e s) : Triple pre (throw e) post exc := h

/-- Reading the state. -/
theorem get_bind {f : σ → EStateM ε σ α} (hf : ∀ s₀, pre s₀ → Triple (fun s => s = s₀) (f s₀) post exc) :
    Triple pre (get >>= f) post exc := by
  intro s hs
  rw [run_bind_ok (run_get s)]
  exact hf s hs s rfl

theorem conseq (h : Triple pre x post exc) (hpre : ∀ s, pre' s → pre s) (hpost : ∀ a s, post a s → post' a s)
    (hexc : ∀ e s, exc e s → exc' e s) : Triple pre' x post' exc' := by
  intro s hs
  have hx := h s (hpre s hs)
  cases hrun : x s with
  | ok a s' =>
    rw [hrun] at hx
    exact hpost a s' hx
  | error e s' =>
    rw [hrun] at hx
    exact hexc e s' hx

theorem weaken (h : Triple pre x post exc) (hpre : ∀ s, pre' s → pre s) : Triple pre' x post exc :=
  h.conseq hpre (fun _ _ hq => hq) fun _ _ he => he

/-- The code returns. -/
theorem of_ok {a : α} (h : ∀ s, pre s → ∃ s', x s = .ok a s' ∧ post a s') : Triple pre x post exc := by
  intro s hs
  obtain ⟨s', hrun, hpost⟩ := h s hs
  rw [hrun]
  exact hpost

theorem ok_run (h : Triple pre x post exc) {s s' : σ} (hs : pre s) {a : α} (hrun : x s = .ok a s') : post a s' := by
  have hx := h s hs
  rw [hrun] at hx
  exact hx

theorem error_run (h : Triple pre x post exc) {s s' : σ} (hs : pre s) {e : ε} (hrun : x s = .error e s') : exc e s' := by
  have hx := h s hs
  rw [hrun] at hx
  exact hx

end Triple

/-! ### Simulation -/

/-- The two results are returns with `post`, or the same exception with `exc`, or the first one is excused. -/
def Matches (excused : ε → Prop) (post : α → β → σ → τ → Prop) (exc : ε → σ → τ → Prop) :
    EStateM.Result ε σ α → EStateM.Result ε τ β → Prop
  | .ok a s, .ok b t => post a b s t
  | .ok _ _, .error _ _ => False
  | .error e s, r => excused e ∨ ∃ t, r = .error e t ∧ exc e s t

theorem Matches.conseq {post post' : α → β → σ → τ → Prop} {exc exc' : ε → σ → τ → Prop} {excused : ε → Prop}
    {r : EStateM.Result ε σ α} {r' : EStateM.Result ε τ β} (h : Matches excused post exc r r')
    (hpost : ∀ a b s t, post a b s t → post' a b s t) (hexc : ∀ e s t, exc e s t → exc' e s t) :
    Matches excused post' exc' r r' := by
  cases r with
  | ok a s =>
    cases r' with
    | ok b t => exact hpost a b s t h
    | error e t => exact h.elim
  | error e s =>
    refine h.imp id fun hthrow => ?_
    obtain ⟨t, hrun, hexc'⟩ := hthrow
    exact ⟨t, hrun, hexc e s t hexc'⟩

/-- What the second result is when the first one is a return. -/
theorem Matches.returned {post : α → β → σ → τ → Prop} {exc : ε → σ → τ → Prop} {excused : ε → Prop} {a : α} {s : σ}
    {r' : EStateM.Result ε τ β} (h : Matches excused post exc (.ok a s) r') : ∃ b t, r' = .ok b t ∧ post a b s t := by
  cases r' with
  | ok b t => exact ⟨b, t, rfl, h⟩
  | error e t => exact h.elim

/-- What the first result is when the second one is a return, and the first one is not excused. -/
theorem Matches.returns {post : α → β → σ → τ → Prop} {exc : ε → σ → τ → Prop} {excused : ε → Prop} {b : β} {t : τ}
    {r : EStateM.Result ε σ α} (h : Matches excused post exc r (.ok b t)) (hno : ∀ e s, r = .error e s → ¬ excused e) :
    ∃ a s, r = .ok a s ∧ post a b s t := by
  cases r with
  | ok a s => exact ⟨a, s, rfl, h⟩
  | error e s =>
    rcases h with hexcused | ⟨t', hthrew, -⟩
    · exact absurd hexcused (hno e s rfl)
    · cases hthrew

/-- Results that match are the same, unless the first one is excused. -/
theorem Matches.outcome_eq {post : σ → τ → Prop} {exc : ε → σ → τ → Prop} {excused : ε → Prop} {r : EStateM.Result ε σ α}
    {r' : EStateM.Result ε τ α} (h : Matches excused (fun a b s t => a = b ∧ post s t) exc r r') :
    outcome r = outcome r' ∨ ∃ e, excused e ∧ outcome r = .error e := by
  cases r with
  | ok a s =>
    cases r' with
    | ok b t => exact .inl (congrArg Except.ok h.1)
    | error e t => exact h.elim
  | error e s =>
    rcases h with hexcused | ⟨t, rfl, -⟩
    · exact .inr ⟨e, hexcused, rfl⟩
    · exact .inl rfl

/-- From states with `pre` the results match. -/
def Simulates (excused : ε → Prop) (pre : σ → τ → Prop) (x : EStateM ε σ α) (y : EStateM ε τ β)
    (post : α → β → σ → τ → Prop) (exc : ε → σ → τ → Prop) : Prop :=
  ∀ s t, pre s t → Matches excused post exc (x s) (y t)

namespace Simulates

variable {excused : ε → Prop} {pre pre' : σ → τ → Prop} {x : EStateM ε σ α} {y : EStateM ε τ β}
  {f : α → EStateM ε σ α'} {g : β → EStateM ε τ β'} {post post' : α → β → σ → τ → Prop} {exc exc' : ε → σ → τ → Prop}
  {mid : α' → β' → σ → τ → Prop}

theorem bind (h : Simulates excused pre x y post exc)
    (hf : ∀ a b, Simulates excused (post a b) (f a) (g b) mid exc) :
    Simulates excused pre (x >>= f) (y >>= g) mid exc := by
  intro s t hst
  have hxy := h s t hst
  rw [run_bind, run_bind]
  cases hx : x s with
  | ok a s' =>
    rw [hx] at hxy
    cases hy : y t with
    | ok b t' =>
      rw [hy] at hxy
      exact hf a b s' t' hxy
    | error e t' =>
      rw [hy] at hxy
      exact hxy.elim
  | error e s' =>
    rw [hx] at hxy
    refine hxy.imp id fun hthrow => ?_
    obtain ⟨t', hy, hexc⟩ := hthrow
    rw [hy]
    exact ⟨t', rfl, hexc⟩

/-- The values that are returned are related by `R`, whatever the states are. -/
theorem bind_of {R : α → β → Prop} (h : Simulates excused pre x y (fun a b s t => R a b ∧ post a b s t) exc)
    (hf : ∀ a b, R a b → Simulates excused (post a b) (f a) (g b) mid exc) :
    Simulates excused pre (x >>= f) (y >>= g) mid exc :=
  h.bind fun a b s t hst => hf a b hst.1 s t hst.2

theorem of_exists {ι : Type} {P : ι → σ → τ → Prop} (h : ∀ c, Simulates excused (P c) x y post exc) :
    Simulates excused (fun s t => ∃ c, P c s t) x y post exc := fun s t ⟨c, hst⟩ => h c s t hst

theorem pure {a : α} {b : β} (h : ∀ s t, pre s t → post a b s t) :
    Simulates excused pre (pure a) (pure b) post exc := h

theorem throw {e : ε} (h : ∀ s t, pre s t → exc e s t) :
    Simulates excused pre (throw e : EStateM ε σ α) (throw e : EStateM ε τ β) post exc :=
  fun s t hst => .inr ⟨t, rfl, h s t hst⟩

/-- Reading the states. -/
theorem get_bind {f : σ → EStateM ε σ α} {g : τ → EStateM ε τ β}
    (hf : ∀ s₀ t₀, pre s₀ t₀ → Simulates excused (fun s t => s = s₀ ∧ t = t₀) (f s₀) (g t₀) post exc) :
    Simulates excused pre (get >>= f) (get >>= g) post exc := by
  intro s t hst
  rw [run_bind_ok (run_get s), run_bind_ok (run_get t)]
  exact hf s t hst s t ⟨rfl, rfl⟩

theorem conseq (h : Simulates excused pre x y post exc) (hpre : ∀ s t, pre' s t → pre s t)
    (hpost : ∀ a b s t, post a b s t → post' a b s t) (hexc : ∀ e s t, exc e s t → exc' e s t) :
    Simulates excused pre' x y post' exc' := fun s t hst => (h s t (hpre s t hst)).conseq hpost hexc

theorem weaken (h : Simulates excused pre x y post exc) (hpre : ∀ s t, pre' s t → pre s t) :
    Simulates excused pre' x y post exc :=
  h.conseq hpre (fun _ _ _ _ hq => hq) fun _ _ _ he => he

/-- What the first code does to its state is not forgotten. -/
theorem left (h : Simulates excused pre x y post exc) (p : σ → Prop) :
    Simulates excused (fun s t => pre s t ∧ p s) x y (fun a b s' t => post a b s' t ∧ ∃ s, p s ∧ x s = .ok a s') exc := by
  rintro s t ⟨hst, hs⟩
  have hxy := h s t hst
  cases hx : x s with
  | ok a s' =>
    rw [hx] at hxy
    cases hy : y t with
    | ok b t' =>
      rw [hy] at hxy
      exact ⟨hxy, s, hs, hx⟩
    | error e t' =>
      rw [hy] at hxy
      exact hxy.elim
  | error e s' =>
    rw [hx] at hxy
    exact hxy

/-- Both codes return. -/
theorem of_ok {a : α} {b : β} (h : ∀ s t, pre s t → ∃ s' t', x s = .ok a s' ∧ y t = .ok b t' ∧ post a b s' t') :
    Simulates excused pre x y post exc := by
  intro s t hst
  obtain ⟨s', t', hx, hy, hpost⟩ := h s t hst
  rw [hx, hy]
  exact hpost

/-- What the second code does when the first one returns. -/
theorem ok_run (h : Simulates excused pre x y post exc) {s s' : σ} {t : τ} (hst : pre s t) {a : α}
    (hx : x s = .ok a s') : ∃ b t', y t = .ok b t' ∧ post a b s' t' := by
  have hxy := h s t hst
  rw [hx] at hxy
  exact hxy.returned

end Simulates

end Cs564
