import Cs564.Lib.Run

/-!
# Code that logs

Code that does nothing with its state but to log keys into it.  What it logs is said beforehand: a list of keys that are
all logged if the code returns, and up to some point if it throws, as a log survives an exception.  `view` is the part of
the state that the log is kept in.

A log may be a map from keys to lists that grow at their ends (`addTo`).
-/

namespace Cs564

variable {ε σ τ κ α β γ : Type}

/-- `x` logs the keys and returns a value as `Q` says, or throws after the first few of them. -/
def Logs (view : σ → τ) (note : τ → κ → τ) (x : EStateM ε σ α) (keys : List κ) (Q : α → Prop) : Prop :=
  ∀ s, match x s with
    | .ok a s' => view s' = keys.foldl note (view s) ∧ Q a
    | .error _ s' => ∃ found, found <+: keys ∧ view s' = found.foldl note (view s)

namespace Logs

variable {view : σ → τ} {note : τ → κ → τ} {x : EStateM ε σ α} {keys more : List κ} {Q : α → Prop} {R : β → Prop}

theorem pure {a : α} (ha : Q a) : Logs view note (pure a : EStateM ε σ α) [] Q :=
  fun _ => ⟨rfl, ha⟩

theorem weaken (h : Logs view note x keys Q) : Logs view note x keys fun _ => True := by
  intro s
  have hx := h s
  cases hrun : x s with
  | ok a s' =>
    rw [hrun] at hx
    exact ⟨hx.1, trivial⟩
  | error e s' =>
    rw [hrun] at hx
    exact hx

/-- Code that throws right away, whatever was to be logged behind it. -/
theorem throw (e : ε) : Logs view note (throw e : EStateM ε σ α) keys Q :=
  fun _ => ⟨[], List.nil_prefix, rfl⟩

/-- A step that may throw and logs nothing. -/
theorem ofExcept (r : Except ε α) : Logs view note (MonadExcept.ofExcept r : EStateM ε σ α) [] fun a => r = .ok a := by
  cases r with
  | ok a => exact Logs.pure rfl
  | error e => exact Logs.throw e

/-- A step that logs a key. -/
theorem event {f : σ → σ} {key : κ} (hf : ∀ s, view (f s) = note (view s) key) :
    Logs view note (modify f : EStateM ε σ Unit) [key] fun _ => True :=
  fun s => ⟨hf s, trivial⟩

theorem bind {f : α → EStateM ε σ β} (h : Logs view note x keys Q) (hf : ∀ a, Q a → Logs view note (f a) more R) :
    Logs view note (x >>= f) (keys ++ more) R := by
  intro s
  have hx := h s
  rw [run_bind]
  cases hrun : x s with
  | ok a s' =>
    rw [hrun] at hx
    obtain ⟨hview, ha⟩ := hx
    have hrest := hf a ha s'
    dsimp only
    cases hrun' : f a s' with
    | ok b s'' =>
      rw [hrun'] at hrest
      exact ⟨by rw [hrest.1, hview, List.foldl_append], hrest.2⟩
    | error e s'' =>
      rw [hrun'] at hrest
      obtain ⟨found, hfound, hlog⟩ := hrest
      exact ⟨keys ++ found, (List.prefix_append_right_inj keys).mpr hfound, by rw [hlog, hview, List.foldl_append]⟩
  | error e s' =>
    rw [hrun] at hx
    obtain ⟨found, hfound, hlog⟩ := hx
    exact ⟨found, hfound.trans (List.prefix_append keys more), hlog⟩

/-- `bind`, where the keys are put together in another way. -/
theorem bind_eq {f : α → EStateM ε σ β} {all : List κ} (h : Logs view note x keys Q)
    (hf : ∀ a, Q a → Logs view note (f a) more R) (hall : all = keys ++ more) : Logs view note (x >>= f) all R :=
  hall ▸ h.bind hf

/-- A first step that may throw and logs nothing. -/
theorem ofExcept_bind {r : Except ε α} {f : α → EStateM ε σ β} (hf : ∀ a, r = .ok a → Logs view note (f a) keys R) :
    Logs view note (MonadExcept.ofExcept r >>= f) keys R :=
  (ofExcept r).bind_eq hf (List.nil_append keys).symm

/-- A loop logs what the rounds log, one after the other. -/
theorem foldlM {f : β → γ → EStateM ε σ β} {g : γ → List κ} (h : ∀ b c, Logs view note (f b c) (g c) fun _ => True)
    (l : List γ) (b : β) : Logs view note (l.foldlM f b) (l.flatMap g) fun _ => True := by
  induction l generalizing b with
  | nil => exact Logs.pure trivial
  | cons c l ih =>
    rw [List.foldlM_cons, List.flatMap_cons]
    exact (h b c).bind fun b _ => ih b

end Logs

section ListMaps

variable {κ δ : Type} [DecidableEq κ] {map : List (κ × List δ)} {key k : κ} {v : δ}

/-- A map from keys to lists, with `v` at the end of the list of a key. -/
def addTo (map : List (κ × List δ)) (key : κ) (v : δ) : List (κ × List δ) :=
  if (map.lookup key).isSome then map.map fun entry => if entry.1 = key then (entry.1, entry.2 ++ [v]) else entry
  else map ++ [(key, [v])]

private theorem lookup_grown (map : List (κ × List δ)) (key : κ) (v : δ) (k : κ) :
    (map.map fun entry => if entry.1 = key then (entry.1, entry.2 ++ [v]) else entry).lookup k =
      if k = key then (map.lookup k).map (· ++ [v]) else map.lookup k := by
  induction map with
  | nil => simp
  | cons entry map ih =>
    obtain ⟨k', l⟩ := entry
    rw [List.map_cons]
    by_cases hk : k = k'
    · subst hk
      by_cases hkey : k = key <;> simp [hkey]
    · have hfst : (if k' = key then (k', l ++ [v]) else (k', l)).1 = k' := by split <;> rfl
      have hne : (k == k') = false := by simpa using hk
      rw [List.lookup_cons, List.lookup_cons, hfst, hne, ih]

/-- Only the list of the key grows. -/
theorem lookup_addTo (map : List (κ × List δ)) (key : κ) (v : δ) (k : κ) : (addTo map key v).lookup k =
    if k = key then some ((map.lookup key).getD [] ++ [v]) else map.lookup k := by
  unfold addTo
  cases hkey : map.lookup key with
  | none =>
    rw [if_neg (by simp), List.lookup_append]
    by_cases hk : k = key
    · rw [if_pos hk, hk, hkey]
      simp
    · have hne : (k == key) = false := by simpa using hk
      rw [if_neg hk, List.lookup_cons, hne]
      simp
  | some l =>
    rw [if_pos (by simp), lookup_grown]
    by_cases hk : k = key
    · rw [if_pos hk, if_pos hk, hk, hkey]
      rfl
    · rw [if_neg hk, if_neg hk]

end ListMaps

end Cs564
