import Mathlib.Logic.Basic

namespace LocalCache.Library.Transition

variable {σ τ α : Type} {step : σ → α → Option σ} {ok : σ → α → Prop} {s₀ s s' : σ} {a : α}

/-- States reached by a labelled partial step function, every step of the run
satisfying a side condition on the state before it and on its label. -/
inductive Reach (step : σ → α → Option σ) (ok : σ → α → Prop) (s₀ : σ) : σ → Prop
  | refl : Reach step ok s₀ s₀
  | tail {s s' : σ} {a : α} :
      Reach step ok s₀ s → ok s a → step s a = some s' → Reach step ok s₀ s'

def Free : σ → α → Prop := fun _ _ => True

def exec (step : σ → α → Option σ) : σ → List α → Option σ
  | s, [] => some s
  | s, a :: as => (step s a).bind (fun s' => exec step s' as)

def guarded (step : σ → α → Option σ) (ok : σ → α → Prop) [∀ s a, Decidable (ok s a)] (s : σ)
    (a : α) : Option σ := if ok s a then step s a else none

theorem Reach.invariant {P : σ → Prop} (h0 : P s₀)
    (hstep : ∀ s a s', P s → ok s a → step s a = some s' → P s')
    (h : Reach step ok s₀ s) : P s := by
  induction h with
  | refl => exact h0
  | tail _ hok hs ih => exact hstep _ _ _ ih hok hs

/-- A run is followed by one of another system, if each of its steps is a step there or is not
seen there. -/
theorem Reach.simulated {β : Type} {step' : τ → β → Option τ} {t₀ : τ} {R : σ → τ → Prop}
    (start : R s₀ t₀)
    (sim : ∀ s a s' t, R s t → step s a = some s' →
      R s' t ∨ ∃ b t', step' t b = some t' ∧ R s' t')
    (h : Reach step ok s₀ s) : ∃ t, Reach step' Free t₀ t ∧ R s t := by
  induction h with
  | refl => exact ⟨t₀, .refl, start⟩
  | tail _ _ hs ih =>
    obtain ⟨t, ht, hR⟩ := ih
    obtain hR | ⟨b, t', hb, hR⟩ := sim _ _ _ t hR hs
    · exact ⟨t, ht, hR⟩
    · exact ⟨t', .tail ht trivial hb, hR⟩

theorem Reach.mono {ok' : σ → α → Prop} (himp : ∀ s a, ok s a → ok' s a)
    (h : Reach step ok s₀ s) : Reach step ok' s₀ s := by
  induction h with
  | refl => exact .refl
  | tail _ hok hs ih => exact .tail ih (himp _ _ hok) hs

theorem Reach.free (h : Reach step ok s₀ s) : Reach step Free s₀ s :=
  h.mono (fun _ _ _ => trivial)

theorem Reach.exec (as : List α) (h : Reach step Free s₀ s)
    (he : exec step s as = some s') : Reach step Free s₀ s' := by
  induction as generalizing s with
  | nil =>
    simp only [Transition.exec, Option.some.injEq] at he
    exact he ▸ h
  | cons a as ih =>
    simp only [Transition.exec, Option.bind_eq_some_iff] at he
    obtain ⟨t, ht, he⟩ := he
    exact ih (.tail h trivial ht) he

theorem reach_of_exec (as : List α) (he : exec step s₀ as = some s) : Reach step Free s₀ s :=
  Reach.refl.exec as he

theorem exists_reach (step : σ → α → Option σ) (s₀ : σ) (as : List α) (P : σ → Prop)
    [DecidablePred P] (h : (exec step s₀ as).any (fun s => decide (P s)) = true) :
    ∃ s, Reach step Free s₀ s ∧ P s := by
  cases he : exec step s₀ as with
  | none =>
    rw [he] at h
    cases h
  | some s =>
    rw [he] at h
    exact ⟨s, reach_of_exec as he, of_decide_eq_true h⟩

theorem Reach.of_guarded [∀ s a, Decidable (ok s a)] {ok' : σ → α → Prop}
    (h : Reach (guarded step ok) ok' s₀ s) : Reach step ok s₀ s := by
  induction h with
  | refl => exact .refl
  | @tail s s' a _ _ hs ih =>
    rw [guarded] at hs
    by_cases hok : ok s a
    · rw [if_pos hok] at hs
      exact .tail ih hok hs
    · rw [if_neg hok] at hs
      cases hs

/-- A state with what the steps up to it have emitted. -/
structure Traced (σ ε : Type) where
  state : σ
  trace : List ε

def traced {ε : Type} (step : σ → α → Option σ) (emit : σ → α → List ε) (t : Traced σ ε)
    (a : α) : Option (Traced σ ε) :=
  (step t.state a).map (fun s => ⟨s, t.trace ++ emit t.state a⟩)

theorem traced_eq_some {ε : Type} {emit : σ → α → List ε} {t t' : Traced σ ε}
    (h : traced step emit t a = some t') :
    step t.state a = some t'.state ∧ t'.trace = t.trace ++ emit t.state a := by
  rw [traced, Option.map_eq_some_iff] at h
  obtain ⟨s, hs, rfl⟩ := h
  exact ⟨hs, rfl⟩

theorem Reach.exists_trace {ε : Type} (emit : σ → α → List ε) (h : Reach step ok s₀ s) :
    ∃ es, Reach (traced step emit) (fun t => ok t.state) ⟨s₀, []⟩ ⟨s, es⟩ := by
  induction h with
  | refl => exact ⟨[], .refl⟩
  | @tail s s' a _ hok hs ih =>
    obtain ⟨es, hes⟩ := ih
    exact ⟨es ++ emit s a, hes.tail hok (by rw [traced, hs]; rfl)⟩

end LocalCache.Library.Transition
