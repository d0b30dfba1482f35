import Mathlib.Data.List.Basic

/-! Actions that change a state and may fail, by what they give when they start in a state. -/

namespace RowTypes

section Run

variable {ε σ α β : Type}

@[simp] theorem run_pure (a : α) (s : σ) : (pure a : ExceptT ε (StateM σ) α).run s = (.ok a, s) := rfl

@[simp] theorem run_throw (e : ε) (s : σ) :
    (throw e : ExceptT ε (StateM σ) α).run s = (.error e, s) := rfl

@[simp] theorem run_modify (f : σ → σ) (s : σ) :
    (modify f : ExceptT ε (StateM σ) PUnit).run s = (.ok ⟨⟩, f s) := rfl

@[simp] theorem run_get (s : σ) : (get : ExceptT ε (StateM σ) σ).run s = (.ok s, s) := rfl

@[simp] theorem run_bind (x : ExceptT ε (StateM σ) α) (f : α → ExceptT ε (StateM σ) β) (s : σ) :
    (x >>= f).run s =
      match x.run s with
      | (.ok a, s') => (f a).run s'
      | (.error e, s') => (.error e, s') := by
  change (match (x.run s : Except ε α × σ) with
    | (a, s') => (ExceptT.bindCont f a : StateM σ _) s') = _
  rcases x.run s with ⟨_ | a, s'⟩ <;> rfl

@[simp] theorem run_tryCatch (x : ExceptT ε (StateM σ) α) (f : ε → ExceptT ε (StateM σ) α) (s : σ) :
    (tryCatch x f).run s =
      match x.run s with
      | (.ok a, s') => (.ok a, s')
      | (.error e, s') => (f e).run s' := by
  change (match (x.run s : Except ε α × σ) with
    | (a, s') => ((match a with
      | .ok a => pure (Except.ok a)
      | .error e => f e : StateM σ (Except ε α))) s') = _
  rcases x.run s with ⟨_ | a, s'⟩ <;> rfl

theorem run_bind_of_error {x : ExceptT ε (StateM σ) α} {s : σ} {e : ε} (h : (x.run s).1 = .error e)
    (f : α → ExceptT ε (StateM σ) β) : ((x >>= f).run s).1 = .error e := by
  rw [run_bind]
  generalize x.run s = r at h
  obtain ⟨_ | a, s₁⟩ := r
  · exact congrArg Except.error (Except.error.inj h)
  · exact nomatch h

theorem of_run_bind {x : ExceptT ε (StateM σ) α} {f : α → ExceptT ε (StateM σ) β} {s s₂ : σ} {b : β}
    (h : (x >>= f).run s = (.ok b, s₂)) :
    ∃ a s₁, x.run s = (.ok a, s₁) ∧ (f a).run s₁ = (.ok b, s₂) := by
  rw [run_bind] at h
  split at h
  · rename_i a s₁ hx
    exact ⟨a, s₁, hx, h⟩
  · exact nomatch h

theorem of_run_bind_error {x : ExceptT ε (StateM σ) α} {f : α → ExceptT ε (StateM σ) β} {s : σ}
    {e : ε} (h : ((x >>= f).run s).1 = .error e) :
    (x.run s).1 = .error e ∨ ∃ a s₁, x.run s = (.ok a, s₁) ∧ ((f a).run s₁).1 = .error e := by
  rw [run_bind] at h
  split at h
  · rename_i a s₁ hx
    exact .inr ⟨a, s₁, hx, h⟩
  · rename_i e' s₁ hx
    rw [hx, Except.error.inj h]
    exact .inl rfl

end Run

end RowTypes
