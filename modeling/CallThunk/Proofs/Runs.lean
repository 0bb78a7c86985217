/-!
# Runs that do not fail

Programs with a state that fail with an error: what it takes for a run to give a result, and what it
comes to when it may fail. Parsing and lowering are such programs.
-/

namespace CallThunk

section
variable {σ ε α β : Type} {s s' : σ}

theorem bind_eq_ok {x : Except ε α} {f : α → Except ε β} {b : β} :
    x >>= f = .ok b ↔ ∃ a, x = .ok a ∧ f a = .ok b := by
  cases x with
  | error e => exact ⟨nofun, fun ⟨_, h, _⟩ => nomatch h⟩
  | ok a =>
      constructor
      · exact fun h => ⟨a, rfl, h⟩
      · rintro ⟨_, h, hf⟩
        cases h
        exact hf

theorem map_eq_ok {x : Except ε α} {f : α → β} {b : β} :
    x.map f = .ok b ↔ ∃ a, x = .ok a ∧ f a = b := by
  cases x with
  | error e => exact ⟨nofun, fun ⟨_, h, _⟩ => nomatch h⟩
  | ok a =>
      constructor
      · exact fun h => ⟨a, rfl, Except.ok.inj h⟩
      · rintro ⟨_, h, hf⟩
        cases h
        exact congrArg _ hf

/-- A run gives a result and leaves a state. -/
def Gives (x : StateT σ (Except ε) α) (s : σ) (a : α) (s' : σ) : Prop := x.run s = .ok (a, s')

@[simp] theorem gives_pure {a b : α} :
    Gives (pure a : StateT σ (Except ε) α) s b s' ↔ b = a ∧ s' = s := by
  show Except.ok (a, s) = .ok (b, s') ↔ _
  simp [eq_comm]

@[simp] theorem gives_bind {x : StateT σ (Except ε) α} {f : α → StateT σ (Except ε) β} {b : β} :
    Gives (x >>= f) s b s' ↔ ∃ a t, Gives x s a t ∧ Gives (f a) t b s' := by
  unfold Gives
  rw [StateT.run_bind, bind_eq_ok]
  exact ⟨fun ⟨⟨a, t⟩, h⟩ => ⟨a, t, h⟩, fun ⟨a, t, h⟩ => ⟨(a, t), h⟩⟩

@[simp] theorem not_gives_throw {e : ε} {a : α} :
    ¬ Gives (throw e : StateT σ (Except ε) α) s a s' := nofun

@[simp] theorem gives_liftM {x : Except ε α} {a : α} :
    Gives (liftM x : StateT σ (Except ε) α) s a s' ↔ x = .ok a ∧ s' = s := by
  cases x with
  | error e => exact ⟨nofun, fun h => nomatch h.1⟩
  | ok a' =>
      constructor
      · intro h
        cases h
        exact ⟨rfl, rfl⟩
      · rintro ⟨h, rfl⟩
        cases h
        rfl

/-! ## Both exits -/

/-- A run fails with an error. -/
def Fails (x : StateT σ (Except ε) α) (s : σ) (e : ε) : Prop := x.run s = .error e

theorem Fails.bind {x : StateT σ (Except ε) α} {e : ε} (h : Fails x s e)
    (f : α → StateT σ (Except ε) β) : Fails (x >>= f) s e := by
  show (x >>= f).run s = .error e
  rw [StateT.run_bind, show x.run s = .error e from h]
  rfl

theorem Gives.fails_bind {x : StateT σ (Except ε) α} {f : α → StateT σ (Except ε) β} {a : α} {e : ε}
    (h : Gives x s a s') (hf : Fails (f a) s' e) : Fails (x >>= f) s e := by
  show (x >>= f).run s = .error e
  rw [StateT.run_bind, show x.run s = .ok (a, s') from h]
  exact hf

/-- A run gives a good result, or it fails with an error that has its reason. -/
def GivesOr (x : StateT σ (Except ε) α) (s : σ) (good : α → σ → Prop) (bad : ε → Prop) : Prop :=
  (∃ a s', Gives x s a s' ∧ good a s') ∨ ∃ e, Fails x s e ∧ bad e

namespace GivesOr

variable {x : StateT σ (Except ε) α} {good good' : α → σ → Prop} {bad bad' : ε → Prop}

theorem gives {a : α} (h : Gives x s a s') (ha : good a s') : GivesOr x s good bad :=
  .inl ⟨a, s', h, ha⟩

theorem fails {e : ε} (h : Fails x s e) (he : bad e) : GivesOr x s good bad := .inr ⟨e, h, he⟩

theorem imp (h : GivesOr x s good bad) (hgood : ∀ a s', good a s' → good' a s')
    (hbad : ∀ e, bad e → bad' e) : GivesOr x s good' bad' := by
  rcases h with ⟨a, s', gives, ha⟩ | ⟨e, fails, he⟩
  · exact .inl ⟨a, s', gives, hgood a s' ha⟩
  · exact .inr ⟨e, fails, hbad e he⟩

/-- What comes next starts from a good result. -/
theorem bind {f : α → StateT σ (Except ε) β} {last : β → σ → Prop} (h : GivesOr x s good bad)
    (next : ∀ a s', good a s' → GivesOr (f a) s' last bad) : GivesOr (x >>= f) s last bad := by
  rcases h with ⟨a, s', gives, ha⟩ | ⟨e, fails, he⟩
  · rcases next a s' ha with ⟨b, s'', gives', hb⟩ | ⟨e, fails, he⟩
    · exact .inl ⟨b, s'', gives_bind.mpr ⟨a, s', gives, gives'⟩, hb⟩
    · exact .inr ⟨e, gives.fails_bind fails, he⟩
  · exact .inr ⟨e, fails.bind f, he⟩

end GivesOr

end

end CallThunk
