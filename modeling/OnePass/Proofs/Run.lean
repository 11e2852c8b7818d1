import OnePass.Fault

/-!
# Runs that can fail

Parsers and meanings are both computations over a state that survives a failure.

* `run_bind` — the run of a computation that is made of two;
* `run_get_bind`, `run_modify_bind` — computations that begin by reading or changing the state.
-/

namespace OnePass

/-- A fault whose reason lies in the program.  It says where, unless it is about the paths of a function. -/
def Diagnostic.External (d : Diagnostic) : Prop :=
  d.kind ≠ .internal ∧ (d.location = none → ∃ function, d.fault = .pathWithoutReturn function)

variable {σ ε α β : Type}

theorem run_bind (p : ExceptT ε (StateM σ) α) (f : α → ExceptT ε (StateM σ) β) (s : σ) : (p >>= f).run.run s =
      match p.run.run s with
      | (.ok a, next) => (f a).run.run next
      | (.error e, next) => (.error e, next) := by
  rw [ExceptT.run_bind, StateT.run_bind]
  rcases p.run.run s with ⟨e | a, next⟩ <;> rfl

section state

variable {σ ε α : Type} (s : σ)

theorem run_get_bind (f : σ → ExceptT ε (StateM σ) α) : (get >>= f).run.run s = (f s).run.run s := rfl

theorem run_modify_bind (change : σ → σ) (f : PUnit → ExceptT ε (StateM σ) α) :
    (modify change >>= f).run.run s = (f ⟨⟩).run.run (change s) := rfl

end state

theorem exists_of_bind_ok {x : Except ε α} {f : α → Except ε β} {b : β}
    (h : (x >>= f) = .ok b) : ∃ a, x = .ok a ∧ f a = .ok b := by
  cases x with
  | error => cases h
  | ok a => exact ⟨a, rfl, h⟩

theorem or_of_bind_error {x : Except ε α} {f : α → Except ε β} {e : ε}
    (h : (x >>= f) = .error e) : x = .error e ∨ ∃ a, x = .ok a ∧ f a = .error e := by
  cases x with
  | error => exact .inl (congrArg _ (Except.error.inj h))
  | ok a => exact .inr ⟨a, rfl, h⟩

theorem eq_ok_of_toOption {result : Except ε α} {a : α} (h : result.toOption = some a) : result = .ok a := by
  cases result with
  | error => cases h
  | ok => exact congrArg _ (Option.some.inj h)

theorem exists_ok_of_any {result : Except ε α} {Q : α → Prop} (P : α → Prop) [DecidablePred P]
    (hany : result.toOption.any fun a => P a) (h : ∀ a, result = .ok a → P a → Q a) :
    ∃ a, result = .ok a ∧ Q a := by
  obtain ⟨a, ha, htest⟩ := (Option.any_eq_true _ _).1 hany
  have hok := eq_ok_of_toOption ha
  exact ⟨a, hok, h a hok (of_decide_eq_true htest)⟩

theorem exists_run_of_isSome {run : Except ε α × σ} (h : run.1.toOption.isSome) :
    ∃ a s, run = (.ok a, s) := by
  obtain ⟨a, ha⟩ := Option.isSome_iff_exists.1 h
  exact ⟨a, run.2, Prod.ext (eq_ok_of_toOption ha) rfl⟩

theorem run_eq_of_fst {run : α × σ} {answer : α} (h : run.1 = answer) : run = (answer, run.2) :=
  Prod.ext h rfl

theorem exists_of_map_toOption {result : Except ε α} {f : α → β} {b : β}
    (h : result.toOption.map f = some b) : ∃ a, result = .ok a ∧ f a = b := by
  cases result with
  | ok a => exact ⟨a, rfl, Option.some.inj h⟩
  | error e => cases h

end OnePass
