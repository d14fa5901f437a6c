import Mathlib
import DosMonitor.Execution.Context

/-!
# Two runs in lockstep

An action may be run on two kinds of state at once, for instance on a memory and on the same memory
behind a log. `Lockstep R x y` says that from states related by `R` the actions `x` and `y` come to the
same value or the same error, and leave states that are related again.

Lockstep passes through sequencing (`Lockstep.bind`), so an action that is built from a few primitives
needs an argument for these only.
-/

namespace DosMonitor

variable {ε σ τ α β : Type}

/-- The state in which an action ends, whether it has failed or not. -/
def endState : EStateM.Result ε σ α → σ
  | .ok _ s => s
  | .error _ s => s

@[simp] theorem endState_ok (a : α) (s : σ) : endState (.ok a s : EStateM.Result ε σ α) = s := rfl

@[simp] theorem endState_error (e : ε) (s : σ) :
    endState (.error e s : EStateM.Result ε σ α) = s := rfl

/-- The same ending in a state of another kind. -/
def mapEnd (f : σ → τ) : EStateM.Result ε σ α → EStateM.Result ε τ α
  | .ok a s => .ok a (f s)
  | .error e s => .error e (f s)

@[simp] theorem mapEnd_ok (f : σ → τ) (a : α) (s : σ) :
    mapEnd f (.ok a s : EStateM.Result ε σ α) = .ok a (f s) := rfl

@[simp] theorem mapEnd_error (f : σ → τ) (e : ε) (s : σ) :
    mapEnd f (.error e s : EStateM.Result ε σ α) = .error e (f s) := rfl

/-- Two endings with one value or one error, in related states. -/
inductive SameEnd (R : σ → τ → Prop) : EStateM.Result ε σ α → EStateM.Result ε τ α → Prop
  | ok (a : α) {s : σ} {t : τ} (h : R s t) : SameEnd R (.ok a s) (.ok a t)
  | error (e : ε) {s : σ} {t : τ} (h : R s t) : SameEnd R (.error e s) (.error e t)

theorem SameEnd.endState {R : σ → τ → Prop} {r : EStateM.Result ε σ α} {q : EStateM.Result ε τ α}
    (h : SameEnd R r q) : R (endState r) (endState q) := by
  cases h with
  | ok _ h => exact h
  | error _ h => exact h

theorem SameEnd.imp {R S : σ → τ → Prop} {r : EStateM.Result ε σ α} {q : EStateM.Result ε τ α}
    (h : SameEnd R r q)
    (hRS : R (DosMonitor.endState r) (DosMonitor.endState q) →
      S (DosMonitor.endState r) (DosMonitor.endState q)) : SameEnd S r q := by
  cases h with
  | ok a h => exact .ok a (hRS h)
  | error e h => exact .error e (hRS h)

theorem SameEnd.exists_ok {R : σ → τ → Prop} {r : EStateM.Result ε σ α} {a : α} {t : τ}
    (h : SameEnd R r (.ok a t)) : ∃ s, r = .ok a s ∧ R s t := by
  cases h with
  | ok _ h => exact ⟨_, rfl, h⟩

/-- From related states two actions come to the same ending. -/
def Lockstep (R : σ → τ → Prop) (x : EStateM ε σ α) (y : EStateM ε τ α) : Prop :=
  ∀ s t, R s t → SameEnd R (x s) (y t)

namespace Lockstep

variable {R : σ → τ → Prop}

theorem pure (a : α) : Lockstep R (Pure.pure a : EStateM ε σ α) (Pure.pure a) :=
  fun _ _ h => .ok a h

theorem throw (e : ε) :
    Lockstep R (MonadExcept.throw e : EStateM ε σ α) (MonadExcept.throw e) :=
  fun _ _ h => .error e h

theorem refl (x : EStateM ε σ α) : Lockstep Eq x x := by
  rintro s _ rfl
  cases x s with
  | ok a s => exact .ok a rfl
  | error e s => exact .error e rfl

/-- What the second action keeps may be added to the relation. -/
theorem keeping {x : EStateM ε σ α} {y : EStateM ε τ α} (P : τ → Prop) (h : Lockstep R x y)
    (hP : ∀ t, P t → P (endState (y t))) : Lockstep (fun s t => R s t ∧ P t) x y := by
  rintro s t ⟨hR, ht⟩
  exact (h s t hR).imp fun h' => ⟨h', hP t ht⟩

/-- Sequencing, where it is known (`P`) which values the first action comes to. -/
theorem bindOf (P : α → Prop) {x : EStateM ε σ α} {y : EStateM ε τ α} {f : α → EStateM ε σ β}
    {g : α → EStateM ε τ β} (hx : Lockstep R x y)
    (hP : ∀ s t, R s t → ∀ a s', x s = .ok a s' → P a)
    (hf : ∀ a, P a → Lockstep R (f a) (g a)) :
    Lockstep R (x >>= f) (y >>= g) := by
  intro s t h
  have hxy := hx s t h
  have hvalue := hP s t h
  change SameEnd R (EStateM.bind x f s) (EStateM.bind y g t)
  unfold EStateM.bind
  generalize x s = r at hxy hvalue
  generalize y t = q at hxy
  cases hxy with
  | ok a h' => exact hf a (hvalue a _ rfl) _ _ h'
  | error e h' => exact .error e h'

theorem bind {x : EStateM ε σ α} {y : EStateM ε τ α} {f : α → EStateM ε σ β}
    {g : α → EStateM ε τ β} (hx : Lockstep R x y) (hf : ∀ a, Lockstep R (f a) (g a)) :
    Lockstep R (x >>= f) (y >>= g) :=
  bindOf (fun _ => True) hx (fun _ _ _ _ _ _ => trivial) fun a _ => hf a

theorem map (f : α → β) {x : EStateM ε σ α} {y : EStateM ε τ α} (h : Lockstep R x y) :
    Lockstep R (f <$> x) (f <$> y) :=
  bind h fun a => pure (f a)

theorem ofExcept (r : Except ε α) :
    Lockstep R (MonadExcept.ofExcept r : EStateM ε σ α) (MonadExcept.ofExcept r) := by
  cases r with
  | ok a => exact pure a
  | error e => exact throw e

theorem ite {p : Prop} [Decidable p] {x x' : EStateM ε σ α} {y y' : EStateM ε τ α}
    (h : Lockstep R x y) (h' : Lockstep R x' y') :
    Lockstep R (if p then x else x') (if p then y else y') := by
  split
  · exact h
  · exact h'

/-- A check that may fail in front of the rest. -/
theorem check {p : Prop} [Decidable p] (e : ε) {x : EStateM ε σ α} {y : EStateM ε τ α}
    (h : Lockstep R x y) :
    Lockstep R (if p then (MonadExcept.throw e : EStateM ε σ β) >>= fun _ => x else x)
      (if p then (MonadExcept.throw e : EStateM ε τ β) >>= fun _ => y else y) :=
  ite (bind (throw e) fun _ => h) h

/-- Both actions look at their states, which are related at that time. -/
theorem get_bind {f : σ → EStateM ε σ α} {g : τ → EStateM ε τ α}
    (h : ∀ s t, R s t → SameEnd R (f s s) (g t t)) : Lockstep R (get >>= f) (get >>= g) :=
  h

end Lockstep

end DosMonitor
