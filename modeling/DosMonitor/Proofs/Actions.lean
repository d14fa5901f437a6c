import Mathlib
import DosMonitor.Proofs.Lockstep

/-!
# Actions that may fail

An action looks at its state or changes it, and comes to a value or fails. Looking may fail, but changes
nothing (`Reads`); what has been made sure of beforehand does not fail (`Succeeds`); an action that leaves
everything as it was where it fails is `Atomic`.

Main statement: an action that looks first is atomic if what comes then is (`Atomic.bind`). A sequence is
taken apart where its first part has come to a value or failed (`bind_of_ok`, `bind_of_error`,
`of_bind_ok`).
-/

namespace DosMonitor

variable {ε σ α β : Type}

/-- The action leaves the state alone, whether it fails or not. -/
def Reads (x : EStateM ε σ α) : Prop :=
  ∀ s, endState (x s) = s

/-- From this state the action comes to a value. -/
def Succeeds (x : EStateM ε σ α) (s : σ) : Prop :=
  ∃ a s', x s = .ok a s'

/-- If the action fails in this state, it leaves the state alone. -/
def Atomic (x : EStateM ε σ α) (s : σ) : Prop :=
  ∀ e s', x s = .error e s' → s' = s

namespace Reads

theorem pure (a : α) : Reads (Pure.pure a : EStateM ε σ α) :=
  fun _ => rfl

theorem throw (e : ε) : Reads (MonadExcept.throw e : EStateM ε σ α) :=
  fun _ => rfl

theorem get : Reads (MonadState.get : EStateM ε σ σ) :=
  fun _ => rfl

theorem ofExcept (r : Except ε α) : Reads (MonadExcept.ofExcept r : EStateM ε σ α) := by
  cases r with
  | ok a => exact pure a
  | error e => exact throw e

theorem bind {x : EStateM ε σ α} {f : α → EStateM ε σ β} (hx : Reads x) (hf : ∀ a, Reads (f a)) :
    Reads (x >>= f) := by
  intro s
  have hs := hx s
  change endState (EStateM.bind x f s) = s
  unfold EStateM.bind
  cases hr : x s with
  | ok a s' =>
    rw [hr] at hs
    obtain rfl : s' = s := hs
    exact hf a s'
  | error e s' =>
    rw [hr] at hs
    exact hs

end Reads

variable {x : EStateM ε σ α} {f : α → EStateM ε σ β} {s : σ}

theorem Succeeds.bind (h : ∃ a s', x s = .ok a s' ∧ Succeeds (f a) s') : Succeeds (x >>= f) s := by
  obtain ⟨a, s', hx, b, s'', hf⟩ := h
  refine ⟨b, s'', ?_⟩
  change EStateM.bind x f s = _
  unfold EStateM.bind
  rw [hx]
  exact hf

theorem of_bind_ok {b : β} {s' : σ} (h : (x >>= f) s = .ok b s') :
    ∃ a t, x s = .ok a t ∧ f a t = .ok b s' := by
  change EStateM.bind x f s = _ at h
  unfold EStateM.bind at h
  cases hr : x s with
  | ok a t =>
    rw [hr] at h
    exact ⟨a, t, rfl, h⟩
  | error e t =>
    rw [hr] at h
    cases h

theorem of_map_ok {g : α → β} {b : β} {s' : σ} (h : (x >>= fun a => pure (g a)) s = .ok b s') :
    ∃ a, b = g a := by
  obtain ⟨a, t, -, hpure⟩ := of_bind_ok h
  exact ⟨a, (EStateM.Result.ok.inj hpure).1.symm⟩

theorem bind_of_ok {a : α} {t : σ} (h : x s = .ok a t) : (x >>= f) s = f a t := by
  simp only [bind, EStateM.bind, h]

theorem bind_of_error {e : ε} {t : σ} (h : x s = .error e t) : (x >>= f) s = .error e t := by
  simp only [bind, EStateM.bind, h]

theorem Reads.atomic (h : Reads x) (s : σ) : Atomic x s := by
  intro e s' hx
  have hs := h s
  rw [hx] at hs
  exact hs

theorem Reads.eq_of_ok {a : α} {s' : σ} (h : Reads x) (hx : x s = .ok a s') : s' = s := by
  have hs := h s
  rw [hx] at hs
  exact hs

theorem Succeeds.atomic (h : Succeeds x s) : Atomic x s := by
  intro e s' hx
  obtain ⟨a, s'', hok⟩ := h
  rw [hok] at hx
  cases hx

/-- An action that looks first is atomic if what comes then is. -/
theorem Atomic.bind (hx : Reads x) (hf : ∀ a, x s = .ok a s → Atomic (f a) s) :
    Atomic (x >>= f) s := by
  intro e s' h
  have hs := hx s
  change EStateM.bind x f s = _ at h
  unfold EStateM.bind at h
  cases hr : x s with
  | ok a t =>
    rw [hr] at h hs
    obtain rfl : t = s := hs
    exact hf a hr e s' h
  | error e' t =>
    rw [hr] at h hs
    cases h
    exact hs

end DosMonitor
