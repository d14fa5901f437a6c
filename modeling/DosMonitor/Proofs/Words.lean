import Mathlib
import DosMonitor.Machine.Storage
import DosMonitor.Proofs.Atomicity

/-!
# Numbers of 64 bits

Positions, lengths and sectors are numbers of 64 bits, and a list has only so many elements. `WordM` carries
out actions with account of this: a sum or product that does not fit into 64 bits, a difference below
zero, an element or a part that a list does not have is a trap (`Stop.trap`).

Main statements: an action on words `Realizes` an action on numbers if from the given state it comes to
the same and so does not trap. The relation is closed under sequencing (`Realizes.bind`), and a step on
words alone is passed over when it does not trap (`Realizes.step`).
-/

namespace DosMonitor

variable {ε σ α β : Type}

/-- Why an operation on words stops. -/
inductive Stop (ε : Type)
  | refused (e : ε)
  /-- A number or a position has left its range. -/
  | trap

/-- An action that may be refused or trap. -/
abbrev WordM (ε σ : Type) := EStateM (Stop ε) σ

/-- The same ending for an action that may also trap. -/
def refusing : EStateM.Result ε σ α → EStateM.Result (Stop ε) σ α
  | .ok a s => .ok a s
  | .error e s => .error (.refused e) s

theorem refusing_ne_trap (r : EStateM.Result ε σ α) (s : σ) : refusing r ≠ .error .trap s := by
  cases r <;> simp [refusing]

/-- From this state an action on words comes to what an action on numbers comes to. It does not trap. -/
def Realizes (x : WordM ε σ α) (y : EStateM ε σ α) (s : σ) : Prop :=
  x s = refusing (y s)

namespace Words

/-- An action of which no number and no position can leave its range. -/
def lift (y : EStateM ε σ α) : WordM ε σ α :=
  fun s => refusing (y s)

/-- A value that there has to be. -/
def require : Option α → WordM ε σ α
  | some a => pure a
  | none => throw .trap

/-- The sum, if it fits. -/
def sum? (a b : Nat) : Option Nat :=
  if a + b < Text.wordLimit then some (a + b) else none

def add (a b : Nat) : WordM ε σ Nat :=
  require (sum? a b)

def mul (a b : Nat) : WordM ε σ Nat :=
  require (if a * b < Text.wordLimit then some (a * b) else none)

def sub (a b : Nat) : WordM ε σ Nat :=
  require (if b ≤ a then some (a - b) else none)

def cell (xs : Array α) (i : Nat) : WordM ε σ α :=
  require xs[i]?

def slice (xs : Array α) (start stop : Nat) : WordM ε σ (List α) :=
  require (if start ≤ stop ∧ stop ≤ xs.size then some (xs.extract start stop).toList else none)

/-- All parts of a length, in order. -/
def windowsOf (length : Nat) (xs : List α) : List (List α) :=
  (List.range (xs.length + 1 - length)).map fun i => (xs.drop i).take length

def windows (length : Nat) (xs : List α) : WordM ε σ (List (List α)) :=
  require (if 0 < length then some (windowsOf length xs) else none)

/-- The word as a signed number: words with the highest bit set stand for negative ones. -/
def signed (n : Nat) : Int :=
  if n < 2 ^ 63 then n else (n : Int) - 2 ^ 64

variable {s : σ}

theorem require_some (a : α) : (require (some a) : WordM ε σ α) s = .ok a s := rfl

theorem add_ok {a b : Nat} (h : a + b < Text.wordLimit) :
    (add a b : WordM ε σ Nat) s = .ok (a + b) s := by
  rw [add, sum?, if_pos h, require_some]

theorem mul_ok {a b : Nat} (h : a * b < Text.wordLimit) :
    (mul a b : WordM ε σ Nat) s = .ok (a * b) s := by
  rw [mul, if_pos h, require_some]

theorem sub_ok {a b : Nat} (h : b ≤ a) : (sub a b : WordM ε σ Nat) s = .ok (a - b) s := by
  rw [sub, if_pos h, require_some]

theorem cell_ok {xs : Array α} {i : Nat} {a : α} (h : xs[i]? = some a) :
    (cell xs i : WordM ε σ α) s = .ok a s := by
  rw [cell, h, require_some]

theorem slice_ok {xs : Array α} {start stop : Nat} (h : start ≤ stop) (h' : stop ≤ xs.size) :
    (slice xs start stop : WordM ε σ (List α)) s = .ok (xs.extract start stop).toList s := by
  rw [slice, if_pos ⟨h, h'⟩, require_some]

theorem windows_ok {length : Nat} {xs : List α} (h : 0 < length) :
    (windows length xs : WordM ε σ (List (List α))) s = .ok (windowsOf length xs) s := by
  rw [windows, if_pos h, require_some]

theorem signed_of_lt {n : Nat} (h : n < 2 ^ 63) : signed n = n :=
  if_pos h

end Words

/-! ## Realization -/

namespace Realizes

variable {x : WordM ε σ α} {y : EStateM ε σ α} {f : α → WordM ε σ β} {g : α → EStateM ε σ β} {s : σ}

theorem lift (y : EStateM ε σ α) (s : σ) : Realizes (Words.lift y) y s := rfl

theorem pure (a : α) (s : σ) :
    Realizes (Pure.pure a : WordM ε σ α) (Pure.pure a : EStateM ε σ α) s := rfl

theorem bind (hx : Realizes x y s) (hf : ∀ a t, y s = .ok a t → Realizes (f a) (g a) t) :
    Realizes (x >>= f) (y >>= g) s := by
  change EStateM.bind x f s = refusing (EStateM.bind y g s)
  unfold Realizes at hx
  unfold EStateM.bind
  rw [hx]
  cases hy : y s with
  | ok a t => exact hf a t hy
  | error e t => rfl

theorem map (g : α → β) (hx : Realizes x y s) :
    Realizes (x >>= fun a => Pure.pure (g a)) (y >>= fun a => Pure.pure (g a)) s :=
  bind hx fun a t _ => pure (g a) t

/-- An action on numbers that looks at the state before all else. -/
theorem look {look : σ → EStateM ε σ α} (g : α → β) (hx : Realizes x (look s) s) :
    Realizes (x >>= fun a => Pure.pure (g a))
      (MonadState.get >>= fun s => look s >>= fun a => Pure.pure (g a)) s :=
  map g hx

/-- A step that is not refused and leaves the state alone is no step of the action on numbers. -/
theorem step {z : EStateM ε σ β} {a : α} (hx : x s = .ok a s) (hf : Realizes (f a) z s) :
    Realizes (x >>= f) z s := by
  unfold Realizes
  rw [bind_of_ok hx]
  exact hf

theorem refuse (e : ε) (s : σ) :
    Realizes (throw (.refused e) : WordM ε σ α) (throw e : EStateM ε σ α) s := rfl

theorem mapM_ok {f : α → WordM ε σ β} {g : α → β} {xs : List α}
    (h : ∀ a ∈ xs, f a s = .ok (g a) s) : xs.mapM f s = .ok (xs.map g) s := by
  induction xs with
  | nil => rfl
  | cons a xs ih =>
    have hfirst := h a List.mem_cons_self
    have hrest := ih fun b hb => h b (List.mem_cons_of_mem _ hb)
    rw [List.mapM_cons, bind_of_ok hfirst, bind_of_ok hrest]
    rfl

end Realizes

end DosMonitor
