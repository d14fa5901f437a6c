import DosMonitor.Memory.Bus

/-!
# A bus that keeps a log

`Logged β` passes every access on to a bus `β` and notes each one that was accepted, in order. It is
put in front of memory for the time of one instruction while tracing is on.
-/

namespace DosMonitor

inductive Direction
  | read | write
  deriving DecidableEq, Repr

/-- One byte read or written. -/
structure Access where
  direction : Direction
  page : Nat
  address : Nat
  value : UInt8
  deriving DecidableEq, Repr

/-- The access as it is shown in traces, for instance `W[p0:0200]=48`. -/
def Access.text (a : Access) : String :=
  let letter := match a.direction with
    | .read => "R"
    | .write => "W"
  s!"{letter}[p{a.page}:{Text.hex 4 a.address}]={Text.hex 2 a.value.toNat}"

/-- A bus and the accesses it has accepted. -/
structure Logged (β : Type) where
  inner : β
  log : Array Access

namespace Logged

variable {β : Type}

def start (bus : β) : Logged β :=
  ⟨bus, #[]⟩

/-- Passes an action on and, if it succeeds, notes the access. -/
@[inline] def record {α : Type} (action : BusM β α) (access : α → Access) :
    BusM (Logged β) α
  | ⟨inner, log⟩ =>
    match action inner with
    | .ok a inner => .ok a ⟨inner, log.push (access a)⟩
    | .error e inner => .error e ⟨inner, log⟩

variable [Bus β]

instance : Bus (Logged β) where
  pageCount bus := Bus.pageCount bus.inner
  activePage bus := Bus.activePage bus.inner
  peek page address := record (Bus.peek page address) fun b => ⟨.read, page, address, b⟩
  poke page address value :=
    record (Bus.poke page address value) fun _ => ⟨.write, page, address, UInt8.ofNat value⟩

end Logged

end DosMonitor
