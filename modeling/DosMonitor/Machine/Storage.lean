import DosMonitor.Machine.State

/-!
# Registers, memory and disk from outside

What the monitor's commands do to registers, to the active page and to the disk, without running an
instruction. Ranges are checked as a whole before anything is written.
-/

namespace DosMonitor.Machine

/-- Stores a value into the register that a text names. The change report starts anew before the name
is looked up. -/
def setRegister (name : String) (value : Nat) : MachineM Unit := do
  setRegisters RegisterFile.commit
  match Register.ofText name with
  | .ok r => setRegisters (·.set r value)
  | .error e => throw (.exec e)

def setActivePage (page : Nat) : MachineM Unit := do
  onMemory (Memory.setActivePage page)
  modify fun m => { m with config := { m.config with activePage := page } }

/-- Copies bytes of the active page to the disk. Gives their number. -/
def writeToDisk (address first count : Nat) : MachineM Nat := do
  let m ← get
  ofDisk (m.disk.checkSectors first count)
  let stop ← ofMemory (Memory.rangeEnd address count)
  let bytes ← ofMemory (m.memory.block address stop)
  onDisk (Disk.writeEach first bytes)
  return count

/-- Copies sectors of the disk to the active page. Gives their number. -/
def readFromDisk (address first count : Nat) : MachineM Nat := do
  let m ← get
  ofDisk (m.disk.checkSectors first count)
  let stop ← ofMemory (Memory.rangeEnd address count)
  ofMemory (Memory.checkRange address stop)
  let bytes := m.disk.sectors first (first + count)
  onMemory (Memory.writeActive address bytes)
  return count

end DosMonitor.Machine
