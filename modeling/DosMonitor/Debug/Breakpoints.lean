/-!
# Breakpoints

The addresses at which the debugger stops, in increasing order and each once.
-/

namespace DosMonitor

/-- A set of addresses, listed in increasing order. -/
abbrev Breakpoints := List UInt16

namespace Breakpoints

def insert (address : UInt16) : Breakpoints → Breakpoints
  | [] => [address]
  | a :: rest =>
    if address < a then address :: a :: rest
    else if address = a then a :: rest
    else a :: insert address rest

def erase (address : UInt16) (bps : Breakpoints) : Breakpoints :=
  bps.filter (· != address)

end Breakpoints

end DosMonitor
