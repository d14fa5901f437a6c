import DosMonitor.Execution.Context

/-!
# Interrupts

Interrupt 21h offers three services, chosen by the high byte of AX: 09h prints a string that ends in
`$`, 0Ah reads a line into a buffer, 4Ch ends the program. Strings and buffers lie on the active page,
at the address 16 · DS + DX.

The read loop of 09h goes no further than the end of the page, and 0Ah asks for the whole buffer to
lie in the page before it takes a line.
-/

namespace DosMonitor.Execution

open Exec

/-- The address that DS and DX name together. -/
def linearAddress (rf : RegisterFile) : Nat :=
  (rf.get .ds).toNat * 16 + (rf.get .dx).toNat

variable {β : Type}

/-- The address that DS and DX name, as long as it lies in a page. -/
def dosAddress : Exec β Nat := do
  let address := linearAddress (← registers)
  if pageSize ≤ address then throw (.memory (.invalidAddress address))
  return address

/-- The byte that ends a string to print. -/
def dollar : UInt8 := 0x24

variable [Bus β]

/-- The bytes from an address to the next dollar sign, behind those in `found`. `room` is what is left
of the page. -/
@[specialize] def readString (page : Nat) :
    (room address : Nat) → (found : Array UInt8) → BusM β (Array UInt8)
  | 0, address, _ => throw (.invalidAddress address)
  | room + 1, address, found => do
    let b ← Bus.peek page address
    if b = dollar then return found
    readString page room (address + 1) (found.push b)

/-- Service 09h: prints the string at DS:DX. -/
@[specialize] def printString : Exec β Outcome := do
  let address ← dosAddress
  let text ← onBus do
    let page := Bus.activePage (← get)
    readString page (pageSize - address) address #[]
  print text.toList
  return .proceed

/-- Service 0Ah: the byte at DS:DX says how many bytes may be read; their number is written behind
it, then the bytes, then a zero. -/
@[specialize] def readBuffer : Exec β Outcome := do
  let buffer ← dosAddress
  let (page, limit) ← onBus do
    let page := Bus.activePage (← get)
    let limit ← Bus.peek page buffer
    return (page, limit.toNat)
  if pageSize ≤ buffer + 2 + limit then throw (.memory (.overflow buffer (limit + 3)))
  let line ← readLine
  let bytes := (Text.bytes line).take limit
  onBus do
    Bus.poke page (buffer + 1) bytes.length
    Bus.pokeBytes page (buffer + 2) bytes
    Bus.poke page (buffer + 2 + bytes.length) 0
  return .proceed

/-- The services of interrupt 21h. -/
@[specialize] def dosService : Exec β Outcome := do
  let rf ← registers
  let service := rf.high .ax
  match service with
  | 0x09 => printString
  | 0x0A => readBuffer
  | 0x4C => return .exit (rf.low .ax)
  | _ => throw (.exec (.unsupportedService service))

/-- The interrupt unit. It leaves an instruction of any other opcode alone. -/
@[specialize] def interrupt (i : Instruction) : Exec β Outcome := do
  match i.opcode with
  | .int =>
    let vector ← ofExcept (i.source (← registers) 0)
    if vector = 0x21 then dosService else throw (.exec (.unsupportedInterrupt vector))
  | _ => return .proceed

end DosMonitor.Execution
