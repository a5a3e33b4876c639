import Mathlib.Logic.Equiv.Fin.Basic

/-!
# Pic8259 — the pair of 8259A interrupt controllers of a PC

Each chip has eight lines, the first one the most urgent. A line is requested, masked, in
service; a chip offers the most urgent line that is requested and not masked, unless one at
least as urgent is in service. The second chip asks for service on line 2 of the first.

A byte for the command port with bit 4 set starts an initialization, and the data port then
takes two or three more bytes; otherwise the data port is the mask. Of the other commands
only the end of interrupt without a line number is here: it takes the most urgent line out
of service.
-/

namespace Pic8259

/-! ## One chip -/

/-- What the data port takes next. -/
inductive Phase where
  | mask | icw2 | icw3 | icw4

structure Chip where
  phase : Phase
  /-- ICW1 said that an ICW4 follows. -/
  needsIcw4 : Bool
  /-- ICW1 said that there is no second chip, and so no ICW3. -/
  single : Bool
  /-- ICW2: the vector of line 0. -/
  base : UInt8
  /-- ICW3. -/
  cascade : UInt8
  /-- ICW4. -/
  mode : UInt8
  imr : UInt8
  irr : Fin 8 → Bool
  isr : Fin 8 → Bool

namespace Chip

def masked (c : Chip) (i : Fin 8) : Bool := c.imr.toBitVec.getLsbD i.val

/-- The end of interrupt without a line number. -/
def endOfInterrupt (c : Chip) : Chip :=
  match Fin.find? c.isr with
  | none => c
  | some i => { c with isr := Function.update c.isr i false }

/-- A write to the command port. -/
def command (c : Chip) (v : UInt8) : Chip :=
  if v &&& 0x10 ≠ 0 then
    { c with
      phase := .icw2
      needsIcw4 := v &&& 0x01 != 0
      single := v &&& 0x02 != 0
      imr := 0
      irr := fun _ => false
      isr := fun _ => false }
  else if v = 0x20 then c.endOfInterrupt
  else c

/-- A write to the data port. -/
def data (c : Chip) (v : UInt8) : Chip :=
  match c.phase with
  | .mask => { c with imr := v }
  | .icw2 =>
      { c with
        base := v &&& 0xF8
        phase := if !c.single then .icw3 else if c.needsIcw4 then .icw4 else .mask }
  | .icw3 => { c with cascade := v, phase := if c.needsIcw4 then .icw4 else .mask }
  | .icw4 => { c with mode := v, phase := .mask }

/-- The line a chip offers, with the requests `irr`: the search stops at a line in service. -/
def offer (c : Chip) (irr : Fin 8 → Bool) : Option (Fin 8) :=
  (Fin.find? fun i => c.isr i || (irr i && !c.masked i)).bind fun i =>
    if c.isr i then none else some i

/-- The offered line is accepted. -/
def accept (c : Chip) (i : Fin 8) : Chip :=
  { c with irr := Function.update c.irr i false, isr := Function.update c.isr i true }

def request (c : Chip) (i : Fin 8) : Chip := { c with irr := Function.update c.irr i true }

/-- The vector of a line. -/
def vector (c : Chip) (i : Fin 8) : UInt8 := c.base + UInt8.ofNat i.val

end Chip

/-! ## Two chips -/

theorem cascadeLine_lt : 2 < 8 := by decide

/-- The line of the first chip to which the second one is connected. -/
def cascadeLine : Fin 8 := ⟨2, cascadeLine_lt⟩

structure Pair where
  master : Chip
  slave : Chip

/-- A line of the pair; line 2 of the first chip is taken by the second. -/
inductive Line where
  | master (i : Fin 8)
  | slave (i : Fin 8)
deriving DecidableEq

namespace Pair

def outb (p : Pair) (port : UInt16) (v : UInt8) : Pair :=
  if port = 0x20 then { p with master := p.master.command v }
  else if port = 0x21 then { p with master := p.master.data v }
  else if port = 0xA0 then { p with slave := p.slave.command v }
  else if port = 0xA1 then { p with slave := p.slave.data v }
  else p

/-- Of the ports only the masks are read here. -/
def inb (p : Pair) (port : UInt16) : UInt8 :=
  if port = 0x21 then p.master.imr else if port = 0xA1 then p.slave.imr else 0xFF

def request (p : Pair) : Line → Pair
  | .master i => { p with master := p.master.request i }
  | .slave i => { p with slave := p.slave.request i }

/-- The requests the first chip sees. -/
def requests (p : Pair) (i : Fin 8) : Bool :=
  if i = cascadeLine then (p.slave.offer p.slave.irr).isSome else p.master.irr i

/-- The line the pair offers. -/
def offer (p : Pair) : Option Line :=
  (p.master.offer p.requests).bind fun i =>
    if i = cascadeLine then (p.slave.offer p.slave.irr).map .slave else some (.master i)

/-- The line is accepted. -/
def accept (p : Pair) : Line → Pair
  | .master i => { p with master := p.master.accept i }
  | .slave i => { master := p.master.accept cascadeLine, slave := p.slave.accept i }

/-- The vector of a line, which its own chip supplies. -/
def vector (p : Pair) : Line → UInt8
  | .master i => p.master.vector i
  | .slave i => p.slave.vector i

end Pair

end Pic8259
