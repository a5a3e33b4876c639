import OmniOS.Lib.Lts
import OmniOS.Lib.Ring

/-!
# OmniOS.Kernel.Pipe — the pipes of `kernel/ipc/pipe.c`

A table of byte rings. `head` is where `pipe_write` puts the next byte, `tail`
where `pipe_read` takes the next one, and the ring is empty when they meet.
Every value stored in them is reduced modulo `PIPE_BUF_SIZE` (or zero, from
`memset`), so they are `Fin`s and no access to `buf` is out of bounds.

The `int` flags hold 0 or 1 and are `Bool`. A caller's buffer is the list of the
bytes in it: `data` has the `len` bytes to write.
-/

namespace OmniOS.Ipc

def PIPE_BUF_SIZE : Nat := 4096
def MAX_PIPES : Nat := 64
def MAX_OPEN_FILES : Nat := 128

instance : NeZero PIPE_BUF_SIZE := ⟨by decide⟩
instance : NeZero MAX_PIPES := ⟨by decide⟩

/-- `pipe_t`. -/
structure Pipe where
  buf : Fin PIPE_BUF_SIZE → UInt8
  head : Fin PIPE_BUF_SIZE
  tail : Fin PIPE_BUF_SIZE
  readOpen : Bool
  writeOpen : Bool
  inUse : Bool

/-- The fields of `file_descriptor_t` that `pipe_create` uses. -/
structure FileDescriptor where
  fd : Int32
  type : Int32
  pipeId : Int32
  flags : Int32
  inUse : Bool

/-- `_pipes`. -/
abbrev Pipes := Fin MAX_PIPES → Pipe

/-- The `fds` of a process. -/
abbrev Fds := Fin MAX_OPEN_FILES → FileDescriptor

/-- What `memset(.., 0, sizeof(pipe_t))` leaves. -/
def Pipe.zero : Pipe where
  buf := fun _ => 0
  head := 0
  tail := 0
  readOpen := false
  writeOpen := false
  inUse := false

def pipeInit : Pipes := fun _ => Pipe.zero

/-! ## Creation -/

/-- The first pipe that is not in use. -/
def freePipe (pipes : Pipes) : Option (Fin MAX_PIPES) :=
  (List.finRange MAX_PIPES).find? fun i => !(pipes i).inUse

/-- The descriptor table and `*read_fd`, `*write_fd` in the loop of `pipe_create`. -/
structure FdSearch where
  fds : Fds
  readFd : Int32
  writeFd : Int32

/-- Descriptor `i` becomes an end of the pipe. -/
def claimFd (fds : Fds) (i : Fin MAX_OPEN_FILES) (pipeId : Fin MAX_PIPES) (flags : Int32) : Fds :=
  Function.update fds i
    { fd := Int32.ofNat i.val
      type := 1
      pipeId := Int32.ofNat pipeId.val
      flags := flags
      inUse := true }

/-- `for (int i = 0; i < MAX_OPEN_FILES; i++)`, over the descriptors left. -/
def fdLoop (pipeId : Fin MAX_PIPES) : List (Fin MAX_OPEN_FILES) → FdSearch → FdSearch
  | [], st => st
  | i :: rest, st =>
      if !(st.fds i).inUse then
        if st.readFd < 0 then
          fdLoop pipeId rest
            { st with fds := claimFd st.fds i pipeId 0, readFd := Int32.ofNat i.val }
        else if st.writeFd < 0 then
          fdLoop pipeId rest
            { st with fds := claimFd st.fds i pipeId 1, writeFd := Int32.ofNat i.val }
        else st
      else fdLoop pipeId rest st

/-- What a call of `pipe_create` leaves: its result, the pipes, the descriptors
of the current process and the two variables of the caller. -/
structure Created where
  result : Int32
  pipes : Pipes
  proc : Option Fds
  readFd : Option Int32
  writeFd : Option Int32

/-- `proc` has the descriptors of the current process, `none` if there is none;
`readFd` and `writeFd` are what the pointers point to, `none` for NULL. -/
def pipeCreate (pipes : Pipes) (proc : Option Fds) (readFd writeFd : Option Int32) : Created :=
  if readFd.isNone || writeFd.isNone then ⟨-1, pipes, proc, readFd, writeFd⟩
  else
    match freePipe pipes with
    | none => ⟨-1, pipes, proc, readFd, writeFd⟩
    | some i =>
        let pipes := Function.update pipes i
          { Pipe.zero with inUse := true, readOpen := true, writeOpen := true }
        match proc with
        | none => ⟨-1, pipes, none, readFd, writeFd⟩
        | some fds =>
            let st := fdLoop i (List.finRange MAX_OPEN_FILES) ⟨fds, -1, -1⟩
            ⟨0, pipes, some st.fds, some st.readFd, some st.writeFd⟩

/-! ## Reading and writing -/

/-- `0 <= pipe_id < MAX_PIPES`. -/
def pipeIndex (pipeId : Int32) : Option (Fin MAX_PIPES) :=
  if h : 0 ≤ pipeId.toInt ∧ pipeId.toInt.toNat < MAX_PIPES then some ⟨pipeId.toInt.toNat, h.2⟩
  else none

/-- The test at the start of `pipe_write`, `pipe_read` and `pipe_close`. -/
def lookup (pipes : Pipes) (pipeId : Int32) : Option (Fin MAX_PIPES) :=
  (pipeIndex pipeId).filter fun i => (pipes i).inUse

/-- `while (written < len)`: until the data ends or the buffer is full. -/
def writeLoop : (data : List UInt8) → Pipe → (written : Nat) → Nat × Pipe
  | [], pipe, written => (written, pipe)
  | b :: data, pipe, written =>
      let next := pipe.head + 1
      if next = pipe.tail then (written, pipe)
      else
        writeLoop data
          { pipe with buf := Function.update pipe.buf pipe.head b, head := next } (written + 1)

def pipeWrite (pipes : Pipes) (pipeId : Int32) (data : List UInt8) : Int32 × Pipes :=
  match lookup pipes pipeId with
  | none => (-1, pipes)
  | some i =>
      if !(pipes i).writeOpen then (-1, pipes)
      else
        let (written, pipe) := writeLoop data (pipes i) 0
        (Int32.ofNat written, Function.update pipes i pipe)

/-- `while (read_count < maxlen && pipe->tail != pipe->head)`, `n` rounds to go;
`out` has the bytes read so far. -/
def readLoop : (n : Nat) → Pipe → (out : List UInt8) → List UInt8 × Pipe
  | 0, pipe, out => (out, pipe)
  | n + 1, pipe, out =>
      if pipe.tail = pipe.head then (out, pipe)
      else readLoop n { pipe with tail := pipe.tail + 1 } (out ++ [pipe.buf pipe.tail])

/-- The result, and the bytes put into `buf`. -/
def pipeRead (pipes : Pipes) (pipeId : Int32) (maxlen : Nat) : Int32 × List UInt8 × Pipes :=
  match lookup pipes pipeId with
  | none => (-1, [], pipes)
  | some i =>
      if !(pipes i).readOpen then (-1, [], pipes)
      else
        let (out, pipe) := readLoop maxlen (pipes i) []
        (Int32.ofNat out.length, out, Function.update pipes i pipe)

def pipeClose (pipes : Pipes) (pipeId : Int32) (isWrite : Bool) : Int32 × Pipes :=
  match lookup pipes pipeId with
  | none => (-1, pipes)
  | some i =>
      let pipe := pipes i
      let pipe := if isWrite then { pipe with writeOpen := false }
        else { pipe with readOpen := false }
      let pipe := if !pipe.readOpen && !pipe.writeOpen then { pipe with inUse := false } else pipe
      (0, Function.update pipes i pipe)

/-! ## Runs -/

/-- The pipes and, for each, the bytes accepted and the bytes returned since it
was last created. -/
structure Conf where
  pipes : Pipes
  accepted : Fin MAX_PIPES → List UInt8
  returned : Fin MAX_PIPES → List UInt8

/-- A call; the process it is made in matters for `pipe_create` only. -/
inductive Op where
  | create (proc : Option Fds) (readFd writeFd : Option Int32)
  | write (pipeId : Int32) (data : List UInt8)
  | read (pipeId : Int32) (maxlen : Nat)
  | close (pipeId : Int32) (isWrite : Bool)

/-- A pipe that was not in use and now is starts anew. -/
def restart (before after : Pipes) (log : Fin MAX_PIPES → List UInt8) (i : Fin MAX_PIPES) :
    List UInt8 :=
  if !(before i).inUse && (after i).inUse then [] else log i

def record (log : Fin MAX_PIPES → List UInt8) (pipeId : Int32) (bytes : List UInt8) :
    Fin MAX_PIPES → List UInt8 :=
  match pipeIndex pipeId with
  | none => log
  | some i => Function.update log i (log i ++ bytes)

/-- The bytes accepted are the first ones of `data`, as many as `pipe_write` says. -/
def step : Op → Conf → Conf
  | .create proc readFd writeFd, c =>
      let pipes := (pipeCreate c.pipes proc readFd writeFd).pipes
      { pipes := pipes
        accepted := restart c.pipes pipes c.accepted
        returned := restart c.pipes pipes c.returned }
  | .write pipeId data, c =>
      let (result, pipes) := pipeWrite c.pipes pipeId data
      { c with
        pipes := pipes
        accepted := record c.accepted pipeId (data.take result.toInt.toNat) }
  | .read pipeId maxlen, c =>
      let (_, bytes, pipes) := pipeRead c.pipes pipeId maxlen
      { c with
        pipes := pipes
        returned := record c.returned pipeId bytes }
  | .close pipeId isWrite, c => { c with pipes := (pipeClose c.pipes pipeId isWrite).2 }

/-- Runs from `pipe_init`. -/
def system : Lts.System Conf Op where
  Init := fun c => c = ⟨pipeInit, fun _ => [], fun _ => []⟩
  Next := fun op c c' => c' = step op c

end OmniOS.Ipc
