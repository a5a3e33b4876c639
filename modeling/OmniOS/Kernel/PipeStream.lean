import OmniOS.Kernel.Pipe

/-!
# OmniOS.Kernel.PipeStream — a pipe is a reliable bounded byte stream

1. **The stream.** Seen from outside, a pipe is a list of bytes waiting to be
   read, of length at most 4095: the ring keeps one slot free.
2. **Calls.** Each copy loop does to the ring what its call does to the stream,
   wherever the ends are (`writeLoop_refines`, `readLoop_refines`).
3. **Runs.** What was accepted is what was returned, followed by the stream.
-/

namespace OmniOS.Ipc

/-! ## The stream -/

/-- A bounded byte stream with its two ends. -/
structure Stream where
  data : List UInt8
  readOpen : Bool
  writeOpen : Bool

/-- How many of `len` bytes are accepted. -/
def Stream.room (s : Stream) (len : Nat) : Nat := min len (4095 - s.data.length)

def Stream.write (s : Stream) (bytes : List UInt8) : Stream :=
  { s with data := s.data ++ bytes.take (s.room bytes.length) }

def Stream.read (s : Stream) (maxlen : Nat) : Stream :=
  { s with data := s.data.drop maxlen }

/-- The stream a pipe stands for. -/
def Pipe.stream (pipe : Pipe) : Stream where
  data := Ring.between pipe.buf pipe.tail pipe.head
  readOpen := pipe.readOpen
  writeOpen := pipe.writeOpen

theorem length_stream_le (pipe : Pipe) : pipe.stream.data.length ≤ 4095 :=
  Nat.le_of_lt_succ (Ring.length_between_lt _ _ _)

/-- The counts fit in an `int`. -/
theorem toInt_ofNat_of_le {n : Nat} (h : n ≤ 4095) : (Int32.ofNat n).toInt = n :=
  Int32.toInt_ofNat_of_lt (by omega)

theorem Stream.room_le (s : Stream) (len : Nat) : s.room len ≤ 4095 := by
  unfold Stream.room
  omega

/-! ## The copy loops -/

/-- Full is exactly 4095 bytes: a slot is always left over. -/
theorem writeLoop_refines (data : List UInt8) (pipe : Pipe) (written : Nat) :
    ∃ pipe', writeLoop data pipe written = (written + pipe.stream.room data.length, pipe') ∧
      pipe'.stream = pipe.stream.write data ∧ pipe'.inUse = pipe.inUse := by
  induction data generalizing pipe written with
  | nil =>
      refine ⟨pipe, ?_, ?_, rfl⟩
      · simp [writeLoop, Stream.room]
      · simp [Stream.write]
  | cons b data ih =>
      unfold writeLoop
      by_cases hfull : pipe.head + 1 = pipe.tail
      · -- the buffer is full: nothing is accepted from here on
        have hlen : pipe.stream.data.length = 4095 := Ring.length_between_full _ hfull
        have hroom : pipe.stream.room (b :: data).length = 0 := by
          rw [Stream.room, hlen]
          omega
        refine ⟨pipe, ?_, ?_, rfl⟩
        · rw [hroom]
          exact if_pos hfull
        · rw [Stream.write, hroom, List.take_zero, List.append_nil]
      · -- one byte goes in, and the rest follows
        let pipe₁ : Pipe :=
          { pipe with buf := Function.update pipe.buf pipe.head b, head := pipe.head + 1 }
        have hdata : pipe₁.stream.data = pipe.stream.data ++ [b] := Ring.between_push _ b hfull
        have hlen : pipe₁.stream.data.length = pipe.stream.data.length + 1 := by
          rw [hdata, List.length_append]
          rfl
        have hle := length_stream_le pipe₁
        have hroom : pipe.stream.room (b :: data).length = pipe₁.stream.room data.length + 1 := by
          rw [Stream.room, Stream.room, List.length_cons]
          omega
        rcases ih pipe₁ (written + 1) with ⟨pipe', hloop, hstream, huse⟩
        refine ⟨pipe', ?_, ?_, huse⟩
        · have hcount : written + pipe.stream.room (b :: data).length =
              written + 1 + pipe₁.stream.room data.length := by omega
          rw [hcount]
          exact (if_neg hfull).trans hloop
        · rw [hstream, Stream.write, Stream.write, hroom, hdata, List.append_assoc]
          rfl

theorem readLoop_refines (n : Nat) (pipe : Pipe) (out : List UInt8) :
    ∃ pipe', readLoop n pipe out = (out ++ pipe.stream.data.take n, pipe') ∧
      pipe'.stream = pipe.stream.read n ∧ pipe'.inUse = pipe.inUse := by
  induction n generalizing pipe out with
  | zero =>
      refine ⟨pipe, ?_, rfl, rfl⟩
      simp [readLoop]
  | succ n ih =>
      unfold readLoop
      by_cases hempty : pipe.tail = pipe.head
      · -- nothing is left to read
        have hdata : pipe.stream.data = [] := by
          show Ring.between pipe.buf pipe.tail pipe.head = []
          rw [hempty, Ring.between_self]
        refine ⟨pipe, ?_, ?_, rfl⟩
        · rw [if_pos hempty, hdata, List.take_nil, List.append_nil]
        · rw [Stream.read, hdata, List.drop_nil, ← hdata]
      · -- the byte at the tail is the first one waiting
        let pipe₁ : Pipe := { pipe with tail := pipe.tail + 1 }
        have hdata : pipe.stream.data = pipe.buf pipe.tail :: pipe₁.stream.data :=
          Ring.between_pop _ hempty
        rcases ih pipe₁ (out ++ [pipe.buf pipe.tail]) with ⟨pipe', hloop, hstream, huse⟩
        refine ⟨pipe', ?_, ?_, huse⟩
        · rw [List.append_assoc] at hloop
          rw [hdata, List.take_succ_cons]
          exact (if_neg hempty).trans hloop
        · rw [hstream, Stream.read, Stream.read, hdata, List.drop_succ_cons]
          rfl

/-! ## The calls -/

section Calls

variable {pipes : Pipes} {pipeId : Int32} {i : Fin MAX_PIPES}

theorem lookup_live (hid : pipeIndex pipeId = some i) (hlive : (pipes i).inUse = true) :
    lookup pipes pipeId = some i := by
  rw [lookup, hid, Option.filter_some, if_pos hlive]

theorem lookup_eq_some (h : lookup pipes pipeId = some i) :
    pipeIndex pipeId = some i ∧ (pipes i).inUse = true := by
  rw [lookup, Option.filter_eq_some_iff] at h
  exact h

theorem pipeWrite_open (hid : pipeIndex pipeId = some i) (hlive : (pipes i).inUse = true)
    (hopen : (pipes i).writeOpen = true) (data : List UInt8) :
    ∃ pipe, pipeWrite pipes pipeId data =
        (Int32.ofNat ((pipes i).stream.room data.length), Function.update pipes i pipe) ∧
      pipe.stream = (pipes i).stream.write data ∧ pipe.inUse = true := by
  rcases writeLoop_refines data (pipes i) 0 with ⟨pipe, hloop, hstream, huse⟩
  refine ⟨pipe, ?_, hstream, huse.trans hlive⟩
  simp [pipeWrite, lookup_live hid hlive, hopen, hloop]

theorem pipeWrite_closed (hclosed : (pipes i).writeOpen = false) (hid : pipeIndex pipeId = some i)
    (hlive : (pipes i).inUse = true) (data : List UInt8) :
    pipeWrite pipes pipeId data = (-1, pipes) := by
  simp [pipeWrite, lookup_live hid hlive, hclosed]

theorem pipeRead_open (hid : pipeIndex pipeId = some i) (hlive : (pipes i).inUse = true)
    (hopen : (pipes i).readOpen = true) (maxlen : Nat) :
    ∃ pipe, pipeRead pipes pipeId maxlen =
        (Int32.ofNat ((pipes i).stream.data.take maxlen).length,
          (pipes i).stream.data.take maxlen, Function.update pipes i pipe) ∧
      pipe.stream = (pipes i).stream.read maxlen ∧ pipe.inUse = true := by
  rcases readLoop_refines maxlen (pipes i) [] with ⟨pipe, hloop, hstream, huse⟩
  rw [List.nil_append] at hloop
  refine ⟨pipe, ?_, hstream, huse.trans hlive⟩
  simp only [pipeRead, lookup_live hid hlive, hopen, hloop, Bool.not_true, Bool.false_eq_true,
    if_false]

theorem pipeRead_closed (hclosed : (pipes i).readOpen = false) (hid : pipeIndex pipeId = some i)
    (hlive : (pipes i).inUse = true) (maxlen : Nat) :
    pipeRead pipes pipeId maxlen = (-1, [], pipes) := by
  simp [pipeRead, lookup_live hid hlive, hclosed]

/-- Closing an end touches no data; the pipe lives on while the other end is open. -/
theorem pipeClose_live (hid : pipeIndex pipeId = some i) (hlive : (pipes i).inUse = true)
    (isWrite : Bool) :
    ∃ pipe, pipeClose pipes pipeId isWrite = (0, Function.update pipes i pipe) ∧
      pipe.stream.data = (pipes i).stream.data ∧
      pipe.readOpen = ((pipes i).readOpen && isWrite) ∧
      pipe.writeOpen = ((pipes i).writeOpen && !isWrite) ∧
      pipe.inUse = (pipe.readOpen || pipe.writeOpen) := by
  unfold pipeClose
  rw [lookup_live hid hlive]
  refine ⟨_, rfl, ?_⟩
  cases isWrite <;> cases hr : (pipes i).readOpen <;> cases hw : (pipes i).writeOpen <;>
    simp [hr, hw, hlive, Pipe.stream]

/-! ## What the calls leave alone -/

theorem ne_of_lookup {j : Fin MAX_PIPES} (hne : lookup pipes pipeId ≠ some i)
    (hlook : lookup pipes pipeId = some j) : i ≠ j := by
  rintro rfl
  exact hne hlook

theorem pipeWrite_ne (hne : lookup pipes pipeId ≠ some i) (data : List UInt8) :
    (pipeWrite pipes pipeId data).2 i = pipes i := by
  unfold pipeWrite
  cases hlook : lookup pipes pipeId with
  | none => rfl
  | some j =>
      dsimp only
      split
      · rfl
      · exact Function.update_of_ne (ne_of_lookup hne hlook) _ _

theorem pipeRead_ne (hne : lookup pipes pipeId ≠ some i) (maxlen : Nat) :
    (pipeRead pipes pipeId maxlen).2.2 i = pipes i := by
  unfold pipeRead
  cases hlook : lookup pipes pipeId with
  | none => rfl
  | some j =>
      dsimp only
      split
      · rfl
      · exact Function.update_of_ne (ne_of_lookup hne hlook) _ _

theorem pipeClose_ne (hne : lookup pipes pipeId ≠ some i) (isWrite : Bool) :
    (pipeClose pipes pipeId isWrite).2 i = pipes i := by
  unfold pipeClose
  cases hlook : lookup pipes pipeId with
  | none => rfl
  | some j =>
      exact Function.update_of_ne (ne_of_lookup hne hlook) _ _

theorem freePipe_not_inUse (h : freePipe pipes = some i) : (pipes i).inUse = false := by
  have hfree := List.find?_some h
  simpa using hfree

/-- A pipe in use is left alone by `pipe_create`; another one may start, empty. -/
theorem pipeCreate_pipes (pipes : Pipes) (proc : Option Fds) (readFd writeFd : Option Int32)
    (i : Fin MAX_PIPES) :
    (pipeCreate pipes proc readFd writeFd).pipes i = pipes i ∨
    ((pipes i).inUse = false ∧
      (pipeCreate pipes proc readFd writeFd).pipes i =
        { Pipe.zero with inUse := true, readOpen := true, writeOpen := true }) := by
  unfold pipeCreate
  split
  · exact Or.inl rfl
  · cases hfree : freePipe pipes with
    | none => exact Or.inl rfl
    | some j =>
        -- with or without a current process, the pipe is taken
        have htaken : ∀ q : Pipe, Function.update pipes j q i = pipes i ∨
            ((pipes i).inUse = false ∧ Function.update pipes j q i = q) := by
          intro q
          by_cases hij : i = j
          · rw [hij]
            exact Or.inr ⟨freePipe_not_inUse hfree, Function.update_self _ _ _⟩
          · exact Or.inl (Function.update_of_ne hij _ _)
        cases proc with
        | none => exact htaken _
        | some fds => exact htaken _

theorem record_self (hid : pipeIndex pipeId = some i) (log : Fin MAX_PIPES → List UInt8)
    (bytes : List UInt8) : record log pipeId bytes i = log i ++ bytes := by
  simp [record, hid]

theorem record_ne (hne : pipeIndex pipeId ≠ some i) (log : Fin MAX_PIPES → List UInt8)
    (bytes : List UInt8) : record log pipeId bytes i = log i := by
  unfold record
  cases hid : pipeIndex pipeId with
  | none => rfl
  | some j =>
      have hij : i ≠ j := fun heq => hne (hid.trans (congrArg some heq.symm))
      exact Function.update_of_ne hij _ _

end Calls

/-! ## Runs -/

/-- The pipe a call names; `pipe_create` takes one that is not in use. -/
def Op.target : Op → Option (Fin MAX_PIPES)
  | .create _ _ _ => none
  | .write pipeId _ => pipeIndex pipeId
  | .read pipeId _ => pipeIndex pipeId
  | .close pipeId _ => pipeIndex pipeId

/-- What was accepted is what was returned, then the bytes waiting. -/
def Inv (c : Conf) : Prop :=
  ∀ i, (c.pipes i).inUse = true → c.accepted i = c.returned i ++ (c.pipes i).stream.data

section Steps

variable {c : Conf} {i : Fin MAX_PIPES}

/-- Calls on other pipes. -/
theorem step_other (hlive : (c.pipes i).inUse = true) {op : Op} (hother : op.target ≠ some i) :
    (step op c).pipes i = c.pipes i ∧ (step op c).accepted i = c.accepted i ∧
      (step op c).returned i = c.returned i := by
  have hlook : ∀ {pipeId}, pipeIndex pipeId ≠ some i → lookup c.pipes pipeId ≠ some i :=
    fun hne heq => hne (lookup_eq_some heq).1
  cases op with
  | create proc readFd writeFd =>
      -- the pipe was in use, so it is neither taken nor restarted
      have hlog : ∀ after log, restart c.pipes after log i = log i := by
        intro after log
        simp [restart, hlive]
      refine ⟨?_, hlog _ _, hlog _ _⟩
      rcases pipeCreate_pipes c.pipes proc readFd writeFd i with hsame | ⟨hdead, -⟩
      · exact hsame
      · rw [hlive] at hdead
        exact absurd hdead (by decide)
  | write pipeId data => exact ⟨pipeWrite_ne (hlook hother) data, record_ne hother _ _, rfl⟩
  | read pipeId maxlen => exact ⟨pipeRead_ne (hlook hother) maxlen, rfl, record_ne hother _ _⟩
  | close pipeId isWrite => exact ⟨pipeClose_ne (hlook hother) isWrite, rfl, rfl⟩

/-- A pipe that is not in use stays so, or starts with nothing accepted, returned
or waiting. -/
theorem step_dead (hdead : (c.pipes i).inUse = false) (op : Op) :
    ((step op c).pipes i).inUse = false ∨
      ((step op c).accepted i = [] ∧ (step op c).returned i = [] ∧
        ((step op c).pipes i).stream.data = []) := by
  -- only `pipe_create` can bring the pipe to life: the other calls do not find it
  have hlook : ∀ pipeId, lookup c.pipes pipeId ≠ some i := by
    intro pipeId heq
    have hlive := (lookup_eq_some heq).2
    rw [hdead] at hlive
    exact absurd hlive (by decide)
  cases op with
  | create proc readFd writeFd =>
      rcases pipeCreate_pipes c.pipes proc readFd writeFd i with hsame | ⟨-, hnew⟩
      · left
        exact (congrArg Pipe.inUse hsame).trans hdead
      · right
        have hlog : ∀ log, restart c.pipes (pipeCreate c.pipes proc readFd writeFd).pipes log i =
            [] := by
          intro log
          simp [restart, hdead, hnew]
        refine ⟨hlog _, hlog _, ?_⟩
        show ((pipeCreate c.pipes proc readFd writeFd).pipes i).stream.data = []
        rw [hnew]
        exact Ring.between_self _ _
  | write pipeId data =>
      left
      exact (congrArg Pipe.inUse (pipeWrite_ne (hlook pipeId) data)).trans hdead
  | read pipeId maxlen =>
      left
      exact (congrArg Pipe.inUse (pipeRead_ne (hlook pipeId) maxlen)).trans hdead
  | close pipeId isWrite =>
      left
      exact (congrArg Pipe.inUse (pipeClose_ne (hlook pipeId) isWrite)).trans hdead

/-- Calls on the pipe itself. -/
theorem step_target (h : c.accepted i = c.returned i ++ (c.pipes i).stream.data)
    (hlive : (c.pipes i).inUse = true) {op : Op} (htarget : op.target = some i) :
    (step op c).accepted i = (step op c).returned i ++ ((step op c).pipes i).stream.data := by
  cases op with
  | create proc readFd writeFd => exact absurd htarget nofun
  | write pipeId data =>
      cases hopen : (c.pipes i).writeOpen with
      | false =>
          -- the result is -1, so no byte counts as accepted
          simp [step, pipeWrite_closed hopen htarget hlive, record_self htarget, h]
      | true =>
          rcases pipeWrite_open htarget hlive hopen data with ⟨pipe, hwrite, hstream, -⟩
          simp [step, hwrite, record_self htarget, h, hstream, Stream.write,
            toInt_ofNat_of_le (Stream.room_le _ _)]
  | read pipeId maxlen =>
      cases hopen : (c.pipes i).readOpen with
      | false =>
          simp [step, pipeRead_closed hopen htarget hlive, record_self htarget, h]
      | true =>
          -- the bytes returned move from the front of the stream to the log
          rcases pipeRead_open htarget hlive hopen maxlen with ⟨pipe, hread, hstream, -⟩
          simp [step, hread, record_self htarget, h, hstream, Stream.read, List.append_assoc]
  | close pipeId isWrite =>
      rcases pipeClose_live htarget hlive isWrite with ⟨pipe, hclose, hdata, -⟩
      simp [step, hclose, hdata, h]

theorem step_inv (h : Inv c) (op : Op) : Inv (step op c) := by
  intro i hlive'
  cases hlive : (c.pipes i).inUse with
  | false =>
      rcases step_dead hlive op with hdead | ⟨haccepted, hreturned, hdata⟩
      · rw [hdead] at hlive'
        exact absurd hlive' (by decide)
      · -- a new lifetime
        rw [haccepted, hreturned, hdata]
        rfl
  | true =>
      by_cases htarget : op.target = some i
      · exact step_target (h i hlive) hlive htarget
      · rcases step_other hlive htarget with ⟨hpipe, haccepted, hreturned⟩
        rw [hpipe, haccepted, hreturned]
        exact h i hlive

end Steps

theorem reachable_inv {c : Conf} (hreach : Lts.Reachable system c) : Inv c := by
  refine hreach.invariant (I := Inv) ?_ ?_
  · rintro c rfl i _
    exact (Ring.between_self _ _).symm
  · rintro op c c' h rfl
    exact step_inv h op

/-! ## The stream over a lifetime -/

/-- Accepted and not yet returned. -/
def Conf.unread (c : Conf) (i : Fin MAX_PIPES) : List UInt8 :=
  (c.accepted i).drop (c.returned i).length

/-- What the callers of the pipe `i`, named `pipeId`, can rely on. -/
structure Reliable (c : Conf) (pipeId : Int32) (i : Fin MAX_PIPES) : Prop where
  /-- bytes come out in the order they went in, none twice and none left out -/
  in_order : c.returned i <+: c.accepted i
  bounded : (c.unread i).length ≤ 4095
  write : (c.pipes i).writeOpen = true → ∀ data,
    (pipeWrite c.pipes pipeId data).1.toInt =
      (min data.length (4095 - (c.unread i).length) : Nat) ∧
    (step (.write pipeId data) c).accepted i =
      c.accepted i ++ data.take (min data.length (4095 - (c.unread i).length)) ∧
    (step (.write pipeId data) c).returned i = c.returned i
  read : (c.pipes i).readOpen = true → ∀ maxlen,
    (pipeRead c.pipes pipeId maxlen).1.toInt = (min maxlen (c.unread i).length : Nat) ∧
    (pipeRead c.pipes pipeId maxlen).2.1 = (c.unread i).take maxlen ∧
    (step (.read pipeId maxlen) c).returned i = c.returned i ++ (c.unread i).take maxlen ∧
    (step (.read pipeId maxlen) c).accepted i = c.accepted i
  /-- closing the write end alone leaves the pipe and its data to the reader -/
  write_end_closed : (c.pipes i).readOpen = true →
    ((step (.close pipeId true) c).pipes i).inUse = true ∧
    ((step (.close pipeId true) c).pipes i).readOpen = true ∧
    (step (.close pipeId true) c).unread i = c.unread i
  write_refused : (c.pipes i).writeOpen = false → ∀ data,
    pipeWrite c.pipes pipeId data = (-1, c.pipes)
  read_refused : (c.pipes i).readOpen = false → ∀ maxlen,
    pipeRead c.pipes pipeId maxlen = (-1, [], c.pipes)
  others : ∀ op : Op, op.target ≠ some i →
    (step op c).pipes i = c.pipes i ∧ (step op c).accepted i = c.accepted i ∧
      (step op c).returned i = c.returned i

theorem Inv.unread {c : Conf} {i : Fin MAX_PIPES} (h : Inv c) (hlive : (c.pipes i).inUse = true) :
    c.unread i = (c.pipes i).stream.data := by
  rw [Conf.unread, h i hlive, List.drop_left]

/-- From its creation until both ends are closed, whatever calls are made on it
and on other pipes, a pipe is a reliable byte stream bounded by 4095. -/
theorem pipe_reliable {c : Conf} (hreach : Lts.Reachable system c) {pipeId : Int32}
    {i : Fin MAX_PIPES} (hid : pipeIndex pipeId = some i) (hlive : (c.pipes i).inUse = true) :
    Reliable c pipeId i := by
  have h := reachable_inv hreach
  have hunread := h.unread hlive
  constructor
  case in_order => exact ⟨_, (h i hlive).symm⟩
  case bounded =>
    rw [hunread]
    exact length_stream_le _
  case write =>
    intro hopen data
    rw [hunread]
    rcases pipeWrite_open hid hlive hopen data with ⟨pipe, hwrite, -⟩
    have hcount := toInt_ofNat_of_le (Stream.room_le (c.pipes i).stream data.length)
    refine ⟨?_, ?_, rfl⟩
    · rw [hwrite]
      exact hcount
    · simp only [step, hwrite, record_self hid, hcount, Int.toNat_natCast]
      rfl
  case read =>
    intro hopen maxlen
    rw [hunread]
    rcases pipeRead_open hid hlive hopen maxlen with ⟨pipe, hread, -⟩
    have hle : ((c.pipes i).stream.data.take maxlen).length ≤ 4095 := by
      rw [List.length_take]
      have := length_stream_le (c.pipes i)
      omega
    refine ⟨?_, ?_, ?_, rfl⟩
    · rw [hread, toInt_ofNat_of_le hle, List.length_take]
    · rw [hread]
    · simp only [step, hread, record_self hid]
  case write_end_closed =>
    intro hopen
    rcases pipeClose_live hid hlive true with ⟨pipe, hclose, hdata, hread, -, huse⟩
    have hread' : pipe.readOpen = true := by rw [hread, hopen, Bool.and_true]
    have hpipe : (step (.close pipeId true) c).pipes i = pipe := by
      simp only [step, hclose, Function.update_self]
    rw [hpipe, huse, hread', Bool.true_or]
    exact ⟨rfl, rfl, rfl⟩
  case write_refused =>
    intro hclosed
    exact pipeWrite_closed hclosed hid hlive
  case read_refused =>
    intro hclosed
    exact pipeRead_closed hclosed hid hlive
  case others =>
    intro op hother
    exact step_other hlive hother

/-! ### A pipe with two bytes in it -/

/-- A process with no open descriptors. -/
def noFds : Fds := fun _ => ⟨0, 0, 0, 0, false⟩

/-- Pipe 0 is created and two bytes are written to it. -/
def twoBytes : Conf :=
  [Op.create (some noFds) (some 0) (some 0), .write 0 [7, 8]].foldl (fun c op => step op c)
    ⟨pipeInit, fun _ => [], fun _ => []⟩

theorem twoBytes_reachable : Lts.Reachable system twoBytes := by
  have hinit : Lts.Reachable system ⟨pipeInit, fun _ => [], fun _ => []⟩ := Lts.Reachable.init rfl
  exact (hinit.step (a := Op.create (some noFds) (some 0) (some 0)) rfl).step
    (a := Op.write 0 [7, 8]) rfl

theorem pipe_reliable_twoBytes :
    (twoBytes.pipes 0).inUse = true ∧ twoBytes.unread 0 = [7, 8] ∧
    (pipeRead twoBytes.pipes 0 1).2.1 = [7] := by
  have hid : pipeIndex 0 = some 0 := by decide
  have hlive : (twoBytes.pipes 0).inUse = true := by decide
  have hunread : twoBytes.unread 0 = [7, 8] := by decide
  have hread := ((pipe_reliable twoBytes_reachable hid hlive).read (by decide) 1).2.1
  rw [hunread] at hread
  exact ⟨hlive, hunread, hread⟩

/-- `twoBytes` with its write end closed. -/
def writeEndClosed : Conf := step (.close 0 true) twoBytes

/-- The pipe lives on for its reader and has room for one more byte, but
`pipe_write` does not take it. -/
theorem writeEndClosed_refuses :
    Lts.Reachable system writeEndClosed ∧ pipeIndex 0 = some 0 ∧
    (writeEndClosed.pipes 0).inUse = true ∧
    min [9].length (4095 - (writeEndClosed.unread 0).length) = 1 ∧
    (pipeWrite writeEndClosed.pipes 0 [9]).1 = -1 ∧
    (step (.write 0 [9]) writeEndClosed).accepted 0 = writeEndClosed.accepted 0 := by
  refine ⟨twoBytes_reachable.step (a := Op.close 0 true) rfl, ?_, ?_, ?_, ?_, ?_⟩ <;> decide

end OmniOS.Ipc
