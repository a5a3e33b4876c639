import Mathlib.Data.List.Induction
import OmniOS.Lib.Ring

/-!
# OmniOS.Kernel.Klog — the kernel log of `kernel/klog.c`

A ring of bytes that overwrites its oldest ones. The abstract log is a queue of at
most `KLOG_SIZE - 1` bytes: writing appends and drops the oldest byte of a full
queue, reading removes from the front.

1. **Model.** The functions of `klog.c`. `head` and `tail` are only ever 0 or
   reduced modulo `KLOG_SIZE`, so they are `Fin`s.
2. **Refinement.** Every function does to `contents` what the queue does
   (`contents_apply`), hence so does every sequence of calls.
-/

namespace OmniOS.Klog

/-! ## Model -/

def KLOG_SIZE : Nat := 32768

instance : NeZero KLOG_SIZE := ⟨by decide⟩

/-- The static variables of `klog.c`. -/
structure State where
  buffer : Fin KLOG_SIZE → UInt8
  head : Fin KLOG_SIZE
  tail : Fin KLOG_SIZE
  initialized : Bool

def klogInit : State := ⟨fun _ => 0, 0, 0, true⟩

/-- The `for` loop of `klog_write`, over the bytes left. -/
def writeLoop : List UInt8 → State → State
  | [], k => k
  | c :: msg, k =>
      let buffer := Function.update k.buffer k.head c
      let head := k.head + 1
      let tail := if head = k.tail then k.tail + 1 else k.tail
      writeLoop msg { k with buffer := buffer, head := head, tail := tail }

/-- `msg` has the `strlen(msg)` bytes before the NUL. -/
def klogWrite (k : State) (msg : List UInt8) : State :=
  if !k.initialized then k
  else if msg.length = 0 then k
  else writeLoop msg k

/-- `__klog_putchar`. -/
def klogPutchar (k : State) (c : UInt8) : State :=
  if !k.initialized then k
  else
    let buffer := Function.update k.buffer k.head c
    let head := k.head + 1
    let tail := if head = k.tail then k.tail + 1 else k.tail
    { k with buffer := buffer, head := head, tail := tail }

/-- The `while` loop of `klog_read`; `room` is `bufsize - 1 - written`. -/
def readLoop : (room written : Nat) → (buf : List UInt8) → State → Nat × List UInt8 × State
  | 0, written, buf, k => (written, buf, k)
  | room + 1, written, buf, k =>
      if k.tail ≠ k.head then
        readLoop room (written + 1) (buf.set written (k.buffer k.tail)) { k with tail := k.tail + 1 }
      else (written, buf, k)

/-- `buf` has the `bufsize` bytes the caller provides, `none` for NULL. -/
def klogRead (k : State) (buf : Option (List UInt8)) : Int32 × Option (List UInt8) × State :=
  match buf with
  | none => (0, none, k)
  | some buf =>
      if !k.initialized || buf.length = 0 then (0, some buf, k)
      else
        let (written, buf, k) := readLoop (buf.length - 1) 0 buf k
        (Int32.ofNat written, some (buf.set written 0), k)

def klogClear (k : State) : State := { k with buffer := fun _ => 0, head := 0, tail := 0 }

inductive Call where
  | write (msg : List UInt8)
  | putchar (c : UInt8)
  | read (buf : Option (List UInt8))
  | clear

def State.apply (k : State) : Call → State
  | .write msg => klogWrite k msg
  | .putchar c => klogPutchar k c
  | .read buf => (klogRead k buf).2.2
  | .clear => klogClear k

/-! ## The log as a queue -/

/-- The bytes from `tail` up to `head`. -/
def State.contents (k : State) : List UInt8 := Ring.between k.buffer k.tail k.head

/-- The calls on a queue of at most `KLOG_SIZE - 1` bytes that drops its oldest. -/
def queueApply (q : List UInt8) : Call → List UInt8
  | .write msg => msg.foldl (Fifo.enqueue (KLOG_SIZE - 1)) q
  | .putchar c => Fifo.enqueue (KLOG_SIZE - 1) q c
  | .read none => q
  | .read (some buf) => q.drop (buf.length - 1)
  | .clear => []

section Refinement

variable {k : State}

theorem klogPutchar_initialized (c : UInt8) : (klogPutchar k c).initialized = k.initialized := by
  unfold klogPutchar
  split <;> rfl

theorem contents_klogPutchar (hk : k.initialized = true) (c : UInt8) :
    (klogPutchar k c).contents = Fifo.enqueue (KLOG_SIZE - 1) k.contents c := by
  simp only [klogPutchar, hk, Bool.not_true, Bool.false_eq_true, if_false]
  exact Ring.between_overwrite k.buffer k.tail k.head c (by decide)

/-- The loop body is `__klog_putchar`, written out again. -/
theorem writeLoop_eq (hk : k.initialized = true) (msg : List UInt8) :
    writeLoop msg k = msg.foldl klogPutchar k := by
  induction msg generalizing k with
  | nil => rfl
  | cons c msg ih =>
      have hbody : klogPutchar k c = { k with
          buffer := Function.update k.buffer k.head c
          head := k.head + 1
          tail := if k.head + 1 = k.tail then k.tail + 1 else k.tail } := by
        simp [klogPutchar, hk]
      rw [List.foldl_cons, hbody, writeLoop]
      exact ih hk

theorem klogWrite_eq (hk : k.initialized = true) (msg : List UInt8) :
    klogWrite k msg = msg.foldl klogPutchar k := by
  unfold klogWrite
  cases msg with
  | nil => simp
  | cons c msg => simp [hk, writeLoop_eq]

theorem foldl_klogPutchar (hk : k.initialized = true) (msg : List UInt8) :
    (msg.foldl klogPutchar k).contents = msg.foldl (Fifo.enqueue (KLOG_SIZE - 1)) k.contents ∧
      (msg.foldl klogPutchar k).initialized = true := by
  induction msg generalizing k with
  | nil => exact ⟨rfl, hk⟩
  | cons c msg ih =>
      have hnext := (klogPutchar_initialized c).trans hk
      rw [List.foldl_cons, List.foldl_cons, ← contents_klogPutchar hk]
      exact ih hnext

/-- The loop copies from the front of the queue behind what it has written, until
the queue is empty or the room is used up. -/
theorem readLoop_eq (room written : Nat) (buf : List UInt8) (hbuf : written + room ≤ buf.length) :
    ∃ tail, readLoop room written buf k =
        (written + min room k.contents.length,
          buf.take written ++ k.contents.take room ++
            buf.drop (written + min room k.contents.length),
          { k with tail := tail }) ∧
      Ring.between k.buffer tail k.head = k.contents.drop room := by
  induction room generalizing written buf k with
  | zero => exact ⟨k.tail, by simp [readLoop], rfl⟩
  | succ room ih =>
      rw [readLoop]
      by_cases hne : k.tail ≠ k.head
      · -- one byte is copied; the rest is what the next turns do
        have hpop : k.contents = k.buffer k.tail :: State.contents { k with tail := k.tail + 1 } :=
          Ring.between_pop k.buffer hne
        obtain ⟨tail, hloop, hrest⟩ := ih (k := { k with tail := k.tail + 1 }) (written + 1)
          (buf.set written (k.buffer k.tail)) (by rw [List.length_set]; omega)
        refine ⟨tail, ?_, ?_⟩
        · have hset : (buf.set written (k.buffer k.tail)).take (written + 1) =
              buf.take written ++ [k.buffer k.tail] := by
            rw [List.take_add_one, List.take_set_of_le (Nat.le_refl _),
              List.getElem?_set_self (by omega)]
            rfl
          have hdrop : ∀ m, (buf.set written (k.buffer k.tail)).drop (written + 1 + m) =
              buf.drop (written + 1 + m) := by
            intro m
            exact List.drop_set_of_lt (by omega)
          have hmin : written + min (room + 1) k.contents.length =
              written + 1 + min room (State.contents { k with tail := k.tail + 1 }).length := by
            rw [hpop, List.length_cons]
            omega
          rw [if_pos hne, hloop, hset, hdrop, hmin, hpop]
          simp
        · rw [hpop, List.drop_succ_cons]
          exact hrest
      · -- nothing is left
        have hempty : k.contents = [] := by
          rw [not_not] at hne
          rw [State.contents, hne, Ring.between_self]
        refine ⟨k.tail, ?_, ?_⟩
        · rw [if_neg hne, hempty]
          simp
        · rw [hempty, List.drop_nil]
          exact hempty

/-- What `klog_read` returns, leaves in the buffer, and leaves in the log. -/
theorem klogRead_eq (hk : k.initialized = true) {buf : List UInt8} (hbuf : buf ≠ []) :
    ∃ tail, klogRead k (some buf) =
        (Int32.ofNat (min (buf.length - 1) k.contents.length),
          some (k.contents.take (buf.length - 1) ++
            0 :: buf.drop (min (buf.length - 1) k.contents.length + 1)),
          { k with tail := tail }) ∧
      State.contents { k with tail := tail } = k.contents.drop (buf.length - 1) := by
  have hpos : 0 < buf.length := List.length_pos_iff.mpr hbuf
  rcases readLoop_eq (k := k) (buf.length - 1) 0 buf (by omega) with ⟨tail, hloop, hrest⟩
  refine ⟨tail, ?_, hrest⟩
  have hin : min (buf.length - 1) k.contents.length < buf.length := by omega
  have hlen : (k.contents.take (buf.length - 1)).length =
      min (buf.length - 1) k.contents.length := List.length_take
  have htail : buf.drop (min (buf.length - 1) k.contents.length) =
      buf[min (buf.length - 1) k.contents.length] ::
        buf.drop (min (buf.length - 1) k.contents.length + 1) :=
    List.drop_eq_getElem_cons hin
  simp only [klogRead, hk, hpos.ne', Bool.not_true, decide_false, Bool.or_self,
    Bool.false_eq_true, if_false, hloop, List.take_zero, List.nil_append, Nat.zero_add]
  rw [htail, List.set_append_right _ _ (Nat.le_of_eq hlen), hlen, Nat.sub_self, List.set_cons_zero]

/-- Each call does to the contents what it does to the queue. -/
theorem contents_apply (hk : k.initialized = true) (call : Call) :
    (k.apply call).contents = queueApply k.contents call ∧ (k.apply call).initialized = true := by
  cases call with
  | write msg =>
      show (klogWrite k msg).contents = _ ∧ (klogWrite k msg).initialized = true
      rw [klogWrite_eq hk]
      exact foldl_klogPutchar hk msg
  | putchar c => exact ⟨contents_klogPutchar hk c, (klogPutchar_initialized c).trans hk⟩
  | read buf =>
      cases buf with
      | none => exact ⟨rfl, hk⟩
      | some buf =>
          by_cases hbuf : buf = []
          · subst hbuf
            have hnothing : klogRead k (some []) = (0, some [], k) := by simp [klogRead]
            show (klogRead k (some [])).2.2.contents = _ ∧ (klogRead k (some [])).2.2.initialized = true
            rw [hnothing]
            exact ⟨rfl, hk⟩
          · rcases klogRead_eq hk hbuf with ⟨tail, hread, hrest⟩
            show (klogRead k (some buf)).2.2.contents = _ ∧
              (klogRead k (some buf)).2.2.initialized = true
            rw [hread]
            exact ⟨hrest, hk⟩
  | clear =>
      constructor
      · exact Ring.between_self _ 0
      · exact hk

end Refinement

/-- The log after `klog_init` and some calls. -/
def logAfter (calls : List Call) : State := calls.foldl State.apply klogInit

/-- The queue after the same calls, empty at the start. -/
def queueAfter (calls : List Call) : List UInt8 := calls.foldl queueApply []

theorem contents_logAfter (calls : List Call) :
    (logAfter calls).contents = queueAfter calls ∧ (logAfter calls).initialized = true := by
  induction calls using List.reverseRecOn with
  | nil =>
      constructor
      · exact Ring.between_self _ 0
      · rfl
  | append_singleton calls call ih =>
      rcases ih with ⟨hcontents, hinit⟩
      rw [logAfter, queueAfter, List.foldl_concat, List.foldl_concat]
      rw [← queueAfter, ← hcontents]
      exact contents_apply hinit call

/-- The kernel log is a drop-oldest queue: after every sequence of calls it holds
what the queue holds, `klog_write` is `__klog_putchar` byte by byte, and `klog_read`
hands over the oldest bytes that fit, with a NUL, and removes those only. Without
room for a NUL it does nothing. -/
theorem klog_keeps_newest (calls : List Call) :
    (logAfter calls).contents = queueAfter calls ∧
    (∀ msg, klogWrite (logAfter calls) msg = msg.foldl klogPutchar (logAfter calls)) ∧
    (∀ buf ≠ [], ∃ after, klogRead (logAfter calls) (some buf) =
        (Int32.ofNat (min (buf.length - 1) (queueAfter calls).length),
          some ((queueAfter calls).take (buf.length - 1) ++
            0 :: buf.drop (min (buf.length - 1) (queueAfter calls).length + 1)), after) ∧
      after.contents = (queueAfter calls).drop (buf.length - 1)) ∧
    (∀ buf, buf = none ∨ buf = some [] →
      klogRead (logAfter calls) buf = (0, buf, logAfter calls)) := by
  rcases contents_logAfter calls with ⟨hcontents, hinit⟩
  refine ⟨hcontents, fun msg => klogWrite_eq hinit msg, ?_, ?_⟩
  · intro buf hbuf
    rcases klogRead_eq hinit hbuf with ⟨tail, hread, hrest⟩
    rw [← hcontents]
    exact ⟨_, hread, hrest⟩
  · rintro buf (rfl | rfl)
    · rfl
    · simp [klogRead]

end OmniOS.Klog
