import OmniOS.Lib.Ring

/-!
# OmniOS.Kernel.InputQueues — the console's and the phone's input queues

`kernel/drivers/tty.c` keeps typed characters and `bsp/sm8250/drivers/input.c` keeps
touch and key events, each in a ring with two ends and one unused slot. A full ring
drops the newest item.

1. **Models.** The functions of the two drivers. The ends start at 0 and are reduced
   modulo the size of the ring, so they are `Fin`s. What the drivers print at start-up
   is left out.
2. **Queues.** Both rings are queues in the sense of `Fifo.IsQueue`. A call has accepted
   its item when it has moved the head.
-/

namespace OmniOS.Tty

/-! ## The console -/

def TTY_BUF_SIZE : Nat := 4096

instance : NeZero TTY_BUF_SIZE := ⟨by decide⟩

/-- `_console_tty`, with the characters `putchar` has printed. -/
structure State where
  initialized : Bool
  inputBuf : Fin TTY_BUF_SIZE → UInt8
  inputHead : Fin TTY_BUF_SIZE
  inputTail : Fin TTY_BUF_SIZE
  echo : Bool
  lineBuffer : Bool
  printed : List UInt8

def ttyInit (printed : List UInt8) : State where
  initialized := true
  inputBuf := fun _ => 0
  inputHead := 0
  inputTail := 0
  echo := true
  lineBuffer := true
  printed := printed

def ttyPutchar (tty : State) (c : UInt8) : State := { tty with printed := tty.printed ++ [c] }

def ttyInputPut (tty : State) (c : UInt8) : State :=
  if !tty.initialized then tty
  else
    let next := tty.inputHead + 1
    if next = tty.inputTail then tty
    else
      let tty :=
        { tty with inputBuf := Function.update tty.inputBuf tty.inputHead c, inputHead := next }
      if tty.echo then ttyPutchar tty c else tty

/-- The character goes to `*c` with result 1; `none` is result 0. -/
def ttyInputGet (tty : State) : Option UInt8 × State :=
  if tty.inputTail = tty.inputHead then (none, tty)
  else (some (tty.inputBuf tty.inputTail), { tty with inputTail := tty.inputTail + 1 })

/-- The console as a device to put characters in and get them out. -/
def device : Fifo.Device State UInt8 UInt8 where
  put := ttyInputPut
  accepts := fun tty c => (ttyInputPut tty c).inputHead ≠ tty.inputHead
  item := id
  get := ttyInputGet

def State.ends (tty : State) : Ring.Ends UInt8 TTY_BUF_SIZE :=
  ⟨tty.inputBuf, tty.inputHead, tty.inputTail⟩

/-- The echo touches only the screen. -/
theorem ttyInputPut_eq {tty : State} (c : UInt8) (hinit : tty.initialized = true) :
    (ttyInputPut tty c).initialized = true ∧ (ttyInputPut tty c).ends = tty.ends.push c := by
  unfold ttyInputPut Ring.Ends.push
  rw [hinit]
  by_cases hfull : tty.inputHead + 1 = tty.inputTail
  · simp [hfull, hinit, State.ends]
  · by_cases hecho : tty.echo = true
    · simp [hfull, hecho, State.ends, ttyPutchar]
    · simp [hfull, hecho, State.ends]

theorem ttyInputGet_eq {tty : State} (hinit : tty.initialized = true) :
    (ttyInputGet tty).2.initialized = true ∧
      ((ttyInputGet tty).1, (ttyInputGet tty).2.ends) = tty.ends.pop := by
  unfold ttyInputGet Ring.Ends.pop
  by_cases hempty : tty.inputTail = tty.inputHead
  · simp [hempty, hinit, State.ends]
  · simp [hempty, hinit, State.ends]

theorem isQueue : Fifo.IsQueue device (TTY_BUF_SIZE - 1) (fun tty => tty.ends.contents)
    (fun tty => tty.initialized = true) := by
  apply Ring.Ends.isQueue State.ends
  · decide
  · intro tty c
    exact decide_eq_true_iff
  · intro tty c hinit
    exact ttyInputPut_eq c hinit
  · intro tty hinit
    exact ttyInputGet_eq hinit

end OmniOS.Tty

namespace OmniOS.Input

/-! ## Touch and key events -/

def MAX_EVENTS : Nat := 256

instance : NeZero MAX_EVENTS := ⟨by decide⟩

def INPUT_TOUCH_DOWN : Int32 := 1
def INPUT_TOUCH_UP : Int32 := 3
def INPUT_KEY_DOWN : UInt32 := 4
def INPUT_KEY_UP : UInt32 := 5

/-- `input_event_t`. -/
structure Event where
  type : UInt32
  code : UInt32
  x : Int32
  y : Int32
  value : Int32
  timestamp : UInt64
deriving DecidableEq

/-- The static variables of `input.c`. -/
structure State where
  eventQueue : Fin MAX_EVENTS → Event
  eventHead : Fin MAX_EVENTS
  eventTail : Fin MAX_EVENTS
  inputReady : Bool

/-- The static variables before the first call. -/
def boot : State where
  eventQueue := fun _ => ⟨0, 0, 0, 0, 0, 0⟩
  eventHead := 0
  eventTail := 0
  inputReady := false

def inputInit (s : State) : State := { s with inputReady := true }

def pushEvent (s : State) (ev : Event) : State :=
  let next := s.eventHead + 1
  if next = s.eventTail then s
  else { s with eventQueue := Function.update s.eventQueue s.eventHead ev, eventHead := next }

/-- The event goes to `*ev` with result 1; `none` is result 0. -/
def inputReadEvent (s : State) : Option Event × State :=
  if s.eventTail = s.eventHead then (none, s)
  else (some (s.eventQueue s.eventTail), { s with eventTail := s.eventTail + 1 })

/-- The event `input_touch_event` fills in. -/
def touchEvent (type x y : Int32) : Event where
  type := type.toUInt32
  code := 0
  x := x
  y := y
  value := if type = INPUT_TOUCH_DOWN then 1 else if type = INPUT_TOUCH_UP then 0 else 0
  timestamp := 0

def inputTouchEvent (s : State) (type x y : Int32) : State :=
  if !s.inputReady then s else pushEvent s (touchEvent type x y)

/-- The event `input_key_event` fills in. -/
def keyEvent (keycode down : Int32) : Event where
  type := if down ≠ 0 then INPUT_KEY_DOWN else INPUT_KEY_UP
  code := keycode.toUInt32
  x := 0
  y := 0
  value := if down ≠ 0 then 1 else 0
  timestamp := 0

def inputKeyEvent (s : State) (keycode down : Int32) : State :=
  if !s.inputReady then s else pushEvent s (keyEvent keycode down)

/-- `pmicSts` is what the PMIC's status register reads. -/
def inputCheckButtons (s : State) (pmicSts : UInt32) : State :=
  let s := if pmicSts &&& 0x01 ≠ 0 then inputKeyEvent s 116 1 else s
  let s := if pmicSts &&& 0x02 ≠ 0 then inputKeyEvent s 114 1 else s
  if pmicSts &&& 0x04 ≠ 0 then inputKeyEvent s 115 1 else s

def inputPoll (s : State) (pmicSts : UInt32) : Int32 × State :=
  let s := inputCheckButtons s pmicSts
  (if s.eventHead ≠ s.eventTail then 1 else 0, s)

/-- The calls that push an event. -/
inductive Post where
  | touch (type x y : Int32)
  | key (keycode down : Int32)

def Post.event : Post → Event
  | .touch type x y => touchEvent type x y
  | .key keycode down => keyEvent keycode down

def post (s : State) : Post → State
  | .touch type x y => inputTouchEvent s type x y
  | .key keycode down => inputKeyEvent s keycode down

/-- The event queue as a device to post events to and read them from. -/
def device : Fifo.Device State Post Event where
  put := post
  accepts := fun s p => (post s p).eventHead ≠ s.eventHead
  item := Post.event
  get := inputReadEvent

def State.ends (s : State) : Ring.Ends Event MAX_EVENTS :=
  ⟨s.eventQueue, s.eventHead, s.eventTail⟩

theorem pushEvent_eq {s : State} (ev : Event) (hready : s.inputReady = true) :
    (pushEvent s ev).inputReady = true ∧ (pushEvent s ev).ends = s.ends.push ev := by
  unfold pushEvent Ring.Ends.push
  by_cases hfull : s.eventHead + 1 = s.eventTail
  · simp [hfull, hready, State.ends]
  · simp [hfull, hready, State.ends]

theorem post_eq {s : State} (p : Post) (hready : s.inputReady = true) :
    post s p = pushEvent s p.event := by
  cases p with
  | touch type x y => simp [post, inputTouchEvent, hready, Post.event]
  | key keycode down => simp [post, inputKeyEvent, hready, Post.event]

theorem inputReadEvent_eq {s : State} (hready : s.inputReady = true) :
    (inputReadEvent s).2.inputReady = true ∧
      ((inputReadEvent s).1, (inputReadEvent s).2.ends) = s.ends.pop := by
  unfold inputReadEvent Ring.Ends.pop
  by_cases hempty : s.eventTail = s.eventHead
  · simp [hempty, hready, State.ends]
  · simp [hempty, hready, State.ends]

theorem isQueue : Fifo.IsQueue device (MAX_EVENTS - 1) (fun s => s.ends.contents)
    (fun s => s.inputReady = true) := by
  apply Ring.Ends.isQueue State.ends
  · decide
  · intro s p
    exact decide_eq_true_iff
  · intro s p hready
    show (post s p).inputReady = true ∧ (post s p).ends = s.ends.push p.event
    rw [post_eq p hready]
    exact pushEvent_eq p.event hready
  · intro s hready
    exact inputReadEvent_eq hready

theorem inputKeyEvent_eventTail (s : State) (keycode down : Int32) :
    (inputKeyEvent s keycode down).eventTail = s.eventTail := by
  unfold inputKeyEvent pushEvent
  split
  · rfl
  · dsimp only
    split
    · rfl
    · rfl

theorem inputCheckButtons_eventTail (s : State) (pmicSts : UInt32) :
    (inputCheckButtons s pmicSts).eventTail = s.eventTail := by
  unfold inputCheckButtons
  dsimp only
  split_ifs <;> simp only [inputKeyEvent_eventTail]

/-- A poll that adds no event compares the ends it found. -/
theorem inputPoll_ne_zero_iff {s : State} {pmicSts : UInt32}
    (hsame : (inputPoll s pmicSts).2.eventHead = s.eventHead) :
    (inputPoll s pmicSts).1 ≠ 0 ↔ s.ends.contents ≠ [] := by
  have hhead : (inputCheckButtons s pmicSts).eventHead = s.eventHead := hsame
  have hnil : s.ends.contents = [] ↔ s.eventTail = s.eventHead :=
    Ring.between_eq_nil_iff s.eventQueue s.eventTail s.eventHead
  unfold inputPoll
  dsimp only
  rw [hhead, inputCheckButtons_eventTail, ne_eq s.ends.contents, hnil]
  by_cases heq : s.eventHead = s.eventTail
  · simp [heq]
  · simp [heq, Ne.symm heq]

/-- Both input queues hand out what they accepted, in order, and accept while fewer than
4095 characters or 255 events are unread. A poll that adds no button event tells whether
an event is unread. -/
theorem input_queues_drop_newest :
    (∀ printed calls,
      Fifo.DropsNewest Tty.device 4095 (Tty.device.session (Tty.ttyInit printed) calls)) ∧
    (∀ calls, Fifo.DropsNewest device 255 (device.session (inputInit boot) calls)) ∧
    (∀ calls pmicSts,
      let w := device.session (inputInit boot) calls
      (inputPoll w.dev pmicSts).2.eventHead = w.dev.eventHead →
        ((inputPoll w.dev pmicSts).1 ≠ 0 ↔ w.delivered.length < w.accepted.length)) := by
  have hempty : (inputInit boot).ends.contents = [] := Ring.between_self _ 0
  refine ⟨?_, ?_, ?_⟩
  · intro printed calls
    have hstart : (Tty.ttyInit printed).ends.contents = [] := Ring.between_self _ 0
    exact Tty.isQueue.dropsNewest rfl hstart calls
  · intro calls
    exact isQueue.dropsNewest rfl hempty calls
  · intro calls pmicSts w hsame
    obtain ⟨-, hbalance⟩ := isQueue.session_accepted rfl hempty calls
    have hlen : w.accepted.length = w.delivered.length + w.dev.ends.contents.length := by
      rw [hbalance, List.length_append]
    rw [inputPoll_ne_zero_iff hsame, hlen, ← List.length_pos_iff]
    omega

end OmniOS.Input
