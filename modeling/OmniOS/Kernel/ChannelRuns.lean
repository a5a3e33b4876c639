import OmniOS.Kernel.Channel
import OmniOS.Lib.Lts

/-!
# OmniOS.Kernel.ChannelRuns — threads that send, receive and sleep

Threads call the functions of `ipc.c` in any order. A receive on an empty channel
stops at `sched_sleep`; other calls run, and it goes on with the pointer it had.
The world records the messages that went in and out of every channel.

1. **Model.** `World.next`, and `Step`, which has one case per branch.
2. **Pointers.** A sleeping receive points to the record of its channel, unless
   `ipc_channel_close` moves records under it (`placed_step`).
-/

namespace OmniOS.Channel

/-! ## Model -/

/-- `msg_size` and `data`. -/
abbrev Payload := UInt32 × Vector UInt8 IPC_MAX_MSG_SIZE

def IpcMessage.payload (msg : IpcMessage) : Payload := (msg.msgSize, msg.data)

/-- A receive in `sched_sleep`: its arguments and its pointer. -/
structure Waiting where
  channelId : UInt32
  ch : Fin IPC_MAX_CHANNELS
  msg : IpcMessage

structure World where
  ipc : Ipc
  /-- The receive each thread sleeps in. -/
  waiting : UInt32 → Option Waiting
  /-- What successful calls of `ipc_send` were given, by channel. -/
  sent : UInt32 → List Payload
  /-- What successful calls of `ipc_receive` left in `*msg`, by channel. -/
  received : UInt32 → List Payload

inductive Event where
  | create (channel : Option IpcChannel)
  | close (channelId : UInt32)
  | send (channelId : UInt32) (msg : IpcMessage)
  | receive (tid channelId : UInt32) (msg : IpcMessage) (timeout : UInt64)
  /-- `sched_sleep` returns, after a wake-up or a timeout. -/
  | resume (tid : UInt32)

/-- Add to the log of a channel. -/
def log (logs : UInt32 → List Payload) (channelId : UInt32) (msg : IpcMessage) :
    UInt32 → List Payload :=
  Function.update logs channelId (logs channelId ++ [msg.payload])

/-- A sleeping thread can only resume, and only a sleeping thread can. -/
def World.next (w : World) : Event → Option World
  | .create channel => some { w with ipc := (ipcChannelCreate w.ipc channel).2.2 }
  | .close channelId => some { w with ipc := (ipcChannelClose w.ipc channelId).2 }
  | .send channelId msg =>
      let r := ipcSend w.ipc channelId msg
      some { w with ipc := r.2.2
                    sent := if r.1 = .success then log w.sent channelId msg else w.sent }
  | .receive tid channelId msg timeout =>
      match w.waiting tid with
      | some _ => none
      | none =>
          match ipcReceive w.ipc channelId msg timeout with
          | (.returned status msg, ipc) =>
              some { w with
                ipc := ipc
                received := if status = .success then log w.received channelId msg else w.received }
          | (.asleep ch msg, ipc) =>
              some { w with ipc := ipc
                            waiting := Function.update w.waiting tid (some ⟨channelId, ch, msg⟩) }
  | .resume tid =>
      match w.waiting tid with
      | none => none
      | some r =>
          let o := ipcReceiveResume w.ipc r.ch r.msg
          some { w with
            ipc := o.2.2
            waiting := Function.update w.waiting tid none
            received := if o.1 = .success then log w.received r.channelId o.2.1 else w.received }

/-- After `ipc_init` nobody sleeps and nothing was sent. -/
def World.start : World := ⟨ipcInit, fun _ => none, fun _ => [], fun _ => []⟩

def system : Lts.System World Event where
  Init w := w = World.start
  Next e w w' := w.next e = some w'

/-! ## One case per branch -/

/-- The branches of `World.next`. -/
inductive Step (w : World) : Event → World → Prop where
  | create (channel : Option IpcChannel) :
      Step w (.create channel) { w with ipc := (ipcChannelCreate w.ipc channel).2.2 }
  | close (channelId : UInt32) :
      Step w (.close channelId) { w with ipc := (ipcChannelClose w.ipc channelId).2 }
  | sendNone (channelId : UInt32) (msg : IpcMessage) : Step w (.send channelId msg) w
  | send (channelId : UInt32) (msg : IpcMessage) (i : Fin w.ipc.channels.count)
      (hfind : findChannel w.ipc channelId = some i) :
      Step w (.send channelId msg)
        { w with ipc := (ipcSend w.ipc channelId msg).2.2, sent := log w.sent channelId msg }
  | receiveNone (tid channelId : UInt32) (msg : IpcMessage) (timeout : UInt64)
      (hempty : ∀ i, findChannel w.ipc channelId = some i →
        (w.ipc.channels.get i).pendingCount = 0) :
      Step w (.receive tid channelId msg timeout) w
  | receive (tid channelId : UInt32) (msg : IpcMessage) (timeout : UInt64)
      (i : Fin w.ipc.channels.count) (hfind : findChannel w.ipc channelId = some i)
      (hpending : (w.ipc.channels.get i).pendingCount ≠ 0) :
      Step w (.receive tid channelId msg timeout)
        { w with ipc := w.ipc.consume (w.ipc.address i), received := log w.received channelId msg }
  | sleep (tid channelId : UInt32) (msg : IpcMessage) (timeout : UInt64)
      (i : Fin w.ipc.channels.count) (hfind : findChannel w.ipc channelId = some i)
      (hempty : (w.ipc.channels.get i).pendingCount = 0) :
      Step w (.receive tid channelId msg timeout)
        { w with
          ipc := w.ipc.store (w.ipc.address i) { w.ipc.channels.get i with blocked := true }
          waiting := Function.update w.waiting tid (some ⟨channelId, w.ipc.address i, msg⟩) }
  | timeout (tid : UInt32) (r : Waiting) (hwait : w.waiting tid = some r)
      (hempty : (w.ipc.channels.slot r.ch).pendingCount = 0) :
      Step w (.resume tid) { w with waiting := Function.update w.waiting tid none }
  | resume (tid : UInt32) (r : Waiting) (hwait : w.waiting tid = some r)
      (hpending : (w.ipc.channels.slot r.ch).pendingCount ≠ 0) :
      Step w (.resume tid)
        { w with ipc := w.ipc.consume r.ch
                 waiting := Function.update w.waiting tid none
                 received := log w.received r.channelId r.msg }

theorem step_of_next {w w' : World} {e : Event} (h : w.next e = some w') : Step w e w' := by
  cases e with
  | create channel =>
      cases h
      exact Step.create channel
  | close channelId =>
      cases h
      exact Step.close channelId
  | send channelId msg =>
      have hw := Option.some.inj h
      subst hw
      cases hfind : findChannel w.ipc channelId with
      | none =>
          rw [ipcSend_of_none hfind]
          exact Step.sendNone channelId msg
      | some i =>
          have hstep := Step.send channelId msg i hfind
          rcases ipcSend_of_find hfind msg with ⟨woken, hsend⟩
          rw [hsend] at hstep ⊢
          exact hstep
  | receive tid channelId msg timeout =>
      unfold World.next at h
      cases hwait : w.waiting tid with
      | some r => simp [hwait] at h
      | none =>
          cases hfind : findChannel w.ipc channelId with
          | none =>
              simp only [hwait, ipcReceive_of_none hfind] at h
              cases h
              exact Step.receiveNone tid channelId msg timeout (fun i hi => by simp [hfind] at hi)
          | some i =>
              simp only [hwait, ipcReceive_of_find hfind] at h
              by_cases hpending : (w.ipc.channels.get i).pendingCount = 0
              · -- an empty channel: the timeout decides
                rw [if_pos hpending] at h
                by_cases htimeout : timeout = 0
                · rw [if_pos htimeout] at h
                  cases h
                  refine Step.receiveNone tid channelId msg timeout ?_
                  intro j hj
                  rw [hfind, Option.some.injEq] at hj
                  exact hj ▸ hpending
                · rw [if_neg htimeout] at h
                  cases h
                  exact Step.sleep tid channelId msg timeout i hfind hpending
              · rw [if_neg hpending] at h
                cases h
                exact Step.receive tid channelId msg timeout i hfind hpending
  | resume tid =>
      unfold World.next at h
      cases hwait : w.waiting tid with
      | none => simp [hwait] at h
      | some r =>
          simp only [hwait, ipcReceiveResume] at h
          by_cases hpending : (w.ipc.channels.slot r.ch).pendingCount = 0
          · simp only [if_pos hpending] at h
            cases h
            exact Step.timeout tid r hwait hpending
          · simp only [if_neg hpending] at h
            cases h
            exact Step.resume tid r hwait hpending

/-! ## Pointers -/

/-- `ch` points to a record in use, of the channel `id`. -/
structure Points (s : Ipc) (ch : Fin IPC_MAX_CHANNELS) (id : UInt32) : Prop where
  used : ch.val < s.channels.count
  channelId : (s.channels.slot ch).channelId = id

theorem points_of_find {s : Ipc} {id : UInt32} {i : Fin s.channels.count}
    (hfind : findChannel s id = some i) : Points s (s.address i) id :=
  ⟨i.isLt, channelId_of_find hfind⟩

section Points

variable {s : Ipc} {ch ch' : Fin IPC_MAX_CHANNELS} {id id' : UInt32}

theorem Points.index (h : Points s ch id) :
    ∃ i : Fin s.channels.count, s.address i = ch ∧ (s.channels.get i).channelId = id :=
  ⟨⟨ch.val, h.used⟩, rfl, h.channelId⟩

theorem Points.create (h : Points s ch id) (channel : Option IpcChannel) :
    Points (ipcChannelCreate s channel).2.2 ch id := by
  cases channel with
  | none => exact h
  | some channel =>
      by_cases hroom : s.channels.count < IPC_MAX_CHANNELS
      · -- the new record goes behind the used ones
        rw [ipcChannelCreate_of_room hroom]
        have hne : ch ≠ ⟨s.channels.count, hroom⟩ := fun heq =>
          absurd (congrArg Fin.val heq) (Nat.ne_of_lt h.used)
        have hslot : (s.channels.push hroom (newChannel s.nextChannelId channel)).slot ch =
            s.channels.slot ch := Function.update_of_ne hne _ _
        exact ⟨Nat.lt_succ_of_lt h.used, (congrArg IpcChannel.channelId hslot).trans h.channelId⟩
      · rw [ipcChannelCreate_of_full hroom]
        exact h

/-- Removing another record than this one and the last. -/
theorem Points.removeAt (h : Points s ch id) (i : Fin s.channels.count) (hne : ch ≠ s.address i)
    (hlast : ch.val + 1 ≠ s.channels.count) :
    Points { s with channels := s.channels.removeAt i } ch id where
  used := by
    have hused := h.used
    show ch.val < s.channels.count - 1
    omega
  channelId := by
    have hslot : (s.channels.removeAt i).slot ch = s.channels.slot ch :=
      Function.update_of_ne hne _ _
    rw [hslot]
    exact h.channelId

theorem Points.store (h : Points s ch id) (i : Fin s.channels.count) {c : IpcChannel}
    (hid : c.channelId = (s.channels.get i).channelId) : Points (s.store (s.address i) c) ch id where
  used := h.used
  channelId := by
    show (Function.update s.channels.slot (s.address i) c ch).channelId = id
    by_cases hch : ch = s.address i
    · subst hch
      rw [Function.update_self, hid]
      exact h.channelId
    · rw [Function.update_of_ne hch]
      exact h.channelId

theorem Points.consume (h : Points s ch id) (hother : Points s ch' id') :
    Points (s.consume ch') ch id := by
  rcases hother.index with ⟨i, rfl, -⟩
  exact h.store i rfl

end Points

/-- Every sleeping receive points to its channel. -/
def Placed (ipc : Ipc) (waiting : UInt32 → Option Waiting) : Prop :=
  ∀ tid r, waiting tid = some r → Points ipc r.ch r.channelId

/-- `ipc_channel_close` does not remove the record a sleeping receive points to,
nor move it. -/
def Undisturbed (e : Event) (w : World) : Prop :=
  ∀ id, e = .close id → ∀ i, findChannel w.ipc id = some i →
    ∀ tid r, w.waiting tid = some r →
      r.ch ≠ w.ipc.address i ∧ r.ch.val + 1 ≠ w.ipc.channels.count

/-- One thread falls asleep or wakes up. -/
theorem Placed.update {ipc : Ipc} {waiting : UInt32 → Option Waiting} (h : Placed ipc waiting)
    (tid : UInt32) {wait : Option Waiting}
    (hwait : ∀ r, wait = some r → Points ipc r.ch r.channelId) :
    Placed ipc (Function.update waiting tid wait) := by
  intro tid' r hr
  by_cases htid : tid' = tid
  · subst htid
    rw [Function.update_self] at hr
    exact hwait r hr
  · rw [Function.update_of_ne htid] at hr
    exact h tid' r hr

theorem placed_step {w w' : World} {e : Event} (h : Placed w.ipc w.waiting)
    (hsafe : Undisturbed e w) (hstep : Step w e w') : Placed w'.ipc w'.waiting := by
  cases hstep with
  | create channel => exact fun tid r hr => (h tid r hr).create channel
  | close channelId =>
      intro tid r hr
      show Points (ipcChannelClose w.ipc channelId).2 r.ch r.channelId
      cases hfind : findChannel w.ipc channelId with
      | none =>
          rw [ipcChannelClose_of_none hfind]
          exact h tid r hr
      | some i =>
          rw [ipcChannelClose_of_find hfind]
          rcases hsafe channelId rfl i hfind tid r hr with ⟨hne, hlast⟩
          exact (h tid r hr).removeAt i hne hlast
  | sendNone channelId msg => exact h
  | send channelId msg i hfind =>
      intro tid r hr
      rcases ipcSend_of_find hfind msg with ⟨woken, hsend⟩
      show Points (ipcSend w.ipc channelId msg).2.2 r.ch r.channelId
      rw [hsend]
      exact (h tid r hr).store i rfl
  | receiveNone tid channelId msg timeout hempty => exact h
  | receive tid channelId msg timeout i hfind hpending =>
      exact fun tid' r hr => (h tid' r hr).consume (points_of_find hfind)
  | sleep tid channelId msg timeout i hfind hempty =>
      apply Placed.update
      · exact fun tid' r hr => (h tid' r hr).store i rfl
      · intro r hr
        cases hr
        exact (points_of_find hfind).store i rfl
  | timeout tid r hwait hempty => exact h.update tid (fun r hr => absurd hr (Option.some_ne_none r).symm)
  | resume tid r hwait hpending =>
      apply Placed.update
      · exact fun tid' r' hr' => (h tid' r' hr').consume (h tid r hwait)
      · exact fun r' hr' => absurd hr' (Option.some_ne_none r').symm

/-- The pending counts of the open channels with an identifier. -/
def pendingCounts (s : Ipc) (id : UInt32) : List UInt32 :=
  (s.channels.items.filter (·.channelId == id)).map (·.pendingCount)

/-- Consuming through a good pointer changes no other channel. -/
theorem pendingCounts_consume {s : Ipc} {ch : Fin IPC_MAX_CHANNELS} {id id' : UInt32}
    (h : Points s ch id) (hne : id' ≠ id) : pendingCounts (s.consume ch) id' = pendingCounts s id' := by
  rcases h.index with ⟨i, rfl, hid⟩
  have hi : i.val < s.channels.items.length := by simp
  have hfalse : ∀ c : IpcChannel, c.channelId = id → (c.channelId == id') = false := by
    intro c hc
    rw [hc, beq_eq_false_iff_ne]
    exact hne.symm
  have hold : (s.channels.items[i.val].channelId == id') = false := by
    rw [Slots.getElem_items]
    exact hfalse _ hid
  have hsplit : s.channels.items = s.channels.items.take i ++
      s.channels.items[i.val] :: s.channels.items.drop (i + 1) := by simp
  have hitems : (s.consume (s.address i)).channels.items =
      s.channels.items.set i
        { s.channels.get i with pendingCount := (s.channels.get i).pendingCount - 1 } :=
    Slots.items_set s.channels i _
  unfold pendingCounts
  rw [hitems, List.set_eq_take_append_cons_drop, if_pos hi, List.filter_append,
    List.filter_cons_of_neg (by simp [hfalse _ hid])]
  conv_rhs => rw [hsplit, List.filter_append, List.filter_cons_of_neg (by simp [hold])]

theorem pendingCounts_of_points {s : Ipc} {ch : Fin IPC_MAX_CHANNELS} {id : UInt32}
    (h : Points s ch id) : (s.channels.slot ch).pendingCount ∈ pendingCounts s id := by
  rcases h.index with ⟨i, rfl, hid⟩
  refine List.mem_map_of_mem (List.mem_filter.mpr ⟨s.channels.get_mem_items i, ?_⟩)
  exact beq_iff_eq.mpr hid

theorem placed_reachable {w : World} (hreach : Lts.Reachable (system.restrict Undisturbed) w) :
    Placed w.ipc w.waiting := by
  refine hreach.invariant (I := fun w => Placed w.ipc w.waiting) ?_ ?_
  · intro w hw
    subst hw
    exact fun tid r hr => absurd hr (Option.some_ne_none r).symm
  · intro e w w' hplaced hnext
    exact placed_step hplaced hnext.1 (step_of_next hnext.2)

/-- When a sleeping receive resumes, it changes the pending count of no channel
but its own, and succeeds only if its channel is open and has a message. -/
theorem blocked_receive_own_if_undisturbed {w : World}
    (hreach : Lts.Reachable (system.restrict Undisturbed) w) {tid : UInt32} {r : Waiting}
    (hwait : w.waiting tid = some r) :
    (∀ id ≠ r.channelId,
      pendingCounts (ipcReceiveResume w.ipc r.ch r.msg).2.2 id = pendingCounts w.ipc id) ∧
    ((ipcReceiveResume w.ipc r.ch r.msg).1 = .success →
      ∃ n ∈ pendingCounts w.ipc r.channelId, n ≠ 0) := by
  have hpoints := placed_reachable hreach tid r hwait
  unfold ipcReceiveResume
  by_cases hempty : (w.ipc.channels.slot r.ch).pendingCount = 0
  · rw [if_pos hempty]
    exact ⟨fun _ _ => rfl, fun hsuccess => nomatch hsuccess⟩
  · rw [if_neg hempty]
    exact ⟨fun id hid => pendingCounts_consume hpoints hid,
      fun _ => ⟨_, pendingCounts_of_points hpoints, hempty⟩⟩

def someMessage (msgSize : UInt32) : IpcMessage :=
  ⟨0, .unused, 0, 0, msgSize, Vector.replicate IPC_MAX_MSG_SIZE 0⟩

/-- One channel. -/
def oneOpen : World := { World.start with ipc := (ipcChannelCreate ipcInit (some testChannel)).2.2 }

/-- Thread 7 sleeps on it. -/
def oneSleeping : World :=
  { oneOpen with
    ipc := (ipcReceive oneOpen.ipc 1 (someMessage 0) 100).2
    waiting := Function.update oneOpen.waiting 7 (some ⟨1, ⟨0, by decide⟩, someMessage 0⟩) }

/-- The channel gets a message. -/
def oneWoken : World :=
  { oneSleeping with ipc := (ipcSend oneSleeping.ipc 1 (someMessage 5)).2.2
                     sent := log oneSleeping.sent 1 (someMessage 5) }

theorem blocked_receive_of_one :
    ∃ r, Lts.Reachable (system.restrict Undisturbed) oneWoken ∧ oneWoken.waiting 7 = some r ∧
      (ipcReceiveResume oneWoken.ipc r.ch r.msg).1 = .success ∧
      ∃ n ∈ pendingCounts oneWoken.ipc r.channelId, n ≠ 0 := by
  have hstart : Lts.Reachable (system.restrict Undisturbed) World.start := Lts.Reachable.init rfl
  have hopen : Lts.Reachable (system.restrict Undisturbed) oneOpen :=
    hstart.step (a := Event.create (some testChannel)) ⟨fun _ h => (nomatch h), rfl⟩
  have hsleep : Lts.Reachable (system.restrict Undisturbed) oneSleeping :=
    hopen.step (a := Event.receive 7 1 (someMessage 0) 100) ⟨fun _ h => (nomatch h), rfl⟩
  have hwoken : Lts.Reachable (system.restrict Undisturbed) oneWoken :=
    hsleep.step (a := Event.send 1 (someMessage 5)) ⟨fun _ h => (nomatch h), rfl⟩
  have hwait : oneWoken.waiting 7 = some ⟨1, ⟨0, by decide⟩, someMessage 0⟩ := rfl
  have hsuccess : (ipcReceiveResume oneWoken.ipc ⟨0, by decide⟩ (someMessage 0)).1 = .success := by
    decide +kernel
  exact ⟨_, hwoken, hwait, hsuccess, (blocked_receive_own_if_undisturbed hwoken hwait).2 hsuccess⟩

/-- Thread 7 sleeps on channel 1, which is closed; channel 2 takes its record and
gets a message. -/
def closedUnderReceiver : List Event :=
  [.create (some testChannel), .create (some testChannel), .receive 7 1 (someMessage 0) 100,
    .close 1, .send 2 (someMessage 5)]

/-- Thread 7 then consumes the message of channel 2. -/
theorem receive_takes_from_other_channel :
    ∃ w r, Lts.Reachable system w ∧ w.waiting 7 = some r ∧ r.channelId = 1 ∧
      pendingCounts w.ipc 1 = [] ∧ (ipcReceiveResume w.ipc r.ch r.msg).1 = .success ∧
      pendingCounts w.ipc 2 = [1] ∧
      pendingCounts (ipcReceiveResume w.ipc r.ch r.msg).2.2 2 = [0] := by
  have hrun : ((closedUnderReceiver.foldlM World.next World.start).bind fun w =>
      (w.waiting 7).map fun r =>
        decide (r.channelId = 1 ∧ pendingCounts w.ipc 1 = [] ∧
          (ipcReceiveResume w.ipc r.ch r.msg).1 = .success ∧ pendingCounts w.ipc 2 = [1] ∧
          pendingCounts (ipcReceiveResume w.ipc r.ch r.msg).2.2 2 = [0])) = some true := by
    decide +kernel
  rcases Option.bind_eq_some_iff.mp hrun with ⟨w, hw, hrun⟩
  rcases Option.map_eq_some_iff.mp hrun with ⟨r, hr, hfacts⟩
  have hreach : Lts.Reachable system w :=
    (Lts.Reachable.init rfl).foldlM (fun _ _ _ hnext => hnext) hw
  exact ⟨w, r, hreach, hr, of_decide_eq_true hfacts⟩

end OmniOS.Channel
