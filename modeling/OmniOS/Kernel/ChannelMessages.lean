import OmniOS.Kernel.ChannelRuns
import OmniOS.Lib.Fifo

/-!
# OmniOS.Kernel.ChannelMessages — what goes through a channel

A channel should hand out the messages that were put in, in order. `ipc.c` keeps
a counter per channel and no messages: `ipc_send` does not read `*msg` and
`ipc_receive` does not write it.

1. **Messages.** What the caller finds in `*msg` is what it put there, so the
   order is kept by a step exactly if the buffer already held the message that
   was due (`prefix_step`).
2. **Counters.** The counters are right: as long as no channel is closed, a
   channel hands out at most as many messages as it got (`messages_balanced`).
-/

namespace OmniOS.Channel

/-! ## Messages -/

/-- No channel is closed. -/
def talk : Lts.System World Event := system.restrict fun e _ => ∀ id, e ≠ .close id

/-- The oldest message of a channel that has not been received. -/
def World.due (w : World) (id : UInt32) : Option Payload := (w.sent id)[(w.received id).length]?

/-- A receive on the channel that finds a message is given a buffer that holds
the message that is due. -/
def Prefilled (id : UInt32) (e : Event) (w : World) : Prop :=
  match e with
  | .receive _ channelId msg _ =>
      channelId = id →
        ∀ i, findChannel w.ipc channelId = some i → (w.ipc.channels.get i).pendingCount ≠ 0 →
          w.due id = some msg.payload
  | .resume tid =>
      ∀ r, w.waiting tid = some r → r.channelId = id →
        (w.ipc.channels.slot r.ch).pendingCount ≠ 0 → w.due id = some r.msg.payload
  | _ => True

@[simp] theorem log_self (logs : UInt32 → List Payload) (id : UInt32) (msg : IpcMessage) :
    log logs id msg id = logs id ++ [msg.payload] := Function.update_self _ _ _

theorem log_of_ne (logs : UInt32 → List Payload) {id id' : UInt32} (h : id' ≠ id)
    (msg : IpcMessage) : log logs id msg id' = logs id' := Function.update_of_ne h _ _

/-- One step keeps the messages in order exactly if it meets the condition. -/
theorem prefix_step {w w' : World} {e : Event} {id : UInt32} (h : w.received id <+: w.sent id)
    (hstep : Step w e w') : w'.received id <+: w'.sent id ↔ Prefilled id e w := by
  cases hstep with
  | create channel => exact iff_of_true h trivial
  | close channelId => exact iff_of_true h trivial
  | sendNone channelId msg => exact iff_of_true h trivial
  | send channelId msg i hfind =>
      refine iff_of_true ?_ trivial
      show w.received id <+: log w.sent channelId msg id
      by_cases hid : id = channelId
      · subst hid
        rw [log_self]
        exact h.trans (List.prefix_append _ _)
      · rw [log_of_ne _ hid]
        exact h
  | receiveNone tid channelId msg timeout hempty =>
      exact iff_of_true h fun _ i hi hpending => absurd (hempty i hi) hpending
  | receive tid channelId msg timeout i hfind hpending =>
      show log w.received channelId msg id <+: w.sent id ↔ _
      by_cases hid : id = channelId
      · subst hid
        -- the buffer goes to the log as it was passed in
        rw [log_self, Fifo.concat_prefix_iff h]
        constructor
        · exact fun hdue _ _ _ _ => hdue
        · exact fun hfilled => hfilled rfl i hfind hpending
      · rw [log_of_ne _ hid]
        exact iff_of_true h fun heq => absurd heq.symm hid
  | sleep tid channelId msg timeout i hfind hempty =>
      refine iff_of_true h fun _ j hj hpending => ?_
      rw [hfind, Option.some.injEq] at hj
      exact absurd (hj ▸ hempty) hpending
  | timeout tid r hwait hempty =>
      refine iff_of_true h fun r' hr' _ hpending => ?_
      rw [hwait, Option.some.injEq] at hr'
      exact absurd (hr' ▸ hempty) hpending
  | resume tid r hwait hpending =>
      show log w.received r.channelId r.msg id <+: w.sent id ↔ _
      by_cases hid : id = r.channelId
      · subst hid
        rw [log_self, Fifo.concat_prefix_iff h]
        constructor
        · intro hdue r' hr' _ _
          rw [hwait, Option.some.injEq] at hr'
          exact hr' ▸ hdue
        · exact fun hfilled => hfilled r hwait rfl hpending
      · rw [log_of_ne _ hid]
        refine iff_of_true h fun r' hr' heq => ?_
        rw [hwait, Option.some.injEq] at hr'
        exact absurd (hr' ▸ heq).symm hid

/-! ## Counters -/

/-- `pending` counts what was sent and not received. -/
structure Balanced (sent received : List Payload) (pending : UInt32) : Prop where
  le : received.length ≤ sent.length
  pending : pending.toNat = (sent.length - received.length) % 2 ^ 32

section Balanced

variable {sent received : List Payload} {pending : UInt32}

theorem Balanced.send (h : Balanced sent received pending) (x : Payload) :
    Balanced (sent ++ [x]) received (pending + 1) := by
  have hle := h.le
  have hpending := h.pending
  have hone : (1 : UInt32).toNat = 1 := rfl
  constructor
  · rw [List.length_append]
    omega
  · rw [UInt32.toNat_add, hone, List.length_append, List.length_singleton]
    omega

/-- A pending message has been sent, even after the counter has wrapped. -/
theorem Balanced.receive (h : Balanced sent received pending) (hpending : pending ≠ 0) (x : Payload) :
    Balanced sent (received ++ [x]) (pending - 1) := by
  have hle := h.le
  have hcount := h.pending
  have hpos : 1 ≤ pending.toNat := by
    have hne : pending.toNat ≠ 0 := fun hzero => hpending (UInt32.toNat_inj.mp hzero)
    omega
  have hpred : (pending - 1).toNat = pending.toNat - 1 :=
    UInt32.toNat_sub_of_le _ _ (UInt32.le_iff_toNat_le.mpr hpos)
  constructor
  · rw [List.length_append, List.length_singleton]
    omega
  · rw [hpred, List.length_append, List.length_singleton]
    omega

end Balanced

/-- Every open channel is balanced; nothing went through the others. -/
structure Accounted (m : ChannelMap) (sent received : UInt32 → List Payload) : Prop where
  opened : ∀ id c, m id = some c → Balanced (sent id) (received id) c.pendingCount
  unopened : ∀ id, m id = none → sent id = [] ∧ received id = []

/-- One channel and its logs change. -/
theorem Accounted.update {m : ChannelMap} {sent received sent' received' : UInt32 → List Payload}
    (h : Accounted m sent received) {id : UInt32} {c : IpcChannel}
    (hsent : ∀ id' ≠ id, sent' id' = sent id') (hreceived : ∀ id' ≠ id, received' id' = received id')
    (hbalanced : Balanced (sent' id) (received' id) c.pendingCount) :
    Accounted (Function.update m id (some c)) sent' received' := by
  constructor
  · intro id' c' hc'
    by_cases hid : id' = id
    · subst hid
      rw [Function.update_self, Option.some.injEq] at hc'
      exact hc' ▸ hbalanced
    · rw [Function.update_of_ne hid] at hc'
      rw [hsent id' hid, hreceived id' hid]
      exact h.opened id' c' hc'
  · intro id' hnone
    by_cases hid : id' = id
    · subst hid
      rw [Function.update_self] at hnone
      exact absurd hnone (Option.some_ne_none c)
    · rw [Function.update_of_ne hid] at hnone
      rw [hsent id' hid, hreceived id' hid]
      exact h.unopened id' hnone

/-- What holds while no channel is closed. -/
structure Talking (w : World) : Prop where
  inv : Inv w.ipc w.ipc.channels.count
  placed : Placed w.ipc w.waiting
  accounted : Accounted w.ipc.openChannels w.sent w.received

theorem talking_start : Talking World.start where
  inv := inv_init
  placed := fun _ r hr => absurd hr (Option.some_ne_none r).symm
  accounted := ⟨fun _ _ hc => (nomatch hc), fun _ _ => ⟨rfl, rfl⟩⟩

theorem openChannels_of_points {s : Ipc} {k : Nat} (h : Inv s k) {ch : Fin IPC_MAX_CHANNELS}
    {id : UInt32} (hpoints : Points s ch id) : s.openChannels id = some (s.channels.slot ch) := by
  rcases hpoints.index with ⟨i, rfl, hid⟩
  exact h.distinct.lookup_eq_some.mpr ⟨s.channels.get_mem_items i, hid⟩

theorem openChannels_consume {s : Ipc} {k : Nat} (h : Inv s k) {ch : Fin IPC_MAX_CHANNELS}
    {id : UInt32} (hpoints : Points s ch id) :
    (s.consume ch).openChannels = Function.update s.openChannels id (some
      { s.channels.slot ch with pendingCount := (s.channels.slot ch).pendingCount - 1 }) := by
  rcases hpoints.index with ⟨i, rfl, rfl⟩
  exact openChannels_store h i rfl

/-- A message is consumed through a good pointer. -/
theorem Accounted.consume {s : Ipc} {k : Nat} (hinv : Inv s k)
    {sent received : UInt32 → List Payload} (h : Accounted s.openChannels sent received)
    {ch : Fin IPC_MAX_CHANNELS} {id : UInt32} (hpoints : Points s ch id)
    (hpending : (s.channels.slot ch).pendingCount ≠ 0) (msg : IpcMessage) :
    Accounted (s.consume ch).openChannels sent (log received id msg) := by
  rw [openChannels_consume hinv hpoints]
  refine h.update (fun _ _ => rfl) (fun _ hne => log_of_ne _ hne msg) ?_
  rw [log_self]
  exact (h.opened id _ (openChannels_of_points hinv hpoints)).receive hpending msg.payload

theorem Inv.consume {s : Ipc} {k : Nat} (h : Inv s k) {ch : Fin IPC_MAX_CHANNELS} {id : UInt32}
    (hpoints : Points s ch id) : Inv (s.consume ch) k := by
  rcases hpoints.index with ⟨i, rfl, -⟩
  exact h.update i rfl

theorem talking_step {w w' : World} {e : Event} (h : Talking w) (hopen : ∀ id, e ≠ .close id)
    (hstep : Step w e w') : Talking w' := by
  have hplaced : Placed w'.ipc w'.waiting :=
    placed_step h.placed (fun id heq => absurd heq (hopen id)) hstep
  have hcount := w.ipc.channels.count_le
  have hmax : IPC_MAX_CHANNELS = 256 := rfl
  cases hstep with
  | create channel =>
      cases channel with
      | none => exact h
      | some channel =>
          by_cases hroom : w.ipc.channels.count < IPC_MAX_CHANNELS
          · -- the identifier is new, so nothing was logged for it
            have hmap := openChannels_create h.inv hroom channel
            have hfresh := h.accounted.unopened _ (Slots.lookup_eq_none.mpr h.inv.fresh)
            refine ⟨?_, hplaced, ?_⟩
            · show Inv (ipcChannelCreate w.ipc (some channel)).2.2 _
              rw [ipcChannelCreate_of_room hroom]
              exact h.inv.create (by omega) hroom channel
            · show Accounted (ipcChannelCreate w.ipc (some channel)).2.2.openChannels _ _
              rw [hmap]
              refine h.accounted.update (fun _ _ => rfl) (fun _ _ => rfl) ?_
              rw [hfresh.1, hfresh.2]
              exact ⟨Nat.le_refl 0, rfl⟩
          · have hsame : (ipcChannelCreate w.ipc (some channel)).2.2 = w.ipc := by
              rw [ipcChannelCreate_of_full hroom]
            simp only [hsame]
            exact h
  | close channelId => exact absurd rfl (hopen channelId)
  | sendNone channelId msg => exact h
  | send channelId msg i hfind =>
      rcases ipcSend_of_find hfind msg with ⟨woken, hsend⟩
      refine ⟨?_, hplaced, ?_⟩
      · show Inv (ipcSend w.ipc channelId msg).2.2 (ipcSend w.ipc channelId msg).2.2.channels.count
        rw [hsend]
        exact h.inv.update i rfl
      · show Accounted (ipcSend w.ipc channelId msg).2.2.openChannels (log w.sent channelId msg) _
        rw [openChannels_send h.inv, ChannelMap.send, ChannelMap.modify, openChannels_of_find hfind,
          Option.map_some]
        refine h.accounted.update (fun _ hne => log_of_ne _ hne msg) (fun _ _ => rfl) ?_
        rw [log_self]
        exact (h.accounted.opened _ _ (openChannels_of_find hfind)).send msg.payload
  | receiveNone tid channelId msg timeout hempty => exact h
  | receive tid channelId msg timeout i hfind hpending =>
      exact ⟨h.inv.consume (points_of_find hfind), hplaced,
        h.accounted.consume h.inv (points_of_find hfind) hpending msg⟩
  | sleep tid channelId msg timeout i hfind hempty =>
      -- only `blocked` changes
      refine ⟨h.inv.update i rfl, hplaced, ?_⟩
      have hmap := openChannels_store h.inv i (c := { w.ipc.channels.get i with blocked := true }) rfl
      rw [channelId_of_find hfind] at hmap
      rw [hmap]
      have hbalanced := h.accounted.opened _ _ (openChannels_of_find hfind)
      exact h.accounted.update (fun _ _ => rfl) (fun _ _ => rfl) hbalanced
  | timeout tid r hwait hempty => exact ⟨h.inv, hplaced, h.accounted⟩
  | resume tid r hwait hpending =>
      exact ⟨h.inv.consume (h.placed tid r hwait), hplaced,
        h.accounted.consume h.inv (h.placed tid r hwait) hpending r.msg⟩

/-- Without closing, no channel gives out more messages than it got, and its
counter is the difference. -/
theorem messages_balanced {w : World} (hreach : Lts.Reachable talk w) {id : UInt32} {c : IpcChannel}
    (hopen : w.ipc.openChannels id = some c) :
    Balanced (w.sent id) (w.received id) c.pendingCount := by
  have htalking : Talking w := by
    refine hreach.invariant (I := Talking) ?_ ?_
    · intro w hw
      subst hw
      exact talking_start
    · intro e w w' h hnext
      exact talking_step h hnext.1 (step_of_next hnext.2)
  exact htalking.accounted.opened id c hopen

/-- As long as every receive finds the due message in its buffer, the messages
received on a channel are the first of those sent. A step that violates the
condition breaks this. -/
theorem delivered_if_prefilled {id : UInt32} {w : World}
    (hreach : Lts.Reachable (talk.restrict (Prefilled id)) w) :
    w.received id <+: w.sent id ∧
    ∀ e w', talk.Next e w w' → (w'.received id <+: w'.sent id ↔ Prefilled id e w) := by
  have horder : w.received id <+: w.sent id := by
    refine hreach.invariant (I := fun w => w.received id <+: w.sent id) ?_ ?_
    · intro w hw
      subst hw
      exact List.nil_prefix
    · intro e w w' h hnext
      exact (prefix_step h (step_of_next hnext.2.2)).mpr hnext.1
  exact ⟨horder, fun e w' hnext => prefix_step horder (step_of_next hnext.2)⟩

/-- A message of five bytes was sent to it. -/
def oneSent : World :=
  { oneOpen with ipc := (ipcSend oneOpen.ipc 1 (someMessage 5)).2.2
                 sent := log oneOpen.sent 1 (someMessage 5) }

/-- A receive with a buffer of size `msgSize` returned. -/
def oneReceived (msgSize : UInt32) : World :=
  { oneSent with ipc := (ipcReceive oneSent.ipc 1 (someMessage msgSize) 0).2
                 received := log oneSent.received 1 (someMessage msgSize) }

theorem oneSent_reachable (id : UInt32) : Lts.Reachable (talk.restrict (Prefilled id)) oneSent := by
  have hstart : Lts.Reachable (talk.restrict (Prefilled id)) World.start := Lts.Reachable.init rfl
  have hopen : Lts.Reachable (talk.restrict (Prefilled id)) oneOpen :=
    hstart.step (a := Event.create (some testChannel)) ⟨trivial, fun _ h => (nomatch h), rfl⟩
  exact hopen.step (a := Event.send 1 (someMessage 5)) ⟨trivial, fun _ h => (nomatch h), rfl⟩

theorem talk_oneReceived (msgSize : UInt32) :
    talk.Next (.receive 7 1 (someMessage msgSize) 0) oneSent (oneReceived msgSize) :=
  ⟨fun _ h => (nomatch h), rfl⟩

theorem messages_balanced_oneSent : ∃ c, oneSent.ipc.openChannels 1 = some c ∧
    Balanced (oneSent.sent 1) (oneSent.received 1) c.pendingCount :=
  ⟨_, rfl, messages_balanced (oneSent_reachable 1).of_restrict rfl⟩

/-- A receive with an empty buffer returns success and leaves it empty. -/
theorem message_not_delivered :
    Lts.Reachable talk (oneReceived 0) ∧
      ((oneReceived 0).sent 1).map (·.1) = [5] ∧ ((oneReceived 0).received 1).map (·.1) = [0] ∧
      ¬ (oneReceived 0).received 1 <+: (oneReceived 0).sent 1 := by
  have hsizes : ((oneReceived 0).sent 1).map (·.1) = [5] ∧
      ((oneReceived 0).received 1).map (·.1) = [0] := ⟨rfl, rfl⟩
  refine ⟨(oneSent_reachable 1).of_restrict.step (talk_oneReceived 0), hsizes.1, hsizes.2, ?_⟩
  intro horder
  have hmap := horder.map (·.1)
  rw [hsizes.1, hsizes.2] at hmap
  exact absurd hmap (by decide)

/-- With the message already in the buffer, the receive delivers it. -/
theorem delivered_of_prefilled_buffer :
    ((oneReceived 5).received 1).length = 1 ∧
      (oneReceived 5).received 1 <+: (oneReceived 5).sent 1 := by
  refine ⟨rfl, ((delivered_if_prefilled (oneSent_reachable 1)).2 _ _ (talk_oneReceived 5)).mpr ?_⟩
  intro _ i hfind hpending
  rfl

end OmniOS.Channel
