import Mathlib.Algebra.Group.Nat.Defs
import Mathlib.Data.List.Induction
import OmniOS.Lib.SlotMap

/-!
# OmniOS.Kernel.Channel — the channel table of `kernel/ipc/ipc.c`

Channels live in the first `_channel_count` records of `_channels`; closing one
moves the last record into its place. `ipc_receive` on an empty channel sleeps in
the middle of the call and keeps its pointer to the record, so the call is two
functions here, before and after `sched_sleep`.

1. **Model.** The functions of `ipc.c` on the table.
2. **The map.** What each of them does to the map from identifiers to open
   channels, without the array.
3. **Refinement.** After any calls from `ipc_init` the identifiers are distinct
   (`Inv`), so the table is that map.
-/

namespace OmniOS.Channel

/-! ## Model -/

def IPC_MAX_MSG_SIZE : Nat := 4096
def IPC_MAX_CHANNELS : Nat := 256

/-- The values of `status_t` that are returned here. -/
inductive Status where
  | success
  | timeout
  | invalid
  | notFound
  | noMemory
  | wouldBlock
  deriving DecidableEq

/-- `ipc_channel_type_t`. -/
inductive ChannelType where
  | unused
  | pipe
  | queue
  | sharedMem
  deriving DecidableEq

/-- `ipc_message_t`. -/
structure IpcMessage where
  channelId : UInt32
  type : ChannelType
  sender : UInt32
  receiver : UInt32
  msgSize : UInt32
  data : Vector UInt8 IPC_MAX_MSG_SIZE

/-- `ipc_channel_t`. -/
structure IpcChannel where
  channelId : UInt32
  type : ChannelType
  owner : UInt32
  peer : UInt32
  pendingCount : UInt32
  blocked : Bool
  deriving DecidableEq

/-- The variables of `ipc.c`. -/
structure Ipc where
  /-- `_channels` and `_channel_count`. -/
  channels : Slots IpcChannel IPC_MAX_CHANNELS
  nextChannelId : UInt32

def ipcInit : Ipc := ⟨Slots.empty ⟨0, .unused, 0, 0, 0, false⟩, 1⟩

/-- The record that `ipc_channel_create` fills in. -/
def newChannel (id : UInt32) (channel : IpcChannel) : IpcChannel :=
  { channelId := id
    type := channel.type
    owner := channel.owner
    peer := channel.peer
    pendingCount := 0
    blocked := false }

/-- The status, `*channel` on return (`none` for a null pointer), and the table. -/
def ipcChannelCreate (s : Ipc) : (channel : Option IpcChannel) → Status × Option IpcChannel × Ipc
  | none => (.invalid, none, s)
  | some channel =>
      if hroom : s.channels.count < IPC_MAX_CHANNELS then
        let id := s.nextChannelId
        (.success, some { channel with channelId := id },
          { channels := s.channels.push hroom (newChannel id channel), nextChannelId := id + 1 })
      else (.noMemory, some channel, s)

/-- The loop over the used records. -/
def findChannel (s : Ipc) (channelId : UInt32) : Option (Fin s.channels.count) :=
  s.channels.findIdx? (·.channelId == channelId)

def ipcChannelClose (s : Ipc) (channelId : UInt32) : Status × Ipc :=
  match findChannel s channelId with
  | some i => (.success, { s with channels := s.channels.removeAt i })
  | none => (.notFound, s)

/-- The address of the record with used index `i`. -/
def Ipc.address (s : Ipc) (i : Fin s.channels.count) : Fin IPC_MAX_CHANNELS :=
  i.castLE s.channels.count_le

/-- Write the record that `ch` points to. -/
def Ipc.store (s : Ipc) (ch : Fin IPC_MAX_CHANNELS) (c : IpcChannel) : Ipc :=
  { s with channels := s.channels.set ch c }

/-- The status, the thread to wake if there is one, and the table. The message
is not looked at. -/
def ipcSend (s : Ipc) (channelId : UInt32) (_msg : IpcMessage) : Status × Option UInt32 × Ipc :=
  match findChannel s channelId with
  | none => (.notFound, none, s)
  | some i =>
      let ch := s.channels.get i
      let ch := { ch with pendingCount := ch.pendingCount + 1 }
      if ch.blocked then
        (.success, some ch.peer, s.store (s.address i) { ch with blocked := false })
      else (.success, none, s.store (s.address i) ch)

/-- Where `ipc_receive` is: returned, or in `sched_sleep` with its pointer. `msg`
is what `*msg` holds. -/
inductive Receiving where
  | returned (status : Status) (msg : IpcMessage)
  | asleep (ch : Fin IPC_MAX_CHANNELS) (msg : IpcMessage)

/-- `ch->pending_count--`. -/
def Ipc.consume (s : Ipc) (ch : Fin IPC_MAX_CHANNELS) : Ipc :=
  let c := s.channels.slot ch
  s.store ch { c with pendingCount := c.pendingCount - 1 }

/-- `ipc_receive` up to `sched_sleep`. -/
def ipcReceive (s : Ipc) (channelId : UInt32) (msg : IpcMessage) (timeout : UInt64) :
    Receiving × Ipc :=
  match findChannel s channelId with
  | none => (.returned .notFound msg, s)
  | some i =>
      let c := s.channels.get i
      if c.pendingCount = 0 then
        if timeout = 0 then (.returned .wouldBlock msg, s)
        else (.asleep (s.address i) msg, s.store (s.address i) { c with blocked := true })
      else (.returned .success msg, s.consume (s.address i))

/-- `ipc_receive` from `sched_sleep` on. -/
def ipcReceiveResume (s : Ipc) (ch : Fin IPC_MAX_CHANNELS) (msg : IpcMessage) :
    Status × IpcMessage × Ipc :=
  if (s.channels.slot ch).pendingCount = 0 then (.timeout, msg, s)
  else (.success, msg, s.consume ch)

/-! ## The map -/

/-- The channels that are open, by identifier. -/
abbrev ChannelMap := UInt32 → Option IpcChannel

def ChannelMap.create (m : ChannelMap) (id : UInt32) (channel : IpcChannel) : ChannelMap :=
  Function.update m id (some (newChannel id channel))

def ChannelMap.close (m : ChannelMap) (id : UInt32) : ChannelMap := Function.update m id none

/-- Change the channel `id` if it is open. -/
def ChannelMap.modify (m : ChannelMap) (id : UInt32) (f : IpcChannel → IpcChannel) : ChannelMap :=
  Function.update m id ((m id).map f)

def ChannelMap.send (m : ChannelMap) (id : UInt32) : ChannelMap :=
  m.modify id fun ch => { ch with pendingCount := ch.pendingCount + 1, blocked := false }

def ChannelMap.receive (m : ChannelMap) (id : UInt32) : ChannelMap :=
  m.modify id fun ch =>
    if ch.pendingCount = 0 then ch else { ch with pendingCount := ch.pendingCount - 1 }

/-- The map a table stands for. -/
def Ipc.openChannels (s : Ipc) : ChannelMap := s.channels.lookup IpcChannel.channelId

/-! ## Specifications -/

section Specs

variable {s : Ipc} {id : UInt32} {i : Fin s.channels.count}

theorem openChannels_of_find (h : findChannel s id = some i) :
    s.openChannels id = some (s.channels.get i) := by
  have hfind : s.channels.findIdx? (·.channelId == id) = some i := h
  rw [Ipc.openChannels, Slots.lookup_findIdx?, hfind, Option.map_some]

theorem openChannels_eq_none : s.openChannels id = none ↔ findChannel s id = none := by
  rw [Ipc.openChannels, Slots.lookup_findIdx?, Option.map_eq_none_iff]
  rfl

theorem channelId_of_find (h : findChannel s id = some i) : (s.channels.get i).channelId = id :=
  Slots.key_of_findIdx? h

theorem ipcChannelCreate_of_room (hroom : s.channels.count < IPC_MAX_CHANNELS)
    (channel : IpcChannel) :
    ipcChannelCreate s (some channel) = (.success, some { channel with channelId := s.nextChannelId },
      ⟨s.channels.push hroom (newChannel s.nextChannelId channel), s.nextChannelId + 1⟩) := by
  rw [ipcChannelCreate, dif_pos hroom]

theorem ipcChannelCreate_of_full (hfull : ¬ s.channels.count < IPC_MAX_CHANNELS)
    (channel : IpcChannel) : ipcChannelCreate s (some channel) = (.noMemory, some channel, s) := by
  rw [ipcChannelCreate, dif_neg hfull]

theorem ipcSend_of_none (h : findChannel s id = none) (msg : IpcMessage) :
    ipcSend s id msg = (.notFound, none, s) := by
  rw [ipcSend, h]

theorem ipcSend_of_find (h : findChannel s id = some i) (msg : IpcMessage) :
    ∃ woken, ipcSend s id msg = (.success, woken, s.store (s.address i)
      { s.channels.get i with
        pendingCount := (s.channels.get i).pendingCount + 1, blocked := false }) := by
  rw [ipcSend, h]
  by_cases hblocked : (s.channels.get i).blocked
  · exact ⟨some (s.channels.get i).peer, by simp [hblocked]⟩
  · refine ⟨none, ?_⟩
    rw [Bool.not_eq_true] at hblocked
    simp [hblocked]

theorem ipcReceive_of_none (h : findChannel s id = none) (msg : IpcMessage) (timeout : UInt64) :
    ipcReceive s id msg timeout = (.returned .notFound msg, s) := by
  rw [ipcReceive, h]

theorem ipcReceive_of_find (h : findChannel s id = some i) (msg : IpcMessage) (timeout : UInt64) :
    ipcReceive s id msg timeout =
      if (s.channels.get i).pendingCount = 0 then
        if timeout = 0 then (.returned .wouldBlock msg, s)
        else (.asleep (s.address i) msg,
          s.store (s.address i) { s.channels.get i with blocked := true })
      else (.returned .success msg, s.consume (s.address i)) := by
  rw [ipcReceive, h]

theorem ipcChannelClose_of_find (h : findChannel s id = some i) :
    ipcChannelClose s id = (.success, { s with channels := s.channels.removeAt i }) := by
  rw [ipcChannelClose, h]

theorem ipcChannelClose_of_none (h : findChannel s id = none) :
    ipcChannelClose s id = (.notFound, s) := by
  rw [ipcChannelClose, h]

end Specs

/-! ## Calls that return at once -/

inductive Call where
  | create (channel : Option IpcChannel)
  | close (channelId : UInt32)
  | send (channelId : UInt32) (msg : IpcMessage)
  /-- `ipc_receive` with `timeout` 0. -/
  | receive (channelId : UInt32) (msg : IpcMessage)

def Call.isCreate : Call → Bool
  | .create _ => true
  | _ => false

def step (s : Ipc) : Call → Ipc
  | .create channel => (ipcChannelCreate s channel).2.2
  | .close channelId => (ipcChannelClose s channelId).2
  | .send channelId msg => (ipcSend s channelId msg).2.2
  | .receive channelId msg => (ipcReceive s channelId msg 0).2

/-- The calls one after the other, from `ipc_init`. -/
def run (calls : List Call) : Ipc := calls.foldl step ipcInit

/-- The number of `ipc_channel_create` calls. -/
def creates (calls : List Call) : Nat := calls.countP Call.isCreate

/-- All that a call does to the table; the number is how often it advances
`_next_channel_id`. -/
inductive Change (s : Ipc) : Nat → Ipc → Prop where
  | keep : Change s 0 s
  | create (hroom : s.channels.count < IPC_MAX_CHANNELS) (channel : IpcChannel) :
      Change s 1 ⟨s.channels.push hroom (newChannel s.nextChannelId channel), s.nextChannelId + 1⟩
  | close (i : Fin s.channels.count) : Change s 0 { s with channels := s.channels.removeAt i }
  | update (i : Fin s.channels.count) (c : IpcChannel)
      (hid : c.channelId = (s.channels.get i).channelId) : Change s 0 (s.store (s.address i) c)

theorem change_create (s : Ipc) (channel : Option IpcChannel) :
    ∃ n ≤ 1, Change s n (ipcChannelCreate s channel).2.2 := by
  cases channel with
  | none => exact ⟨0, Nat.zero_le 1, Change.keep⟩
  | some channel =>
      by_cases hroom : s.channels.count < IPC_MAX_CHANNELS
      · rw [ipcChannelCreate_of_room hroom]
        exact ⟨1, Nat.le_refl 1, Change.create hroom channel⟩
      · rw [ipcChannelCreate_of_full hroom]
        exact ⟨0, Nat.zero_le 1, Change.keep⟩

theorem change_close (s : Ipc) (id : UInt32) : Change s 0 (ipcChannelClose s id).2 := by
  cases hfind : findChannel s id with
  | none =>
      rw [ipcChannelClose_of_none hfind]
      exact Change.keep
  | some i =>
      rw [ipcChannelClose_of_find hfind]
      exact Change.close i

theorem change_send (s : Ipc) (id : UInt32) (msg : IpcMessage) :
    Change s 0 (ipcSend s id msg).2.2 := by
  cases hfind : findChannel s id with
  | none =>
      rw [ipcSend_of_none hfind]
      exact Change.keep
  | some i =>
      rcases ipcSend_of_find hfind msg with ⟨woken, hsend⟩
      rw [hsend]
      exact Change.update i _ rfl

theorem change_receive (s : Ipc) (id : UInt32) (msg : IpcMessage) (timeout : UInt64) :
    Change s 0 (ipcReceive s id msg timeout).2 := by
  cases hfind : findChannel s id with
  | none =>
      rw [ipcReceive_of_none hfind]
      exact Change.keep
  | some i =>
      rw [ipcReceive_of_find hfind]
      by_cases hpending : (s.channels.get i).pendingCount = 0
      · rw [if_pos hpending]
        by_cases htimeout : timeout = 0
        · rw [if_pos htimeout]
          exact Change.keep
        · rw [if_neg htimeout]
          exact Change.update i _ rfl
      · rw [if_neg hpending]
        exact Change.update i _ rfl

theorem change_step (s : Ipc) (call : Call) :
    ∃ n ≤ call.isCreate.toNat, Change s n (step s call) := by
  cases call with
  | create channel => exact change_create s channel
  | close channelId => exact ⟨0, Nat.le_refl 0, change_close s channelId⟩
  | send channelId msg => exact ⟨0, Nat.le_refl 0, change_send s channelId msg⟩
  | receive channelId msg => exact ⟨0, Nat.le_refl 0, change_receive s channelId msg 0⟩

/-! ## Identifiers -/

/-- Identifiers are distinct and come from the counter, which has been advanced
at most `k` times. -/
structure Inv (s : Ipc) (k : Nat) : Prop where
  distinct : s.channels.Distinct IpcChannel.channelId
  next_pos : 1 ≤ s.nextChannelId.toNat
  next_le : s.nextChannelId.toNat ≤ k + 1
  ids : ∀ c ∈ s.channels.items,
    1 ≤ c.channelId.toNat ∧ c.channelId.toNat < s.nextChannelId.toNat

theorem inv_init : Inv ipcInit 0 where
  distinct := Slots.distinct_empty _
  next_pos := by decide
  next_le := by decide
  ids := fun _ hc => absurd hc List.not_mem_nil

namespace Inv

variable {s s' : Ipc} {k : Nat}

theorem mono (h : Inv s k) {k' : Nat} (hle : k ≤ k') : Inv s k' :=
  { h with next_le := h.next_le.trans (Nat.succ_le_succ hle) }

/-- The next identifier is not in use. -/
theorem fresh (h : Inv s k) : ∀ c ∈ s.channels.items, c.channelId ≠ s.nextChannelId := by
  intro c hc heq
  have hlt := (h.ids c hc).2
  rw [heq] at hlt
  exact Nat.lt_irrefl _ hlt

theorem id_ne_zero (h : Inv s k) : ∀ c ∈ s.channels.items, c.channelId ≠ 0 := by
  intro c hc heq
  have hpos := (h.ids c hc).1
  rw [heq] at hpos
  exact absurd hpos (by decide)

theorem create (h : Inv s k) (hbound : k + 2 < 2 ^ 32)
    (hroom : s.channels.count < IPC_MAX_CHANNELS) (channel : IpcChannel) :
    Inv ⟨s.channels.push hroom (newChannel s.nextChannelId channel), s.nextChannelId + 1⟩ (k + 1) := by
  have hle := h.next_le
  have hpos := h.next_pos
  have hnext : (s.nextChannelId + 1).toNat = s.nextChannelId.toNat + 1 := by
    rw [UInt32.toNat_add]
    exact Nat.mod_eq_of_lt (show s.nextChannelId.toNat + 1 < 2 ^ 32 by omega)
  refine ⟨h.distinct.push hroom h.fresh, ?_, ?_, ?_⟩
  · rw [hnext]
    omega
  · rw [hnext]
    omega
  · intro c hc
    rw [Slots.items_push, List.mem_append, List.mem_singleton] at hc
    rw [hnext]
    rcases hc with hc | rfl
    · have hids := h.ids c hc
      omega
    · show 1 ≤ s.nextChannelId.toNat ∧ s.nextChannelId.toNat < s.nextChannelId.toNat + 1
      omega

theorem close (h : Inv s k) (i : Fin s.channels.count) :
    Inv { s with channels := s.channels.removeAt i } k where
  distinct := (h.distinct.removeAt i).2
  next_pos := h.next_pos
  next_le := h.next_le
  ids := fun c hc => h.ids c ((s.channels.items_removeAt i).mem_iff.mpr (List.mem_cons_of_mem _ hc))

theorem update (h : Inv s k) (i : Fin s.channels.count) {c : IpcChannel}
    (hid : c.channelId = (s.channels.get i).channelId) : Inv (s.store (s.address i) c) k where
  distinct := h.distinct.set i hid
  next_pos := h.next_pos
  next_le := h.next_le
  ids := by
    intro c' hc'
    have hmem : c' ∈ s.channels.items.set i c := Slots.items_set s.channels i c ▸ hc'
    rcases List.mem_or_eq_of_mem_set hmem with hmem | rfl
    · exact h.ids c' hmem
    · rw [hid]
      exact h.ids _ (s.channels.get_mem_items i)

theorem change (h : Inv s k) {n : Nat} (hbound : k + n + 1 < 2 ^ 32) (hchange : Change s n s') :
    Inv s' (k + n) := by
  cases hchange with
  | keep => exact h
  | create hroom channel => exact h.create hbound hroom channel
  | close i => exact h.close i
  | update i c hid => exact h.update i hid

end Inv

theorem inv_run (calls : List Call) (hbound : creates calls + 1 < 2 ^ 32) :
    Inv (run calls) (creates calls) := by
  induction calls using List.reverseRecOn with
  | nil => exact inv_init
  | append_singleton calls call ih =>
      have hcount : creates (calls ++ [call]) = creates calls + call.isCreate.toNat := by
        rw [creates, List.countP_append, List.countP_singleton]
        cases call.isCreate <;> rfl
      rw [hcount] at hbound ⊢
      have hrun : run (calls ++ [call]) = step (run calls) call := List.foldl_concat ..
      rw [hrun]
      rcases change_step (run calls) call with ⟨n, hn, hchange⟩
      have hinv := (ih (by omega)).change (n := n) (by omega) hchange
      exact hinv.mono (by omega)

/-! ## Refinement -/

section Refinement

variable {s : Ipc} {k : Nat}

theorem openChannels_create (h : Inv s k) (hroom : s.channels.count < IPC_MAX_CHANNELS)
    (channel : IpcChannel) :
    (ipcChannelCreate s (some channel)).2.2.openChannels =
      s.openChannels.create s.nextChannelId channel := by
  rw [ipcChannelCreate_of_room hroom]
  exact Slots.lookup_push hroom h.fresh

theorem openChannels_close (h : Inv s k) (id : UInt32) :
    (ipcChannelClose s id).2.openChannels = s.openChannels.close id := by
  cases hfind : findChannel s id with
  | none =>
      rw [ipcChannelClose_of_none hfind]
      exact (Function.update_eq_self_iff.mpr (openChannels_eq_none.mpr hfind).symm).symm
  | some i =>
      rw [ipcChannelClose_of_find hfind]
      have hremove := h.distinct.lookup_removeAt i
      rw [channelId_of_find hfind] at hremove
      exact hremove

/-- Writing the record of an open channel. -/
theorem openChannels_store (h : Inv s k) (i : Fin s.channels.count) {c : IpcChannel}
    (hid : c.channelId = (s.channels.get i).channelId) :
    (s.store (s.address i) c).openChannels =
      Function.update s.openChannels (s.channels.get i).channelId (some c) :=
  h.distinct.lookup_set i hid

theorem ChannelMap.modify_of_none {m : ChannelMap} {id : UInt32} (h : m id = none)
    (f : IpcChannel → IpcChannel) : m.modify id f = m := by
  rw [ChannelMap.modify, h]
  exact Function.update_eq_self_iff.mpr h.symm

theorem openChannels_send (h : Inv s k) (id : UInt32) (msg : IpcMessage) :
    (ipcSend s id msg).2.2.openChannels = s.openChannels.send id := by
  cases hfind : findChannel s id with
  | none =>
      rw [ipcSend_of_none hfind]
      exact (ChannelMap.modify_of_none (openChannels_eq_none.mpr hfind) _).symm
  | some i =>
      rcases ipcSend_of_find hfind msg with ⟨woken, hsend⟩
      rw [hsend, ChannelMap.send, ChannelMap.modify, openChannels_of_find hfind, Option.map_some,
        ← channelId_of_find hfind]
      exact openChannels_store h i rfl

theorem openChannels_receive (h : Inv s k) (id : UInt32) (msg : IpcMessage) :
    (ipcReceive s id msg 0).2.openChannels = s.openChannels.receive id := by
  cases hfind : findChannel s id with
  | none =>
      rw [ipcReceive_of_none hfind]
      exact (ChannelMap.modify_of_none (openChannels_eq_none.mpr hfind) _).symm
  | some i =>
      rw [ipcReceive_of_find hfind, if_pos rfl, ChannelMap.receive, ChannelMap.modify,
        openChannels_of_find hfind, Option.map_some]
      by_cases hpending : (s.channels.get i).pendingCount = 0
      · rw [if_pos hpending, if_pos hpending]
        exact (Function.update_eq_self_iff.mpr (openChannels_of_find hfind).symm).symm
      · rw [if_neg hpending, if_neg hpending]
        rw [← channelId_of_find hfind]
        exact openChannels_store h i rfl

/-- After any calls from `ipc_init` the table is a finite map, as long as the
counter has not wrapped. `ipc_channel_create` is given a record to read. -/
theorem channel_table_refines_map (calls : List Call) (hcalls : creates calls < 2 ^ 32 - 1) :
    let s := run calls
    ((s.channels.items.map IpcChannel.channelId).Nodup ∧
      ∀ c ∈ s.channels.items, c.channelId ≠ 0) ∧
    (∀ channel, ((ipcChannelCreate s (some channel)).1 = .success ↔
        s.channels.items.length ≠ IPC_MAX_CHANNELS) ∧
      (s.channels.items.length ≠ IPC_MAX_CHANNELS →
        s.openChannels s.nextChannelId = none ∧
        (ipcChannelCreate s (some channel)).2.2.openChannels =
          s.openChannels.create s.nextChannelId channel)) ∧
    (∀ id, ((ipcChannelClose s id).1 = .success ↔ (s.openChannels id).isSome) ∧
      (ipcChannelClose s id).2.openChannels = s.openChannels.close id) ∧
    (∀ id msg, ((ipcSend s id msg).1 = .notFound ↔ s.openChannels id = none) ∧
      (ipcSend s id msg).2.2.openChannels = s.openChannels.send id) ∧
    (∀ id msg, (∃ status, (ipcReceive s id msg 0).1 = .returned status msg ∧
        (status = .notFound ↔ s.openChannels id = none)) ∧
      (ipcReceive s id msg 0).2.openChannels = s.openChannels.receive id) := by
  intro s
  have hinv : Inv s (creates calls) := inv_run calls (by omega)
  have hcount : s.channels.items.length ≠ IPC_MAX_CHANNELS ↔
      s.channels.count < IPC_MAX_CHANNELS := by
    have hle := s.channels.count_le
    rw [Slots.length_items]
    omega
  refine ⟨⟨hinv.distinct, hinv.id_ne_zero⟩, ?_, ?_, ?_, ?_⟩
  · intro channel
    rw [hcount]
    constructor
    · by_cases hroom : s.channels.count < IPC_MAX_CHANNELS
      · simp [ipcChannelCreate_of_room hroom, hroom]
      · simp [ipcChannelCreate_of_full hroom, hroom]
    · intro hroom
      exact ⟨Slots.lookup_eq_none.mpr hinv.fresh, openChannels_create hinv hroom channel⟩
  · intro id
    refine ⟨?_, openChannels_close hinv id⟩
    cases hfind : findChannel s id with
    | none => simp [ipcChannelClose_of_none hfind, openChannels_eq_none.mpr hfind]
    | some i => simp [ipcChannelClose_of_find hfind, openChannels_of_find hfind]
  · intro id msg
    refine ⟨?_, openChannels_send hinv id msg⟩
    cases hfind : findChannel s id with
    | none => simp [ipcSend_of_none hfind, openChannels_eq_none.mpr hfind]
    | some i =>
        rcases ipcSend_of_find hfind msg with ⟨woken, hsend⟩
        simp [hsend, openChannels_of_find hfind]
  · intro id msg
    refine ⟨?_, openChannels_receive hinv id msg⟩
    cases hfind : findChannel s id with
    | none =>
        rw [ipcReceive_of_none hfind]
        exact ⟨.notFound, rfl, by simp [openChannels_eq_none.mpr hfind]⟩
    | some i =>
        rw [ipcReceive_of_find hfind, if_pos rfl]
        by_cases hpending : (s.channels.get i).pendingCount = 0
        · rw [if_pos hpending]
          exact ⟨.wouldBlock, rfl, by simp [openChannels_of_find hfind]⟩
        · rw [if_neg hpending]
          exact ⟨.success, rfl, by simp [openChannels_of_find hfind]⟩

end Refinement

/-- A channel record as `test_kernel.c` fills it in. -/
def testChannel : IpcChannel := ⟨0, .pipe, 1, 2, 0, false⟩

/-- Two channels, of which the first is closed. -/
def twoChannels : List Call := [.create (some testChannel), .create (some testChannel), .close 1]

/-- Channel 2 is still open after its record was moved. -/
theorem channel_table_of_two :
    (run twoChannels).openChannels 1 = none ∧ (run twoChannels).openChannels 2 ≠ none ∧
      (ipcChannelClose (run twoChannels) 2).1 = .success := by
  have hsome : ((run twoChannels).openChannels 2).isSome := by decide +kernel
  have hclose := (channel_table_refines_map twoChannels (by decide)).2.2.1 2
  exact ⟨by decide +kernel, Option.isSome_iff_ne_none.mp hsome, hclose.1.mpr hsome⟩

/-- `ipc_channel_create` refuses a null pointer in an empty table. -/
theorem create_of_null_fails :
    creates [] < 2 ^ 32 - 1 ∧ (run []).channels.items.length ≠ IPC_MAX_CHANNELS ∧
      (ipcChannelCreate (run []) none).1 ≠ .success := by
  decide

end OmniOS.Channel
