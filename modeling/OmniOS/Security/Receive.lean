import OmniOS.Lib.Memory
import OmniOS.Security.DaemonAvailable

/-!
# OmniOS.Security.Receive — the receive buffer of the capability daemon

The poll loop of `main` reads a packet into `msg` with `recv` and hands `msg` to
`handle_message`. The buffer is not cleared in between and the length that `recv` returns is
only compared with 0, so behind the end of a short packet `msg` holds what was there before.

1. **Bytes.** `msg` is the memory of an `omnios_cap_msg_t` in its LP64 layout; `recv` writes
   the packet over its beginning.
2. **Reads.** Which parts of a message `handle_message` depends on: the type, the sequence
   number, and by type the sender, the token id, the rights, and the label up to its first
   NUL.
3. **Packets.** The answer and the daemon afterwards do not depend on the old contents of
   `msg` exactly if the packet covers these parts.
-/

namespace OmniOS.Security

open Memory

/-! ## Bytes -/

namespace Layout

def msgType : Nat := 0
def seq : Nat := 4
def senderPid : Nat := 8
def tokenId : Nat := 16
def rights : Nat := 24
def boundsStart : Nat := 32
def boundsEnd : Nat := 40
def expiryNs : Nat := 48
def ownerPid : Nat := 56
def label : Nat := 60
def tokenCount : Nat := 128
def error : Nat := 132
/-- `sizeof(omnios_cap_msg_t)`. -/
def size : Nat := 264

end Layout

def uint32At (m : Mem) (offset : Nat) : UInt32 := UInt32.ofNat (load m 4 offset)

def uint64At (m : Mem) (offset : Nat) : UInt64 := UInt64.ofNat (load m 8 offset)

def labelAt (m : Mem) (offset : Nat) : Label :=
  ⟨bytes m OMNIOS_CAP_LABEL_LEN offset, length_bytes m _ offset⟩

/-- The message in the buffer. -/
def decode (m : Mem) : Msg where
  msgType := uint32At m Layout.msgType
  seq := uint32At m Layout.seq
  senderPid := (uint32At m Layout.senderPid).toInt32
  token :=
    { id := uint32At m Layout.tokenId
      rights := uint64At m Layout.rights
      bounds := ⟨uint64At m Layout.boundsStart, uint64At m Layout.boundsEnd⟩
      expiryNs := uint64At m Layout.expiryNs
      ownerPid := (uint32At m Layout.ownerPid).toInt32
      label := labelAt m Layout.label }
  tokenCount := uint32At m Layout.tokenCount
  error := String.ofList ((cString (bytes m 128 Layout.error)).map fun b => Char.ofNat b.toNat)

/-- `recv(fd, &msg, sizeof(msg), MSG_NOSIGNAL)`: a longer packet is cut. -/
def recv (msg : Mem) (packet : List UInt8) : Mem :=
  copy msg (min packet.length Layout.size) 0 fun i => packet.getD i 0

/-- The loop body for a client: an empty read closes the connection. -/
def receive (d : Daemon) (now : UInt64) (msg : Mem) (packet : List UInt8) : Option (Msg × Daemon) :=
  if packet.length = 0 then none else some (handleMessage d now (decode (recv msg packet)))

/-- The answer and the daemon do not depend on what `msg` held before. -/
def Independent (packet : List UInt8) : Prop :=
  ∀ d now msg msg', receive d now msg packet = receive d now msg' packet

/-! ## Reads -/

/-- The bytes of the label that `strncpy` copies. -/
def labelString (label : Label) : List UInt8 :=
  cString (label.val.take (OMNIOS_CAP_LABEL_LEN - 1))

/-- Two messages of one type agree where `handle_message` reads them. -/
def SameRead (r r' : Msg) : Prop :=
  r.seq = r'.seq ∧
  match r.kind with
  | some .request => r.senderPid = r'.senderPid ∧ r.token.rights = r'.token.rights ∧
      labelString r.token.label = labelString r'.token.label
  | some .revoke => r.token.id = r'.token.id
  | some .verify => r.token.id = r'.token.id ∧ r.senderPid = r'.senderPid
  | some .list => r.senderPid = r'.senderPid
  | _ => True

theorem strncpy_congr {dst src src' : Label} {h : OMNIOS_CAP_LABEL_LEN - 1 ≤ OMNIOS_CAP_LABEL_LEN}
    (heq : labelString src = labelString src') :
    strncpy dst src (OMNIOS_CAP_LABEL_LEN - 1) h = strncpy dst src' (OMNIOS_CAP_LABEL_LEN - 1) h := by
  have hcopied : cString (src.val.take (OMNIOS_CAP_LABEL_LEN - 1)) =
      cString (src'.val.take (OMNIOS_CAP_LABEL_LEN - 1)) := heq
  refine Subtype.ext ?_
  dsimp only [strncpy]
  rw [hcopied]

/-- Into a cleared label, `strncpy` copies different strings differently. -/
theorem labelString_of_strncpy {src src' : Label}
    {h h' : OMNIOS_CAP_LABEL_LEN - 1 ≤ OMNIOS_CAP_LABEL_LEN}
    (heq : strncpy Label.zero src (OMNIOS_CAP_LABEL_LEN - 1) h =
      strncpy Label.zero src' (OMNIOS_CAP_LABEL_LEN - 1) h') :
    labelString src = labelString src' := by
  have hzero : cString (Label.zero.val.drop (OMNIOS_CAP_LABEL_LEN - 1)) = [] := rfl
  have hread (l : Label) (hl : OMNIOS_CAP_LABEL_LEN - 1 ≤ OMNIOS_CAP_LABEL_LEN) :
      cString (strncpy Label.zero l (OMNIOS_CAP_LABEL_LEN - 1) hl).val = labelString l := by
    rw [cString_strncpy l hl hzero]
    exact List.take_takeWhile
  rw [← hread src h, heq, hread src' h']

section Reads

variable {d : Daemon} {now : UInt64} {r r' : Msg}

/-- The handler reads no more than that. -/
theorem handleMessage_congr (htype : r.msgType = r'.msgType) (h : SameRead r r') :
    handleMessage d now r = handleMessage d now r' := by
  obtain ⟨hseq, hread⟩ := h
  have hkind : r'.kind = r.kind := congrArg MsgType.ofCode? htype.symm
  unfold handleMessage
  rw [hkind, hseq]
  cases hk : r.kind with
  | none => rw [htype]
  | some kind =>
      rw [hk] at hread
      cases kind with
      | request =>
          obtain ⟨hpid, hrights, hlabel⟩ := hread
          have hgrant : tokenGrant d r.senderPid r.token.rights r.token.label now =
              tokenGrant d r'.senderPid r'.token.rights r'.token.label now := by
            unfold tokenGrant
            rw [hpid, hrights]
            simp only [strncpy_congr hlabel]
          dsimp only
          rw [hgrant, hpid]
      | revoke =>
          have hid : r.token.id = r'.token.id := hread
          dsimp only
          rw [hid]
      | verify =>
          obtain ⟨hid, hpid⟩ := hread
          dsimp only
          rw [hid, hpid]
      | list =>
          have hpid : r.senderPid = r'.senderPid := hread
          dsimp only
          rw [hpid]
      | invalid => rw [htype]
      | grant => rw [htype]
      | deny => rw [htype]
      | forward => rw [htype]

/-- The sequence number is answered as it was sent. -/
theorem seq_handleMessage (d : Daemon) (now : UInt64) (r : Msg) :
    (handleMessage d now r).1.seq = r.seq := by
  unfold handleMessage
  split
  · split
    · rfl
    · dsimp only
      split <;> rfl
  · dsimp only
    split <;> rfl
  · dsimp only
    split <;> rfl
  · rfl
  · rfl

theorem revoke_grant_iff (hkind : r.kind = some .revoke) :
    (handleMessage d now r).1.kind = some .grant ↔
      ∃ t ∈ d.tokenStore.items, t.id = r.token.id := by
  unfold handleMessage
  rw [hkind]
  dsimp only
  unfold tokenRevoke
  cases hfind : d.tokenStore.findIdx? (·.id == r.token.id) with
  | none =>
      refine iff_of_false (denied_ne_grant _ _) ?_
      rintro ⟨t, ht, hid⟩
      have hne := Slots.findIdx?_eq_none.mp hfind t ht
      simp [hid] at hne
  | some i =>
      refine iff_of_true rfl ⟨_, Slots.get_mem_items _ i, ?_⟩
      have hid := Slots.findIdx?_some hfind
      simpa using hid

theorem verify_grant_iff (hkind : r.kind = some .verify) :
    (handleMessage d now r).1.kind = some .grant ↔
      ∃ t, tokenFind d r.token.id = some t ∧ t.ownerPid = r.senderPid ∧ now ≤ t.expiryNs := by
  rw [← tokenVerify_eq_zero]
  unfold handleMessage
  rw [hkind]
  dsimp only
  split
  · next hneg => exact iff_of_false (denied_ne_grant _ _) (not_not_intro hneg)
  · next hpos => exact iff_of_true rfl hpos

/-- No tokens, and one process that may ask for anything. -/
def grantor (pid : Int32) : Daemon where
  tokenStore := Slots.empty Token.zero
  nextTokenId := 1
  policyTable := (Slots.empty ⟨0, .strict, 0⟩).push (by decide) ⟨pid, .app, 0xFFFFFFFFFFFFFFFF⟩

/-- One token, and no policies. -/
def holder (t : Token) : Daemon where
  tokenStore := (Slots.empty Token.zero).push (by decide) t
  nextTokenId := 1
  policyTable := Slots.empty ⟨0, .strict, 0⟩

theorem within_all (rights : Rights) : Within rights 0xFFFFFFFFFFFFFFFF := by
  intro i hi
  have hall : (0xFFFFFFFFFFFFFFFF : Rights).toNat = 2 ^ 64 - 1 := rfl
  have hlt : i < 64 := by
    by_contra hge
    have hsmall : rights.toNat < 2 ^ i :=
      lt_of_lt_of_le rights.toNat_lt (Nat.pow_le_pow_right Nat.two_pos (Nat.le_of_not_lt hge))
    rw [Nat.testBit_lt_two_pow hsmall] at hi
    cases hi
  rw [hall, Nat.testBit_two_pow_sub_one]
  exact decide_eq_true hlt

theorem grantor_allows_iff {pid pid' : Int32} {rights : Rights} :
    policyAllows (grantor pid) pid' rights = true ↔ pid' = pid := by
  have hitems : (grantor pid).policyTable.items = [⟨pid, .app, 0xFFFFFFFFFFFFFFFF⟩] := by
    rw [grantor, Slots.items_push]
    rfl
  rw [policyAllows_iff, hitems, List.find?_singleton]
  constructor
  · rintro ⟨e, he, -⟩
    have hpid := (Option.ite_none_right_eq_some.mp he).1
    exact (beq_iff_eq.mp hpid).symm
  · rintro rfl
    exact ⟨_, if_pos (beq_self_eq_true _), within_all rights⟩

theorem items_holder (t : Token) : (holder t).tokenStore.items = [t] := by
  rw [holder, Slots.items_push]
  rfl

theorem request_read (hkind : r.kind = some .request) (hkind' : r'.kind = some .request)
    (h : ∀ d now, handleMessage d now r = handleMessage d now r') :
    r.senderPid = r'.senderPid ∧ r.token.rights = r'.token.rights ∧
      labelString r.token.label = labelString r'.token.label := by
  -- served by a daemon that knows only the sender of the first message
  have hserved (q : Msg) (hq : q.kind = some .request) :
      (handleMessage (grantor r.senderPid) 0 q).1.kind = some .grant ↔ q.senderPid = r.senderPid := by
    have hroom : 0 < OMNIOS_CAP_TOKEN_MAX := by decide
    have hid : ¬ (1 : Int32) < 0 := by decide
    rw [handleMessage_grant_iff hq, grantor_allows_iff]
    exact ⟨fun hall => hall.2.1, fun hpid => ⟨hroom, hpid, hid⟩⟩
  have hgrant : (handleMessage (grantor r.senderPid) 0 r).1.kind = some .grant :=
    (hserved r hkind).mpr rfl
  have hgrant' : (handleMessage (grantor r.senderPid) 0 r').1.kind = some .grant := by
    rw [← h]
    exact hgrant
  refine ⟨((hserved r' hkind').mp hgrant').symm, ?_⟩
  -- rights and label are in the token that both store
  obtain ⟨hroom, t, ht, hd⟩ := handleMessage_granted hkind hgrant
  obtain ⟨hroom', t', ht', hd'⟩ := handleMessage_granted hkind' hgrant'
  have hitems : [t] = [t'] := by
    have hstore : ((grantor r.senderPid).tokenStore.push hroom t).items =
        ((grantor r.senderPid).tokenStore.push hroom' t').items := by
      have hsame := hd.symm.trans ((congrArg Prod.snd (h _ _)).trans hd')
      exact congrArg (fun d : Daemon => d.tokenStore.items) hsame
    rw [Slots.items_push, Slots.items_push] at hstore
    exact List.append_cancel_left hstore
  obtain rfl : t = t' := List.singleton_injective hitems
  obtain ⟨i, hi, hlabel⟩ := ht.label
  obtain ⟨i', hi', hlabel'⟩ := ht'.label
  exact ⟨ht.rights.symm.trans ht'.rights, labelString_of_strncpy (hlabel.symm.trans hlabel')⟩

theorem revoke_read (hkind : r.kind = some .revoke) (hkind' : r'.kind = some .revoke)
    (h : ∀ d now, handleMessage d now r = handleMessage d now r') : r.token.id = r'.token.id := by
  -- the token that the first message names is there to be revoked
  have hgrant : (handleMessage (holder r.token) 0 r').1.kind = some .grant := by
    rw [← h, revoke_grant_iff hkind, items_holder]
    exact ⟨r.token, List.mem_cons_self, rfl⟩
  rw [revoke_grant_iff hkind', items_holder] at hgrant
  obtain ⟨t, ht, hid⟩ := hgrant
  rw [← hid, List.mem_singleton.mp ht]

theorem verify_read (hkind : r.kind = some .verify) (hkind' : r'.kind = some .verify)
    (h : ∀ d now, handleMessage d now r = handleMessage d now r') :
    r.token.id = r'.token.id ∧ r.senderPid = r'.senderPid := by
  have hfind (t : Token) (id : UInt32) :
      tokenFind (holder t) id = if t.id == id then some t else none := by
    rw [tokenFind, items_holder, List.find?_singleton]
  -- a token that never expires, with the owner that the first message names
  have hgrant : (handleMessage (holder { r.token with ownerPid := r.senderPid }) 0 r').1.kind =
      some .grant := by
    rw [← h, verify_grant_iff hkind, hfind]
    exact ⟨_, if_pos (beq_self_eq_true _), rfl, UInt64.zero_le⟩
  rw [verify_grant_iff hkind', hfind] at hgrant
  obtain ⟨t, ht, howner, -⟩ := hgrant
  obtain ⟨hid, ht⟩ := Option.ite_none_right_eq_some.mp ht
  cases ht
  exact ⟨beq_iff_eq.mp hid, howner⟩

theorem list_read (hkind : r.kind = some .list) (hkind' : r'.kind = some .list)
    (h : ∀ d now, handleMessage d now r = handleMessage d now r') : r.senderPid = r'.senderPid := by
  have hcount (q : Msg) (hq : q.kind = some .list) (d : Daemon) :
      (handleMessage d 0 q).1.tokenCount =
        UInt32.ofNat (d.tokenStore.items.countP (·.ownerPid == q.senderPid)) := by
    unfold handleMessage
    rw [hq]
  -- one token, owned by the sender that the first message names
  have hone := congrArg (fun answer => answer.1.tokenCount)
    (h (holder { r.token with ownerPid := r.senderPid }) 0)
  dsimp only at hone
  rw [hcount r hkind, hcount r' hkind', items_holder, List.countP_singleton, List.countP_singleton,
    if_pos (beq_self_eq_true _)] at hone
  by_contra hne
  rw [if_neg (by simpa using hne)] at hone
  exact absurd hone (by decide)

/-- For every part that the handler reads there is a daemon that answers differently. -/
theorem sameRead_of_eq (htype : r.msgType = r'.msgType)
    (h : ∀ d now, handleMessage d now r = handleMessage d now r') : SameRead r r' := by
  have hkind : r'.kind = r.kind := congrArg MsgType.ofCode? htype.symm
  constructor
  · rw [← seq_handleMessage boot.daemon 0 r, h, seq_handleMessage]
  · split
    · next hk => exact request_read hk (hkind.trans hk) h
    · next hk => exact revoke_read hk (hkind.trans hk) h
    · next hk => exact verify_read hk (hkind.trans hk) h
    · next hk => exact list_read hk (hkind.trans hk) h
    · trivial

end Reads

/-! ## Packets -/

/-- How many bytes of a message of the type are read, the label apart. -/
def needs : Option MsgType → Nat
  | some .request => Layout.rights + 8
  | some .revoke => Layout.tokenId + 4
  | some .verify => Layout.tokenId + 4
  | some .list => Layout.senderPid + 4
  | _ => Layout.seq + 4

/-- All of the label was received that `strncpy` may copy, or a NUL in it. -/
def LabelReceived (packet : List UInt8) : Prop :=
  Layout.label + (OMNIOS_CAP_LABEL_LEN - 1) ≤ packet.length ∨
    0 ∈ (packet.drop Layout.label).take (OMNIOS_CAP_LABEL_LEN - 1)

/-- The packet is as long as a message of its type is read. -/
def Covers (packet : List UInt8) : Prop :=
  let kind := (decode (recv (fun _ => 0) packet)).kind
  needs kind ≤ packet.length ∧ (kind = some .request → LabelReceived packet)

section Packets

variable {m m' : Mem} {packet : List UInt8} {offset : Nat}

theorem recv_received {i : Nat} (hi : i < packet.length) (hsize : i < Layout.size) :
    recv m packet i = packet.getD i 0 := by
  rw [recv, copy_apply_of_mem _ _ (by omega)]
  rfl

theorem recv_kept {i : Nat} (hi : packet.length ≤ i) : recv m packet i = m i :=
  copy_apply_of_notMem m _ (by omega)

theorem uint32At_eq_iff : uint32At m offset = uint32At m' offset ↔ load m 4 offset = load m' 4 offset := by
  have hlt : load m 4 offset < 2 ^ 32 := load_lt m 4 offset
  have hlt' : load m' 4 offset < 2 ^ 32 := load_lt m' 4 offset
  rw [← UInt32.toNat_inj, uint32At, uint32At, UInt32.toNat_ofNat', UInt32.toNat_ofNat',
    Nat.mod_eq_of_lt hlt, Nat.mod_eq_of_lt hlt']

theorem uint64At_eq_iff : uint64At m offset = uint64At m' offset ↔ load m 8 offset = load m' 8 offset := by
  have hlt : load m 8 offset < 2 ^ 64 := load_lt m 8 offset
  have hlt' : load m' 8 offset < 2 ^ 64 := load_lt m' 8 offset
  rw [← UInt64.toNat_inj, uint64At, uint64At, UInt64.toNat_ofNat', UInt64.toNat_ofNat',
    Nat.mod_eq_of_lt hlt, Nat.mod_eq_of_lt hlt']

/-- A field that was received does not depend on the old contents. -/
theorem load_received {n : Nat} (h : offset + n ≤ packet.length) (hsize : offset + n ≤ Layout.size) :
    load (recv m packet) n offset = load (recv m' packet) n offset := by
  apply load_congr
  intro x hx hx'
  rw [recv_received (by omega) (by omega), recv_received (by omega) (by omega)]

/-- A field whose last byte was not received keeps it: zero here, all ones there. -/
theorem received_of_load {n : Nat} (hn : 0 < n)
    (h : load (recv (fun _ => 0) packet) n offset = load (recv (fun _ => 255) packet) n offset) :
    offset + n ≤ packet.length := by
  by_contra hshort
  have hlast := load_eq_iff.mp h (offset + n - 1) (by omega) (by omega)
  rw [recv_kept (by omega), recv_kept (by omega)] at hlast
  exact absurd hlast (by decide)

theorem cString_cons_eq_iff {b b' : UInt8} {bs bs' : List UInt8} :
    cString (b :: bs) = cString (b' :: bs') ↔ b = b' ∧ (b ≠ 0 → cString bs = cString bs') := by
  have hcons (c : UInt8) (cs : List UInt8) :
      cString (c :: cs) = if c = 0 then [] else c :: cString cs := by
    by_cases hc : c = 0
    · simp [cString, hc]
    · simp [cString, hc]
  rw [hcons, hcons]
  by_cases hb : b = 0
  · by_cases hb' : b' = 0
    · simp [hb, hb']
    · simp [hb, hb', Ne.symm hb']
  · by_cases hb' : b' = 0
    · simp [hb, hb']
    · simp [hb, hb']

/-- `strncpy` reads a byte only if all bytes before it are not NUL. -/
theorem cString_bytes_eq_iff {n a : Nat} : cString (bytes m n a) = cString (bytes m' n a) ↔
    ∀ i < n, (∀ j < i, m (a + j) ≠ 0) → m (a + i) = m' (a + i) := by
  induction n generalizing a with
  | zero => exact iff_of_true rfl fun i hi => absurd hi (Nat.not_lt_zero i)
  | succ n ih =>
      have hshift (i : Nat) : a + (i + 1) = a + 1 + i := by omega
      rw [bytes_succ, bytes_succ, cString_cons_eq_iff, ih]
      constructor
      · rintro ⟨hfirst, hrest⟩ i hi hbefore
        cases i with
        | zero => exact hfirst
        | succ i =>
            rw [hshift i]
            refine hrest (hbefore 0 (Nat.succ_pos i)) i (by omega) ?_
            intro j hj
            rw [← hshift j]
            exact hbefore (j + 1) (by omega)
      · intro h
        refine ⟨h 0 (Nat.succ_pos n) fun j hj => absurd hj (Nat.not_lt_zero j), ?_⟩
        intro hne i hi hbefore
        rw [← hshift i]
        refine h (i + 1) (by omega) ?_
        intro j hj
        cases j with
        | zero => exact hne
        | succ j =>
            rw [hshift j]
            exact hbefore j (by omega)

theorem labelString_labelAt (m : Mem) : labelString (labelAt m Layout.label) =
    cString (bytes m (OMNIOS_CAP_LABEL_LEN - 1) Layout.label) := by
  rw [labelString, labelAt, take_bytes m (Nat.sub_le _ _)]

/-- A NUL among the received bytes of the label. -/
theorem nul_received_iff :
    0 ∈ (packet.drop Layout.label).take (OMNIOS_CAP_LABEL_LEN - 1) ↔
      ∃ j < OMNIOS_CAP_LABEL_LEN - 1, Layout.label + j < packet.length ∧
        packet.getD (Layout.label + j) 0 = 0 := by
  rw [List.mem_iff_getElem?]
  constructor
  · rintro ⟨j, hj⟩
    rw [List.getElem?_take] at hj
    split at hj
    · next hlt =>
        rw [List.getElem?_drop] at hj
        obtain ⟨hreceived, -⟩ := List.getElem?_eq_some_iff.mp hj
        exact ⟨j, hlt, hreceived, by rw [List.getD_eq_getElem?_getD, hj]; rfl⟩
    · cases hj
  · rintro ⟨j, hlt, hreceived, hzero⟩
    rw [List.getD_eq_getElem?_getD, List.getElem?_eq_getElem hreceived, Option.getD_some] at hzero
    refine ⟨j, ?_⟩
    rw [List.getElem?_take, if_pos hlt, List.getElem?_drop, List.getElem?_eq_getElem hreceived, hzero]

/-- The string in the label does not depend on the old contents exactly if the label was
received. -/
theorem labelReceived_iff :
    (∀ m m', labelString (labelAt (recv m packet) Layout.label) =
      labelString (labelAt (recv m' packet) Layout.label)) ↔ LabelReceived packet := by
  simp only [labelString_labelAt, cString_bytes_eq_iff]
  have hlabel : Layout.label = 60 := rfl
  have hlen : OMNIOS_CAP_LABEL_LEN - 1 = 63 := rfl
  have hsize : Layout.size = 264 := rfl
  constructor
  · intro h
    by_contra hmissing
    obtain ⟨hshort, hnul⟩ := not_or.mp hmissing
    rw [nul_received_iff] at hnul
    -- the first byte of the label behind the end of the packet is read
    have hread := h (fun _ => 0) (fun _ => 255) (packet.length - Layout.label) (by omega) ?_
    · rw [recv_kept (by omega), recv_kept (by omega)] at hread
      exact absurd hread (by decide)
    · intro j hj
      rw [recv_received (by omega) (by omega)]
      intro hzero
      exact hnul ⟨j, by omega, by omega, hzero⟩
  · intro hreceived m m' i hi hbefore
    by_cases hlt : Layout.label + i < packet.length
    · rw [recv_received hlt (by omega), recv_received hlt (by omega)]
    · -- it would be read only if the NUL before it were not one
      exfalso
      rcases hreceived with hall | hnul
      · omega
      · obtain ⟨j, hj, hjreceived, hzero⟩ := nul_received_iff.mp hnul
        refine hbefore j (by omega) ?_
        rw [recv_received hjreceived (by omega), hzero]

theorem senderPid_eq_iff : (decode m).senderPid = (decode m').senderPid ↔
    load m 4 Layout.senderPid = load m' 4 Layout.senderPid := by
  rw [← uint32At_eq_iff]
  constructor
  · intro h
    have huint := congrArg Int32.toUInt32 h
    simpa [decode] using huint
  · intro h
    exact congrArg UInt32.toInt32 h

theorem seq_le_needs (kind : Option MsgType) : Layout.seq + 4 ≤ needs kind := by
  unfold needs
  split <;> decide

/-- Past the sequence number, the type does not depend on the old contents. -/
theorem msgType_received (h : Layout.seq + 4 ≤ packet.length) (m m' : Mem) :
    (decode (recv m packet)).msgType = (decode (recv m' packet)).msgType := by
  have hseq : Layout.seq = Layout.msgType + 4 := rfl
  exact uint32At_eq_iff.mpr (load_received (by omega) (by decide))

theorem kind_received (h : Layout.seq + 4 ≤ packet.length) (m : Mem) :
    (decode (recv m packet)).kind = (decode (recv (fun _ => 0) packet)).kind :=
  congrArg MsgType.ofCode? (msgType_received h m _)

theorem sameRead_of_covers (h : Covers packet) (m m' : Mem) :
    SameRead (decode (recv m packet)) (decode (recv m' packet)) := by
  have hneeds : needs (decode (recv (fun _ => 0) packet)).kind ≤ packet.length := h.1
  have hlabel := h.2
  have hlength := (seq_le_needs _).trans hneeds
  have hword {offset : Nat} (hoffset : offset + 4 ≤ packet.length)
      (hsize : offset + 4 ≤ Layout.size) :
      uint32At (recv m packet) offset = uint32At (recv m' packet) offset :=
    uint32At_eq_iff.mpr (load_received hoffset hsize)
  refine ⟨hword hlength (by decide), ?_⟩
  rw [kind_received hlength m]
  have hsender (hoffset : Layout.senderPid + 4 ≤ packet.length) :
      (decode (recv m packet)).senderPid = (decode (recv m' packet)).senderPid :=
    senderPid_eq_iff.mpr (load_received hoffset (by decide))
  have hfields : Layout.senderPid + 4 ≤ Layout.tokenId + 4 ∧
      Layout.tokenId + 4 ≤ Layout.rights + 8 := by decide
  generalize (decode (recv (fun _ => 0) packet)).kind = kind at hneeds hlabel ⊢
  split
  · have hrights : Layout.rights + 8 ≤ packet.length := hneeds
    refine ⟨hsender (by omega), ?_, labelReceived_iff.mpr (hlabel rfl) m m'⟩
    exact uint64At_eq_iff.mpr (load_received hrights (by decide))
  · exact hword hneeds (by decide)
  · have hid : Layout.tokenId + 4 ≤ packet.length := hneeds
    exact ⟨hword hid (by decide), hsender (by omega)⟩
  · exact hsender hneeds
  · trivial

/-- The parts that are read have to be in the packet. -/
theorem covers_of_sameRead (hlength : Layout.seq + 4 ≤ packet.length)
    (h : ∀ m m', SameRead (decode (recv m packet)) (decode (recv m' packet))) : Covers packet := by
  have hfields := (h (fun _ => 0) (fun _ => 255)).2
  have hlabel (hkind : (decode (recv (fun _ => 0) packet)).kind = some .request) :
      LabelReceived packet := by
    refine labelReceived_iff.mp ?_
    intro m m'
    have hread := (h m m').2
    rw [kind_received hlength m, hkind] at hread
    exact hread.2.2
  refine ⟨?_, hlabel⟩
  generalize (decode (recv (fun _ => 0) packet)).kind = kind at hfields ⊢
  unfold needs
  split
  · exact received_of_load (by decide) (uint64At_eq_iff.mp hfields.2.1)
  · exact received_of_load (by decide) (uint32At_eq_iff.mp hfields)
  · exact received_of_load (by decide) (uint32At_eq_iff.mp hfields.1)
  · exact received_of_load (by decide) (senderPid_eq_iff.mp hfields)
  · exact hlength

end Packets

/-- For a packet of at least one byte, the answer and the daemon afterwards do not depend on
what the receive buffer held before exactly if the packet covers what is read of it. -/
theorem independent_iff_covers {packet : List UInt8} (hpacket : packet ≠ []) :
    Independent packet ↔ Covers packet := by
  have hreceive (d : Daemon) (now : UInt64) (m : Mem) :
      receive d now m packet = some (handleMessage d now (decode (recv m packet))) :=
    if_neg fun hzero => hpacket (List.eq_nil_of_length_eq_zero hzero)
  constructor
  · intro h
    have hsame (m m' : Mem) (d : Daemon) (now : UInt64) :
        handleMessage d now (decode (recv m packet)) =
          handleMessage d now (decode (recv m' packet)) := by
      have heq := h d now m m'
      rw [hreceive, hreceive] at heq
      exact Option.some.inj heq
    -- every answer repeats the sequence number, so all of it was received
    have hlength : Layout.seq + 4 ≤ packet.length := by
      have hseq := congrArg (fun answer => answer.1.seq)
        (hsame (fun _ => 0) (fun _ => 255) boot.daemon 0)
      rw [seq_handleMessage, seq_handleMessage] at hseq
      exact received_of_load (by decide) (uint32At_eq_iff.mp hseq)
    refine covers_of_sameRead hlength ?_
    intro m m'
    exact sameRead_of_eq (msgType_received hlength m m') (hsame m m')
  · intro h d now m m'
    have hlength := (seq_le_needs _).trans h.1
    rw [hreceive, hreceive,
      handleMessage_congr (msgType_received hlength m m') (sameRead_of_covers h m m')]

/-- A LIST message cut behind the sender. -/
theorem list_packet_independent : Independent [7, 0, 0, 0, 0, 0, 0, 0, 1, 0, 0, 0] := by
  refine (independent_iff_covers (by decide)).mpr ⟨by decide, ?_⟩
  intro hkind
  exact absurd hkind (by decide)

/-- The first eight bytes of a REVOKE message, read right after another client's VERIFY
message for token 1: the token is revoked. Over a cleared buffer they are denied. -/
theorem short_revoke_differs :
    ∃ msg a a', msg = recv (fun _ => 0) [6, 0, 0, 0, 0, 0, 0, 0, 1, 0, 0, 0, 0, 0, 0, 0, 1, 0, 0, 0] ∧
      Lts.Reachable system oneToken ∧
      receive oneToken.daemon 0 msg [4, 0, 0, 0, 0, 0, 0, 0] = some a ∧
      receive oneToken.daemon 0 (fun _ => 0) [4, 0, 0, 0, 0, 0, 0, 0] = some a' ∧
      a.1.kind = some .grant ∧ a.2.tokenStore.count = 0 ∧
      a'.1.kind = some .deny ∧ a'.2.tokenStore.count = 1 :=
  ⟨_, _, _, rfl, oneToken_reachable, rfl, rfl, by decide +kernel, by decide +kernel,
    by decide +kernel, by decide +kernel⟩

end OmniOS.Security
