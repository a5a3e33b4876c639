import Mathlib.Data.List.TakeWhile

/-!
# OmniOS.Security.Protocol — messages of the capability daemon

`userspace/security/capability_protocol.h`: rights masks, tokens, messages and
the default rights of each seccomp profile, with the C string functions the
label field goes through.
-/

namespace OmniOS.Security

def OMNIOS_CAP_TOKEN_MAX : Nat := 64
def OMNIOS_CAP_LABEL_LEN : Nat := 64

/-! ## Rights -/

/-- `omnios_cap_rights_t`: one bit per right. -/
abbrev Rights := UInt64

def OMNIOS_CAP_MEMORY_READ : Rights := (1 : UInt64) <<< 0
def OMNIOS_CAP_MEMORY_WRITE : Rights := (1 : UInt64) <<< 1
def OMNIOS_CAP_MEMORY_EXEC : Rights := (1 : UInt64) <<< 2
def OMNIOS_CAP_IPC_SEND : Rights := (1 : UInt64) <<< 3
def OMNIOS_CAP_IPC_RECV : Rights := (1 : UInt64) <<< 4
def OMNIOS_CAP_FILE_READ : Rights := (1 : UInt64) <<< 5
def OMNIOS_CAP_FILE_WRITE : Rights := (1 : UInt64) <<< 6
def OMNIOS_CAP_NET_CONNECT : Rights := (1 : UInt64) <<< 7
def OMNIOS_CAP_NET_BIND : Rights := (1 : UInt64) <<< 8
def OMNIOS_CAP_DISPLAY_ACCESS : Rights := (1 : UInt64) <<< 9
def OMNIOS_CAP_INPUT_ACCESS : Rights := (1 : UInt64) <<< 10
def OMNIOS_CAP_AUDIO_PLAYBACK : Rights := (1 : UInt64) <<< 11
def OMNIOS_CAP_SENSOR_ACCESS : Rights := (1 : UInt64) <<< 13
def OMNIOS_CAP_NOTIFICATION : Rights := (1 : UInt64) <<< 14

/-- Every right in `a` is in `b`. -/
def Within (a b : Rights) : Prop :=
  ∀ i, a.toNat.testBit i = true → b.toNat.testBit i = true

/-- The test the daemon makes is inclusion. -/
theorem within_iff {a b : Rights} : Within a b ↔ b &&& a = a := by
  constructor
  · intro h
    apply UInt64.toNat_inj.mp
    rw [UInt64.toNat_and]
    apply Nat.eq_of_testBit_eq
    intro i
    rw [Nat.testBit_and]
    cases ha : a.toNat.testBit i with
    | false => exact Bool.and_false _
    | true => rw [h i ha, Bool.and_true]
  · intro h i ha
    rw [← h, UInt64.toNat_and, Nat.testBit_and, Bool.and_eq_true] at ha
    exact ha.1

/-- `enum omnios_seccomp_hint`. -/
inductive SeccompHint where
  | strict
  | app
  | container
  | compositor
deriving DecidableEq, Repr

def omniosCapDefaultRights : SeccompHint → Rights
  | .strict => OMNIOS_CAP_MEMORY_READ ||| OMNIOS_CAP_MEMORY_WRITE
  | .app =>
      OMNIOS_CAP_MEMORY_READ ||| OMNIOS_CAP_MEMORY_WRITE |||
      OMNIOS_CAP_FILE_READ ||| OMNIOS_CAP_FILE_WRITE |||
      OMNIOS_CAP_NET_CONNECT ||| OMNIOS_CAP_NOTIFICATION |||
      OMNIOS_CAP_SENSOR_ACCESS
  | .container =>
      OMNIOS_CAP_MEMORY_READ ||| OMNIOS_CAP_MEMORY_WRITE |||
      OMNIOS_CAP_MEMORY_EXEC ||| OMNIOS_CAP_FILE_READ |||
      OMNIOS_CAP_FILE_WRITE ||| OMNIOS_CAP_NET_CONNECT |||
      OMNIOS_CAP_NET_BIND ||| OMNIOS_CAP_IPC_SEND |||
      OMNIOS_CAP_IPC_RECV
  | .compositor =>
      OMNIOS_CAP_MEMORY_READ ||| OMNIOS_CAP_MEMORY_WRITE |||
      OMNIOS_CAP_DISPLAY_ACCESS ||| OMNIOS_CAP_INPUT_ACCESS |||
      OMNIOS_CAP_IPC_SEND ||| OMNIOS_CAP_IPC_RECV |||
      OMNIOS_CAP_AUDIO_PLAYBACK

/-! ## Labels -/

/-- `char label[OMNIOS_CAP_LABEL_LEN]`. -/
abbrev Label := { bytes : List UInt8 // bytes.length = OMNIOS_CAP_LABEL_LEN }

def Label.zero : Label := ⟨List.replicate OMNIOS_CAP_LABEL_LEN 0, List.length_replicate⟩

/-- The bytes before the first NUL. -/
def cString (bytes : List UInt8) : List UInt8 := bytes.takeWhile (· != 0)

/-- `strncpy(dst, src, n)`: at most `n` bytes of the string, the rest of the
`n` bytes zero, what lies beyond untouched. -/
def strncpy (dst src : Label) (n : Nat) (hn : n ≤ OMNIOS_CAP_LABEL_LEN) : Label :=
  ⟨cString (src.val.take n) ++ List.replicate (n - (cString (src.val.take n)).length) 0 ++
    dst.val.drop n, by
    have hcopied : (cString (src.val.take n)).length ≤ n :=
      (List.takeWhile_prefix _).length_le.trans (List.length_take_le _ _)
    simp only [List.length_append, List.length_replicate, List.length_drop, dst.property]
    omega⟩

theorem drop_strncpy (dst src : Label) (n : Nat) (hn : n ≤ OMNIOS_CAP_LABEL_LEN) :
    (strncpy dst src n hn).val.drop n = dst.val.drop n := by
  have hcopied : (cString (src.val.take n)).length ≤ n :=
    (List.takeWhile_prefix _).length_le.trans (List.length_take_le _ _)
  refine List.drop_left' ?_
  simp only [List.length_append, List.length_replicate]
  omega

/-- Where the byte after the copied ones is NUL, the copy is the string cut to
`n` bytes. -/
theorem cString_strncpy {dst : Label} (src : Label) {n : Nat} (hn : n ≤ OMNIOS_CAP_LABEL_LEN)
    (hdst : cString (dst.val.drop n) = []) :
    cString (strncpy dst src n hn).val = (cString src.val).take n := by
  have hcut : (cString src.val).take n = cString (src.val.take n) := List.take_takeWhile
  have hzeros : ∀ k, cString (List.replicate k 0 ++ dst.val.drop n) = [] := by
    intro k
    cases k with
    | zero => exact hdst
    | succ k => rfl
  have hnonzero : ∀ b ∈ cString (src.val.take n), (b != 0) = true := fun b hb =>
    List.mem_takeWhile_imp (p := (· != 0)) hb
  dsimp only [strncpy]
  rw [hcut, List.append_assoc, cString, List.takeWhile_append_of_pos hnonzero]
  exact (congrArg _ (hzeros _)).trans (List.append_nil _)

/-! ## Messages -/

/-- `omnios_cap_bounds_t`. -/
structure Bounds where
  start : UInt64
  end_ : UInt64
deriving DecidableEq, Repr

/-- `omnios_cap_token_t`. -/
structure Token where
  id : UInt32
  rights : Rights
  bounds : Bounds
  expiryNs : UInt64
  ownerPid : Int32
  label : Label
deriving DecidableEq

/-- All bytes zero. -/
def Token.zero : Token := ⟨0, 0, ⟨0, 0⟩, 0, 0, Label.zero⟩

/-- `enum omnios_cap_msg_type`. -/
inductive MsgType where
  | invalid
  | request
  | grant
  | deny
  | revoke
  | forward
  | verify
  | list
deriving DecidableEq, Repr

def MsgType.code : MsgType → UInt32
  | .invalid => 0
  | .request => 1
  | .grant => 2
  | .deny => 3
  | .revoke => 4
  | .forward => 5
  | .verify => 6
  | .list => 7

def MsgType.ofCode? (c : UInt32) : Option MsgType :=
  [invalid, request, grant, deny, revoke, forward, verify, list].find? (·.code == c)

@[simp] theorem MsgType.ofCode?_code (t : MsgType) : ofCode? t.code = some t := by
  cases t <;> rfl

/-- `omnios_cap_msg_t`; `error` is the string in the `error` field. -/
structure Msg where
  msgType : UInt32
  seq : UInt32
  senderPid : Int32
  token : Token
  tokenCount : UInt32
  error : String

/-- What `switch (req->msg_type)` goes by; no client type is `none`. -/
def Msg.kind (m : Msg) : Option MsgType := MsgType.ofCode? m.msgType

/-- A message with all other fields zero, as the client library builds them. -/
def Msg.plain (t : MsgType) (senderPid : Int32) (token : Token) : Msg :=
  ⟨t.code, 0, senderPid, token, 0, ""⟩

end OmniOS.Security
