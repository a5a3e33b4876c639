import OmniOS.Lib.Lts
import OmniOS.Lib.Slots
import OmniOS.Security.Protocol

/-!
# OmniOS.Security.Daemon — the capability daemon

`userspace/security/capability_daemon.c`: the policy table, the token store,
`handle_message`, and the poll loop of `main` that accepts clients and reads
their messages.

`token_store[0..token_count)` and `policy_table[0..policy_count)` are slot
tables; slots beyond the count keep their old contents, as `token_grant`
overwrites all of a slot but the last byte of its label. Each call of `now_ns`
gets its reading as an argument. Integers have their C widths, and
`next_token_id++` wraps.
-/

namespace OmniOS.Security

def MAX_POLICY : Nat := 128

def EPERM : Int32 := 1
def ENOENT : Int32 := 2
def ENOSPC : Int32 := 28
def ETIME : Int32 := 62

def strerror (errnum : Int32) : String :=
  if errnum = EPERM then "Operation not permitted"
  else if errnum = ENOENT then "No such file or directory"
  else if errnum = ENOSPC then "No space left on device"
  else if errnum = ETIME then "Timer expired"
  else "Unknown error " ++ toString errnum

/-- `struct policy_entry`. -/
structure PolicyEntry where
  pid : Int32
  hint : SeccompHint
  maxRights : Rights
deriving DecidableEq

structure Daemon where
  tokenStore : Slots Token OMNIOS_CAP_TOKEN_MAX
  nextTokenId : Int32
  policyTable : Slots PolicyEntry MAX_POLICY

/-! ## Policy engine -/

def policyLookup (d : Daemon) (pid : Int32) : Option (Fin d.policyTable.count) :=
  d.policyTable.findIdx? (·.pid == pid)

def policyRegister (d : Daemon) (pid : Int32) (hint : SeccompHint) : Daemon :=
  match policyLookup d pid with
  | some _ => d
  | none =>
      if h : d.policyTable.count < MAX_POLICY then
        { d with policyTable := d.policyTable.push h ⟨pid, hint, omniosCapDefaultRights hint⟩ }
      else d

def policyAllows (d : Daemon) (pid : Int32) (requested : Rights) : Bool :=
  match policyLookup d pid with
  | none => false
  | some idx => (d.policyTable.get idx).maxRights &&& requested == requested

/-! ## Token operations -/

/-- `3600ULL * 1000000000ULL`. -/
def tokenLifetime : UInt64 := 3600 * 1000000000

/-- A negative error or the new id, as the C function returns it. -/
def tokenGrant (d : Daemon) (owner : Int32) (rights : Rights) (label : Label) (now : UInt64) :
    Int32 × Daemon :=
  if h : d.tokenStore.count < OMNIOS_CAP_TOKEN_MAX then
    if policyAllows d owner rights then
      let old := d.tokenStore.slot ⟨d.tokenStore.count, h⟩
      let token : Token :=
        { id := d.nextTokenId.toUInt32
          rights := rights
          bounds := ⟨0, 0⟩
          expiryNs := now + tokenLifetime
          ownerPid := owner
          label := strncpy old.label label (OMNIOS_CAP_LABEL_LEN - 1) (Nat.sub_le _ _) }
      (token.id.toInt32,
        { d with tokenStore := d.tokenStore.push h token, nextTokenId := d.nextTokenId + 1 })
    else (-EPERM, d)
  else (-ENOSPC, d)

def tokenFind (d : Daemon) (id : UInt32) : Option Token :=
  d.tokenStore.items.find? (·.id == id)

def tokenRevoke (d : Daemon) (id : UInt32) : Int32 × Daemon :=
  match d.tokenStore.findIdx? (·.id == id) with
  | some i => (0, { d with tokenStore := d.tokenStore.removeAt i })
  | none => (-ENOENT, d)

def tokenVerify (d : Daemon) (id : UInt32) (requester : Int32) (now : UInt64) : Int32 :=
  match tokenFind d id with
  | none => -ENOENT
  | some t =>
      if t.ownerPid ≠ requester then -EPERM
      else if now > t.expiryNs then -ETIME
      else 0

/-! ## Messages -/

/-- The answer and the daemon afterwards. `token_find` after a grant or a
successful verify does not return NULL (`tokenFind_tokenGrant`,
`tokenVerify_eq_zero`). -/
def handleMessage (d : Daemon) (now : UInt64) (req : Msg) : Msg × Daemon :=
  let resp : Msg := ⟨MsgType.deny.code, req.seq, 0, Token.zero, 0, ""⟩
  match req.kind with
  | some .request =>
      match policyLookup d req.senderPid with
      | none => ({ resp with error := "unknown pid " ++ toString req.senderPid }, d)
      | some _ =>
          let (tid, d) := tokenGrant d req.senderPid req.token.rights req.token.label now
          if tid < 0 then
            ({ resp with error := "grant failed: " ++ strerror (-tid) }, d)
          else
            let rights := ((tokenFind d tid.toUInt32).map (·.rights)).getD 0
            ({ resp with
                msgType := MsgType.grant.code
                token := { Token.zero with id := tid.toUInt32, rights := rights } }, d)
  | some .revoke =>
      let (ret, d) := tokenRevoke d req.token.id
      if ret < 0 then
        ({ resp with error := "revoke failed: " ++ strerror (-ret) }, d)
      else ({ resp with msgType := MsgType.grant.code }, d)
  | some .verify =>
      let ret := tokenVerify d req.token.id req.senderPid now
      if ret < 0 then
        ({ resp with error := "verify failed: " ++ strerror (-ret) }, d)
      else
        ({ resp with
            msgType := MsgType.grant.code
            token := (tokenFind d req.token.id).getD Token.zero }, d)
  | some .list =>
      let owned := d.tokenStore.items.countP (·.ownerPid == req.senderPid)
      ({ resp with msgType := MsgType.grant.code, tokenCount := UInt32.ofNat owned }, d)
  | _ => ({ resp with error := "unknown msg_type " ++ toString req.msgType }, d)

/-! ## The poll loop

`fds[0]` is the listening socket, the clients sit in `fds[1..nfds)`. Which
event comes next is up to the clients, and `recv` hands over whatever bytes
they sent. -/

def MAX_CLIENTS : Nat := 63

/-- A message and its answer, on a connection of the process `peer`; `made` is
the token `token_grant` created for it. -/
structure Exchange where
  peer : Int32
  now : UInt64
  req : Msg
  resp : Msg
  made : Option Token

/-- The daemon, the `SO_PEERCRED` pid of each client in `fds`, and the messages
handled so far. -/
structure Server where
  daemon : Daemon
  fds : Slots Int32 MAX_CLIENTS
  log : List Exchange

/-- The token between two states of the daemon: `next_token_id` moves only when
one was made, in the last slot. -/
def newToken (d d' : Daemon) : Option Token :=
  if d'.nextTokenId = d.nextTokenId then none else d'.tokenStore.items.getLast?

/-- How many tokens were made. -/
def grants (log : List Exchange) : Nat := log.countP (·.made.isSome)

inductive Event where
  /-- `credOk`: whether `getsockopt` returned 0. -/
  | accept (peer : Int32) (credOk : Bool)
  | message (client : Nat) (now : UInt64) (req : Msg)
  | hangup (client : Nat)

/-- `handle_message` on the connection of `peer`. -/
def Server.receive (s : Server) (peer : Int32) (now : UInt64) (req : Msg) : Server :=
  let (resp, d) := handleMessage s.daemon now req
  { s with daemon := d, log := s.log ++ [⟨peer, now, req, resp, newToken s.daemon d⟩] }

def Server.accept (s : Server) (peer : Int32) (credOk : Bool) : Server :=
  if h : s.fds.count < MAX_CLIENTS then
    { s with
      daemon := if credOk then policyRegister s.daemon peer .app else s.daemon
      fds := s.fds.push h peer }
  else s

def Next : Event → Server → Server → Prop
  | .accept peer credOk, s, s' => s' = s.accept peer credOk
  | .message i now req, s, s' => ∃ h : i < s.fds.count,
      s' = s.receive (s.fds.get ⟨i, h⟩) now req
  | .hangup i, s, s' => ∃ h : i < s.fds.count,
      s' = { s with fds := s.fds.removeAt ⟨i, h⟩ }

/-- The statics at start-up, and the built-in policies. -/
def boot : Server where
  daemon :=
    policyRegister
      (policyRegister
        { tokenStore := Slots.empty Token.zero
          nextTokenId := 1
          policyTable := Slots.empty ⟨0, .strict, 0⟩ }
        1 .compositor)
      2 .strict
  fds := Slots.empty 0
  log := []

def system : Lts.System Server Event where
  Init := fun s => s = boot
  Next := Next

end OmniOS.Security
