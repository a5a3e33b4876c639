import OmniOS.Security.Daemon

/-!
# OmniOS.Security.Client — the client library and the daemon on one connection

`userspace/security/capability_client.c`: each call sends a message and takes the next
message of the connection for its answer. The daemon answers in order and echoes `seq`,
which the client never compares. A call whose `recv` fails leaves its answer on the
connection, and every later call gets the answer to an earlier one.

Calls are numbered; a message on the connection carries the number of the call it
belongs to. Other clients change the daemon as they like.
-/

namespace OmniOS.Security.Client

def EACCES : Int32 := 13

/-! ## The library -/

/-- The calls that go through `send_recv`. -/
inductive Call where
  | request (rights : Rights) (label : Option Label)
  | revoke (tokenId : Int32)
  | verify (tokenId : Int32)
  | list

/-- `"unnamed"`. -/
def unnamed : Label :=
  ⟨[117, 110, 110, 97, 109, 101, 100] ++ List.replicate 57 0, rfl⟩

theorem labelRoom_le : OMNIOS_CAP_LABEL_LEN - 1 ≤ OMNIOS_CAP_LABEL_LEN := Nat.sub_le _ _

/-- The message a call fills in before `send_recv`; `label` is NULL or the start of a
string. -/
def Call.msg (pid : Int32) : Call → Msg
  | .request rights label =>
      Msg.plain .request pid { Token.zero with
        rights := rights
        label := strncpy Label.zero (label.getD unnamed) (OMNIOS_CAP_LABEL_LEN - 1)
          labelRoom_le }
  | .revoke tokenId => Msg.plain .revoke 0 { Token.zero with id := tokenId.toUInt32 }
  | .verify tokenId => Msg.plain .verify 0 { Token.zero with id := tokenId.toUInt32 }
  | .list => Msg.plain .list 0 Token.zero

/-- What `send_recv` sends. -/
def sendRecvMsg (pid : Int32) (seq : UInt32) (call : Call) : Msg :=
  { call.msg pid with seq := seq, senderPid := pid }

/-- The return value, `*out` and `*count_out`. -/
structure Outcome where
  ret : Int32
  out : Option Token
  countOut : Option UInt32

/-- What `send_recv` and the call make of the message they received. -/
def Call.finish (call : Call) (resp : Msg) : Outcome :=
  if resp.msgType = MsgType.deny.code then ⟨-EACCES, none, none⟩
  else match call with
    | .request _ _ => ⟨resp.token.id.toInt32, none, none⟩
    | .revoke _ => ⟨0, none, none⟩
    | .verify _ => ⟨0, some resp.token, none⟩
    | .list => ⟨0, none, some resp.tokenCount⟩

/-! ## One connection -/

/-- A call in progress, with its number and the message it sent. -/
structure Pending where
  number : Nat
  call : Call
  msg : Msg

/-- A call that received a message, and the number of the call the message answers. -/
structure Answered where
  pending : Pending
  number : Nat
  resp : Msg

/-- `ctx->seq`, the call in progress, the messages on their way, the calls that received
a message, and how many failed in `recv`. -/
structure World where
  seq : UInt32
  calls : Nat
  pending : Option Pending
  requests : List (Nat × Msg)
  responses : List (Nat × Msg)
  daemon : Daemon
  answered : List Answered
  abandoned : Nat

inductive Event where
  /-- `sent`: whether `send` succeeds. -/
  | call (call : Call) (sent : Bool)
  | recv
  /-- `recv` fails. -/
  | fail
  /-- The daemon handles the oldest message. -/
  | answer (now : UInt64)
  /-- Other clients change the daemon. -/
  | others (daemon : Daemon)

def World.next (pid : Int32) (w : World) : Event → Option World
  | .call call sent =>
      if w.pending.isSome then none
      else
        let msg := sendRecvMsg pid w.seq call
        let called := { w with seq := w.seq + 1, calls := w.calls + 1 }
        some (if sent then
          { called with
            pending := some ⟨w.calls, call, msg⟩
            requests := w.requests ++ [(w.calls, msg)] }
        else called)
  | .recv =>
      match w.pending, w.responses with
      | some p, (number, resp) :: rest =>
          some { w with
            pending := none
            responses := rest
            answered := w.answered ++ [⟨p, number, resp⟩] }
      | _, _ => none
  | .fail =>
      w.pending.map fun _ => { w with pending := none, abandoned := w.abandoned + 1 }
  | .answer now =>
      match w.requests with
      | [] => none
      | (number, req) :: rest =>
          let r := handleMessage w.daemon now req
          some { w with
            requests := rest
            responses := w.responses ++ [(number, r.1)]
            daemon := r.2 }
  | .others daemon => some { w with daemon := daemon }

/-- `omnios_cap_connect`, to a daemon in any state. -/
def system (pid : Int32) : Lts.System World Event where
  Init w := ∃ d, w = ⟨1, 0, none, [], [], d, [], 0⟩
  Next e w w' := w.next pid e = some w'

/-- The call returned success. -/
def Answered.Succeeded (a : Answered) : Prop := 0 ≤ (a.pending.call.finish a.resp).ret

/-- Every call that returned success did so on the answer to its own message. -/
def Matched (w : World) : Prop :=
  ∀ a ∈ w.answered, a.Succeeded → a.number = a.pending.number ∧ a.resp.seq = a.pending.msg.seq

/-- A `recv` that makes a call succeed is made when no call has failed in `recv`. -/
def NoneAbandoned (e : Event) (w : World) : Prop :=
  e = .recv → ∀ p number resp rest, w.pending = some p →
    w.responses = (number, resp) :: rest → Answered.Succeeded ⟨p, number, resp⟩ →
    w.abandoned = 0

/-! ## Order on the connection -/

/-- The daemon echoes `seq`. -/
theorem handleMessage_seq (d : Daemon) (now : UInt64) (req : Msg) :
    (handleMessage d now req).1.seq = req.seq := by
  unfold handleMessage
  cases req.kind with
  | none => rfl
  | some kind =>
      cases kind with
      | request =>
          dsimp only
          cases policyLookup d req.senderPid with
          | none => rfl
          | some idx =>
              dsimp only
              split
              · rfl
              · rfl
      | revoke =>
          dsimp only
          split
          · rfl
          · rfl
      | verify =>
          dsimp only
          split
          · rfl
          · rfl
      | invalid | grant | deny | forward | list => rfl

/-- The messages on their way, the oldest first. -/
def World.underway (w : World) : List (Nat × Msg) := w.responses ++ w.requests

/-- The messages on their way belong to the abandoned calls and then to the one in
progress; its message has its `seq`. -/
structure Ordered (w : World) : Prop where
  queue : ∃ left : List Nat, left.length = w.abandoned ∧
    w.underway.map Prod.fst = left ++ (w.pending.map Pending.number).toList
  increasing : (w.underway.map Prod.fst).Pairwise (· < ·)
  below : ∀ k ∈ w.underway.map Prod.fst, k < w.calls
  seq : ∀ p ∈ w.pending, ∀ r ∈ w.underway, r.1 = p.number → r.2.seq = p.msg.seq

section Steps

variable {pid : Int32} {w w' : World}

theorem ordered_init (d : Daemon) : Ordered ⟨1, 0, none, [], [], d, [], 0⟩ where
  queue := ⟨[], rfl, rfl⟩
  increasing := List.Pairwise.nil
  below := fun _ hk => absurd hk List.not_mem_nil
  seq := fun _ hp => nomatch hp

theorem Ordered.call (h : Ordered w) {call : Call} {sent : Bool}
    (hnext : w.next pid (.call call sent) = some w') :
    Ordered w' ∧ w'.answered = w.answered := by
  rw [World.next] at hnext
  rcases Option.ite_none_left_eq_some.mp hnext with ⟨hidle, hw'⟩
  have hnone : w.pending = none := by simpa using hidle
  rcases h.queue with ⟨left, hleft, hqueue⟩
  rw [hnone, Option.map_none, Option.toList_none, List.append_nil] at hqueue
  cases sent with
  | false =>
      simp only [Bool.false_eq_true, if_false, Option.some.injEq] at hw'
      subst hw'
      refine ⟨⟨h.queue, h.increasing, ?_, h.seq⟩, rfl⟩
      exact fun k hk => Nat.lt_succ_of_lt (h.below k hk)
  | true =>
      simp only [if_true, Option.some.injEq] at hw'
      subst hw'
      have hunder : (World.underway { w with
          seq := w.seq + 1
          calls := w.calls + 1
          pending := some ⟨w.calls, call, sendRecvMsg pid w.seq call⟩
          requests := w.requests ++ [(w.calls, sendRecvMsg pid w.seq call)] }) =
            w.underway ++ [(w.calls, sendRecvMsg pid w.seq call)] :=
        (List.append_assoc _ _ _).symm
      refine ⟨⟨⟨left, hleft, ?_⟩, ?_, ?_, ?_⟩, rfl⟩
      · rw [hunder, List.map_append, hqueue]
        rfl
      · rw [hunder, List.map_append, List.pairwise_append]
        refine ⟨h.increasing, List.pairwise_singleton _ _, ?_⟩
        intro a ha b hb
        rw [List.mem_singleton.mp hb]
        exact h.below a ha
      · rw [hunder, List.map_append]
        intro k hk
        rcases List.mem_append.mp hk with hk | hk
        · exact Nat.lt_succ_of_lt (h.below k hk)
        · rw [List.mem_singleton.mp hk]
          exact Nat.lt_succ_self _
      · -- only the new message has the new number
        intro p hp r hr heq
        cases hp
        rw [hunder] at hr
        rcases List.mem_append.mp hr with hr | hr
        · have hlt := h.below r.1 (List.mem_map_of_mem hr)
          exact absurd heq (Nat.ne_of_lt hlt)
        · rw [List.mem_singleton.mp hr]

theorem Ordered.answer (h : Ordered w) {now : UInt64}
    (hnext : w.next pid (.answer now) = some w') :
    Ordered w' ∧ w'.answered = w.answered := by
  rw [World.next] at hnext
  cases hrequests : w.requests with
  | nil =>
      rw [hrequests] at hnext
      cases hnext
  | cons q rest =>
      rcases q with ⟨number, req⟩
      simp only [hrequests, Option.some.injEq] at hnext
      subst hnext
      have hold : w.underway = w.responses ++ (number, req) :: rest := by
        rw [World.underway, hrequests]
      have hnew : (World.underway { w with
          requests := rest
          responses := w.responses ++ [(number, (handleMessage w.daemon now req).1)]
          daemon := (handleMessage w.daemon now req).2 }) =
            w.responses ++ (number, (handleMessage w.daemon now req).1) :: rest :=
        List.append_assoc _ _ _
      have hsame : w.underway.map Prod.fst =
          (w.responses ++ (number, (handleMessage w.daemon now req).1) :: rest).map Prod.fst := by
        rw [hold, List.map_append, List.map_append]
        rfl
      refine ⟨⟨?_, ?_, ?_, ?_⟩, rfl⟩
      · rw [hnew, ← hsame]
        exact h.queue
      · rw [hnew, ← hsame]
        exact h.increasing
      · rw [hnew, ← hsame]
        exact h.below
      · intro p hp r hr heq
        rw [hnew, List.mem_append, List.mem_cons] at hr
        have hseq := h.seq p hp
        rw [hold] at hseq
        rcases hr with hr | rfl | hr
        · exact hseq r (List.mem_append_left _ hr) heq
        · rw [handleMessage_seq]
          exact hseq (number, req) (List.mem_append_right _ List.mem_cons_self) heq
        · exact hseq r (List.mem_append_right _ (List.mem_cons_of_mem _ hr)) heq

theorem Ordered.fail (h : Ordered w) (hnext : w.next pid .fail = some w') :
    Ordered w' ∧ w'.answered = w.answered := by
  rcases Option.map_eq_some_iff.mp hnext with ⟨p, hp, hw'⟩
  subst hw'
  rcases h.queue with ⟨left, hleft, hqueue⟩
  rw [hp] at hqueue
  refine ⟨⟨⟨left ++ [p.number], ?_, ?_⟩, h.increasing, h.below, fun _ hp => nomatch hp⟩, rfl⟩
  · rw [List.length_append, hleft]
    rfl
  · exact hqueue.trans (List.append_nil _).symm

/-- A `recv` hands over the oldest message: the answer to the call itself exactly if no
call was abandoned. -/
theorem Ordered.recv (h : Ordered w) (hnext : w.next pid .recv = some w') :
    Ordered w' ∧ ∃ p number resp rest, w.pending = some p ∧
      w.responses = (number, resp) :: rest ∧ w'.answered = w.answered ++ [⟨p, number, resp⟩] ∧
      (number = p.number ∧ resp.seq = p.msg.seq ↔ w.abandoned = 0) := by
  rw [World.next] at hnext
  cases hp : w.pending with
  | none =>
      simp only [hp] at hnext
      cases hnext
  | some p =>
      cases hresponses : w.responses with
      | nil =>
          simp only [hp, hresponses] at hnext
          cases hnext
      | cons r rest =>
          rcases r with ⟨number, resp⟩
          simp only [hp, hresponses, Option.some.injEq] at hnext
          subst hnext
          have hunder : w.underway = (number, resp) :: (rest ++ w.requests) := by
            rw [World.underway, hresponses]
            rfl
          rcases h.queue with ⟨left, hleft, hqueue⟩
          have hincreasing := h.increasing
          have hbelow := h.below
          have hseq := h.seq p hp (number, resp) (by rw [hunder]; exact List.mem_cons_self)
          rw [hunder, List.map_cons, hp] at hqueue
          rw [hunder, List.map_cons] at hincreasing hbelow
          rw [List.pairwise_cons] at hincreasing
          have hrest : ∃ left : List Nat, left.length = w.abandoned ∧
              (rest ++ w.requests).map Prod.fst = left ∧
              (number = p.number ↔ w.abandoned = 0) := by
            cases left with
            | nil =>
                -- the answer to the call in progress is all there is
                rcases List.cons.inj hqueue with ⟨hnumber, htail⟩
                exact ⟨[], hleft, htail, iff_of_true hnumber hleft.symm⟩
            | cons k left =>
                rcases List.cons.inj hqueue with ⟨hnumber, htail⟩
                refine ⟨left ++ [p.number], ?_, htail, ?_⟩
                · rw [← hleft, List.length_append]
                  rfl
                · have hlt : number < p.number := by
                    refine hincreasing.1 p.number ?_
                    show p.number ∈ (rest ++ w.requests).map Prod.fst
                    rw [htail]
                    exact List.mem_append_right _ (List.mem_singleton_self _)
                  refine iff_of_false (Nat.ne_of_lt hlt) ?_
                  rw [← hleft]
                  exact Nat.succ_ne_zero _
          rcases hrest with ⟨left, hleft, htail, hiff⟩
          refine ⟨⟨⟨left, hleft, ?_⟩, hincreasing.2, ?_, fun _ hp => nomatch hp⟩,
            p, number, resp, rest, rfl, rfl, rfl, ?_⟩
          · exact htail.trans (List.append_nil _).symm
          · exact fun k hk => hbelow k (List.mem_cons_of_mem _ hk)
          · rw [← hiff]
            exact ⟨And.left, fun hnumber => ⟨hnumber, hseq hnumber⟩⟩

/-- One more answered call. -/
theorem matched_snoc {a : Answered} (hmatched : Matched w) (h : w'.answered = w.answered ++ [a]) :
    Matched w' ↔
      (a.Succeeded → a.number = a.pending.number ∧ a.resp.seq = a.pending.msg.seq) := by
  unfold Matched
  rw [h]
  constructor
  · exact fun hall => hall a (List.mem_append_right _ (List.mem_singleton_self a))
  · intro hlast b hb
    rcases List.mem_append.mp hb with hb | hb
    · exact hmatched b hb
    · rw [List.mem_singleton.mp hb]
      exact hlast

theorem Ordered.next (h : Ordered w) (hmatched : Matched w) {e : Event}
    (hnext : w.next pid e = some w') : Ordered w' ∧ (Matched w' ↔ NoneAbandoned e w) := by
  -- only `recv` answers a call
  have hother (hne : e ≠ .recv) (hsame : Ordered w' ∧ w'.answered = w.answered) :
      Ordered w' ∧ (Matched w' ↔ NoneAbandoned e w) := by
    refine ⟨hsame.1, iff_of_true ?_ fun heq => absurd heq hne⟩
    unfold Matched
    rw [hsame.2]
    exact hmatched
  cases e with
  | call call sent => exact hother (fun heq => nomatch heq) (h.call hnext)
  | fail => exact hother (fun heq => nomatch heq) (h.fail hnext)
  | answer now => exact hother (fun heq => nomatch heq) (h.answer hnext)
  | others daemon =>
      cases hnext
      exact hother (fun heq => nomatch heq) ⟨⟨h.queue, h.increasing, h.below, h.seq⟩, rfl⟩
  | recv =>
      rcases h.recv hnext with ⟨h', p, number, resp, rest, hp, hresponses, hanswered, hiff⟩
      refine ⟨h', ?_⟩
      rw [matched_snoc hmatched hanswered, hiff]
      constructor
      · intro hzero _ p' number' resp' rest' hp' hresponses' hsucceeded
        rw [hp, Option.some.injEq] at hp'
        rw [hresponses, List.cons.injEq, Prod.mk.injEq] at hresponses'
        rcases hresponses' with ⟨⟨rfl, rfl⟩, rfl⟩
        subst hp'
        exact hzero hsucceeded
      · exact fun hnone hsucceeded => hnone rfl p number resp rest hp hresponses hsucceeded

theorem ordered_reachable (hreach : Lts.Reachable ((system pid).restrict NoneAbandoned) w) :
    Ordered w ∧ Matched w := by
  refine hreach.invariant (I := fun w => Ordered w ∧ Matched w) ?_ ?_
  · rintro w ⟨d, rfl⟩
    exact ⟨ordered_init d, fun a ha => absurd ha List.not_mem_nil⟩
  · rintro e w w' ⟨h, hmatched⟩ ⟨hnone, hnext⟩
    rcases h.next hmatched hnext with ⟨h', hiff⟩
    exact ⟨h', hiff.mpr hnone⟩

end Steps

/-- As long as no call succeeds after one that failed in `recv`, every call that succeeds
does so on its own answer. The first that does breaks this. -/
theorem answers_match_if_none_abandoned {pid : Int32} {w : World}
    (hreach : Lts.Reachable ((system pid).restrict NoneAbandoned) w) :
    Matched w ∧ ∀ e w', (system pid).Next e w w' → (Matched w' ↔ NoneAbandoned e w) := by
  rcases ordered_reachable hreach with ⟨h, hmatched⟩
  exact ⟨hmatched, fun e w' hnext => (h.next hmatched hnext).2⟩

/-- Process 100 is connected to a daemon that knows it. -/
def connected : World :=
  ⟨1, 0, none, [], [], policyRegister boot.daemon 100 .app, [], 0⟩

/-- One call is made and answered. -/
theorem answers_match_of_one :
    ∃ w, w.answered.map (fun a => (a.pending.number, a.number)) = [(0, 0)] ∧ Matched w := by
  have hrun : (([.call .list true, .answer 0, .recv].foldlM
      (fun w e => if w.abandoned = 0 then World.next 100 w e else none) connected).map fun w =>
        decide (w.answered.map (fun a => (a.pending.number, a.number)) = [(0, 0)])) =
          some true := by
    decide +kernel
  have hinit : Lts.Reachable ((system 100).restrict NoneAbandoned) connected :=
    Lts.Reachable.init ⟨_, rfl⟩
  have hstep (e : Event) (w w' : World)
      (hnext : (if w.abandoned = 0 then World.next 100 w e else none) = some w') :
      ((system 100).restrict NoneAbandoned).Next e w w' := by
    rcases Option.ite_none_right_eq_some.mp hnext with ⟨hzero, hnext⟩
    exact ⟨fun _ _ _ _ _ _ _ _ => hzero, hnext⟩
  rcases Lts.Reachable.of_test hstep hinit hrun with ⟨w, hreach, hanswered⟩
  exact ⟨w, hanswered, (answers_match_if_none_abandoned hreach).1⟩

/-- A request is sent, and its `recv` fails. The call of `omnios_cap_list` that follows gets
the grant: it succeeds and reports no token, although the daemon has one. -/
theorem list_gets_grant_of_request :
    ∃ w, Lts.Reachable (system 100) w ∧
      w.answered.map (fun a => (a.pending.number, a.number, (a.pending.call.finish a.resp).ret,
        (a.pending.call.finish a.resp).countOut)) = [(1, 0, 0, some 0)] ∧
      w.daemon.tokenStore.count = 1 ∧ ¬ Matched w := by
  have hrun : (([.call (.request OMNIOS_CAP_FILE_READ none) true, .fail, .answer 0,
      .call .list true, .recv].foldlM (World.next 100) connected).map fun w =>
        decide (w.answered.map (fun a => (a.pending.number, a.number,
          (a.pending.call.finish a.resp).ret, (a.pending.call.finish a.resp).countOut)) =
            [(1, 0, 0, some 0)] ∧ w.daemon.tokenStore.count = 1)) = some true := by
    decide +kernel
  have hinit : Lts.Reachable (system 100) connected := Lts.Reachable.init ⟨_, rfl⟩
  rcases Lts.Reachable.of_test (fun _ _ _ hnext => hnext) hinit hrun with
    ⟨w, hreach, hanswered, hcount⟩
  refine ⟨w, hreach, hanswered, hcount, ?_⟩
  rcases List.map_eq_singleton_iff.mp hanswered with ⟨a, ha, hfields⟩
  rcases Prod.mk.inj hfields with ⟨hpending, hfields⟩
  rcases Prod.mk.inj hfields with ⟨hnumber, hfields⟩
  rcases Prod.mk.inj hfields with ⟨hret, -⟩
  intro hmatched
  have hsucceeded : a.Succeeded := by
    rw [Answered.Succeeded, hret]
    decide
  have hown := (hmatched a (by rw [ha]; exact List.mem_singleton_self a) hsucceeded).1
  rw [hnumber, hpending] at hown
  cases hown

end OmniOS.Security.Client
