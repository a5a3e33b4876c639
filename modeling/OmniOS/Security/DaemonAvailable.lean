import OmniOS.Security.DaemonInv

/-!
# OmniOS.Security.DaemonAvailable — when a REQUEST is granted

Neither table of the daemon gives entries back on its own. Tokens leave the store when
they are revoked and not when they expire, and policy entries stay when the client
disconnects. A REQUEST within its policy is granted exactly if there is a slot in the
store, whatever the slots in use hold, and its pid got a policy entry when it connected.
-/

namespace OmniOS.Security

/-! ## Policies -/

/-- The hint a pid is registered with. -/
def hintOf (pid : Int32) : SeccompHint :=
  if pid = 1 then .compositor else if pid = 2 then .strict else .app

/-- Every entry has the default rights of its hint; the built-in ones are there. -/
structure Policies (d : Daemon) : Prop where
  rights : ∀ e ∈ d.policyTable.items, e.maxRights = omniosCapDefaultRights (hintOf e.pid)
  builtin : ∀ pid, pid = 1 ∨ pid = 2 → ∃ e ∈ d.policyTable.items, e.pid = pid

theorem policies_boot : Policies boot.daemon := by
  have hitems : boot.daemon.policyTable.items =
    [⟨1, .compositor, omniosCapDefaultRights .compositor⟩,
      ⟨2, .strict, omniosCapDefaultRights .strict⟩] := by decide
  constructor
  · rw [hitems]
    decide
  · rw [hitems]
    rintro pid (rfl | rfl)
    · exact ⟨_, List.mem_cons_self, rfl⟩
    · exact ⟨_, List.mem_cons_of_mem _ List.mem_cons_self, rfl⟩

theorem Policies.accept {s : Server} (h : Policies s.daemon) (peer : Int32) (credOk : Bool) :
    Policies (s.accept peer credOk).daemon := by
  unfold Server.accept
  split
  · cases credOk with
    | false => exact h
    | true =>
        rw [if_pos rfl]
        rcases policyRegister_cases s.daemon peer .app with heq | ⟨hfresh, hroom, heq⟩
        · rw [heq]
          exact h
        · rw [heq]
          -- the built-in pids are not fresh
          have hhint : hintOf peer = .app := by
            have hone : peer ≠ 1 := by
              rintro rfl
              rcases h.builtin 1 (Or.inl rfl) with ⟨e, he, hpid⟩
              exact hfresh e he hpid
            have htwo : peer ≠ 2 := by
              rintro rfl
              rcases h.builtin 2 (Or.inr rfl) with ⟨e, he, hpid⟩
              exact hfresh e he hpid
            rw [hintOf, if_neg hone, if_neg htwo]
          constructor
          · intro e he
            rw [Slots.items_push, List.mem_append, List.mem_singleton] at he
            rcases he with he | rfl
            · exact h.rights e he
            · rw [hhint]
          · intro pid hpid
            rcases h.builtin pid hpid with ⟨e, he, heq⟩
            rw [Slots.items_push]
            exact ⟨e, List.mem_append_left _ he, heq⟩
  · exact h

/-- Messages do not touch the policy table. -/
theorem handleMessage_policyTable (d : Daemon) (now : UInt64) (req : Msg) :
    (handleMessage d now req).2.policyTable = d.policyTable := by
  have heffect := handleMessage_effect d now req
  generalize newToken d (handleMessage d now req).2 = made at heffect
  generalize (handleMessage d now req).2 = d' at heffect
  cases heffect with
  | grant => rfl
  | revoke => rfl
  | keep => rfl

theorem policies_reachable {s : Server} (hreach : Lts.Reachable system s) : Policies s.daemon := by
  refine hreach.invariant (I := fun s => Policies s.daemon) ?_ ?_
  · rintro s rfl
    exact policies_boot
  · intro e s s' h hnext
    cases e with
    | accept peer credOk =>
        cases hnext
        exact h.accept peer credOk
    | message i now req =>
        rcases hnext with ⟨hi, rfl⟩
        have hsame := handleMessage_policyTable s.daemon now req
        exact ⟨hsame ▸ h.rights, hsame ▸ h.builtin⟩
    | hangup i =>
        rcases hnext with ⟨hi, rfl⟩
        exact h

/-- Rights within the defaults are allowed exactly to the pids with an entry. -/
theorem Policies.allows_iff {d : Daemon} (h : Policies d) {pid : Int32} {r : Rights}
    (hr : Within r (omniosCapDefaultRights (hintOf pid))) :
    policyAllows d pid r = true ↔ (policyLookup d pid).isSome := by
  have hlookup : (policyLookup d pid).isSome ↔
      ∃ e, d.policyTable.items.find? (·.pid == pid) = some e := by
    rw [Slots.find?_items, ← Option.isSome_iff_exists, Option.isSome_map]
    rfl
  rw [policyAllows_iff, hlookup]
  constructor
  · rintro ⟨e, he, -⟩
    exact ⟨e, he⟩
  · rintro ⟨e, he⟩
    refine ⟨e, he, ?_⟩
    have hpid : e.pid = pid := by simpa using List.find?_some he
    rw [h.rights e (List.mem_of_find?_eq_some he), hpid]
    exact hr

/-! ## Requests -/

theorem denied_ne_grant (seq : UInt32) (error : String) :
    (Msg.mk MsgType.deny.code seq 0 Token.zero 0 error).kind ≠ some .grant := by
  show some MsgType.deny ≠ some MsgType.grant
  decide

/-- A REQUEST is granted if there is a slot, the policy allows it and the id is not
negative. -/
theorem handleMessage_grant_iff {d : Daemon} {now : UInt64} {req : Msg}
    (hkind : req.kind = some .request) :
    (handleMessage d now req).1.kind = some .grant ↔
      d.tokenStore.count < OMNIOS_CAP_TOKEN_MAX ∧
      policyAllows d req.senderPid req.token.rights = true ∧ ¬ d.nextTokenId < 0 := by
  unfold handleMessage
  rw [hkind]
  dsimp only
  cases hlookup : policyLookup d req.senderPid with
  | none =>
      refine iff_of_false (denied_ne_grant _ _) ?_
      rintro ⟨-, hallow, -⟩
      rw [policyAllows, hlookup] at hallow
      exact Bool.false_ne_true hallow
  | some idx =>
      dsimp only
      unfold tokenGrant
      by_cases hroom : d.tokenStore.count < OMNIOS_CAP_TOKEN_MAX
      · rw [dif_pos hroom]
        by_cases hallow : policyAllows d req.senderPid req.token.rights = true
        · rw [if_pos hallow]
          dsimp only
          by_cases hneg : d.nextTokenId.toUInt32.toInt32 < 0
          · -- the id reads as an error code
            rw [if_pos hneg]
            exact iff_of_false (denied_ne_grant _ _) fun h => h.2.2 hneg
          · rw [if_neg hneg]
            exact iff_of_true rfl ⟨hroom, hallow, hneg⟩
        · rw [if_neg hallow]
          dsimp only
          rw [if_pos (by decide)]
          exact iff_of_false (denied_ne_grant _ _) fun h => hallow h.2.1
      · rw [dif_neg hroom]
        dsimp only
        rw [if_pos (by decide)]
        exact iff_of_false (denied_ne_grant _ _) fun h => hroom h.1

/-- A granted REQUEST stores its token in the next slot. -/
theorem handleMessage_granted {d : Daemon} {now : UInt64} {req : Msg}
    (hkind : req.kind = some .request)
    (hgrant : (handleMessage d now req).1.kind = some .grant) :
    ∃ h t, Mints d now req t ∧ (handleMessage d now req).2 =
      { d with tokenStore := d.tokenStore.push h t, nextTokenId := d.nextTokenId + 1 } := by
  have heffect := handleMessage_effect d now req
  generalize newToken d (handleMessage d now req).2 = made at heffect
  generalize (handleMessage d now req).2 = d' at heffect ⊢
  cases heffect with
  | grant h t _ _ ht _ => exact ⟨h, t, ht, rfl⟩
  | revoke i hrevoke =>
      rw [hkind] at hrevoke
      exact absurd hrevoke (by decide)
  | keep hrequest =>
      rw [hrequest hkind] at hgrant
      exact absurd hgrant (by decide)

/-! ## Honest runs -/

/-- Clients connect with their own pid and name it in what they send. -/
def Honest : Event → Server → Prop
  | .accept _ credOk, _ => credOk = true
  | .message i _ req, s => ∀ h : i < s.fds.count, req.senderPid = s.fds.get ⟨i, h⟩
  | .hangup _, _ => True

/-- After `policy_register` there is an entry, or there was no room for it. -/
theorem policyRegister_registers (d : Daemon) (pid : Int32) (hint : SeccompHint) :
    (∃ e ∈ (policyRegister d pid hint).policyTable.items, e.pid = pid) ∨
      MAX_POLICY ≤ (policyRegister d pid hint).policyTable.count := by
  unfold policyRegister
  cases hidx : policyLookup d pid with
  | some idx =>
      have hpid := Slots.findIdx?_some hidx
      exact Or.inl ⟨_, d.policyTable.get_mem_items idx, by simpa using hpid⟩
  | none =>
      by_cases hroom : d.policyTable.count < MAX_POLICY
      · left
        simp only [dif_pos hroom, Slots.items_push]
        exact ⟨_, List.mem_append_right _ (List.mem_singleton_self _), rfl⟩
      · right
        simp only [dif_neg hroom]
        exact Nat.not_lt.mp hroom

/-- Whoever is connected has an entry, unless the table is full. -/
def Registered (s : Server) : Prop :=
  ∀ peer ∈ s.fds.items,
    (∃ e ∈ s.daemon.policyTable.items, e.pid = peer) ∨ MAX_POLICY ≤ s.daemon.policyTable.count

theorem Registered.accept {s : Server} (h : Registered s) (peer : Int32) :
    Registered (s.accept peer true) := by
  unfold Server.accept
  split
  · have hnew := policyRegister_registers s.daemon peer .app
    intro p hp
    rw [Slots.items_push, List.mem_append, List.mem_singleton] at hp
    rcases hp with hp | rfl
    · rw [if_pos rfl]
      rcases policyRegister_cases s.daemon peer .app with heq | ⟨-, hroom, heq⟩
      · rw [heq]
        exact h p hp
      · -- the table grows
        rcases h p hp with ⟨e, he, hpid⟩ | hfull
        · left
          rw [heq, Slots.items_push]
          exact ⟨e, List.mem_append_left _ he, hpid⟩
        · exact absurd hroom (Nat.not_lt.mpr hfull)
    · exact hnew
  · exact h

theorem registered_reachable {s : Server} (hreach : Lts.Reachable (system.restrict Honest) s) :
    Registered s := by
  refine hreach.invariant (I := Registered) ?_ ?_
  · rintro s rfl peer hpeer
    exact absurd hpeer List.not_mem_nil
  · rintro e s s' h ⟨hhonest, hnext⟩
    cases e with
    | accept peer credOk =>
        cases hhonest
        cases hnext
        exact h.accept peer
    | message i now req =>
        rcases hnext with ⟨hi, rfl⟩
        intro peer hpeer
        have hsame := handleMessage_policyTable s.daemon now req
        show (∃ e ∈ (handleMessage s.daemon now req).2.policyTable.items, e.pid = peer) ∨
          MAX_POLICY ≤ (handleMessage s.daemon now req).2.policyTable.count
        rw [hsame]
        exact h peer hpeer
    | hangup i =>
        rcases hnext with ⟨hi, rfl⟩
        intro peer hpeer
        exact h peer (mem_of_mem_removeAt hpeer)

/-! ## Availability -/

/-- A connected client asks for rights its policy hint gives, in its own name, while fewer
than `OMNIOS_CAP_TOKEN_MAX` tokens have not expired and there is room for one more client. -/
structure Asks (s : Server) (i : Nat) (now : UInt64) (req : Msg) : Prop where
  client : ∃ h : i < s.fds.count, s.fds.get ⟨i, h⟩ = req.senderPid
  kind : req.kind = some .request
  rights : Within req.token.rights (omniosCapDefaultRights (hintOf req.senderPid))
  tokens : s.daemon.tokenStore.items.countP (fun t => now ≤ t.expiryNs) < OMNIOS_CAP_TOKEN_MAX
  clients : s.fds.count < MAX_CLIENTS

/-- What the daemon needs for a grant to `pid`. An expired token fills its slot, and `pid` has
no entry if the table was full when it connected. -/
structure Serves (d : Daemon) (pid : Int32) : Prop where
  slot : d.tokenStore.count < OMNIOS_CAP_TOKEN_MAX
  entry : (policyLookup d pid).isSome
  id : ¬ d.nextTokenId < 0

theorem granted_iff_serves {s : Server} (hreach : Lts.Reachable system s) {now : UInt64}
    {req : Msg} (hkind : req.kind = some .request)
    (hrights : Within req.token.rights (omniosCapDefaultRights (hintOf req.senderPid))) :
    (handleMessage s.daemon now req).1.kind = some .grant ↔ Serves s.daemon req.senderPid := by
  rw [handleMessage_grant_iff hkind, (policies_reachable hreach).allows_iff hrights]
  constructor
  · rintro ⟨hslot, hentry, hid⟩
    exact ⟨hslot, hentry, hid⟩
  · rintro ⟨hslot, hentry, hid⟩
    exact ⟨hslot, hentry, hid⟩

/-- The answer is GRANT exactly if the daemon has what it needs; an entry is missing only
when the table is full. -/
theorem request_granted_iff_serves {s : Server} {i : Nat} {now : UInt64} {req : Msg}
    (hreach : Lts.Reachable (system.restrict Honest) s) (hasks : Asks s i now req) :
    ((handleMessage s.daemon now req).1.kind = some .grant ↔ Serves s.daemon req.senderPid) ∧
      ((policyLookup s.daemon req.senderPid).isNone → s.daemon.policyTable.count = MAX_POLICY) := by
  refine ⟨granted_iff_serves hreach.of_restrict hasks.kind hasks.rights, ?_⟩
  intro hnone
  rcases hasks.client with ⟨hi, hpeer⟩
  have hmem : req.senderPid ∈ s.fds.items := hpeer ▸ s.fds.get_mem_items ⟨i, hi⟩
  rcases registered_reachable hreach _ hmem with ⟨e, he, hpid⟩ | hfull
  · have := Slots.findIdx?_eq_none.mp (Option.isNone_iff_eq_none.mp hnone) e he
    rw [hpid, beq_self_eq_true] at this
    exact absurd this Bool.noConfusion
  · exact Nat.le_antisymm s.daemon.policyTable.count_le hfull

/-- Process 100 asks for the right to read files. -/
def readRequest : Msg :=
  Msg.plain .request 100 { Token.zero with rights := OMNIOS_CAP_FILE_READ }

theorem connected_reachable :
    Lts.Reachable (system.restrict Honest) (boot.accept 100 true) := by
  have hstep : (system.restrict Honest).Next (Event.accept 100 true) boot (boot.accept 100 true) :=
    ⟨rfl, rfl⟩
  exact (Lts.Reachable.init rfl).step hstep

theorem first_request_granted :
    Asks (boot.accept 100 true) 0 0 readRequest ∧
      (handleMessage (boot.accept 100 true).daemon 0 readRequest).1.kind = some .grant := by
  have hasks : Asks (boot.accept 100 true) 0 0 readRequest :=
    ⟨⟨by decide, by decide⟩, by decide, within_iff.mpr (by decide), by decide, by decide⟩
  have hserves : Serves (boot.accept 100 true).daemon readRequest.senderPid :=
    ⟨by decide, by decide, by decide⟩
  exact ⟨hasks, (request_granted_iff_serves connected_reachable hasks).1.mpr hserves⟩

/-- Process 100 is connected and holds `n` tokens made at time 0. -/
structure Holds (n : Nat) (s : Server) : Prop where
  fds : s.fds = (boot.accept 100 true).fds
  policies : s.daemon.policyTable = (boot.accept 100 true).daemon.policyTable
  count : s.daemon.tokenStore.count = n
  expiry : ∀ t ∈ s.daemon.tokenStore.items, t.expiryNs = tokenLifetime
  counter : s.daemon.nextTokenId = Int32.ofNat (n + 1)

theorem Holds.asks {n : Nat} {s : Server} (h : Holds n s) {now : UInt64}
    (hnow : n < OMNIOS_CAP_TOKEN_MAX ∨ tokenLifetime < now) : Asks s 0 now readRequest := by
  refine ⟨?_, by decide, within_iff.mpr (by decide), ?_, ?_⟩
  · rw [h.fds]
    exact ⟨by decide, by decide⟩
  · rcases hnow with hroom | hlate
    · refine Nat.lt_of_le_of_lt List.countP_le_length ?_
      rw [Slots.length_items, h.count]
      exact hroom
    · -- all of them have expired
      have hzero : s.daemon.tokenStore.items.countP (fun t => now ≤ t.expiryNs) = 0 := by
        rw [List.countP_eq_zero]
        intro t ht
        rw [h.expiry t ht, decide_eq_true_eq]
        exact UInt64.not_le.mpr hlate
      rw [hzero]
      decide
  · rw [h.fds]
    decide

theorem Holds.serves {n : Nat} {s : Server} (h : Holds n s) (hroom : n < OMNIOS_CAP_TOKEN_MAX) :
    Serves s.daemon readRequest.senderPid := by
  have hn : n < 64 := hroom
  refine ⟨h.count ▸ hroom, ?_, ?_⟩
  · show (s.daemon.policyTable.findIdx? (·.pid == readRequest.senderPid)).isSome
    rw [h.policies]
    decide
  · rw [h.counter]
    exact id_not_neg (by omega)

theorem Holds.request {n : Nat} {s : Server} (h : Holds n s) (hroom : n < OMNIOS_CAP_TOKEN_MAX)
    (hreach : Lts.Reachable (system.restrict Honest) s) :
    ∃ s', Holds (n + 1) s' ∧ Lts.Reachable (system.restrict Honest) s' := by
  have hasks : Asks s 0 0 readRequest := h.asks (Or.inl hroom)
  have hgrant : (handleMessage s.daemon 0 readRequest).1.kind = some .grant :=
    (granted_iff_serves hreach.of_restrict hasks.kind hasks.rights).mpr (h.serves hroom)
  rcases handleMessage_granted hasks.kind hgrant with ⟨hslot, t, ht, heq⟩
  rcases hasks.client with ⟨hi, hpeer⟩
  have hstep : (system.restrict Honest).Next (Event.message 0 0 readRequest) s
      (s.receive (s.fds.get ⟨0, hi⟩) 0 readRequest) := ⟨fun _ => hpeer.symm, hi, rfl⟩
  refine ⟨_, ?_, hreach.step hstep⟩
  have hdaemon : (s.receive (s.fds.get ⟨0, hi⟩) 0 readRequest).daemon =
    (handleMessage s.daemon 0 readRequest).2 := rfl
  refine ⟨h.fds, ?_, ?_, ?_, ?_⟩
  · rw [hdaemon, heq]
    exact h.policies
  · rw [hdaemon, heq]
    exact congrArg (· + 1) h.count
  · rw [hdaemon, heq]
    intro t' ht'
    rw [Slots.items_push, List.mem_append, List.mem_singleton] at ht'
    rcases ht' with ht' | rfl
    · exact h.expiry t' ht'
    · rw [ht.expiry]
      rfl
  · rw [hdaemon, heq]
    show s.daemon.nextTokenId + 1 = Int32.ofNat (n + 1 + 1)
    rw [h.counter]
    exact (Int32.ofNat_add _ 1).symm

/-- By induction on the number of requests. -/
theorem holds_reachable {n : Nat} (hn : n ≤ OMNIOS_CAP_TOKEN_MAX) :
    ∃ s, Holds n s ∧ Lts.Reachable (system.restrict Honest) s := by
  induction n with
  | zero =>
      refine ⟨boot.accept 100 true, ⟨rfl, rfl, rfl, ?_, rfl⟩, connected_reachable⟩
      intro t ht
      exact absurd ht List.not_mem_nil
  | succ n ih =>
      rcases ih (by omega) with ⟨s, hholds, hreach⟩
      exact hholds.request hn hreach

/-- After 64 grants at time 0, the REQUEST one nanosecond past their expiry is denied. -/
theorem expired_tokens_block_request :
    ∃ s, Lts.Reachable (system.restrict Honest) s ∧
      Asks s 0 (tokenLifetime + 1) readRequest ∧
      (∀ t ∈ s.daemon.tokenStore.items, t.expiryNs < tokenLifetime + 1) ∧
      (handleMessage s.daemon (tokenLifetime + 1) readRequest).1.kind ≠ some .grant := by
  rcases holds_reachable (Nat.le_refl OMNIOS_CAP_TOKEN_MAX) with ⟨s, hholds, hreach⟩
  refine ⟨s, hreach, hholds.asks (Or.inr (by decide)), ?_, ?_⟩
  · intro t ht
    rw [hholds.expiry t ht]
    decide
  · rw [Ne, handleMessage_grant_iff (by decide)]
    rintro ⟨hslot, -⟩
    rw [hholds.count] at hslot
    exact Nat.lt_irrefl _ hslot

end OmniOS.Security
