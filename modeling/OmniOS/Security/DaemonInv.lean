import Mathlib.Algebra.Group.Nat.Defs
import OmniOS.Security.Daemon

/-!
# OmniOS.Security.DaemonInv — confinement of rights

1. **Effects.** `Effect` lists what a message can do: make one token, remove
   one, or leave the daemon alone. With `handleMessage_effect` no invariant has
   to look inside `handle_message`.
2. **Steps.** `next_cases` does the same for the poll loop.
3. **Safety.** Policy entries are unique and final, every token stays within
   the entry of its owner, and ids count up as long as `next_token_id` has not
   wrapped.
4. **Owners.** Whose token a message can touch: what `sender_pid` claims is
   never compared with the peer, and REVOKE does not look at the owner.
-/

namespace OmniOS.Security

/-! ## Spec lemmas -/

theorem policyAllows_iff {d : Daemon} {pid : Int32} {r : Rights} :
    policyAllows d pid r = true ↔
      ∃ e, d.policyTable.items.find? (·.pid == pid) = some e ∧ Within r e.maxRights := by
  rw [Slots.find?_items]
  unfold policyAllows policyLookup
  cases d.policyTable.findIdx? (·.pid == pid) with
  | none => simp
  | some idx => simp [within_iff]

/-- A pid is registered once; later registrations change nothing. -/
theorem policyRegister_cases (d : Daemon) (pid : Int32) (hint : SeccompHint) :
    policyRegister d pid hint = d ∨
    (∀ e ∈ d.policyTable.items, e.pid ≠ pid) ∧
      ∃ h, policyRegister d pid hint =
        { d with policyTable := d.policyTable.push h ⟨pid, hint, omniosCapDefaultRights hint⟩ } := by
  unfold policyRegister
  cases hidx : policyLookup d pid with
  | some idx => exact Or.inl rfl
  | none =>
      have hfresh : ∀ e ∈ d.policyTable.items, e.pid ≠ pid := by
        intro e he
        have := Slots.findIdx?_eq_none.mp hidx e he
        simpa using this
      by_cases hroom : d.policyTable.count < MAX_POLICY
      · exact Or.inr ⟨hfresh, hroom, dif_pos hroom⟩
      · exact Or.inl (dif_neg hroom)

/-- The token a grant stores, field by field. -/
structure Mints (d : Daemon) (now : UInt64) (req : Msg) (t : Token) : Prop where
  id : t.id = d.nextTokenId.toUInt32
  rights : t.rights = req.token.rights
  expiry : t.expiryNs = now + tokenLifetime
  owner : t.ownerPid = req.senderPid
  label : ∃ i h, t.label =
    strncpy (d.tokenStore.slot i).label req.token.label (OMNIOS_CAP_LABEL_LEN - 1) h

/-- `token_grant` fails and changes nothing, or stores one more token. -/
theorem tokenGrant_cases (d : Daemon) (now : UInt64) (req : Msg) :
    (∃ e, (e = EPERM ∨ e = ENOSPC) ∧
      tokenGrant d req.senderPid req.token.rights req.token.label now = (-e, d)) ∨
    ∃ h t, policyAllows d req.senderPid req.token.rights = true ∧ Mints d now req t ∧
      tokenGrant d req.senderPid req.token.rights req.token.label now =
        (d.nextTokenId,
          { d with tokenStore := d.tokenStore.push h t, nextTokenId := d.nextTokenId + 1 }) := by
  unfold tokenGrant
  by_cases hroom : d.tokenStore.count < OMNIOS_CAP_TOKEN_MAX
  · rw [dif_pos hroom]
    by_cases hallow : policyAllows d req.senderPid req.token.rights = true
    · right
      rw [if_pos hallow]
      refine ⟨hroom, _, hallow, ?_, rfl⟩
      exact ⟨rfl, rfl, rfl, rfl, _, Nat.sub_le _ _, rfl⟩
    · left
      rw [if_neg hallow]
      exact ⟨EPERM, Or.inl rfl, rfl⟩
  · left
    rw [dif_neg hroom]
    exact ⟨ENOSPC, Or.inr rfl, rfl⟩

/-- `token_find` right after a grant is not NULL. -/
theorem tokenFind_tokenGrant {d : Daemon} {h : d.tokenStore.count < OMNIOS_CAP_TOKEN_MAX}
    {t : Token} {k : Int32} :
    (tokenFind { d with tokenStore := d.tokenStore.push h t, nextTokenId := k } t.id).isSome := by
  rw [tokenFind, List.find?_isSome]
  exact ⟨t, by simp [Slots.items_push], beq_self_eq_true t.id⟩

theorem tokenVerify_eq_zero {d : Daemon} {id : UInt32} {requester : Int32} {now : UInt64} :
    ¬ tokenVerify d id requester now < 0 ↔
      ∃ t, tokenFind d id = some t ∧ t.ownerPid = requester ∧ now ≤ t.expiryNs := by
  unfold tokenVerify
  cases hfind : tokenFind d id with
  | none => simp [show -ENOENT < 0 by decide]
  | some t =>
      by_cases howner : t.ownerPid = requester
      · by_cases hexp : now > t.expiryNs
        · simp [howner, hexp, show -ETIME < 0 by decide, UInt64.not_le.mpr hexp]
        · simp [howner, hexp, UInt64.not_lt.mp hexp]
      · simp [howner, show -EPERM < 0 by decide]

/-! ## Effects -/

theorem newToken_grant {d : Daemon} (h : d.tokenStore.count < OMNIOS_CAP_TOKEN_MAX) (t : Token) :
    newToken d { d with tokenStore := d.tokenStore.push h t, nextTokenId := d.nextTokenId + 1 } =
      some t := by
  have hmoved : d.nextTokenId + 1 ≠ d.nextTokenId := by
    intro heq
    have := congrArg Int32.toBitVec heq
    simp at this
  rw [newToken, if_neg hmoved]
  simp [Slots.items_push]

/-- What a message does to the daemon, which token it makes, and as much of the
answer as matters: its kind, and the id a grant reports while ids are
positive. -/
inductive Effect (d : Daemon) (now : UInt64) (req resp : Msg) : Option Token → Daemon → Prop where
  | grant (h : d.tokenStore.count < OMNIOS_CAP_TOKEN_MAX) (t : Token)
      (hkind : req.kind = some .request)
      (hallow : policyAllows d req.senderPid req.token.rights = true)
      (ht : Mints d now req t)
      (hresp : ¬ d.nextTokenId < 0 → resp.kind = some .grant ∧ resp.token.id = t.id) :
      Effect d now req resp (some t)
        { d with tokenStore := d.tokenStore.push h t, nextTokenId := d.nextTokenId + 1 }
  | revoke (i : Fin d.tokenStore.count)
      (hkind : req.kind = some .revoke)
      (hfind : d.tokenStore.findIdx? (·.id == req.token.id) = some i)
      (hresp : resp.kind = some .grant) :
      Effect d now req resp none { d with tokenStore := d.tokenStore.removeAt i }
  | keep
      (hrequest : req.kind = some .request → resp.kind = some .deny)
      (hrevoke : req.kind = some .revoke →
        resp.kind = some .deny ∧ tokenFind d req.token.id = none) :
      Effect d now req resp none d

theorem handleMessage_effect (d : Daemon) (now : UInt64) (req : Msg) :
    Effect d now req (handleMessage d now req).1 (newToken d (handleMessage d now req).2)
      (handleMessage d now req).2 := by
  have hkeep : newToken d d = none := if_pos rfl
  unfold handleMessage
  cases hkind : req.kind with
  | none =>
      rw [hkeep]
      exact Effect.keep (by simp [hkind]) (by simp [hkind])
  | some kind =>
      cases kind with
      | request =>
          dsimp only
          cases hlookup : policyLookup d req.senderPid with
          | none =>
              -- "unknown pid"
              rw [hkeep]
              exact Effect.keep (fun _ => rfl) (by simp [hkind])
          | some idx =>
              rcases tokenGrant_cases d now req with ⟨e, he, hgrant⟩ | ⟨h, t, hallow, ht, hgrant⟩
              · -- the error is reported and nothing was stored
                have hneg : -e < 0 := by
                  rcases he with rfl | rfl
                  · decide
                  · decide
                rw [hgrant]
                dsimp only
                rw [if_pos hneg, hkeep]
                exact Effect.keep (fun _ => rfl) (by simp [hkind])
              · rw [hgrant]
                dsimp only
                by_cases hneg : d.nextTokenId < 0
                · -- a wrapped id reads as an error code, but the token is there
                  rw [if_pos hneg, newToken_grant]
                  exact Effect.grant h t hkind hallow ht fun hpos => absurd hneg hpos
                · rw [if_neg hneg, newToken_grant]
                  exact Effect.grant h t hkind hallow ht fun _ => ⟨rfl, ht.id.symm⟩
      | revoke =>
          unfold tokenRevoke
          cases hfind : d.tokenStore.findIdx? (·.id == req.token.id) with
          | none =>
              dsimp only
              rw [if_pos (by decide), hkeep]
              have hnone : tokenFind d req.token.id = none := by
                rw [tokenFind, Slots.find?_items, hfind]
                rfl
              exact Effect.keep (fun _ => rfl) (fun _ => ⟨rfl, hnone⟩)
          | some i =>
              have hmade : newToken d { d with tokenStore := d.tokenStore.removeAt i } = none :=
                if_pos rfl
              dsimp only
              rw [if_neg (by decide), hmade]
              exact Effect.revoke i hkind hfind rfl
      | verify =>
          dsimp only
          split
          · rw [hkeep]
            exact Effect.keep (by simp [hkind]) (by simp [hkind])
          · rw [hkeep]
            exact Effect.keep (by simp [hkind]) (by simp [hkind])
      | invalid | grant | deny | forward | list =>
          dsimp only
          rw [hkeep]
          exact Effect.keep (by simp [hkind]) (by simp [hkind])

/-! ## Steps of the server -/

/-- A step handles one message, or changes neither tokens nor the log; then the
policy table at most grows by an entry for a new pid. -/
inductive Step (s : Server) : Event → Server → Prop where
  | message (i : Nat) (hi : i < s.fds.count) (now : UInt64) (req resp : Msg)
      (made : Option Token) (d : Daemon) (heffect : Effect s.daemon now req resp made d)
      (hresp : resp = (handleMessage s.daemon now req).1) :
      Step s (.message i now req)
        { s with
          daemon := d
          log := s.log ++ [⟨s.fds.get ⟨i, hi⟩, now, req, resp, made⟩] }
  | register (peer : Int32) (fds : Slots Int32 MAX_CLIENTS)
      (hfresh : ∀ p ∈ s.daemon.policyTable.items, p.pid ≠ peer)
      (h : s.daemon.policyTable.count < MAX_POLICY) (entry : PolicyEntry) (hpid : entry.pid = peer) :
      Step s (.accept peer true)
        { s with
          daemon := { s.daemon with policyTable := s.daemon.policyTable.push h entry }
          fds := fds }
  | connect (e : Event) (fds : Slots Int32 MAX_CLIENTS) : Step s e { s with fds := fds }

theorem step_of_next {e : Event} {s s' : Server} (h : Next e s s') : Step s e s' := by
  cases e with
  | message i now req =>
      rcases h with ⟨hi, rfl⟩
      exact Step.message i hi now req _ _ _ (handleMessage_effect _ _ _) rfl
  | hangup i =>
      rcases h with ⟨hi, rfl⟩
      exact Step.connect _ _
  | accept peer credOk =>
      have h : s' = s.accept peer credOk := h
      subst h
      unfold Server.accept
      split
      · cases credOk with
        | false => exact Step.connect _ _
        | true =>
            rw [if_pos rfl]
            rcases policyRegister_cases s.daemon peer .app with heq | ⟨hfresh, hroom, heq⟩
            · rw [heq]
              exact Step.connect _ _
            · rw [heq]
              exact Step.register peer _ hfresh hroom _ rfl
      · exact Step.connect _ s.fds

/-! ## Safety -/

theorem grants_append (log : List Exchange) (x : Exchange) :
    grants (log ++ [x]) = grants log + if x.made.isSome then 1 else 0 := by
  simp [grants, List.countP_append, List.countP_singleton]

/-- Ids as numbers, while the counter has not wrapped. -/
theorem toNat_id {n : Nat} (h : n < 2 ^ 32) : (Int32.ofNat n).toUInt32.toNat = n := by
  show (BitVec.ofNat 32 n).toNat = n
  rw [BitVec.toNat_ofNat, Nat.mod_eq_of_lt h]

theorem id_not_neg {n : Nat} (h : n < 2 ^ 31) : ¬ Int32.ofNat n < 0 := by
  rw [Int32.lt_iff_toInt_lt, Int32.toInt_ofNat_of_lt h]
  simp

/-- The daemon after `n` grants. -/
structure Inv (d : Daemon) (n : Nat) : Prop where
  policies : (d.policyTable.items.map (·.pid)).Nodup
  within : ∀ t ∈ d.tokenStore.items, ∃ e ∈ d.policyTable.items,
    e.pid = t.ownerPid ∧ Within t.rights e.maxRights
  counter : d.nextTokenId = Int32.ofNat (n + 1)
  distinct : n < 2 ^ 31 → (d.tokenStore.items.map (·.id)).Nodup
  below : n < 2 ^ 31 → ∀ t ∈ d.tokenStore.items, t.id.toNat ≤ n

section Inv

variable {d : Daemon} {n : Nat}

theorem Inv.next_toNat (h : Inv d n) (hn : n < 2 ^ 31) : d.nextTokenId.toUInt32.toNat = n + 1 := by
  rw [h.counter]
  exact toNat_id (by omega)

theorem Inv.grant (h : Inv d n) {now : UInt64} {req : Msg} {t : Token}
    (hroom : d.tokenStore.count < OMNIOS_CAP_TOKEN_MAX)
    (hallow : policyAllows d req.senderPid req.token.rights = true) (ht : Mints d now req t) :
    Inv { d with tokenStore := d.tokenStore.push hroom t, nextTokenId := d.nextTokenId + 1 }
      (n + 1) := by
  have hid : n + 1 < 2 ^ 31 → t.id.toNat = n + 1 := by
    intro hn
    rw [ht.id]
    exact h.next_toNat (by omega)
  refine ⟨h.policies, ?_, ?_, ?_, ?_⟩
  · -- the new token passed `policy_allows`
    intro t' ht'
    rw [Slots.items_push, List.mem_append, List.mem_singleton] at ht'
    rcases ht' with ht' | rfl
    · exact h.within t' ht'
    · rcases policyAllows_iff.mp hallow with ⟨p, hp, hwithin⟩
      refine ⟨p, List.mem_of_find?_eq_some hp, ?_, ht.rights ▸ hwithin⟩
      rw [ht.owner]
      simpa using List.find?_some hp
  · show d.nextTokenId + 1 = Int32.ofNat (n + 1 + 1)
    rw [h.counter]
    exact (Int32.ofNat_add _ 1).symm
  · -- the counter is above every id handed out so far
    intro hn
    rw [Slots.items_push, List.map_append, List.map_singleton, List.nodup_append]
    refine ⟨h.distinct (by omega), List.nodup_singleton _, ?_⟩
    intro k hk k' hk' hkk
    rw [List.mem_singleton] at hk'
    rcases List.mem_map.mp hk with ⟨t', ht', rfl⟩
    have hle := h.below (by omega) t' ht'
    have hnew := hid hn
    rw [hkk, hk'] at hle
    omega
  · intro hn t' ht'
    rw [Slots.items_push, List.mem_append, List.mem_singleton] at ht'
    rcases ht' with ht' | rfl
    · have := h.below (by omega) t' ht'
      omega
    · exact Nat.le_of_eq (hid hn)

/-- Removing a token only moves the others. -/
theorem mem_of_mem_removeAt {α : Type*} {m : Nat} {s : Slots α m} {i : Fin s.count} {a : α}
    (h : a ∈ (s.removeAt i).items) : a ∈ s.items :=
  (s.items_removeAt i).mem_iff.mpr (List.mem_cons_of_mem _ h)

theorem Inv.revoke (h : Inv d n) (i : Fin d.tokenStore.count) :
    Inv { d with tokenStore := d.tokenStore.removeAt i } n := by
  refine ⟨h.policies, fun t ht => h.within t (mem_of_mem_removeAt ht), h.counter, ?_, ?_⟩
  · intro hn
    have hperm := ((d.tokenStore.items_removeAt i).map (·.id)).nodup_iff.mp (h.distinct hn)
    rw [List.map_cons, List.nodup_cons] at hperm
    exact hperm.2
  · intro hn t ht
    exact h.below hn t (mem_of_mem_removeAt ht)

theorem Inv.register (h : Inv d n) {entry : PolicyEntry}
    (hroom : d.policyTable.count < MAX_POLICY)
    (hfresh : ∀ p ∈ d.policyTable.items, p.pid ≠ entry.pid) :
    Inv { d with policyTable := d.policyTable.push hroom entry } n := by
  refine ⟨?_, ?_, h.counter, h.distinct, h.below⟩
  · rw [Slots.items_push, List.map_append, List.map_singleton, List.nodup_append]
    refine ⟨h.policies, List.nodup_singleton _, ?_⟩
    intro pid hp pid' hp' heq
    rcases List.mem_map.mp hp with ⟨p, hmem, rfl⟩
    rw [List.mem_singleton] at hp'
    exact hfresh p hmem (heq.trans hp')
  · intro t ht
    rcases h.within t ht with ⟨p, hp, hpid, hwithin⟩
    rw [Slots.items_push]
    exact ⟨p, List.mem_append_left _ hp, hpid, hwithin⟩

end Inv

theorem inv_boot : Inv boot.daemon 0 := by
  refine ⟨by decide, ?_, rfl, ?_, ?_⟩
  · intro t ht
    exact absurd ht List.not_mem_nil
  · intro _
    exact List.nodup_nil
  · intro _ t ht
    exact absurd ht List.not_mem_nil

theorem inv_step {e : Event} {s s' : Server} (h : Inv s.daemon (grants s.log))
    (hnext : Next e s s') : Inv s'.daemon (grants s'.log) := by
  rcases step_of_next hnext with
    ⟨i, hi, now, req, resp, made, d, heffect, -⟩ | ⟨peer, fds, hfresh, hroom, entry, hpid⟩ | ⟨_, fds⟩
  · rw [grants_append]
    cases heffect with
    | grant hroom t hkind hallow ht hresp => exact h.grant hroom hallow ht
    | revoke j hkind hfind hresp => exact h.revoke j
    | keep hrequest hrevoke => exact h
  · exact h.register hroom (hpid ▸ hfresh)
  · exact h

theorem inv_of_reachable {s : Server} (hreach : Lts.Reachable system s) :
    Inv s.daemon (grants s.log) := by
  refine hreach.invariant (I := fun s => Inv s.daemon (grants s.log)) ?_ ?_
  · rintro s rfl
    exact inv_boot
  · intro e s s' h hnext
    exact inv_step h hnext

/-- Policy entries stay where they are; new ones are added at the end. -/
theorem policies_grow {s s' : Server} {es : List Event} (hrun : Lts.Run system s es s') :
    s.daemon.policyTable.items <+: s'.daemon.policyTable.items := by
  refine hrun.invariant
    (I := fun s' => s.daemon.policyTable.items <+: s'.daemon.policyTable.items) ?_
    (List.prefix_refl _)
  intro e t t' h hnext
  rcases step_of_next hnext with
    ⟨i, hi, now, req, resp, made, d, heffect, -⟩ | ⟨peer, fds, hfresh, hroom, entry, hpid⟩ | ⟨_, fds⟩
  · cases heffect with
    | grant => exact h
    | revoke => exact h
    | keep => exact h
  · rw [Slots.items_push]
    exact h.trans (List.prefix_append _ _)
  · exact h

/-- A DENY leaves everything as it was, unless the id handed out was negative. -/
theorem deny_keeps {s s' : Server} {i : Nat} {now : UInt64} {req : Msg}
    (h : Inv s.daemon (grants s.log)) (hnext : Next (.message i now req) s s')
    (hbound : grants s'.log < 2 ^ 31)
    (hdeny : (handleMessage s.daemon now req).1.kind = some .deny) : s'.daemon = s.daemon := by
  cases step_of_next hnext with
  | connect => rfl
  | message _ hi _ _ resp made d heffect hresp =>
      subst hresp
      cases heffect with
      | grant hroom t hkind hallow ht hgranted =>
          -- below `2^31` grants the id is not negative, and the answer was GRANT
          rw [grants_append] at hbound
          have hpos : ¬ s.daemon.nextTokenId < 0 := by
            rw [h.counter]
            exact id_not_neg hbound
          have := (hgranted hpos).1
          rw [hdeny] at this
          exact absurd this (by decide)
      | revoke j hkind hfind hrevoked =>
          rw [hdeny] at hrevoked
          exact absurd hrevoked (by decide)
      | keep hrequest hrevoke => rfl

/-- What confinement means. -/
structure Confined (s : Server) : Prop where
  /-- No token carries a right outside the policy entry of its owner. -/
  within : ∀ t ∈ s.daemon.tokenStore.items, ∃ e ∈ s.daemon.policyTable.items,
    e.pid = t.ownerPid ∧ Within t.rights e.maxRights
  policies : (s.daemon.policyTable.items.map (·.pid)).Nodup
  /-- Entries are never changed or moved. -/
  policiesFinal : ∀ es s', Lts.Run system s es s' →
    s.daemon.policyTable.items <+: s'.daemon.policyTable.items
  distinct : grants s.log < 2 ^ 31 → (s.daemon.tokenStore.items.map (·.id)).Nodup
  below : grants s.log < 2 ^ 31 →
    ∀ t ∈ s.daemon.tokenStore.items, t.id < s.daemon.nextTokenId.toUInt32
  room : s.daemon.tokenStore.count ≤ OMNIOS_CAP_TOKEN_MAX
  /-- A refused message changes nothing. -/
  denied : ∀ i now req s', Next (.message i now req) s s' → grants s'.log < 2 ^ 31 →
    (handleMessage s.daemon now req).1.kind = some .deny → s'.daemon = s.daemon

/-- Whatever clients connect and whatever they send. -/
theorem daemon_confined {s : Server} (hreach : Lts.Reachable system s) : Confined s := by
  have h := inv_of_reachable hreach
  refine ⟨h.within, h.policies, fun es s' hrun => policies_grow hrun, h.distinct, ?_,
    s.daemon.tokenStore.count_le, fun i now req s' hnext => deny_keeps h hnext⟩
  intro hn t ht
  have := h.below hn t ht
  rw [UInt32.lt_iff_toNat_lt, h.next_toNat hn]
  omega

/-- Process 100 connects and asks for the right to read files. -/
def oneToken : Server :=
  (boot.accept 100 true).receive 100 0
    (Msg.plain .request 100 { Token.zero with rights := OMNIOS_CAP_FILE_READ })

theorem oneToken_reachable : Lts.Reachable system oneToken := by
  have hconnected : Lts.Reachable system (boot.accept 100 true) :=
    (Lts.Reachable.init rfl).step (a := Event.accept 100 true) rfl
  exact hconnected.step (a := Event.message 0 0 _) ⟨by decide, rfl⟩

theorem daemon_confined_oneToken : oneToken.daemon.tokenStore.count = 1 ∧ Confined oneToken :=
  ⟨by decide, daemon_confined oneToken_reachable⟩

end OmniOS.Security
