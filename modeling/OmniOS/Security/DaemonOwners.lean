import OmniOS.Security.DaemonInv

/-!
# OmniOS.Security.DaemonOwners — whose tokens a client can reach

Two gaps between the connection table and the token store:

1. **Creation.** `owner_pid` is the `sender_pid` field of the REQUEST, which
   the daemon never compares with the `SO_PEERCRED` pid it read at accept time.
   A client gets tokens in another name, with that name's rights.
2. **Revocation.** `token_revoke` looks for the id alone. `token_verify`
   compares the owner, REVOKE does not.

Each comes with a run that shows it and with the condition on messages under
which the run law holds.
-/

namespace OmniOS.Security

/-- A condition on every message, read against the state it arrives in and the
peer that sent it. -/
def OnMessage (P : Daemon → Int32 → Msg → Prop) : Event → Server → Prop
  | .message i _ req, s => ∀ h : i < s.fds.count, P s.daemon (s.fds.get ⟨i, h⟩) req
  | .accept _ _, _ => True
  | .hangup _, _ => True

/-! ## Creation -/

/-- Tokens belong to the peer whose REQUEST made them, and stay within the
policy entry of that peer. -/
structure Authentic (s : Server) : Prop where
  created : ∀ t ∈ s.daemon.tokenStore.items, ∃ x ∈ s.log, x.made = some t
  owner : ∀ x ∈ s.log, ∀ t, x.made = some t →
    x.req.kind = some .request ∧ t.ownerPid = x.peer
  confined : ∀ x ∈ s.log, ∀ t, x.made = some t →
    ∃ e ∈ s.daemon.policyTable.items, e.pid = x.peer ∧ Within t.rights e.maxRights

/-- A REQUEST that the policy of its `sender_pid` allows, while there is room,
comes from that pid. -/
def OwnRequest (d : Daemon) (peer : Int32) (req : Msg) : Prop :=
  req.kind = some .request → d.tokenStore.count < OMNIOS_CAP_TOKEN_MAX →
    policyAllows d req.senderPid req.token.rights = true → req.senderPid = peer

theorem Authentic.grant {s : Server} (h : Authentic s) {peer : Int32} {now : UInt64}
    {req resp : Msg} {t : Token} (hroom : s.daemon.tokenStore.count < OMNIOS_CAP_TOKEN_MAX)
    (hkind : req.kind = some .request)
    (hallow : policyAllows s.daemon req.senderPid req.token.rights = true)
    (ht : Mints s.daemon now req t) (hpeer : req.senderPid = peer) :
    Authentic
      { s with
        daemon :=
          { s.daemon with
            tokenStore := s.daemon.tokenStore.push hroom t
            nextTokenId := s.daemon.nextTokenId + 1 }
        log := s.log ++ [⟨peer, now, req, resp, some t⟩] } := by
  constructor
  · intro t' ht'
    rw [Slots.items_push, List.mem_append, List.mem_singleton] at ht'
    rcases ht' with hold | hnew
    · rcases h.created t' hold with ⟨x, hx, hmade⟩
      exact ⟨x, List.mem_append_left _ hx, hmade⟩
    · subst hnew
      exact ⟨_, List.mem_append_right _ (List.mem_singleton_self _), rfl⟩
  · intro x hx t' hmade
    rw [List.mem_append, List.mem_singleton] at hx
    rcases hx with hold | hnew
    · exact h.owner x hold t' hmade
    · subst hnew
      have heq : t = t' := Option.some.inj hmade
      subst heq
      exact ⟨hkind, ht.owner.trans hpeer⟩
  · intro x hx t' hmade
    rw [List.mem_append, List.mem_singleton] at hx
    rcases hx with hold | hnew
    · exact h.confined x hold t' hmade
    · subst hnew
      have heq : t = t' := Option.some.inj hmade
      subst heq
      -- the entry that allowed it is that of `sender_pid`, and so of the peer
      rcases policyAllows_iff.mp hallow with ⟨e, he, hwithin⟩
      have hpid : e.pid = req.senderPid := by simpa using List.find?_some he
      refine ⟨e, List.mem_of_find?_eq_some he, hpid.trans hpeer, ?_⟩
      rw [ht.rights]
      exact hwithin

/-- A message that makes no token. -/
theorem Authentic.other {s : Server} (h : Authentic s) {x : Exchange} (hx : x.made = none)
    {store : Slots Token OMNIOS_CAP_TOKEN_MAX}
    (hstore : ∀ t ∈ store.items, t ∈ s.daemon.tokenStore.items) :
    Authentic { s with daemon := { s.daemon with tokenStore := store }, log := s.log ++ [x] } := by
  have hold : ∀ y ∈ s.log ++ [x], ∀ t, y.made = some t → y ∈ s.log := by
    intro y hy t hmade
    rw [List.mem_append, List.mem_singleton] at hy
    rcases hy with hold | hnew
    · exact hold
    · subst hnew
      rw [hx] at hmade
      exact absurd hmade (by simp)
  constructor
  · intro t ht
    rcases h.created t (hstore t ht) with ⟨y, hy, hmade⟩
    exact ⟨y, List.mem_append_left _ hy, hmade⟩
  · intro y hy t hmade
    exact h.owner y (hold y hy t hmade) t hmade
  · intro y hy t hmade
    exact h.confined y (hold y hy t hmade) t hmade

theorem authentic_step {e : Event} {s s' : Server} (h : Authentic s)
    (hown : OnMessage OwnRequest e s) (hnext : Next e s s') : Authentic s' := by
  rcases step_of_next hnext with
    ⟨i, hi, now, req, resp, made, d, heffect, -⟩ | ⟨peer, fds, hfresh, hroom, entry, hpid⟩ |
      ⟨_, fds⟩
  · cases heffect with
    | grant hroom t hkind hallow ht hresp =>
        exact h.grant hroom hkind hallow ht (hown hi hkind hroom hallow)
    | revoke j hkind hfind hresp => exact h.other rfl fun t ht => mem_of_mem_removeAt ht
    | keep hrequest hrevoke => exact h.other rfl fun t ht => ht
  · -- policy entries are only added
    refine ⟨h.created, h.owner, ?_⟩
    intro x hx t hmade
    rcases h.confined x hx t hmade with ⟨p, hp, hpid', hwithin⟩
    refine ⟨p, ?_, hpid', hwithin⟩
    rw [Slots.items_push]
    exact List.mem_append_left _ hp
  · exact ⟨h.created, h.owner, h.confined⟩

/-- While every REQUEST that can succeed names its own peer, tokens belong to
the peers that asked for them. -/
theorem owners_authentic {s : Server}
    (hreach : Lts.Reachable (system.restrict (OnMessage OwnRequest)) s) : Authentic s := by
  refine hreach.invariant ?_ ?_
  · rintro s rfl
    constructor
    · intro t ht
      exact absurd ht List.not_mem_nil
    · intro x hx
      exact absurd hx List.not_mem_nil
    · intro x hx
      exact absurd hx List.not_mem_nil
  · rintro e s s' h ⟨hown, hnext⟩
    exact authentic_step h hown hnext

/-- The run of `oneToken`, in which process 100 asks in its own name. -/
theorem owners_authentic_oneToken : ∃ s,
    Lts.Reachable (system.restrict (OnMessage OwnRequest)) s ∧
      s.daemon.tokenStore.count = 1 ∧ Authentic s := by
  have hconnected :
      Lts.Reachable (system.restrict (OnMessage OwnRequest)) (boot.accept 100 true) :=
    (Lts.Reachable.init rfl).step (a := Event.accept 100 true) ⟨trivial, rfl⟩
  have hreach : Lts.Reachable (system.restrict (OnMessage OwnRequest)) oneToken :=
    hconnected.step (a := Event.message 0 0 _) ⟨fun _ _ _ _ => rfl, by decide, rfl⟩
  exact ⟨oneToken, hreach, by decide, owners_authentic hreach⟩

/-- Process 100 asks for the display in the name of process 1. -/
def spoofed : Server :=
  (boot.accept 100 true).receive 100 0
    (Msg.plain .request 1 { Token.zero with rights := OMNIOS_CAP_DISPLAY_ACCESS })

/-- It gets the token, although its own policy entry has no display access. -/
theorem spoofed_not_authentic : Lts.Reachable system spoofed ∧
    (∃ x t, spoofed.log = [x] ∧ spoofed.daemon.tokenStore.items = [t] ∧ x.made = some t ∧
      x.peer = 100 ∧ t.ownerPid = 1 ∧
      ∀ e ∈ spoofed.daemon.policyTable.items, e.pid = 100 → ¬ Within t.rights e.maxRights) ∧
    ¬ Authentic spoofed := by
  have hstate : ∃ x t, spoofed.log = [x] ∧ spoofed.daemon.tokenStore.items = [t] ∧
      x.made = some t ∧ x.peer = 100 ∧ t.ownerPid = 1 ∧ t.rights = OMNIOS_CAP_DISPLAY_ACCESS :=
    ⟨_, _, rfl, rfl, rfl, rfl, rfl, rfl⟩
  rcases hstate with ⟨x, t, hlog, hitems, hmade, hpeer, howner, hrights⟩
  refine ⟨?_, ⟨x, t, hlog, hitems, hmade, hpeer, howner, ?_⟩, ?_⟩
  · have hconnected : Lts.Reachable system (boot.accept 100 true) :=
      (Lts.Reachable.init rfl).step (a := Event.accept 100 true) rfl
    exact hconnected.step (a := Event.message 0 0 _) ⟨by decide, rfl⟩
  · simp only [hrights, within_iff]
    decide
  · intro h
    have heq := (h.owner x (by simp [hlog]) t hmade).2
    rw [howner, hpeer] at heq
    exact absurd heq (by decide)

/-! ## Revocation -/

/-- The tokens of process `p`. -/
def tokensOf (d : Daemon) (p : Int32) : List Token :=
  d.tokenStore.items.filter (·.ownerPid == p)

/-- The tokens of everyone but `p`. -/
def tokensOfOthers (d : Daemon) (p : Int32) : List Token :=
  d.tokenStore.items.filter (·.ownerPid != p)

/-- A REVOKE that finds a token finds one of its sender. -/
def OwnRevoke (d : Daemon) (req : Msg) : Prop :=
  req.kind = some .revoke → ∀ t, tokenFind d req.token.id = some t → t.ownerPid = req.senderPid

/-- The token a REVOKE removes is the one `token_find` finds. -/
theorem tokenFind_of_findIdx {d : Daemon} {id : UInt32} {i : Fin d.tokenStore.count}
    (h : d.tokenStore.findIdx? (·.id == id) = some i) :
    tokenFind d id = some (d.tokenStore.get i) := by
  rw [tokenFind, Slots.find?_items, h]
  rfl

/-- Own messages touch own tokens only. -/
theorem Effect.filter_perm {d d' : Daemon} {now : UInt64} {req resp : Msg} {made : Option Token}
    (heffect : Effect d now req resp made d') (hown : OwnRevoke d req) {P : Token → Bool}
    (hP : ∀ t, t.ownerPid = req.senderPid → P t = false) :
    (d'.tokenStore.items.filter P).Perm (d.tokenStore.items.filter P) := by
  cases heffect with
  | grant hroom t hkind hallow ht hresp =>
      show ((d.tokenStore.push hroom t).items.filter P).Perm _
      rw [Slots.items_push, List.filter_append, List.filter_singleton, hP t ht.owner]
      simp
  | revoke i hkind hfind hresp =>
      have howner : (d.tokenStore.get i).ownerPid = req.senderPid :=
        hown hkind _ (tokenFind_of_findIdx hfind)
      have hperm := (d.tokenStore.items_removeAt i).filter P
      rw [List.filter_cons, hP _ howner] at hperm
      exact hperm.symm
  | keep hrequest hrevoke => exact List.Perm.refl _

/-- A REVOKE of someone else's token takes it out. -/
theorem Effect.filter_revoked {d d' : Daemon} {now : UInt64} {req resp : Msg} {made : Option Token}
    (heffect : Effect d now req resp made d') (hkind : req.kind = some .revoke) {t : Token}
    (hfind : tokenFind d req.token.id = some t) {P : Token → Bool} (hP : P t = true) :
    ¬ (d'.tokenStore.items.filter P).Perm (d.tokenStore.items.filter P) := by
  cases heffect with
  | grant hroom t' hkind' =>
      rw [hkind] at hkind'
      exact absurd hkind' (by decide)
  | keep hrequest hrevoke =>
      rw [(hrevoke hkind).2] at hfind
      exact absurd hfind (by simp)
  | revoke i hkind' hidx hresp =>
      have ht : t = d.tokenStore.get i :=
        Option.some.inj (hfind.symm.trans (tokenFind_of_findIdx hidx))
      subst ht
      intro hperm
      have hlost := (d.tokenStore.items_removeAt i).filter P
      rw [List.filter_cons, hP, if_pos rfl] at hlost
      -- one filtered token fewer than before
      have hlength := hlost.length_eq.symm.trans hperm.length_eq.symm
      rw [List.length_cons] at hlength
      exact absurd hlength (Nat.succ_ne_self _)

/-- Every message names its own peer, and a REVOKE only hits tokens of its
sender. -/
def OwnMessages (d : Daemon) (peer : Int32) (req : Msg) : Prop :=
  req.senderPid = peer ∧ OwnRevoke d req

/-- The tokens of `p` over a run of own messages: only a REQUEST or REVOKE of
`p` changes them. -/
theorem tokensOf_run {s s' : Server} {es : List Event} (p : Int32)
    (hrun : Lts.Run (system.restrict (OnMessage OwnMessages)) s es s') :
    ∃ new, s'.log = s.log ++ new ∧
      ((∀ x ∈ new, x.peer = p → x.req.kind ≠ some .request ∧ x.req.kind ≠ some .revoke) →
        (tokensOf s'.daemon p).Perm (tokensOf s.daemon p)) := by
  refine hrun.invariant
    (I := fun s' => ∃ new, s'.log = s.log ++ new ∧
      ((∀ x ∈ new, x.peer = p → x.req.kind ≠ some .request ∧ x.req.kind ≠ some .revoke) →
        (tokensOf s'.daemon p).Perm (tokensOf s.daemon p))) ?_ ?_
  · rintro e t t' ⟨new, hlog, hnew⟩ ⟨hown, hnext⟩
    rcases step_of_next hnext with
      ⟨i, hi, now, req, resp, made, d, heffect, -⟩ | ⟨peer, fds, hfresh, hroom, entry, hpid⟩ |
        ⟨_, fds⟩
    · refine ⟨new ++ [⟨t.fds.get ⟨i, hi⟩, now, req, resp, made⟩], ?_, ?_⟩
      · show t.log ++ _ = _
        rw [hlog, List.append_assoc]
      intro hquiet
      rcases hown hi with ⟨hsender, hrevoke⟩
      have hbefore := hnew fun x hx => hquiet x (List.mem_append_left _ hx)
      refine List.Perm.trans ?_ hbefore
      by_cases hp : req.senderPid = p
      · -- a message of `p`, but neither REQUEST nor REVOKE
        have hkinds := hquiet _ (List.mem_append_right _ (List.mem_singleton_self _))
          (hsender.symm.trans hp)
        cases heffect with
        | grant _ _ hkind => exact absurd hkind hkinds.1
        | revoke _ hkind => exact absurd hkind hkinds.2
        | keep => exact List.Perm.refl _
      · -- a message of someone else
        refine heffect.filter_perm hrevoke ?_
        intro t ht
        rw [ht]
        exact beq_eq_false_iff_ne.mpr hp
    · exact ⟨new, hlog, hnew⟩
    · exact ⟨new, hlog, hnew⟩
  · exact ⟨[], (List.append_nil _).symm, fun _ => List.Perm.refl _⟩

/-- A message leaves the tokens of others alone exactly when it is not a REVOKE
of one of them; over a run of such messages, sent truthfully, the tokens of a
client change by its own REQUEST and REVOKE messages only. -/
theorem revocation_authority (s : Server) :
    (∀ i now req s', Next (.message i now req) s s' →
      ((tokensOfOthers s'.daemon req.senderPid).Perm (tokensOfOthers s.daemon req.senderPid) ↔
        OwnRevoke s.daemon req)) ∧
    (∀ es s', Lts.Run (system.restrict (OnMessage OwnMessages)) s es s' → ∀ p,
      ∃ new, s'.log = s.log ++ new ∧
        ((∀ x ∈ new, x.peer = p → x.req.kind ≠ some .request ∧ x.req.kind ≠ some .revoke) →
          (tokensOf s'.daemon p).Perm (tokensOf s.daemon p))) := by
  refine ⟨?_, fun es s' hrun p => tokensOf_run p hrun⟩
  rintro i now req s' ⟨hi, rfl⟩
  have heffect := handleMessage_effect s.daemon now req
  constructor
  · intro hperm hkind t hfind
    by_contra howner
    refine heffect.filter_revoked hkind hfind ?_ hperm
    exact bne_iff_ne.mpr howner
  · intro hown
    refine heffect.filter_perm hown ?_
    intro t ht
    rw [ht]
    exact bne_self_eq_false _

/-- Processes 100 and 200 are connected; 100 has got a token. -/
def twoClients : Server :=
  ((boot.accept 100 true).accept 200 true).receive 100 0
    (Msg.plain .request 100 { Token.zero with rights := OMNIOS_CAP_FILE_READ })

theorem twoClients_reachable : Lts.Reachable system twoClients := by
  have hfirst : Lts.Reachable system (boot.accept 100 true) :=
    (Lts.Reachable.init rfl).step (a := Event.accept 100 true) rfl
  have hsecond : Lts.Reachable system ((boot.accept 100 true).accept 200 true) :=
    hfirst.step (a := Event.accept 200 true) rfl
  exact hsecond.step (a := Event.message 0 0 _) ⟨by decide, rfl⟩

/-- REVOKE of token 1. -/
def revokeOne (senderPid : Int32) : Msg := Msg.plain .revoke senderPid { Token.zero with id := 1 }

/-- Process 100 revokes its own token; process 200 has nothing to lose. -/
theorem revocation_authority_own :
    OwnRevoke twoClients.daemon (revokeOne 100) ∧
    (tokensOfOthers (twoClients.receive 100 0 (revokeOne 100)).daemon 100).Perm
      (tokensOfOthers twoClients.daemon 100) := by
  have hown : OwnRevoke twoClients.daemon (revokeOne 100) := by
    intro _ t ht
    have howner : (tokenFind twoClients.daemon 1).map (·.ownerPid) = some 100 := rfl
    rw [show tokenFind twoClients.daemon 1 = some t from ht] at howner
    exact Option.some.inj howner
  exact ⟨hown, ((revocation_authority twoClients).1 0 0 _ _ ⟨by decide, rfl⟩).mpr hown⟩

/-- Process 200 revokes it instead, under its own pid, and the token is gone. -/
theorem revoked_by_stranger : Lts.Reachable system twoClients ∧
    Next (.message 1 0 (revokeOne 200)) twoClients (twoClients.receive 200 0 (revokeOne 200)) ∧
    (tokensOf twoClients.daemon 100).length = 1 ∧
    tokensOf (twoClients.receive 200 0 (revokeOne 200)).daemon 100 = [] :=
  ⟨twoClients_reachable, ⟨by decide, rfl⟩, by decide, by decide⟩

end OmniOS.Security
