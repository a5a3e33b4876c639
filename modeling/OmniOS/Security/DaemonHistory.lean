import OmniOS.Security.DaemonInv

/-!
# OmniOS.Security.DaemonHistory — what VERIFY means over a run

The token store is an unordered array whose slots are reused. Seen from outside
it is a register of grants: VERIFY of an id succeeds when that id was granted
to the sender, has not been revoked since, and is not an hour old.

1. **The past.** `Standing log p k x`: exchange `x` granted `k` to `p` and no
   later exchange revoked `k`. This is the abstract state, read off the log
   alone.
2. **Refinement.** `History`: the tokens in the store are exactly the standing
   grants, with the fields of the request (`history_step`).
3. **VERIFY.** Both together give the answers.
-/

namespace OmniOS.Security

/-! ## The past -/

/-- A REQUEST of `p` answered GRANT with id `k`. -/
def Exchange.IsGrant (x : Exchange) (p : Int32) (k : UInt32) : Prop :=
  x.req.kind = some .request ∧ x.req.senderPid = p ∧
    x.resp.kind = some .grant ∧ x.resp.token.id = k

/-- A REVOKE of `k` answered GRANT. -/
def Exchange.IsRevoke (x : Exchange) (k : UInt32) : Prop :=
  x.req.kind = some .revoke ∧ x.req.token.id = k ∧ x.resp.kind = some .grant

/-- `x` granted `k` to `p`, and `k` was not revoked later. -/
def Standing (log : List Exchange) (p : Int32) (k : UInt32) (x : Exchange) : Prop :=
  ∃ pre post, log = pre ++ x :: post ∧ x.IsGrant p k ∧ ∀ y ∈ post, ¬ y.IsRevoke k

/-- One more exchange: it is itself a grant, or it leaves a grant standing. -/
theorem standing_snoc {log : List Exchange} {y x : Exchange} {p : Int32} {k : UInt32} :
    Standing (log ++ [y]) p k x ↔
      (x = y ∧ y.IsGrant p k) ∨ (Standing log p k x ∧ ¬ y.IsRevoke k) := by
  constructor
  · rintro ⟨pre, post, hlog, hgrant, hpost⟩
    rcases List.eq_nil_or_concat' post with rfl | ⟨post, z, rfl⟩
    · -- the last exchange is the grant
      have hlast := (List.append_inj' hlog rfl).2
      have hxy : x = y := (List.singleton_inj.mp hlast).symm
      subst hxy
      exact Or.inl ⟨rfl, hgrant⟩
    · -- the grant came earlier
      have hsplit : log ++ [y] = (pre ++ x :: post) ++ [z] := by
        rw [hlog]
        simp
      have hparts := List.append_inj' hsplit rfl
      have hyz : y = z := List.singleton_inj.mp hparts.2
      subst hyz
      right
      refine ⟨⟨pre, post, hparts.1, hgrant, ?_⟩, ?_⟩
      · intro w hw
        exact hpost w (List.mem_append_left _ hw)
      · exact hpost y (List.mem_append_right _ (List.mem_singleton_self y))
  · rintro (⟨rfl, hgrant⟩ | ⟨⟨pre, post, rfl, hgrant, hpost⟩, hy⟩)
    · exact ⟨log, [], rfl, hgrant, fun w hw => absurd hw List.not_mem_nil⟩
    · refine ⟨pre, post ++ [y], by simp, hgrant, ?_⟩
      intro w hw
      rw [List.mem_append, List.mem_singleton] at hw
      rcases hw with hw | rfl
      · exact hpost w hw
      · exact hy

/-! ## Refinement -/

/-- Token `t` is what the request of `x` asked for. -/
structure Records (x : Exchange) (t : Token) : Prop where
  rights : t.rights = x.req.token.rights
  expiry : t.expiryNs = x.now + tokenLifetime
  label : cString t.label.val = (cString x.req.token.label.val).take (OMNIOS_CAP_LABEL_LEN - 1)

/-- The last byte of every label is NUL, in used and unused slots. -/
def Terminated (d : Daemon) : Prop :=
  ∀ i, cString ((d.tokenStore.slot i).label.val.drop (OMNIOS_CAP_LABEL_LEN - 1)) = []

/-- The store holds the standing grants and nothing else. -/
structure History (d : Daemon) (log : List Exchange) : Prop where
  recorded : ∀ t ∈ d.tokenStore.items, ∃ x, Standing log t.ownerPid t.id x ∧ Records x t
  kept : ∀ p k x, Standing log p k x →
    ∃ t ∈ d.tokenStore.items, t.id = k ∧ t.ownerPid = p ∧ Records x t
  gone : ∀ y ∈ log, ∀ k, y.IsRevoke k →
    k.toNat ≤ grants log ∧ ∀ t ∈ d.tokenStore.items, t.id ≠ k

theorem Terminated.effect {d d' : Daemon} {now : UInt64} {req resp : Msg} {made : Option Token}
    (h : Terminated d) (heffect : Effect d now req resp made d') : Terminated d' := by
  cases heffect with
  | keep => exact h
  | grant hroom t hkind hallow ht hresp =>
      intro i
      rcases ht.label with ⟨j, hle, hlabel⟩
      show cString ((Function.update d.tokenStore.slot _ t i).label.val.drop _) = []
      by_cases hi : i = ⟨d.tokenStore.count, hroom⟩
      · -- `strncpy` stops before the last byte
        rw [hi, Function.update_self, hlabel, drop_strncpy]
        exact h j
      · rw [Function.update_of_ne hi]
        exact h i
  | revoke j hkind hfind hresp =>
      intro i
      show cString ((Function.update d.tokenStore.slot _ _ i).label.val.drop _) = []
      by_cases hi : i = j.castLE d.tokenStore.count_le
      · -- the last token was moved here, label and all
        rw [hi, Function.update_self]
        exact h _
      · rw [Function.update_of_ne hi]
        exact h i

/-- A minted token records its request. -/
theorem Mints.records {d : Daemon} {now : UInt64} {req : Msg} {t : Token}
    (ht : Mints d now req t) (hterm : Terminated d) (peer : Int32) (resp : Msg)
    (made : Option Token) : Records ⟨peer, now, req, resp, made⟩ t := by
  rcases ht.label with ⟨j, hle, hlabel⟩
  refine ⟨ht.rights, ht.expiry, ?_⟩
  rw [hlabel]
  exact cString_strncpy _ hle (hterm j)

section Steps

variable {d : Daemon} {log : List Exchange}

/-- A grant adds one standing grant and one token. -/
theorem History.grant (h : History d log) (hinv : Inv d (grants log)) {x : Exchange} {t : Token}
    (hbound : grants log + 1 < 2 ^ 31) (hroom : d.tokenStore.count < OMNIOS_CAP_TOKEN_MAX)
    (hkind : x.req.kind = some .request) (hmade : x.made = some t)
    (hid : t.id = d.nextTokenId.toUInt32) (howner : t.ownerPid = x.req.senderPid)
    (hrecords : Records x t) (hresp : x.resp.kind = some .grant ∧ x.resp.token.id = t.id) :
    History { d with tokenStore := d.tokenStore.push hroom t, nextTokenId := d.nextTokenId + 1 }
      (log ++ [x]) := by
  have hnot : ∀ k, ¬ x.IsRevoke k := by
    intro k hk
    rw [hk.1] at hkind
    exact absurd hkind (by decide)
  have hnew : t.id.toNat = grants log + 1 := by
    rw [hid]
    exact hinv.next_toNat (by omega)
  have hgrants : grants (log ++ [x]) = grants log + 1 := by
    rw [grants_append, hmade]
    rfl
  refine ⟨?_, ?_, ?_⟩
  · intro t' ht'
    rw [Slots.items_push, List.mem_append, List.mem_singleton] at ht'
    rcases ht' with hold | rfl
    · rcases h.recorded t' hold with ⟨y, hy, hrec⟩
      exact ⟨y, standing_snoc.mpr (Or.inr ⟨hy, hnot _⟩), hrec⟩
    · -- the new token stands for this very exchange
      exact ⟨x, standing_snoc.mpr (Or.inl ⟨rfl, hkind, howner.symm, hresp⟩), hrecords⟩
  · intro p k y hy
    rw [Slots.items_push]
    rcases standing_snoc.mp hy with ⟨rfl, -, hp, -, hk⟩ | ⟨hold, -⟩
    · exact ⟨t, by simp, hresp.2.symm.trans hk, howner.trans hp, hrecords⟩
    · rcases h.kept p k y hold with ⟨t', ht', hrest⟩
      exact ⟨t', List.mem_append_left _ ht', hrest⟩
  · intro y hy k hk
    rw [List.mem_append, List.mem_singleton] at hy
    rcases hy with hold | rfl
    · rcases h.gone y hold k hk with ⟨hle, hne⟩
      refine ⟨by omega, ?_⟩
      intro t' ht'
      rw [Slots.items_push, List.mem_append, List.mem_singleton] at ht'
      rcases ht' with ht' | rfl
      · exact hne t' ht'
      · -- a fresh id was never revoked
        rintro rfl
        omega
    · exact absurd hk (hnot k)

/-- A revocation takes away one token and every grant of its id. -/
theorem History.revoke (h : History d log) (hinv : Inv d (grants log)) {x : Exchange}
    (hbound : grants log < 2 ^ 31) {i : Fin d.tokenStore.count}
    (hkind : x.req.kind = some .revoke) (hmade : x.made = none)
    (hfind : d.tokenStore.findIdx? (·.id == x.req.token.id) = some i)
    (hresp : x.resp.kind = some .grant) :
    History { d with tokenStore := d.tokenStore.removeAt i } (log ++ [x]) := by
  have hid : (d.tokenStore.get i).id = x.req.token.id := by
    simpa using Slots.findIdx?_some hfind
  have hgrants : grants (log ++ [x]) = grants log := by
    rw [grants_append, hmade]
    rfl
  have hrevokes : ∀ k, x.IsRevoke k ↔ k = x.req.token.id := by
    intro k
    constructor
    · intro hk
      exact hk.2.1.symm
    · rintro rfl
      exact ⟨hkind, rfl, hresp⟩
  have hperm := d.tokenStore.items_removeAt i
  -- ids are distinct, so no other token has the revoked id
  have hothers : ∀ t ∈ (d.tokenStore.removeAt i).items, t.id ≠ x.req.token.id := by
    have hnodup := (hperm.map (·.id)).nodup_iff.mp (hinv.distinct hbound)
    rw [List.map_cons, List.nodup_cons] at hnodup
    intro t ht heq
    apply hnodup.1
    rw [hid, ← heq]
    exact List.mem_map_of_mem ht
  refine ⟨?_, ?_, ?_⟩
  · intro t ht
    rcases h.recorded t (mem_of_mem_removeAt ht) with ⟨y, hy, hrec⟩
    refine ⟨y, standing_snoc.mpr (Or.inr ⟨hy, ?_⟩), hrec⟩
    rw [hrevokes]
    exact hothers t ht
  · intro p k y hy
    rcases standing_snoc.mp hy with ⟨rfl, hrequest, -⟩ | ⟨hold, hk⟩
    · rw [hkind] at hrequest
      exact absurd hrequest (by decide)
    · rw [hrevokes] at hk
      rcases h.kept p k y hold with ⟨t, ht, htk, hrest⟩
      refine ⟨t, ?_, htk, hrest⟩
      rcases List.mem_cons.mp (hperm.mem_iff.mp ht) with rfl | hmem
      · exact absurd (htk.symm.trans hid) hk
      · exact hmem
  · intro y hy k hk
    rw [hgrants]
    rw [List.mem_append, List.mem_singleton] at hy
    rcases hy with hold | rfl
    · rcases h.gone y hold k hk with ⟨hle, hne⟩
      exact ⟨hle, fun t ht => hne t (mem_of_mem_removeAt ht)⟩
    · have hk' := (hrevokes k).mp hk
      subst hk'
      refine ⟨?_, hothers⟩
      rw [← hid]
      exact hinv.below hbound _ (d.tokenStore.get_mem_items i)

/-- Any other message is neither a grant nor a revocation. -/
theorem History.keep (h : History d log) {x : Exchange} (hmade : x.made = none)
    (hrequest : x.req.kind = some .request → x.resp.kind = some .deny)
    (hrevoke : x.req.kind = some .revoke → x.resp.kind = some .deny) :
    History d (log ++ [x]) := by
  have hgrants : grants (log ++ [x]) = grants log := by
    rw [grants_append, hmade]
    rfl
  have hnotGrant : ∀ p k, ¬ x.IsGrant p k := by
    intro p k hk
    have hdeny := hrequest hk.1
    rw [hk.2.2.1] at hdeny
    exact absurd hdeny (by decide)
  have hnotRevoke : ∀ k, ¬ x.IsRevoke k := by
    intro k hk
    have hdeny := hrevoke hk.1
    rw [hk.2.2] at hdeny
    exact absurd hdeny (by decide)
  refine ⟨?_, ?_, ?_⟩
  · intro t ht
    rcases h.recorded t ht with ⟨y, hy, hrec⟩
    exact ⟨y, standing_snoc.mpr (Or.inr ⟨hy, hnotRevoke _⟩), hrec⟩
  · intro p k y hy
    rcases standing_snoc.mp hy with ⟨rfl, hgrant⟩ | ⟨hold, -⟩
    · exact absurd hgrant (hnotGrant p k)
    · exact h.kept p k y hold
  · intro y hy k hk
    rw [hgrants]
    rw [List.mem_append, List.mem_singleton] at hy
    rcases hy with hold | rfl
    · exact h.gone y hold k hk
    · exact absurd hk (hnotRevoke k)

end Steps

/-- The store and the past agree, and labels are terminated. -/
structure HistInv (s : Server) : Prop where
  inv : Inv s.daemon (grants s.log)
  terminated : Terminated s.daemon
  history : grants s.log < 2 ^ 31 → History s.daemon s.log

theorem history_step {e : Event} {s s' : Server} (h : HistInv s) (hnext : Next e s s') :
    HistInv s' := by
  have hinv := inv_step h.inv hnext
  rcases step_of_next hnext with
    ⟨i, hi, now, req, resp, made, d, heffect, -⟩ | ⟨peer, fds, hfresh, hroom, entry, hpid⟩ |
      ⟨_, fds⟩
  · refine ⟨hinv, h.terminated.effect heffect, ?_⟩
    intro hbound
    cases heffect with
    | grant hroom t hkind hallow ht hresp =>
        -- the counter has not wrapped, so the new id is reported as a grant
        rw [grants_append] at hbound
        have hpos : ¬ s.daemon.nextTokenId < 0 := by
          rw [h.inv.counter]
          exact id_not_neg hbound
        exact (h.history (Nat.lt_of_succ_lt hbound)).grant h.inv hbound hroom hkind rfl ht.id
          ht.owner (ht.records h.terminated _ _ _) (hresp hpos)
    | revoke j hkind hfind hresp =>
        rw [grants_append] at hbound
        exact (h.history hbound).revoke h.inv hbound hkind rfl hfind hresp
    | keep hrequest hrevoke =>
        rw [grants_append] at hbound
        exact (h.history hbound).keep rfl hrequest fun hk => (hrevoke hk).1
  · -- a new policy entry: neither tokens nor log are touched
    refine ⟨hinv, h.terminated, ?_⟩
    intro hbound
    have hist := h.history hbound
    exact ⟨hist.recorded, hist.kept, hist.gone⟩
  · exact ⟨hinv, h.terminated, h.history⟩

theorem history_of_reachable {s : Server} (hreach : Lts.Reachable system s) : HistInv s := by
  refine hreach.invariant ?_ ?_
  · rintro s rfl
    refine ⟨inv_boot, fun i => rfl, fun _ => ⟨?_, ?_, ?_⟩⟩
    · intro t ht
      exact absurd ht List.not_mem_nil
    · rintro p k x ⟨pre, post, hlog, -⟩
      exact absurd hlog (by simp [boot])
    · intro y hy
      exact absurd hy List.not_mem_nil
  · intro e s s' h hnext
    exact history_step h hnext

/-! ## VERIFY -/

/-- With distinct ids `token_find` finds the token with the id. -/
theorem tokenFind_eq_some {d : Daemon} (hdistinct : (d.tokenStore.items.map (·.id)).Nodup)
    {k : UInt32} {t : Token} :
    tokenFind d k = some t ↔ t ∈ d.tokenStore.items ∧ t.id = k := by
  constructor
  · intro h
    unfold tokenFind at h
    have hk := List.find?_some h
    exact ⟨List.mem_of_find?_eq_some h, beq_iff_eq.mp hk⟩
  · rintro ⟨hmem, rfl⟩
    cases hfind : tokenFind d t.id with
    | none =>
        have := List.find?_eq_none.mp hfind t hmem
        exact absurd (beq_self_eq_true t.id) this
    | some t' =>
        unfold tokenFind at hfind
        have hid := List.find?_some hfind
        rw [List.inj_on_of_nodup_map hdistinct (List.mem_of_find?_eq_some hfind) hmem
          (beq_iff_eq.mp hid)]

section Verify

variable {d : Daemon} {now : UInt64} {req : Msg} (hkind : req.kind = some .verify)

include hkind

theorem handleMessage_verify_fail (h : tokenVerify d req.token.id req.senderPid now < 0) :
    (handleMessage d now req).1 =
      ⟨MsgType.deny.code, req.seq, 0, Token.zero, 0,
        "verify failed: " ++ strerror (-tokenVerify d req.token.id req.senderPid now)⟩ := by
  unfold handleMessage
  rw [hkind]
  dsimp only
  rw [if_pos h]

theorem handleMessage_verify_ok (h : ¬ tokenVerify d req.token.id req.senderPid now < 0) :
    (handleMessage d now req).1 =
      ⟨MsgType.grant.code, req.seq, 0, (tokenFind d req.token.id).getD Token.zero, 0, ""⟩ := by
  unfold handleMessage
  rw [hkind]
  dsimp only
  rw [if_neg h]

theorem verify_granted_iff :
    (handleMessage d now req).1.kind = some .grant ↔
      ∃ t, tokenFind d req.token.id = some t ∧ t.ownerPid = req.senderPid ∧ now ≤ t.expiryNs := by
  rw [← tokenVerify_eq_zero]
  by_cases hneg : tokenVerify d req.token.id req.senderPid now < 0
  · rw [handleMessage_verify_fail hkind hneg]
    refine iff_of_false ?_ (not_not.mpr hneg)
    show MsgType.ofCode? MsgType.deny.code ≠ some .grant
    decide
  · rw [handleMessage_verify_ok hkind hneg]
    exact iff_of_true rfl hneg

theorem verify_denied_of_not_granted (h : (handleMessage d now req).1.kind ≠ some .grant) :
    (handleMessage d now req).1.kind = some .deny := by
  by_cases hneg : tokenVerify d req.token.id req.senderPid now < 0
  · rw [handleMessage_verify_fail hkind hneg]
    rfl
  · rw [handleMessage_verify_ok hkind hneg] at h
    exact absurd rfl h

/-- VERIFY looks at the store through `token_find` only. -/
theorem verify_congr {d' : Daemon}
    (hfind : tokenFind d' req.token.id = tokenFind d req.token.id) :
    (handleMessage d' now req).1 = (handleMessage d now req).1 := by
  have hverify : tokenVerify d' req.token.id req.senderPid now =
      tokenVerify d req.token.id req.senderPid now := by
    unfold tokenVerify
    rw [hfind]
  by_cases hneg : tokenVerify d req.token.id req.senderPid now < 0
  · rw [handleMessage_verify_fail hkind hneg, handleMessage_verify_fail hkind (hverify ▸ hneg),
      hverify]
  · rw [handleMessage_verify_ok hkind hneg, handleMessage_verify_ok hkind (hverify ▸ hneg), hfind]

end Verify

/-- Revoking one id does not move any other. -/
theorem tokenFind_revoke_other {d : Daemon} {n : Nat} (hinv : Inv d n) (hn : n < 2 ^ 31)
    {now : UInt64} {req : Msg} (hkind : req.kind = some .revoke) {k : UInt32}
    (hk : req.token.id ≠ k) : tokenFind (handleMessage d now req).2 k = tokenFind d k := by
  have heffect := handleMessage_effect d now req
  generalize (handleMessage d now req).2 = d' at heffect
  generalize newToken d d' = made at heffect
  cases heffect with
  | grant _ _ hkind' =>
      rw [hkind] at hkind'
      exact absurd hkind' (by decide)
  | keep => rfl
  | revoke i _ hfind _ =>
      have hid : (d.tokenStore.get i).id = req.token.id := by
        simpa using Slots.findIdx?_some hfind
      have hperm := d.tokenStore.items_removeAt i
      apply Option.ext
      intro t
      rw [tokenFind_eq_some ((hinv.revoke i).distinct hn), tokenFind_eq_some (hinv.distinct hn),
        hperm.mem_iff, List.mem_cons]
      constructor
      · rintro ⟨hmem, htk⟩
        exact ⟨Or.inr hmem, htk⟩
      · -- the token removed is not the one with id `k`
        rintro ⟨rfl | hmem, htk⟩
        · exact absurd (hid.symm.trans htk) hk
        · exact ⟨hmem, htk⟩

/-- What the answers to a VERIFY say about the past. -/
structure VerifyMeans (s : Server) (now : UInt64) (req : Msg) : Prop where
  /-- GRANT: granted to the sender, not revoked since, not expired (in `uint64_t`
  arithmetic, as the daemon computes it). -/
  granted : (handleMessage s.daemon now req).1.kind = some .grant ↔
    ∃ x, Standing s.log req.senderPid req.token.id x ∧ now ≤ x.now + tokenLifetime
  /-- The same with numbers, for a clock that is an hour away from wrapping. -/
  granted_plain : (∀ x ∈ s.log, x.now.toNat + 3600 * 10 ^ 9 < 2 ^ 64) →
    ((handleMessage s.daemon now req).1.kind = some .grant ↔
      ∃ x, Standing s.log req.senderPid req.token.id x ∧
        now.toNat ≤ x.now.toNat + 3600 * 10 ^ 9)
  /-- The token is the one asked for. -/
  content : ∀ x, Standing s.log req.senderPid req.token.id x →
    (handleMessage s.daemon now req).1.kind = some .grant →
    (handleMessage s.daemon now req).1.token.rights = x.req.token.rights ∧
    cString (handleMessage s.daemon now req).1.token.label.val =
      (cString x.req.token.label.val).take 63
  /-- Once revoked, never again. -/
  revoked : (∃ y ∈ s.log, y.IsRevoke req.token.id) →
    (handleMessage s.daemon now req).1.kind = some .deny
  /-- Revoking another id changes nothing. -/
  others : ∀ now' req', req'.kind = some .revoke → req'.token.id ≠ req.token.id →
    (handleMessage (handleMessage s.daemon now' req').2 now req).1 =
      (handleMessage s.daemon now req).1

theorem Standing.mem {log : List Exchange} {p : Int32} {k : UInt32} {x : Exchange}
    (h : Standing log p k x) : x ∈ log := by
  rcases h with ⟨pre, post, rfl, -⟩
  simp

/-- The expiry test without overflow. -/
theorem le_expiry_iff {now t : UInt64} (ht : t.toNat + 3600 * 10 ^ 9 < 2 ^ 64) :
    now ≤ t + tokenLifetime ↔ now.toNat ≤ t.toNat + 3600 * 10 ^ 9 := by
  have hlifetime : tokenLifetime.toNat = 3600 * 10 ^ 9 := rfl
  rw [UInt64.le_iff_toNat_le, UInt64.toNat_add, hlifetime, Nat.mod_eq_of_lt ht]

/-- VERIFY tells the past: in every run of fewer than `2^31` grants. -/
theorem verify_means {s : Server} (hreach : Lts.Reachable system s)
    (hbound : grants s.log < 2 ^ 31) (now : UInt64) {req : Msg}
    (hkind : req.kind = some .verify) : VerifyMeans s now req := by
  have h := history_of_reachable hreach
  have hist := h.history hbound
  have hdistinct := h.inv.distinct hbound
  have hgranted : (handleMessage s.daemon now req).1.kind = some .grant ↔
      ∃ x, Standing s.log req.senderPid req.token.id x ∧ now ≤ x.now + tokenLifetime := by
    rw [verify_granted_iff hkind]
    constructor
    · -- the token found stands for a grant
      rintro ⟨t, hfind, howner, hexpiry⟩
      rcases (tokenFind_eq_some hdistinct).mp hfind with ⟨hmem, hid⟩
      rcases hist.recorded t hmem with ⟨x, hx, hrec⟩
      rw [howner, hid] at hx
      rw [hrec.expiry] at hexpiry
      exact ⟨x, hx, hexpiry⟩
    · -- a standing grant still has its token
      rintro ⟨x, hx, hexpiry⟩
      rcases hist.kept _ _ x hx with ⟨t, hmem, hid, howner, hrec⟩
      refine ⟨t, (tokenFind_eq_some hdistinct).mpr ⟨hmem, hid⟩, howner, ?_⟩
      rw [hrec.expiry]
      exact hexpiry
  refine ⟨hgranted, ?_, ?_, ?_, ?_⟩
  · intro hclock
    rw [hgranted]
    refine exists_congr fun x => and_congr_right fun hx => ?_
    exact le_expiry_iff (hclock x hx.mem)
  · intro x hx hgrant
    rcases hist.kept _ _ x hx with ⟨t, hmem, hid, howner, hrec⟩
    have hfind := (tokenFind_eq_some hdistinct).mpr ⟨hmem, hid⟩
    have hok := tokenVerify_eq_zero.mpr ((verify_granted_iff hkind).mp hgrant)
    rw [handleMessage_verify_ok hkind hok, hfind]
    exact ⟨hrec.rights, hrec.label⟩
  · rintro ⟨y, hy, hrevoke⟩
    apply verify_denied_of_not_granted hkind
    rw [Ne, verify_granted_iff hkind]
    rintro ⟨t, hfind, -⟩
    rcases (tokenFind_eq_some hdistinct).mp hfind with ⟨hmem, hid⟩
    exact (hist.gone y hy _ hrevoke).2 t hmem hid
  · intro now' req' hkind' hne
    exact verify_congr hkind (tokenFind_revoke_other h.inv hbound hkind' hne)

/-- VERIFY of token 1. -/
def verifyOne (senderPid : Int32) : Msg := Msg.plain .verify senderPid { Token.zero with id := 1 }

/-- Process 100 verifies the token it got in `oneToken`. -/
theorem verify_means_oneToken :
    (handleMessage oneToken.daemon 5 (verifyOne 100)).1.kind = some .grant ∧
      VerifyMeans oneToken 5 (verifyOne 100) :=
  ⟨by decide, verify_means oneToken_reachable (by decide) 5 rfl⟩

end OmniOS.Security
