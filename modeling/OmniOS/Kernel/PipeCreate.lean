import OmniOS.Kernel.PipeStream

/-!
# OmniOS.Kernel.PipeCreate — is `pipe_create` all or nothing?

The call claims a pipe first and then looks for a process and two descriptors.
`fdLoop_unused` says what the loop over the descriptors does, by the number of
those that are not in use; `pipe_create_all_or_nothing_iff` when the whole call
either opens a pipe or changes nothing.
-/

namespace OmniOS.Ipc

/-- The descriptors not in use, in the order of the loop. -/
def unused (fds : Fds) : List (Fin MAX_OPEN_FILES) :=
  (List.finRange MAX_OPEN_FILES).filter fun i => !(fds i).inUse

theorem mem_unused {fds : Fds} {i : Fin MAX_OPEN_FILES} :
    i ∈ unused fds ↔ (fds i).inUse = false := by
  simp [unused]

theorem unused_nodup (fds : Fds) : (unused fds).Nodup :=
  (List.nodup_finRange _).filter _

/-! ## The loop -/

theorem ofNat_not_neg (i : Fin MAX_OPEN_FILES) : ¬ Int32.ofNat i.val < 0 := by
  have hi : i.val < 2 ^ 31 := Nat.lt_trans i.isLt (by decide)
  rw [Int32.lt_iff_toInt_lt, Int32.toInt_ofNat_of_lt hi]
  exact Int.not_lt.mpr (Int.natCast_nonneg _)

theorem claimFd_self (fds : Fds) (i : Fin MAX_OPEN_FILES) (pipeId : Fin MAX_PIPES) (flags : Int32) :
    claimFd fds i pipeId flags i = ⟨Int32.ofNat i.val, 1, Int32.ofNat pipeId.val, flags, true⟩ :=
  Function.update_self _ _ _

theorem claimFd_ne (fds : Fds) {i j : Fin MAX_OPEN_FILES} (hji : j ≠ i) (pipeId : Fin MAX_PIPES)
    (flags : Int32) : claimFd fds i pipeId flags j = fds j :=
  Function.update_of_ne hji _ _

/-- Descriptors in use are passed over. -/
theorem fdLoop_filter (pipeId : Fin MAX_PIPES) {l : List (Fin MAX_OPEN_FILES)} (hnodup : l.Nodup)
    (st : FdSearch) :
    fdLoop pipeId l st = fdLoop pipeId (l.filter fun i => !(st.fds i).inUse) st := by
  induction l generalizing st with
  | nil => rfl
  | cons i rest ih =>
      obtain ⟨hi, hrest⟩ := List.nodup_cons.mp hnodup
      -- claiming `i` changes nothing for the descriptors after it
      have hclaim : ∀ flags, (rest.filter fun j => !(claimFd st.fds i pipeId flags j).inUse) =
          rest.filter fun j => !(st.fds j).inUse := by
        intro flags
        refine List.filter_congr ?_
        intro j hj
        have hji : j ≠ i := by
          rintro rfl
          exact hi hj
        rw [claimFd_ne _ hji]
      by_cases hused : (st.fds i).inUse
      · simp [fdLoop, hused, ih hrest]
      · simp only [fdLoop, hused, List.filter_cons, Bool.not_false, if_true]
        rw [ih hrest, ih hrest ⟨_, _, _⟩, hclaim, hclaim]

/-- With both ends found the loop ends. -/
theorem fdLoop_done (pipeId : Fin MAX_PIPES) {st : FdSearch} (hread : ¬ st.readFd < 0)
    (hwrite : ¬ st.writeFd < 0) (l : List (Fin MAX_OPEN_FILES)) : fdLoop pipeId l st = st := by
  induction l with
  | nil => rfl
  | cons i rest ih => simp [fdLoop, hread, hwrite, ih]

/-- The loop of `pipe_create` takes the first two descriptors that are not in use,
or as many as there are. -/
theorem fdLoop_unused (pipeId : Fin MAX_PIPES) (fds : Fds) :
    fdLoop pipeId (List.finRange MAX_OPEN_FILES) ⟨fds, -1, -1⟩ =
      match unused fds with
      | [] => ⟨fds, -1, -1⟩
      | [a] => ⟨claimFd fds a pipeId 0, Int32.ofNat a.val, -1⟩
      | a :: b :: _ => ⟨claimFd (claimFd fds a pipeId 0) b pipeId 1,
          Int32.ofNat a.val, Int32.ofNat b.val⟩ := by
  have hneg : (-1 : Int32) < 0 := by decide
  rw [fdLoop_filter pipeId (List.nodup_finRange _)]
  show fdLoop pipeId (unused fds) _ = _
  have hmem : ∀ i ∈ unused fds, (fds i).inUse = false := fun i => mem_unused.mp
  have hnodup := unused_nodup fds
  match hunused : unused fds with
  | [] => rfl
  | [a] =>
      have ha := hmem a (by simp [hunused])
      simp [fdLoop, ha, hneg]
  | a :: b :: rest =>
      rw [hunused] at hmem hnodup
      have ha := hmem a (by simp)
      have hb := hmem b (by simp)
      have hba : b ≠ a := by
        rintro rfl
        simp at hnodup
      simp only [fdLoop, ha, hb, hneg, claimFd_ne _ hba, Bool.not_false, if_true,
        if_neg (ofNat_not_neg a)]
      refine fdLoop_done pipeId ?_ ?_ rest
      · exact ofNat_not_neg a
      · exact ofNat_not_neg b

/-! ## The call -/

section Call

variable {pipes : Pipes} {proc : Option Fds} {readFd writeFd : Option Int32}

/-- `memset` and the three flags. -/
def openPipe (pipes : Pipes) (i : Fin MAX_PIPES) : Pipes :=
  Function.update pipes i { Pipe.zero with inUse := true, readOpen := true, writeOpen := true }

theorem openPipe_inUse (pipes : Pipes) (i : Fin MAX_PIPES) : (openPipe pipes i i).inUse = true := by
  simp [openPipe]

/-- A NULL pointer, or no pipe left: nothing happens. -/
theorem pipeCreate_refused
    (h : readFd = none ∨ writeFd = none ∨ ∀ i, (pipes i).inUse = true) :
    pipeCreate pipes proc readFd writeFd = ⟨-1, pipes, proc, readFd, writeFd⟩ := by
  unfold pipeCreate
  split
  · rfl
  · next hptr =>
      have hfull : ∀ i, (pipes i).inUse = true := by
        rcases h with rfl | rfl | hfull
        · simp at hptr
        · simp at hptr
        · exact hfull
      have hnone : freePipe pipes = none := by simp [freePipe, hfull]
      rw [hnone]

/-- Otherwise a pipe is opened before anything else is looked at. -/
theorem pipeCreate_opens (proc : Option Fds) (hread : readFd ≠ none) (hwrite : writeFd ≠ none)
    (hfree : ∃ i, (pipes i).inUse = false) :
    ∃ i, (pipes i).inUse = false ∧
      (proc = none → pipeCreate pipes proc readFd writeFd =
        ⟨-1, openPipe pipes i, none, readFd, writeFd⟩) ∧
      ∀ fds, proc = some fds → pipeCreate pipes proc readFd writeFd =
        let st := fdLoop i (List.finRange MAX_OPEN_FILES) ⟨fds, -1, -1⟩
        ⟨0, openPipe pipes i, some st.fds, some st.readFd, some st.writeFd⟩ := by
  have hptr : (readFd.isNone || writeFd.isNone) = false := by
    simp [Option.isSome_iff_ne_none, hread, hwrite]
  cases hfind : freePipe pipes with
  | none =>
      rcases hfree with ⟨i, hi⟩
      have hused := List.find?_eq_none.mp hfind i (List.mem_finRange i)
      simp [hi] at hused
  | some i =>
      refine ⟨i, freePipe_not_inUse hfind, ?_, ?_⟩
      · rintro rfl
        simp [pipeCreate, hptr, hfind, openPipe]
      · rintro fds rfl
        simp [pipeCreate, hptr, hfind, openPipe]

/-- The call has given the process two descriptors, not in use before, for the two
ends of a pipe that was not in use before. -/
def Opened (pipes : Pipes) (proc : Option Fds) (r : Created) : Prop :=
  ∃ (fds fds' : Fds) (a b : Fin MAX_OPEN_FILES) (i : Fin MAX_PIPES),
    proc = some fds ∧ r.proc = some fds' ∧
    r.readFd = some (Int32.ofNat a.val) ∧ r.writeFd = some (Int32.ofNat b.val) ∧ a ≠ b ∧
    (fds a).inUse = false ∧ (fds b).inUse = false ∧
    (pipes i).inUse = false ∧ (r.pipes i).inUse = true ∧
    fds' a = ⟨Int32.ofNat a.val, 1, Int32.ofNat i.val, 0, true⟩ ∧
    fds' b = ⟨Int32.ofNat b.val, 1, Int32.ofNat i.val, 1, true⟩

/-- It returns 0 exactly if it has done so, and else -1 without any change. -/
structure AllOrNothing (pipes : Pipes) (proc : Option Fds) (r : Created) : Prop where
  opened : r.result = 0 ↔ Opened pipes proc r
  failed : r.result ≠ 0 → r.result = -1 ∧ r.pipes = pipes ∧ r.proc = proc

/-- Without a change nothing was opened. -/
theorem not_opened_of_same {r : Created} (hproc : r.proc = proc) : ¬ Opened pipes proc r := by
  rintro ⟨fds, fds', a, b, i, rfl, hfds', -, -, -, hunused, -, -, -, hclaimed, -⟩
  rw [hproc] at hfds'
  cases hfds'
  rw [hclaimed] at hunused
  cases hunused

/-- Nor if `*write_fd` is -1. -/
theorem not_opened_of_neg {r : Created} (hwrite : r.writeFd = some (-1)) :
    ¬ Opened pipes proc r := by
  rintro ⟨fds, fds', a, b, i, -, -, -, hb, -⟩
  rw [hwrite] at hb
  have hnot := ofNat_not_neg b
  rw [← Option.some.inj hb] at hnot
  exact hnot (by decide)

/-- With a process, what the loop found is two ends of a pipe exactly if there were
two descriptors not in use. -/
theorem opened_loop_iff {i : Fin MAX_PIPES} (hi : (pipes i).inUse = false) (fds : Fds) :
    let st := fdLoop i (List.finRange MAX_OPEN_FILES) ⟨fds, -1, -1⟩
    Opened pipes (some fds) ⟨0, openPipe pipes i, some st.fds, some st.readFd, some st.writeFd⟩ ↔
      ∃ a b, a ≠ b ∧ (fds a).inUse = false ∧ (fds b).inUse = false := by
  rw [fdLoop_unused]
  have hmem : ∀ a, a ∈ unused fds ↔ (fds a).inUse = false := fun a => mem_unused
  have hnodup := unused_nodup fds
  match hunused : unused fds with
  | [] =>
      refine iff_of_false (not_opened_of_neg rfl) ?_
      rintro ⟨a, b, -, ha, -⟩
      have hnil := (hmem a).mpr ha
      rw [hunused] at hnil
      cases hnil
  | [c] =>
      refine iff_of_false (not_opened_of_neg rfl) ?_
      rintro ⟨a, b, hab, ha, hb⟩
      rw [← hmem, hunused, List.mem_singleton] at ha hb
      exact hab (ha.trans hb.symm)
  | a :: b :: rest =>
      rw [hunused] at hmem hnodup
      have hba : b ≠ a := by
        rintro rfl
        simp at hnodup
      have ha := (hmem a).mp (by simp)
      have hb := (hmem b).mp (by simp)
      refine iff_of_true ⟨fds, _, a, b, i, rfl, rfl, rfl, rfl, hba.symm, ha, hb, hi,
        openPipe_inUse pipes i, ?_, claimFd_self _ _ _ _⟩ ⟨a, b, hba.symm, ha, hb⟩
      exact (claimFd_ne _ hba.symm _ _).trans (claimFd_self _ _ _ _)

/-- `pipe_create` is all or nothing exactly if it refuses at once, for a NULL pointer
or because every pipe is in use, or if there is a current process with two
descriptors not in use. -/
theorem pipe_create_all_or_nothing_iff (pipes : Pipes) (proc : Option Fds)
    (readFd writeFd : Option Int32) :
    AllOrNothing pipes proc (pipeCreate pipes proc readFd writeFd) ↔
      (readFd = none ∨ writeFd = none ∨ ∀ i, (pipes i).inUse = true) ∨
      ∃ fds, proc = some fds ∧
        ∃ a b, a ≠ b ∧ (fds a).inUse = false ∧ (fds b).inUse = false := by
  by_cases hrefused : readFd = none ∨ writeFd = none ∨ ∀ i, (pipes i).inUse = true
  · rw [pipeCreate_refused hrefused]
    refine iff_of_true ⟨?_, fun _ => ⟨rfl, rfl, rfl⟩⟩ (Or.inl hrefused)
    exact iff_of_false (show ¬ (-1 : Int32) = 0 by decide) (not_opened_of_same rfl)
  · rw [or_iff_right hrefused]
    simp only [not_or, not_forall, Bool.not_eq_true] at hrefused
    rcases hrefused with ⟨hread, hwrite, hfree⟩
    rcases pipeCreate_opens proc hread hwrite hfree with ⟨i, hi, hnone, hsome⟩
    cases proc with
    | none =>
        -- the pipe stays open
        rw [hnone rfl]
        refine iff_of_false ?_ nofun
        intro hlaw
        have hpipes := (hlaw.failed (show ¬ (-1 : Int32) = 0 by decide)).2.1
        have hopen := openPipe_inUse pipes i
        rw [show openPipe pipes i = pipes from hpipes, hi] at hopen
        cases hopen
    | some fds =>
        -- the result is 0, whatever the loop found
        rw [hsome fds rfl]
        constructor
        · intro hlaw
          exact ⟨fds, rfl, (opened_loop_iff hi fds).mp (hlaw.opened.mp rfl)⟩
        · rintro ⟨_, heq, htwo⟩
          cases heq
          exact ⟨iff_of_true rfl ((opened_loop_iff hi _).mpr htwo), fun hne => absurd rfl hne⟩

/-- A process with `n` descriptors not in use. -/
def firstFree (n : Nat) : Fds := fun i => ⟨0, 0, 0, 0, decide (n ≤ i.val)⟩

/-- Two descriptors are left. -/
theorem pipe_create_two : AllOrNothing pipeInit (some (firstFree 2))
    (pipeCreate pipeInit (some (firstFree 2)) (some 0) (some 0)) := by
  have h := pipe_create_all_or_nothing_iff pipeInit (some (firstFree 2)) (some 0) (some 0)
  exact h.mpr (Or.inr ⟨_, rfl, ⟨0, by decide⟩, ⟨1, by decide⟩, by decide, by decide, by decide⟩)

/-- Without a process the call fails and leaves pipe 0 in use; with one descriptor
left it succeeds, with -1 in `*write_fd` and the descriptor taken. -/
theorem pipe_create_partial :
    (pipeCreate pipeInit none (some 0) (some 0)).result = -1 ∧
    ((pipeCreate pipeInit none (some 0) (some 0)).pipes 0).inUse = true ∧
    (pipeInit 0).inUse = false ∧
    (pipeCreate pipeInit (some (firstFree 1)) (some 0) (some 0)).result = 0 ∧
    (pipeCreate pipeInit (some (firstFree 1)) (some 0) (some 0)).readFd = some 0 ∧
    (pipeCreate pipeInit (some (firstFree 1)) (some 0) (some 0)).writeFd = some (-1) := by
  decide

end Call

end OmniOS.Ipc
