import OmniOS.Security.Daemon

/-!
# OmniOS.Security.Poll — the descriptors of the capability daemon

The loop of `main` in `userspace/security/capability_daemon.c`. `fds[0]` is the listening
socket; `table` is `fds[1..64)`, with the clients in its first slots. A round polls, may
accept one client and then reads from the clients whose `revents` has `POLLIN`.

`accept` fills in `fd` and `events` of the next slot and leaves its `revents` as they are:
what an earlier client had there, or what was on the stack. A client accepted while
`POLLIN` stands there is read from in the same round, and a client that finds no slot is
never closed. Either way the rounds are runs of the server in `OmniOS.Security.Daemon`
(`round_run`).
-/

namespace OmniOS.Security.Poll

def POLLIN : UInt16 := 1

/-- `struct pollfd`. -/
structure PollFd where
  fd : Nat
  events : UInt16
  revents : UInt16

/-- `revents & POLLIN`. -/
def PollFd.pollin (e : PollFd) : Bool := e.revents &&& POLLIN != 0

abbrev Table := Slots PollFd MAX_CLIENTS

/-! ## The loop -/

/-- `poll` writes the `revents` of the entries in use. -/
def polled (t : Table) (revents : Nat → UInt16) : Table :=
  { t with
    slot := fun i =>
      if i.val < t.count then { t.slot i with revents := revents (t.slot i).fd } else t.slot i }

/-- A new client, if there is a slot. -/
def accepted (t : Table) (client : Nat) : Table :=
  if h : t.count < MAX_CLIENTS then
    t.push h { t.slot ⟨t.count, h⟩ with fd := client, events := POLLIN }
  else t

/-- What the loop over the clients did: the descriptors it read from, those it closed, and
the table. -/
structure Scan where
  received : List Nat
  closed : List Nat
  table : Table

/-- The loop from index `i`; `alive` says for which descriptors `recv` returns more than 0.
Every iteration takes an index or an entry away, so `count` of them are enough. -/
def scan (alive : Nat → Bool) : (fuel i : Nat) → Table → Scan
  | 0, _, t => ⟨[], [], t⟩
  | fuel + 1, i, t =>
      if h : i < t.count then
        let e := t.get ⟨i, h⟩
        if e.pollin then
          if alive e.fd then
            let s := scan alive fuel (i + 1) t
            { s with received := e.fd :: s.received }
          else
            -- the last entry takes the place of this one and is looked at next
            let s := scan alive fuel i (t.removeAt ⟨i, h⟩)
            { s with received := e.fd :: s.received, closed := e.fd :: s.closed }
        else scan alive fuel (i + 1) t
      else ⟨[], [], t⟩

/-! ## Runs -/

/-- The table, and the descriptors `accept4` has returned that are not closed. -/
structure World where
  table : Table
  opened : List Nat

/-- What the kernel answers in a round: what `poll` reports for the listening socket and
for each client, what `accept4` returns, if it is called and succeeds, and for which
descriptors `recv` returns more than 0. -/
structure Round where
  listen : Bool
  revents : Nat → UInt16
  accept : Option Nat
  alive : Nat → Bool

/-- The client that is accepted in the round. -/
def Round.client (r : Round) : Option Nat := if r.listen then r.accept else none

/-- The table when the loop over the clients starts. -/
def World.scanned (w : World) (r : Round) : Table :=
  match r.client with
  | none => polled w.table r.revents
  | some client => accepted (polled w.table r.revents) client

def World.scan (w : World) (r : Round) : Scan :=
  Poll.scan r.alive (w.scanned r).count 0 (w.scanned r)

def World.next (w : World) (r : Round) : World :=
  { table := (w.scan r).table
    opened := (w.opened ++ r.client.toList).filter fun c => c ∉ (w.scan r).closed }

/-- A round, or a `poll` that was interrupted. -/
abbrev Event := Option Round

/-- The clients in the table. -/
def World.clients (w : World) : List Nat := w.table.items.map PollFd.fd

/-- The array is not initialised. The kernel does not return a descriptor that is open. -/
def system : Lts.System World Event where
  Init w := w.table.count = 0 ∧ w.opened = []
  Next e w w' := match e with
    | none => w' = w
    | some r => w' = w.next r ∧ ∀ client, r.client = some client → client ∉ w.opened

/-- The clients in the table are the open descriptors, each once. -/
def Tracked (w : World) : Prop := w.clients.Nodup ∧ w.clients.Perm w.opened

/-- The clients this round's `poll` reported with `POLLIN`. -/
def World.reported (w : World) (r : Round) : List Nat :=
  w.clients.filter fun c => r.revents c &&& POLLIN != 0

/-- The round read from every client that was reported, once, and from no other, and
afterwards the table has the open descriptors. -/
def Right (e : Event) (w w' : World) : Prop :=
  Tracked w' ∧ ∀ r, e = some r → (w.scan r).received.Perm (w.reported r)

/-- A client that is accepted finds a slot, and no `POLLIN` in it. -/
def CleanSlot (e : Event) (w : World) : Prop :=
  ∀ r client, e = some r → r.client = some client →
    ∃ h : w.table.count < MAX_CLIENTS, (w.table.slot ⟨w.table.count, h⟩).pollin = false

/-! ## The loop over the clients -/

section Scan

variable (alive : Nat → Bool)

/-- The entry stays: nothing was read from it, or there was something to read. -/
def keeps (e : PollFd) : Bool := !(e.pollin && !alive e.fd)

/-- Every entry from index `i` on is looked at once. -/
theorem scan_spec (fuel i : Nat) (t : Table) (hfuel : t.count ≤ i + fuel) :
    (scan alive fuel i t).received.Perm (((t.items.drop i).filter PollFd.pollin).map PollFd.fd) ∧
    (scan alive fuel i t).closed.Perm
      (((t.items.drop i).filter fun e => !keeps alive e).map PollFd.fd) ∧
    (scan alive fuel i t).table.items.Perm
      (t.items.take i ++ (t.items.drop i).filter (keeps alive)) := by
  induction fuel generalizing i t with
  | zero =>
      have hdrop : t.items.drop i = [] := List.drop_eq_nil_of_le (by simpa using hfuel)
      have htake : t.items.take i = t.items := List.take_of_length_le (by simpa using hfuel)
      simp [scan, hdrop, htake]
  | succ fuel ih =>
      by_cases hi : i < t.count
      · have hlen : i < t.items.length := by simpa using hi
        have hdrop : t.items.drop i = t.get ⟨i, hi⟩ :: t.items.drop (i + 1) := by
          rw [List.drop_eq_getElem_cons hlen, Slots.getElem_items]
        have htake : t.items.take (i + 1) = t.items.take i ++ [t.get ⟨i, hi⟩] := by
          rw [List.take_succ_eq_append_getElem hlen, Slots.getElem_items]
        rw [scan, dif_pos hi, hdrop]
        cases hpollin : (t.get ⟨i, hi⟩).pollin with
        | false =>
            have hkeeps : keeps alive (t.get ⟨i, hi⟩) = true := by simp [keeps, hpollin]
            rcases ih (i + 1) t (by omega) with ⟨hreceived, hclosed, htable⟩
            rw [htake, List.append_assoc] at htable
            simpa [hpollin, hkeeps] using And.intro hreceived (And.intro hclosed htable)
        | true =>
            cases halive : alive (t.get ⟨i, hi⟩).fd with
            | true =>
                have hkeeps : keeps alive (t.get ⟨i, hi⟩) = true := by simp [keeps, halive]
                rcases ih (i + 1) t (by omega) with ⟨hreceived, hclosed, htable⟩
                rw [htake, List.append_assoc] at htable
                simpa [hpollin, halive, hkeeps] using
                  And.intro hreceived (And.intro hclosed htable)
            | false =>
                -- the entries behind it move up, in some order
                have hkeeps : keeps alive (t.get ⟨i, hi⟩) = false := by
                  simp [keeps, hpollin, halive]
                have hcount : (t.removeAt ⟨i, hi⟩).count = t.count - 1 := rfl
                have hmoved := t.drop_items_removeAt ⟨i, hi⟩
                have hbefore := t.take_items_removeAt ⟨i, hi⟩
                rcases ih i (t.removeAt ⟨i, hi⟩) (by omega) with ⟨hreceived, hclosed, htable⟩
                rw [hbefore] at htable
                have hreceived := hreceived.trans ((hmoved.filter _).map _)
                have hclosed := hclosed.trans ((hmoved.filter _).map _)
                have htable := htable.trans ((hmoved.filter _).append_left _)
                simpa [hpollin, halive, hkeeps] using
                  And.intro hreceived (And.intro hclosed htable)
      · have hdrop : t.items.drop i = [] := List.drop_eq_nil_of_le (by simpa using hi)
        have htake : t.items.take i = t.items := List.take_of_length_le (by simpa using hi)
        simp [scan, hi, hdrop, htake]

end Scan

/-! ## One round -/

section Round

variable {w : World} {r : Round}

theorem items_polled (t : Table) (revents : Nat → UInt16) :
    (polled t revents).items = t.items.map fun e => { e with revents := revents e.fd } := by
  rw [Slots.items, Slots.items, List.map_ofFn]
  refine congrArg List.ofFn (funext fun i => ?_)
  exact if_pos i.isLt

theorem clients_polled (t : Table) (revents : Nat → UInt16) :
    (polled t revents).items.map PollFd.fd = t.items.map PollFd.fd := by
  rw [items_polled, List.map_map]
  rfl

/-- Entries in use have `POLLIN` if they were reported. -/
theorem filter_polled (t : Table) (revents : Nat → UInt16) :
    ((polled t revents).items.filter PollFd.pollin).map PollFd.fd =
      (t.items.map PollFd.fd).filter fun c => revents c &&& POLLIN != 0 := by
  rw [items_polled, List.filter_map, List.map_map, List.filter_map]
  rfl

/-- What the loop over the clients does to a table with distinct clients. -/
theorem World.scan_spec (w : World) (r : Round) :
    (w.scan r).received.Perm (((w.scanned r).items.filter PollFd.pollin).map PollFd.fd) ∧
    (w.scan r).closed.Perm
      (((w.scanned r).items.filter fun e => !keeps r.alive e).map PollFd.fd) ∧
    (w.next r).clients.Perm (((w.scanned r).items.filter (keeps r.alive)).map PollFd.fd) := by
  rcases Poll.scan_spec r.alive (w.scanned r).count 0 (w.scanned r) (by omega) with
    ⟨hreceived, hclosed, htable⟩
  exact ⟨hreceived, hclosed, htable.map _⟩

/-- The clients that are left are those that were not closed. -/
theorem clients_next (hnodup : ((w.scanned r).items.map PollFd.fd).Nodup) :
    (w.next r).clients.Perm
      (((w.scanned r).items.map PollFd.fd).filter fun c => c ∉ (w.scan r).closed) := by
  rcases w.scan_spec r with ⟨-, hclosed, hclients⟩
  refine hclients.trans (List.Perm.of_eq ?_)
  rw [List.filter_map]
  refine congrArg _ (List.filter_congr fun e he => ?_)
  -- an entry was closed exactly if it does not stay, as no other has its descriptor
  have hmem : e.fd ∈ (w.scan r).closed ↔ keeps r.alive e = false := by
    rw [hclosed.mem_iff, List.mem_map]
    constructor
    · rintro ⟨e', he', heq⟩
      rw [List.mem_filter] at he'
      rw [← List.inj_on_of_nodup_map hnodup he'.1 he heq]
      simpa using he'.2
    · intro hgone
      exact ⟨e, List.mem_filter.mpr ⟨he, by simp [hgone]⟩, rfl⟩
  cases hkeeps : keeps r.alive e with
  | true => simp [hmem, hkeeps]
  | false => simp [hmem, hkeeps]

/-- A table that has the open descriptors when the loop starts has them when it ends. -/
theorem tracked_next (hnodup : ((w.scanned r).items.map PollFd.fd).Nodup)
    (hopen : ((w.scanned r).items.map PollFd.fd).Perm (w.opened ++ r.client.toList)) :
    Tracked (w.next r) := by
  have hclients := clients_next hnodup
  exact ⟨hclients.nodup_iff.mpr (hnodup.filter _), hclients.trans (hopen.filter _)⟩

/-- No client is accepted. -/
theorem right_of_none (h : Tracked w) (hclient : r.client = none) : Right (some r) w (w.next r) := by
  have hscanned : w.scanned r = polled w.table r.revents := by rw [World.scanned, hclient]
  constructor
  · refine tracked_next ?_ ?_
    · rw [hscanned, clients_polled]
      exact h.1
    · rw [hscanned, clients_polled, hclient, Option.toList_none, List.append_nil]
      exact h.2
  · rintro r' heq
    cases heq
    have hreceived := (w.scan_spec r).1
    rw [hscanned, filter_polled] at hreceived
    exact hreceived

theorem items_accepted (t : Table) (client : Nat) (h : t.count < MAX_CLIENTS) :
    (accepted t client).items =
      t.items ++ [{ t.slot ⟨t.count, h⟩ with fd := client, events := POLLIN }] := by
  rw [accepted, dif_pos h, Slots.items_push]

/-- A client is accepted and finds a slot: it is read from if `POLLIN` is there. -/
theorem right_of_room (h : Tracked w) {client : Nat} (hclient : r.client = some client)
    (hnew : client ∉ w.opened) (hroom : w.table.count < MAX_CLIENTS) :
    Right (some r) w (w.next r) ↔ (w.table.slot ⟨w.table.count, hroom⟩).pollin = false := by
  -- `poll` does not write the slot
  have hslot : (polled w.table r.revents).slot ⟨w.table.count, hroom⟩ =
      w.table.slot ⟨w.table.count, hroom⟩ := if_neg (Nat.lt_irrefl _)
  generalize w.table.slot ⟨w.table.count, hroom⟩ = stale at hslot
  have hitems : (w.scanned r).items = (polled w.table r.revents).items ++
      [{ stale with fd := client, events := POLLIN }] := by
    rw [World.scanned, hclient, ← hslot]
    exact items_accepted (polled w.table r.revents) client hroom
  have hfds : (w.scanned r).items.map PollFd.fd = w.clients ++ [client] := by
    rw [hitems, List.map_append, clients_polled]
    rfl
  have htracked : Tracked (w.next r) := by
    refine tracked_next ?_ ?_
    · rw [hfds, List.nodup_append]
      refine ⟨h.1, List.nodup_singleton client, ?_⟩
      intro a ha b hb heq
      rw [List.mem_singleton.mp hb] at heq
      exact hnew (h.2.mem_iff.mp (heq ▸ ha))
    · rw [hfds, hclient]
      exact h.2.append_right _
  have hreceived := (w.scan_spec r).1
  rw [hitems, List.filter_append, List.map_append, filter_polled] at hreceived
  cases hstale : stale.pollin with
  | false =>
      refine iff_of_true ⟨htracked, ?_⟩ rfl
      rintro r' heq
      cases heq
      have hnone : [({ stale with fd := client, events := POLLIN } : PollFd)].filter
        PollFd.pollin = [] := List.filter_cons_of_neg (by simpa [PollFd.pollin] using hstale)
      rw [hnone, List.map_nil, List.append_nil] at hreceived
      exact hreceived
  | true =>
      refine iff_of_false ?_ Bool.true_eq_false.mp
      rintro ⟨-, hall⟩
      have hone : [({ stale with fd := client, events := POLLIN } : PollFd)].filter
        PollFd.pollin = [{ stale with fd := client, events := POLLIN }] :=
          List.filter_cons_of_pos (by simpa [PollFd.pollin] using hstale)
      rw [hone] at hreceived
      have hlength := (hreceived.symm.trans (hall r rfl)).length_eq
      simp [World.reported, World.clients] at hlength

/-- A client is accepted and finds no slot: it stays open. -/
theorem not_right_of_full (h : Tracked w) {client : Nat} (hclient : r.client = some client)
    (hnew : client ∉ w.opened) (hfull : ¬ w.table.count < MAX_CLIENTS) :
    ¬ Right (some r) w (w.next r) := by
  have hscanned : w.scanned r = polled w.table r.revents := by
    rw [World.scanned, hclient]
    exact dif_neg hfull
  have hfds : (w.scanned r).items.map PollFd.fd = w.clients := by
    rw [hscanned]
    exact clients_polled _ _
  have hout : client ∉ w.clients := fun hmem => hnew (h.2.mem_iff.mp hmem)
  have hunclosed : client ∉ (w.scan r).closed := by
    rw [(w.scan_spec r).2.1.mem_iff, List.mem_map]
    rintro ⟨e, he, rfl⟩
    refine hout ?_
    rw [← hfds]
    exact List.mem_map_of_mem (List.mem_of_mem_filter he)
  rintro ⟨⟨-, hopen⟩, -⟩
  have hmem : client ∈ (w.next r).opened := by
    show client ∈ (w.opened ++ r.client.toList).filter _
    rw [hclient, List.mem_filter]
    exact ⟨List.mem_append_right _ (List.mem_singleton_self _), by simpa using hunclosed⟩
  rw [← hopen.mem_iff, (clients_next (hfds ▸ h.1)).mem_iff, hfds, List.mem_filter] at hmem
  exact hout hmem.1

/-- A round is right exactly if a client that it accepts finds a clean slot. -/
theorem Tracked.next (h : Tracked w) {e : Event} {w' : World} (hnext : system.Next e w w') :
    Right e w w' ↔ CleanSlot e w := by
  cases e with
  | none =>
      cases hnext
      exact iff_of_true ⟨h, fun _ heq => nomatch heq⟩ fun _ _ heq => nomatch heq
  | some r =>
      rcases hnext with ⟨rfl, hnew⟩
      cases hclient : r.client with
      | none =>
          refine iff_of_true (right_of_none h hclient) ?_
          rintro r' client heq hclient'
          cases heq
          rw [hclient] at hclient'
          cases hclient'
      | some client =>
          have hclean : CleanSlot (some r) w ↔ ∃ hroom : w.table.count < MAX_CLIENTS,
              (w.table.slot ⟨w.table.count, hroom⟩).pollin = false := by
            constructor
            · exact fun hclean => hclean r client rfl hclient
            · rintro hclean r' client' heq -
              cases heq
              exact hclean
          rw [hclean]
          by_cases hroom : w.table.count < MAX_CLIENTS
          · rw [right_of_room h hclient (hnew client hclient) hroom]
            exact ⟨fun hpollin => ⟨hroom, hpollin⟩, fun ⟨_, hpollin⟩ => hpollin⟩
          · refine iff_of_false (not_right_of_full h hclient (hnew client hclient) hroom) ?_
            exact fun ⟨hroom', _⟩ => hroom hroom'

end Round

theorem tracked_reachable {w : World} (hreach : Lts.Reachable (system.restrict CleanSlot) w) :
    Tracked w := by
  refine hreach.invariant (I := Tracked) ?_ ?_
  · rintro w ⟨hcount, hopened⟩
    have hnil : w.clients = [] := by
      rw [World.clients, List.map_eq_nil_iff, ← List.length_eq_zero_iff, Slots.length_items, hcount]
    rw [Tracked, hnil, hopened]
    exact ⟨List.nodup_nil, List.Perm.nil⟩
  · rintro e w w' h ⟨hclean, hnext⟩
    exact ((h.next hnext).mpr hclean).1

/-! ## The server

A round is a run of `OmniOS.Security.Daemon`: at most one client connects, and then every
`recv` is a message or a hangup, in the same order. -/

section Server

variable (peer : Nat → Int32) (alive : Nat → Bool) (sent : Nat → UInt64 × Msg)

/-- The server has the clients of the table in the same slots; `peer` says which process
has a descriptor. -/
def Agrees (t : Table) (s : Server) : Prop := s.fds.items = t.items.map fun e => peer e.fd

/-- The event for a `recv` on descriptor `c`. -/
def Reads (c : Nat) : Security.Event → Prop
  | .message _ now req => alive c = true ∧ (now, req) = sent c
  | .hangup _ => alive c = false
  | .accept _ _ => False

variable {peer} {t : Table} {s : Server}

theorem Agrees.count (h : Agrees peer t s) : s.fds.count = t.count := by
  rw [← Slots.length_items, h, List.length_map, Slots.length_items]

theorem Agrees.get (h : Agrees peer t s) {i : Nat} (hi : i < t.count) (hi' : i < s.fds.count) :
    s.fds.get ⟨i, hi'⟩ = peer (t.get ⟨i, hi⟩).fd := by
  have hlen : i < s.fds.items.length := by rw [Slots.length_items]; exact hi'
  have hlen' : i < t.items.length := by rw [Slots.length_items]; exact hi
  rw [← Slots.getElem_items _ i hlen, ← Slots.getElem_items _ i hlen']
  simp only [show s.fds.items = _ from h, List.getElem_map]

theorem Agrees.removeAt (h : Agrees peer t s) {i : Nat} (hi : i < t.count)
    (hi' : i < s.fds.count) :
    Agrees peer (t.removeAt ⟨i, hi⟩) { s with fds := s.fds.removeAt ⟨i, hi'⟩ } := by
  have hcount := h.count
  have hlast := h.get (i := t.count - 1) (by omega) (by omega)
  show (s.fds.removeAt ⟨i, hi'⟩).items = _
  simp only [Slots.items_removeAt_eq, List.map_dropLast, List.map_set, h.count, hlast]
  rw [h]

theorem Agrees.polled (h : Agrees peer t s) (revents : Nat → UInt16) :
    Agrees peer (polled t revents) s := by
  rw [Agrees, items_polled, List.map_map]
  exact h

theorem Agrees.accepted (h : Agrees peer t s) (client : Nat) (credOk : Bool) :
    Agrees peer (accepted t client) (s.accept (peer client) credOk) := by
  have hcount := h.count
  unfold Poll.accepted Server.accept
  by_cases hroom : t.count < MAX_CLIENTS
  · rw [dif_pos hroom, dif_pos (hcount ▸ hroom)]
    show (s.fds.push _ _).items = _
    rw [Slots.items_push, Slots.items_push, List.map_append, h]
    rfl
  · rw [dif_neg hroom, dif_neg (hcount ▸ hroom)]
    exact h

/-- By induction on the iterations: the server handles what each `recv` returns. -/
theorem scan_run (fuel i : Nat) (h : Agrees peer t s) :
    ∃ es s', Lts.Run Security.system s es s' ∧
      List.Forall₂ (Reads alive sent) (scan alive fuel i t).received es ∧
      Agrees peer (scan alive fuel i t).table s' := by
  induction fuel generalizing i t s with
  | zero => exact ⟨[], s, Lts.Run.nil, List.Forall₂.nil, h⟩
  | succ fuel ih =>
      unfold scan
      by_cases hi : i < t.count
      · rw [dif_pos hi]
        have hi' : i < s.fds.count := h.count ▸ hi
        dsimp only
        cases (t.get ⟨i, hi⟩).pollin with
        | false =>
            rw [if_neg Bool.false_ne_true]
            exact ih (i + 1) h
        | true =>
            rw [if_pos rfl]
            cases halive : alive (t.get ⟨i, hi⟩).fd with
            | true =>
                rw [if_pos rfl]
                let c := (t.get ⟨i, hi⟩).fd
                have hnext : Security.system.Next (.message i (sent c).1 (sent c).2) s
                  (s.receive (s.fds.get ⟨i, hi'⟩) (sent c).1 (sent c).2) := ⟨hi', rfl⟩
                have hsame : Agrees peer t
                  (s.receive (s.fds.get ⟨i, hi'⟩) (sent c).1 (sent c).2) := h
                rcases ih (i + 1) hsame with ⟨es, s', hrun, hreads, hagrees⟩
                exact ⟨_ :: es, s', (Lts.Run.single hnext).append hrun,
                  List.Forall₂.cons ⟨halive, rfl⟩ hreads, hagrees⟩
            | false =>
                rw [if_neg Bool.false_ne_true]
                have hnext : Security.system.Next (.hangup i) s
                  { s with fds := s.fds.removeAt ⟨i, hi'⟩ } := ⟨hi', rfl⟩
                rcases ih i (h.removeAt hi hi') with ⟨es, s', hrun, hreads, hagrees⟩
                exact ⟨_ :: es, s', (Lts.Run.single hnext).append hrun,
                  List.Forall₂.cons halive hreads, hagrees⟩
      · rw [dif_neg hi]
        exact ⟨[], s, Lts.Run.nil, List.Forall₂.nil, h⟩

theorem round_run {w : World} (r : Round) (credOk : Bool) (h : Agrees peer w.table s) :
    ∃ es s', Lts.Run Security.system s
        (r.client.toList.map (fun c => .accept (peer c) credOk) ++ es) s' ∧
      List.Forall₂ (Reads r.alive sent) (w.scan r).received es ∧
      Agrees peer (w.next r).table s' := by
  have hpolled := h.polled r.revents
  unfold World.next World.scan World.scanned
  cases r.client with
  | none => exact scan_run r.alive sent _ 0 hpolled
  | some client =>
      have haccept : Security.system.Next (.accept (peer client) credOk) s
        (s.accept (peer client) credOk) := rfl
      rcases scan_run r.alive sent _ 0 (hpolled.accepted client credOk) with
        ⟨es, s', hrun, hreads, hagrees⟩
      exact ⟨es, s', (Lts.Run.single haccept).append hrun, hreads, hagrees⟩

end Server

/-- Every run of rounds, whatever the clients send, is a run of the server: round by round it
handles the client that connects and then each message or hangup, in the order of the slots. -/
theorem rounds_run {peer : Nat → Int32} {w : World} {s : Server} (h : Agrees peer w.table s)
    (rounds : List Round) (sent : Nat → Nat → UInt64 × Msg) (credOk : Nat → Bool) :
    ∃ (ess : List (List Security.Event)) (s' : Server), Lts.Run Security.system s ess.flatten s' ∧
      Agrees peer (rounds.foldl World.next w).table s' ∧
      ∀ n r, rounds[n]? = some r → ∃ reads,
        ess[n]? = some (r.client.toList.map (fun c => .accept (peer c) (credOk n)) ++ reads) ∧
        List.Forall₂ (Reads r.alive (sent n))
          (((rounds.take n).foldl World.next w).scan r).received reads := by
  induction rounds generalizing w s sent credOk with
  | nil => exact ⟨[], s, Lts.Run.nil, h, fun n r hr => nomatch hr⟩
  | cons r rounds ih =>
      rcases round_run (sent 0) r (credOk 0) h with ⟨reads, s₁, hrun, hreads, hagrees⟩
      rcases ih hagrees (fun n => sent (n + 1)) (fun n => credOk (n + 1)) with
        ⟨ess, s₂, hrest, hagrees', hall⟩
      refine ⟨_ :: ess, s₂, hrun.append hrest, hagrees', ?_⟩
      intro n r' hr'
      cases n with
      | zero =>
          cases hr'
          exact ⟨reads, rfl, hreads⟩
      | succ n => exact hall n r' hr'

/-- As long as every client that is accepted finds a slot without `POLLIN`, every round
reads once from each client that `poll` reported and from no other, and the table has
every open descriptor once. A round in which one does not breaks this. -/
theorem rounds_right_if_clean_slot {w : World}
    (hreach : Lts.Reachable (system.restrict CleanSlot) w) :
    Tracked w ∧ ∀ e w', system.Next e w w' → (Right e w w' ↔ CleanSlot e w) := by
  have h := tracked_reachable hreach
  exact ⟨h, fun e w' hnext => h.next hnext⟩

/-- The array is all zeros. -/
def started : World := ⟨Slots.empty ⟨0, 0, 0⟩, []⟩

/-- A round that only accepts a client. -/
def accepts (client : Nat) : Round := ⟨true, fun _ => 0, some client, fun _ => true⟩

/-- A round in which every client is reported and hangs up. -/
def hangups : Round := ⟨false, fun _ => POLLIN, none, fun _ => false⟩

theorem accepts_next {w : World} {client : Nat} (hnew : client ∉ w.opened) :
    system.Next (some (accepts client)) w (w.next (accepts client)) := by
  refine ⟨rfl, ?_⟩
  intro client' heq
  cases heq
  exact hnew

theorem rounds_run_started :
    Agrees (fun _ => 7) started.table boot ∧
    ∃ (ess : List (List Security.Event)) (s : Server), Lts.Run Security.system boot ess.flatten s ∧
      Agrees (fun _ => 7) (started.next (accepts 5)).table s := by
  have hstarted : Agrees (fun _ => 7) started.table boot := rfl
  rcases rounds_run hstarted [accepts 5] (fun _ _ => (0, Msg.plain .list 0 Token.zero))
    (fun _ => true) with ⟨ess, s, hrun, hagrees, -⟩
  exact ⟨hstarted, ess, s, hrun, hagrees⟩

theorem one_client_tracked :
    (started.next (accepts 5)).clients = [5] ∧ Tracked (started.next (accepts 5)) := by
  have hclean : CleanSlot (some (accepts 5)) started := by
    rintro r client heq -
    cases heq
    exact ⟨by decide, rfl⟩
  have hstep : (system.restrict CleanSlot).Next (some (accepts 5)) started
      (started.next (accepts 5)) := ⟨hclean, accepts_next List.not_mem_nil⟩
  have hinit : Lts.Reachable (system.restrict CleanSlot) started :=
    Lts.Reachable.init ⟨rfl, rfl⟩
  have hreach := hinit.step hstep
  exact ⟨by decide +kernel, (rounds_right_if_clean_slot hreach).1⟩

/-- Client 5 hangs up and leaves `POLLIN` in its slot. Client 6 gets the slot, and the round
that accepts it also reads from it, although `poll` has reported no client. -/
theorem read_from_unreported_client :
    ∃ w, Lts.Reachable system w ∧ system.Next (some (accepts 6)) w (w.next (accepts 6)) ∧
      (w.scan (accepts 6)).received = [6] ∧ w.reported (accepts 6) = [] ∧
      ¬ Right (some (accepts 6)) w (w.next (accepts 6)) := by
  let w := (started.next (accepts 5)).next hangups
  have hinit : Lts.Reachable system started := Lts.Reachable.init ⟨rfl, rfl⟩
  have hone : Lts.Reachable system (started.next (accepts 5)) :=
    hinit.step (accepts_next List.not_mem_nil)
  have hhangups : system.Next (some hangups) (started.next (accepts 5)) w :=
    ⟨rfl, fun _ heq => nomatch heq⟩
  have hreach : Lts.Reachable system w := hone.step hhangups
  have hopened : w.opened = [] := by decide +kernel
  have hreceived : (w.scan (accepts 6)).received = [6] := by decide +kernel
  have hreported : w.reported (accepts 6) = [] := by decide +kernel
  refine ⟨w, hreach, accepts_next (by rw [hopened]; exact List.not_mem_nil), hreceived, hreported,
    ?_⟩
  rintro ⟨-, hall⟩
  have hperm := hall (accepts 6) rfl
  rw [hreceived, hreported] at hperm
  exact absurd hperm.length_eq (by decide)

end OmniOS.Security.Poll
