import OmniOS.Lib.CString

/-!
# OmniOS.Userspace.Embedder — the platform messages of `userspace/flutter-embedder/embedder.c`

A message is a block of bytes with a length, and `platform_message_callback` searches it as a
C string.

1. **Model.** The searches for the method's name, and the answer to each method. Memory goes
   on behind the message; the string ends at the first zero byte, wherever that is.
2. **Extensions.** What is behind the message is only looked at while a search has found
   nothing (`nameStart_append`, `extractMethod_extended`).
3. **Messages.** Which messages are read the same whatever is behind them, and that those
   of `PlatformBridge.send` are.
-/

namespace OmniOS.Embedder

open CString

def ascii (s : String) : List UInt8 := s.toList.map fun c => UInt8.ofNat c.toNat

def quote : UInt8 := 0x22
def colon : UInt8 := 0x3A
def backslash : UInt8 := 0x5C

/-- The size of `method`. -/
def METHOD_SIZE : Nat := 64

/-- The key that the first search is for. -/
def methodKey : List UInt8 := ascii "\"method\""

/-- Behind the quote that opens the name. The second search starts at the key's last quote. -/
def nameStart (req : List UInt8) : Option (List UInt8) :=
  (strstr methodKey req).bind fun m =>
    (strchr colon (m.drop 7)).bind fun m => (strchr quote m).map (·.drop 1)

/-- The name up to the next quote; empty if there is none or the name is too long. -/
def nameAt (m : List UInt8) : List UInt8 :=
  match strchr quote m with
  | none => []
  | some rest =>
      if m.length - rest.length < METHOD_SIZE - 1 then m.take (m.length - rest.length) else []

def extractMethod (req : List UInt8) : List UInt8 := ((nameStart req).map nameAt).getD []

/-- `now` is what `time` returns. -/
def respond (now : Int) (method : List UInt8) : String :=
  if method = ascii "getSystemInfo" then
    "\x7b\"uptime\":" ++ toString now ++ ",\"apps\":" ++ toString 5 ++ ",\"memory\":\"128M\"\x7d"
  else if method = ascii "getDeviceName" then "\x7b\"name\":\"OmniOS\"\x7d"
  else if method = ascii "requestCapability" then "\x7b\"tokenId\":" ++ toString 42 ++ "\x7d"
  else if method = ascii "sendNotification" then "\x7b\"status\":\"ok\"\x7d"
  else if method = ascii "setClipboard" then "\x7b\"status\":\"ok\"\x7d"
  else if method = ascii "getClipboard" then "\x7b\"text\":\"\"\x7d"
  else "\x7b\"error\":\"unknown\"\x7d"

/-- `memory` starts with the message. The method and the response; on another channel the
response is `NULL`. -/
def platformMessageCallback (now : Int) (channel : String) (memory : List UInt8) :
    Option (List UInt8 × String) :=
  if channel = "omnios/system" then
    let method := extractMethod (cstr 0 memory)
    some (method, respond now method)
  else none

/-- A method's name that JSON writes as it is. -/
structure PlainName where
  bytes : List UInt8
  plain : ∀ b ∈ bytes, b ≠ quote ∧ b ≠ backslash ∧ 0x20 ≤ b

/-- What `PlatformBridge.send` hands over: `args` as encoded, if there are any. -/
def sendMessage (method : PlainName) (args : Option (List UInt8)) : List UInt8 :=
  ascii "\x7b\"method\":\"" ++ method.bytes ++ [quote] ++
    (match args with
      | none => []
      | some args => ascii ",\"args\":" ++ args) ++ ascii "\x7d"

/-! ## Extensions -/

section Extensions

variable {s m : List UInt8}

theorem seven_le_of_strstr (h : strstr methodKey s = some m) : 7 ≤ m.length := by
  rcases split_of_strstr h with ⟨-, r, -, rfl⟩
  have hkey : methodKey.length = 8 := rfl
  rw [List.length_append, hkey]
  omega

/-- A name that has started stays where it is. -/
theorem nameStart_append (h : nameStart s = some m) (t : List UInt8) :
    nameStart (s ++ t) = some (m ++ t) := by
  rcases Option.bind_eq_some_iff.mp h with ⟨key, hkey, h⟩
  rcases Option.bind_eq_some_iff.mp h with ⟨sep, hsep, h⟩
  rcases Option.map_eq_some_iff.mp h with ⟨name, hname, rfl⟩
  rcases split_of_strchr hname with ⟨-, r, -, -, rfl⟩
  rw [nameStart, strstr_append_of_some hkey, Option.bind_some,
    List.drop_append_of_le_length (seven_le_of_strstr hkey), strchr_append_of_some hsep,
    Option.bind_some, strchr_append_of_some hname]
  rfl

/-- A name that has not started can be anything. -/
theorem extractMethod_extended (h : nameStart s = none) :
    ∃ t, (0 : UInt8) ∉ t ∧ extractMethod (s ++ t) = ascii "a" := by
  rw [nameStart] at h
  cases hkey : strstr methodKey s with
  | none =>
      -- behind a byte that the key has not, the search starts anew
      refine ⟨0x20 :: ascii "\"method\":\"a\"", by decide, ?_⟩
      have hspace : (0x20 : UInt8) ∉ methodKey := by decide
      rw [extractMethod, nameStart, strstr_append_cons hkey hspace]
      decide
  | some key =>
      have hseven := seven_le_of_strstr hkey
      rw [hkey, Option.bind_some] at h
      cases hsep : strchr colon (key.drop 7) with
      | none =>
          refine ⟨colon :: ascii "\"a\"", by decide, ?_⟩
          rw [extractMethod, nameStart, strstr_append_of_some hkey, Option.bind_some,
            List.drop_append_of_le_length hseven, strchr_append_cons (notMem_of_strchr hsep)]
          decide
      | some sep =>
          rw [hsep, Option.bind_some, Option.map_eq_none_iff] at h
          refine ⟨quote :: ascii "a\"", by decide, ?_⟩
          rw [extractMethod, nameStart, strstr_append_of_some hkey, Option.bind_some,
            List.drop_append_of_le_length hseven, strchr_append_of_some hsep, Option.bind_some,
            strchr_append_cons (notMem_of_strchr h)]
          decide

theorem nameAt_append_cons (h : quote ∉ m) (t : List UInt8) :
    nameAt (m ++ quote :: t) = if m.length < METHOD_SIZE - 1 then m else [] := by
  have hlen : (m ++ quote :: t).length - (quote :: t).length = m.length := by
    rw [List.length_append, Nat.add_sub_cancel]
  rw [nameAt, strchr_append_cons h]
  simp only [hlen, List.take_left]

theorem nameAt_of_notMem (h : quote ∉ m) : nameAt m = [] := by
  rw [nameAt, strchr_eq_none h]

/-- A name that has ended, or is too long already, stays what it is. -/
theorem nameAt_append (h : quote ∈ m ∨ METHOD_SIZE - 1 ≤ m.length) (t : List UInt8) :
    nameAt (m ++ t) = nameAt m := by
  cases hm : strchr quote m with
  | some rest =>
      rcases split_of_strchr hm with ⟨n, r, hn, rfl, -⟩
      rw [List.append_assoc, List.cons_append, nameAt_append_cons hn, nameAt_append_cons hn]
  | none =>
      have hnone := notMem_of_strchr hm
      have hlong := h.resolve_left hnone
      rw [nameAt_of_notMem hnone]
      cases ht : strchr quote t with
      | none =>
          refine nameAt_of_notMem fun hmem => ?_
          rcases List.mem_append.mp hmem with hmem | hmem
          · exact hnone hmem
          · exact notMem_of_strchr ht hmem
      | some rest =>
          rcases split_of_strchr ht with ⟨n, r, hn, rfl, -⟩
          have hboth : quote ∉ m ++ n := fun hmem =>
            (List.mem_append.mp hmem).elim hnone hn
          rw [← List.append_assoc, nameAt_append_cons hboth, if_neg]
          rw [List.length_append]
          omega

/-- A name that has started, and could still end, can end here or go on. -/
theorem extractMethod_differs (h : nameStart s = some m) (hopen : quote ∉ m)
    (hshort : m.length < METHOD_SIZE - 1) :
    ∃ t, (0 : UInt8) ∉ t ∧ extractMethod (s ++ t) ≠ extractMethod (s ++ [quote]) := by
  have hend : extractMethod (s ++ [quote]) = m := by
    rw [extractMethod, nameStart_append h, Option.map_some, Option.getD_some,
      nameAt_append_cons hopen, if_pos hshort]
  rw [hend]
  by_cases hempty : m = []
  · refine ⟨ascii "a\"", by decide, ?_⟩
    rw [extractMethod, nameStart_append h, hempty]
    decide
  · refine ⟨[], by decide, ?_⟩
    rw [extractMethod, List.append_nil, h, Option.map_some, Option.getD_some,
      nameAt_of_notMem hopen]
    exact Ne.symm hempty

end Extensions

/-! ## Messages -/

/-- The callback does the same whatever is behind the message, as long as a zero byte ends
the search. -/
def ReadAlone (msg : List UInt8) : Prop :=
  ∀ now rest rest', (0 : UInt8) ∈ rest → (0 : UInt8) ∈ rest' →
    platformMessageCallback now "omnios/system" (msg ++ rest) =
      platformMessageCallback now "omnios/system" (msg ++ rest')

/-- The key, a colon and a quote are in the message, and then another quote or as many bytes
as a name cannot have. -/
def Complete (msg : List UInt8) : Prop :=
  ∃ a b c name, msg = a ++ (methodKey ++ (b ++ colon :: (c ++ quote :: name))) ∧
    (quote ∈ name ∨ METHOD_SIZE - 1 ≤ name.length)

section Messages

variable {msg : List UInt8}

theorem callback_eq (now : Int) (memory : List UInt8) :
    platformMessageCallback now "omnios/system" memory =
      some (extractMethod (cstr 0 memory), respond now (extractMethod (cstr 0 memory))) := by
  rw [platformMessageCallback, if_pos rfl]

theorem complete_of_nameStart {m : List UInt8} (h : nameStart msg = some m)
    (hend : quote ∈ m ∨ METHOD_SIZE - 1 ≤ m.length) : Complete msg := by
  rcases Option.bind_eq_some_iff.mp h with ⟨key, hkey, h⟩
  rcases Option.bind_eq_some_iff.mp h with ⟨sep, hsep, h⟩
  rcases Option.map_eq_some_iff.mp h with ⟨name, hname, rfl⟩
  rcases split_of_strstr hkey with ⟨a, r, rfl, rfl⟩
  have hdrop : (methodKey ++ r).drop 7 = quote :: r := rfl
  rw [hdrop, strchr, if_neg (by decide)] at hsep
  rcases split_of_strchr hsep with ⟨b, r', -, rfl, rfl⟩
  rw [strchr, if_neg (by decide)] at hname
  rcases split_of_strchr hname with ⟨c, name', -, rfl, rfl⟩
  exact ⟨a, b, c, name', rfl, hend⟩

theorem nameStart_of_complete (h : Complete msg) :
    ∃ m, nameStart msg = some m ∧ (quote ∈ m ∨ METHOD_SIZE - 1 ≤ m.length) := by
  rcases h with ⟨a, b, c, name, rfl, hend⟩
  -- each search finds its own first place, at the latest the one of the message
  rcases exists_strstr methodKey a (b ++ colon :: (c ++ quote :: name)) with ⟨u, hkey⟩
  have hseven : 7 ≤ (u ++ (methodKey ++ b)).length := by
    have hkey : methodKey.length = 8 := rfl
    rw [List.length_append, List.length_append, hkey]
    omega
  have hdrop : (u ++ (methodKey ++ (b ++ colon :: (c ++ quote :: name)))).drop 7 =
      (u ++ (methodKey ++ b)).drop 7 ++ colon :: (c ++ quote :: name) := by
    rw [← List.append_assoc methodKey, ← List.append_assoc u,
      List.drop_append_of_le_length hseven]
  rcases exists_strchr colon ((u ++ (methodKey ++ b)).drop 7) (c ++ quote :: name) with ⟨v, hsep⟩
  rcases exists_strchr quote (v ++ colon :: c) name with ⟨w, hname⟩
  have hstart : nameStart (a ++ (methodKey ++ (b ++ colon :: (c ++ quote :: name)))) =
      some ((w ++ quote :: name).drop 1) := by
    rw [nameStart, hkey, Option.bind_some, hdrop, hsep, Option.bind_some]
    rw [List.append_assoc, List.cons_append] at hname
    rw [hname]
    rfl
  obtain ⟨v', hv⟩ : ∃ v', (w ++ quote :: name).drop 1 = v' ++ name := by
    cases w with
    | nil => exact ⟨[], rfl⟩
    | cons x w => exact ⟨w ++ [quote], by simp⟩
  rw [hv] at hstart
  refine ⟨_, hstart, hend.imp (List.mem_append_right v') fun hlong => ?_⟩
  rw [List.length_append]
  omega

/-- What is behind a complete message is not looked at. -/
theorem extractMethod_of_complete (h : Complete msg) (t : List UInt8) :
    extractMethod (msg ++ t) = extractMethod msg := by
  rcases nameStart_of_complete h with ⟨m, hm, hend⟩
  rw [extractMethod, extractMethod, nameStart_append hm, hm, Option.map_some, Option.map_some,
    nameAt_append hend]

/-- Otherwise two strings can be found for it. -/
theorem extractMethod_of_not_complete (h : ¬ Complete msg) :
    ∃ t t', (0 : UInt8) ∉ t ∧ (0 : UInt8) ∉ t' ∧
      extractMethod (msg ++ t) ≠ extractMethod (msg ++ t') := by
  cases hm : nameStart msg with
  | none =>
      rcases extractMethod_extended hm with ⟨t, ht, hname⟩
      refine ⟨t, [], ht, by decide, ?_⟩
      have hempty : extractMethod msg = [] := by
        rw [extractMethod, hm]
        rfl
      rw [hname, List.append_nil, hempty]
      decide
  | some m =>
      have hopen : quote ∉ m := fun hmem => h (complete_of_nameStart hm (Or.inl hmem))
      have hshort : m.length < METHOD_SIZE - 1 := by
        by_contra hlong
        exact h (complete_of_nameStart hm (Or.inr (Nat.le_of_not_lt hlong)))
      rcases extractMethod_differs hm hopen hshort with ⟨t, ht, hne⟩
      exact ⟨t, [quote], ht, by decide, hne⟩

/-- A message is read alone if it has a zero byte or is complete. -/
theorem readAlone_iff (msg : List UInt8) : ReadAlone msg ↔ (0 : UInt8) ∈ msg ∨ Complete msg := by
  constructor
  · intro halone
    by_contra hnot
    rw [not_or] at hnot
    rcases extractMethod_of_not_complete hnot.2 with ⟨t, t', ht, ht', hne⟩
    have hsame := halone 0 (t ++ [0]) (t' ++ [0]) (List.mem_append_right t List.mem_cons_self)
      (List.mem_append_right t' List.mem_cons_self)
    rw [callback_eq, callback_eq, cstr_append_of_notMem hnot.1, cstr_append_of_notMem hnot.1,
      cstr_terminated ht, cstr_terminated ht'] at hsame
    exact hne (congrArg Prod.fst (Option.some.inj hsame))
  · intro hread now rest rest' _ _
    have hmethod (rest : List UInt8) :
        extractMethod (cstr 0 (msg ++ rest)) = extractMethod (cstr 0 msg) := by
      by_cases hnul : (0 : UInt8) ∈ msg
      · rw [cstr_append_of_mem hnul]
      · have hself : cstr 0 msg = msg := by
          rw [← List.append_nil msg, cstr_append_of_notMem hnul]
          rfl
        rw [cstr_append_of_notMem hnul, hself,
          extractMethod_of_complete (hread.resolve_left hnul)]
    rw [callback_eq, callback_eq, hmethod, hmethod]

end Messages

/-- The start of a message of `PlatformBridge.send`, up to the end of the name. -/
theorem sendMessage_eq (method : PlainName) (args : Option (List UInt8)) :
    ∃ t, sendMessage method args =
      (ascii "\x7b\"method\":\"" ++ method.bytes ++ [quote]) ++ t :=
  ⟨_, List.append_assoc ..⟩

/-- The name in a message of `PlatformBridge.send` is the method, whatever follows. -/
theorem extractMethod_sendMessage (method : PlainName) (hlen : method.bytes.length ≤ 62)
    (args : Option (List UInt8)) (rest : List UInt8) :
    extractMethod (cstr 0 (sendMessage method args ++ rest)) = method.bytes := by
  rcases sendMessage_eq method args with ⟨t, ht⟩
  have hplain : quote ∉ method.bytes := fun hmem => (method.plain _ hmem).1 rfl
  have hnul : (0 : UInt8) ∉ ascii "\x7b\"method\":\"" ++ method.bytes ++ [quote] := by
    rw [List.mem_append, List.mem_append]
    rintro ((hmem | hmem) | hmem)
    · exact absurd hmem (by decide)
    · exact absurd (method.plain _ hmem).2.2 (by decide)
    · exact absurd hmem (by decide)
  have hstart : nameStart (ascii "\x7b\"method\":\"" ++ method.bytes ++ [quote] ++
      cstr 0 (t ++ rest)) = some (method.bytes ++ quote :: cstr 0 (t ++ rest)) := by
    rw [List.append_assoc, List.append_assoc]
    rfl
  rw [ht, List.append_assoc, cstr_append_of_notMem hnul, extractMethod, hstart, Option.map_some,
    Option.getD_some, nameAt_append_cons hplain, if_pos]
  exact Nat.lt_succ_of_le hlen

/-- Which messages are read alone; and the name of a message of `PlatformBridge.send` is its
method. -/
theorem platform_message_alone_iff (msg : List UInt8) :
    (ReadAlone msg ↔ (0 : UInt8) ∈ msg ∨ Complete msg) ∧
    ∀ (method : PlainName) (args : Option (List UInt8)) (rest : List UInt8) (now : Int),
      method.bytes.length ≤ 62 →
        platformMessageCallback now "omnios/system" (sendMessage method args ++ rest) =
          some (method.bytes, respond now method.bytes) := by
  refine ⟨readAlone_iff msg, fun method args rest now hlen => ?_⟩
  rw [callback_eq, extractMethod_sendMessage method hlen]

/-- The clipboard is asked for, with anything behind the message. -/
theorem platform_message_getClipboard :
    ∃ method : PlainName, method.bytes = ascii "getClipboard" ∧
      ∀ rest, platformMessageCallback 0 "omnios/system" (sendMessage method none ++ rest) =
        some (ascii "getClipboard", "\x7b\"text\":\"\"\x7d") := by
  have hbytes : ascii "getClipboard" =
      [0x67, 0x65, 0x74, 0x43, 0x6C, 0x69, 0x70, 0x62, 0x6F, 0x61, 0x72, 0x64] := by
    decide
  have hplain : ∀ b ∈ ascii "getClipboard", b ≠ quote ∧ b ≠ backslash ∧ 0x20 ≤ b := by
    rw [hbytes]
    simp only [List.forall_mem_cons, List.not_mem_nil, false_imp_iff, implies_true]
    decide
  have hlen : (ascii "getClipboard").length ≤ 62 := by decide
  have hresponse : respond 0 (ascii "getClipboard") = "\x7b\"text\":\"\"\x7d" := by decide
  refine ⟨⟨ascii "getClipboard", hplain⟩, rfl, fun rest => ?_⟩
  rw [← hresponse]
  exact (platform_message_alone_iff []).2 ⟨ascii "getClipboard", hplain⟩ none rest 0 hlen

/-- An empty message in front of an old one is answered as the old one. -/
theorem empty_message_answered :
    let old := ascii "\x7b\"method\":\"getDeviceName\"\x7d" ++ [0]
    platformMessageCallback 0 "omnios/system" ([] ++ old) =
      some (ascii "getDeviceName", "\x7b\"name\":\"OmniOS\"\x7d") ∧
    platformMessageCallback 0 "omnios/system" ([] ++ [0]) =
      some ([], "\x7b\"error\":\"unknown\"\x7d") ∧
    ¬ ReadAlone [] := by
  have hold : platformMessageCallback 0 "omnios/system"
      ([] ++ (ascii "\x7b\"method\":\"getDeviceName\"\x7d" ++ [0])) =
        some (ascii "getDeviceName", "\x7b\"name\":\"OmniOS\"\x7d") := by
    decide
  have hnone : platformMessageCallback 0 "omnios/system" ([] ++ [0]) =
      some ([], "\x7b\"error\":\"unknown\"\x7d") := by
    decide
  refine ⟨hold, hnone, fun halone => ?_⟩
  have hsame := halone 0 (ascii "\x7b\"method\":\"getDeviceName\"\x7d" ++ [0]) [0]
    (by decide) (by decide)
  rw [hold, hnone] at hsame
  exact absurd hsame (by decide)

end OmniOS.Embedder
