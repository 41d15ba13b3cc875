import AnySpans.Proofs.RequestLines
import AnySpans.Proofs.Servers
import AnySpans.Server.Scripted

/-!
# A server that answers at once

`obliging` hears the commands that are written on its lines (`heard?_line`) and responds to each
question at once: all identifiers have one declaration, and there are no remarks on any file.  It is
honest as long as its responses are not too long (`honest_obliging`).
-/

namespace AnySpans.Decoding

open AnySpans.Json

/-! ### Records that are read -/

section

variable {α : Type} {r : Record α} {a b : α} {f : Field α} {key : String} {v : Value} {ms : Members}
  {seen : List Nat} {i bits n : Nat}

theorem Record.readMembers_unknown (hi : r.index? key = none) :
    r.readMembers a seen ((key, v) :: ms) = r.readMembers a seen ms := by
  rw [readMembers, hi]

theorem Record.readMembers_known (hi : r.index? key = some i) (hnew : seen.contains i = false)
    (hf : r.fields[i]? = some f) (hput : f.put v a = .ok b) :
    r.readMembers a seen ((key, v) :: ms) = r.readMembers b (i :: seen) ms := by
  simp only [readMembers, hi, hnew, hf, hput, Bool.false_eq_true, if_false]
  rfl

theorem Record.ofMembers_of_readMembers (h : r.readMembers r.default [] ms = .ok (a, seen))
    (hmissing : r.missing? seen = none) : r.ofMembers ms = .ok a := by
  simp only [ofMembers, h, bind, Except.bind, hmissing]

theorem readUnsigned_natCast (hn : n < 2 ^ bits) : readUnsigned bits (.integer n) = .ok n := by
  have hlt : (n : Int) < 2 ^ bits := by exact_mod_cast hn
  rw [readUnsigned]
  exact if_pos ⟨Int.natCast_nonneg n, hlt⟩

end

end AnySpans.Decoding

namespace AnySpans.Server

open AnySpans.Decoding AnySpans.Documents AnySpans.Json

/-! ### Values in frames -/

theorem Message.decode_response {ms others : Members} {r : Response}
    (hs : splitKind none [] ms = .ok (.response, others))
    (hr : Response.record.ofMembers others = .ok r) : decode (.object ms) = .ok (.response r) := by
  simp only [decode, hs, hr, bind, Except.bind]
  rfl

/-- A value in a frame is read as the message that it describes. -/
theorem readMessage_frame {v : Value} {m : Message} (hv : v.Small) (hdepth : v.depth ≤ depthLimit)
    (hm : Message.decode v = .ok m) (hheld : (bytesOf (v.write ++ ['\n'])).length ≤ lengthLimit)
    (rest : List UInt8) : readMessage (frame v ++ rest) = .message m rest := by
  have hbody : messageIn? (bytesOf (v.write ++ ['\n'])) = some m := by
    rw [messageIn?, textOf?_bytesOf, Option.bind_eq_bind, Option.bind_some,
      read_write_lineFeed hv hdepth, Option.bind_eq_bind, Option.bind_some, hm]
    rfl
  rw [Frame.frame_eq_bytes rfl hbody hheld]
  exact Frame.readMessage_bytes _ rest

/-! ### What is heard -/

/-- The command on a line; what it is about does not matter. -/
def heard? (line : List Char) : Option Heard :=
  match readExactly line with
  | some (.object members) =>
    match lookup "seq" members, lookup "command" members with
    | some number, some (.string command) => some ⟨number, command, []⟩
    | _, _ => none
  | _ => none

theorem heard?_line {m : Command} (hm : m.arguments.Short) (n : Nat) :
    heard? (m.line n) = some ⟨.integer n, m.name, []⟩ := by
  have hread := m.readExactly_line hm n
  rw [textOf?_bytesOf, Option.bind_some] at hread
  obtain ⟨members, hmembers, hdescribes⟩ := m.exists_describes n
  rw [heard?, hread, hmembers]
  dsimp only
  rw [hdescribes.number, hdescribes.command]

/-- The commands that are given while documents are asked about have no fractions. -/
theorem Outgoing.Said.short {o : Outgoing} (h : o.Said) : o.command.arguments.Short := by
  intro d hd
  obtain ⟨n, file, text, kind⟩ | ⟨n, file⟩ | @⟨n, m, file, hm⟩ := h
  · cases kind <;> simp [Command.openFile, Value.numbers, memberNumbers] at hd
  · simp [Command.closeFile, Value.numbers, memberNumbers] at hd
  · obtain ⟨at', rfl⟩ | rfl := hm <;>
      simp [Command.quickInfo, Command.remarks, Value.numbers, memberNumbers] at hd

/-! ### What is said -/

/-- The declaration of an identifier; where it stands does not matter. -/
def declaration (display : String) : Value :=
  let place := Value.object [("line", .integer 1), ("offset", .integer 1)]
  .object [("displayString", .string display), ("end", place), ("kind", .string "const"),
    ("start", place)]

/-- What is said to a command, if it is a question. -/
def body? (display : String) : String → Option Value
  | "quickinfo" => some (declaration display)
  | "semanticDiagnosticsSync" => some (.list [])
  | _ => none

/-- The response to a question. -/
def reply (number : Nat) (command : String) (body : Value) : Value :=
  .object [("seq", .integer 0), ("type", .string "response"), ("command", .string command),
    ("request_seq", .integer number), ("success", .boolean true), ("body", body)]

/-- A server that responds to questions at once. -/
def obliging (display : String) : Peer Unit where
  hear _ _ line :=
    match heard? line with
    | some h => ((), ((body? display h.command).map fun body =>
        Script.response h h.command true [("body", body)]).getD [])
    | none => ((), [])
  act _ _ := ((), [])
  due _ := none

/-- What such a server knows. -/
def oneDeclaration (display : String) : Knowledge := ⟨fun _ _ => some display, fun _ => some []⟩

/-- It owes nothing, and there is nothing of a message that is not complete. -/
def NothingOwed (_ : Unit) (_ : Nat) (_ : Files) (owed : List Debt) (left : List UInt8) : Prop :=
  owed = [] ∧ left = []

theorem hear_obliging {display : String} {m : Command} (hm : m.arguments.Short) (now n : Nat) :
    (obliging display).hear () now (m.line n) = ((), ((body? display m.name).map fun body =>
      [.send (frame (reply n m.name body))]).getD []) := by
  rw [obliging]
  dsimp only
  rw [heard?_line hm]
  rfl

/-- The members of a reply besides its type. -/
def replyMembers (number : Nat) (command : String) (body : Value) : Members :=
  [("seq", .integer 0), ("command", .string command), ("request_seq", .integer number),
    ("success", .boolean true), ("body", body)]

section

variable {n : Nat} {body : Value} (command : String)

theorem readMembers_reply (hn : n < 2 ^ 64) (hbody : body ≠ .null) :
    Response.record.readMembers Response.record.default [] (replyMembers n command body) =
      .ok (⟨n, command, true, none, some body.sorted⟩, [4, 2, 0, 1]) := by
  have hnumber : (needed "request_seq" (readUnsigned 64) fun n (r : Response) =>
      { r with request := n }).put (.integer n) ⟨0, command, false, none, none⟩ =
        .ok ⟨n, command, false, none, none⟩ := by
    simp only [needed, readUnsigned_natCast hn]
    rfl
  have hput : (Decoding.optional "body" (readOptional fun v => .ok v.sorted) fun v (r : Response) =>
      { r with body := v }).put body ⟨n, command, true, none, none⟩ =
        .ok ⟨n, command, true, none, some body.sorted⟩ := by
    cases body <;> first | rfl | exact absurd rfl hbody
  refine (Record.readMembers_unknown (by decide)).trans ?_
  refine (Record.readMembers_known (b := ⟨0, command, false, none, none⟩) (i := 1) (by decide)
    (by decide) rfl rfl).trans ?_
  refine (Record.readMembers_known (i := 0) (by decide) (by decide) rfl hnumber).trans ?_
  refine (Record.readMembers_known (b := ⟨n, command, true, none, none⟩) (i := 2) (by decide)
    (by decide) rfl rfl).trans ?_
  exact (Record.readMembers_known (i := 4) (by decide) (by decide) rfl hput).trans rfl

/-- A reply is read as the response that it is meant to be. -/
theorem decode_reply (hn : n < 2 ^ 64) (hbody : body ≠ .null) :
    Message.decode (reply n command body) =
      .ok (.response ⟨n, command, true, none, some body.sorted⟩) := by
  have hsplit : Message.splitKind none [] [("seq", .integer 0), ("type", .string "response"),
      ("command", .string command), ("request_seq", .integer n), ("success", .boolean true),
      ("body", body)] = .ok (.response, replyMembers n command body) := rfl
  exact Message.decode_response hsplit
    (Record.ofMembers_of_readMembers (readMembers_reply command hn hbody) (by decide))

end

/-! ### Honesty -/

section

variable {display : String} {m : Command} {file : String} {body : Value} {n last : Nat}

theorem sorted_declaration (display : String) : (declaration display).sorted = declaration display := by
  simp only [declaration, Value.sorted, sortEach, sortMembers, insertMember, List.foldl_cons,
    List.foldl_nil, String.reduceLT, String.reduceEq, if_false]

theorem readContent_of_ok {α : Type} {command : String} {read : Value → Decoded α} {r : Response}
    {v : Value} {a : α} (hsuccess : r.success = true) (hbody : r.body = some v)
    (hread : read v = .ok a) : readContent command read (.ok r) = .ok (some a) := by
  obtain ⟨request, name, success, message, body⟩ := r
  cases hsuccess
  cases hbody
  show some <$> (read v).mapError Failure.unfit = _
  rw [hread]
  rfl

theorem answerOf_declaration (n : Nat) (command display : String) :
    Check.Answers.answerOf (.ok ⟨n, command, true, none, some (declaration display)⟩) = some display := by
  have hread : QuickInfo.record.read (declaration display) =
      .ok ⟨"const", display, ⟨1, 1⟩, ⟨1, 1⟩⟩ := rfl
  rw [Check.Answers.answerOf, readInfo, readContent_of_ok rfl rfl hread]
  rfl

/-- A question is responded to with what the server knows. -/
theorem exists_body (display : String) (hm : m.AsksAbout file) :
    ∃ body, body? display m.name = some body ∧ body ≠ .null ∧ body.Small ∧ body.depth ≤ 2 ∧
      ∀ n t, (oneDeclaration display).Tells m t ⟨n, m.name, true, none, some body.sorted⟩ := by
  obtain ⟨at', rfl⟩ | rfl := hm
  · refine ⟨declaration display, rfl, by simp [declaration], fun u hu => ?_, Nat.le_of_eq rfl,
      fun n t => ⟨?_, ?_⟩⟩
    · have hone : u = .integer 1 := by
        simpa [declaration, Value.numbers, memberNumbers] using hu
      exact ⟨1, hone, by decide, by decide⟩
    · intro _ _ _ _ _
      rw [sorted_declaration, answerOf_declaration]
      rfl
    · intro _ _ hm
      simp [Command.quickInfo, Command.remarks] at hm
  · refine ⟨.list [], rfl, by simp, fun u hu => ?_, by decide, fun n t => ⟨?_, ?_⟩⟩
    · cases hu
    · intro _ _ _ hm
      simp [Command.quickInfo, Command.remarks] at hm
    · intro _ _ _ _
      rfl

/-- A reply is not too deep and has no numbers but small ones. -/
theorem small_reply (hn : n < 2 ^ 64) (command : String) (hbody : body.Small) (hdepth : body.depth ≤ 2) :
    (reply n command body).Small ∧ (reply n command body).depth ≤ depthLimit := by
  constructor
  · intro u hu
    simp only [reply, Value.numbers, memberNumbers, List.nil_append, List.append_nil,
      List.singleton_append, List.mem_cons] at hu
    obtain rfl | rfl | hu := hu
    · exact ⟨0, rfl, by decide, by decide⟩
    · exact ⟨n, rfl, by omega, by omega⟩
    · exact hbody u hu
  · have hle : 2 + 1 ≤ depthLimit := by decide
    refine Nat.le_trans (Nat.succ_le_succ (memberDepth_le_iff.2 fun member hmember => ?_)) hle
    simp only [List.mem_cons, List.not_mem_nil, or_false] at hmember
    obtain rfl | rfl | rfl | rfl | rfl | rfl := hmember
    case inr.inr.inr.inr.inr => exact hdepth
    all_goals exact Nat.zero_le _

/-- What the server says to a question is the response to it. -/
theorem carries_reply (hn : n < 2 ^ 64) (command : String) (hnull : body ≠ .null) (hbody : body.Small)
    (hdepth : body.depth ≤ 2)
    (hheld : (bytesOf ((reply n command body).write ++ ['\n'])).length ≤ lengthLimit) :
    Carries (frame (reply n command body))
      [.response ⟨n, command, true, none, some body.sorted⟩] [] := by
  obtain ⟨hsmall, hdeep⟩ := small_reply hn command hbody hdepth
  have hread := readMessage_frame hsmall hdeep (decode_reply command hn hnull) hheld []
  rw [List.append_nil] at hread
  exact .message hread (.short readMessage_nil)

theorem says_nothing {K : Knowledge} {owed : List Debt} : Says K owed [] [] [] [] :=
  ⟨⟨[], rfl, .short readMessage_nil⟩, fun _ hr => by cases hr⟩

/-- The server is honest, as long as its responses are not too long. -/
theorem honest_obliging (hlast : last < 2 ^ 64) (hheld : ∀ n ≤ last, ∀ command body,
      body? display command = some body →
        (bytesOf ((reply n command body).write ++ ['\n'])).length ≤ lengthLimit) :
    (obliging display).Honest (oneDeclaration display) 1 last NothingOwed where
  hear := by
    rintro _ now t _ _ o ⟨rfl, rfl⟩ hsaid hle -
    rw [hear_obliging hsaid.short]
    cases hsaid with
    | opened => exact ⟨[], [], says_nothing, rfl, rfl⟩
    | closed => exact ⟨[], [], says_nothing, rfl, rfl⟩
    | @asked n m file hm =>
      obtain ⟨body, hbody, hnull, hsmall, hdepth, htells⟩ := exists_body display hm
      have hcarries := carries_reply (Nat.lt_of_le_of_lt hle hlast) m.name hnull hsmall hdepth
        (hheld n hle m.name body hbody)
      dsimp only
      rw [hbody]
      refine ⟨_, [], ⟨⟨[_], rfl, by simpa using hcarries⟩, fun r hr => ?_⟩, ?_, rfl⟩
      · obtain rfl := List.mem_singleton.1 hr
        exact ⟨_, List.mem_singleton_self _, rfl, htells n t⟩
      · simp [unsettled, Outgoing.debts, replyTo?, responses, Message.response?]
  act := by
    rintro _ now t _ _ ⟨rfl, rfl⟩
    exact ⟨[], [], says_nothing, ⟨rfl, rfl⟩, fun _ hd => by cases hd⟩
  wait h _ _ := h
  prompt := by
    rintro _ _ _ _ _ q ⟨rfl, -⟩ hq
    cases hq

end

end AnySpans.Server
