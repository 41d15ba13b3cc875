import AnySpans.Proofs.Clients
import AnySpans.Proofs.Frames
import AnySpans.Proofs.RoundTrips

/-!
# Requests on lines

The commands that are given on a connection are written in the order of the calls, numbered from one
(`keeps_of_run`), each on a line of its own, and each line is read back as the request it was written
for (`lines_read_back`).
-/

namespace AnySpans.Server

open AnySpans.Json

/-! ### The commands that are written -/

/-- The command that is given at an incident, if any. -/
def Incident.command? : Incident → Option Command
  | .called m _ => some m
  | _ => none

/-- The commands that are given, in the order of the calls. -/
def given (is : List Incident) : List Command := is.filterMap Incident.command?

/-- A command with its number. -/
def Outgoing.numbered (o : Outgoing) : Command × Nat := (o.command, o.number)

namespace Connection

variable {c c' : Connection} {i : Incident} {ms : List Command} {read : List Message}

theorem Steps.calls_eq (h : c.Steps i read c') (hi : ∀ m isRequest, i ≠ .called m isRequest) :
    c'.calls = c.calls := by
  cases h with
  | called m isRequest => exact absurd rfl (hi m isRequest)
  | _ => simp

theorem Steps.written_eq (h : c.Steps i read c') (hi : i ≠ .wrote) : c'.written = c.written := by
  cases h with
  | called m isRequest =>
    cases hopen : c.isOpen with
    | true => rw [call_of_isOpen hopen]; rfl
    | false => rw [call_of_closed hopen]; simp [count]
  | wrote => exact absurd rfl hi
  | _ => simp

/-- A connection has written some of the commands that were given, from the first on, and while it is
open the others wait. -/
structure Keeps (ms : List Command) (c : Connection) : Prop where
  calls : c.calls = ms.length
  written : c.written.reverse.map Outgoing.numbered <+: ms.zipIdx 1
  commands : c.isOpen = true → c.commands.map Outgoing.numbered = ms.zipIdx 1

theorem keeps_new : new.Keeps [] := ⟨rfl, List.prefix_rfl, fun _ => rfl⟩

theorem Keeps.call (h : c.Keeps ms) (m : Command) (isRequest : Bool) :
    (c.call m isRequest).Keeps (ms ++ [m]) := by
  have hnumbered : (ms ++ [m]).zipIdx 1 = ms.zipIdx 1 ++ [(m, c.calls + 1)] := by
    rw [List.zipIdx_append, h.calls, Nat.add_comm]
    rfl
  have hwritten := Steps.written_eq (.called (c := c) m isRequest) (by simp)
  refine ⟨?_, ?_, fun hopen => ?_⟩
  · have : (c.call m isRequest).calls = c.calls + 1 := by
      cases hopen : c.isOpen with
      | true => exact calls_call hopen m isRequest
      | false => simp [call_of_closed hopen, count]
    rw [this, h.calls, List.length_append, List.length_singleton]
  · rw [hwritten, hnumbered]
    exact h.written.trans (List.prefix_append _ _)
  · have hlive : c.isOpen = true := call_isOpen.symm.trans hopen
    rw [commands_call hlive, List.map_append, h.commands hlive, hnumbered]
    rfl

theorem Keeps.step (h : c.Keeps ms) (hs : c.Steps i read c')
    (hi : ∀ m isRequest, i ≠ .called m isRequest) : c'.Keeps ms := by
  have hcommands : c'.isOpen = true → c'.commands.map Outgoing.numbered = ms.zipIdx 1 := by
    intro hopen
    obtain ⟨hlive, -, heq⟩ := hs.commands_eq hi hopen
    rw [heq, h.commands hlive]
  refine ⟨(hs.calls_eq hi).trans h.calls, ?_, hcommands⟩
  by_cases hwrote : i = .wrote
  · subst hwrote
    cases hs with
    | wrote hopen hqueue =>
      rw [← hcommands hopen, Connection.commands, List.map_append]
      exact List.prefix_append _ _
  · rw [hs.written_eq hwrote]
    exact h.written

/-- After a run, a connection has written the first of the commands that were given. -/
theorem keeps_of_run {is : List Incident} {read : List Message} (hrun : new.Run is read c) :
    c.Keeps (given is) := by
  induction hrun with
  | start => exact keeps_new
  | @step is _ c c' i _ hstep ih =>
    have hs := steps_of_step? hstep
    rw [given, List.filterMap_append]
    cases i with
    | called m isRequest =>
      cases hs
      exact ih.call m isRequest
    | _ =>
      rw [show List.filterMap Incident.command? [_] = [] from rfl, List.append_nil]
      exact ih.step hs (by simp)

end Connection

/-! ### Lines -/

theorem lineFeed_not_mem_write (v : Value) : '\n' ∉ v.write := fun h => by
  have := le_of_mem_write h
  contradiction

/-- Lines are what stands between line feeds. -/
theorem splitOn_lines {texts : List (List Char)} (h : ∀ cs ∈ texts, '\n' ∉ cs) :
    (bytesOf (texts.flatMap (· ++ ['\n']))).splitOn 10 = texts.map bytesOf ++ [[]] := by
  induction texts with
  | nil =>
    rw [List.flatMap_nil, bytesOf_eq, List.flatMap_nil, List.splitOn_nil]
    rfl
  | cons cs texts ih =>
    have hfeed : bytesOf ['\n'] = [10] := by
      rw [bytesOf_eq]
      rfl
    have hplain : ∀ b ∈ bytesOf cs, (b == 10) = false := by
      intro b hb
      refine beq_eq_false_iff_ne.2 ?_
      rintro rfl
      exact h cs List.mem_cons_self (lineFeed_of_mem_bytesOf hb)
    rw [List.flatMap_cons, List.append_assoc, bytesOf_append, bytesOf_append, hfeed,
      List.singleton_append, List.splitOn, List.splitOnP_append_cons_of_forall_mem hplain _ rfl,
      List.map_cons, List.cons_append]
    exact congrArg (bytesOf cs :: ·) (ih fun ds hds => h ds (List.mem_cons_of_mem cs hds))

/-- The lines of a connection. -/
def Connection.lines (c : Connection) : List (List UInt8) :=
  c.written.reverse.map fun o => bytesOf (o.command.line o.number)

theorem Connection.splitOn_output (c : Connection) :
    (bytesOf c.output).splitOn 10 = c.lines ++ [[]] := by
  have houtput : c.output =
      (c.written.reverse.map fun o => o.command.line o.number).flatMap (· ++ ['\n']) := by
    rw [List.flatMap_map]
    rfl
  rw [houtput, splitOn_lines, Connection.lines, List.map_map]
  · rfl
  · intro cs hcs
    obtain ⟨o, -, rfl⟩ := List.mem_map.1 hcs
    exact lineFeed_not_mem_write _

/-! ### Requests -/

/-- The members of an object describe a command with its number; where the command has no arguments,
there is no such member. -/
structure Describes (members : Members) (m : Command) (n : Nat) : Prop where
  kind : lookup "type" members = some (.string "request")
  number : lookup "seq" members = some (.integer n)
  command : lookup "command" members = some (.string m.name)
  arguments : lookup "arguments" members =
    match m.arguments with
    | .null => none
    | v => some v.sorted

namespace Command

variable {m : Command} {n : Nat} {u : Value}

theorem exists_describes (m : Command) (n : Nat) :
    ∃ members, m.request n = .object members ∧ Describes members m n := by
  obtain ⟨name, arguments⟩ := m
  cases arguments <;> exact ⟨_, rfl, rfl, rfl, rfl, rfl⟩

theorem of_mem_numbers_request (h : u ∈ (m.request n).numbers) :
    u = .integer n ∨ u ∈ m.arguments.numbers := by
  rw [request, Value.numbers, mem_memberNumbers] at h
  obtain ⟨member, hmember, hu⟩ := h
  simp only [List.cons_append, List.nil_append, List.mem_cons] at hmember
  obtain rfl | rfl | rfl | hmember := hmember
  · exact .inl (List.mem_singleton.1 hu)
  · cases hu
  · cases hu
  · split at hmember
    · cases hmember
    · obtain rfl := List.mem_singleton.1 hmember
      exact .inr (mem_numbers_of_sorted hu)

theorem depth_request_le (m : Command) (n : Nat) : (m.request n).depth ≤ m.arguments.depth + 1 := by
  refine Nat.succ_le_succ (memberDepth_le_iff.2 fun member hmember => ?_)
  simp only [List.cons_append, List.nil_append, List.mem_cons] at hmember
  obtain rfl | rfl | rfl | hmember := hmember
  · exact Nat.zero_le _
  · exact Nat.zero_le _
  · exact Nat.zero_le _
  · split at hmember
    · cases hmember
    · obtain rfl := List.mem_singleton.1 hmember
      exact depth_sorted_le m.arguments

theorem readExactly_line (hm : m.arguments.Short) (n : Nat) :
    (textOf? (bytesOf (m.line n))).bind readExactly = some (m.request n) := by
  rw [textOf?_bytesOf, Option.bind_some, line]
  refine readExactly_write fun d hd => ?_
  obtain heq | hmem := of_mem_numbers_request hd
  · cases heq
  · exact hm d hmem

theorem read_line (hm : m.arguments.Small) (hdepth : m.arguments.depth < depthLimit)
    (hn : n < 2 ^ 64) : (textOf? (bytesOf (m.line n))).bind read = some (m.request n) := by
  rw [textOf?_bytesOf, Option.bind_some, line]
  refine read_write (fun u hu => ?_) (Nat.le_trans (depth_request_le m n) hdepth)
  obtain rfl | hmem := of_mem_numbers_request hu
  · exact ⟨n, rfl, by omega, by omega⟩
  · exact hm u hmem

end Command

namespace Connection

variable {c : Connection}

/-- What a connection has written are lines, one for each of the commands that were given, in the order
of the calls; none is missing but those that wait, or all from some call on once the connection has
ended.  Each line is read back as a request, numbered from one on, and even by the program itself if
the arguments have integers of 64 bits and are not nested too deep. -/
theorem lines_read_back {is : List Incident} {read : List Message} (hrun : new.Run is read c)
    (hshort : ∀ m ∈ given is, m.arguments.Short) :
    ∃ lines, (bytesOf c.output).splitOn 10 = lines ++ [[]] ∧ lines.length ≤ (given is).length ∧
      (c.isOpen = true → lines.length + c.queue.length = (given is).length) ∧
      ∀ (k : Nat) (hk : k < lines.length) (m : Command), (given is)[k]? = some m →
        ∃ members, Describes members m (k + 1) ∧
          (textOf? lines[k]).bind readExactly = some (.object members) ∧
          (m.arguments.Small → m.arguments.depth < depthLimit → k + 1 < 2 ^ 64 →
            (textOf? lines[k]).bind Json.read = some (.object members)) := by
  obtain ⟨-, hwritten, hcommands⟩ := keeps_of_run hrun
  have hlength : c.lines.length = c.written.length := by simp [lines]
  refine ⟨c.lines, c.splitOn_output, ?_, fun hopen => ?_, fun k hk m hm => ?_⟩
  · simpa [hlength] using hwritten.length_le
  · have := congrArg List.length (hcommands hopen)
    simpa [commands, hlength] using this
  · -- the line of a command is that of its number
    have hline : c.lines[k] = bytesOf (m.line (k + 1)) := by
      have hpair : (c.written.reverse.map Outgoing.numbered)[k]? = some (m, k + 1) := by
        have hbound : k < (c.written.reverse.map Outgoing.numbered).length := by
          simpa [hlength] using hk
        rw [List.getElem?_eq_getElem hbound, ← List.prefix_iff_getElem?.1 hwritten k hbound]
        simp [hm, Nat.add_comm]
      obtain ⟨o, ho, heq⟩ := Option.map_eq_some_iff.1 ((List.getElem?_map ..).symm.trans hpair)
      obtain ⟨rfl, hnumber⟩ := Prod.mk.inj heq
      refine Option.some.inj ?_
      rw [← List.getElem?_eq_getElem, lines, List.getElem?_map, ho, Option.map_some, hnumber]
    obtain ⟨members, hobject, hdescribes⟩ := m.exists_describes (k + 1)
    have hmem := hshort m (List.mem_of_getElem? hm)
    refine ⟨members, hdescribes, ?_, fun hsmall hdepth hbound => ?_⟩
    · rw [hline, ← hobject, Command.readExactly_line hmem]
    · rw [hline, ← hobject, Command.read_line hsmall hdepth hbound]

/-- A text with quotes, line breaks, control characters and characters outside the basic plane. -/
def awkwardText : Value := .string "let a = \"\\\";\r\n\u2028\u0001\u007f😀"

/-- Arguments with such texts as keys and values, and with numbers. -/
def awkwardArguments : Value :=
  .object [("b\n", .list [awkwardText, .real ⟨true, 25, -2⟩, .real ⟨false, 1, 21⟩, .object []]),
    ("a", .integer (-7)), ("\"\\", .list [awkwardText, .null])]

theorem lines_read_back_awkward : ∃ c, new.run? [.called ⟨"open", awkwardArguments⟩ false,
    .called ⟨"two\nlines", awkwardText⟩ true, .wrote, .called .exit false, .wrote, .wrote] = some c ∧
    ∃ lines, (bytesOf c.output).splitOn 10 = lines ++ [[]] ∧ lines.length = 3 ∧
      ∃ members, (lines[0]?.bind textOf?).bind readExactly = some (.object members) ∧
        Describes members ⟨"open", awkwardArguments⟩ 1 := by
  obtain ⟨c, hc⟩ : ∃ c, new.run? [.called ⟨"open", awkwardArguments⟩ false,
      .called ⟨"two\nlines", awkwardText⟩ true, .wrote, .called .exit false, .wrote, .wrote] = some c :=
    ⟨_, rfl⟩
  have hopen : c.isOpen = true ∧ c.queue = [] := by
    cases hc
    exact ⟨rfl, rfl⟩
  obtain ⟨read, hrun⟩ := exists_run_of_run? hc
  obtain ⟨lines, hsplit, -, hall, hread⟩ := lines_read_back hrun (by
    simp only [given, List.filterMap_cons, Incident.command?, List.filterMap_nil, List.forall_mem_cons,
      List.not_mem_nil, false_imp_iff, implies_true, and_true]
    refine ⟨fun d hd => ?_, fun d hd => ?_, fun d hd => ?_⟩
    · simp only [awkwardArguments, awkwardText, Value.numbers, memberNumbers, itemNumbers,
        List.cons_append, List.nil_append, List.append_nil, List.mem_cons, List.not_mem_nil, or_false,
        Value.real.injEq, reduceCtorEq] at hd
      obtain rfl | rfl := hd <;> decide
    · cases hd
    · cases hd)
  have hlength : lines.length = 3 := by
    have := hall hopen.1
    rwa [hopen.2] at this
  obtain ⟨members, hdescribes, hexact, -⟩ := hread 0 (by omega) ⟨"open", awkwardArguments⟩ rfl
  exact ⟨c, hc, lines, hsplit, hlength, members, by simpa [hlength] using hexact, hdescribes⟩

end Connection

end AnySpans.Server
