import AnySpans.Proofs.OpenFiles

/-!
# Questions about documents

A question that a client puts is about the text the server has: among the commands it was given, the
last one before the question that opens or closes the document's file opens it with that text
(`Client.questions_answerable`).  Whatever else is asked, given and taken away in between, by whomever,
makes no difference.
-/

namespace AnySpans.Server

open AnySpans.Documents

namespace Client

/-! ### Questions -/

/-- What is known of the questions that were asked while a client made some moves. -/
structure Asked (ms : List Move) (asked : List (Nat × Snapshot)) (k : Connection) : Prop where
  asked_le : ∀ q ∈ asked, q.1 ≤ k.calls
  /-- A question is about one document. -/
  numbered : (asked.map Prod.fst).Nodup
  queued : ∀ q ∈ asked, ∃ o ∈ k.commands, o.number = q.1 ∧ o.command.AsksAbout q.2.key.path
  /-- A question is about the text that the server was given last. -/
  shown : EachAfter (fun before o => o.command.isQuestion = true → ∃ d, (o.number, d) ∈ asked ∧
    o.command.AsksAbout d.key.path ∧
      (SpeltAs d.key ms → Shown d.key.path d.text (before.map Outgoing.command))) k.commands

section

variable {ms : List Move} {asked : List (Nat × Snapshot)} {c c' : Client} {k k' : Connection}
  {cs : List Command} {m : Command} {d : Snapshot} {mv : Move}

namespace Asked

theorem start : Asked [] [] .new := ⟨nofun, List.nodup_nil, nofun, .nil⟩

theorem move (h : Asked ms asked k) (mv : Move) : Asked (ms ++ [mv]) asked k := by
  refine ⟨h.asked_le, h.numbered, h.queued, h.shown.imp fun before o _ ho hq => ?_⟩
  obtain ⟨d, hd, habout, hshown⟩ := ho hq
  exact ⟨d, hd, habout, fun hspelt => hshown hspelt.of_concat⟩

/-- A move by which nothing is asked. -/
theorem silent (h : Asked ms asked k) (mv : Move) : Asked (ms ++ [mv]) (asked ++ []) k := by
  rw [List.append_nil]
  exact h.move mv

theorem gives (h : Asked ms asked k) (hg : k.Gives cs k') (hcs : ∀ m ∈ cs, m.isQuestion = false) :
    Asked ms asked k' := by
  obtain ⟨-, hcalls, new, hnew, rfl⟩ := hg
  refine ⟨fun q hq => Nat.le_trans (h.asked_le q hq) hcalls, h.numbered, fun q hq => ?_, ?_⟩
  · obtain ⟨o, ho, hrest⟩ := h.queued q hq
    exact ⟨o, hnew ▸ List.mem_append_left _ ho, hrest⟩
  · rw [hnew]
    refine h.shown.append fun before o after hsplit hq => ?_
    have hmem : o.command ∈ new.map Outgoing.command := by simp [hsplit]
    cases (hcs _ hmem).symm.trans hq

theorem ask (h : Asked ms asked k) (hopen : k.isOpen = true) (hm : m.AsksAbout d.key.path)
    (hshown : SpeltAs d.key ms → Shown d.key.path d.text (k.commands.map Outgoing.command)) :
    Asked ms (asked ++ [(k.calls + 1, d)]) (k.call m true) := by
  have hcommands := Connection.commands_call hopen m true
  have hcalls := Connection.calls_call hopen m true
  refine ⟨fun q hq => ?_, ?_, fun q hq => ?_, ?_⟩
  · obtain hq | hq := List.mem_append.1 hq
    · have := h.asked_le q hq
      omega
    · obtain rfl := List.mem_singleton.1 hq
      exact Nat.le_of_eq hcalls.symm
  · rw [List.map_append]
    refine List.nodup_append.2 ⟨h.numbered, List.nodup_singleton _, fun n hn n' hn' => ?_⟩
    obtain ⟨q, hq, rfl⟩ := List.mem_map.1 hn
    have hle : q.1 ≤ k.calls := h.asked_le q hq
    have heq : n' = k.calls + 1 := List.mem_singleton.1 hn'
    omega
  · rw [hcommands]
    obtain hq | hq := List.mem_append.1 hq
    · obtain ⟨o, ho, hrest⟩ := h.queued q hq
      exact ⟨o, List.mem_append_left _ ho, hrest⟩
    · rw [List.mem_singleton.1 hq]
      exact ⟨_, List.mem_append_right _ List.mem_cons_self, rfl, hm⟩
  · rw [hcommands]
    refine EachAfter.concat (h.shown.imp fun before o _ ho hq => ?_) fun _ => ?_
    · obtain ⟨d, hd, hrest⟩ := ho hq
      exact ⟨d, List.mem_append_left _ hd, hrest⟩
    · exact ⟨d, List.mem_append_right _ List.mem_cons_self, hm, hshown⟩

/-- A document is given to the server. -/
theorem sync {r : Except Failure Bool} (h : Asked ms asked c.connection) (hs : c.Syncs d (c', r)) :
    Asked ms asked c'.connection := by
  cases hs with
  | refused hkind => exact h
  | known hkind hknown => exact h
  | given hkind hnew hgives =>
    refine h.gives hgives fun m hmem => ?_
    split_ifs at hmem <;> simp at hmem
    · obtain rfl | rfl := hmem <;> rfl
    · rw [hmem]
      rfl

/-- A document is taken from the server. -/
theorem forget {j : Key} {r : Except Failure Unit} (h : Asked ms asked c.connection)
    (hs : c.Forgets j (c', r)) : Asked ms asked c'.connection := by
  cases hs with
  | unknown hnone => exact h
  | closed hknown hgives =>
    refine h.gives hgives fun m hmem => ?_
    rw [List.mem_singleton.1 hmem]
    rfl

/-- A document is asked about, which the server has been given. -/
theorem asks (h : Asked ms asked c.connection) (hmirrored : Mirrored ms c)
    (hlive : c.connection.isOpen = true) (hm : m.AsksAbout d.key.path)
    (hdocument : mv.document? = some d) :
    Asked (ms ++ [mv]) (asked ++ Client.numbered d (c.ask d m).2) (c.ask d m).1.connection := by
  obtain ⟨-, hask⟩ | ⟨c₁, hs, hlive₁, hask⟩ := ask_cases hlive d m
  · rw [hask]
    exact h.silent mv
  · have hknown : c₁.texts.get? d.key = some d.text := by
      cases hs with
      | known hkind hknown => exact hknown
      | given hkind hnew hgives => exact (c.texts.get?_put d.key d.key d.text).trans (if_pos BEq.rfl)
    rw [hask]
    refine ((h.sync hs).move mv).ask hlive₁ hm fun hspelt => ?_
    have hrecord := ((hmirrored.sync hs hdocument).recorded d.key hspelt).record
    rw [hknown] at hrecord
    obtain ⟨⟨text, kind⟩, hfile, rfl⟩ := Option.map_eq_some_iff.1 hrecord
    exact shown_of_filesOf hfile

/-- Something happens to the connection, which does not end. -/
theorem happened (h : Asked ms asked k) (hcalls : k'.calls = k.calls)
    (hcommands : k'.commands = k.commands) : Asked ms asked k' :=
  ⟨hcalls ▸ h.asked_le, h.numbered, hcommands ▸ h.queued, hcommands ▸ h.shown⟩

end Asked

theorem Run.questions (h : Run ms asked c) (hlive : c.connection.isOpen = true) :
    Asked ms asked c.connection := by
  induction h with
  | start => exact .start
  | @move ms asked c c' m hrun hm ih =>
    have hopen := isOpen_of_move? hm hlive
    have ih := ih hopen
    cases m with
    | sync d =>
      cases hm
      exact (ih.sync (c.syncs hopen d)).silent _
    | forget j =>
      cases hm
      exact (ih.forget (c.forgets hopen j)).silent _
    | askInfo d p =>
      cases hm
      exact ih.asks (hrun.mirrored hopen) hopen (.inl ⟨p, rfl⟩) rfl
    | askRemarks d =>
      cases hm
      exact ih.asks (hrun.mirrored hopen) hopen (.inr rfl) rfl
    | happened i =>
      obtain ⟨hi, k, hk, rfl⟩ := step?_of_move? hm
      have hstep := (Connection.steps_of_step? hk).commands_eq hi hlive
      exact (ih.happened hstep.2.1 hstep.2.2).silent _

/-! ### The questions of a run -/

/-- How the questions a client has asked stand among the commands it has given. -/
structure Answerable (ms : List Move) (asked : List (Nat × Snapshot)) (c : Client) : Prop where
  /-- A question is about one document. -/
  numbered : (asked.map Prod.fst).Nodup
  queued : ∀ q ∈ asked, ∃ o ∈ c.connection.commands,
    o.number = q.1 ∧ o.command.AsksAbout q.2.key.path
  /-- Before a question the document was opened with the text the question is about, and neither
  closed nor opened with another text since. -/
  shown : ∀ before o after, c.connection.commands = before ++ o :: after →
    o.command.isQuestion = true → ∃ d, (o.number, d) ∈ asked ∧ o.command.AsksAbout d.key.path ∧
      (SpeltAs d.key ms → Shown d.key.path d.text (before.map Outgoing.command))

/-- The server has the text that a question is about, whatever else was asked, given and taken away
meanwhile. -/
theorem questions_answerable (h : Run ms asked c) (hlive : c.connection.isOpen = true) :
    Answerable ms asked c := by
  have hquestions := h.questions hlive
  exact ⟨hquestions.numbered, hquestions.queued, hquestions.shown⟩

end

/-! ### Two versions of a document in turn -/

/-- Two versions of a document are asked about in turn, and it is taken away in between. -/
def turns : List Move :=
  [.askInfo (sample "typescript" "let a = 1;") ⟨1, 5⟩, .askInfo (sample "typescript" "let b = 1;") ⟨1, 5⟩,
    .happened .wrote, .forget ⟨"/p/a.ts"⟩, .askRemarks (sample "typescript" "let a = 1;")]

/-- The last question is about the first version, which the server has been given again. -/
theorem first_version_shown : ∃ asked c, Run turns asked c ∧ c.connection.isOpen = true ∧
    Answerable turns asked c ∧ ∃ before o after, c.connection.commands = before ++ o :: after ∧
      o.number = 8 ∧ Shown "/p/a.ts" "let a = 1;" (before.map Outgoing.command) := by
  have hplay : (play turns).map (fun p =>
      (p.2.connection.isOpen, p.1.map fun q => (q.1, q.2.key.path, q.2.text))) =
      some (true, [(2, "/p/a.ts", "let a = 1;"), (5, "/p/a.ts", "let b = 1;"),
        (8, "/p/a.ts", "let a = 1;")]) := by decide +kernel
  obtain ⟨⟨asked, c⟩, hp, hgood⟩ := Option.map_eq_some_iff.1 hplay
  obtain ⟨hlive, hasked⟩ := Prod.mk.inj hgood
  have hrun : Run turns asked c := run_of_play hp
  have hanswerable := questions_answerable hrun hlive
  have hdocument : ∀ d, (8, d) ∈ asked → d.key.path = "/p/a.ts" ∧ d.text = "let a = 1;" := by
    intro d hd
    have := List.mem_map_of_mem (f := fun q : Nat × Snapshot => (q.1, q.2.key.path, q.2.text)) hd
    simpa [hasked] using this
  obtain ⟨⟨n, d⟩, hd, heq⟩ : ∃ q ∈ asked, (q.1, q.2.key.path, q.2.text) =
      (8, "/p/a.ts", "let a = 1;") := List.mem_map.1 (by simp [hasked])
  obtain rfl : n = 8 := (Prod.mk.inj heq).1
  obtain ⟨o, ho, hnumber, habout⟩ := hanswerable.queued _ hd
  obtain ⟨before, after, hsplit⟩ := List.append_of_mem ho
  obtain ⟨d', hd', habout', hshown⟩ := hanswerable.shown before o after hsplit habout.isQuestion
  obtain ⟨hpath, htext⟩ := hdocument d' (by rwa [hnumber] at hd')
  have hspelt : SpeltAs d'.key turns := speltAs_of_all (by decide) hpath
  refine ⟨asked, c, hrun, hlive, hanswerable, before, o, after, hsplit, hnumber, ?_⟩
  rw [← hpath, ← htext]
  exact hshown hspelt

end Client

end AnySpans.Server
