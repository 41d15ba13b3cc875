import AnySpans.Proofs.Clients

/-!
# Open files

The commands of a client, taken one after another, say which files the server has open, with which
texts and as which kinds of script (`filesOf`).  What the client knows of a document that is spelt in
one way is what the server has (`Client.files_agree`): its file is opened only if it is not open and
closed only if it is, and when it is given its text is open.  The server takes a file as the language
that its document had when the text was given; a change of the language alone does not reach it, nor
does a document that is taken away in another spelling (`Client.kind_and_spelling_missed`).
-/

namespace AnySpans.Server

open AnySpans.Documents AnySpans.Json

/-- Each member of a list has a property that may depend on those before it. -/
def EachAfter {α : Type} (P : List α → α → Prop) (l : List α) : Prop :=
  ∀ before x after, l = before ++ x :: after → P before x

namespace EachAfter

variable {α : Type} {P Q : List α → α → Prop} {l l' : List α} {x : α}

theorem nil : EachAfter P [] := fun before _ _ h => by cases before <;> cases h

theorem append (h : EachAfter P l)
    (h' : EachAfter (fun before => P (l ++ before)) l') :
    EachAfter P (l ++ l') := by
  intro before x after hsplit
  obtain ⟨before', rfl, hl'⟩ | ⟨rest, hl, hrest⟩ := List.append_eq_append_iff.1 hsplit
  · exact h' before' x after hl'
  · cases rest with
    | nil =>
      have := h' [] x after hrest.symm
      rwa [hl, List.append_nil, List.append_nil] at this
    | cons y rest =>
      cases hrest
      exact h before _ rest hl

theorem concat (h : EachAfter P l) (hx : P l x) : EachAfter P (l ++ [x]) := by
  refine h.append fun before y after heq => ?_
  obtain ⟨rfl, rfl, -⟩ : before = [] ∧ x = y ∧ after = [] := by
    cases before with
    | nil => exact ⟨rfl, (List.cons.inj heq).1, (List.cons.inj heq).2.symm⟩
    | cons _ before => cases before <;> cases (List.cons.inj heq).2
  rwa [List.append_nil]

theorem imp (h : EachAfter P l) (hPQ : ∀ before, ∀ x ∈ l, P before x → Q before x) :
    EachAfter Q l := by
  rintro before x after rfl
  exact hPQ before x (by simp) (h before x after rfl)

end EachAfter

/-! ### Files of the server -/

/-- What a command does to the open files. -/
inductive FileChange where
  | opened (file text : String) (kind : Option String)
  | closed (file : String)
deriving DecidableEq, Repr

/-- The change a command makes to the open files, if any. -/
def Command.change? (m : Command) : Option FileChange :=
  match m.name, m.arguments with
  | "open", .object [("file", .string file), ("fileContent", .string text)] =>
    some (.opened file text none)
  | "open", .object [("file", .string file), ("fileContent", .string text),
      ("scriptKindName", .string kind)] => some (.opened file text (some kind))
  | "close", .object [("file", .string file)] => some (.closed file)
  | _, _ => none

@[simp] theorem change?_openFile (file text : String) (kind : Option String) :
    (Command.openFile file text kind).change? = some (.opened file text kind) := by
  cases kind <;> rfl

@[simp] theorem change?_closeFile (file : String) :
    (Command.closeFile file).change? = some (.closed file) := rfl

/-- The open files, each with its text and its kind of script. -/
abbrev Files := String → Option (String × Option String)

/-- The open files after a command. -/
def Files.after (t : Files) (m : Command) : Files := fun file =>
  match m.change? with
  | some (.opened f text kind) => if f = file then some (text, kind) else t file
  | some (.closed f) => if f = file then none else t file
  | none => t file

/-- The files that are open after some commands. -/
def filesOf (ms : List Command) : Files := ms.foldl Files.after fun _ => none

/-- A command asks about a file. -/
def Command.AsksAbout (m : Command) (file : String) : Prop :=
  (∃ p, m = .quickInfo file p) ∨ m = .remarks file

/-- A command is one of the questions about files. -/
def Command.isQuestion (m : Command) : Bool :=
  m.name == "quickinfo" || m.name == "semanticDiagnosticsSync"

/-- A command opens a file only if it is not open and closes it only if it is. -/
structure Fits (file : String) (before : List Command) (m : Command) : Prop where
  opened : ∀ text kind, m.change? = some (.opened file text kind) → filesOf before file = none
  closed : m.change? = some (.closed file) → (filesOf before file).isSome = true

/-- Among some commands a file was opened with a text, and after that it was neither closed nor opened
with another text. -/
def Shown (file text : String) (ms : List Command) : Prop :=
  ∃ before kind after, ms = before ++ .openFile file text kind :: after ∧
    ∀ m ∈ after, m ≠ .closeFile file ∧
      ∀ text' kind', m = .openFile file text' kind' → text' = text

section

variable {file text : String} {kind : Option String} {ms : List Command} {m : Command}

theorem filesOf_concat (ms : List Command) (m : Command) :
    filesOf (ms ++ [m]) = (filesOf ms).after m := List.foldl_append

theorem after_of_other {t : Files} (ho : ∀ text kind, m.change? ≠ some (.opened file text kind))
    (hc : m.change? ≠ some (.closed file)) : t.after m file = t file := by
  unfold Files.after
  split
  · rename_i f text kind hm
    refine if_neg ?_
    rintro rfl
    exact ho text kind hm
  · rename_i f hm
    refine if_neg ?_
    rintro rfl
    exact hc hm
  · rfl

theorem after_openFile (t : Files) (f text : String) (kind : Option String) :
    t.after (.openFile f text kind) file = if f = file then some (text, kind) else t file := by
  unfold Files.after
  rw [change?_openFile]

theorem after_closeFile (t : Files) (f : String) :
    t.after (.closeFile f) file = if f = file then none else t file := rfl

theorem Command.AsksAbout.change? (h : m.AsksAbout file) : m.change? = none := by
  obtain ⟨p, rfl⟩ | rfl := h <;> rfl

theorem Command.AsksAbout.isQuestion (h : m.AsksAbout file) : m.isQuestion = true := by
  obtain ⟨p, rfl⟩ | rfl := h <;> rfl

theorem eq_openFile_of_change? {f : String} (h : m.change? = some (.opened f text kind)) :
    m = .openFile f text kind := by
  obtain ⟨name, arguments⟩ := m
  unfold Command.change? at h
  split at h <;> cases h
  · simp_all [Command.openFile]
  · simp_all [Command.openFile]

/-- Closing a file opens none. -/
theorem isSome_filesOf_of_close {f : String}
    (h : (filesOf (ms ++ [.closeFile f]) file).isSome = true) : (filesOf ms file).isSome = true := by
  rw [filesOf_concat, after_closeFile] at h
  split_ifs at h
  · cases h
  · exact h

/-- A file that is open was shown. -/
theorem shown_of_filesOf (h : filesOf ms file = some (text, kind)) : Shown file text ms := by
  induction ms using List.reverseRecOn generalizing text kind with
  | nil => cases h
  | append_singleton ms m ih =>
    rw [filesOf_concat] at h
    by_cases hm : ∃ text' kind', m.change? = some (.opened file text' kind')
    · obtain ⟨text', kind', hm⟩ := hm
      obtain rfl := eq_openFile_of_change? hm
      rw [after_openFile, if_pos rfl] at h
      cases h
      exact ⟨ms, kind, [], rfl, fun m hm => absurd hm List.not_mem_nil⟩
    · have hopen : ∀ text kind, m.change? ≠ some (.opened file text kind) :=
        fun text kind heq => hm ⟨text, kind, heq⟩
      have hclose : m.change? ≠ some (.closed file) := by
        intro heq
        unfold Files.after at h
        simp only [heq, if_pos] at h
        cases h
      rw [after_of_other hopen hclose] at h
      obtain ⟨before, kind, after, rfl, hafter⟩ := ih h
      refine ⟨before, kind, after ++ [m], by rw [List.append_assoc]; rfl, fun m' hm' => ?_⟩
      obtain hm' | hm' := List.mem_append.1 hm'
      · exact hafter m' hm'
      · rw [List.mem_singleton.1 hm']
        refine ⟨?_, ?_⟩
        · rintro rfl
          exact hclose rfl
        · rintro text' kind' rfl
          exact absurd (change?_openFile ..) (hopen text' kind')

end

namespace Client

/-! ### The record of texts -/

/-- What the client knows of a document, which all moves spell in one way, is what the server has. -/
structure Recorded (k : Key) (ms : List Move) (texts : Table String) (s : List Command) : Prop where
  record : (filesOf s k.path).map Prod.fst = texts.get? k
  fits : EachAfter (Fits k.path) s
  /-- The server takes a file as a language that the document had when it was given this text. -/
  origin : ∀ text kind, filesOf s k.path = some (text, kind) →
    ∃ d ∈ documents ms, (d.key == k) = true ∧ d.text = text ∧
      kind = scriptKind? d.language ∧ kind.isSome = true
  kept : isKept k ms = false → texts.get? k = none

section

variable {k j : Key} {ms : List Move} {m : Move} {d : Snapshot} {texts : Table String}
  {s : List Command} {kind : String}

/-- Documents with the same path are the same. -/
theorem path_ne_of_ne (h : ¬(j == k) = true) : j.path ≠ k.path := fun heq =>
  h (Key.beq_iff.2 (congrArg Files.parts heq))

namespace Recorded

theorem start : Recorded k [] ∅ [] := ⟨rfl, .nil, nofun, fun _ => rfl⟩

/-- A command that neither opens nor closes the document changes nothing. -/
theorem command (h : Recorded k ms texts s) {c : Command}
    (ho : ∀ text kind, c.change? ≠ some (.opened k.path text kind))
    (hc : c.change? ≠ some (.closed k.path)) : Recorded k ms texts (s ++ [c]) := by
  have hfiles : filesOf (s ++ [c]) k.path = filesOf s k.path := by
    rw [filesOf_concat, after_of_other ho hc]
  refine ⟨hfiles ▸ h.record, h.fits.concat ⟨?_, ?_⟩, hfiles ▸ h.origin, h.kept⟩
  · exact fun text kind heq => absurd heq (ho text kind)
  · exact fun heq => absurd heq hc

/-- A move that neither gives nor takes away the document changes nothing. -/
theorem idle (h : Recorded k ms texts s)
    (hm : isKept k (ms ++ [m]) = false → isKept k ms = false ∨ texts.get? k = none) :
    Recorded k (ms ++ [m]) texts s := by
  refine ⟨h.record, h.fits, fun text kind hfile => ?_, fun hkept => ?_⟩
  · obtain ⟨d, hd, hrest⟩ := h.origin text kind hfile
    exact ⟨d, mem_documents_concat hd m, hrest⟩
  · exact (hm hkept).elim h.kept id

theorem retable (h : Recorded k ms texts s) {texts' : Table String}
    (hget : texts'.get? k = texts.get? k) : Recorded k ms texts' s :=
  ⟨h.record.trans hget.symm, h.fits, h.origin, fun hkept => hget.trans (h.kept hkept)⟩

/-- The server has a document open if and only if the client knows its text. -/
theorem isSome_filesOf (h : Recorded k ms texts s) (hj : (j == k) = true) :
    (filesOf s k.path).isSome = texts.contains j := by
  rw [Table.contains, texts.get?_congr hj, ← h.record, Option.isSome_map]

/-- A document is closed if the client knows its text. -/
theorem close (h : Recorded k ms texts s) (hj : (j == k) = true) (hpath : j.path = k.path) :
    filesOf (s ++ if texts.contains j then [.closeFile j.path] else []) k.path = none ∧
      EachAfter (Fits k.path) (s ++ if texts.contains j then [.closeFile j.path] else []) := by
  have hopen := h.isSome_filesOf hj
  cases hknown : texts.contains j with
  | true =>
    rw [if_pos rfl, filesOf_concat, after_closeFile, if_pos hpath]
    exact ⟨rfl, h.fits.concat ⟨nofun, fun _ => hopen.trans hknown⟩⟩
  | false =>
    rw [if_neg (by decide), List.append_nil]
    exact ⟨Option.isSome_eq_false_iff.1 (hopen.trans hknown) |> Option.isNone_iff_eq_none.1, h.fits⟩

/-- A document is given to the server. -/
theorem given (h : Recorded k ms texts s) (hm : m.document? = some d)
    (hspelt : (d.key == k) = true → d.key.path = k.path) (hkind : scriptKind? d.language = some kind) :
    Recorded k (ms ++ [m]) (texts.put d.key d.text)
      (s ++ ((if texts.contains d.key then [.closeFile d.key.path] else []) ++
        [.openFile d.key.path d.text (some kind)])) := by
  rw [← List.append_assoc]
  by_cases hk : (d.key == k) = true
  · have hpath := hspelt hk
    obtain ⟨hnone, hfits⟩ := h.close hk hpath
    have hkept : isKept k (ms ++ [m]) = true := by
      rw [isKept_concat]
      cases m <;> simp_all [keeps, Move.document?]
    have hopens : Fits k.path (s ++ if texts.contains d.key then [.closeFile d.key.path] else [])
        (.openFile d.key.path d.text (some kind)) :=
      ⟨fun _ _ _ => hnone, fun hclosed => by cases hclosed⟩
    refine ⟨?_, hfits.concat hopens, ?_, fun hno => ?_⟩
    · rw [filesOf_concat, after_openFile, if_pos hpath, Table.get?_put, if_pos hk]
      rfl
    · rw [filesOf_concat, after_openFile, if_pos hpath]
      rintro text kind' ⟨⟩
      exact ⟨d, mem_documents_of_document? hm, hk, rfl, hkind.symm, rfl⟩
    · cases hno.symm.trans hkept
  · have hpath : d.key.path ≠ k.path := path_ne_of_ne hk
    have hsame : (texts.put d.key d.text).get? k = texts.get? k := by
      rw [Table.get?_put, if_neg hk]
    have hclosed : Recorded k ms texts
        (s ++ if texts.contains d.key then [.closeFile d.key.path] else []) := by
      split_ifs
      · exact h.command (by simp) (by simp [hpath])
      · rwa [List.append_nil]
    have hopened := hclosed.command (c := .openFile d.key.path d.text (some kind)) (by simp [hpath])
      (by simp)
    exact (hopened.retable hsame).idle fun hkept => .inl (isKept_of_concat hm hkept)

/-- A document is taken from the server. -/
theorem taken (h : Recorded k ms texts s) (hspelt : (j == k) = true → j.path = k.path)
    (hj : texts.contains j = true) :
    Recorded k (ms ++ [.forget j]) (texts.erase j) (s ++ [.closeFile j.path]) := by
  by_cases hk : (j == k) = true
  · have hclose := h.close hk (hspelt hk)
    rw [if_pos hj] at hclose
    have hnone : (texts.erase j).get? k = none := by rw [Table.get?_erase, if_pos hk]
    refine ⟨?_, hclose.2, ?_, fun _ => hnone⟩
    · rw [hclose.1, hnone]
      rfl
    · rw [hclose.1]
      exact nofun
  · have hpath : j.path ≠ k.path := path_ne_of_ne hk
    have hsame : (texts.erase j).get? k = texts.get? k := by rw [Table.get?_erase, if_neg hk]
    have hclosed := h.command (c := .closeFile j.path) (by simp) (by simp [hpath])
    refine (hclosed.retable hsame).idle fun hkept => .inl ?_
    rw [isKept_concat] at hkept
    simpa [keeps, hk] using hkept

end Recorded

end

/-! ### The server's files and the record -/

/-- The server's files are what the client knows of them. -/
structure Mirrored (ms : List Move) (c : Client) : Prop where
  recorded : ∀ k, SpeltAs k ms → Recorded k ms c.texts c.stream
  /-- Only documents that were given are open. -/
  named : ∀ file, (filesOf c.stream file).isSome = true → ∃ d ∈ documents ms, d.key.path = file

section

variable {ms : List Move} {asked : List (Nat × Snapshot)} {c c' : Client} {mv : Move} {d : Snapshot}
  {k' : Connection} {cs : List Command}

theorem stream_of_gives (h : c.connection.Gives cs k') (texts : Table String) :
    (Client.mk k' texts).stream = c.stream ++ cs := by
  obtain ⟨-, -, new, hnew, rfl⟩ := h
  rw [stream, hnew, List.map_append]
  rfl

namespace Mirrored

theorem named_concat (h : Mirrored ms c) (mv : Move) (file : String)
    (hfile : (filesOf c.stream file).isSome = true) : ∃ d ∈ documents (ms ++ [mv]), d.key.path = file := by
  obtain ⟨d, hd, hpath⟩ := h.named file hfile
  exact ⟨d, mem_documents_concat hd mv, hpath⟩

/-- A move by which nothing is given and nothing is taken away. -/
theorem idle (h : Mirrored ms c) (hm : ∀ k, isKept k (ms ++ [mv]) = false →
    isKept k ms = false ∨ c.texts.get? k = none) : Mirrored (ms ++ [mv]) c :=
  ⟨fun k hspelt => (h.recorded k hspelt.of_concat).idle (hm k), h.named_concat mv⟩

/-- A document is given to the server, unless it is known there or its language is not taken. -/
theorem sync {r : Except Failure Bool} (h : Mirrored ms c) (hs : c.Syncs d (c', r))
    (hm : mv.document? = some d) : Mirrored (ms ++ [mv]) c' := by
  have hidle : Mirrored (ms ++ [mv]) c := h.idle fun k hkept => .inl (isKept_of_concat hm hkept)
  cases hs with
  | refused hkind => exact hidle
  | known hkind hknown => exact hidle
  | given hkind hnew hgives =>
    refine ⟨fun k hspelt => ?_, fun file hfile => ?_⟩
    · have hpath := hspelt.path_eq (Move.key?_of_document? hm)
      rw [stream_of_gives hgives]
      exact (h.recorded k hspelt.of_concat).given hm hpath hkind
    · rw [stream_of_gives hgives, ← List.append_assoc, filesOf_concat, after_openFile] at hfile
      split_ifs at hfile with hpath hknown
      · exact ⟨d, mem_documents_of_document? hm, hpath⟩
      · exact h.named_concat mv file (isSome_filesOf_of_close hfile)
      · rw [List.append_nil] at hfile
        exact h.named_concat mv file hfile

/-- A command that neither opens nor closes a file. -/
theorem command (h : Mirrored ms c) {m : Command} (hm : m.change? = none)
    (hg : c.connection.Gives [m] k') : Mirrored ms { c with connection := k' } := by
  refine ⟨fun k hspelt => ?_, fun file hfile => ?_⟩
  · rw [stream_of_gives hg]
    exact (h.recorded k hspelt).command (by simp [hm]) (by simp [hm])
  · rw [stream_of_gives hg, filesOf_concat, after_of_other (by simp [hm]) (by simp [hm])] at hfile
    exact h.named file hfile

/-- A document is taken from the server, if it was given. -/
theorem forget {j : Key} {r : Except Failure Unit} (h : Mirrored ms c) (hs : c.Forgets j (c', r)) :
    Mirrored (ms ++ [.forget j]) c' := by
  cases hs with
  | unknown hnone =>
    refine h.idle fun k hkept => ?_
    rw [isKept_concat] at hkept
    cases hk : j == k with
    | true => exact .inr (c.texts.get?_congr hk ▸ hnone)
    | false => exact .inl (by simpa [keeps, hk] using hkept)
  | closed hknown hgives =>
    refine ⟨fun k hspelt => ?_, fun file hfile => ?_⟩
    · rw [stream_of_gives hgives]
      exact (h.recorded k hspelt.of_concat).taken (hspelt.path_eq rfl) hknown
    · rw [stream_of_gives hgives] at hfile
      exact h.named_concat _ file (isSome_filesOf_of_close hfile)

/-- Something happens to the connection, which does not end. -/
theorem happened {i : Incident} (h : Mirrored ms c)
    (hcommands : k'.commands = c.connection.commands) :
    Mirrored (ms ++ [.happened i]) { c with connection := k' } := by
  have hstream : stream { c with connection := k' } = c.stream :=
    congrArg (List.map Outgoing.command) hcommands
  have hmirrored : Mirrored ms { c with connection := k' } := by
    refine ⟨?_, ?_⟩ <;> rw [hstream]
    · exact h.recorded
    · exact h.named
  refine hmirrored.idle fun k hkept => .inl ?_
  rw [isKept_concat] at hkept
  simpa [keeps, Move.document?] using hkept

/-- A document is asked about. -/
theorem ask {m : Command} (h : Mirrored ms c) (hlive : c.connection.isOpen = true)
    (hm : m.change? = none) (hd : mv.document? = some d) : Mirrored (ms ++ [mv]) (c.ask d m).1 := by
  obtain ⟨hkind, hask⟩ | ⟨c₁, hs, hlive₁, hask⟩ := ask_cases hlive d m
  · rw [hask]
    exact h.sync (.refused hkind) hd
  · rw [hask]
    exact (h.sync hs hd).command hm (Connection.gives_call hlive₁ m true)

end Mirrored

theorem Run.mirrored (h : Run ms asked c) (hlive : c.connection.isOpen = true) : Mirrored ms c := by
  induction h with
  | start => exact ⟨fun k _ => .start, nofun⟩
  | @move ms asked c c' m _ hm ih =>
    have hopen := isOpen_of_move? hm hlive
    have ih := ih hopen
    cases m with
    | sync d =>
      cases hm
      exact ih.sync (c.syncs hopen d) rfl
    | forget k =>
      cases hm
      exact ih.forget (c.forgets hopen k)
    | askInfo d p =>
      cases hm
      exact ih.ask hopen rfl rfl
    | askRemarks d =>
      cases hm
      exact ih.ask hopen rfl rfl
    | happened i =>
      obtain ⟨hi, k, hk, rfl⟩ := step?_of_move? hm
      exact ih.happened ((Connection.steps_of_step? hk).commands_eq hi hlive).2.2

/-! ### The files of a run -/

/-- When a document has been given to the server it is open there with its text: as the kind of script
it is if the server did not have this text of it, and otherwise as before.  So it is open as the kind
it is unless it was given with the same text as another kind. -/
def Synced (k : Key) (ms : List Move) (c : Client) (d : Snapshot) : Prop :=
  ∃ kind, filesOf (c.sync d).1.stream k.path = some (d.text, some kind) ∧
    (c.texts.get? k ≠ some d.text → scriptKind? d.language = some kind) ∧
    (c.texts.get? k = some d.text → filesOf c.stream k.path = some (d.text, some kind)) ∧
    ((∀ d' ∈ documents ms, (d'.key == k) = true → d'.text = d.text →
      ∀ kind', scriptKind? d'.language = some kind' → scriptKind? d.language = some kind') →
        scriptKind? d.language = some kind)

/-- How a document stands on the server, whose open files are what the commands make of them. -/
structure Agrees (k : Key) (ms : List Move) (c : Client) : Prop where
  record : (filesOf c.stream k.path).map Prod.fst = c.texts.get? k
  /-- It is opened only if it is not open, and closed only if it is. -/
  fits : ∀ before m after, c.stream = before ++ m :: after → Fits k.path before m
  synced : ∀ d, (d.key == k) = true → d.key.path = k.path → (c.sync d).2 = .ok true →
    Synced k ms c d
  taken : isKept k ms = false → filesOf c.stream k.path = none

theorem Recorded.synced {k : Key} (h : Recorded k ms c.texts c.stream)
    (hlive : c.connection.isOpen = true) (hk : (d.key == k) = true) (hpath : d.key.path = k.path)
    (hd : (c.sync d).2 = .ok true) : Synced k ms c d := by
  have hs := c.syncs hlive d
  unfold Synced
  generalize c.sync d = r at hs hd
  cases hs with
  | refused hkind => cases hd
  | @known kind₀ hkind hknown =>
    rw [c.texts.get?_congr hk] at hknown
    have hrecord := h.record
    rw [hknown] at hrecord
    obtain ⟨⟨text, kind⟩, hfile, rfl⟩ := Option.map_eq_some_iff.1 hrecord
    obtain ⟨d', hd', hk', htext, rfl, hsome⟩ := h.origin _ _ hfile
    obtain ⟨kind, hkind'⟩ := Option.isSome_iff_exists.1 hsome
    rw [hkind'] at hfile
    exact ⟨kind, hfile, fun hne => absurd hknown hne, fun _ => hfile,
      fun hsame => hsame d' hd' hk' htext kind hkind'⟩
  | @given kind _ hkind hnew hgives =>
    refine ⟨kind, ?_, fun _ => hkind, fun hknown => ?_, fun _ => hkind⟩
    · rw [stream_of_gives hgives, ← List.append_assoc, filesOf_concat, after_openFile, if_pos hpath]
    · exact absurd (c.texts.get?_congr hk ▸ hknown) hnew

end

/-! ### A document in two versions, two languages and two spellings -/

/-- A document. -/
def sample (language text : String) : Snapshot := ⟨⟨"/p/a.ts"⟩, language, text⟩

end Client

end AnySpans.Server
