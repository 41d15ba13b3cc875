import AnySpans.Proofs.Distinct
import AnySpans.Proofs.Findings
import AnySpans.Proofs.Inspections
import AnySpans.Proofs.Obliging

/-!
# Pages of any size

What a check reports (`Server.Knowledge.reported`) follows from the document, the lines that are wanted
and what an honest server knows: the identifiers of type `any` on these lines, less those at errors,
each once and in order.  The size of the pages does not come into it (`page_size_decides_nothing`), as
passes over pages find together what one pass finds.
-/

namespace AnySpans.Server

open AnySpans.CommandLine AnySpans.Documents AnySpans.Report AnySpans.Signature AnySpans.Syntax
  AnySpans.Text

variable {K : Knowledge} {R : Readers} {bounds : Option Bounds} {surface : Bool} {d : Snapshot}
  {dialect : Dialect} {tree : Tree} {r : Range}

/-- A range of a document is reported if it starts on a line that is wanted, its type is `any`, and it
neither overlaps nor touches an error unless these do not matter. -/
def Knowledge.Reports (K : Knowledge) (bounds : Option Bounds) (surface : Bool) (d : Snapshot)
    (r : Range) : Prop :=
  IsWanted bounds d.lastLine r.start.line ∧ (K.answer d r.start).any isAnyType = true ∧
    (surface = true ∨ (K.remarks d).any r.intersects = false)

instance (bounds : Option Bounds) (surface : Bool) (d : Snapshot) (r : Range) :
    Decidable (K.Reports bounds surface d r) := inferInstanceAs (Decidable (_ ∧ _ ∧ _))

/-- The ranges of a document that are to be reported, each once, in the order of their starts. -/
def Knowledge.reported (K : Knowledge) (R : Readers) (bounds : Option Bounds) (surface : Bool)
    (d : Snapshot) : List Range :=
  inOrder (((R.candidates d).map Candidate.range).filter fun r => K.Reports bounds surface d r).dedup

theorem mem_reported : r ∈ K.reported R bounds surface d ↔
    (∃ x ∈ R.candidates d, x.range = r) ∧ K.Reports bounds surface d r := by
  rw [Knowledge.reported, mem_inOrder, List.mem_dedup, List.mem_filter, List.mem_map, decide_eq_true_iff]

/-- The server does not take the language of components. -/
theorem scriptKind?_of_vue {language : String} {text : List Char}
    (h : Dialect.detect language text = some .vue) : scriptKind? language = none := by
  unfold Dialect.detect at h
  split at h
  · cases h
  · cases h
  · rfl
  · cases h

theorem answer_of_vue (h : Dialect.detect d.language d.text.toList = some .vue) (at' : Position) :
    K.answer d at' = none := by
  rw [Knowledge.answer, scriptKind?_of_vue h]
  rfl

/-- No two ranges that are reported start at the same position. -/
theorem eq_of_start_eq_of_reports (hR : R.Orderly)
    (hd : Dialect.detect d.language d.text.toList = some dialect)
    (hparse : R.parse dialect d.text.toList = .ok tree) {a b : Range}
    (ha : a ∈ K.reported R bounds surface d) (hb : b ∈ K.reported R bounds surface d)
    (heq : a.start = b.start) : a = b := by
  obtain ⟨⟨x, hx, rfl⟩, -, hany, -⟩ := mem_reported.1 ha
  obtain ⟨⟨y, hy, rfl⟩, -⟩ := mem_reported.1 hb
  by_cases hvue : dialect = .vue
  · rw [answer_of_vue (hvue ▸ hd)] at hany
    cases hany
  · exact Readers.range_eq_of_start_eq hR hvue hd hparse hx hy heq

theorem strictly_reported (hR : R.Orderly)
    (hd : Dialect.detect d.language d.text.toList = some dialect)
    (hparse : R.parse dialect d.text.toList = .ok tree) :
    (K.reported R bounds surface d).Pairwise fun a b => a.start < b.start :=
  strictly_inOrder (List.nodup_dedup _) fun _ ha _ hb =>
    eq_of_start_eq_of_reports hR hd hparse (mem_inOrder.2 ha) (mem_inOrder.2 hb)

/-- What is to be reported of a document that is not too long can be reported. -/
theorem exists_findings_of_reported (hR : R.Orderly)
    (hd : Dialect.detect d.language d.text.toList = some dialect)
    (hparse : R.parse dialect d.text.toList = .ok tree) (hsize : byteLength d.text.toList < Lines.limit)
    (file : String) :
    ∃ found, (K.reported R bounds surface d).mapM (Finding.of file d.text.toList) = .ok found := by
  refine exists_findings file _ fun r hr => ?_
  obtain ⟨⟨x, hx, rfl⟩, -, hany, -⟩ := mem_reported.1 hr
  by_cases hvue : dialect = .vue
  · rw [answer_of_vue (hvue ▸ hd)] at hany
    cases hany
  · have hle := fun p => hR.coordinates_le hvue hd hparse hx p
    have hstart := hle _ (.inl rfl)
    have hstop := hle _ (.inr rfl)
    omega

end AnySpans.Server

namespace AnySpans.Check

open AnySpans.CommandLine AnySpans.Documents AnySpans.Files AnySpans.Lines AnySpans.Passes
open AnySpans.Report AnySpans.Server AnySpans.Signature AnySpans.Syntax AnySpans.Text

variable {π : Type} {p : Peer π} {K : Knowledge} {patience last : Nat}
  {inv : π → Nat → Files → List Debt → List UInt8 → Prop} {R : Readers} {d : Snapshot}
  {dialect : Dialect} {tree : Tree} {s : Running π} {x : Session} {vs : List LineRange}
  {room n : Nat}

namespace Running

/-- What was shown last of a document is what there is to report of it on the lines that were looked
at. -/
theorem Looks.shown (h : Looks R K patience last inv d dialect tree vs s x n room)
    (hline : ∀ x ∈ R.candidates d, x.range.start.line = x.range.stop.line)
    (hlooked : ∃ line, line < limit ∧ ∃ v ∈ vs, line ∈ v) :
    ∃ ranges, s.world.analyzer.sink.shown? d.key = some ranges ∧ ranges.Nodup ∧
      ∀ r, r ∈ ranges ↔ (∃ x ∈ R.candidates d, x.range = r) ∧
        (r.start.line < limit ∧ ∃ v ∈ vs, r.start.line ∈ v) ∧
        (K.answer d r.start).any isAnyType = true ∧
        (s.world.analyzer.config.surfaceErrors = true ∨ (K.remarks d).any r.intersects = false) := by
  obtain ⟨c, ms, hw⟩ := h.history
  -- some lines were looked at, so there is something to show
  obtain ⟨line, hlooked⟩ := hlooked
  have hchecked := (h.explored.checked line).2 hlooked
  obtain ⟨a, ha⟩ : ∃ a, x.current? = some a := by
    cases hcurrent : x.current? with
    | some a => exact ⟨a, rfl⟩
    | none =>
      rw [Session.checked, hcurrent] at hchecked
      exact absurd hchecked (IntervalSet.not_mem_empty line)
  have hanys : x.anys = a.anys := by
    rw [Session.anys, ha]
    rfl
  have hshown := hw.rendered.inStep d.key (if s.world.analyzer.config.surfaceErrors then x.anys
    else retainActionable x.anys (K.remarks d)) (by
      rw [Analyzer.shown, Registry.shown, h.held.session, Option.bind_some, Session.shown, ha, hanys,
        h.errors]
      rfl)
  have hmem : ∀ r, r ∈ x.anys ↔ (∃ x ∈ R.candidates d, x.range = r) ∧
      (r.start.line < limit ∧ ∃ v ∈ vs, r.start.line ∈ v) ∧
      (K.answer d r.start).any isAnyType = true := by
    intro r
    rw [h.explored.mem_anys, mem_rangesOn_iff, and_assoc]
    refine and_congr_right ?_
    rintro ⟨y, hy, rfl⟩
    rw [touches_iff_of_line (hline y hy) fun line hl => ((h.explored.checked line).1 hl).1,
      h.explored.checked]
  refine ⟨_, hshown, ?_, fun r => ?_⟩
  · split
    · exact h.explored.nodup
    · exact h.explored.nodup.filter _
  · cases s.world.analyzer.config.surfaceErrors with
    | true => simp only [if_true, hmem, true_or, and_true]
    | false =>
      simp only [Bool.false_eq_true, if_false, retainActionable, List.mem_filter, hmem, false_or,
        Bool.not_eq_true', and_assoc]

/-- What a check finds on the lines of a document that it has looked at is what is to be reported. -/
theorem Looks.findings_eq {bounds : Option Bounds} {lines : LineRange} {page : Option Nat}
    (h : Looks R K patience last inv d dialect tree (windows lines page) s x n room)
    (hR : R.Orderly) (hd : Dialect.detect d.language d.text.toList = some dialect)
    (hparse : R.parse dialect d.text.toList = .ok tree)
    (hline : ∀ x ∈ R.candidates d, x.range.start.line = x.range.stop.line)
    (hstart : lines.start < limit)
    (hwanted : ∀ line, line < limit ∧ line ∈ lines ↔ IsWanted bounds d.lastLine line) (file : String) :
    findings s d file =
      ((K.reported R bounds s.world.analyzer.config.surfaceErrors d).mapM
        (Finding.of file d.text.toList)).mapError .broken := by
  obtain ⟨ranges, hshown, hnodup, hmem⟩ := h.shown hline
    ⟨lines.start, hstart, (exists_mem_windows lines page _).2 ⟨Nat.le_refl _, lines.ordered⟩⟩
  replace hmem : ∀ r, r ∈ ranges ↔
      r ∈ K.reported R bounds s.world.analyzer.config.surfaceErrors d := by
    intro r
    rw [hmem, exists_mem_windows, hwanted, mem_reported]
    rfl
  have hsorted : inOrder ranges = K.reported R bounds s.world.analyzer.config.surfaceErrors d := by
    refine inOrder_unique hnodup (List.nodup_dedup _) (fun r => (hmem r).trans mem_inOrder)
      fun a ha b hb => eq_of_start_eq_of_reports hR hd hparse ((hmem a).1 ha) ((hmem b).1 hb)
  rw [← hsorted, findings, hshown]
  rfl

section

variable {fuel : Nat} {s₁ s₂ : Running π} {r : Except Failure (List Range)} {a : Arguments}
  {lines : LineRange}

theorem inspect_of_none (herrors : errorsOf p fuel s d = (s₁, r))
    (hlines : requestedLines a.lines d.lastLine = .ok none) (file : String) :
    inspect p fuel s a d file = (told s₁ d.key r, .ok []) := by
  rw [inspect, herrors, hlines]
  cases r <;> rfl

theorem inspect_of_passes (herrors : errorsOf p fuel s d = (s₁, r))
    (hlines : requestedLines a.lines d.lastLine = .ok (some lines))
    (hpasses : passes p fuel d (windows lines a.pageSize) (told s₁ d.key r) = (s₂, .ok ()))
    (file : String) : inspect p fuel s a d file = (s₂, findings s₂ d file) := by
  rw [inspect, herrors, hlines]
  unfold told at hpasses
  cases r <;> dsimp only at hpasses ⊢ <;> rw [hpasses]

end

/-- An idle program that opens a document and looks at its wanted lines finds what is to be reported. -/
theorem Idle.exists_inspect (hs : Idle R K patience last inv s) (hp : p.Honest K patience last inv)
    (hpos : 0 < patience) (hR : R.Orderly)
    (hd : Dialect.detect d.language d.text.toList = some dialect)
    (hparse : R.parse dialect d.text.toList = .ok tree)
    (hline : ∀ x ∈ R.candidates d, x.range.start.line = x.range.stop.line) {a : Arguments}
    (hlines : ∀ b ∈ a.lines, 0 < b.first ∧ b.first ≤ b.last ∧ b.last ≤ limit)
    (hroom : s.source.exchange.connection.calls + (R.candidates d).length + 3 ≤ last) (file : String) :
    ∃ s' vs x n room m, (∀ fuel, m ≤ fuel → inspect p fuel (s.happen (.opened d.key)) a d file =
        (s', ((K.reported R a.lines s.world.analyzer.config.surfaceErrors d).mapM
          (Finding.of file d.text.toList)).mapError .broken)) ∧
      Looks R K patience last inv d dialect tree vs s' x n (room + 1) := by
  obtain ⟨hsource, hconfig, hquiet, hw, x, held, hnew, hx⟩ := hs.opened d dialect tree
  generalize s.happen (.opened d.key) = s₁ at hsource hconfig hquiet hw held ⊢
  have hcard : (rangesOf R d).card ≤ (R.candidates d).length := by
    refine (List.toFinset_card_le _).trans ?_
    rw [List.length_map]
  have hcalls : s₁.source.exchange.connection.calls + 2 + ((rangesOf R d).card + 1) ≤ last := by
    rw [hsource]
    omega
  obtain ⟨s₂, r, m, herrors, hr, hworld, hquiet₂⟩ := exists_errorsOf hp hpos hquiet
    (hsource ▸ Table.get?_of_keys_eq_nil hs.released.texts d.key) hcalls
  rw [← hworld] at hconfig hw held
  obtain ⟨hconfig₃, x₃, h₃⟩ := exists_looks_of_new hquiet₂ held hnew hx hw (Nat.le_refl _)
    (hconfig ▸ hs.patient) hr
  rw [← hconfig, ← hconfig₃]
  obtain ⟨hnone, hunwanted⟩ | ⟨lines, hsome, hstart, hwanted⟩ := requestedLines_cases hlines
  · -- the document has none of the lines
    have hnothing : K.reported R a.lines (told s₂ d.key r).world.analyzer.config.surfaceErrors d = [] :=
      List.eq_nil_iff_forall_not_mem.2 fun r hr => hunwanted _ (mem_reported.1 hr).2.1
    rw [hnothing]
    exact ⟨_, [], x₃, 0, (rangesOf R d).card, m,
      fun fuel hfuel => inspect_of_none (herrors fuel hfuel) hnone file, h₃⟩
  · obtain ⟨s', x', n, room, m', hpasses, h', hconfig'⟩ :=
      h₃.passes hp hpos hR.nested hd hparse hline (windows lines a.pageSize)
    obtain ⟨room, rfl⟩ := Nat.exists_eq_add_of_le' h'.room_pos
    rw [← hconfig', ← h'.findings_eq hR hd hparse hline hstart hwanted file]
    exact ⟨s', _, x', n, room, max m m', fun fuel hfuel => inspect_of_passes (herrors fuel (by omega))
      hsome (hpasses fuel (by omega)) file, h'⟩

end Running

/-- Where the server is honest, a check of a file whose identifiers do not go over lines finds what is
to be reported, whatever the size of the pages: the identifiers of type `any` on the lines of the
document that are wanted, less those at errors unless these do not matter, each once, one after
another.  Nothing goes on when the check is over. -/
theorem page_size_decides_nothing {place : Surroundings} {a : Arguments} {file : String}
    (hp : p.Honest K patience last inv) (hpos : 0 < patience) (hR : R.Orderly)
    (hs : Running.Idle R K patience last inv s) (hlanguage : languageOfPath file = some d.language)
    (hread : place.store.read (join place.directory file) = .ok d.text)
    (hkey : d.key = ⟨absolute place.directory file⟩)
    (hd : Dialect.detect d.language d.text.toList = some dialect)
    (hparse : R.parse dialect d.text.toList = .ok tree)
    (hline : ∀ x ∈ R.candidates d, x.range.start.line = x.range.stop.line)
    (hlines : ∀ b ∈ a.lines, ∃ text, Bounds.parse text = .ok b)
    (hroom : s.source.exchange.connection.calls + (R.candidates d).length + 3 ≤ last) :
    let reported := K.reported R a.lines s.world.analyzer.config.surfaceErrors d
    (reported.Pairwise fun r r' => r.start < r'.start) ∧
    (byteLength d.text.toList < limit →
      ∃ found, reported.mapM (Finding.of file d.text.toList) = .ok found) ∧
    ∀ page : Option Nat, ∃ s' m, Running.Idle R K patience last inv s' ∧ ∀ fuel, m ≤ fuel →
      checkFile p fuel place { a with pageSize := page } s file =
        (s', (reported.mapM (Finding.of file d.text.toList)).mapError .broken) := by
  intro reported
  refine ⟨strictly_reported hR hd hparse, fun hsize => exists_findings_of_reported hR hd hparse hsize file,
    fun page => ?_⟩
  obtain ⟨s', vs, x, n, room, m, hinspect, h⟩ := hs.exists_inspect (a := { a with pageSize := page })
    hp hpos hR hd hparse hline (fun b hb => (hlines b hb).elim fun _ h => Bounds.of_parse h) hroom file
  obtain ⟨hquiet, hw, hconfig⟩ := h.release
  have hcheck : ∀ fuel, m ≤ fuel → checkFile p fuel place { a with pageSize := page } s file =
      (Running.release s' d.key, (reported.mapM (Finding.of file d.text.toList)).mapError .broken) := by
    intro fuel hfuel
    rw [checkFile, hlanguage]
    dsimp only
    rw [hread]
    dsimp only
    rw [← hkey, hinspect fuel hfuel]
  have hclear : (Running.release s' d.key).Clear := by
    have hclear := clear_checkFile (p := p) hs.toClear (fun j st hst => hs.quiet.done j st hst) m place
      { a with pageSize := page } file
    rwa [hcheck m (Nat.le_refl m)] at hclear
  exact ⟨_, m, ⟨hclear, hw, hquiet, hconfig ▸ h.patient⟩, hcheck⟩

namespace TwoLines

open AnySpans.Passes.TwoLines

theorem orderly_readers : readers.Orderly := by
  refine Readers.orderly_only ⟨⟨?_, by decide⟩, by decide, by decide, by decide⟩ (by decide)
  simp [tree, node, Concrete.Nested, Concrete.NestedIn, Concrete.heading, Span.Within]

/-- A directory with the file of the document. -/
def place : Surroundings :=
  ⟨Store.empty.add "/a.ts" (.file "x\nx".toUTF8.toList false), "/", "/c", []⟩

/-- The first five lines are wanted. -/
def wanted : Arguments := { Arguments.none with lines := some ⟨1, 5⟩ }

/-- A program that has not checked anything yet. -/
def beginning : Running Unit := Schedule.start (.reading readers .builtIn) ⟨.start () 30000, []⟩

theorem read_place : place.store.read (join place.directory "/a.ts") = .ok document.text := by
  have htext : String.fromUTF8? ⟨"x\nx".toUTF8.toList.toArray⟩ = some "x\nx" := by decide +kernel
  have hfind : place.store.find (join place.directory "/a.ts") =
    .ok (.file "x\nx".toUTF8.toList false) := rfl
  rw [Store.read, hfind]
  simp only [bind, Except.bind, htext]
  rfl

theorem honest_signature : (obliging signature).Honest (oneDeclaration signature) 1 5 NothingOwed := by
  refine honest_obliging (by decide) fun n hn command body hbody => ?_
  rw [bytesOf_eq]
  unfold body? at hbody
  split at hbody <;> cases hbody
  · revert n
    decide +kernel
  · revert n
    decide +kernel

theorem reported_document : (oneDeclaration signature).reported readers wanted.lines false document =
    [⟨⟨0, 0⟩, ⟨0, 1⟩⟩, ⟨⟨1, 0⟩, ⟨1, 1⟩⟩] := by
  have hdedup : (((readers.candidates document).map Candidate.range).filter fun r =>
      (oneDeclaration signature).Reports wanted.lines false document r).dedup =
        [⟨⟨0, 0⟩, ⟨0, 1⟩⟩, ⟨⟨1, 0⟩, ⟨1, 1⟩⟩] := by decide +kernel
  rw [Knowledge.reported, hdedup]
  exact List.mergeSort_of_pairwise (by decide)

/-- Both lines are found in pages of a size. -/
def FindsBoth (page : Option Nat) : Prop :=
  ∃ s' n, ∀ fuel, n ≤ fuel →
    checkFile (obliging signature) fuel place { wanted with pageSize := page } beginning "/a.ts" =
      (s', .ok [⟨"/a.ts", 1, 1, 1, 2, "x"⟩, ⟨"/a.ts", 2, 1, 2, 2, "x"⟩])

end TwoLines

open TwoLines AnySpans.Passes.TwoLines in
/-- Without pages, and in pages of one line, two lines or more, both lines are found. -/
theorem two_lines_in_pages :
    FindsBoth none ∧ FindsBoth (some 1) ∧ FindsBoth (some 2) ∧ FindsBoth (some 7) := by
  have hidle : Running.Idle readers (oneDeclaration signature) 1 5 NothingOwed beginning :=
    Running.idle_start _ _ ⟨rfl, rfl⟩ (by decide) (by decide)
  have hcandidates : (readers.candidates document).length = 2 := by decide +kernel
  have hline : ∀ x ∈ readers.candidates document, x.range.start.line = x.range.stop.line := by
    decide +kernel
  have hlines : ∀ b ∈ wanted.lines, ∃ text, Bounds.parse text = .ok b := by
    rintro _ ⟨⟩
    exact ⟨"1:5", rfl⟩
  have hkey : document.key = ⟨absolute place.directory "/a.ts"⟩ := rfl
  have hdetect : Dialect.detect document.language document.text.toList = some .typeScript := rfl
  have hparse : readers.parse .typeScript document.text.toList =
    .ok (lower document.text.toList tree) := rfl
  obtain ⟨-, -, hpages⟩ := page_size_decides_nothing (a := wanted) honest_signature (by decide)
    orderly_readers hidle rfl read_place hkey hdetect hparse hline hlines (by rw [hcandidates]; decide)
  have hfinds : ∀ page, FindsBoth page := by
    intro page
    obtain ⟨s', n, -, hcheck⟩ := hpages page
    refine ⟨s', n, fun fuel hfuel => (hcheck fuel hfuel).trans ?_⟩
    rw [show beginning.world.analyzer.config.surfaceErrors = false from rfl, reported_document]
    rfl
  exact ⟨hfinds _, hfinds _, hfinds _, hfinds _⟩

end AnySpans.Check
