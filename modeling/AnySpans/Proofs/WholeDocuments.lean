import AnySpans.Documents.Registry
import AnySpans.Proofs.WellFormed

/-!
# Requests for whole documents

A text has as many lines for its index as it has line feeds, and one more (`lineCount_ofText`).  A
position in it lies on one of them, so a request for the whole document plans, once the document has
been opened, a set of lines that every node of a lowered tree touches; and a walk that leaves out no
node is the walk over everything (`findIdentifiers_of_wanted`).
-/

namespace AnySpans.Text.LineIndex

variable {text : List Char} {i : Nat}

/-- Lines are counted by their line feeds; after the last one there is another line. -/
theorem lineCount_ofText (text : List Char) : (ofText text).lineCount = text.count '\n' + 1 := by
  rw [lineCount, ofText, List.length_cons, length_startsAfter]

/-- A position lies on a line that the index counts. -/
theorem position_line_lt_lineCount (h : Boundary text i) :
    ((ofText text).position text i).line < (ofText text).lineCount := by
  obtain ⟨before, after, rfl, rfl⟩ := h
  rw [position_of_append_mod, lineCount_ofText, List.count_append]
  exact Nat.lt_succ_of_le (Nat.le_trans (Nat.mod_le _ _) (Nat.le_add_right _ _))

end AnySpans.Text.LineIndex

namespace AnySpans.Syntax

open AnySpans.Lines AnySpans.Text

section

variable {t : Tree} {interest : Option IntervalSet}

theorem walkFrom_of_wanted (h : ∀ i n, t.get? i = some n → isWanted interest n = .ok true)
    (depth : Nat) (parent : Option NodeId) (id : NodeId) (w : Walk) :
    walkFrom t interest depth parent id w = walkFrom t none depth parent id w := by
  induction depth generalizing parent id w with
  | zero => rfl
  | succ depth ih =>
    rw [walkFrom, walkFrom]
    cases hn : t.get? id with
    | none => rfl
    | some n =>
      have hnone : isWanted none n = .ok true := rfl
      simp only [h id n hn, hnone, ih]

/-- A walk over everything does not fail. -/
theorem exists_walkFrom_none (t : Tree) (depth : Nat) (parent : Option NodeId) (id : NodeId)
    (w : Walk) : ∃ w', walkFrom t none depth parent id w = .ok w' := by
  induction depth generalizing parent id w with
  | zero => exact ⟨w, rfl⟩
  | succ depth ih =>
    have hall : ∀ (ids : List NodeId) (w : Walk),
        ∃ w', ids.foldlM (fun w c => walkFrom t none depth (some id) c w) w = .ok w' := by
      intro ids
      induction ids with
      | nil => exact fun w => ⟨w, rfl⟩
      | cons c ids ihids =>
        intro w
        obtain ⟨w₁, hw₁⟩ := ih (some id) c w
        obtain ⟨w₂, hw₂⟩ := ihids w₁
        exact ⟨w₂, by rw [List.foldlM_cons, hw₁]; exact hw₂⟩
    rw [walkFrom]
    cases hn : t.get? id with
    | none => exact ⟨_, rfl⟩
    | some n => exact hall n.children _

theorem exists_findIdentifiers_none (t : Tree) : ∃ s, findIdentifiers t none = .ok s := by
  obtain ⟨w, hw⟩ := exists_walkFrom_none t (t.size + 1) none t.root
    ⟨[], Array.replicate t.size none, 0⟩
  unfold findIdentifiers
  split
  · exact ⟨_, rfl⟩
  · exact ⟨_, by rw [hw]; rfl⟩

/-- A walk that leaves out no node is the walk over everything. -/
theorem findIdentifiers_of_wanted
    (h : ∀ i n, t.get? i = some n → isWanted interest n = .ok true) :
    findIdentifiers t interest = findIdentifiers t none := by
  unfold findIdentifiers
  rw [walkFrom_of_wanted h]

end

/-- The lines of a node are lines of the text. -/
theorem Covered.exists_lines {text : List Char} {a : Arena} (h : Covered text a)
    (hsize : byteLength text ≤ limit) {n : Node} (hn : n ∈ a) :
    ∃ ls, n.lines = .ok ls ∧ ls.stop < (LineIndex.ofText text).lineCount := by
  obtain ⟨s, hs, hr⟩ := h n hn
  have hforward : n.range.Forward := by
    rw [hr]
    exact Position.line_le (Document.range_forward hsize hs)
  have hstop : n.range.stop.line < (LineIndex.ofText text).lineCount := by
    rw [hr]
    exact LineIndex.position_line_lt_lineCount hs.stop
  exact ⟨_, Range.lines_of_forward hforward, hstop⟩

end AnySpans.Syntax

namespace AnySpans.Documents

open AnySpans.Lines AnySpans.Text AnySpans.Syntax

theorem Registry.session?_open' {r : Registry} {k : Key} (h : r.isOpen k = false) :
    (r.open' k).session? k = some (.new (r.opened + 1) r.tokens) := by
  rw [Registry.open', h, if_neg Bool.false_ne_true, Registry.session?, Table.get?_put,
    if_pos BEq.rfl]

/-- In a document that was just opened all lines of a request are to be looked at. -/
theorem Registry.plan_open' {r : Registry} {k : Key} (h : r.isOpen k = false) {visible : LineRange}
    {line : Nat} (hline : line ∈ visible) (hlimit : line < limit) (d : Dialect) :
    (r.open' k).plan k visible d =
      .work ⟨k, r.opened + 1, 0⟩ (.ofRange visible) r.tokens none := by
  have hsome : (IntervalSet.ofRange visible).isEmpty = false := by
    refine Bool.eq_false_iff.2 fun hempty => ?_
    exact IntervalSet.not_mem_of_isEmpty _ hempty line
      ((IntervalSet.mem_ofRange_iff visible line).2 ⟨hline, hlimit⟩)
  rw [Registry.plan, session?_open' h]
  simp only [Session.uncovered, Session.current?, Session.tree?, Session.new, Option.filter_none,
    Option.map_none, hsome, if_neg Bool.false_ne_true]

/-- The lines of a request for a whole document touch every range of lines in its text, if the text
has less than `2 ^ 32 - 1` bytes. -/
theorem Request.whole_intersects {d : Snapshot} (hsize : byteLength d.text.toList < limit)
    {ls : LineRange} (hls : ls.stop ≤ d.lastLine) :
    (IntervalSet.ofRange (Request.whole d).visible).intersects ls = true := by
  have hlast : d.lastLine ≤ byteLength d.text.toList :=
    Nat.le_trans List.count_le_length (length_le_byteLength _)
  have hstart := ls.ordered
  have hlimit : ls.start < limit := by omega
  refine (IntervalSet.intersects_iff _ _).2 ⟨ls.start, ?_, ?_, hlimit⟩
  · refine (IntervalSet.mem_ofRange_iff _ _).2 ⟨⟨Nat.zero_le _, ?_⟩, hlimit⟩
    exact Nat.le_trans hstart hls
  · exact ⟨Nat.le_refl _, hstart⟩

/-- A request for a whole document that was just opened misses nothing: every node of a tree of its
text touches the lines it plans to look at, and looking at them only is looking at everything. -/
theorem whole_request_complete {d : Snapshot} {t : Concrete} (ht : t.Placed d.text.toList)
    (hsize : byteLength d.text.toList < limit) {r : Registry} (hclosed : r.isOpen d.key = false)
    (dialect : Dialect) :
    (LineIndex.ofText d.text.toList).lineCount = d.lastLine + 1 ∧
    ∃ ticket lines token,
      (r.open' d.key).plan (Request.whole d).key (Request.whole d).visible dialect =
        .work ticket lines token none ∧
      (∀ n ∈ (lower d.text.toList t).nodes, ∃ ls, n.lines = .ok ls ∧ lines.intersects ls = true) ∧
      ∃ s, findIdentifiers (lower d.text.toList t) (some lines) = .ok s ∧
        findIdentifiers (lower d.text.toList t) none = .ok s := by
  have hcount := LineIndex.lineCount_ofText d.text.toList
  have hcovered : Covered d.text.toList (lower d.text.toList t).nodes :=
    covered_lowerNode ht none (.empty _)
  have hlines : ∀ n ∈ (lower d.text.toList t).nodes, ∃ ls, n.lines = .ok ls ∧
      (IntervalSet.ofRange (Request.whole d).visible).intersects ls = true := by
    intro n hn
    obtain ⟨ls, hls, hstop⟩ := hcovered.exists_lines (Nat.le_of_lt hsize) hn
    rw [hcount] at hstop
    exact ⟨ls, hls, Request.whole_intersects hsize (Nat.le_of_lt_succ hstop)⟩
  have hfirst : 0 ∈ (Request.whole d).visible := ⟨Nat.le_refl _, Nat.zero_le _⟩
  refine ⟨hcount, _, _, _, Registry.plan_open' hclosed hfirst (by decide) dialect, hlines, ?_⟩
  obtain ⟨s, hs⟩ := exists_findIdentifiers_none (lower d.text.toList t)
  refine ⟨s, ?_, hs⟩
  rw [← hs]
  refine findIdentifiers_of_wanted fun i n hn => ?_
  obtain ⟨ls, hls, hmeets⟩ := hlines n (Array.mem_of_getElem? hn)
  simp only [isWanted, hls, Except.map, hmeets]

/-- The text of two lines in which an object is taken apart, as a document. -/
def destructuring : Snapshot := ⟨⟨"/a.ts"⟩, "typescript", String.ofList Destructuring.text⟩

open Destructuring in
/-- Asked for as a whole, the document has eighteen nodes to look at. -/
theorem whole_request_of_destructuring :
    tree.Placed destructuring.text.toList ∧ byteLength destructuring.text.toList < limit ∧
      Registry.empty.isOpen destructuring.key = false ∧ destructuring.lastLine = 1 ∧
      ∃ ticket lines token s,
        (Registry.empty.open' destructuring.key).plan (Request.whole destructuring).key
          (Request.whole destructuring).visible .typeScript = .work ticket lines token none ∧
        findIdentifiers (lower destructuring.text.toList tree) (some lines) = .ok s ∧
        s.visited = 18 := by
  have htext : destructuring.text.toList = text := String.toList_ofList
  have hplaced : tree.Placed destructuring.text.toList := htext ▸ placed_tree
  have hsize : byteLength destructuring.text.toList < limit := by
    rw [htext]
    decide +kernel
  have hclosed : Registry.empty.isOpen destructuring.key = false := rfl
  have hlast : destructuring.lastLine = 1 := by
    rw [Snapshot.lastLine, htext]
    decide +kernel
  obtain ⟨-, ticket, lines, token, hplan, -, s, hs, hall⟩ :=
    whole_request_complete hplaced hsize hclosed .typeScript
  refine ⟨hplaced, hsize, hclosed, hlast, ticket, lines, token, s, hplan, hs, ?_⟩
  have hvisited : (findIdentifiers (lower text tree) none).map Selection.visited = .ok 18 := by
    decide +kernel
  rw [htext] at hall
  rw [hall] at hvisited
  exact Except.ok.inj hvisited

end AnySpans.Documents
