import AnySpans.Parsing.Subtree
import AnySpans.Grammar.States

/-!
# Branching stacks

A parse that meets an ambiguity goes on along several branches.  Their stacks share what they have
in common: a `Cell` points to the cells below it, each through a node of the tree, and a branch is
a cell at the top.  Two branches in the same state at the same place can merge, and a cell then has
several links.  `pop` follows all of them and gives back one slice for each way down.
-/

namespace AnySpans.Parsing

open AnySpans.Text AnySpans.Grammar AnySpans.Lexical

/-- The way from a cell to one below; without a node where an error begins. -/
structure Link where
  below : Nat
  tree : Option Subtree
deriving Inhabited

/-- A cell of the stacks. -/
structure Cell where
  state : Nat
  position : Nat
  links : Array Link
  cost : Nat
  count : Nat
  weight : Int
deriving Inhabited

/-- Whether a branch goes on, waits with a token it cannot use, or is done for. -/
inductive Status where
  | active
  | paused (lookahead : Subtree)
  | halted
deriving Inhabited

/-- A state further down a stack, to which a parse may return after an error. -/
structure Milestone where
  state : Nat
  position : Nat
  depth : Nat
deriving Inhabited

/-- One way of reading the text so far. -/
structure Branch where
  top : Nat
  countAtError : Nat := 0
  status : Status := .active
  summary : Option (Array Milestone) := none
deriving Inhabited

/-- Everything a parse works on. -/
structure Engine where
  source : Source
  lexicon : Lexicon
  automaton : Automaton
  cells : Array Cell
  branches : Array Branch
  finished : Option Subtree := none
  accepted : Nat := 0
deriving Inhabited

/-- Steps of a parse. -/
abbrev Run := StateM Engine

def maxBranches : Nat := 6
def maxBranchOverflow : Nat := 4
def maxLinks : Nat := 8
def maxWays : Nat := 64
def maxSummaryDepth : Nat := 16
def maxCostDifference : Nat := 18 * costPerSkippedTree

namespace Engine

variable (e : Engine)

def tables : Tables := e.automaton.tables
def branch (v : Nat) : Branch := e.branches.getD v default
def cell (id : Nat) : Cell := e.cells.getD id default
def top (v : Nat) : Cell := e.cell (e.branch v).top
def stateOf (v : Nat) : Nat := (e.top v).state
def positionOf (v : Nat) : Nat := (e.top v).position
def isActive (v : Nat) : Bool := (e.branch v).status matches .active
def isPaused (v : Nat) : Bool := (e.branch v).status matches .paused _
def isHalted (v : Nat) : Bool := (e.branch v).status matches .halted

/-- The cost of a branch's errors so far, with that of an error it is in. -/
def costOf (v : Nat) : Nat :=
  let c := e.top v
  let inError := c.state == errorState && ((c.links[0]?).any fun l => l.tree.isNone)
  c.cost + (if e.isPaused v || inError then costPerRecovery else 0)

/-- The end of the text a branch has read, in bytes. -/
def byteOf (v : Nat) : Nat := e.source.byte (e.positionOf v)

def canMerge (v w : Nat) : Bool :=
  let a := e.top v
  let b := e.top w
  e.isActive v && e.isActive w && a.state == b.state && a.position == b.position
    && a.cost == b.cost

end Engine

/-! ### Automaton -/

private def withAutomaton {α : Type} (f : Automaton → Automaton × α) : Run α :=
  modifyGet fun e =>
    let a := e.automaton
    let e := { e with automaton := default }
    let (a, r) := f a
    (r, { e with automaton := a })

def actionsAt (state token : Nat) : Run (List Action) := withAutomaton fun a => a.actions state token

def gotoAt (state : Nat) (symbol : Symbol) : Run (Option Nat) :=
  withAutomaton fun a => a.goto state symbol

/-- The state after a token, as far as some action reads it. -/
def stateAfter (state token : Nat) : Run (Option Nat) := do
  match (← actionsAt state token).getLast? with
  | some (.shift next) => return some next
  | some .skip => return some state
  | _ => return none

/-! ### Cells -/

private def treeCost (t : Option Subtree) : Nat := (t.map Subtree.cost).getD 0
private def treeWeight (t : Option Subtree) : Int := (t.map fun t => t.facts.weight).getD 0
private def treeCount (t : Option Subtree) : Nat := (t.map Subtree.shownCount).getD 0

def setBranch (v : Nat) (f : Branch → Branch) : Run Unit :=
  modify fun e => { e with branches := e.branches.modify v f }

/-- Puts a node on a branch's stack. -/
def push (v : Nat) (tree : Option Subtree) (state : Nat) : Run Unit := do
  let e ← get
  let below := (e.branch v).top
  let c := e.cell below
  let count := c.count + treeCount tree
  let cell : Cell := {
    state
    position := (tree.map fun t => t.facts.stop).getD c.position
    links := #[⟨below, tree⟩]
    cost := c.cost + treeCost tree
    count
    weight := c.weight + treeWeight tree }
  let id := e.cells.size
  modify fun e => { e with
    cells := e.cells.push cell
    branches := e.branches.modify v fun b =>
      { b with top := id, countAtError := if tree.isNone then count else b.countAtError } }

private def equivalent (s : Source) (x y : Option Subtree) : Bool :=
  match x, y with
  | none, none => true
  | some x, some y =>
    x.label = y.label && ((x.cost > 0 && y.cost > 0) ||
      (let f := x.facts
       let g := y.facts
       s.byte f.start - s.byte f.before == s.byte g.start - s.byte g.before
        && s.byte f.stop - s.byte f.start == s.byte g.stop - s.byte g.start
        && x.children.length == y.children.length && f.extra == g.extra))
  | _, _ => false

/-- Adds a way down to a cell, unless it already has an equivalent one. -/
def addLink : Nat → Nat → Link → Run Unit
  | 0, _, _ => return
  | fuel + 1, id, link => do
    let e ← get
    if link.below == id then return
    let cell := e.cell id
    let below := e.cell link.below
    let same := fun (l : Link) => equivalent e.source l.tree link.tree
    match cell.links.findIdx? fun l => same l && l.below == link.below with
    | some i =>
      let old := cell.links.getD i default
      -- a mergeable link before this one takes precedence
      match mergeableBefore e cell below link i with
      | some j => mergeInto fuel id (cell.links.getD j default).below link
      | none =>
        if treeWeight link.tree > treeWeight old.tree then
          modify fun e => { e with cells := e.cells.modify id fun c => { c with
            links := c.links.set! i link
            weight := below.weight + treeWeight link.tree } }
    | none =>
      match mergeableBefore e cell below link cell.links.size with
      | some j => mergeInto fuel id (cell.links.getD j default).below link
      | none =>
        if cell.links.size == maxLinks then return
        modify fun e => { e with cells := e.cells.modify id fun c => { c with
          links := c.links.push link
          count := max c.count (below.count + treeCount link.tree)
          weight := max c.weight (below.weight + treeWeight link.tree) } }
where
  mergeableBefore (e : Engine) (cell below : Cell) (link : Link) (limit : Nat) : Option Nat :=
    (List.range limit).find? fun j =>
      let l := cell.links.getD j default
      let c := e.cell l.below
      equivalent e.source l.tree link.tree && l.below != link.below && c.state == below.state
        && c.position == below.position && c.cost == below.cost
  mergeInto (fuel id target : Nat) (link : Link) : Run Unit := do
    let below := (← get).cell link.below
    addLinks fuel target below.links.toList
    modify fun e => { e with cells := e.cells.modify id fun c => { c with
      weight := max c.weight (below.weight + treeWeight link.tree) } }
  addLinks (fuel target : Nat) : List Link → Run Unit
    | [] => return
    | l :: ls => do
      addLink fuel target l
      addLinks fuel target ls

/-! ### Branches -/

def branchCount : Run Nat := return (← get).branches.size

def removeBranch (v : Nat) : Run Unit :=
  modify fun e => { e with branches := e.branches.eraseIdxIfInBounds v }

def haltBranch (v : Nat) : Run Unit := setBranch v fun b => { b with status := .halted }

/-- Moves branch `v` into the place of branch `w`. -/
def renumber (v w : Nat) : Run Unit := do
  if v == w then return
  let e ← get
  let source := e.branch v
  let target := e.branch w
  let moved := if source.summary.isNone then { source with summary := target.summary } else source
  modify fun e => { e with branches := (e.branches.set! w moved).eraseIdxIfInBounds v }

def swapBranches (v w : Nat) : Run Unit :=
  modify fun e => { e with
    branches := (e.branches.set! v (e.branch w)).set! w (e.branch v) }

def copyBranch (v : Nat) : Run Nat := do
  let e ← get
  let b := { e.branch v with summary := none }
  modify fun e => { e with branches := e.branches.push b }
  return e.branches.size

/-- Merges branch `w` into branch `v` if they can be merged. -/
def merge (v w : Nat) : Run Bool := do
  let e ← get
  if !e.canMerge v w then return false
  let target := (e.branch v).top
  for l in (e.top w).links.toList do
    addLink 64 target l
  let e ← get
  if (e.cell target).state == errorState then
    setBranch v fun b => { b with countAtError := (e.cell target).count }
  removeBranch w
  return true

/-- The number of nodes a branch has read since its last error. -/
def countSinceError (v : Nat) : Run Nat := do
  let e ← get
  let count := (e.top v).count
  if count < (e.branch v).countAtError then
    setBranch v fun b => { b with countAtError := count }
    return 0
  return count - (e.branch v).countAtError

/-- Whether a branch has read anything since its last error. -/
def hasAdvanced (e : Engine) (v : Nat) : Bool :=
  let b := e.branch v
  let c := e.cell b.top
  c.cost == 0 || climb b (e.cells.size + 1) c
where
  climb (b : Branch) : Nat → Cell → Bool
    | 0, _ => false
    | fuel + 1, c =>
      match (c.links[0]? : Option Link) with
      | some ⟨below, some t⟩ =>
        if e.source.byte t.facts.stop > e.source.byte t.facts.before then true
        else if c.count > b.countAtError && t.cost == 0 then climb b fuel (e.cell below)
        else false
      | _ => false

/-! ### Popping -/

/-- A way down a stack: the cell reached, the nodes passed (lowest first) and how many of them
count. -/
structure Way where
  cell : Nat
  trees : List Subtree
  count : Nat
deriving Inhabited

/-- Nodes taken off a stack, with the branch that is left. -/
structure Slice where
  branch : Nat
  trees : List Subtree
deriving Inhabited

private def stepDown (w : Way) (l : Link) : Way :=
  match l.tree with
  | some t => ⟨l.below, t :: w.trees, if t.isExtra then w.count else w.count + 1⟩
  | none => ⟨l.below, w.trees, w.count + 1⟩

/-- Follows all ways down.  `visit` says whether a way ends in a slice and whether it goes on. -/
private def descend {σ : Type} (e : Engine) (visit : σ → Way → Cell → σ × Bool × Bool) :
    Nat → σ → List Way → List Way → σ × List Way
  | 0, s, _, done => (s, done.reverse)
  | _, s, [], done => (s, done.reverse)
  | fuel + 1, s, ways, done =>
    let total := ways.length
    let (s, kept, added, _, done) := ways.foldl (fun (s, kept, added, left, done) w =>
      let c := e.cell w.cell
      let (s, pop, stop) := visit s w c
      let done := if pop then w :: done else done
      if stop || c.links.isEmpty then (s, kept, added, left - 1, done)
      else
        let others := (c.links.toList.drop 1)
        let room := maxWays - (left + added.length)
        let more := (others.take room).map (stepDown w)
        (s, stepDown w (c.links.getD 0 default) :: kept, added ++ more, left, done))
      (s, [], [], total, done)
    descend e visit fuel s (kept.reverse ++ added) done

private def addSlice (v : Nat) (slices : List Slice) (w : Way) : Run (List Slice) := do
  let e ← get
  let sameCell := fun (sl : Slice) => (e.branch sl.branch).top == w.cell
  match (slices.reverse.findIdx? sameCell).map fun i => slices.length - 1 - i with
  | some i =>
    let branch := (slices.getD i default).branch
    return slices.take (i + 1) ++ [⟨branch, w.trees⟩] ++ slices.drop (i + 1)
  | none =>
    let b : Branch := { top := w.cell, countAtError := (e.branch v).countAtError }
    modify fun e => { e with branches := e.branches.push b }
    return slices ++ [⟨e.branches.size, w.trees⟩]

private def slicesOf (v : Nat) : List Slice → List Way → Run (List Slice)
  | slices, [] => return slices
  | slices, w :: ws => do slicesOf v (← addSlice v slices w) ws

private def popBy {σ : Type} (v : Nat) (s : σ) (visit : σ → Way → Cell → σ × Bool × Bool) :
    Run (List Slice) := do
  let e ← get
  let (_, ways) := descend e visit (e.cells.size + 2) s [⟨(e.branch v).top, [], 0⟩] []
  slicesOf v [] ways

/-- Takes a number of nodes off a branch's stack, extras not counted. -/
def popCount (v count : Nat) : Run (List Slice) :=
  popBy v () fun _ w _ => ((), w.count == count, w.count == count)

/-- Takes everything off a branch's stack. -/
def popAll (v : Nat) : Run (List Slice) :=
  popBy v () fun _ _ c => ((), c.links.isEmpty, c.links.isEmpty)

/-- Takes an error off the top of a branch's stack, if one is there. -/
def popError (v : Nat) : Run (List Subtree) := do
  let e ← get
  if (e.top v).links.any fun l => l.tree.any (·.isError) then
    let slices ← popBy v false fun found w _ =>
      match w.trees with
      | [] => (found, false, false)
      | t :: _ => if !found && t.isError then (true, true, true) else (found, false, true)
    match slices with
    | [] => return []
    | sl :: _ =>
      renumber sl.branch v
      return sl.trees
  else return []

/-- Notes the states below the top of a branch's stack. -/
def recordSummary (v : Nat) : Run Unit := do
  let e ← get
  let (found, _) := descend e (fun (found : List Milestone) w c =>
    if w.count > maxSummaryDepth then (found, false, true)
    else
      let known := (found.takeWhile fun m => m.depth ≥ w.count).any fun m =>
        m.depth == w.count && m.state == c.state
      (if known then found else ⟨c.state, c.position, w.count⟩ :: found, false, false))
    (e.cells.size + 2) [] [⟨(e.branch v).top, [], 0⟩] []
  setBranch v fun b => { b with summary := some found.reverse.toArray }

end AnySpans.Parsing
