import AnySpans.Parsing.Stack

/-!
# Closing nodes

`reduce` closes a node on a branch: it takes the children off the stack and puts the node in their
place, once for every way down.  Where several ways end in the same cell, one reading is kept: the
one with cheaper errors, then the one of greater weight, then the one that comes first in the order
of labels.
-/

namespace AnySpans.Parsing

open AnySpans.Text AnySpans.Grammar AnySpans.Lexical

/-- Whether the second reading of the same text is to replace the first. -/
def prefersSecond (tokens : Nat) (first second : Subtree) : Bool :=
  if second.cost < first.cost then true
  else if first.cost < second.cost then false
  else if second.facts.weight > first.facts.weight then true
  else if first.facts.weight > second.facts.weight then false
  else if first.cost > 0 then true
  else Subtree.order tokens (first.facts.descendants * 8 + 100000) [(first, second)] == .gt

private def closeNode (e : Engine) (head : Nat) (c : Closing) (at' : Nat)
    (children : List Subtree) : Subtree :=
  match Subtree.node e.source e.tables (.rule head) c.slots at' children with
  | .mk f cs => .mk { f with weight := f.weight + c.weight } cs

/-- The best reading among slices that end in the same cell, with its trailing extras. -/
private def chooseReading (e : Engine) (head : Nat) (c : Closing) (at' : Nat)
    (first : Subtree × List Subtree) (others : List Slice) : Subtree × List Subtree :=
  others.foldl (fun best sl =>
    let (children, extras) := splitTrailingExtras sl.trees
    let other := closeNode e head c at' children
    if prefersSecond e.tables.tokens.size best.1 other then (other, extras) else best) first

private def pushAll (v : Nat) (state : Nat) : List Subtree → Run Unit
  | [] => return
  | t :: ts => do
    push v (some t) state
    pushAll v state ts

/-- Merges branch `w` into the first earlier branch it can be merged with, `v` left aside. -/
private def mergeIntoEarlier (v w : Nat) : List Nat → Run Bool
  | [] => return false
  | j :: js => do
    if j == v then mergeIntoEarlier v w js
    else if ← merge j w then return true
    else mergeIntoEarlier v w js

private def reduceSlices (v head : Nat) (c : Closing) (halted : Nat) :
    Nat → Nat → List Slice → Run Unit
  | 0, _, _ => return
  | _, _, [] => return
  | fuel + 1, removed, sl :: rest => do
    let w := sl.branch - removed
    let same := rest.takeWhile fun s => s.branch == sl.branch
    let rest := rest.dropWhile fun s => s.branch == sl.branch
    if w > maxBranches + maxBranchOverflow + halted then
      removeBranch w
      reduceSlices v head c halted fuel (removed + 1) rest
    else
      let e ← get
      let (children, extras) := splitTrailingExtras sl.trees
      let at' := e.positionOf w
      let (node, extras) := chooseReading e head c at' (closeNode e head c at' children, extras) same
      let next := (← gotoAt (e.stateOf w) (.node head)).getD errorState
      push w (some node) next
      pushAll w next extras
      let merged ← mergeIntoEarlier v w (List.range w)
      reduceSlices v head c halted fuel (if merged then removed + 1 else removed) rest

/-- Closes a node of rule `head` on branch `v`.  The first new branch, if any is left. -/
def reduce (v head count : Nat) (c : Closing) : Run (Option Nat) := do
  let e ← get
  let before := e.branches.size
  let halted := ((List.range before).filter e.isHalted).length
  let slices ← popCount v count
  reduceSlices v head c halted (slices.length + 1) 0 slices
  let after ← branchCount
  return if after > before then some before else none

/-- Ends a branch: its nodes become a finished tree, kept if it is the best so far. -/
def accept (v : Nat) (lookahead : Subtree) : Run Unit := do
  push v (some lookahead) startState
  let slices ← popAll v
  for sl in slices do
    let e ← get
    let rev := sl.trees.reverse
    let trailing := (rev.takeWhile (·.isExtra)).reverse
    match rev.dropWhile (·.isExtra) with
    | [] => continue
    | t :: below =>
      let trees := below.reverse ++ t.children ++ trailing
      let root := match Subtree.node e.source e.tables t.label t.facts.slots t.facts.start trees with
        | .mk f cs => Subtree.mk f cs
      modify fun e => { e with
        accepted := e.accepted + 1
        finished := match e.finished with
          | none => some root
          | some old => if prefersSecond e.tables.tokens.size old root then some root else some old }
  match slices with
  | [] => haltBranch v
  | sl :: _ =>
    removeBranch sl.branch
    haltBranch v

end AnySpans.Parsing
