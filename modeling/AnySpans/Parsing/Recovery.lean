import AnySpans.Parsing.Reduce

/-!
# Going on after an error

A branch that cannot use the next token is paused, and revived only if no other branch does better.
`handleError` then closes whatever nodes could be closed there, tries to put one missing token in,
and enters the error state.  `recover` looks for a state further down the stack in which the next
token makes sense, wrapping what lies above into an error; besides, it skips the token.  Each
attempt has a cost, and branches that are clearly more costly than another one are dropped.
-/

namespace AnySpans.Parsing

open AnySpans.Text AnySpans.Grammar AnySpans.Lexical

/-! ### Comparing branches -/

/-- How a branch is doing. -/
structure Standing where
  cost : Nat
  count : Nat
  weight : Int
  inError : Bool
deriving Inhabited

/-- Which of two branches is better, and whether the other one should be dropped. -/
inductive Verdict where
  | takeLeft
  | preferLeft
  | even
  | preferRight
  | takeRight
deriving DecidableEq, Inhabited

def standing (v : Nat) : Run Standing := do
  let e ← get
  let paused := e.isPaused v
  let count ← countSinceError v
  return {
    cost := e.costOf v + (if paused then costPerSkippedTree else 0)
    count
    weight := (e.top v).weight
    inError := paused || e.stateOf v == errorState }

def Standing.compare (a b : Standing) : Verdict :=
  if !a.inError && b.inError then
    if a.cost < b.cost then .takeLeft else .preferLeft
  else if a.inError && !b.inError then
    if b.cost < a.cost then .takeRight else .preferRight
  else if a.cost < b.cost then
    if (b.cost - a.cost) * (1 + a.count) > maxCostDifference then .takeLeft else .preferLeft
  else if b.cost < a.cost then
    if (a.cost - b.cost) * (1 + b.count) > maxCostDifference then .takeRight else .preferRight
  else if a.weight > b.weight then .preferLeft
  else if b.weight > a.weight then .preferRight
  else .even

private def anyBetter (v : Nat) (s : Standing) : List Nat → Run Bool
  | [] => return false
  | i :: is => do
    let e ← get
    if i == v || !e.isActive i || e.byteOf i < e.byteOf v then anyBetter v s is
    else
      match s.compare (← standing i) with
      | .takeRight => return true
      | .preferRight => if (← get).canMerge i v then return true else anyBetter v s is
      | _ => anyBetter v s is

/-- Whether some branch, or a finished tree, is better than branch `v` would be at a cost. -/
def betterExists (v : Nat) (cost : Nat) : Run Bool := do
  let e ← get
  if e.finished.any fun t => t.cost ≤ cost then return true
  let count ← countSinceError v
  anyBetter v ⟨cost, count, (e.top v).weight, false⟩ (List.range e.branches.size)

/-! ### Closing whatever can be closed -/

private def sameAction (x y : Nat × Nat × Closing) : Bool :=
  x.1 == y.1 && x.2.1 == y.2.1

private def gatherActions (state : Nat) (reads : Bool) (found : List (Nat × Nat × Closing)) :
    List Nat → Run (Bool × List (Nat × Nat × Closing))
  | [] => return (reads, found)
  | token :: tokens => do
    let acts ← actionsAt state token
    let reads := reads || acts.any fun a => a matches .shift _ || a matches .recover
    let found := acts.foldl (fun found a => match a with
      | .reduce head count c =>
        if found.any (sameAction (head, count, c)) then found else found ++ [(head, count, c)]
      | _ => found) found
    gatherActions state reads found tokens

private def reduceEach (v : Nat) (last : Option Nat) :
    List (Nat × Nat × Closing) → Run (Option Nat)
  | [] => return last
  | (head, count, c) :: rest => do reduceEach v (← reduce v head count c) rest

private def mergeAmong (v : Nat) : List Nat → Run Bool
  | [] => return false
  | j :: js => do if ← merge j v then return true else mergeAmong v js

private def reduceLoop (start first : Nat) (tokens : List Nat) (single : Bool) :
    Nat → Nat → Nat → Bool → Run Bool
  | 0, _, _, reads => return reads
  | fuel + 1, round, v, reads => do
    let count ← branchCount
    if v ≥ count then return reads
    if ← mergeAmong v ((List.range v).filter (· ≥ first)) then
      reduceLoop start first tokens single fuel (round + 1) v reads
    else
      let state := (← get).stateOf v
      let expected := (← get).automaton.expectedTokens state
      let relevant := if state == errorState || single then tokens else tokens.filter expected.testBit
      let (shifts, acts) ← gatherActions state false [] relevant
      let reduced ← reduceEach v none acts
      let again ← (do
        if shifts then return false
        match reduced with
        | some r =>
          if round < maxBranches then
            renumber r v
            return true
          else
            if single then removeBranch v
            return false
        | none =>
          if single then removeBranch v
          return false)
      let reads := reads || shifts
      let next := if again then v else if v == start then count else v + 1
      reduceLoop start first tokens single fuel (round + 1) next reads

/-- Closes every node that can be closed on a branch before the token, or before any token.
Whether the token can then be read.  Before the end of the text anything goes. -/
def reduceAll (v : Nat) (token : Option Nat) : Run Bool := do
  let e ← get
  let token := token.filter (· != 0)
  let tokens := match token with
    | some t => [t]
    | none => (List.range e.tables.tokens.size).filter (· != 0)
  reduceLoop v e.branches.size tokens token.isSome 10000 0 v false

/-! ### Recovering -/

private def recoverSlices (goal : Nat) : Option Nat → List Slice → Run (Option Nat)
  | previous, [] => return previous
  | previous, sl :: rest => do
    if previous == some sl.branch then recoverSlices goal previous rest
    else if (← get).stateOf sl.branch != goal then
      haltBranch sl.branch
      recoverSlices goal previous rest
    else
      let errors ← popError sl.branch
      let trees := match errors with
        | t :: _ => t.children ++ sl.trees
        | [] => sl.trees
      let (trees, extras) := splitTrailingExtras trees
      let e ← get
      unless trees.isEmpty do
        let node := Subtree.node e.source e.tables .error #[] (e.positionOf sl.branch) trees
        push sl.branch (some (Subtree.asExtra true node)) goal
      for t in extras do
        push sl.branch (some t) goal
      recoverSlices goal (some sl.branch) rest

/-- Goes back to a state further down the stack, wrapping what lies above into an error. -/
private def recoverTo (v depth goal : Nat) : Run Bool := do
  let slices ← popCount v depth
  return (← recoverSlices goal none slices).isSome

private def recoverByMilestone (v : Nat) (lookahead previous count cost : Nat) :
    List Milestone → Run Bool
  | [] => return false
  | m :: ms => do
    let e ← get
    let position := e.positionOf v
    if m.state == errorState || e.source.byte m.position == e.source.byte position then
      recoverByMilestone v lookahead previous count cost ms
    else
      let depth := if count > 0 then m.depth + 1 else m.depth
      let wouldMerge := (List.range previous).any fun j =>
        e.stateOf j == m.state && e.positionOf j == position
      if wouldMerge then recoverByMilestone v lookahead previous count cost ms
      else
        let newCost := cost + m.depth * costPerSkippedTree
          + (e.source.byte position - e.source.byte m.position) * costPerSkippedByte
          + (e.source.row position - e.source.row m.position) * costPerSkippedRow
        if ← betterExists v newCost then return false
        if !(← actionsAt m.state lookahead).isEmpty then
          if ← recoverTo v depth m.state then return true
        recoverByMilestone v lookahead previous count cost ms

private def removeHalted : Nat → Nat → Run Unit
  | 0, _ => return
  | fuel + 1, i => do
    let e ← get
    if i ≥ e.branches.size then return
    if !e.isActive i then
      removeBranch i
      removeHalted fuel i
    else removeHalted fuel (i + 1)

private def dropAfter (v : Nat) : Nat → Run Unit
  | 0 => return
  | fuel + 1 => do
    if (← branchCount) > v + 1 then
      removeBranch (v + 1)
      dropAfter v fuel

/-- Goes on from the error state with a token: back to an earlier state where it makes sense, and
past it. -/
def recover (v : Nat) (lookahead : Subtree) : Run Unit := do
  let previous ← branchCount
  let count ← countSinceError v
  let e ← get
  let cost := e.costOf v
  let milestones := ((e.branch v).summary.getD #[]).toList
  let recovered ←
    match lookahead.tokenId with
    | some token => recoverByMilestone v token previous count cost milestones
    | none => pure false
  removeHalted ((← branchCount) + 1) previous
  if lookahead.isEnd then
    let e ← get
    push v (some (Subtree.node e.source e.tables .error #[] (e.positionOf v) [])) startState
    accept v lookahead
    return
  if recovered && (← branchCount) > maxBranches then
    haltBranch v
    return
  let e ← get
  let f := lookahead.facts
  let newCost := cost + costPerSkippedTree
    + (e.source.byte f.stop - e.source.byte f.before) * costPerSkippedByte
    + (e.source.row f.stop - e.source.row f.before) * costPerSkippedRow
  if ← betterExists v newCost then
    haltBranch v
    return
  let isExtra := lookahead.tokenId.any fun t => e.tables.extras.testBit t
  let lookahead := if isExtra then Subtree.asExtra true lookahead else lookahead
  let node := Subtree.node e.source e.tables .skipped #[] f.start [lookahead]
  let node ← (do
    if count > 0 then
      match ← popCount v 1 with
      | [] => return node
      | sl :: more =>
        unless more.isEmpty do dropAfter sl.branch ((← branchCount) + 1)
        renumber sl.branch v
        return Subtree.node e.source e.tables .skipped #[] f.start (sl.trees ++ [node])
    else return node)
  push v (some node) errorState

private def tryMissing (v : Nat) (state lookahead : Nat) : List Nat → Run Bool
  | [] => return false
  | token :: tokens => do
    match ← stateAfter state token with
    | none => tryMissing v state lookahead tokens
    | some next =>
      if next == state then tryMissing v state lookahead tokens
      else
        match ← actionsAt next lookahead with
        | .reduce _ _ _ :: _ =>
          let w ← copyBranch v
          let e ← get
          push w (some (Subtree.absent e.tables (e.positionOf v) token)) next
          if ← reduceAll w (some lookahead) then return true
          tryMissing v state lookahead tokens
        | _ => tryMissing v state lookahead tokens

private def enterError (v previous count : Nat) (lookahead : Option Nat) :
    Nat → Nat → Bool → Run Unit
  | 0, _, _ => return
  | fuel + 1, w, inserted => do
    if w ≥ count then return
    let e ← get
    let state := e.stateOf w
    let inserted ←
      match inserted, lookahead with
      | false, some token =>
        let expected := e.automaton.expectedTokens state
        tryMissing w state token
          ((List.range e.tables.tokens.size).filter fun t => t != 0 && expected.testBit t)
      | _, _ => pure inserted
    push w none errorState
    enterError v previous count lookahead fuel (if w == v then previous else w + 1) inserted

private def mergeNew (v previous : Nat) : Nat → Run Unit
  | 0 => return
  | n + 1 => do
    let _ ← merge v previous
    mergeNew v previous n

/-- Enters the error state on a branch that cannot use its next token. -/
def handleError (v : Nat) (lookahead : Subtree) : Run Unit := do
  let previous ← branchCount
  let _ ← reduceAll v none
  let count ← branchCount
  enterError v previous count lookahead.tokenId (count + 1) v false
  mergeNew v previous (count - previous)
  recordSummary v
  recover v lookahead

end AnySpans.Parsing
