import AnySpans.Parsing.Recovery

/-!
# Parsing a text

`parse` runs the branches of a parse in turn until each has ended.  `advance` reads one token on one
branch, closing nodes first where the automaton says so; `condense` then drops branches that are
clearly worse than another, orders the rest, and revives the best paused one if no other goes on.
The parse ends with a finished tree that is better than anything still under way.
-/

namespace AnySpans.Parsing

open AnySpans.Text AnySpans.Grammar AnySpans.Lexical

/-! ### Tokens -/

private def findToken (x : Lexicon) (s : Source) (expected : TokenSet) (state : Nat)
    (context : Option Lexed) (i : Nat) : Lexed :=
  match context with
  | some l => l
  | none =>
    if state == errorState then x.scanAnything s x.anything i
    else match x.scanPlain s expected expected i with
      | some l => l
      | none => x.scanAnything s expected i

/-- The next token of a branch. -/
def nextToken (v state : Nat) : Run Subtree := do
  let e ← get
  let i := e.positionOf v
  let expected := e.automaton.expectedTokens state
  let context ←
    if state == errorState then pure none
    else
      match e.lexicon.scanContext e.source expected i with
      | none => pure none
      | some l =>
        if l.stop ≤ i then
          let next ← stateAfter state (l.token.getD 0)
          if !hasAdvanced e v || next == some state then pure none else pure (some l)
        else pure (some l)
  return Subtree.leaf e.tables i (findToken e.lexicon e.source expected state context i)

/-! ### One branch -/

/-- What became of the actions at a token: the branch is done with it, or nodes were closed. -/
private inductive Progress where
  | done
  | closed (any : Bool) (last : Option Nat)

private def perform (v state : Nat) (lookahead : Subtree) (any : Bool) (last : Option Nat) :
    List Action → Run Progress
  | [] => return .closed any last
  | .shift next :: _ => do
    push v (some (Subtree.asExtra false lookahead)) next
    return .done
  | .skip :: _ => do
    push v (some (Subtree.asExtra true lookahead)) state
    return .done
  | .accept :: _ => do
    accept v lookahead
    return .done
  | .recover :: _ => do
    recover v lookahead
    return .done
  | .reduce head count c :: rest => do
    let r ← reduce v head count c
    perform v state lookahead true (r <|> last) rest

private def pause (v : Nat) (lookahead : Subtree) : Run Unit := do
  let e ← get
  setBranch v fun b => { b with
    status := .paused lookahead
    countAtError := (e.top v).count }

private def actionsFor (state : Nat) (lookahead : Subtree) : Run (List Action) :=
  match lookahead.tokenId with
  | some token => actionsAt state token
  | none => return []

private def advanceWith (v : Nat) : Nat → Subtree → List Action → Run Unit
  | 0, _, _ => haltBranch v
  | fuel + 1, lookahead, acts => do
    let state := (← get).stateOf v
    match ← perform v state lookahead false none acts with
    | .done => return
    | .closed any last =>
      match last with
      | some r =>
        renumber r v
        let state := (← get).stateOf v
        advanceWith v fuel lookahead (← actionsFor state lookahead)
      | none =>
        if any then haltBranch v
        else
          let word := (← get).tables.word
          let asWord ←
            if lookahead.facts.keyword && lookahead.tokenId != some word then actionsAt state word
            else pure []
          if asWord.isEmpty then pause v lookahead
          else
            let k := (← get).tables.tokens.getD word default
            advanceWith v fuel (Subtree.asToken word k lookahead) asWord

/-- Reads one token on a branch. -/
def advance (v : Nat) : Run Unit := do
  let state := (← get).stateOf v
  let lookahead ← nextToken v state
  advanceWith v 1000000 lookahead (← actionsFor state lookahead)

/-! ### All branches -/

/-- Compares branch `i`, which stands at `s`, with the branches before it.  The place at which to go
on. -/
private def condenseAgainst (s : Standing) : Nat → Nat → Nat → Run Nat
  | 0, i, _ => return i
  | fuel + 1, i, j => do
    if j ≥ i then return i
    let t ← standing j
    match t.compare s with
    | .takeLeft =>
      removeBranch i
      return i - 1
    | .preferLeft | .even =>
      if ← merge j i then return i - 1 else condenseAgainst s fuel i (j + 1)
    | .preferRight =>
      if ← merge j i then return i - 1
      else
        swapBranches i j
        condenseAgainst s fuel i (j + 1)
    | .takeRight =>
      removeBranch j
      condenseAgainst s fuel (i - 1) j

private def condenseAll : Nat → Nat → Option Nat → Run (Option Nat)
  | 0, _, least => return least
  | fuel + 1, i, least => do
    let e ← get
    if i ≥ e.branches.size then return least
    if e.isHalted i then
      removeBranch i
      condenseAll fuel i least
    else
      let s ← standing i
      let least := if s.inError then least else match least with
        | none => some s.cost
        | some c => some (min c s.cost)
      let i ← condenseAgainst s (fuel + 1) i 0
      condenseAll fuel (i + 1) least

private def truncateBranches : Nat → Run Unit
  | 0 => return
  | fuel + 1 => do
    if (← branchCount) > maxBranches then
      removeBranch maxBranches
      truncateBranches fuel

private def revive : Nat → Nat → Nat → Bool → Option Nat → Run (Option Nat)
  | 0, _, _, _, least => return least
  | fuel + 1, i, n, going, least => do
    if i ≥ n then return least
    let e ← get
    match (e.branch i).status with
    | .paused lookahead =>
      if !going && e.accepted < maxBranches then
        let least := some (e.costOf i)
        setBranch i fun b => { b with status := .active }
        handleError i lookahead
        revive fuel (i + 1) n true least
      else
        removeBranch i
        revive fuel i (n - 1) going least
    | _ => revive fuel (i + 1) n true least

/-- Drops and orders branches.  The least cost of a branch that is not in an error. -/
def condense : Run (Option Nat) := do
  let n ← branchCount
  let least ← condenseAll (2 * n + 2) 0 none
  truncateBranches n
  let n ← branchCount
  revive (n + 1) 0 n false least

private def advanceBranch (v last : Nat) : Nat → Run Nat
  | 0 => return last
  | fuel + 1 => do
    if !(← get).isActive v then return last
    advance v
    let position := (← get).positionOf v
    if position > last || (v > 0 && position == last) then return position
    else advanceBranch v last fuel

private def advanceAll (fuel : Nat) : Nat → Nat → Nat → Run Nat
  | 0, _, last => return last
  | rounds + 1, v, last => do
    if v ≥ (← branchCount) then return last
    let last ← advanceBranch v last fuel
    advanceAll fuel rounds (v + 1) last

private def runAll : Nat → Nat → Run Unit
  | 0, _ => return
  | fuel + 1, last => do
    let last ← advanceAll 100000 1000 0 last
    let n ← branchCount
    let least ← condense
    let e ← get
    let better := e.finished.any fun t => match least with
      | none => true
      | some c => t.cost < c
    if better || n == 0 then return
    runAll fuel last

/-- A grammar made ready for parsing. -/
structure Language where
  tables : Tables
  contexts : Thunk Contexts
  lexicon : Lexicon
deriving Inhabited

/-- The language of a grammar. -/
def Language.ofRules (g : RuleBook) : Language :=
  let t := g.tables
  ⟨t, Thunk.mk fun _ => Contexts.ofTables t, Lexicon.ofTables t⟩

/-- The tree of a text; none only if the parse could not be brought to an end. -/
def parse (l : Language) (s : Source) : Option Subtree :=
  let start : Engine := {
    source := s
    lexicon := l.lexicon
    automaton := Automaton.ofTables l.tables l.contexts
    cells := #[{ state := startState, position := 0, links := #[], cost := 0, count := 0, weight := 0 }]
    branches := #[{ top := 0 }] }
  let (_, e) := StateT.run (m := Id) (runAll (1000 + 50 * s.size) 0) start
  e.finished

end AnySpans.Parsing
