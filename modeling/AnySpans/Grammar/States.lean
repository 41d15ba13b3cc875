import AnySpans.Grammar.Contexts

/-!
# Parse states

A state is a set of places, each with the tokens that may follow its finished node.  States are made
when a parse first reaches them: `Automaton` numbers the states made so far, `Automaton.goto` moves
a state over a symbol, and `Automaton.actions` says what to do at a token.  Where reading on and
closing a node are both possible, the strengths decide; what they leave undecided stays as several
actions, and the parse follows them all.  State 0 is where skipped text is collected and state 1 is
where a parse starts.
-/

namespace AnySpans.Grammar

/-- What to do at a token. -/
inductive Action where
  /-- Read the token and go to a state. -/
  | shift (state : Nat)
  /-- Read the token, which may stand anywhere, and stay. -/
  | skip
  /-- Close a node of rule `head` with `count` children. -/
  | reduce (head count : Nat) (closing : Closing)
  | accept
  /-- Take the token into the skipped text. -/
  | recover
deriving Inhabited

/-- A set of places with the tokens that may follow each one's finished node. -/
structure State where
  kernel : Array (Nat × TokenSet)
  /-- The tokens that may follow a node of each rule that can begin here. -/
  expected : Array TokenSet
  /-- The tokens that some production reads next. -/
  readable : TokenSet
  /-- The tokens at which some production ends. -/
  closable : TokenSet
deriving Inhabited

/-- The states made so far. -/
structure Automaton where
  tables : Tables
  contexts : Thunk Contexts
  states : Array State
  numbers : Std.HashMap (Array (Nat × TokenSet)) Nat
  moves : Std.HashMap (Nat × Symbol) Nat
  decided : Std.HashMap (Nat × Nat) (List Action)
deriving Inhabited

/-- The state in which skipped text is collected. -/
def errorState : Nat := 0

/-- The state in which a parse starts. -/
def startState : Nat := 1

/-! ### Making states -/

private def expectAt (t : Tables) (follow : TokenSet) (edges : Array (Step × Nat))
    (expected : Array TokenSet) (work : List Nat) : Array TokenSet × List Nat :=
  edges.foldl (fun (expected, work) (s, next) =>
    match s.symbol with
    | .node id =>
      let place := t.place next
      let after := t.following place ||| (if place.closing.isSome then follow else 0)
      let old := expected.getD id 0
      let new := old ||| after
      if new == old then (expected, work) else (expected.set! id new, id :: work)
    | _ => (expected, work)) (expected, work)

/-- The state of a kernel. -/
def State.ofKernel (t : Tables) (kernel : Array (Nat × TokenSet)) : State :=
  let none : Array TokenSet := Array.replicate t.kinds.size 0
  let (expected, work) := kernel.foldl (fun (expected, work) (id, follow) =>
    expectAt t follow (t.place id).edges expected work) (none, [])
  let expected := spread t (spreadFuel t) expected work
  let readable := (kernel.foldl (fun s (id, _) =>
    (t.place id).edges.foldl (fun s e =>
      match e.1.symbol with
      | .token k => s ||| TokenSet.single k
      | _ => s) s) 0)
  let readable := (Array.range expected.size).foldl (fun s i =>
    if expected.getD i 0 == 0 then s else s ||| t.leading.getD i 0) readable
  let closable := kernel.foldl (fun s (id, follow) =>
    if (t.place id).closing.isSome then s ||| follow else s) 0
  let closable := t.empties.foldl (fun s head => s ||| expected.getD head 0) closable
  ⟨kernel, expected, readable, closable⟩

namespace Automaton

/-- The first states: skipped text, and the start of a document. -/
def ofTables (t : Tables) (contexts : Thunk Contexts) : Automaton :=
  let start := State.ofKernel t #[(t.roots.getD t.whole 0, TokenSet.single 0)]
  { tables := t
    contexts
    states := #[State.ofKernel t #[], start]
    numbers := (∅ : Std.HashMap _ _).insert start.kernel startState
    moves := ∅
    decided := ∅ }

variable (a : Automaton)

/-- The state with the given number. -/
def state (id : Nat) : State := a.states.getD id default

/-- The number of a kernel's state, made if it is new. -/
def number (kernel : Array (Nat × TokenSet)) : Automaton × Nat :=
  match a.numbers[kernel]? with
  | some id => (a, id)
  | none =>
    let id := a.states.size
    let s := State.ofKernel a.tables kernel
    ({ a with states := a.states.push s, numbers := a.numbers.insert kernel id }, id)

private def successors (s : State) (symbol : Symbol) : Array (Nat × TokenSet) :=
  let fromKernel := s.kernel.foldl (fun out (id, follow) =>
    (a.tables.place id).edges.foldl (fun out (step, next) =>
      if step.symbol == symbol then out.push (next, follow) else out) out) #[]
  let all := (a.tables.starting.getD symbol #[]).foldl (fun out (head, next) =>
    let follow := s.expected.getD head 0
    if follow == 0 then out else out.push (next, follow)) fromKernel
  if all.size ≤ 1 then all
  else
    let sorted := (all.toList.mergeSort fun x y => x.1 ≤ y.1)
    (sorted.foldl (fun (out : List (Nat × TokenSet)) x =>
      match out with
      | [] => [x]
      | y :: rest => if y.1 == x.1 then (y.1, y.2 ||| x.2) :: rest else x :: out) []).reverse.toArray

/-- The state after a symbol; none when no production reads it there. -/
def goto (state : Nat) (symbol : Symbol) : Automaton × Option Nat :=
  match a.moves[(state, symbol)]? with
  | some next => (a, if next == errorState then none else some next)
  | none =>
    let kernel := a.successors (a.state state) symbol
    let (a, next) := if kernel.isEmpty then (a, errorState) else a.number kernel
    ({ a with moves := a.moves.insert (state, symbol) next },
      if next == errorState then none else some next)

/-! ### Actions -/

/-- A strength with the rules whose nodes it would make. -/
structure Contender where
  strength : Strength
  heads : List Nat
deriving Inhabited

private def ranksAs (t : Tables) (c : Contender) : Rank → Bool
  | .strength name => c.strength == .named name
  | .node rule => c.heads.any fun h => (t.kinds.getD h default).name == rule

/-- The order of two contenders in one list: whoever is listed first is stronger. -/
private def orderIn (t : Tables) (c d : Contender) :
    Bool → Bool → List Rank → Option Ordering
  | _, _, [] => none
  | sawC, sawD, r :: rs =>
    if ranksAs t c r then (if sawD then some .lt else orderIn t c d true sawD rs)
    else if ranksAs t d r then (if sawC then some .gt else orderIn t c d sawC true rs)
    else orderIn t c d sawC sawD rs

private def orderByRank (t : Tables) (c d : Contender) : Ordering :=
  (t.ranks.findSome? (orderIn t c d false false)).getD .eq

/-- Which of two contenders is stronger. -/
def Contender.order (t : Tables) (c d : Contender) : Ordering :=
  match c.strength, d.strength with
  | .level m, .level n => if m ≠ 0 ∨ n ≠ 0 then compare m n else orderByRank t c d
  | .level m, .unset => if m ≠ 0 then compare m 0 else orderByRank t c d
  | .unset, .level n => if n ≠ 0 then compare 0 n else orderByRank t c d
  | _, _ => orderByRank t c d

/-- The closings that are left at a token, all of one strength, and their sides. -/
structure Reductions where
  actions : List Action := []
  contender : Contender := ⟨.unset, []⟩
  left : Bool := false
  right : Bool := false
  neither : Bool := false
deriving Inhabited

private def addReduction (t : Tables) (r : Reductions) (p : Place) (c : Closing) : Reductions :=
  let action : Action :=
    if p.head == t.whole then .accept else .reduce p.head p.depth c
  let new : Contender := ⟨p.strength, [p.head]⟩
  let sided := fun (r : Reductions) =>
    match p.side with
    | some .left => { r with left := true }
    | some .right => { r with right := true }
    | none => { r with neither := true }
  if r.actions.isEmpty then
    sided { actions := [action], contender := new }
  else
    match new.order t r.contender with
    | .gt => sided { actions := [action], contender := new }
    | .eq => sided { r with
        actions := r.actions ++ [action]
        contender := ⟨p.strength, r.contender.heads ++ [p.head]⟩ }
    | .lt => r

/-- The places of a state that end at a token, shallow ones and early rules first. -/
private def closingPlaces (s : State) (token : Nat) : List (Place × Closing) :=
  let ps := s.kernel.toList.filterMap fun (id, follow) =>
    let p := a.tables.place id
    if follow.testBit token then p.closing.map fun c => (p, c) else none
  let empty := a.tables.empties.toList.filterMap fun head =>
    let p := a.tables.place (a.tables.roots.getD head 0)
    if (s.expected.getD head 0).testBit token then p.closing.map fun c => (p, c) else none
  (ps ++ empty).mergeSort fun x y =>
    x.1.depth < y.1.depth || (x.1.depth == y.1.depth && x.1.head ≤ y.1.head)

/-- The places of a state, past the start of their production, that read on at a token. -/
private def readingPlaces (s : State) (token : Nat) : List Place :=
  s.kernel.toList.filterMap fun (id, _) =>
    let p := a.tables.place id
    if p.depth > 0 && (a.tables.following p).testBit token then some p else none

private def decide (s : State) (token : Nat) (shift : Option Nat) : List Action :=
  let t := a.tables
  let closing := a.closingPlaces s token
  let r := closing.foldl (fun r (p, c) => addReduction t r p c) {}
  match shift with
  | none => r.actions
  | some next =>
    if r.actions.isEmpty then [.shift next]
    else
      let reading := a.readingPlaces s token
      let heads := (reading.map (·.head)) ++ closing.map (·.1.head)
      let repetition := match heads with
        | [] => false
        | h :: _ => (t.kinds.getD h default).auxiliary && heads.all (· == h)
      if repetition then r.actions
      else
        let orders := reading.map fun p => Contender.order t ⟨p.strength, [p.head]⟩ r.contender
        let more := orders.contains .gt
        let less := orders.contains .lt
        if more && !less then [.shift next]
        else if less && !more then r.actions
        else if !less && !more && r.left && !r.right && !r.neither then r.actions
        else if !less && !more && r.right && !r.left && !r.neither then [.shift next]
        else r.actions ++ [.shift next]

/-- What can be closed in a state at a token that does not fit, but may follow in a like context. -/
private def closings (s : State) (token : Nat) : List Action :=
  let t := a.tables
  let c := a.contexts.get
  if c.tokens.testBit token then []
  else
    let ps := s.kernel.toList.filterMap fun (id, follow) =>
      let p := t.place id
      if (c.widen p.head follow).testBit token then p.closing.map fun k => (p, k) else none
    (ps.foldl (fun r (p, k) => addReduction t r p k) {}).actions

/-- What to do in a state at a token. -/
def actions (state token : Nat) : Automaton × List Action :=
  match a.decided[(state, token)]? with
  | some acts => (a, acts)
  | none =>
    let s := a.state state
    let (a, shift) := if s.readable.testBit token then a.goto state (.token token) else (a, none)
    let acts := a.decide s token shift
    let acts :=
      if !acts.isEmpty then acts
      else if a.tables.extras.testBit token then [.skip]
      else if state == errorState then [.recover]
      else a.closings s token
    ({ a with decided := a.decided.insert (state, token) acts }, acts)

/-- The tokens that can be met in a state. -/
def expectedTokens (state : Nat) : TokenSet :=
  let s := a.state state
  s.readable ||| s.closable ||| a.tables.extras

end Automaton

end AnySpans.Grammar
