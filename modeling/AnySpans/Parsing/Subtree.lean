import AnySpans.Lexical.Scan

/-!
# Subtrees of a parse

A `Subtree` is a node under construction: a token, or a rule with its children in order.  What a
parse needs to know about it is kept in its `Facts`: its bounds, the cost of the errors inside, the
weight of the productions it was made with, and how many nodes below it show.  `Subtree.node` makes
a node from its children and adds these up.
-/

namespace AnySpans.Parsing

open AnySpans.Text AnySpans.Grammar AnySpans.Lexical

/-- What a node is. -/
inductive Label where
  | token (id : Nat)
  | rule (id : Nat)
  /-- Text that fits no rule. -/
  | error
  /-- Part of such text, while more is being collected. -/
  | skipped
deriving DecidableEq, Repr, Inhabited

/-- A number for each label that orders tokens before rules. -/
def Label.rank (tokens : Nat) : Label → Nat
  | .token id => id
  | .rule id => tokens + id
  | .error => 65535
  | .skipped => 65534

/-! ### Costs of errors -/

def costPerRecovery : Nat := 500
def costPerMissing : Nat := 110
def costPerSkippedTree : Nat := 100
def costPerSkippedRow : Nat := 30
def costPerSkippedByte : Nat := 1

/-- What is known about a node.  `before` is the position where the gap in front of it begins. -/
structure Facts where
  label : Label
  before : Nat
  start : Nat
  stop : Nat
  extra : Bool := false
  missing : Bool := false
  keyword : Bool := false
  visible : Bool := false
  named : Bool := false
  cost : Nat := 0
  weight : Int := 0
  /-- The number of nodes below that show, and of those that show as its own children. -/
  descendants : Nat := 0
  shownChildren : Nat := 0
  slots : Array (Option (String × Bool) × Option String) := #[]
deriving Inhabited

/-- A node under construction. -/
inductive Subtree where
  | mk (facts : Facts) (children : List Subtree)
deriving Inhabited

namespace Subtree

def facts : Subtree → Facts
  | mk f _ => f

def children : Subtree → List Subtree
  | mk _ cs => cs

variable (t : Subtree)

def label : Label := t.facts.label
def isError : Bool := t.label = .error
def isExtra : Bool := t.facts.extra
def isLeaf : Bool := t.children.isEmpty

/-- The cost of the errors in a node. -/
def cost : Nat := if t.facts.missing then costPerMissing + costPerRecovery else t.facts.cost

/-- The number of the token a leaf is. -/
def tokenId : Option Nat :=
  match t.label with
  | .token id => some id
  | _ => none

def isEnd : Bool := t.label = .token 0

/-- The nodes that show, this one included; collected errors count although they do not show. -/
def shownCount : Nat :=
  t.facts.descendants + (if t.facts.visible then 1 else 0) + (if t.label = .skipped then 1 else 0)

def asExtra (extra : Bool) : Subtree → Subtree
  | mk f cs => mk { f with extra := extra } cs

def asToken (id : Nat) (k : Token) : Subtree → Subtree
  | mk f cs => mk { f with label := .token id, visible := k.visible, named := k.named } cs

end Subtree

/-- The leaf of a token. -/
def Subtree.leaf (tables : Tables) (before : Nat) (l : Lexed) : Subtree :=
  match l.token with
  | some id =>
    let k := tables.tokens.getD id default
    .mk { label := .token id, before, start := l.start, stop := l.stop, extra := id == 0,
          keyword := l.keyword, visible := k.visible, named := k.named } []
  | none =>
    .mk { label := .error, before, start := l.start, stop := l.stop, visible := true,
          named := true } []

/-- The leaf of a token that is not in the text. -/
def Subtree.absent (tables : Tables) (at' id : Nat) : Subtree :=
  let k := tables.tokens.getD id default
  .mk { label := .token id, before := at', start := at', stop := at', missing := true,
        visible := k.visible, named := k.named } []

/-- Sums over the children of a node. -/
private structure Totals where
  index : Nat := 0
  cost : Nat := 0
  weight : Int := 0
  descendants : Nat := 0
  shown : Nat := 0

private def addChild (inError : Bool) (slots : Array (Option (String × Bool) × Option String))
    (s : Totals) (c : Subtree) : Totals :=
  let f := c.facts
  let own := if f.label = .skipped then 0 else c.cost
  let skipped :=
    if inError && !f.extra && !(f.label = .error && c.isLeaf) then
      if f.visible then costPerSkippedTree else costPerSkippedTree * f.shownChildren
    else 0
  let renamed := !f.extra && !(f.label = .token 0) && ((slots.getD s.index (none, none)).1).isSome
  let shown := if renamed || f.visible then 1 else f.shownChildren
  { index := if f.extra then s.index else s.index + 1
    cost := s.cost + own + skipped
    weight := s.weight + f.weight
    descendants := s.descendants + f.descendants + (if renamed || f.visible then 1 else 0)
    shown := s.shown + shown }

/-- The node of a label with the given children; an empty one stands at `at'`. -/
def Subtree.node (source : Source) (tables : Tables) (label : Label)
    (slots : Array (Option (String × Bool) × Option String)) (at' : Nat)
    (children : List Subtree) : Subtree :=
  let (before, start) := match children with
    | [] => (at', at')
    | c :: _ => (c.facts.before, c.facts.start)
  let stop := match children.getLast? with
    | none => at'
    | some c => c.facts.stop
  let inError := label = .error || label = .skipped
  let s := children.foldl (addChild inError slots) {}
  let penalty :=
    if inError then
      costPerRecovery + costPerSkippedByte * (source.byte stop - source.byte start)
        + costPerSkippedRow * (source.row stop - source.row start)
    else 0
  let (visible, named) := match label with
    | .error => (true, true)
    | .rule id => let k := tables.kinds.getD id default; (k.visible, k.visible)
    | _ => (false, false)
  .mk { label, before, start, stop, visible, named, cost := s.cost + penalty, weight := s.weight,
        descendants := s.descendants, shownChildren := s.shown, slots } children

/-- Splits off the extras at the end of a list of nodes. -/
def splitTrailingExtras (ts : List Subtree) : List Subtree × List Subtree :=
  let rev := ts.reverse
  ((rev.dropWhile (·.isExtra)).reverse, (rev.takeWhile (·.isExtra)).reverse)

/-- The order of two nodes by their labels, numbers of children and children. -/
def Subtree.order (tokens : Nat) : Nat → List (Subtree × Subtree) → Ordering
  | 0, _ => .eq
  | _, [] => .eq
  | fuel + 1, (x, y) :: rest =>
    match compare (x.label.rank tokens) (y.label.rank tokens) with
    | .eq =>
      match compare x.children.length y.children.length with
      | .eq => Subtree.order tokens fuel (x.children.zip y.children ++ rest)
      | o => o
    | o => o

end AnySpans.Parsing
