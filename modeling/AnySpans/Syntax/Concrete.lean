import AnySpans.Text.Span
import AnySpans.Parsing.Parse

/-!
# Concrete trees

A `Concrete` is the finished tree of a text: every node that shows, tokens included, with its kind,
its bytes and the fields of its parent it fills.  `Concrete.ofSubtree` makes one from the tree of a
parse: hidden nodes give their place to their children, and a child may be called by another name
than its own.  `Concrete.firstFlaw` finds the first place where the text did not fit the grammar.
-/

namespace AnySpans.Syntax

open AnySpans.Text AnySpans.Grammar AnySpans.Parsing

/-- What is wrong with a node itself: its text fits no rule, or it stands for text that is absent. -/
inductive Flaw where
  | error
  | missing
deriving DecidableEq, Repr, Inhabited

/-- What is known about a concrete node apart from its children. -/
structure Heading where
  kind : String
  /-- Nodes of rules and patterns have a name; literal tokens have none. -/
  named : Bool
  /-- Comments and the like, which may stand anywhere. -/
  extra : Bool
  flaw : Option Flaw
  /-- There is a flaw at the node or below it. -/
  flawed : Bool
  span : Span
  /-- The fields of the parent this node fills. -/
  fields : List String
deriving Repr, Inhabited

/-- A finished tree of a text. -/
inductive Concrete where
  | node (heading : Heading) (children : List Concrete)
deriving Inhabited

namespace Concrete

def heading : Concrete → Heading
  | node h _ => h

def children : Concrete → List Concrete
  | node _ cs => cs

/-- The node, filling one more field of its parent. -/
def filling (field : String) : Concrete → Concrete
  | node h cs => node { h with fields := field :: h.fields } cs

/-- Whether a node counts as a child: it has a name and is no comment. -/
def isSignificant (t : Concrete) : Bool := t.heading.named && !t.heading.extra

/-! ### Flaws -/

mutual

/-- The start of the first node, in document order, that is itself flawed.  Nodes without any flaw
below them are not searched. -/
def firstFlaw : Concrete → Option Nat
  | node h cs =>
    if h.flaw.isSome then some h.span.start
    else if h.flawed then firstFlawIn cs
    else none

/-- The start of the first flawed node in a list of trees. -/
def firstFlawIn : List Concrete → Option Nat
  | [] => none
  | c :: cs =>
    match firstFlaw c with
    | some byte => some byte
    | none => firstFlawIn cs

end

end Concrete

/-! ### From the tree of a parse -/

private def kindOf (x : Tables) : Label → String
  | .token id => (x.tokens.getD id default).name
  | .rule id => (x.kinds.getD id default).name
  | .error | .skipped => "ERROR"

private def flawOf (f : Facts) : Option Flaw :=
  if f.label = .error then some .error
  else if f.missing then some .missing
  else none

private def fillFirst (field : Option String) : List Concrete → List Concrete
  | c :: cs => (match field with | some name => c.filling name | none => c) :: cs
  | [] => []

mutual

/-- The nodes that show for a subtree, in front of those in `after`. -/
private def show' (x : Tables) (source : Source) (alias' : Option (String × Bool)) :
    Subtree → List Concrete → List Concrete
  | .mk f cs, after =>
    let called := match alias' with
      | some name => some name
      | none => if f.visible then some (kindOf x f.label, f.named) else none
    match called with
    | some (kind, named) =>
      let t := Subtree.mk f []
      .node { kind, named, extra := f.extra, flaw := flawOf f,
              flawed := f.missing || t.cost != 0,
              span := ⟨source.byte f.start, source.byte f.stop⟩, fields := [] }
        (showAll x source f.slots 0 cs []) :: after
    | none => showAll x source f.slots 0 cs after

/-- The nodes that show for the children of a node whose slots are numbered from `index`. -/
private def showAll (x : Tables) (source : Source)
    (slots : Array (Option (String × Bool) × Option String)) (index : Nat) :
    List Subtree → List Concrete → List Concrete
  | [], after => after
  | c :: cs, after =>
    let after := showAll x source slots (if c.facts.extra then index else index + 1) cs after
    let (alias', field) := if c.facts.extra then (none, none) else slots.getD index (none, none)
    let shown := show' x source alias' c after
    if alias'.isSome || c.facts.visible || c.facts.shownChildren > 0 then fillFirst field shown
    else shown

end

/-- The concrete tree of a finished parse. -/
def ofSubtree (x : Tables) (source : Source) (t : Subtree) : Concrete :=
  match show' x source none t [] with
  | c :: _ => c
  | [] => default

/-- The concrete tree of a text; none only if the parse could not be brought to an end. -/
def readConcrete (l : Language) (text : List Char) : Option Concrete :=
  let source := Source.ofString (String.ofList text)
  (parse l source).map (ofSubtree l.tables source)

end AnySpans.Syntax
