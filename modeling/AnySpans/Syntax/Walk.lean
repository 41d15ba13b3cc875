import AnySpans.Lines.IntervalSet
import AnySpans.Syntax.Tree

/-!
# Choosing identifiers

`findIdentifiers` walks a tree in document order and collects the identifiers whose types should be
asked for.  Given a set of lines, it leaves out every subtree that touches none of them.  The walk
records the parent through which it reached each node; `isSlotName` looks at up to three parents to
recognise a key that only names a slot of an object being taken apart.
-/

namespace AnySpans.Syntax

open AnySpans.Lines AnySpans.Text

/-- The parent each node was last reached through. -/
abbrev Parents := Array (Option NodeId)

namespace Parents

def parent? (p : Parents) (id : NodeId) : Option NodeId := p[id.toNat]?.join

def record (p : Parents) (child parent : NodeId) : Parents :=
  p.setIfInBounds child.toNat (some parent)

end Parents

/-- Whether a node takes the object at `object` apart by a pattern. -/
def takesApart (t : Tree) (holder object : NodeId) : Bool :=
  match t.shape? holder with
  | some (.variableDeclarator target (some value)) => value == object && t.isObjectPattern target
  | some (.assignmentExpression target value) => value == object && t.isObjectPattern target
  | some (.assignmentPattern target value) => value == object && t.isObjectPattern target
  | _ => false

/-- Whether a node is a member whose key is the given node and is not computed. -/
def hasPlainKey (t : Tree) (property id : NodeId) : Bool :=
  match t.shape? property with
  | some (.property key _ false _) => key == id
  | _ => false

/-- Whether a node is a plain key of an object that is taken apart at once, as `x` is in the object
of `const { x } = { x: 2 }`: it only names a slot, and its type is that of the value. -/
def isSlotName (t : Tree) (parents : Parents) (id : NodeId) : Bool :=
  match parents.parent? id with
  | none => false
  | some property =>
    hasPlainKey t property id &&
      match parents.parent? property with
      | none => false
      | some object =>
        t.isObjectExpression object &&
          match parents.parent? object with
          | none => false
          | some holder => takesApart t holder object

/-- An identifier whose type should be asked for. -/
structure Candidate where
  node : NodeId
  name : String
  range : Range
deriving DecidableEq, Repr, Inhabited

/-- The position to ask about. -/
def Candidate.position (c : Candidate) : Position := c.range.start

/-- What a walk found; `visited` counts the nodes it did not leave out. -/
structure Selection where
  candidates : List Candidate
  parents : Parents
  visited : Nat
deriving Repr, Inhabited

/-- The state of a walk: candidates are kept in reverse. -/
structure Walk where
  found : List Candidate
  parents : Parents
  visited : Nat

def isWanted (interest : Option IntervalSet) (n : Node) : Except Fault Bool :=
  match interest with
  | none => .ok true
  | some set => n.lines.map set.intersects

/-- Notes the parent through which a node is reached. -/
def Walk.enter (parent : Option NodeId) (id : NodeId) (w : Walk) : Walk :=
  match parent with
  | some p => { w with parents := w.parents.record id p }
  | none => w

def Walk.visit (t : Tree) (id : NodeId) (n : Node) (w : Walk) : Walk :=
  let w := { w with visited := w.visited + 1 }
  match n.shape with
  | .identifier name =>
    if isSlotName t w.parents id then w else { w with found := ⟨id, name, n.range⟩ :: w.found }
  | _ => w

/-- Visits a node and all below it, at most `depth` levels deep. -/
def walkFrom (t : Tree) (interest : Option IntervalSet) :
    (depth : Nat) → (parent : Option NodeId) → NodeId → Walk → Except Fault Walk
  | 0, _, _, w => .ok w
  | depth + 1, parent, id, w =>
    let w := w.enter parent id
    match t.get? id with
    | none => .ok w
    | some n =>
      match isWanted interest n with
      | .error f => .error f
      | .ok false => .ok w
      | .ok true =>
        n.children.foldlM (fun w c => walkFrom t interest depth (some id) c w) (w.visit t id n)

/-- The identifiers of a tree, or of its subtrees that touch a set of lines, in document order. -/
def findIdentifiers (t : Tree) (interest : Option IntervalSet) : Except Fault Selection :=
  if t.isEmpty then .ok ⟨[], #[], 0⟩
  else
    (walkFrom t interest (t.size + 1) none t.root ⟨[], Array.replicate t.size none, 0⟩).map
      fun w => ⟨w.found.reverse, w.parents, w.visited⟩

end AnySpans.Syntax
