import AnySpans.Text.Position

/-!
# Lowered trees

A `Tree` keeps the nodes of a document in an arena.  A node's id is its index, as far as 32 bits hold
it: a node with a greater index has the id of an earlier one.  `Shape` tells apart the few forms that
matter for choosing identifiers; every other node is only walked through.  The children of a node are
what a walk visits below it; the ids inside its shape name some of them.
-/

namespace AnySpans.Syntax

open AnySpans.Lines AnySpans.Text

/-- The index of a node in its tree, a number of 32 bits. -/
abbrev NodeId := UInt32

/-- The forms of nodes. -/
inductive Shape where
  | identifier (name : String)
  /-- A member of an object: with a colon, shorthand, or shorthand with a default. -/
  | property (key value : NodeId) (computed shorthand : Bool)
  /-- An object with its members in order. -/
  | objectExpression (members : List NodeId)
  | objectPattern (members : List NodeId)
  | variableDeclarator (target : NodeId) (value : Option NodeId)
  | assignmentExpression (target value : NodeId)
  | assignmentPattern (target value : NodeId)
  | other (kind : String)
deriving DecidableEq, Repr, Inhabited

/-- A node with the range it covers and its children in document order. -/
structure Node where
  shape : Shape
  range : Range
  children : List NodeId
deriving DecidableEq, Repr, Inhabited

namespace Node

/-- The lines a node touches. -/
def lines (n : Node) : Except Fault LineRange := n.range.lines

end Node

/-- The nodes of a document and the one all others lie below. -/
structure Tree where
  nodes : Array Node
  root : NodeId
deriving DecidableEq, Repr, Inhabited

namespace Tree

variable (t : Tree)

def get? (id : NodeId) : Option Node := t.nodes[id.toNat]?

def size : Nat := t.nodes.size

def isEmpty : Bool := t.size == 0

/-- The form of a node. -/
def shape? (id : NodeId) : Option Shape := (t.get? id).map Node.shape

def isObjectExpression (id : NodeId) : Bool :=
  match t.shape? id with
  | some (.objectExpression _) => true
  | _ => false

def isObjectPattern (id : NodeId) : Bool :=
  match t.shape? id with
  | some (.objectPattern _) => true
  | _ => false

end Tree

end AnySpans.Syntax
