import AnySpans.Syntax.Concrete
import AnySpans.Syntax.Tree
import AnySpans.Text.LineIndex

/-!
# Lowering

`lower` turns the concrete tree of a text into a `Tree`.  Children are lowered before their parents;
tokens without a name and comments vanish, and an expression in parentheses gives its place to what
is inside.  A shorthand member becomes a property whose key and value are two identifiers over the
same text; with a default, its value is an assignment pattern.
-/

namespace AnySpans.Syntax

open AnySpans.Text

/-- The text with what is needed to find positions in it. -/
structure Document where
  text : List Char
  index : LineIndex

/-- A text made ready for lowering. -/
def Document.ofText (text : List Char) : Document := ⟨text, LineIndex.ofText text⟩

namespace Document

variable (d : Document)

/-- The range of a span of bytes. -/
def range (s : Span) : Range := ⟨d.index.position d.text s.start, d.index.position d.text s.stop⟩

/-- The text of a span of bytes; empty when the span cuts a character. -/
def slice (s : Span) : String := String.ofList ((sliceBytes? d.text s.start s.stop).getD [])

end Document

/-- An arena under construction. -/
abbrev Arena := Array Node

/-- The id of the node added next: its index, cut to 32 bits. -/
def Arena.nextId (a : Arena) : NodeId := .ofNat a.size

def Arena.add (a : Arena) (shape : Shape) (range : Range) (children : List NodeId) :
    Arena × NodeId :=
  (a.push ⟨shape, range, children⟩, a.nextId)

def addIdentifier (d : Document) (a : Arena) (s : Span) : Arena × NodeId :=
  a.add (.identifier (d.slice s)) (d.range s) []

/-- A member that is its own value. -/
def addShorthand (d : Document) (a : Arena) (s : Span) : Arena × NodeId :=
  let (a, key) := addIdentifier d a s
  let (a, value) := addIdentifier d a s
  a.add (.property key value false true) (d.range s) [key, value]

/-- The lowered child that fills a field first, if the first child to fill it was lowered at all. -/
def fieldId (children : List Concrete) (ids : List NodeId) (field : String) :
    Option NodeId :=
  match children with
  | [] => none
  | c :: cs =>
    if c.heading.fields.contains field then if c.isSignificant then ids.head? else none
    else fieldId cs (if c.isSignificant then ids.tail else ids) field

/-- The first child that fills a field. -/
def fieldChild (children : List Concrete) (field : String) : Option Concrete :=
  children.find? fun c => c.heading.fields.contains field

/-- A shorthand member with a default: a property whose value assigns the default. -/
def addDefaulted (a : Arena) (kind : String) (range : Range) (left right : Option NodeId)
    (ids : List NodeId) : Arena × NodeId :=
  match left, right with
  | some left, some right =>
    let (a, assign) := a.add (.assignmentPattern left right) range ids
    match a[left.toNat]? with
    | some ⟨.identifier name, at', _⟩ =>
      let (a, key) := a.add (.identifier name) at' []
      a.add (.property key assign false true) range [key, assign]
    | _ => (a, assign)
  | _, _ => a.add (.other kind) range ids

def bothOr (f : NodeId → NodeId → Shape) (kind : String) :
    Option NodeId → Option NodeId → Shape
  | some x, some y => f x y
  | _, _ => .other kind

/-- The shape of a node that is neither an identifier nor a shorthand member. -/
def shapeOf (kind : String) (children : List Concrete) (ids : List NodeId) : Shape :=
  let field := fieldId children ids
  match kind with
  | "pair" | "pair_pattern" =>
    let computed := (fieldChild children "key").any fun c =>
      c.heading.kind == "computed_property_name"
    bothOr (fun key value => .property key value computed false) kind (field "key") (field "value")
  | "object" => .objectExpression ids
  | "object_pattern" => .objectPattern ids
  | "variable_declarator" =>
    match field "name" with
    | some target => .variableDeclarator target (field "value")
    | none => .other kind
  | "assignment_expression" => bothOr .assignmentExpression kind (field "left") (field "right")
  | "assignment_pattern" => bothOr .assignmentPattern kind (field "left") (field "right")
  | "required_parameter" | "optional_parameter" =>
    bothOr .assignmentPattern kind (field "pattern") (field "value")
  | _ => .other kind

/-- Adds the node of a heading whose children are lowered. -/
def addNode (d : Document) (parent : Option String) (h : Heading)
    (children : List Concrete) (ids : List NodeId) (a : Arena) : Arena × NodeId :=
  match h.kind with
  | "identifier" | "property_identifier" | "type_identifier" | "statement_identifier" =>
    addIdentifier d a h.span
  | "shorthand_property_identifier" => addShorthand d a h.span
  | "shorthand_property_identifier_pattern" =>
    if parent = some "object_assignment_pattern" then addIdentifier d a h.span
    else addShorthand d a h.span
  | "object_assignment_pattern" =>
    addDefaulted a h.kind (d.range h.span) (fieldId children ids "left")
      (fieldId children ids "right") ids
  | kind => a.add (shapeOf kind children ids) (d.range h.span) ids

/-- Whether a node is an expression in parentheses with one child that counts. -/
def Concrete.isWrapper (h : Heading) (children : List Concrete) : Bool :=
  h.kind == "parenthesized_expression" && (children.filter Concrete.isSignificant).length == 1

mutual

/-- Lowers a node below a parent of the given kind. -/
def lowerNode (d : Document) (parent : Option String) :
    Concrete → Arena → Arena × List NodeId
  | .node h cs, a =>
    if Concrete.isWrapper h cs then lowerAll d parent cs a
    else
      let (a, ids) := lowerAll d (some h.kind) cs a
      let (a, id) := addNode d parent h cs ids a
      (a, [id])

/-- Lowers the children that count. -/
def lowerAll (d : Document) (parent : Option String) :
    List Concrete → Arena → Arena × List NodeId
  | [], a => (a, [])
  | c :: cs, a =>
    let (a, ids) := if c.isSignificant then lowerNode d parent c a else (a, [])
    let (a, rest) := lowerAll d parent cs a
    (a, ids ++ rest)

end

/-- The lowered tree of a text. -/
def lower (text : List Char) (t : Concrete) : Tree :=
  let (nodes, ids) := lowerNode (.ofText text) none t #[]
  ⟨nodes, ids.headD 0⟩

end AnySpans.Syntax
