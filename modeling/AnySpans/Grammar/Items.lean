import AnySpans.Grammar.Production

/-!
# Places inside productions

The productions of one rule share their beginnings: they form a tree whose edges are steps, and a
`Place` is a node of that tree, so a place says how far a production has been read.  `Tables`
holds all places with the sets of tokens that can begin each rule.  A `TokenSet` is a set of token
numbers kept as the bits of a natural number.
-/

namespace AnySpans.Grammar

/-- A set of tokens: token `i` is in it when bit `i` is set. -/
abbrev TokenSet := Nat

namespace TokenSet

/-- The set of one token. -/
def single (token : Nat) : TokenSet := 1 <<< token

/-- The members below a bound, in ascending order. -/
def toList (s : TokenSet) (bound : Nat) : List Nat := (List.range bound).filter s.testBit

end TokenSet

/-- How a finished production makes its node: its weight and the name and field of each child. -/
structure Closing where
  weight : Int
  slots : Array (Option (String × Bool) × Option String)
deriving Inhabited, Repr

/-- How far a production of rule `head` has been read. -/
structure Place where
  head : Nat
  depth : Nat
  /-- Strength and side of the step that led here. -/
  strength : Strength
  side : Option Side
  edges : Array (Step × Nat)
  /-- The production that ends here. -/
  closing : Option Closing
deriving Inhabited

/-- One symbol that can begin a rule: what it leads to, which tokens follow it there, and whether
the rule may end right after it. -/
structure Opening where
  node : Nat
  followers : TokenSet
  last : Bool
deriving Inhabited

/-- A grammar made ready for states. -/
structure Tables where
  tokens : Array Token
  kinds : Array NodeKind
  ranks : List (List Rank)
  places : Array Place
  /-- The first place of each rule. -/
  roots : Array Nat
  /-- The tokens that can begin each rule. -/
  first : Array TokenSet
  /-- The tokens with which a production of each rule itself begins. -/
  leading : Array TokenSet
  openings : Array (Array Opening)
  /-- The rules, with the places reached, that have a production beginning with the symbol. -/
  starting : Std.HashMap Symbol (Array (Nat × Nat))
  /-- The rules with an empty production. -/
  empties : Array Nat
  /-- Tokens that may stand anywhere. -/
  extras : TokenSet
  /-- The token literal words are special cases of. -/
  word : Nat
deriving Inhabited

/-! ### Building the places -/

private def addStep (head depth : Nat) (places : Array Place) (at' : Nat) (s : Step) :
    Array Place × Nat :=
  match (places.getD at' default).edges.find? (fun e => e.1 == s) with
  | some (_, next) => (places, next)
  | none =>
    let next := places.size
    let places := places.push ⟨head, depth, s.strength, s.side, #[], none⟩
    (places.modify at' fun p => { p with edges := p.edges.push (s, next) }, next)

private def addSteps (head : Nat) : Nat → Array Place → Nat → List Step → Array Place × Nat
  | _, places, at', [] => (places, at')
  | depth, places, at', s :: rest =>
    let (places, next) := addStep head depth places at' s
    addSteps head (depth + 1) places next rest

private def addProduction (head root : Nat) (places : Array Place) (p : Production) : Array Place :=
  let (places, last) := addSteps head 1 places root p.steps
  places.modify last fun q =>
    if q.closing.isSome then q
    else { q with closing := some ⟨p.weight, (p.steps.map fun s => (s.rename, s.field)).toArray⟩ }

private def buildPlaces (kinds : Array NodeKind) : Array Place × Array Nat :=
  kinds.toList.zipIdx.foldl (fun (places, roots) (k, head) =>
    let root := places.size
    let places := places.push ⟨head, 0, .unset, none, #[], none⟩
    (k.productions.foldl (addProduction head root) places, roots.push root)) (#[], #[])

/-! ### Sets of first tokens -/

private def symbolFirst (first : Array TokenSet) : Symbol → TokenSet
  | .token id => TokenSet.single id
  | .node id => first.getD id 0
  | .body _ => 0

private def edgeFirst (first : Array TokenSet) (edges : Array (Step × Nat)) : TokenSet :=
  edges.foldl (fun s e => s ||| symbolFirst first e.1.symbol) 0

private def growFirst (places : Array Place) (roots : Array Nat) :
    Nat → Array TokenSet → Array TokenSet
  | 0, first => first
  | rounds + 1, first =>
    let next := roots.map fun root => edgeFirst first (places.getD root default).edges
    if next == first then first else growFirst places roots rounds next

private def mergeOpening (os : Array Opening) (o : Opening) : Array Opening :=
  match os.findIdx? (fun x => x.node == o.node) with
  | some i => os.modify i fun x => ⟨x.node, x.followers ||| o.followers, x.last || o.last⟩
  | none => os.push o

private def openingsOf (places : Array Place) (first : Array TokenSet) (root : Nat) :
    Array Opening :=
  (places.getD root default).edges.foldl (fun os (s, next) =>
    match s.symbol with
    | .node id =>
      let place := places.getD next default
      mergeOpening os ⟨id, edgeFirst first place.edges, place.closing.isSome⟩
    | _ => os) #[]

private def leadingOf (places : Array Place) (root : Nat) : TokenSet :=
  (places.getD root default).edges.foldl (fun s e =>
    match e.1.symbol with
    | .token id => s ||| TokenSet.single id
    | _ => s) 0

private def startingOf (places : Array Place) (roots : Array Nat) :
    Std.HashMap Symbol (Array (Nat × Nat)) :=
  roots.toList.zipIdx.foldl (fun m (root, head) =>
    (places.getD root default).edges.foldl (fun m (s, next) =>
      m.insert s.symbol ((m.getD s.symbol #[]).push (head, next))) m) ∅

/-- The rule of a whole text: one node of the start rule. -/
private def wholeText : NodeKind :=
  ⟨"", false, false, [⟨[⟨.node 0, .unset, none, none, none⟩], 0⟩]⟩

/-- A grammar made ready for states. -/
def RuleBook.tables (g : RuleBook) : Tables :=
  let tokens := g.tokens.toArray
  let kinds := g.nodeKinds.push wholeText
  let (places, roots) := buildPlaces kinds
  let first := growFirst places roots (kinds.size + 1) (kinds.map fun _ => 0)
  let idOf := fun name => (tokens.findIdx? fun t => t.named && t.name == name).getD 0
  { tokens, kinds, ranks := g.ranks, places, roots, first
    leading := roots.map (leadingOf places)
    openings := roots.map (openingsOf places first)
    starting := startingOf places roots
    empties := (Array.range roots.size).filter fun head =>
      (places.getD (roots.getD head 0) default).closing.isSome
    extras := g.extras.foldl (fun s name => s ||| TokenSet.single (idOf name)) 0
    word := idOf g.word }

namespace Tables

variable (t : Tables)

/-- The place with the given number. -/
def place (id : Nat) : Place := t.places.getD id default

/-- The tokens that can follow at a place within its production. -/
def following (p : Place) : TokenSet := edgeFirst t.first p.edges

/-- The rule of a whole text, the last one. -/
def whole : Nat := t.kinds.size - 1

end Tables

end AnySpans.Grammar
