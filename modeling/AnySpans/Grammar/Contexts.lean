import AnySpans.Grammar.Items

/-!
# Contexts of rules

`spread` says which tokens may follow the rules that a rule can begin with.  A rule is used in many
contexts, and in each other tokens may follow its node.  Contexts are alike when the same tokens of
two kinds may follow in them: tokens that are found by their context, and literals that begin with
another literal; any other token is found the same way wherever it may stand.  `Contexts` puts the
followers of like contexts together.  A parse closes a node also before a token that may follow it
in a like context only, and finds out later that the token does not fit.
-/

namespace AnySpans.Grammar

/-- Spreads the expectations of the listed rules to the rules they can begin with. -/
def spread (t : Tables) : Nat → Array TokenSet → List Nat → Array TokenSet
  | 0, expected, _ => expected
  | _, expected, [] => expected
  | fuel + 1, expected, id :: work =>
    let follow := expected.getD id 0
    let (expected, work) := (t.openings.getD id #[]).foldl (fun (expected, work) o =>
      let old := expected.getD o.node 0
      let new := old ||| o.followers ||| (if o.last then follow else 0)
      if new == old then (expected, work) else (expected.set! o.node new, o.node :: work))
      (expected, work)
    spread t fuel expected work

/-- Enough fuel for `spread`. -/
def spreadFuel (t : Tables) : Nat := t.kinds.size * 256

/-- Sets of tokens that may follow, by the context tokens among them. -/
abbrev Followers := List (TokenSet × TokenSet)

namespace Followers

/-- The set for the given context tokens. -/
def get (fs : Followers) (context : TokenSet) : TokenSet :=
  ((fs.find? fun f => f.1 == context).map (·.2)).getD 0

/-- Adds tokens to the set of their context tokens; none if they are in it. -/
def add? (fs : Followers) (context tokens : TokenSet) : Option Followers :=
  let old := fs.get context
  if tokens != 0 && (old ||| tokens) == old then none
  else if tokens == 0 && fs.any (fun f => f.1 == context) then none
  else some ((context, old ||| tokens) :: fs.filter fun f => f.1 != context)

end Followers

/-- The contexts of each rule. -/
structure Contexts where
  /-- Tokens that are found by their context. -/
  tokens : TokenSet
  /-- The tokens that tell contexts apart: those, and literals that begin with another one. -/
  telling : TokenSet
  followers : Array Followers
deriving Inhabited

namespace Contexts

/-- The tokens that may follow a rule's node in some context with the same context tokens. -/
def widen (c : Contexts) (rule : Nat) (follow : TokenSet) : TokenSet :=
  (c.followers.getD rule []).get (follow &&& c.telling)

private def isContextToken (k : Token) : Bool :=
  match k.lexeme with
  | .layout _ => true
  | .literal s => s == "||"
  | .pattern p => p == .escape || p == .regexBody
  | .endOfText => false

private def isLonger (ks : List Token) (k : Token) : Bool :=
  match k.lexeme with
  | .literal s => ks.any fun l =>
    match l.lexeme with
    | .literal r => r != "" && r != s && r.toList.isPrefixOf s.toList
    | _ => false
  | _ => false

private def setOf (ks : List Token) (p : Token → Bool) : TokenSet :=
  ks.zipIdx.foldl (fun m (k, i) => if p k then m ||| TokenSet.single i else m) 0

/-- A rule that begins with another one: the tokens that follow the latter, and whether all that
follow the former do. -/
private structure Corner where
  rule : Nat
  own : TokenSet
  passes : Bool

/-- The rules that each rule can begin with, itself included. -/
private def cornersOf (t : Tables) (rule : Nat) : List Corner :=
  let mark := TokenSet.single t.tokens.size
  let none : Array TokenSet := Array.replicate t.kinds.size 0
  let sets := spread t (spreadFuel t) (none.set! rule mark) [rule]
  (sets.toList.zipIdx.filter fun s => s.1 != 0).map fun (s, r) =>
    if s &&& mark == 0 then ⟨r, s, false⟩ else ⟨r, s ^^^ mark, true⟩

/-- The rules used inside a rule's productions, each with the tokens that follow it there and
whether it can be the last one. -/
private def innerUses (t : Tables) : Array (List (Nat × TokenSet × Bool)) :=
  t.places.foldl (fun uses p =>
    if p.depth == 0 then uses
    else
      let new := p.edges.toList.filterMap fun (s, next) =>
        match s.symbol with
        | .node id =>
          let place := t.place next
          some (id, t.following place, place.closing.isSome)
        | _ => none
      uses.modify p.head (new ++ ·)) (Array.replicate t.kinds.size [])

private structure Growth where
  /-- All contexts of rules, and those of rules that do not begin another one. -/
  all : Array Followers
  inner : Array Followers
  work : List (Nat × TokenSet × TokenSet)

private def useIn (mask follow : TokenSet) (g : Growth) (u : Nat × TokenSet × Bool) : Growth :=
  let set := if u.2.2 then u.2.1 ||| follow else u.2.1
  let context := set &&& mask
  match (g.inner.getD u.1 []).add? context set with
  | none => g
  | some fs =>
    { g with
      inner := g.inner.set! u.1 fs
      work := (u.1, context, fs.get context) :: g.work }

private def begin' (mask : TokenSet) (uses : Array (List (Nat × TokenSet × Bool)))
    (follow : TokenSet) (g : Growth) (c : Corner) : Growth :=
  let set := if c.passes then c.own ||| follow else c.own
  let context := set &&& mask
  match (g.all.getD c.rule []).add? context set with
  | none => g
  | some fs =>
    (uses.getD c.rule []).foldl (useIn mask (fs.get context))
      { g with all := g.all.set! c.rule fs }

private def grow (mask : TokenSet) (corners : Array (List Corner))
    (uses : Array (List (Nat × TokenSet × Bool))) : Nat → Growth → Growth
  | 0, g => g
  | fuel + 1, g =>
    match g.work with
    | [] => g
    | (rule, _, follow) :: work =>
      grow mask corners uses fuel
        ((corners.getD rule []).foldl (begin' mask uses follow) { g with work })

/-- The contexts of a grammar's rules. -/
def ofTables (t : Tables) : Contexts :=
  let ks := t.tokens.toList
  let tokens := setOf ks isContextToken
  let telling := tokens ||| setOf ks (isLonger ks)
  let corners := (Array.range t.kinds.size).map (cornersOf t)
  let none : Array Followers := Array.replicate t.kinds.size []
  let g := grow telling corners (innerUses t) 1000000 ⟨none, none, [(t.whole, 0, TokenSet.single 0)]⟩
  ⟨tokens, telling, g.all⟩

end Contexts

end AnySpans.Grammar
