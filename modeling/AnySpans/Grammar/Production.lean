import AnySpans.Grammar.Rule
import Std.Data.HashMap

/-!
# Productions

A grammar's rules as flat lists of steps.  `RuleBook.tokens` lists the tokens in order of first use,
the word token first; `RuleBook.nodeKinds` expands every choice, gives each repetition a rule of
its own (two repetitions of the same thing share one) and replaces inlined rules by their bodies.
The strength of a step is that of the innermost annotation around it, except that the last step
inside an annotation that does not end the production takes the strength outside.
-/

namespace AnySpans.Grammar

/-- How a token is recognised. -/
inductive Lexeme where
  | endOfText
  | literal (s : String)
  | pattern (p : Pattern)
  | layout (l : Layout)
deriving DecidableEq, Hashable, Repr, Inhabited

/-- A token: its name, how it is recognised, and how its nodes show. -/
structure Token where
  name : String
  lexeme : Lexeme
  visible : Bool
  named : Bool
deriving Repr, Inhabited

/-- A grammar symbol: a token, a rule, or a rule still to be inlined. -/
inductive Symbol where
  | token (id : Nat)
  | node (id : Nat)
  | body (name : String)
deriving DecidableEq, Hashable, Repr, Inhabited

/-- One step of a production. -/
structure Step where
  symbol : Symbol
  strength : Strength
  side : Option Side
  rename : Option (String × Bool)
  field : Option String
deriving DecidableEq, Hashable, Repr, Inhabited

/-- One way to make a node. -/
structure Production where
  steps : List Step
  weight : Int
deriving DecidableEq, Hashable, Repr, Inhabited

/-- A rule that makes nodes. -/
structure NodeKind where
  name : String
  visible : Bool
  /-- The rule stands for a repetition and has no name of its own. -/
  auxiliary : Bool
  productions : List Production
deriving Inhabited

/-- A name with a leading underscore does not show. -/
def showsByName (name : String) : Bool := name.front != '_'

/-! ### Tokens -/

/-- The lexemes of a rule in order, with repeats. -/
def Rule.lexemes : Rule → List Lexeme
  | .blank => []
  | .text s => [.literal s]
  | .pattern p => [.pattern p]
  | .ref _ => []
  | .seq rs => lexemesOfAll rs
  | .choice rs => lexemesOfAll rs
  | .many r => r.lexemes
  | .field _ r => r.lexemes
  | .renamed _ _ r => r.lexemes
  | .binds _ _ r => r.lexemes
  | .weighs _ r => r.lexemes
where
  lexemesOfAll : List Rule → List Lexeme
    | [] => []
    | r :: rs => r.lexemes ++ lexemesOfAll rs

/-- The lexeme of a rule that is nothing but a token. -/
def Rule.soleLexeme : Rule → Option Lexeme
  | .text s => some (.literal s)
  | .pattern p => some (.pattern p)
  | _ => none

/-- The rules that are tokens: their only lexeme is used nowhere else. -/
def RuleBook.tokenRules (g : RuleBook) : List (String × Lexeme) :=
  let counts := (g.rules.flatMap fun r => r.2.lexemes).foldl
    (fun (m : Std.HashMap Lexeme Nat) l => m.insert l (m.getD l 0 + 1)) ∅
  g.rules.filterMap fun (name, r) => do
    let l ← r.soleLexeme
    if counts.getD l 0 = 1 then some (name, l) else none

/-- All tokens: the end of the text, the word token, the others as first used, context tokens. -/
def RuleBook.tokens (g : RuleBook) : List Token :=
  let named := g.tokenRules
  let used := (g.rules.flatMap fun r => r.2.lexemes).eraseDups
  let word := named.filterMap fun (name, l) => if name = g.word then some l else none
  let ordered := word ++ used.filter fun l => !word.contains l
  let internal := ordered.map fun l =>
    match named.find? (fun p => p.2 == l), l with
    | some (name, _), _ => ⟨name, l, showsByName name, true⟩
    | none, .literal s => ⟨s, l, true, false⟩
    | none, _ => ⟨"", l, false, false⟩
  ⟨"end", .endOfText, false, false⟩ :: internal
    ++ g.layout.map fun (name, l) => ⟨name, .layout l, showsByName name, true⟩

/-! ### Expansion -/

/-- What a part of a rule inherits from the annotations around it. -/
structure Surroundings where
  strength : Strength := .unset
  side : Option Side := none
  rename : Option (String × Bool) := none
  field : Option String := none

/-- The rules made so far for repetitions, and where symbols are looked up. -/
structure Expansion where
  symbols : Std.HashMap String Symbol
  lexemes : Std.HashMap Lexeme Nat
  firstAuxiliary : Nat
  known : Std.HashMap (List Production) Nat
  auxiliary : Array (List Production)

private def Production.restore (around : Surroundings) (strength side : Bool) (p : Production) :
    Production :=
  match p.steps.getLast? with
  | none => p
  | some last =>
    let last := if strength then { last with strength := around.strength } else last
    let last := if side then { last with side := around.side } else last
    { p with steps := p.steps.dropLast ++ [last] }

private def heavier (a b : Int) : Int := if b.natAbs > a.natAbs then b else a

private def Production.append (p q : Production) : Production :=
  ⟨p.steps ++ q.steps, heavier p.weight q.weight⟩

private def stepOf (around : Surroundings) (symbol : Symbol) : Production :=
  ⟨[⟨symbol, around.strength, around.side, around.rename, around.field⟩], 0⟩

private def auxiliaryFor (content : List Production) : StateM Expansion Nat := do
  let e ← get
  match e.known[content]? with
  | some id => return id
  | none =>
    let id := e.firstAuxiliary + e.auxiliary.size
    let again : Step := ⟨.node id, .unset, none, none, none⟩
    let twice : Production := ⟨[again, again], 0⟩
    set { e with
      known := e.known.insert content id
      auxiliary := e.auxiliary.push (content ++ [twice]) }
    return id

/-- Every way through a rule.  `final` says that nothing of the production follows. -/
def Rule.expand (around : Surroundings) (final : Bool) : Rule → StateM Expansion (List Production)
  | .blank => return [⟨[], 0⟩]
  | .text s => return [stepOf around (.token ((← get).lexemes.getD (.literal s) 0))]
  | .pattern p => return [stepOf around (.token ((← get).lexemes.getD (.pattern p) 0))]
  | .ref name => return [stepOf around ((← get).symbols.getD name (.body name))]
  | .seq rs => expandAll around final rs
  | .choice rs => expandAny around final rs
  | .many r => do
    let content ← r.expand ({} : Surroundings) true
    let id ← auxiliaryFor content
    return [stepOf around (.node id)]
  | .field name r => r.expand { around with field := some name } final
  | .renamed name visible r => r.expand { around with rename := some (name, visible) } final
  | .binds strength side r => do
    let inner := { around with strength := strength, side := side <|> around.side }
    let ps ← r.expand inner final
    return if final then ps else ps.map (Production.restore around true side.isSome)
  | .weighs n r => do
    let ps ← r.expand around final
    return ps.map fun (p : Production) => { p with weight := heavier p.weight n }
where
  expandAll (around : Surroundings) (final : Bool) :
      List Rule → StateM Expansion (List Production)
    | [] => return [⟨[], 0⟩]
    | [r] => r.expand around final
    | r :: rs => do
      let heads ← r.expand around false
      let tails ← expandAll around final rs
      return heads.flatMap fun h => tails.map h.append
  expandAny (around : Surroundings) (final : Bool) :
      List Rule → StateM Expansion (List Production)
    | [] => return []
    | r :: rs => do
      let first ← r.expand around final
      let others ← expandAny around final rs
      return first ++ others

/-! ### Inlining -/

private def inlineStep (outer : Step) (p : Production) : List Step :=
  let steps := p.steps.map fun s =>
    let s := if outer.rename.isSome then { s with rename := outer.rename } else s
    if outer.field.isSome then { s with field := outer.field } else s
  match steps.getLast? with
  | none => []
  | some last =>
    let last := if last.strength = .unset then { last with strength := outer.strength } else last
    let last := if last.side.isNone then { last with side := outer.side } else last
    steps.dropLast ++ [last]

/-- The steps of a production with inlined rules replaced, to a given depth of nesting. -/
def inlineSteps (bodies : Std.HashMap String (List Production)) :
    Nat → List Step → List (List Step × Int)
  | 0, steps => [(steps, 0)]
  | _ + 1, [] => [([], 0)]
  | depth + 1, s :: rest =>
    let tails := inlineSteps bodies (depth + 1) rest
    let heads := match s.symbol with
      | .body name => (bodies.getD name []).flatMap fun (p : Production) =>
        (inlineSteps bodies depth (inlineStep s p)).map fun (q : List Step × Int) =>
          (q.1, heavier p.weight q.2)
      | _ => [([s], 0)]
    heads.flatMap fun (h, w) => tails.map fun (t, v) => (h ++ t, heavier w v)

private def inlineAll (bodies : Std.HashMap String (List Production)) (ps : List Production) :
    List Production :=
  (ps.flatMap fun p =>
    if p.steps.any fun s => s.symbol matches .body _ then
      (inlineSteps bodies 6 p.steps).map fun (q : List Step × Int) =>
        (⟨q.1, heavier p.weight q.2⟩ : Production)
    else [p])

/-- The rules that make nodes, with their productions, repetitions last. -/
def RuleBook.nodeKinds (g : RuleBook) : Array NodeKind :=
  let tokens := g.tokens
  let tokenRules := g.tokenRules
  let tokenIds := tokens.zipIdx
  let kept := g.rules.filter fun (name, _) =>
    !(tokenRules.any (·.1 == name)) && !g.inlined.contains name
  let symbols : Std.HashMap String Symbol :=
    (tokenIds.foldl (fun m (t, i) => if t.named then m.insert t.name (Symbol.token i) else m) ∅)
  let symbols := kept.zipIdx.foldl (fun m ((name, _), i) => m.insert name (Symbol.node i)) symbols
  let lexemes := tokenIds.foldl (fun m (t, i) => m.insert t.lexeme i) ∅
  let start : Expansion := ⟨symbols, lexemes, kept.length, ∅, #[]⟩
  let ((expanded, bodies), finish) := StateT.run (m := Id) (do
    let expanded ← kept.mapM fun (name, r) => do return (name, ← r.expand {} true)
    let inlined := g.rules.filter fun (name, _) => g.inlined.contains name
    let bodies ← inlined.mapM fun (name, r) => do return (name, ← r.expand {} true)
    return (expanded, bodies)) start
  let bodies := bodies.foldl (fun m (name, ps) => m.insert name ps) ∅
  let named : List NodeKind := expanded.map fun (name, ps) =>
    ⟨name, showsByName name && !g.supertypes.contains name, false, inlineAll bodies ps⟩
  let repeats : List NodeKind := finish.auxiliary.toList.map fun ps =>
    ⟨"", false, true, inlineAll bodies ps⟩
  (named ++ repeats).toArray

end AnySpans.Grammar
