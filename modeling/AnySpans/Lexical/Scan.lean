import AnySpans.Grammar.Items
import AnySpans.Lexical.Layout

/-!
# The next token

`Lexicon.scanPlain` finds the next token among those a parse expects.  A context token comes first; then
tokens that must follow without a gap; then, after a gap, the longest literal or pattern.  A word is
read as a whole and becomes a literal word only where that literal is expected.  When nothing that
is expected stands in the text, `Lexicon.scanAnything` takes any token of the language, and failing
that a run of characters that belongs to none.
-/

namespace AnySpans.Lexical

open AnySpans.Text AnySpans.Grammar

/-- The tokens of a grammar, arranged for recognition. -/
structure Lexicon where
  /-- Literal words. -/
  words : Std.HashMap String Nat
  wordSet : TokenSet
  /-- Other literals by the code of their first character, longest first. -/
  marks : Std.HashMap Nat (List (List Char × Nat))
  /-- Patterns that may follow a gap, and those that may not. -/
  spaced : List (Pattern × Nat)
  immediate : List (Pattern × Nat)
  layouts : List (Layout × Nat)
  word : Nat
  operator : Nat
  escape : Nat
  regexBody : Nat
  /-- The tokens that are looked for when nothing expected is found. -/
  anything : TokenSet
deriving Inhabited

/-- A token found in a text: where it begins and ends, and whether it is a literal word. -/
structure Lexed where
  /-- The token's number; none for characters that belong to no token. -/
  token : Option Nat
  start : Nat
  stop : Nat
  keyword : Bool
deriving Repr, Inhabited

private def isWordLiteral (s : String) : Bool :=
  let cs := s.toList
  !cs.isEmpty && cs.all isNamePart

/-- Tokens that only make sense inside another one and are not looked for on their own. -/
private def onlyInside : Token → Bool
  | ⟨_, .pattern p, _, _⟩ => (isImmediate p && p != .escape) || p == .dashedName
      || p == .characterReference
  | ⟨_, .literal s, _, _⟩ => s == "?:"
  | ⟨_, .layout _, _, _⟩ => true
  | _ => false

/-- The lexicon of a grammar. -/
def Lexicon.ofTables (t : Tables) : Lexicon :=
  let tokens := t.tokens.toList.zipIdx
  let literals := tokens.filterMap fun (k, i) =>
    match k.lexeme with
    | .literal s => some (s, i)
    | _ => none
  let words := literals.filter fun (s, _) => isWordLiteral s
  let marks := (literals.filter fun (s, _) => !isWordLiteral s).mergeSort fun x y =>
    y.1.length ≤ x.1.length
  let patterns := tokens.filterMap fun (k, i) =>
    match k.lexeme with
    | .pattern p => if p == .identifier then none else some (p, i)
    | _ => none
  let idOf := fun (l : Lexeme) => (t.tokens.findIdx? fun k => k.lexeme == l).getD 0
  { words := words.foldl (fun m (s, i) => m.insert s i) ∅
    wordSet := words.foldl (fun s w => s ||| TokenSet.single w.2) 0
    marks := marks.foldl (fun m (s, i) =>
      let c := s.front.toNat
      m.insert c (m.getD c [] ++ [(s.toList, i)])) ∅
    spaced := patterns.filter fun p => !isImmediate p.1
    immediate := patterns.filter fun p => isImmediate p.1
    layouts := tokens.filterMap fun (k, i) =>
      match k.lexeme with
      | .layout l => some (l, i)
      | _ => none
    word := t.word
    operator := idOf (.literal "||")
    escape := idOf (.pattern .escape)
    regexBody := idOf (.pattern .regexBody)
    anything := tokens.foldl (fun s (k, i) =>
      if onlyInside k then s else s ||| TokenSet.single i) 0 }

namespace Lexicon

variable (x : Lexicon)

private def layoutId (l : Layout) : Nat := ((x.layouts.find? fun p => p.1 == l).map (·.2)).getD 0

/-- What context tokens need to know about the expected tokens. -/
def wanted (expected : TokenSet) : Wanted :=
  let has := fun l => let i := x.layoutId l; i != 0 && expected.testBit i
  { lineEnd := has .lineEnd
    templateChars := has .templateChars
    ternaryMark := has .ternaryMark
    htmlComment := has .htmlComment
    markupText := has .markupText
    signatureEnd := has .signatureEnd
    operator := expected.testBit x.operator
    escape := expected.testBit x.escape
    regexBody := expected.testBit x.regexBody }

private def better (a b : Option (Nat × Nat)) : Option (Nat × Nat) :=
  match a, b with
  | none, b => b
  | a, none => a
  | some (i, m), some (j, n) => if n > m then some (j, n) else some (i, m)

private def longestOf (s : Source) (i : Nat) (expected : TokenSet) (ps : List (Pattern × Nat)) :
    Option (Nat × Nat) :=
  ps.foldl (fun best (p, id) =>
    if expected.testBit id then
      better best ((ending s i p).map fun j => (id, j))
    else best) none

private def markAt (s : Source) (i : Nat) (expected : TokenSet) : Option (Nat × Nat) :=
  match s.at? i with
  | none => none
  | some c => (x.marks.getD c.toNat []).findSome? fun (cs, id) =>
    if expected.testBit id then (s.literal i cs).map fun j => (id, j) else none

/-- The longest expected token at a position; of the same length, literals win over patterns and
tokens that follow without a gap over others. -/
private def plainAt (s : Source) (i : Nat) (expected : TokenSet) (immediate : Bool) :
    Option (Nat × Nat) :=
  let mark := x.markAt s i expected
  let word :=
    if expected.testBit x.word || (expected &&& x.wordSet) != 0 then
      (nameEnd s i).map fun j => (x.word, j)
    else none
  let close :=
    if immediate then longestOf s i expected (x.immediate.filter fun p => preference p.1 == 0)
    else none
  better (better (better mark close) (longestOf s i expected x.spaced)) word

/-- A word becomes a literal word where that is met in `known`. -/
private def finish (s : Source) (known : TokenSet) (start : Nat) (found : Nat × Nat) : Lexed :=
  if found.1 == x.word then
    match x.words[s.slice start found.2]? with
    | some id => if known.testBit id then ⟨some id, start, found.2, true⟩
      else ⟨some x.word, start, found.2, true⟩
    | none => ⟨some x.word, start, found.2, false⟩
  else ⟨some found.1, start, found.2, false⟩

/-- The next expected token, context tokens aside.  Literal words are those of `known`. -/
def scanPlain (s : Source) (expected known : TokenSet) (i : Nat) : Option Lexed :=
  let close := longestOf s i expected (x.immediate.filter fun p => preference p.1 == 1)
  match close with
  | some found => some (x.finish s known i found)
  | none =>
    match x.plainAt s i expected true with
    | some found => some (x.finish s known i found)
    | none =>
      match longestOf s i expected (x.immediate.filter fun p => preference p.1 == -1) with
      | some found => some (x.finish s known i found)
      | none =>
        let j := s.run isGap i
        if j == s.size then
          if expected.testBit 0 then some ⟨some 0, j, j, false⟩ else none
        else if j == i then none
        else (x.plainAt s j expected false).map (x.finish s known j)

/-- The next context token that is expected. -/
def scanContext (s : Source) (expected : TokenSet) (i : Nat) : Option Lexed :=
  (scanLayout (x.wanted expected) s i).map fun f => ⟨some (x.layoutId f.layout), f.start, f.stop, false⟩

private def skipUnknown (s : Source) : Nat → Nat → Nat
  | 0, i => i
  | fuel + 1, i =>
    if i ≥ s.size then i
    else if (x.scanPlain s x.anything 0 i).isSome then i
    else skipUnknown s fuel (i + 1)

/-- Any token at all, else the characters up to the next one. -/
def scanAnything (s : Source) (known : TokenSet) (i : Nat) : Lexed :=
  match x.scanPlain s x.anything known i with
  | some l => l
  | none =>
    let start := s.run isGap i
    let stop := x.skipUnknown s (s.size + 1) (start + 1)
    ⟨none, start, min stop s.size, false⟩

end Lexicon

end AnySpans.Lexical
