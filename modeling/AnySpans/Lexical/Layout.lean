import AnySpans.Lexical.Pattern

/-!
# Tokens that depend on their context

`scanLayout` recognises the tokens no pattern can describe: the end of a statement at a line break
or before a closing brace, the characters of a template, the question mark of a conditional, text
between tags and comments in the style of markup.  What it looks for depends on which tokens the
parse expects; the logical operator is expected exactly where an expression could go on.
-/

namespace AnySpans.Lexical

open AnySpans.Text AnySpans.Grammar

/-- Which tokens the parse expects, as far as context tokens care. -/
structure Wanted where
  lineEnd : Bool
  templateChars : Bool
  ternaryMark : Bool
  htmlComment : Bool
  markupText : Bool
  signatureEnd : Bool
  /-- An expression could go on here. -/
  operator : Bool
  escape : Bool
  regexBody : Bool
deriving Repr, Inhabited

/-- A context token with its bounds. -/
structure Found where
  layout : Layout
  start : Nat
  stop : Nat
deriving Repr, Inhabited

private def isAsciiLetter (c : Char) : Bool := ('a' ≤ c && c ≤ 'z') || ('A' ≤ c && c ≤ 'Z')

/-- White space as far as context tokens are concerned: the ASCII characters of that kind. -/
def isBlank (c : Char) : Bool := c == ' ' || (9 ≤ c.toNat && c.toNat ≤ 13)

private def templateEnd (s : Source) : Nat → Nat → Option Nat
  | 0, _ => none
  | fuel + 1, i =>
    match s.at? i with
    | none => none
    | some '\x60' => some i
    | some '\\' => some i
    | some '$' => if s.is (i + 1) '\x7b' then some i else templateEnd s fuel (i + 1)
    | some _ => templateEnd s fuel (i + 1)

private def scanTemplate (s : Source) (i : Nat) : Option Found :=
  match templateEnd s (s.size + 1) i with
  | some j => if j > i then some ⟨.templateChars, i, j⟩ else none
  | none => none

private def blockEnd (s : Source) : Nat → Nat → Nat
  | 0, i => i
  | fuel + 1, i =>
    match s.at? i with
    | none => i
    | some '*' => if s.is (i + 1) '/' then i + 2 else blockEnd s fuel (i + 1)
    | some _ => blockEnd s fuel (i + 1)

/-- The position after white space and comments, none at a slash that begins no comment, and
whether a comment was met. -/
private def skipGaps (s : Source) : Nat → Bool → Nat → Option Nat × Bool
  | 0, seen, i => (some i, seen)
  | fuel + 1, seen, i =>
    let i := s.run isBlank i
    if s.is i '/' then
      if s.is (i + 1) '/' then
        skipGaps s fuel true (s.run (fun c => c != '\n' && c.toNat != 0x2028 && c.toNat != 0x2029) (i + 2))
      else if s.is (i + 1) '*' then skipGaps s fuel true (blockEnd s (s.size + 1) (i + 2))
      else (none, seen)
    else (some i, seen)

/-- Whether a statement ends before what stands at `i`, the first thing on a later line. -/
private def endsBefore (w : Wanted) (s : Source) (i : Nat) : Bool :=
  match s.at? i with
  | none => true
  | some c =>
    if "\x60,.;*%><=?^|&/:".toList.contains c then false
    else if c == '\x7b' then !w.signatureEnd
    else if c == '(' || c == '[' then !w.operator
    else if c == '+' then s.is (i + 1) '+'
    else if c == '-' then s.is (i + 1) '-'
    else if c == '!' then !s.is (i + 1) '='
    else if c == 'i' then
      if !s.is (i + 1) 'n' then true
      else if !s.test (i + 2) isAsciiLetter then false
      else match s.literal (i + 2) "stanceof".toList with
        | none => true
        | some j => s.test j isAsciiLetter
    else true

/-- Whether a statement ends at `i`, and whether a comment was met on the way. -/
private def scanEnd (w : Wanted) (s : Source) : Nat → Nat → Bool × Bool
  | 0, _ => (false, false)
  | fuel + 1, i =>
    match s.at? i with
    | none => (true, false)
    | some c =>
      if c == '\x7d' then
        let j := s.run isBlank (i + 1)
        if s.is j ':' then (w.operator, false) else (true, false)
      else if !isBlank c then (false, false)
      else if c == '\n' then
        match skipGaps s (s.size + 1) false (i + 1) with
        | (none, seen) => (false, seen)
        | (some j, seen) => (endsBefore w s j, seen)
      else scanEnd w s fuel (i + 1)

/-- The question mark of a conditional: not part of `??`, of `?.` before a name, or of an optional
parameter. -/
private def scanTernary (s : Source) (i : Nat) : Option Found :=
  let i := s.run isBlank i
  if !s.is i '?' then none
  else if s.is (i + 1) '?' || s.is (i + 1) '.' then none
  else
    let j := s.run isBlank (i + 1)
    if s.is j ':' || s.is j ')' || s.is j ',' then none
    else if s.is j '.' && !s.test (j + 1) (fun c => '0' ≤ c && c ≤ '9') then none
    else some ⟨.ternaryMark, i, i + 1⟩

private def scanMarkupComment (s : Source) (i : Nat) : Option Found :=
  let i := s.run (fun c => isBlank c || c.toNat == 0x2028 || c.toNat == 0x2029) i
  match s.literal i "<!--".toList <|> s.literal i "-->".toList with
  | none => none
  | some j =>
    let stop := s.run (fun c => c != '\n' && c.toNat != 0x2028 && c.toNat != 0x2029) j
    some ⟨.htmlComment, i, stop⟩

private def markupTextEnd (s : Source) : Nat → Bool → Bool → Nat → Nat × Bool
  | 0, _, saw, i => (i, saw)
  | fuel + 1, atLineStart, saw, i =>
    match s.at? i with
    | none => (i, saw)
    | some c =>
      if "<>\x7b\x7d&".toList.contains c then (i, saw)
      else if c == '\n' then markupTextEnd s fuel true saw (i + 1)
      else
        let atLineStart := atLineStart && isBlank c
        markupTextEnd s fuel atLineStart (saw || !atLineStart) (i + 1)

private def scanMarkupText (s : Source) (i : Nat) : Option Found :=
  match markupTextEnd s (s.size + 1) false false i with
  | (j, true) => some ⟨.markupText, i, j⟩
  | (_, false) => none

/-- The context token at a position, if there is one the parse expects. -/
def scanLayout (w : Wanted) (s : Source) (i : Nat) : Option Found :=
  if w.templateChars then
    if w.lineEnd then none else scanTemplate s i
  else
    match (if w.markupText then scanMarkupText s i else none) with
    | some f => some f
    | none =>
      if w.lineEnd || w.signatureEnd then
        let (ends, comment) := scanEnd w s (s.size + 1) i
        if ends then some ⟨.lineEnd, i, i⟩
        else if !comment && w.ternaryMark && s.is (s.run isBlank i) '?' then scanTernary s i
        else none
      else if w.ternaryMark then scanTernary s i
      else if w.htmlComment && !w.operator && !w.escape && !w.regexBody then scanMarkupComment s i
      else none

end AnySpans.Lexical
