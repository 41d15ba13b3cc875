/-!
# Rules of a context-free grammar

A `Rule` describes the children a node may have: literals, references to other rules, sequences,
choices and repetitions.  Four annotations hang on parts of a rule: a field name, another name for
the node (`renamed`), a binding strength (`binds`) and a weight (`weighs`).  Strengths decide at
table time between reading on and closing a node; weights decide at parse time between two readings
of the same text.  A `RuleBook` is a list of named rules, the first of which is the start.
-/

namespace AnySpans.Grammar

/-- How strongly a step of a rule binds its neighbours. -/
inductive Strength where
  | unset
  | level (n : Int)
  | named (name : String)
deriving DecidableEq, Hashable, Repr, Inhabited

/-- Which of two readings of equal strength wins: closing the node (`left`) or reading on. -/
inductive Side where
  | left
  | right
deriving DecidableEq, Hashable, Repr, Inhabited

/-- Tokens that a character pattern describes. -/
inductive Pattern where
  | identifier
  | privateName
  | number
  | comment
  | hashBang
  | escape
  | doubleFragment
  | singleFragment
  | doubleAttributeFragment
  | singleAttributeFragment
  | regexBody
  | regexEnd
  | regexFlags
  | dashedName
  | characterReference
deriving DecidableEq, Hashable, Repr, Inhabited

/-- Tokens that need more context than a pattern has: line breaks, nesting, what may follow. -/
inductive Layout where
  | lineEnd
  | templateChars
  | ternaryMark
  | htmlComment
  | markupText
  | signatureEnd
  | sentinel
deriving DecidableEq, Hashable, Repr, Inhabited

/-- The shape of a node's children. -/
inductive Rule where
  | blank
  | text (s : String)
  | pattern (p : Pattern)
  | ref (name : String)
  | seq (parts : List Rule)
  | choice (options : List Rule)
  | many (r : Rule)
  | field (name : String) (r : Rule)
  | renamed (name : String) (visible : Bool) (r : Rule)
  | binds (strength : Strength) (side : Option Side) (r : Rule)
  | weighs (n : Int) (r : Rule)
deriving Inhabited

instance : Coe String Rule := ⟨Rule.text⟩

namespace Rule

/-- The rule or nothing. -/
def optional (r : Rule) : Rule := choice [r, blank]

/-- Any number of repetitions. -/
def repeated (r : Rule) : Rule := optional (many r)

/-- One or more, with a separator in between. -/
def separated (separator r : Rule) : Rule := seq [r, repeated (seq [separator, r])]

/-- One or more, with commas in between. -/
def commas (r : Rule) : Rule := separated (text ",") r

/-- Nodes of this rule are called `name` here. -/
def named (name : String) (r : Rule) : Rule := renamed name true r

/-- A named strength. -/
def strong (name : String) (r : Rule) : Rule := binds (.named name) none r

/-- A named strength that closes the node first. -/
def strongLeft (name : String) (r : Rule) : Rule := binds (.named name) (some .left) r

/-- A named strength that reads on first. -/
def strongRight (name : String) (r : Rule) : Rule := binds (.named name) (some .right) r

/-- Closes the node first. -/
def leftmost (r : Rule) : Rule := binds (.level 0) (some .left) r

/-- Reads on first. -/
def rightmost (r : Rule) : Rule := binds (.level 0) (some .right) r

end Rule

/-- A member of an ordering of strengths: a named strength, or closing a node of a rule. -/
inductive Rank where
  | strength (name : String)
  | node (rule : String)
deriving DecidableEq, Hashable, Repr, Inhabited

/-- Named rules with what is said about them as a whole. -/
structure RuleBook where
  rules : List (String × Rule)
  /-- Rules whose nodes do not show: their children take their place. -/
  supertypes : List String
  /-- Rules that are replaced by their bodies before tables are made. -/
  inlined : List String
  /-- Context tokens, by name. -/
  layout : List (String × Layout)
  /-- Tokens that may stand anywhere. -/
  extras : List String
  /-- The token that literal words are special cases of. -/
  word : String
  /-- Orderings of strengths, strongest first. -/
  ranks : List (List Rank)

end AnySpans.Grammar
