import AnySpans.Grammar.Rule

/-!
# The grammar of script documents

`script` is the grammar of TypeScript and `Flavor.markup` adds tags to its expressions, in place of
type assertions in angle brackets.  The tables are long but flat: statements, expressions, tags,
classes, types.  Names with a leading underscore belong to rules whose nodes do not show.
-/

namespace AnySpans.Grammar.Script

open Rule

/-- Which of the two dialects a grammar is for. -/
inductive Flavor where
  | plain
  | markup
deriving DecidableEq, Repr, Inhabited

private def define (name : String) (r : Rule) : String × Rule := (name, r)

private def openBrace : Rule := text "\x7b"
private def closeBrace : Rule := text "\x7d"
private def identifier : Rule := ref "identifier"
private def expression : Rule := ref "expression"
private def statement : Rule := ref "statement"
private def typeNode : Rule := ref "type"
private def lineEnd : Rule := ref "_automatic_semicolon"
private def semicolon : Rule := ref "_semicolon"
private def propertyName : Rule := ref "_property_name"
private def reserved : Rule := ref "_reserved_identifier"
private def block : Rule := ref "statement_block"
private def destructuring : Rule := ref "_destructuring_pattern"
private def initializer : Rule := ref "_initializer"
private def typeArguments : Rule := field "type_arguments" (optional (ref "type_arguments"))
private def typeParameters : Rule := field "type_parameters" (optional (ref "type_parameters"))
private def typeIdentifier : Rule := ref "_type_identifier"
private def asIdentifier (r : Rule) : Rule := named "identifier" r
private def asProperty : Rule := named "property_identifier" identifier
private def asMember (rule : String) : Rule := named "member_expression" (ref rule)
private def asCall (rule : String) : Rule := named "call_expression" (ref rule)
private def asSubscript (rule : String) : Rule := named "subscript_expression" (ref rule)
private def decorators : Rule := repeated (field "decorator" (ref "decorator"))
private def accessor : Rule := optional (choice ["get", "set", "*"])

/-- Programs, modules and declarations. -/
def declarations : List (String × Rule) := [
  define "program" (seq [optional (ref "hash_bang_line"), repeated statement]),
  define "hash_bang_line" (pattern .hashBang),
  define "export_statement" (choice [
    choice [
      seq ["export",
        choice [
          seq ["*", ref "_from_clause"],
          seq [ref "namespace_export", ref "_from_clause"],
          seq [ref "export_clause", ref "_from_clause"],
          ref "export_clause"],
        semicolon],
      seq [decorators, "export",
        choice [
          field "declaration" (ref "declaration"),
          seq ["default", choice [
            field "declaration" (ref "declaration"),
            seq [field "value" expression, semicolon]]]]]],
    seq ["export", "type", ref "export_clause", optional (ref "_from_clause"), semicolon],
    seq ["export", "=", expression, semicolon],
    seq ["export", "as", "namespace", identifier, semicolon]]),
  define "namespace_export" (seq ["*", "as", ref "_module_export_name"]),
  define "export_clause" (seq [openBrace, optional (commas (ref "export_specifier")), optional ",", closeBrace]),
  define "export_specifier" (seq [optional (choice ["type", "typeof"]), seq [
    field "name" (ref "_module_export_name"),
    optional (seq ["as", field "alias" (ref "_module_export_name")])]]),
  define "_module_export_name" (choice [identifier, ref "string", "default"]),
  define "declaration" (choice [
    choice [ref "function_declaration", ref "generator_function_declaration", ref "class_declaration",
      ref "lexical_declaration", ref "variable_declaration"],
    ref "function_signature", ref "abstract_class_declaration", ref "module",
    strong "declare" (ref "internal_module"), ref "type_alias_declaration", ref "enum_declaration",
    ref "interface_declaration", ref "import_alias", ref "ambient_declaration"]),
  define "import" ("import"),
  define "import_statement" (seq ["import", optional (choice ["type", "typeof"]),
    choice [
      seq [ref "import_clause", ref "_from_clause"],
      ref "import_require_clause",
      field "source" (ref "string")],
    optional (ref "import_attribute"), semicolon]),
  define "import_clause" (choice [
    ref "namespace_import",
    ref "named_imports",
    seq [ref "_import_identifier",
      optional (seq [",", choice [ref "namespace_import", ref "named_imports"]])]]),
  define "_from_clause" (seq ["from", field "source" (ref "string")]),
  define "namespace_import" (seq ["*", "as", identifier]),
  define "named_imports" (seq [openBrace, optional (commas (ref "import_specifier")), optional ",", closeBrace]),
  define "import_specifier" (seq [optional (choice ["type", "typeof"]), choice [
    field "name" (ref "_import_identifier"),
    seq [field "name" (choice [ref "_module_export_name", asIdentifier "type"]), "as",
      field "alias" (ref "_import_identifier")]]]),
  define "import_attribute" (seq ["with", ref "object"]),
  define "statement" (choice [
    ref "export_statement", ref "import_statement", ref "debugger_statement",
    ref "expression_statement", ref "declaration", ref "statement_block", ref "if_statement",
    ref "switch_statement", ref "for_statement", ref "for_in_statement", ref "while_statement",
    ref "do_statement", ref "try_statement", ref "with_statement", ref "break_statement",
    ref "continue_statement", ref "return_statement", ref "throw_statement",
    ref "empty_statement", ref "labeled_statement"]),
  define "expression_statement" (seq [ref "_expressions", semicolon]),
  define "variable_declaration" (seq ["var", commas (ref "variable_declarator"), semicolon]),
  define "lexical_declaration" (seq [field "kind" (choice ["let", "const"]),
    commas (ref "variable_declarator"), semicolon]),
  define "variable_declarator" (choice [
    seq [field "name" (choice [identifier, destructuring]),
      field "type" (optional (ref "type_annotation")), optional initializer],
    strong "declare" (seq [field "name" identifier, "!", field "type" (ref "type_annotation")])]),
  define "statement_block" (rightmost (seq [openBrace, repeated statement, closeBrace, optional lineEnd])),
  define "else_clause" (seq ["else", statement]),
  define "if_statement" (rightmost (seq ["if", field "condition" (ref "parenthesized_expression"),
    field "consequence" statement, optional (field "alternative" (ref "else_clause"))])),
  define "switch_statement" (seq ["switch", field "value" (ref "parenthesized_expression"),
    field "body" (ref "switch_body")]),
  define "for_statement" (seq ["for", "(",
    choice [
      field "initializer" (choice [ref "lexical_declaration", ref "variable_declaration"]),
      seq [field "initializer" (ref "_expressions"), ";"],
      field "initializer" (ref "empty_statement")],
    field "condition" (choice [seq [ref "_expressions", ";"], ref "empty_statement"]),
    field "increment" (optional (ref "_expressions")), ")", field "body" statement]),
  define "for_in_statement" (seq ["for", optional "await", ref "_for_header", field "body" statement]),
  define "_for_header" (seq ["(",
    choice [
      field "left" (choice [ref "_lhs_expression", ref "parenthesized_expression"]),
      seq [field "kind" "var", field "left" (choice [identifier, destructuring]), optional initializer],
      seq [field "kind" (choice ["let", "const"]), field "left" (choice [identifier, destructuring]),
        optional lineEnd]],
    field "operator" (choice ["in", "of"]), field "right" (ref "_expressions"), ")"]),
  define "while_statement" (seq ["while", field "condition" (ref "parenthesized_expression"),
    field "body" statement]),
  define "do_statement" (rightmost (seq ["do", field "body" statement, "while",
    field "condition" (ref "parenthesized_expression"), optional semicolon])),
  define "try_statement" (seq ["try", field "body" block, optional (field "handler" (ref "catch_clause")),
    optional (field "finalizer" (ref "finally_clause"))]),
  define "with_statement" (seq ["with", field "object" (ref "parenthesized_expression"),
    field "body" statement]),
  define "break_statement" (seq ["break",
    field "label" (optional (named "statement_identifier" identifier)), semicolon]),
  define "continue_statement" (seq ["continue",
    field "label" (optional (named "statement_identifier" identifier)), semicolon]),
  define "debugger_statement" (seq ["debugger", semicolon]),
  define "return_statement" (seq ["return", optional (ref "_expressions"), semicolon]),
  define "throw_statement" (seq ["throw", ref "_expressions", semicolon]),
  define "empty_statement" (";"),
  define "labeled_statement" (weighs (-1) (seq [
    field "label" (named "statement_identifier" (choice [identifier, reserved])), ":",
    field "body" statement])),
  define "switch_body" (seq [openBrace, repeated (choice [ref "switch_case", ref "switch_default"]), closeBrace]),
  define "switch_case" (seq ["case", field "value" (ref "_expressions"), ":",
    field "body" (repeated statement)]),
  define "switch_default" (seq ["default", ":", field "body" (repeated statement)]),
  define "catch_clause" (seq ["catch",
    optional (seq ["(", field "parameter" (choice [identifier, destructuring]),
      optional (field "type" (ref "type_annotation")), ")"]),
    field "body" block]),
  define "finally_clause" (seq ["finally", field "body" block])]

private def binary (operator strength : String) (side : Side) (left : Rule) : Rule :=
  binds (.named strength) (some side)
    (seq [field "left" left, field "operator" operator, field "right" expression])

/-- Expressions and patterns. -/
def expressions (flavor : Flavor) : List (String × Rule) := [
  define "parenthesized_expression" (seq ["(",
    choice [seq [expression, field "type" (optional (ref "type_annotation"))],
      ref "sequence_expression"], ")"]),
  define "_expressions" (choice [expression, ref "sequence_expression"]),
  define "expression" (choice ([ref "as_expression", ref "satisfies_expression",
      ref "instantiation_expression", ref "internal_module"]
    ++ (match flavor with
      | .plain => [ref "type_assertion", ref "primary_expression"]
      | .markup => [ref "primary_expression", ref "_jsx_element"])
    ++ [ref "assignment_expression", ref "augmented_assignment_expression", ref "await_expression",
      ref "unary_expression", ref "binary_expression", ref "ternary_expression",
      ref "update_expression", ref "new_expression", ref "yield_expression"])),
  define "primary_expression" (choice [
    choice [ref "subscript_expression", ref "member_expression", ref "parenthesized_expression",
      ref "_identifier", asIdentifier reserved, ref "this", ref "super", ref "number", ref "string",
      ref "template_string", ref "regex", ref "true", ref "false", ref "null", ref "object",
      ref "array", ref "function_expression", ref "arrow_function", ref "generator_function",
      ref "class", ref "meta_property", ref "call_expression"],
    ref "non_null_expression"]),
  define "yield_expression" (rightmost (seq ["yield",
    choice [seq ["*", expression], optional expression]])),
  define "object" (strong "object" (seq [openBrace, optional (commas (optional (choice [
    ref "pair", ref "spread_element", ref "method_definition",
    named "shorthand_property_identifier" (choice [identifier, reserved])]))), closeBrace])),
  define "object_pattern" (strong "object" (seq [openBrace, optional (commas (optional (choice [
    ref "pair_pattern", ref "rest_pattern", ref "object_assignment_pattern",
    named "shorthand_property_identifier_pattern" (choice [identifier, reserved])]))), closeBrace])),
  define "assignment_pattern" (seq [field "left" (ref "pattern"), "=", field "right" expression]),
  define "object_assignment_pattern" (seq [
    field "left" (choice [
      named "shorthand_property_identifier_pattern" (choice [reserved, identifier]),
      destructuring]),
    "=", field "right" expression]),
  define "array" (seq ["[", optional (commas (optional (choice [expression, ref "spread_element"]))), "]"]),
  define "array_pattern" (seq ["[",
    optional (commas (optional (choice [ref "pattern", ref "assignment_pattern"]))), "]"])]

/-- Tags, their attributes and their children. -/
def tags : List (String × Rule) := [
  define "_jsx_element" (choice [ref "jsx_element", ref "jsx_self_closing_element"]),
  define "jsx_element" (seq [field "open_tag" (ref "jsx_opening_element"), repeated (ref "_jsx_child"),
    field "close_tag" (ref "jsx_closing_element")]),
  define "html_character_reference" (pattern .characterReference),
  define "jsx_expression" (seq [openBrace,
    optional (choice [expression, ref "sequence_expression", ref "spread_element"]), closeBrace]),
  define "_jsx_child" (choice [ref "jsx_text", ref "html_character_reference", ref "_jsx_element",
    ref "jsx_expression"]),
  define "jsx_opening_element" (weighs (-1) (seq [ref "_jsx_start_opening_element", ">"])),
  define "jsx_identifier" (pattern .dashedName),
  define "_jsx_identifier" (choice [asIdentifier (ref "jsx_identifier"), identifier]),
  define "nested_identifier" (strong "member" (seq [
    field "object" (choice [identifier, asMember "nested_identifier"]), ".",
    field "property" asProperty])),
  define "jsx_namespace_name" (seq [ref "_jsx_identifier", ":", ref "_jsx_identifier"]),
  define "_jsx_element_name" (choice [ref "_jsx_identifier", asMember "nested_identifier",
    ref "jsx_namespace_name"]),
  define "jsx_closing_element" (seq ["</", optional (field "name" (ref "_jsx_element_name")), ">"]),
  define "jsx_self_closing_element" (weighs (-1) (seq [ref "_jsx_start_opening_element", "/>"])),
  define "_jsx_attribute" (choice [ref "jsx_attribute", ref "jsx_expression"]),
  define "_jsx_attribute_name" (choice [named "property_identifier" (ref "_jsx_identifier"),
    ref "jsx_namespace_name"]),
  define "jsx_attribute" (seq [ref "_jsx_attribute_name", optional (seq ["=", ref "_jsx_attribute_value"])]),
  define "_jsx_string" (choice [
    seq ["\"", repeated (choice [
      named "string_fragment" (ref "unescaped_double_jsx_string_fragment"),
      ref "html_character_reference"]), "\""],
    seq ["'", repeated (choice [
      named "string_fragment" (ref "unescaped_single_jsx_string_fragment"),
      ref "html_character_reference"]), "'"]]),
  define "unescaped_double_jsx_string_fragment" (pattern .doubleAttributeFragment),
  define "unescaped_single_jsx_string_fragment" (pattern .singleAttributeFragment),
  define "_jsx_attribute_value" (choice [named "string" (ref "_jsx_string"), ref "jsx_expression",
    ref "_jsx_element"])]

/-- Classes, functions and calls. -/
def functions : List (String × Rule) := [
  define "class" (strong "literal" (seq [decorators, "class", field "name" (optional typeIdentifier),
    typeParameters, optional (ref "class_heritage"), field "body" (ref "class_body")])),
  define "class_declaration" (strongLeft "declare" (seq [decorators, "class", field "name" typeIdentifier,
    typeParameters, optional (ref "class_heritage"), field "body" (ref "class_body"),
    optional lineEnd])),
  define "class_heritage" (choice [
    seq [ref "extends_clause", optional (ref "implements_clause")], ref "implements_clause"]),
  define "function_expression" (strong "literal" (seq [optional "async", "function",
    field "name" (optional identifier), ref "_call_signature", field "body" block])),
  define "function_declaration" (strongRight "declare" (seq [optional "async", "function",
    field "name" identifier, ref "_call_signature", field "body" block, optional lineEnd])),
  define "generator_function" (strong "literal" (seq [optional "async", "function", "*",
    field "name" (optional identifier), ref "_call_signature", field "body" block])),
  define "generator_function_declaration" (strongRight "declare" (seq [optional "async", "function", "*",
    field "name" identifier, ref "_call_signature", field "body" block, optional lineEnd])),
  define "arrow_function" (seq [optional "async",
    choice [field "parameter" (choice [asIdentifier reserved, identifier]), ref "_call_signature"],
    "=>", field "body" (choice [expression, block])]),
  define "_call_signature" (seq [typeParameters, field "parameters" (ref "formal_parameters"),
    field "return_type" (optional (choice [ref "type_annotation", ref "asserts_annotation",
      ref "type_predicate_annotation"]))]),
  define "_formal_parameter" (choice [ref "required_parameter", ref "optional_parameter"]),
  define "optional_chain" ("?."),
  define "call_expression" (choice [
    strong "call" (seq [field "function" (choice [expression, ref "import"]), typeArguments,
      field "arguments" (ref "arguments")]),
    strong "template_call" (seq [
      field "function" (choice [ref "primary_expression", ref "new_expression"]),
      field "arguments" (ref "template_string")]),
    strong "member" (seq [field "function" (ref "primary_expression"), "?.", typeArguments,
      field "arguments" (ref "arguments")])]),
  define "new_expression" (strongRight "new" (seq ["new", field "constructor" (ref "primary_expression"),
    typeArguments, field "arguments" (optional (ref "arguments"))])),
  define "await_expression" (strong "unary_void" (seq ["await", expression])),
  define "member_expression" (strong "member" (seq [
    field "object" (choice [expression, ref "primary_expression", ref "import"]),
    choice [".", field "optional_chain" (ref "optional_chain")],
    field "property" (choice [ref "private_property_identifier", asProperty])])),
  define "subscript_expression" (strongRight "member" (seq [
    field "object" (choice [expression, ref "primary_expression"]),
    optional (field "optional_chain" (ref "optional_chain")),
    "[", field "index" (ref "_expressions"), "]"])),
  define "_lhs_expression" (choice [
    choice [ref "member_expression", ref "subscript_expression", ref "_identifier",
      asIdentifier reserved, destructuring],
    ref "non_null_expression"]),
  define "assignment_expression" (strongRight "assign" (seq [optional "using",
    field "left" (choice [ref "parenthesized_expression", ref "_lhs_expression"]), "=",
    field "right" expression])),
  define "_augmented_assignment_lhs" (choice [
    choice [ref "member_expression", ref "subscript_expression", asIdentifier reserved, identifier,
      ref "parenthesized_expression"],
    ref "non_null_expression"]),
  define "augmented_assignment_expression" (strongRight "assign" (seq [
    field "left" (ref "_augmented_assignment_lhs"),
    field "operator" (choice ["+=", "-=", "*=", "/=", "%=", "^=", "&=", "|=", ">>=", ">>>=", "<<=",
      "**=", "&&=", "||=", "??="]),
    field "right" expression])),
  define "_initializer" (seq ["=", field "value" expression]),
  define "_destructuring_pattern" (choice [ref "object_pattern", ref "array_pattern"]),
  define "spread_element" (seq ["...", expression]),
  define "ternary_expression" (strongRight "ternary" (seq [field "condition" expression,
    renamed "?" false (ref "_ternary_qmark"), field "consequence" expression, ":",
    field "alternative" expression])),
  define "binary_expression" (choice [
    binary "&&" "logical_and" .left expression,
    binary "||" "logical_or" .left expression,
    binary ">>" "binary_shift" .left expression,
    binary ">>>" "binary_shift" .left expression,
    binary "<<" "binary_shift" .left expression,
    binary "&" "bitwise_and" .left expression,
    binary "^" "bitwise_xor" .left expression,
    binary "|" "bitwise_or" .left expression,
    binary "+" "binary_plus" .left expression,
    binary "-" "binary_plus" .left expression,
    binary "*" "binary_times" .left expression,
    binary "/" "binary_times" .left expression,
    binary "%" "binary_times" .left expression,
    binary "**" "binary_exp" .right expression,
    binary "<" "binary_relation" .left expression,
    binary "<=" "binary_relation" .left expression,
    binary "==" "binary_equality" .left expression,
    binary "===" "binary_equality" .left expression,
    binary "!=" "binary_equality" .left expression,
    binary "!==" "binary_equality" .left expression,
    binary ">=" "binary_relation" .left expression,
    binary ">" "binary_relation" .left expression,
    binary "??" "ternary" .left expression,
    binary "instanceof" "binary_relation" .left expression,
    binary "in" "binary_relation" .left (choice [expression, ref "private_property_identifier"])]),
  define "unary_expression" (strongLeft "unary_void" (seq [
    field "operator" (choice ["!", "~", "-", "+", "typeof", "void", "delete"]),
    field "argument" expression])),
  define "update_expression" (leftmost (choice [
    seq [field "argument" expression, field "operator" (choice ["++", "--"])],
    seq [field "operator" (choice ["++", "--"]), field "argument" expression]])),
  define "sequence_expression" (rightmost (commas expression))]

/-- Literals and names. -/
def literals : List (String × Rule) := [
  define "string" (choice [
    seq ["\"", repeated (choice [
      named "string_fragment" (ref "unescaped_double_string_fragment"),
      ref "escape_sequence"]), "\""],
    seq ["'", repeated (choice [
      named "string_fragment" (ref "unescaped_single_string_fragment"),
      ref "escape_sequence"]), "'"]]),
  define "unescaped_double_string_fragment" (pattern .doubleFragment),
  define "unescaped_single_string_fragment" (pattern .singleFragment),
  define "escape_sequence" (pattern .escape),
  define "comment" (pattern .comment),
  define "template_string" (seq ["\x60", repeated (choice [
    named "string_fragment" (ref "_template_chars"), ref "escape_sequence",
    ref "template_substitution"]), "\x60"]),
  define "template_substitution" (seq ["$\x7b", ref "_expressions", closeBrace]),
  define "regex" (seq ["/", field "pattern" (ref "regex_pattern"), pattern .regexEnd,
    optional (field "flags" (ref "regex_flags"))]),
  define "regex_pattern" (pattern .regexBody),
  define "regex_flags" (pattern .regexFlags),
  define "number" (pattern .number),
  define "_identifier" (choice [ref "undefined", identifier]),
  define "identifier" (pattern .identifier),
  define "private_property_identifier" (pattern .privateName),
  define "meta_property" (choice [seq ["new", ".", "target"], seq ["import", ".", "meta"]]),
  define "this" ("this"),
  define "super" ("super"),
  define "true" ("true"),
  define "false" ("false"),
  define "null" ("null"),
  define "undefined" ("undefined"),
  define "arguments" (seq ["(",
    optional (commas (optional (choice [expression, ref "spread_element"]))), ")"]),
  define "decorator" (seq ["@", choice [
    identifier,
    asMember "decorator_member_expression",
    asCall "decorator_call_expression",
    named "parenthesized_expression" (ref "decorator_parenthesized_expression")]]),
  define "decorator_member_expression" (strong "member" (seq [
    field "object" (choice [identifier, asMember "decorator_member_expression"]), ".",
    field "property" asProperty])),
  define "decorator_call_expression" (strong "call" (seq [
    field "function" (choice [identifier, asMember "decorator_member_expression"]),
    optional (field "type_arguments" (ref "type_arguments")),
    field "arguments" (ref "arguments")]))]

private def memberHead : List Rule := [
  optional (ref "accessibility_modifier"), optional "static", optional (ref "override_modifier"),
  optional "readonly", optional "async", accessor, field "name" propertyName, optional "?",
  ref "_call_signature"]

/-- Members of classes and objects, parameters and patterns. -/
def members : List (String × Rule) := [
  define "class_body" (seq [openBrace, repeated (choice [
    seq [decorators, ref "method_definition", optional semicolon],
    seq [ref "method_signature", choice [ref "_function_signature_automatic_semicolon", ","]],
    ref "class_static_block",
    seq [choice [ref "abstract_method_signature", ref "index_signature", ref "method_signature",
      ref "public_field_definition"], choice [semicolon, ","]],
    ";"]), closeBrace]),
  define "field_definition" (seq [decorators, optional "static", field "property" propertyName,
    optional initializer]),
  define "formal_parameters" (seq ["(",
    optional (seq [commas (ref "_formal_parameter"), optional ","]), ")"]),
  define "class_static_block" (seq ["static", optional lineEnd, field "body" block]),
  define "pattern" (weighs (-1) (choice [ref "_lhs_expression", ref "rest_pattern"])),
  define "rest_pattern" (rightmost (seq ["...", ref "_lhs_expression"])),
  define "method_definition" (leftmost (seq (memberHead ++ [field "body" block]))),
  define "pair" (seq [field "key" propertyName, ":", field "value" expression]),
  define "pair_pattern" (seq [field "key" propertyName, ":",
    field "value" (choice [ref "pattern", ref "assignment_pattern"])]),
  define "_property_name" (choice [
    named "property_identifier" (choice [identifier, reserved]),
    ref "private_property_identifier", ref "string", ref "number", ref "computed_property_name"]),
  define "computed_property_name" (seq ["[", expression, "]"]),
  define "_reserved_identifier" (choice ["declare", "namespace", "type", "public", "private", "protected",
    "override", "readonly", "module", "any", "number", "boolean", "string", "symbol", "export",
    "object", "new", "readonly", choice ["get", "set", "async", "static", "export", "let"]]),
  define "_semicolon" (choice [lineEnd, ";"]),
  define "public_field_definition" (seq [decorators,
    optional (choice [
      seq ["declare", optional (ref "accessibility_modifier")],
      seq [ref "accessibility_modifier", optional "declare"]]),
    choice [
      seq [optional "static", optional (ref "override_modifier"), optional "readonly"],
      seq [optional "abstract", optional "readonly"],
      seq [optional "readonly", optional "abstract"],
      optional "accessor"],
    field "name" propertyName, optional (choice ["?", "!"]),
    field "type" (optional (ref "type_annotation")), optional initializer]),
  define "_jsx_start_opening_element" (seq ["<", optional (seq [
    choice [
      field "name" (choice [ref "_jsx_identifier", ref "jsx_namespace_name"]),
      seq [field "name" (choice [identifier, asMember "nested_identifier"]), typeArguments]],
    repeated (field "attribute" (ref "_jsx_attribute"))])]),
  define "_import_identifier" (choice [identifier, asIdentifier "type"]),
  define "non_null_expression" (strongLeft "unary" (seq [expression, "!"])),
  define "method_signature" (seq memberHead),
  define "abstract_method_signature" (seq [optional (ref "accessibility_modifier"), "abstract",
    optional (ref "override_modifier"), accessor, field "name" propertyName, optional "?",
    ref "_call_signature"]),
  define "function_signature" (seq [optional "async", "function", field "name" identifier,
    ref "_call_signature", choice [semicolon, ref "_function_signature_automatic_semicolon"]]),
  define "decorator_parenthesized_expression" (seq ["(", choice [identifier,
    asMember "decorator_member_expression", asCall "decorator_call_expression"], ")"]),
  define "type_assertion" (strongLeft "unary" (seq [ref "type_arguments", expression])),
  define "as_expression" (strongLeft "binary" (seq [expression, "as", choice ["const", typeNode]])),
  define "satisfies_expression" (strongLeft "binary" (seq [expression, "satisfies", typeNode])),
  define "instantiation_expression" (strong "instantiation" (seq [expression,
    field "type_arguments" (ref "type_arguments")])),
  define "import_require_clause" (seq [identifier, "=", "require", "(", field "source" (ref "string"), ")"]),
  define "extends_clause" (seq ["extends", commas (ref "_extends_clause_single")]),
  define "_extends_clause_single" (strong "extends" (seq [field "value" expression, typeArguments])),
  define "implements_clause" (seq ["implements", commas typeNode]),
  define "ambient_declaration" (seq ["declare", choice [
    ref "declaration",
    seq ["global", block],
    seq ["module", ".", asProperty, ":", typeNode, semicolon]]]),
  define "abstract_class_declaration" (strong "declare" (seq [decorators, "abstract", "class",
    field "name" typeIdentifier, typeParameters, optional (ref "class_heritage"),
    field "body" (ref "class_body")])),
  define "module" (seq ["module", ref "_module"]),
  define "internal_module" (seq ["namespace", ref "_module"]),
  define "_module" (rightmost (seq [
    field "name" (choice [ref "string", identifier, ref "nested_identifier"]),
    field "body" (optional block)])),
  define "import_alias" (seq ["import", identifier, "=", choice [identifier, ref "nested_identifier"],
    semicolon]),
  define "nested_type_identifier" (strong "member" (seq [
    field "module" (choice [identifier, ref "nested_identifier"]), ".",
    field "name" typeIdentifier])),
  define "interface_declaration" (seq ["interface", field "name" typeIdentifier, typeParameters,
    optional (ref "extends_type_clause"), field "body" (named "interface_body" (ref "object_type"))]),
  define "extends_type_clause" (seq ["extends", commas (field "type" (choice [typeIdentifier,
    ref "nested_type_identifier", ref "generic_type"]))]),
  define "enum_declaration" (seq [optional "const", "enum", field "name" identifier,
    field "body" (ref "enum_body")]),
  define "enum_body" (seq [openBrace, optional (seq [
    commas (choice [field "name" propertyName, ref "enum_assignment"]), optional ","]), closeBrace]),
  define "enum_assignment" (seq [field "name" propertyName, initializer]),
  define "type_alias_declaration" (seq ["type", field "name" typeIdentifier, typeParameters, "=",
    field "value" typeNode, semicolon]),
  define "accessibility_modifier" (choice ["public", "private", "protected"]),
  define "override_modifier" ("override"),
  define "required_parameter" (seq [ref "_parameter_name", field "type" (optional (ref "type_annotation")),
    optional initializer]),
  define "optional_parameter" (seq [ref "_parameter_name", "?",
    field "type" (optional (ref "type_annotation")), optional initializer]),
  define "_parameter_name" (seq [decorators, optional (ref "accessibility_modifier"),
    optional (ref "override_modifier"), optional "readonly",
    field "pattern" (choice [ref "pattern", ref "this"])])]

private def queryHead : Rule := choice [identifier, ref "this",
  asSubscript "_type_query_subscript_expression", asMember "_type_query_member_expression",
  asCall "_type_query_call_expression"]

private def queryCallee : Rule := choice [ref "import", identifier,
  asMember "_type_query_member_expression", asSubscript "_type_query_subscript_expression"]

private def annotatedMember : Rule := asMember "_type_query_member_expression_in_type_annotation"
private def annotatedCall : Rule := asCall "_type_query_call_expression_in_type_annotation"

/-- Types. -/
def types : List (String × Rule) := [
  define "omitting_type_annotation" (seq ["-?:", typeNode]),
  define "adding_type_annotation" (seq ["+?:", typeNode]),
  define "opting_type_annotation" (seq ["?:", typeNode]),
  define "type_annotation" (seq [":", choice [typeNode, annotatedMember, annotatedCall]]),
  define "_type_query_member_expression_in_type_annotation" (seq [
    field "object" (choice [ref "import", annotatedMember, annotatedCall]), ".",
    field "property" (choice [ref "private_property_identifier", asProperty])]),
  define "_type_query_call_expression_in_type_annotation" (seq [
    field "function" (choice [ref "import", annotatedMember]), field "arguments" (ref "arguments")]),
  define "asserts" (seq ["asserts", choice [ref "type_predicate", identifier, ref "this"]]),
  define "asserts_annotation" (seq [":", ref "asserts"]),
  define "type" (choice [ref "primary_type", ref "function_type", ref "readonly_type",
    ref "constructor_type", ref "infer_type", binds (.level (-1)) none annotatedMember,
    binds (.level (-1)) none annotatedCall]),
  define "tuple_parameter" (seq [field "name" (choice [identifier, ref "rest_pattern"]),
    field "type" (ref "type_annotation")]),
  define "optional_tuple_parameter" (seq [field "name" identifier, "?",
    field "type" (ref "type_annotation")]),
  define "optional_type" (seq [typeNode, "?"]),
  define "rest_type" (seq ["...", typeNode]),
  define "_tuple_type_member" (choice [
    named "required_parameter" (ref "tuple_parameter"),
    named "optional_parameter" (ref "optional_tuple_parameter"),
    ref "optional_type", ref "rest_type", typeNode]),
  define "constructor_type" (leftmost (seq [optional "abstract", "new", typeParameters,
    field "parameters" (ref "formal_parameters"), "=>", field "type" typeNode])),
  define "primary_type" (choice [ref "parenthesized_type", ref "predefined_type", typeIdentifier,
    ref "nested_type_identifier", ref "generic_type", ref "object_type", ref "array_type",
    ref "tuple_type", ref "flow_maybe_type", ref "type_query", ref "index_type_query",
    named "this_type" (ref "this"), ref "existential_type", ref "literal_type", ref "lookup_type",
    ref "conditional_type", ref "template_literal_type", ref "intersection_type", ref "union_type",
    "const"]),
  define "template_type" (seq ["$\x7b", choice [ref "primary_type", ref "infer_type"], closeBrace]),
  define "template_literal_type" (seq ["\x60", repeated (choice [
    named "string_fragment" (ref "_template_chars"), ref "template_type"]), "\x60"]),
  define "infer_type" (rightmost (seq ["infer", typeIdentifier, optional (seq ["extends", typeNode])])),
  define "conditional_type" (rightmost (seq [field "left" typeNode, "extends", field "right" typeNode, "?",
    field "consequence" typeNode, ":", field "alternative" typeNode])),
  define "generic_type" (strong "call" (seq [
    field "name" (choice [typeIdentifier, ref "nested_type_identifier"]),
    field "type_arguments" (ref "type_arguments")])),
  define "type_predicate" (seq [
    field "name" (choice [identifier, ref "this", asIdentifier (ref "predefined_type")]), "is",
    field "type" typeNode]),
  define "type_predicate_annotation" (seq [":", ref "type_predicate"]),
  define "_type_query_member_expression" (seq [field "object" queryHead, choice [".", "?."],
    field "property" (choice [ref "private_property_identifier", asProperty])]),
  define "_type_query_subscript_expression" (seq [field "object" queryHead, optional "?.", "[",
    field "index" (choice [ref "predefined_type", ref "string", ref "number"]), "]"]),
  define "_type_query_call_expression" (seq [field "function" queryCallee,
    field "arguments" (ref "arguments")]),
  define "_type_query_instantiation_expression" (seq [field "function" queryCallee,
    field "type_arguments" (ref "type_arguments")]),
  define "type_query" (rightmost (seq ["typeof", choice [
    asSubscript "_type_query_subscript_expression", asMember "_type_query_member_expression",
    asCall "_type_query_call_expression",
    named "instantiation_expression" (ref "_type_query_instantiation_expression"),
    identifier, ref "this"]])),
  define "index_type_query" (seq ["keyof", ref "primary_type"]),
  define "lookup_type" (seq [ref "primary_type", "[", typeNode, "]"]),
  define "mapped_type_clause" (seq [field "name" typeIdentifier, "in", field "type" typeNode,
    optional (seq ["as", field "alias" typeNode])]),
  define "literal_type" (choice [named "unary_expression" (ref "_number"), ref "number", ref "string",
    ref "true", ref "false", ref "null", ref "undefined"]),
  define "_number" (binds (.level 1) (some .left) (seq [field "operator" (choice ["-", "+"]),
    field "argument" (ref "number")])),
  define "existential_type" ("*"),
  define "flow_maybe_type" (rightmost (seq ["?", ref "primary_type"])),
  define "parenthesized_type" (seq ["(", typeNode, ")"]),
  define "predefined_type" (choice ["any", "number", "boolean", "string", "symbol",
    renamed "unique symbol" false (seq ["unique", "symbol"]), "void", "unknown", "string", "never",
    "object"]),
  define "type_arguments" (seq ["<", commas typeNode, optional ",", ">"]),
  define "object_type" (seq [choice [openBrace, "\x7b|"],
    optional (seq [
      optional (choice [",", ";"]),
      separated (choice [",", semicolon]) (choice [ref "export_statement", ref "property_signature",
        ref "call_signature", ref "construct_signature", ref "index_signature",
        ref "method_signature"]),
      optional (choice [",", semicolon])]),
    choice [closeBrace, "|\x7d"]]),
  define "call_signature" (ref "_call_signature"),
  define "property_signature" (seq [optional (ref "accessibility_modifier"), optional "static",
    optional (ref "override_modifier"), optional "readonly", field "name" propertyName,
    optional "?", field "type" (optional (ref "type_annotation"))]),
  define "type_parameters" (seq ["<", commas (ref "type_parameter"), optional ",", ">"]),
  define "type_parameter" (seq [optional "const", field "name" typeIdentifier,
    field "constraint" (optional (ref "constraint")),
    field "value" (optional (ref "default_type"))]),
  define "default_type" (seq ["=", typeNode]),
  define "constraint" (seq [choice ["extends", ":"], typeNode]),
  define "construct_signature" (seq [optional "abstract", "new", typeParameters,
    field "parameters" (ref "formal_parameters"), field "type" (optional (ref "type_annotation"))]),
  define "index_signature" (seq [
    optional (seq [field "sign" (optional (choice ["-", "+"])), "readonly"]), "[",
    choice [
      seq [field "name" (choice [identifier, asIdentifier reserved]), ":",
        field "index_type" typeNode],
      ref "mapped_type_clause"],
    "]",
    field "type" (choice [ref "type_annotation", ref "omitting_type_annotation",
      ref "adding_type_annotation", ref "opting_type_annotation"])]),
  define "array_type" (seq [ref "primary_type", "[", "]"]),
  define "tuple_type" (seq ["[", optional (commas (ref "_tuple_type_member")), optional ",", "]"]),
  define "readonly_type" (seq ["readonly", typeNode]),
  define "union_type" (leftmost (seq [optional typeNode, "|", typeNode])),
  define "intersection_type" (leftmost (seq [optional typeNode, "&", typeNode])),
  define "function_type" (leftmost (seq [typeParameters, field "parameters" (ref "formal_parameters"),
    "=>", field "return_type" (choice [typeNode, ref "asserts", ref "type_predicate"])])),
  define "_type_identifier" (named "type_identifier" identifier)]

private def s (name : String) : Rank := .strength name
private def n (rule : String) : Rank := .node rule

/-- The orderings of strengths, strongest first. -/
def ranks : List (List Rank) := [
  [s "member", s "template_call", s "call", n "update_expression", s "unary_void", s "binary_exp",
    s "binary_times", s "binary_plus", s "binary_shift", s "binary_compare", s "binary_relation",
    s "binary_equality", s "bitwise_and", s "bitwise_xor", s "bitwise_or", s "logical_and",
    s "logical_or", s "ternary", n "sequence_expression", n "arrow_function"],
  [s "assign", n "primary_expression"],
  [s "member", s "template_call", s "new", s "call", n "expression"],
  [s "declare", s "literal"],
  [n "primary_expression", n "statement_block", s "object"],
  [n "meta_property", n "import"],
  [n "import_statement", n "import"],
  [n "export_statement", n "primary_expression"],
  [n "lexical_declaration", n "primary_expression"],
  [s "call", s "instantiation", s "unary", s "binary", n "await_expression", n "arrow_function"],
  [s "extends", s "instantiation"],
  [n "intersection_type", n "union_type", n "conditional_type", n "function_type", s "binary",
    n "type_predicate", n "readonly_type"],
  [n "mapped_type_clause", n "primary_expression"],
  [n "accessibility_modifier", n "primary_expression"],
  [s "unary_void", n "expression"],
  [n "extends_clause", n "primary_expression"],
  [s "unary", s "assign"],
  [s "declare", n "expression"],
  [n "predefined_type", n "unary_expression"],
  [n "type", n "flow_maybe_type"],
  [n "tuple_type", n "array_type", n "pattern", n "type"],
  [n "readonly_type", n "pattern"],
  [n "readonly_type", n "primary_expression"],
  [n "type_query", n "subscript_expression", n "expression"],
  [n "type_query", n "_type_query_subscript_expression"],
  [n "nested_type_identifier", n "generic_type", n "primary_type", n "lookup_type",
    n "index_type_query", n "type"],
  [n "as_expression", n "satisfies_expression", n "primary_type"],
  [n "_type_query_member_expression", n "member_expression"],
  [n "member_expression", n "_type_query_member_expression_in_type_annotation"],
  [n "_type_query_member_expression", n "primary_expression"],
  [n "_type_query_subscript_expression", n "subscript_expression"],
  [n "_type_query_subscript_expression", n "primary_expression"],
  [n "_type_query_call_expression", n "primary_expression"],
  [n "_type_query_instantiation_expression", n "primary_expression"],
  [n "type_query", n "primary_expression"],
  [n "override_modifier", n "primary_expression"],
  [n "decorator_call_expression", n "decorator"],
  [n "literal_type", n "pattern"],
  [n "predefined_type", n "pattern"],
  [n "call_expression", n "_type_query_call_expression"],
  [n "call_expression", n "_type_query_call_expression_in_type_annotation"],
  [n "new_expression", n "primary_expression"],
  [n "meta_property", n "primary_expression"],
  [n "construct_signature", n "_property_name"]]

/-- The grammar of one dialect. -/
def script (flavor : Flavor) : RuleBook where
  rules := declarations ++ expressions flavor ++ tags ++ functions ++ literals ++ members ++ types
  supertypes := ["statement", "declaration", "expression", "primary_expression", "pattern", "type",
    "primary_type"]
  inlined := ["_expressions", "_semicolon", "_identifier", "_reserved_identifier", "_jsx_attribute",
    "_jsx_element_name", "_jsx_child", "_jsx_element", "_jsx_attribute_name",
    "_jsx_attribute_value", "_jsx_identifier", "_lhs_expression", "_type_identifier",
    "_jsx_start_opening_element"]
  layout := [("_automatic_semicolon", .lineEnd), ("_template_chars", .templateChars),
    ("_ternary_qmark", .ternaryMark), ("html_comment", .htmlComment), ("jsx_text", .markupText),
    ("_function_signature_automatic_semicolon", .signatureEnd), ("__error_recovery", .sentinel)]
  extras := ["comment", "html_comment"]
  word := "identifier"
  ranks := ranks

end AnySpans.Grammar.Script
