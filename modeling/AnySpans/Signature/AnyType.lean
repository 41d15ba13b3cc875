/-!
# Signatures of type any

A signature is the one-line declaration a type server shows for an identifier.  `isAnyType` says
whether it declares a value of type `any`: it is the bare word, or it ends in a colon and the word,
the colon not after a closing parenthesis, where it would give the result of a function.
-/

namespace AnySpans.Signature

/-- The end of a declaration of type `any`, reversed. -/
def anySuffix : List Char := "yna :".toList

/-- Whether a text ends in `: any` after a character other than a closing parenthesis. -/
def endsInAny (signature : List Char) : Bool :=
  let r := signature.reverse
  anySuffix.isPrefixOf r &&
    match r.drop anySuffix.length with
    | [] => false
    | c :: _ => c != ')'

/-- Whether a signature declares a value of type `any`; declarations of types do not. -/
def isAnyType (signature : String) : Bool :=
  let cs := signature.toList
  (cs == "any".toList || endsInAny cs) && !"type ".toList.isPrefixOf cs

end AnySpans.Signature
