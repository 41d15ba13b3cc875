import AnySpans.Decoding.Mismatch

/-!
# What can go wrong with the type server

A `Failure` is the cause why a command or a question to the type server came to nothing.  Those who
only want to know about types see it as an `Inability`.
-/

namespace AnySpans.Server

open AnySpans.Decoding

inductive Failure where
  /-- The connection has ended. -/
  | stopped
  /-- No response came in time. -/
  | noResponse (command : String) (timeout : Nat)
  /-- The response has no body. -/
  | noBody (command : String)
  /-- The body does not fit. -/
  | unfit (m : Mismatch)
  /-- The server does not read any more. -/
  | brokenPipe
deriving Repr, Inhabited

/-- The wording of a failure. -/
def Failure.message : Failure → String
  | stopped => "tsserver stopped"
  | noResponse command timeout =>
    "no response to '" ++ command ++ "' within " ++ toString timeout ++ "ms"
  | noBody command => "protocol error: '" ++ command ++ "' succeeded without a body"
  | unfit m => "deserialization failed: " ++ m.message
  | brokenPipe => "broken pipe"

/-- Why a type is not known. -/
inductive Inability where
  /-- There is no server. -/
  | unavailable (reason : String)
  | timedOut
  /-- The question failed. -/
  | failed (reason : String)
deriving DecidableEq, Repr, Inhabited

/-- The wording of an inability. -/
def Inability.message : Inability → String
  | unavailable reason => "type server unavailable: " ++ reason
  | timedOut => "type server request timed out"
  | failed reason => "type server request failed: " ++ reason

/-- What a failure means to those who ask about types. -/
def Inability.ofFailure : Failure → Inability
  | .stopped => unavailable Failure.stopped.message
  | .noResponse _ _ => timedOut
  | f => failed f.message

end AnySpans.Server
