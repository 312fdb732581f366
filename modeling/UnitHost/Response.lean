import UnitHost.Text.Quoted

/-!
# Responses

What a submission is answered with.
-/

namespace UnitHost

/-- The answer to a submission. -/
inductive Response where
  /-- A rendered result. -/
  | output (text : String)
  /-- A failure, reported by the evaluator or met by the host. -/
  | error (text : String)
  deriving DecidableEq, Repr

namespace Response

/-- Whether it is a result. -/
def isOutput : Response → Bool
  | output _ => true
  | error _ => false

/-- The text, whichever it is. -/
def text : Response → String
  | output text | error text => text

/-- The response as log records show it. -/
def quoted : Response → String
  | output text => s!"Output({Text.quote text})"
  | error text => s!"Error({Text.quote text})"

end Response

end UnitHost
