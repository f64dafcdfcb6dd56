/-! The failures that end a rendering, and their wording. Anything else that goes wrong
leaves a comment or nothing in the output. -/

namespace Stencil

inductive RenderError where
  | templateNotFound (name : String)
  | aliasNotRegistered (short : String)
  | parentNotFound (parent child : String)
  /-- The chain runs from the outermost name to the refused one. -/
  | recursionLimit (limit : Nat) (chain : List String)
deriving DecidableEq, Repr

def RenderError.message : RenderError → String
  | .templateNotFound name => "template not found: " ++ name
  | .aliasNotRegistered short => "alias not registered: " ++ short
  | .parentNotFound parent child =>
    "parent template not found: " ++ parent ++ " (extended by " ++ child ++ ")"
  | .recursionLimit limit chain =>
    "render depth limit of " ++ toString limit ++ " exceeded: " ++ String.intercalate " -> " chain

inductive ComponentError where
  | render (error : RenderError)
  | failed (message : String)
deriving DecidableEq, Repr

def ComponentError.message : ComponentError → String
  | .render error => error.message
  | .failed message => message

/-- Why a rendering gave no text. -/
inductive Halt where
  | failed (error : RenderError)
  /-- Adapters that forward to each other in a circle never reach a component. -/
  | unending
deriving DecidableEq, Repr

end Stencil
