import ClassForge.Pool.Entry

namespace ClassForge

inductive Argument where
  /-- A parameter of the passing constructor, the handler not counted. -/
  | parameter (position : Nat)
  | literal (value : Literal)
  | null
deriving DecidableEq, Repr

def Argument.shown : Argument → String
  | parameter i => s!"Parameter({i})"
  | literal l => s!"Literal({l.shown})"
  | null => "Null"

end ClassForge
