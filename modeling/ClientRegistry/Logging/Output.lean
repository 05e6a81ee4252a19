import ClientRegistry.Logging.JsonLine

/-! What the handlers of a state write for an entry. -/

namespace ClientRegistry.Logging

def Layout.text? (layout : Layout) (e : Entry) : Option (List Char) :=
  match layout with
  | .container => e.containerText?
  | .json => e.jsonText?

/-- One handler's output; an entry that cannot be laid out is dropped. -/
def Layout.output (layout : Layout) (e : Entry) : List Char :=
  match layout.text? e with
  | some text => text ++ ['\n']
  | none => []

/-- Entries below the threshold of their logger are dropped. -/
def State.output (s : State) (e : Entry) : List Char :=
  if s.handles e.logger e.level then s.handlers.flatMap fun layout => layout.output e else []

end ClientRegistry.Logging
