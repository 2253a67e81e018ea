import EpsilonNfa.Automaton.Basic

/-!
The drawing of an automaton in the DOT language. After a fixed header come one line for each state
that can be reached, one for the entry, and one for each visited transition:

    q1[label="q1" shape=doublecircle]     a state, its circle doubled when it accepts
    entry -> q0                           the entry
    q0 -> q1[label="ε" style=dashed]      a silent move
    q0 -> q1[label="a"]                   a move on a letter
-/

namespace EpsilonNfa

namespace Drawing

/-- One line of a drawing. -/
inductive Line where
  | node (name : String) (final : Bool)
  | entry (name : String)
  | edge (source : String) (symbol : Symbol) (target : String)
  deriving DecidableEq, Repr

/-- The text of a line, without its indentation. -/
def Line.render : Line → String
  | node name final =>
    name ++ "[label=\"" ++ name ++ "\" shape=" ++ (if final then "doublecircle" else "circle")
      ++ "]"
  | entry name => "entry -> " ++ name
  | edge source symbol target =>
    source ++ " -> " ++ target ++ "[label=\"" ++ String.singleton symbol.toChar ++ "\""
      ++ (if symbol = .epsilon then " style=dashed]" else "]")

/-- The lines that every drawing begins with. -/
def header : List String :=
  ["rankdir=\"LR\"", "graph [fontname = \"Courier New\"];", "node [fontname = \"verdana\"];",
    "edge [fontname = \"verdana\"];", "entry [label=\"\" shape=none width=0 height=0]"]

/-- A line of the text, indented and ended. -/
def indented (line : String) : String :=
  "  " ++ line ++ "\n"

/-- The text of a drawing. -/
def render (lines : List Line) : String :=
  "digraph NFA \x7b\n" ++ String.join ((header ++ lines.map Line.render).map indented) ++ "\x7d\n"

end Drawing

namespace Automaton

/-- The lines of the drawing of an automaton, after the header. -/
def drawing (a : Automaton) : List Drawing.Line :=
  a.orderedStates.map (fun state => .node (state.name.getD "") (a.isFinal state.id))
    ++ .entry a.startName
    :: a.visitedTransitions.map fun t => .edge (a.label t.source) t.symbol (a.label t.target)

/-- The drawing of an automaton as DOT text. -/
def toDot (a : Automaton) : String :=
  Drawing.render a.drawing

end Automaton

end EpsilonNfa
