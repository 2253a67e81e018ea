import EpsilonNfa.Compile

/-!
What a compilation notes as it goes: one event for every stage that succeeds, as data. The events of
an operation are read off the same functions that do its work, so a list of events says which stages
were passed and with what result. Levels, components and wording are fixed here alone.
-/

namespace EpsilonNfa

/-- The part of the library that an event comes from. -/
inductive Component where
  | parser
  | construction
  | storage
  deriving DecidableEq, Repr

/-- How detailed an event is. -/
inductive Level where
  | debug
  | trace
  deriving DecidableEq, Repr

/-- Something that has been done. -/
inductive Event where
  | tokenized (pattern : String) (count : Nat)
  | expanded (tokens : List Token)
  | reordered (tokens : List Token)
  | building (pattern : String) (tokens : List Token)
  | combined (token : Token) (states transitions : Nat)
  | unreachable (count : Nat)
  | compiled (pattern : String) (states transitions finals : Nat)
  | readPattern (pattern path : String)
  | wrote (bytes : Nat) (path : String)
  deriving DecidableEq, Repr

namespace Event

/-- The part of the library that an event comes from. -/
def component : Event → Component
  | tokenized .. | expanded _ | reordered _ => .parser
  | building .. | combined .. | unreachable _ | compiled .. => .construction
  | readPattern .. | wrote .. => .storage

/-- The detail of an event: single tokens and single fragments are traced. -/
def level : Event → Level
  | tokenized .. | combined .. => .trace
  | _ => .debug

/-- The text of an event. -/
def message : Event → String
  | tokenized pattern count =>
    "tokenized " ++ Text.quoted pattern ++ " into " ++ count.repr ++ " tokens"
  | expanded tokens => "expanded concatenation: " ++ Token.display tokens
  | reordered tokens => "postfix: " ++ Token.display tokens
  | building pattern tokens =>
    "building " ++ Text.quoted pattern ++ " from postfix " ++ Token.display tokens
  | combined token states transitions =>
    String.singleton token.toChar ++ ": fragment with " ++ states.repr ++ " states, "
      ++ transitions.repr ++ " transitions"
  | unreachable count => count.repr ++ " states unreachable from the start state"
  | compiled pattern states transitions finals =>
    "compiled " ++ Text.quoted pattern ++ ": " ++ states.repr ++ " states, "
      ++ transitions.repr ++ " transitions, " ++ finals.repr ++ " final"
  | readPattern pattern path => "read pattern " ++ Text.quoted pattern ++ " from " ++ path
  | wrote bytes path => "wrote " ++ bytes.repr ++ " bytes to " ++ path

end Event

/-! ### The events of each operation -/

/-- Reading a pattern into tokens. -/
def tokenizeEvents (pattern : String) : List Event :=
  match tokenize pattern with
  | .ok tokens => [.tokenized pattern tokens.length]
  | .error _ => []

/-- Making concatenations explicit. -/
def expandEvents (tokens : List Token) : List Event :=
  [.expanded (expandConcatenation tokens)]

/-- Putting tokens in operator-last order. -/
def reorderEvents (tokens : List Token) : List Event :=
  match toPostfix tokens with
  | .ok ordered => [.reordered ordered]
  | .error _ => []

/-- The tokens of a sequence on a stack of fragments, one event for each that passes. -/
def Builder.runEvents (b : Builder) (stack : List Fragment) : List Token → List Event
  | [] => []
  | token :: rest =>
    match b.step stack token with
    | (.ok stack, b) =>
      (stack.head?.map fun f => .combined token f.states.length f.transitions.length).toList
        ++ runEvents b stack rest
    | (.error _, _) => []

/-- Building the fragment of an operator-last sequence. -/
def Builder.buildEvents (b : Builder) (tokens : List Token) : List Event :=
  b.runEvents [] tokens

/-- Naming the states of a fragment. -/
def finishEvents (f : Fragment) : List Event :=
  match (Automaton.ofFragment f).surplus with
  | 0 => []
  | count => [.unreachable count]

/-- Compiling a pattern. -/
def compileEvents (flags : Flags) (pattern : String) : List Event :=
  tokenizeEvents pattern ++
  match tokenize pattern with
  | .error _ => []
  | .ok tokens =>
    (if tokens = [] then []
    else
      expandEvents tokens ++ reorderEvents (expandConcatenation tokens) ++
      match arrange tokens with
      | .error _ => []
      | .ok ordered => .building pattern ordered :: (Builder.new flags).buildEvents ordered) ++
    match fragmentOf flags pattern with
    | .error _ => []
    | .ok f =>
      finishEvents f ++
        [.compiled pattern f.states.length f.transitions.length f.accept.length]

end EpsilonNfa
