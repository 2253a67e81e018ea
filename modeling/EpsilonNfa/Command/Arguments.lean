import EpsilonNfa.Flags

/-!
The arguments of the command line: the input, the output and perhaps a graph, with options before,
between or after them. Everything that begins with two dashes is an option.
-/

namespace EpsilonNfa.Command

/-- What a run is asked to do. -/
structure Arguments where
  input : String
  output : String
  graph : Option String
  flags : Flags
  deriving DecidableEq, Repr

/-- The option that sets `Flags.emptyLanguage`. -/
def emptyLanguageOption : String := "--empty-language"

/-- The option that sets `Flags.sharedStar`. -/
def sharedStarOption : String := "--shared-star"

/-- An argument is an option and not a path. -/
def isOption (argument : String) : Bool :=
  argument.toList.take 2 = ['-', '-']

/-- An argument is an option that is known. -/
def isKnown (argument : String) : Bool :=
  argument = emptyLanguageOption || argument = sharedStarOption

namespace Arguments

/-- The paths among the arguments, in order. -/
def paths (arguments : List String) : List String :=
  arguments.filter fun argument => !isOption argument

/-- The flags that the arguments set. -/
def flagsOf (arguments : List String) : Flags where
  emptyLanguage := arguments.contains emptyLanguageOption
  sharedStar := arguments.contains sharedStarOption

/-- What the arguments ask for; `none` for an unknown option or the wrong number of paths. -/
def parse? (arguments : List String) : Option Arguments :=
  if (arguments.filter isOption).all isKnown then
    match paths arguments with
    | [input, output] => some ⟨input, output, none, flagsOf arguments⟩
    | [input, output, graph] => some ⟨input, output, some graph, flagsOf arguments⟩
    | _ => none
  else none

end Arguments

end EpsilonNfa.Command
