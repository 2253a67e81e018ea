import EpsilonNfa.Pattern.Fault

/-!
Reading a pattern into tokens. Every character is a token of its own, so a pattern is read by
mapping its characters; the first one that writes no token is the fault.
-/

namespace EpsilonNfa

/-- A character of the pattern alphabet. -/
def Token.admits (c : Char) : Bool :=
  (Token.ofChar? c).isSome

/-- The tokens of a pattern, or the first character outside the alphabet. -/
def tokenize (pattern : String) : Except PatternFault (List Token) :=
  match pattern.toList.dropWhile Token.admits with
  | [] => .ok (pattern.toList.filterMap Token.ofChar?)
  | rest =>
    .error (.unexpectedCharacter (String.ofList (pattern.toList.takeWhile Token.admits))
      (String.ofList rest))

end EpsilonNfa
