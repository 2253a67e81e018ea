import EpsilonNfa.Flags
import EpsilonNfa.Fragment.Relabel
import EpsilonNfa.Pattern.Fault

/-!
Building a fragment from an operator-last sequence. A builder hands out state numbers from a
counter that only grows. A combinator first takes its own states, then moves its operands to fresh
numbers and links them; the left operand of a concatenation stays where it is. The sequence itself
runs over a stack of fragments: a symbol puts one on it, an operator takes its operands from it and
puts the result back, and in the end one fragment has to be left.

Numbers stay taken when a combinator fails, so every operation gives a builder back.
-/

namespace EpsilonNfa

/-- Why no fragment was built. -/
inductive BuildFault where
  /-- The sequence is not an expression. -/
  | pattern (fault : PatternFault)
  /-- An operand mentions a state that it does not list. -/
  | dangling
  deriving DecidableEq, Repr

/-- The conventions in force and the next state number to hand out. -/
structure Builder where
  flags : Flags
  next : Nat
  deriving DecidableEq, Repr

namespace Builder

/-- A builder that has handed out no number yet. -/
def new (flags : Flags) : Builder := ⟨flags, 0⟩

/-- A fresh state number. -/
def fresh (b : Builder) : Nat × Builder :=
  (b.next, { b with next := b.next + 1 })

/-- Moves an operand to fresh numbers, one for each state it lists. -/
def relabel (b : Builder) (f : Fragment) : Option Fragment × Builder :=
  (f.relabel? b.next, { b with next := b.next + f.states.length })

/-- The fragment of the pattern without tokens. -/
def empty (b : Builder) : Fragment × Builder :=
  let (id, b) := b.fresh
  (if b.flags.emptyLanguage then .blind id else .point id, b)

/-- The fragment that reads one symbol. -/
def literal (b : Builder) (symbol : Symbol) : Fragment × Builder :=
  let (start, b) := b.fresh
  match symbol with
  | .epsilon => (.point start, b)
  | .letter _ =>
    let (exit, b) := b.fresh
    (.arrow start exit symbol, b)

/-- `left`, then `right`. -/
def concatenation (b : Builder) (left right : Fragment) : Option Fragment × Builder :=
  match b.relabel right with
  | (none, b) => (none, b)
  | (some right, b) => (some (left.concatenate right), b)

/-- `upper` or `lower`. -/
def alternation (b : Builder) (upper lower : Fragment) : Option Fragment × Builder :=
  let (start, b) := b.fresh
  let (exit, b) := b.fresh
  match b.relabel upper with
  | (none, b) => (none, b)
  | (some upper, b) =>
    match b.relabel lower with
    | (none, b) => (none, b)
    | (some lower, b) => (some (.alternate start exit upper lower), b)

/-- `inner`, any number of times. -/
def kleeneStar (b : Builder) (inner : Fragment) : Option Fragment × Builder :=
  let (start, b) := b.fresh
  if b.flags.sharedStar then
    match b.relabel inner with
    | (none, b) => (none, b)
    | (some inner, b) => (some (.iterateShared start inner), b)
  else
    let (exit, b) := b.fresh
    match b.relabel inner with
    | (none, b) => (none, b)
    | (some inner, b) => (some (.iterate start exit inner), b)

/-- The stack with the result of a combinator on top. -/
def push (below : List Fragment) :
    Option Fragment × Builder → Except BuildFault (List Fragment) × Builder
  | (some f, b) => (.ok (f :: below), b)
  | (none, b) => (.error .dangling, b)

/-- One token of the sequence, on a stack whose top comes first. -/
def step (b : Builder) (stack : List Fragment) :
    Token → Except BuildFault (List Fragment) × Builder
  | .symbol s =>
    let (f, b) := b.literal s
    (.ok (f :: stack), b)
  | .operator .star =>
    match stack with
    | inner :: below => push below (b.kleeneStar inner)
    | _ => (.error (.pattern (.missingOperand .star)), b)
  | .operator .concat =>
    match stack with
    | right :: left :: below => push below (b.concatenation left right)
    | _ => (.error (.pattern (.missingOperand .concat)), b)
  | .operator .union =>
    match stack with
    | lower :: upper :: below => push below (b.alternation upper lower)
    | _ => (.error (.pattern (.missingOperand .union)), b)
  | .operator .openParen => (.error (.pattern (.strayParenthesis .openParen)), b)
  | .operator .closeParen => (.error (.pattern (.strayParenthesis .closeParen)), b)

/-- The tokens of a sequence one by one, up to the first fault. -/
def run (b : Builder) (stack : List Fragment) :
    List Token → Except BuildFault (List Fragment) × Builder
  | [] => (.ok stack, b)
  | token :: rest =>
    match b.step stack token with
    | (.ok stack, b) => run b stack rest
    | (.error fault, b) => (.error fault, b)

/-- The fragment of an operator-last sequence. -/
def build (b : Builder) (tokens : List Token) : Except BuildFault Fragment × Builder :=
  match b.run [] tokens with
  | (.ok [f], b) => (.ok f, b)
  | (.ok stack, b) => (.error (.pattern (.fragmentCount stack.length)), b)
  | (.error fault, b) => (.error fault, b)

end Builder

end EpsilonNfa
