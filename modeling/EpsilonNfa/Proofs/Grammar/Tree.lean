import EpsilonNfa.Proofs.Fragment.Language
import EpsilonNfa.Proofs.Pattern.Lexing

/-!
The grammar of patterns, as derivation trees:

    expression   E ::= T | E '|' T
    term         T ::= F | T '.' F | T F
    factor       F ::= A | F '*'
    atom         A ::= symbol | '(' E ')'

A tree has its tokens in the order of writing, its postorder (operands first, then the operator,
parentheses dropped) and the language that it denotes. It derives a pattern when its symbols are
letters and digits and its tokens spell the pattern.
-/

namespace EpsilonNfa

open Computability

/-- The nonterminals. -/
inductive Nonterminal where
  | expression
  | term
  | factor
  | atom

/-- A derivation tree. A concatenation is `dotted` when it is written as an operator. -/
inductive Tree : Nonterminal → Type where
  | ofTerm (t : Tree .term) : Tree .expression
  | union (e : Tree .expression) (t : Tree .term) : Tree .expression
  | ofFactor (f : Tree .factor) : Tree .term
  | concat (dotted : Bool) (t : Tree .term) (f : Tree .factor) : Tree .term
  | ofAtom (a : Tree .atom) : Tree .factor
  | star (f : Tree .factor) : Tree .factor
  | symbol (s : Symbol) : Tree .atom
  | group (e : Tree .expression) : Tree .atom

namespace Tree

/-- The token between the operands of a concatenation, if there is one. -/
def dot (dotted : Bool) : List Token :=
  if dotted then [.operator .concat] else []

/-- The tokens of a tree as they are written. -/
def tokens : {n : Nonterminal} → Tree n → List Token
  | _, ofTerm t => t.tokens
  | _, union e t => e.tokens ++ .operator .union :: t.tokens
  | _, ofFactor f => f.tokens
  | _, concat dotted t f => t.tokens ++ (dot dotted ++ f.tokens)
  | _, ofAtom a => a.tokens
  | _, star f => f.tokens ++ [.operator .star]
  | _, symbol s => [.symbol s]
  | _, group e => .operator .openParen :: (e.tokens ++ [.operator .closeParen])

/-- The tokens of a tree when every concatenation is dotted. -/
def spelled : {n : Nonterminal} → Tree n → List Token
  | _, ofTerm t => t.spelled
  | _, union e t => e.spelled ++ .operator .union :: t.spelled
  | _, ofFactor f => f.spelled
  | _, concat _ t f => t.spelled ++ .operator .concat :: f.spelled
  | _, ofAtom a => a.spelled
  | _, star f => f.spelled ++ [.operator .star]
  | _, symbol s => [.symbol s]
  | _, group e => .operator .openParen :: (e.spelled ++ [.operator .closeParen])

/-- The postorder of a tree. -/
def ordered : {n : Nonterminal} → Tree n → List Token
  | _, ofTerm t => t.ordered
  | _, union e t => e.ordered ++ t.ordered ++ [.operator .union]
  | _, ofFactor f => f.ordered
  | _, concat _ t f => t.ordered ++ f.ordered ++ [.operator .concat]
  | _, ofAtom a => a.ordered
  | _, star f => f.ordered ++ [.operator .star]
  | _, symbol s => [.symbol s]
  | _, group e => e.ordered

/-- The language that a tree denotes. -/
def language : {n : Nonterminal} → Tree n → Language Char
  | _, ofTerm t => t.language
  | _, union e t => e.language + t.language
  | _, ofFactor f => f.language
  | _, concat _ t f => t.language * f.language
  | _, ofAtom a => a.language
  | _, star f => f.language∗
  | _, symbol s => {s.word}
  | _, group e => e.language

/-- A tree derives a pattern: its symbols are ASCII letters and digits, and its tokens spell the
    pattern. -/
structure Derives (e : Tree .expression) (pattern : String) : Prop where
  lexical : ∀ token ∈ e.tokens, token.Lexical
  display_tokens : Token.display e.tokens = pattern

end Tree

end EpsilonNfa
