import EpsilonNfa.Main
import EpsilonNfa.Proofs.Builder.Session
import EpsilonNfa.Proofs.Compile.Language
import EpsilonNfa.Proofs.Automaton.Discovery
import EpsilonNfa.Proofs.Automaton.Naming
import EpsilonNfa.Proofs.Automaton.Table
import EpsilonNfa.Proofs.Fragment.Assembly
import EpsilonNfa.Proofs.Builder.Construction
import EpsilonNfa.Proofs.Compile.Assembly
import EpsilonNfa.Proofs.Compile.Table
import EpsilonNfa.Proofs.Automaton.Trim
import EpsilonNfa.Proofs.Compile.Trim
import EpsilonNfa.Proofs.Automaton.Renaming
import EpsilonNfa.Proofs.Builder.InPlace
import EpsilonNfa.Proofs.Grammar.Faults
import EpsilonNfa.Proofs.Compile.Faults
import EpsilonNfa.Proofs.Automaton.Rearrangement
import EpsilonNfa.Proofs.Table.Rendering
import EpsilonNfa.Proofs.Grammar.Dots
import EpsilonNfa.Proofs.Compile.Dots
import EpsilonNfa.Proofs.Compile.Drawing
import EpsilonNfa.Proofs.Grammar.Binding
import EpsilonNfa.Proofs.Compile.Conventions
import EpsilonNfa.Proofs.Compile.Letters
import EpsilonNfa.Proofs.Command.Run
import EpsilonNfa.Proofs.Automaton.BreadthFirst
import EpsilonNfa.Proofs.Builder.NormalForm
import EpsilonNfa.Proofs.Builder.Operands
import EpsilonNfa.Proofs.Builder.Size
import EpsilonNfa.Proofs.Builder.Growth
import EpsilonNfa.Proofs.Builder.Wrapping
import EpsilonNfa.Proofs.Builder.FixedWidth
import EpsilonNfa.Proofs.Builder.Reuse
import EpsilonNfa.Proofs.Grammar.OperatorLast
import EpsilonNfa.Proofs.Pattern.Scanning
import EpsilonNfa.Proofs.Request.Reading
import EpsilonNfa.Proofs.Compile.Caret
