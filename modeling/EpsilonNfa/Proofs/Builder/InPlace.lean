import EpsilonNfa.Proofs.Automaton.Renaming
import EpsilonNfa.Proofs.Builder.Construction

/-!
The construction that leaves its operands where they are. It gives an assembly of the same
expression as the construction that moves them, so the two fragments differ in nothing but the
numbers of their states, and their automata have the same table and the same drawing. That holds
because operands on the stack never share a number; a session that combines a fragment with itself
needs the move.
-/

namespace EpsilonNfa

/-- Two assemblies of one expression are renamed into each other by a renaming that is one to one
    on all numbers. -/
theorem Assembled.exists_injective_map {shared : Bool} {e : Expression} {f g : Fragment}
    (hf : Assembled shared e f) (hg : Assembled shared e g) :
    ∃ σ : Nat → Nat, Function.Injective σ ∧ f = g.map σ := by
  obtain ⟨σ, rfl⟩ := hf.exists_map hg
  have hnodup := hf.nodup
  rw [Fragment.ids_map] at hnodup
  obtain ⟨τ, hτ, heq⟩ := exists_injective_extension fun p hp q hq =>
    List.inj_on_of_nodup_map hnodup hp hq
  exact ⟨τ, hτ, Fragment.map_congr hg.closed fun i hi => (heq i hi).symm⟩

namespace Builder

/-- On a sequence that passes the arity check, the construction without moves gives the same
    fragment up to a one-to-one renaming of its states, and the same table and drawing. -/
theorem build_eq_map_stay (b : Builder) {tokens : List Token} (h : checkArity tokens = .ok ()) :
    b.build tokens = b.buildWith relabel tokens ∧ ∃ f g σ,
      (b.build tokens).1 = .ok f ∧ (b.buildWith stay tokens).1 = .ok g ∧
      Function.Injective σ ∧ f = g.map σ ∧
      Table.ofAutomaton (.ofFragment f) = Table.ofAutomaton (.ofFragment g) ∧
      (Automaton.ofFragment f).toDot = (Automaton.ofFragment g).toDot := by
  refine ⟨(b.buildWith_relabel tokens).symm, ?_⟩
  obtain ⟨e, rfl⟩ := checkArity_eq_ok_iff.1 h
  obtain ⟨f, hbuild, hf⟩ := exists_assembled_buildWith sound_relabel e b
  obtain ⟨g, hstay, hg⟩ := exists_assembled_buildWith sound_stay e b
  rw [buildWith_relabel] at hbuild
  obtain ⟨σ, hσ, rfl⟩ := hf.exists_injective_map hg
  exact ⟨_, g, σ, hbuild, hstay, hσ, rfl, Automaton.table_map hσ g, Automaton.toDot_map hσ g⟩

/-- A star over a union, concatenated with a letter: three operators move what was moved before. -/
theorem build_eq_map_stay_nested :
    let b : Builder := ⟨{ sharedStar := true }, 7⟩
    let tokens : List Token := [.symbol (.letter 'a'), .symbol .epsilon, .operator .union,
      .operator .star, .symbol (.letter 'b'), .operator .concat]
    checkArity tokens = .ok () ∧ b.build tokens = b.buildWith relabel tokens ∧ ∃ f g σ,
      (b.build tokens).1 = .ok f ∧ (b.buildWith stay tokens).1 = .ok g ∧
      Function.Injective σ ∧ f = g.map σ ∧
      Table.ofAutomaton (.ofFragment f) = Table.ofAutomaton (.ofFragment g) ∧
      (Automaton.ofFragment f).toDot = (Automaton.ofFragment g).toDot := by
  intro b tokens
  have h : checkArity tokens = .ok () := rfl
  exact ⟨h, build_eq_map_stay b h⟩

end Builder

end EpsilonNfa
