import EpsilonNfa.Command.Arguments
import Mathlib.Data.List.Basic

/-!
What arguments ask for. Arguments that begin with two dashes are options, all others are paths:

    options    each one of the two that are known      which of them occur
    paths      input, output and perhaps a graph       in their order

A call that fits this asks for one thing, and every other call for nothing. Only the order of the
paths counts, so options can stand anywhere and be repeated.
-/

namespace EpsilonNfa.Command

/-- An argument begins with two dashes. -/
def Dashed (argument : String) : Prop :=
  "--".toList <+: argument.toList

instance : DecidablePred Dashed :=
  fun argument => inferInstanceAs (Decidable ("--".toList <+: argument.toList))

/-- The arguments fit no use of the program. -/
def Misused (arguments : List String) : Prop :=
  (∃ argument ∈ arguments,
    Dashed argument ∧ argument ≠ "--empty-language" ∧ argument ≠ "--shared-star") ∨
  (arguments.filter (¬Dashed ·)).length ≠ 2 ∧ (arguments.filter (¬Dashed ·)).length ≠ 3

/-- The arguments ask for a run with the paths and the flags of `asked`. -/
structure Asks (arguments : List String) (asked : Arguments) : Prop where
  known : ∀ argument ∈ arguments,
    Dashed argument → argument = "--empty-language" ∨ argument = "--shared-star"
  paths : arguments.filter (¬Dashed ·) = asked.input :: asked.output :: asked.graph.toList
  emptyLanguage : asked.flags.emptyLanguage = true ↔ "--empty-language" ∈ arguments
  sharedStar : asked.flags.sharedStar = true ↔ "--shared-star" ∈ arguments

variable {arguments arguments' : List String} {asked : Arguments}

theorem isOption_eq (argument : String) : isOption argument = decide (Dashed argument) := by
  rw [isOption, decide_eq_decide, Dashed, List.prefix_iff_eq_take, eq_comm]
  rfl

theorem isKnown_iff {argument : String} :
    isKnown argument ↔ argument = "--empty-language" ∨ argument = "--shared-star" := by
  rw [isKnown, Bool.or_eq_true, decide_eq_true_iff, decide_eq_true_iff]
  rfl

namespace Arguments

theorem paths_eq (arguments : List String) : paths arguments = arguments.filter (¬Dashed ·) := by
  simp only [paths, isOption_eq, decide_not]

/-- Every option is one that is known. -/
theorem all_isKnown_iff :
    (arguments.filter isOption).all isKnown ↔ ∀ argument ∈ arguments,
      Dashed argument → argument = "--empty-language" ∨ argument = "--shared-star" := by
  simp only [List.all_eq_true, List.mem_filter, isOption_eq, decide_eq_true_eq, isKnown_iff,
    and_imp]

theorem flagsOf_eq_iff {flags : Flags} :
    flagsOf arguments = flags ↔
      (flags.emptyLanguage = true ↔ "--empty-language" ∈ arguments) ∧
      (flags.sharedStar = true ↔ "--shared-star" ∈ arguments) := by
  obtain ⟨emptyLanguage, sharedStar⟩ := flags
  rw [flagsOf, Flags.mk.injEq]
  refine and_congr ?_ ?_
  · rw [Bool.eq_iff_iff, List.contains_iff_mem]
    exact iff_comm
  · rw [Bool.eq_iff_iff, List.contains_iff_mem]
    exact iff_comm

theorem parse?_eq_some_iff : parse? arguments = some asked ↔ Asks arguments asked := by
  constructor
  · intro h
    rw [parse?] at h
    split at h
    · next hknown =>
      obtain ⟨hempty, hshared⟩ := flagsOf_eq_iff.1 (Eq.refl (flagsOf arguments))
      split at h
      · next input output hpaths =>
        cases h
        exact ⟨all_isKnown_iff.1 hknown, paths_eq arguments ▸ hpaths, hempty, hshared⟩
      · next input output graph hpaths =>
        cases h
        exact ⟨all_isKnown_iff.1 hknown, paths_eq arguments ▸ hpaths, hempty, hshared⟩
      · nomatch h
    · nomatch h
  · rintro ⟨hknown, hpaths, hempty, hshared⟩
    rw [parse?, if_pos (all_isKnown_iff.2 hknown), paths_eq, hpaths,
      flagsOf_eq_iff.2 ⟨hempty, hshared⟩]
    obtain ⟨input, output, graph, flags⟩ := asked
    cases graph <;> rfl

/-- The arguments ask for something unless they are misused. -/
theorem exists_asks_iff : (∃ asked, Asks arguments asked) ↔ ¬Misused arguments := by
  constructor
  · rintro ⟨asked, h⟩ (⟨argument, hmem, hdashed, hempty, hshared⟩ | ⟨htwo, hthree⟩)
    · exact (h.known argument hmem hdashed).elim hempty hshared
    · rw [h.paths] at htwo hthree
      cases hgraph : asked.graph <;> simp [hgraph] at htwo hthree
  · intro h
    rw [Misused, not_or, not_exists, not_and_or, not_not, not_not] at h
    obtain ⟨hknown, hlength⟩ := h
    obtain ⟨hempty, hshared⟩ := flagsOf_eq_iff.1 (Eq.refl (flagsOf arguments))
    have hknown' : ∀ argument ∈ arguments,
        Dashed argument → argument = "--empty-language" ∨ argument = "--shared-star" := by
      intro argument hmem hdashed
      by_contra hne
      exact hknown argument ⟨hmem, hdashed, not_or.1 hne⟩
    rcases hlength with hlength | hlength
    · obtain ⟨input, output, hpaths⟩ := List.length_eq_two.1 hlength
      exact ⟨⟨input, output, none, flagsOf arguments⟩, hknown', hpaths, hempty, hshared⟩
    · obtain ⟨input, output, graph, hpaths⟩ := List.length_eq_three.1 hlength
      exact ⟨⟨input, output, some graph, flagsOf arguments⟩, hknown', hpaths, hempty, hshared⟩

theorem parse?_eq_none_iff : parse? arguments = none ↔ Misused arguments := by
  rw [← not_iff_not, ← exists_asks_iff, ← ne_eq, Option.ne_none_iff_exists']
  simp only [parse?_eq_some_iff]

theorem asks_of_asks (hpaths : arguments.filter (¬Dashed ·) = arguments'.filter (¬Dashed ·))
    (hoptions : ∀ option, Dashed option → (option ∈ arguments ↔ option ∈ arguments'))
    (h : Asks arguments asked) : Asks arguments' asked where
  known option hmem hdashed := h.known option ((hoptions option hdashed).2 hmem) hdashed
  paths := hpaths ▸ h.paths
  emptyLanguage := h.emptyLanguage.trans (hoptions _ (by decide))
  sharedStar := h.sharedStar.trans (hoptions _ (by decide))

/-- Options count by which of them occur, wherever they stand. -/
theorem parse?_congr (hpaths : arguments.filter (¬Dashed ·) = arguments'.filter (¬Dashed ·))
    (hoptions : ∀ option, Dashed option → (option ∈ arguments ↔ option ∈ arguments')) :
    parse? arguments = parse? arguments' := by
  ext asked
  rw [parse?_eq_some_iff, parse?_eq_some_iff]
  exact ⟨asks_of_asks hpaths hoptions,
    asks_of_asks hpaths.symm fun option hdashed => (hoptions option hdashed).symm⟩

end Arguments

end EpsilonNfa.Command
