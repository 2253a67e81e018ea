import EpsilonNfa.Automaton.Basic
import Mathlib.Computability.Language
import Mathlib.Order.CompletePartialOrder

/-!
The language of a fragment: the words spelled on the walks from its start to an exit, where silent
moves spell nothing. The words from any other state to an exit are its `tail`, and tails are the
least family of languages that has the empty word at the exits and follows every transition
backwards (`tail_le`). Both directions of every equation between languages go through that:

    L(linked) ≤ …    the family of what each region of the linked fragment still has to read
    … ≤ L(linked)    the tails of the linked fragment, seen from the states of a part
                     (`tail_mul_le`)
-/

namespace EpsilonNfa

/-- What a symbol adds to a word: its letter, or nothing. -/
def Symbol.word (s : Symbol) : List Char :=
  s.letter?.toList

/-- `Reads ts p w q`: a walk over the transitions `ts` from `p` to `q` spells `w`. -/
inductive Reads (ts : List Transition) : Nat → List Char → Nat → Prop where
  | nil (q : Nat) : Reads ts q [] q
  | cons {t : Transition} {w : List Char} {q : Nat} :
      t ∈ ts → Reads ts t.target w q → Reads ts t.source (t.symbol.word ++ w) q

/-- The words an automaton accepts. -/
def Automaton.language (a : Automaton) : Language Char :=
  {w | ∃ q ∈ a.accept, Reads a.transitions a.start w q}

namespace Fragment

/-- The words from a state to an exit. -/
def tail (f : Fragment) (p : Nat) : Language Char :=
  {w | ∃ q ∈ f.accept, Reads f.transitions p w q}

/-- The words a fragment accepts. -/
def language (f : Fragment) : Language Char :=
  f.tail f.start

/-- Naming the states changes no word. -/
theorem language_ofFragment (f : Fragment) : (Automaton.ofFragment f).language = f.language := rfl

variable {f : Fragment}

/-- An exit has nothing left to read. -/
theorem one_le_tail {q : Nat} (hq : q ∈ f.accept) : 1 ≤ f.tail q := by
  rintro w rfl
  exact ⟨q, hq, .nil q⟩

theorem word_append_mem_tail {t : Transition} {w : List Char} (ht : t ∈ f.transitions)
    (hw : w ∈ f.tail t.target) : t.symbol.word ++ w ∈ f.tail t.source := by
  obtain ⟨q, hq, hread⟩ := hw
  exact ⟨q, hq, .cons ht hread⟩

/-- A silent move passes on what can be read behind it. -/
theorem tail_le_of_silent {p q : Nat} (h : .silent p q ∈ f.transitions) : f.tail q ≤ f.tail p :=
  fun _ hw => word_append_mem_tail h hw

/-- A family of languages that has the empty word at the exits and follows every transition
    backwards contains the tails. -/
theorem tail_le {K : Nat → Language Char} (hexit : ∀ q ∈ f.accept, [] ∈ K q)
    (hback : ∀ t ∈ f.transitions, ∀ w ∈ K t.target, t.symbol.word ++ w ∈ K t.source) (p : Nat) :
    f.tail p ≤ K p := by
  rintro w ⟨q, hq, hread⟩
  induction hread with
  | nil q => exact hexit q hq
  | cons ht _ ih => exact hback _ ht _ (ih hq)

/-- A part of `g` whose exits lead on to `M` leads on to its own words before those of `M`. -/
theorem tail_mul_le {g : Fragment} {M : Language Char} (hsub : f.transitions ⊆ g.transitions)
    (hexit : ∀ q ∈ f.accept, M ≤ g.tail q) (p : Nat) : f.tail p * M ≤ g.tail p := by
  rintro _ ⟨u, ⟨q, hq, hread⟩, v, hv, rfl⟩
  induction hread with
  | nil q => exact hexit q hq hv
  | @cons t w q ht _ ih =>
    show t.symbol.word ++ w ++ v ∈ g.tail t.source
    rw [List.append_assoc]
    exact word_append_mem_tail (hsub ht) (ih hq)

/-- A part of `g` whose exits are as good as exits of `g` has no other tails there. -/
theorem tail_le_tail {g : Fragment} (hsub : f.transitions ⊆ g.transitions)
    (hexit : ∀ q ∈ f.accept, 1 ≤ g.tail q) (p : Nat) : f.tail p ≤ g.tail p := by
  have := tail_mul_le hsub hexit p
  rwa [mul_one] at this

end Fragment

end EpsilonNfa
