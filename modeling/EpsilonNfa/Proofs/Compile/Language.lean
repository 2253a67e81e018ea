import EpsilonNfa.Proofs.Grammar.Acceptance

/-!
Which patterns compile, and what their automata accept. A pattern compiles when it is empty or has a
derivation tree. The builder runs through the postorder of the tree, and every subtree leaves one
fragment on the stack, with the language that the subtree denotes:

    tree      ──ordered──▶  operands first  ──run──▶  fragment
      │                                                  │
      └──language──────▶  the same words  ◀──language────┘

How the star is built has no part in that, so no convention but the one for the empty pattern shows
in a language.
-/

namespace EpsilonNfa

open Computability

/-! ### Reading a pattern as a tree -/

theorem tokenize_eq_nil_iff {pattern : String} : tokenize pattern = .ok [] ↔ pattern = "" := by
  constructor
  · intro h
    exact (tokenize_eq_ok_iff.1 h).2.symm
  · rintro rfl
    rfl

namespace Tree

variable {e : Tree .expression} {pattern : String}

/-- A tree derives the patterns that are read as its tokens. -/
theorem derives_iff : e.Derives pattern ↔ tokenize pattern = .ok e.tokens := by
  rw [tokenize_eq_ok_iff]
  exact ⟨fun h => ⟨h.lexical, h.display_tokens⟩, fun h => ⟨h.1, h.2⟩⟩

end Tree

/-! ### The run through a tree -/

/-- From the builder `b` the tokens put `f` on any stack, and leave the builder `b'`. -/
def Builder.Puts (b : Builder) (tokens : List Token) (f : Fragment) (b' : Builder) : Prop :=
  ∀ stack rest, b.run stack (tokens ++ rest) = b'.run (f :: stack) rest

namespace Builder.Puts

variable {b b₁ b₂ b₃ : Builder} {f inner left right upper lower : Fragment} {xs ys : List Token}

theorem symbol {s : Symbol} (h : b.literal s = (f, b₁)) : b.Puts [.symbol s] f b₁ := by
  intro stack rest
  simp [run, step, h]

theorem star (hxs : b.Puts xs inner b₁) (h : b₁.kleeneStar inner = (some f, b₂)) :
    b.Puts (xs ++ [.operator .star]) f b₂ := by
  intro stack rest
  rw [List.append_assoc, hxs]
  simp [run, step, h, push]

theorem concat (hxs : b.Puts xs left b₁) (hys : b₁.Puts ys right b₂)
    (h : b₂.concatenation left right = (some f, b₃)) :
    b.Puts (xs ++ ys ++ [.operator .concat]) f b₃ := by
  intro stack rest
  rw [List.append_assoc, List.append_assoc, hxs, hys]
  simp [run, step, h, push]

theorem union (hxs : b.Puts xs upper b₁) (hys : b₁.Puts ys lower b₂)
    (h : b₂.alternation upper lower = (some f, b₃)) :
    b.Puts (xs ++ ys ++ [.operator .union]) f b₃ := by
  intro stack rest
  rw [List.append_assoc, List.append_assoc, hxs, hys]
  simp [run, step, h, push]

end Builder.Puts

/-- The postorder of a tree puts one fragment on the stack, on fresh numbers and with the language
    of the tree. -/
theorem Tree.puts_ordered {n : Nonterminal} (t : Tree n) (b : Builder) :
    ∃ f b', b.Puts t.ordered f b' ∧ f.Within b.next b'.next ∧ f.language = t.language := by
  induction t generalizing b with
  | ofTerm t ih => exact ih b
  | union e t ihe iht =>
    obtain ⟨upper, b₁, hupper, hwu, hlu⟩ := ihe b
    obtain ⟨lower, b₂, hlower, hwl, hll⟩ := iht b₁
    have hle := hwu.low_lt.le.trans hwl.low_lt.le
    obtain ⟨f, k, hf, hwf, hlf⟩ :=
      b₂.alternation_spec (hwu.mono le_rfl hwl.low_lt.le).wellFormed hwl.wellFormed
    refine ⟨f, _, hupper.union hlower hf, hwf.mono hle le_rfl, ?_⟩
    rw [hlf, hlu, hll, language]
  | ofFactor f ih => exact ih b
  | concat dotted t f iht ihf =>
    obtain ⟨left, b₁, hleft, hwl, hll⟩ := iht b
    obtain ⟨right, b₂, hright, hwr, hlr⟩ := ihf b₁
    obtain ⟨g, k, hg, hwg, -, hlg⟩ :=
      b₂.concatenation_spec (hwl.mono le_rfl hwr.low_lt.le) hwr.wellFormed
    refine ⟨g, _, hleft.concat hright hg, hwg, ?_⟩
    rw [hlg, hll, hlr, language]
  | ofAtom a ih => exact ih b
  | star f ih =>
    obtain ⟨inner, b₁, hinner, hwi, hli⟩ := ih b
    obtain ⟨g, k, hg, hwg, hlg⟩ := b₁.kleeneStar_spec hwi.wellFormed
    refine ⟨g, _, hinner.star hg, hwg.mono hwi.low_lt.le le_rfl, ?_⟩
    rw [hlg, hli, language]
  | symbol s =>
    obtain ⟨f, k, hf, hwf, hlf⟩ := b.literal_spec s
    exact ⟨f, _, .symbol hf, hwf, by rw [hlf, language]⟩
  | group e ih => exact ih b

/-- The fragment of a tree's postorder. -/
theorem Tree.build_ordered (e : Tree .expression) (b : Builder) :
    ∃ f, (b.build e.ordered).1 = .ok f ∧ f.language = e.language := by
  obtain ⟨f, b', hputs, -, hlanguage⟩ := e.puts_ordered b
  have hrun := hputs [] []
  rw [List.append_nil] at hrun
  refine ⟨f, ?_, hlanguage⟩
  rw [Builder.build, hrun]
  rfl

/-! ### Which patterns compile, and what their automata accept -/

/-- A pattern that a tree derives compiles, and its automaton accepts the language of the tree. -/
theorem Tree.Derives.exists_compile {e : Tree .expression} {pattern : String}
    (h : e.Derives pattern) (flags : Flags) :
    ∃ a, compile flags pattern = .ok a ∧ a.language = e.language := by
  obtain ⟨f, hbuild, hlanguage⟩ := e.build_ordered (Builder.new flags)
  obtain ⟨token, rest, htokens, -⟩ := e.tokens_eq_cons
  have harranged := e.arrange_tokens
  rw [htokens] at harranged
  refine ⟨.ofFragment f, ?_, f.language_ofFragment.trans hlanguage⟩
  rw [compile, fragmentOf, Tree.derives_iff.1 h, htokens]
  simp only [harranged, hbuild]
  rfl

theorem exists_compile_empty (flags : Flags) : ∃ a, compile flags "" = .ok a ∧
    a.language = if flags.emptyLanguage then 0 else 1 := by
  obtain ⟨f, k, hempty, -, hlanguage⟩ := (Builder.new flags).empty_spec
  refine ⟨.ofFragment f, ?_, f.language_ofFragment.trans hlanguage⟩
  rw [compile, fragmentOf, tokenize_eq_nil_iff.2 rfl, hempty]
  rfl

/-- A pattern that compiles and is not empty has a tree. -/
theorem exists_derives_of_compile {flags : Flags} {pattern : String} {a : Automaton}
    (h : compile flags pattern = .ok a) (hne : pattern ≠ "") :
    ∃ e : Tree .expression, e.Derives pattern := by
  rw [compile, fragmentOf] at h
  split at h
  · cases h
  · next hp => exact absurd (tokenize_eq_nil_iff.1 hp) hne
  · next tokens _ hp =>
    split at h
    · cases h
    · next ordered harranged =>
      obtain ⟨e, rfl, -⟩ := arrange_eq_ok_iff.1 harranged
      exact ⟨e, Tree.derives_iff.2 hp⟩

/-- Exactly the empty pattern and the patterns of the grammar compile. -/
theorem exists_compile_iff (flags : Flags) (pattern : String) :
    (∃ a, compile flags pattern = .ok a) ↔
      pattern = "" ∨ ∃ e : Tree .expression, e.Derives pattern := by
  constructor
  · rintro ⟨a, ha⟩
    by_cases hp : pattern = ""
    · exact .inl hp
    · exact .inr (exists_derives_of_compile ha hp)
  · rintro (rfl | ⟨e, he⟩)
    · obtain ⟨a, ha, -⟩ := exists_compile_empty flags
      exact ⟨a, ha⟩
    · obtain ⟨a, ha, -⟩ := he.exists_compile flags
      exact ⟨a, ha⟩

-- the star takes `a`, which stands outside its group, and the concatenation misses it
example : compile .none "a(*)b" = .error (.pattern (.missingOperand .concat)) := by rfl

/-- The automaton of a pattern accepts what the derivation tree of the pattern denotes; that of the
    empty pattern accepts the empty word alone, or nothing when the flags say so. Flags that agree
    on the empty pattern give the same words. -/
theorem language_compile {flags : Flags} {pattern : String} {a : Automaton}
    (h : compile flags pattern = .ok a) :
    (pattern = "" → a.language = if flags.emptyLanguage then 0 else 1) ∧
    (pattern ≠ "" → (∃ e : Tree .expression, e.Derives pattern) ∧
      ∀ e : Tree .expression, e.Derives pattern → a.language = e.language) ∧
    ∀ flags' : Flags, (pattern = "" → flags'.emptyLanguage = flags.emptyLanguage) →
      ∃ a', compile flags' pattern = .ok a' ∧ a'.language = a.language := by
  have hempty : pattern = "" → a.language = if flags.emptyLanguage then 0 else 1 := by
    rintro rfl
    obtain ⟨a', ha', hlanguage⟩ := exists_compile_empty flags
    obtain rfl : a' = a := Except.ok.inj (ha'.symm.trans h)
    exact hlanguage
  have htree : ∀ e : Tree .expression, e.Derives pattern → a.language = e.language := by
    intro e he
    obtain ⟨a', ha', hlanguage⟩ := he.exists_compile flags
    obtain rfl : a' = a := Except.ok.inj (ha'.symm.trans h)
    exact hlanguage
  refine ⟨hempty, fun hne => ⟨exists_derives_of_compile h hne, htree⟩, fun flags' hflags => ?_⟩
  by_cases hp : pattern = ""
  · subst hp
    obtain ⟨a', ha', hlanguage⟩ := exists_compile_empty flags'
    exact ⟨a', ha', by rw [hlanguage, hempty rfl, hflags rfl]⟩
  · obtain ⟨e, he⟩ := exists_derives_of_compile h hp
    obtain ⟨a', ha', hlanguage⟩ := he.exists_compile flags'
    exact ⟨a', ha', by rw [hlanguage, htree e he]⟩

/-- With a shared star state, `ab*|c` accepts `a` followed by any number of `b`s, and `c`. -/
theorem language_compile_union_of_star : ∃ nfa,
    compile { sharedStar := true } "ab*|c" = .ok nfa ∧
      nfa.language = {['a']} * {['b']}∗ + {['c']} := by
  let a : Tree .factor := .ofAtom (.symbol (.letter 'a'))
  let b : Tree .factor := .ofAtom (.symbol (.letter 'b'))
  let c : Tree .factor := .ofAtom (.symbol (.letter 'c'))
  let e : Tree .expression := .union (.ofTerm (.concat false (.ofFactor a) b.star)) (.ofFactor c)
  have he : e.Derives "ab*|c" := Tree.derives_iff.2 rfl
  obtain ⟨nfa, h⟩ : ∃ nfa, compile { sharedStar := true } "ab*|c" = .ok nfa := ⟨_, rfl⟩
  exact ⟨nfa, h, ((language_compile h).2.1 (by decide)).2 e he⟩

end EpsilonNfa
