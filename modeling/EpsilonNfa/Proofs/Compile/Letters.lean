import EpsilonNfa.Proofs.Compile.Drawing

/-!
The letters of a compiled pattern. Every letter of the pattern becomes one transition that reads it,
and nothing else reads a letter: links add silent moves alone, and the stages before them neither
lose a symbol nor bring one in. So letters can be counted along the whole way:

    pattern ──▶ tokens ──▶ operator-last sequence ──▶ transitions ──▶ moves of the table

and as nothing that a compilation makes is out of reach, the table names exactly these letters.
-/

namespace EpsilonNfa

/-- How many of some transitions read the letter `c`. -/
def readings (c : Char) (ts : List Transition) : Nat :=
  ts.countP fun t => t.symbol = .letter c

variable {c : Char}

/-! ### Links -/

@[simp]
theorem readings_append (ts us : List Transition) :
    readings c (ts ++ us) = readings c ts + readings c us :=
  List.countP_append ..

@[simp]
theorem readings_silent (p q : Nat) (ts : List Transition) :
    readings c (.silent p q :: ts) = readings c ts := by
  simp [readings, Transition.silent]

@[simp]
theorem readings_map_silent (q : Nat) (l : List Nat) :
    readings c (l.map fun p => .silent p q) = 0 := by
  induction l with
  | nil => rfl
  | cons p l ih => rw [List.map_cons, readings_silent, ih]

@[simp]
theorem readings_flatMap_silent (q r : Nat) (l : List Nat) :
    readings c (l.flatMap fun p => [.silent p q, .silent p r]) = 0 := by
  induction l with
  | nil => rfl
  | cons p l ih =>
    rw [List.flatMap_cons, readings_append, ih, readings_silent, readings_silent]
    rfl

namespace Fragment

theorem readings_concatenate (left right : Fragment) :
    readings c (left.concatenate right).transitions
      = readings c left.transitions + readings c right.transitions := by
  simp [concatenate]

theorem readings_alternate (start exit : Nat) (upper lower : Fragment) :
    readings c (alternate start exit upper lower).transitions
      = readings c upper.transitions + readings c lower.transitions := by
  simp only [alternate, readings_silent, readings_append, readings_map_silent, Nat.add_zero]

theorem readings_iterate (start exit : Nat) (inner : Fragment) :
    readings c (iterate start exit inner).transitions = readings c inner.transitions := by
  simp [iterate]

theorem readings_iterateShared (start : Nat) (inner : Fragment) :
    readings c (iterateShared start inner).transitions = readings c inner.transitions := by
  simp [iterateShared]

end Fragment

/-- An assembly reads a letter as often as its expression has it. -/
theorem Assembled.readings_eq {shared : Bool} {e : Expression} {f : Fragment}
    (h : Assembled shared e f) :
    readings c f.transitions = e.postorder.count (.symbol (.letter c)) := by
  induction h with
  | point id => rfl
  | arrow d _ => simp [readings, Fragment.arrow, Expression.postorder, List.count_cons]
  | concatenate _ _ _ ihl ihr =>
    rw [Fragment.readings_concatenate, ihl, ihr]
    simp [Expression.postorder]
  | alternate _ _ _ ihu ihl =>
    rw [Fragment.readings_alternate, ihu, ihl]
    simp [Expression.postorder]
  | iterate _ _ _ ih =>
    rw [Fragment.readings_iterate, ih]
    simp [Expression.postorder]
  | iterateShared _ _ _ ih =>
    rw [Fragment.readings_iterateShared, ih]
    simp [Expression.postorder]

/-! ### Patterns -/

variable {flags : Flags} {pattern : String} {f : Fragment}

/-- A compiled fragment reads a letter as often as the pattern has it. -/
theorem readings_fragmentOf (h : fragmentOf flags pattern = .ok f) (hc : c.isAlphanum = true) :
    readings c f.transitions = pattern.toList.count c := by
  by_cases hp : pattern = ""
  · subst hp
    rw [transitions_of_fragmentOf_empty h]
    rfl
  · obtain ⟨tokens, e, htokens, harranged, hassembled⟩ := exists_assembled_of_fragmentOf h hp
    obtain ⟨hlexical, hdisplay⟩ := tokenize_eq_ok_iff.1 htokens
    calc readings c f.transitions
      _ = e.postorder.count (.symbol (.letter c)) := hassembled.readings_eq
      _ = tokens.count (.symbol (.letter c)) := count_of_arrange harranged rfl nofun
      _ = (tokens.map Token.toChar).count c :=
        (Token.count_map_toChar hlexical (Token.lexical_letter hc)).symm
      _ = pattern.toList.count c := by rw [Token.display_eq_iff.1 hdisplay]

theorem mem_alphabet_iff {a : Automaton} :
    c ∈ a.alphabet.toList ↔ ∃ t ∈ a.transitions, t.symbol = .letter c := by
  rw [Automaton.alphabet, OrderedSet.mem_ofList, List.mem_filterMap]
  refine exists_congr fun t => and_congr_right fun _ => ?_
  cases t.symbol <;> simp [Symbol.letter?]

/-- The letters of a compiled fragment are the letters and digits of the pattern. -/
theorem exists_letter_iff (h : fragmentOf flags pattern = .ok f) :
    (∃ t ∈ f.transitions, t.symbol = .letter c) ↔ c ∈ pattern.toList ∧ c.isAlphanum = true := by
  constructor
  · rintro ⟨t, ht, hsymbol⟩
    have hc := isAlphanum_of_fragmentOf h ht hsymbol
    have hpos : 0 < readings c f.transitions :=
      List.countP_pos_iff.2 ⟨t, ht, by simpa using hsymbol⟩
    rw [readings_fragmentOf h hc] at hpos
    exact ⟨List.count_pos_iff.1 hpos, hc⟩
  · rintro ⟨hmem, hc⟩
    have hpos := List.count_pos_iff.2 hmem
    rw [← readings_fragmentOf h hc] at hpos
    obtain ⟨t, ht, hsymbol⟩ := List.countP_pos_iff.1 hpos
    exact ⟨t, ht, by simpa using hsymbol⟩

namespace Table

theorem mem_letters_iff {a : Automaton} {s : String} :
    s ∈ (ofAutomaton a).letters.toList ↔ ∃ c ∈ a.alphabet.toList, String.singleton c = s := by
  rw [ofAutomaton, OrderedSet.mem_ofList, List.mem_map]

/-- Every transition of a compiled fragment is a move of the table, since none is out of reach. -/
theorem move_mem_of_fragmentOf (h : fragmentOf flags pattern = .ok f) {t : Transition}
    (ht : t ∈ f.transitions) :
    ∃ m ∈ (ofAutomaton (.ofFragment f)).moves, m.label = t.symbol.label :=
  ⟨_, mem_moves.2 ⟨t, ht, (drawable_of_fragmentOf h).source_mem t ht, rfl⟩, rfl⟩

/-- The letters of the table label its moves, and no other label but the silent one does. -/
theorem mem_letters_iff_label (h : fragmentOf flags pattern = .ok f) {s : String} :
    s ∈ (ofAutomaton (.ofFragment f)).letters.toList ↔
      s ≠ silentLabel ∧ ∃ m ∈ (ofAutomaton (.ofFragment f)).moves, m.label = s := by
  constructor
  · intro hs
    obtain ⟨c, hc, rfl⟩ := mem_letters_iff.1 hs
    obtain ⟨t, ht, hsymbol⟩ := mem_alphabet_iff.1 hc
    have halphanum := isAlphanum_of_fragmentOf h ht hsymbol
    obtain ⟨m, hm, hlabel⟩ := move_mem_of_fragmentOf h ht
    rw [hsymbol] at hlabel
    refine ⟨?_, m, hm, hlabel⟩
    refine Symbol.label_ne_silentLabel fun hdollar => ?_
    cases hdollar
    exact absurd halphanum (by decide)
  · rintro ⟨hs, m, hm, rfl⟩
    exact label_mem_letters hm hs

end Table

/-- The alphabet of a compiled pattern is the set of letters and digits that occur in the pattern,
    and each is read by as many transitions as it has occurrences. The letters of the table are
    these, as texts, and they are the labels of its moves but for the silent one. -/
theorem letters_of_compile {flags : Flags} {pattern : String} {a : Automaton}
    (h : compile flags pattern = .ok a) :
    (∀ c, c ∈ a.alphabet.toList ↔ c ∈ pattern.toList ∧ c.isAlphanum = true) ∧
    (∀ c, c.isAlphanum = true → readings c a.transitions = pattern.toList.count c) ∧
    (∀ s, s ∈ (Table.ofAutomaton a).letters.toList ↔
      ∃ c ∈ pattern.toList, c.isAlphanum = true ∧ String.singleton c = s) ∧
    ∀ s, s ∈ (Table.ofAutomaton a).letters.toList ↔
      s ≠ silentLabel ∧ ∃ m ∈ (Table.ofAutomaton a).moves, m.label = s := by
  obtain ⟨f, hf, rfl⟩ := exists_fragmentOf h
  have halphabet (c : Char) : c ∈ (Automaton.ofFragment f).alphabet.toList ↔
      c ∈ pattern.toList ∧ c.isAlphanum = true := mem_alphabet_iff.trans (exists_letter_iff hf)
  refine ⟨halphabet, fun c hc => readings_fragmentOf hf hc, fun s => ?_, fun s => ?_⟩
  · simp only [Table.mem_letters_iff, halphabet, and_assoc]
  · exact Table.mem_letters_iff_label hf

/-- A letter that occurs twice, under a star with a state of its own. -/
theorem letters_of_compile_twice : ∃ a, compile { sharedStar := true } "(a|b)*.a0" = .ok a ∧
    'a' ∈ a.alphabet.toList ∧ readings 'a' a.transitions = 2 ∧
    "0" ∈ (Table.ofAutomaton a).letters.toList ∧
    ∃ m ∈ (Table.ofAutomaton a).moves, m.label = "0" := by
  obtain ⟨a, ha⟩ : ∃ a, compile { sharedStar := true } "(a|b)*.a0" = .ok a := ⟨_, rfl⟩
  obtain ⟨halphabet, hcount, hletters, hlabels⟩ := letters_of_compile ha
  have hzero : "0" ∈ (Table.ofAutomaton a).letters.toList :=
    (hletters "0").2 ⟨'0', by decide, by decide, rfl⟩
  exact ⟨a, ha, (halphabet 'a').2 (by decide), hcount 'a' (by decide), hzero,
    ((hlabels "0").1 hzero).2⟩

end EpsilonNfa
