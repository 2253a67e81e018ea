import EpsilonNfa.Proofs.Json.Reading

/-!
The reader accepts no text but those that print a value (`parse?_eq_some_iff`). A text that is read is
taken apart from its front, one lexeme at a time, and each step of reading has its converse here: what
is left of a number after a phase of it, what is left of a string and of a literal name, and what may
come between lexemes. Each lemma gives what has been taken off and a shorter text that is read from
there to the same value.

    c ⋯           (between context).read  =  v
    ▼
    xs ++ rest    xs spells a lexeme that context takes to context'
          rest    (between context').read  =  v
-/

namespace EpsilonNfa.Json

/-! ### Numbers -/

theorem isDigits_cons {c : Char} {cs : List Char} (hc : c.isDigit = true)
    (hcs : ∀ d ∈ cs, d.isDigit = true) : IsDigits (c :: cs) :=
  ⟨List.cons_ne_nil c cs, List.forall_mem_cons.2 ⟨hc, hcs⟩⟩

namespace NumberPhase

variable {phase phase' : NumberPhase} {c : Char} {cs : List Char}

/-- What may follow the whole part of a number. -/
def IsTail (cs : List Char) : Prop :=
  ∃ fraction exponent, IsFraction fraction ∧ IsExponent exponent ∧ cs = fraction ++ exponent

/-- What is left of a number after a phase of it. -/
def Rest : NumberPhase → List Char → Prop
  | sign, cs => ∃ whole tail, IsWhole whole ∧ IsTail tail ∧ cs = whole ++ tail
  | zero, cs => IsTail cs
  | integer, cs => ∃ digits tail, (∀ d ∈ digits, d.isDigit = true) ∧ IsTail tail ∧
      cs = digits ++ tail
  | point, cs => ∃ digits exponent, IsDigits digits ∧ IsExponent exponent ∧ cs = digits ++ exponent
  | fraction, cs => ∃ digits exponent, (∀ d ∈ digits, d.isDigit = true) ∧ IsExponent exponent ∧
      cs = digits ++ exponent
  | mark, cs => ∃ sign digits, sign ∈ [[], ['+'], ['-']] ∧ IsDigits digits ∧ cs = sign ++ digits
  | markSign, cs => IsDigits cs
  | exponent, cs => ∀ d ∈ cs, d.isDigit = true

theorem isTail_nil : IsTail [] :=
  ⟨[], [], .inl rfl, .inl rfl, rfl⟩

theorem isTail_of_point (h : point.Rest cs) : IsTail ('.' :: cs) := by
  obtain ⟨digits, exponent, hdigits, hexponent, rfl⟩ := h
  exact ⟨'.' :: digits, exponent, .inr ⟨digits, hdigits, rfl⟩, hexponent, rfl⟩

theorem isExponent_of_mark (hc : c = 'e' ∨ c = 'E') (h : mark.Rest cs) : IsExponent (c :: cs) := by
  obtain ⟨sign, digits, hsign, hdigits, rfl⟩ := h
  exact .inr ⟨c, sign, digits, by simpa using hc, hsign, hdigits, rfl⟩

/-- Behind the whole part there come a point or the letter of the exponent. -/
theorem isTail_of_next? (h : zero.next? c = some phase) (hrest : phase.Rest cs) :
    IsTail (c :: cs) := by
  simp only [next?] at h
  split at h
  · next hc =>
    cases h
    subst hc
    exact isTail_of_point hrest
  · split at h
    · next hc =>
      cases h
      exact ⟨[], c :: cs, .inl rfl, isExponent_of_mark hc hrest, rfl⟩
    · cases h

/-- A number may be left where it may end. -/
theorem rest_nil (h : phase.isEnd = true) : phase.Rest [] := by
  cases phase with
  | zero => exact isTail_nil
  | integer => exact ⟨[], [], by simp, isTail_nil, rfl⟩
  | fraction => exact ⟨[], [], by simp, .inl rfl, rfl⟩
  | exponent => exact nofun
  | _ => cases h

/-- One character more. -/
theorem rest_of_next? (h : phase.next? c = some phase') (hrest : phase'.Rest cs) :
    phase.Rest (c :: cs) := by
  cases phase with
  | sign =>
    simp only [next?] at h
    split at h
    · next hc =>
      cases h
      exact ⟨['0'], cs, .inl rfl, hrest, by rw [hc]; rfl⟩
    · next hc =>
      split at h
      · next hdigit =>
        cases h
        obtain ⟨digits, tail, hdigits, htail, rfl⟩ := hrest
        have hwhole : IsWhole (c :: digits) :=
          .inr ⟨isDigits_cons hdigit hdigits, fun hzero => hc (Option.some.inj hzero)⟩
        exact ⟨c :: digits, tail, hwhole, htail, rfl⟩
      · cases h
  | zero => exact isTail_of_next? h hrest
  | integer =>
    rw [next?] at h
    split at h
    · next hdigit =>
      cases h
      obtain ⟨digits, tail, hdigits, htail, rfl⟩ := hrest
      exact ⟨c :: digits, tail, List.forall_mem_cons.2 ⟨hdigit, hdigits⟩, htail, rfl⟩
    · -- what is no digit goes on as behind a zero
      have hzero : zero.next? c = some phase' := h
      exact ⟨[], c :: cs, by simp, isTail_of_next? hzero hrest, rfl⟩
  | point =>
    simp only [next?] at h
    split at h
    · next hdigit =>
      cases h
      obtain ⟨digits, exponent, hdigits, hexponent, rfl⟩ := hrest
      exact ⟨c :: digits, exponent, isDigits_cons hdigit hdigits, hexponent, rfl⟩
    · cases h
  | fraction =>
    simp only [next?] at h
    split at h
    · next hdigit =>
      cases h
      obtain ⟨digits, exponent, hdigits, hexponent, rfl⟩ := hrest
      exact ⟨c :: digits, exponent, List.forall_mem_cons.2 ⟨hdigit, hdigits⟩, hexponent, rfl⟩
    · split at h
      · next hc =>
        cases h
        exact ⟨[], c :: cs, by simp, isExponent_of_mark hc hrest, rfl⟩
      · cases h
  | mark =>
    simp only [next?] at h
    split at h
    · next hc =>
      cases h
      exact ⟨[c], cs, by simpa using hc, hrest, rfl⟩
    · split at h
      · next hdigit =>
        cases h
        exact ⟨[], c :: cs, by simp, isDigits_cons hdigit hrest, rfl⟩
      · cases h
  | markSign =>
    simp only [next?] at h
    split at h
    · next hdigit =>
      cases h
      exact isDigits_cons hdigit hrest
    · cases h
  | exponent =>
    simp only [next?] at h
    split at h
    · next hdigit =>
      cases h
      exact List.forall_mem_cons.2 ⟨hdigit, hrest⟩
    · cases h

theorem rest_of_after? (h : phase.after? cs = some phase') (hend : phase'.isEnd = true) :
    phase.Rest cs := by
  induction cs generalizing phase with
  | nil =>
    cases h
    exact rest_nil hend
  | cons c cs ih =>
    obtain ⟨next, hnext, hafter⟩ := Option.bind_eq_some_iff.1 h
    exact rest_of_next? hnext (ih hafter)

theorem isNumber_of_first? (h : first? c = some phase) (hrest : phase.Rest cs) :
    IsNumber (c :: cs) := by
  simp only [first?] at h
  split at h
  · next hc =>
    cases h
    obtain ⟨whole, _, hwhole, ⟨fraction, exponent, hfraction, hexponent, rfl⟩, rfl⟩ := hrest
    exact ⟨['-'], whole, fraction, exponent, by simp, hwhole, hfraction, hexponent, by rw [hc]; rfl⟩
  · -- without a minus sign a number begins as it goes on behind one
    have hsign : sign.next? c = some phase := by
      simpa only [next?] using h
    obtain ⟨whole, _, hwhole, ⟨fraction, exponent, hfraction, hexponent, rfl⟩, hcs⟩ :=
      rest_of_next? hsign hrest
    exact ⟨[], whole, fraction, exponent, by simp, hwhole, hfraction, hexponent, hcs⟩

end NumberPhase

/-! ### Reading backwards -/

namespace Reader

variable {context : Context} {pieces : List Piece} {c : Char} {cs : List Char} {v : Value}

theorem exists_step_of_read {reader : Reader} (h : reader.read (c :: cs) = some v) :
    ∃ next, reader.step c = some next ∧ next.read cs = some v := by
  rw [read_cons] at h
  exact Option.bind_eq_some_iff.1 h

theorem exists_step_of_pass {l : Lexeme} {next : Reader} (h : pass context l = some next) :
    ∃ context', context.step l = some context' ∧ next = between context' := by
  obtain ⟨context', hstep, rfl⟩ := Option.map_eq_some_iff.1 h
  exact ⟨context', hstep, rfl⟩

/-- A digit that is read comes first. -/
theorem exists_digit_of_read {left code : Nat}
    (h : (numbered context pieces left code).read cs = some v) :
    ∃ n d rest, HexDigit n d ∧ cs = d :: rest ∧
      (match left with
        | 0 => string context (Piece.ofCode (code * 16 + n) :: pieces)
        | left + 1 => numbered context pieces left (code * 16 + n)).read rest = some v := by
  cases cs with
  | nil => cases h
  | cons c cs =>
    obtain ⟨next, hstep, hread⟩ := exists_step_of_read h
    obtain ⟨n, hn, rfl⟩ := Option.map_eq_some_iff.1 hstep
    refine ⟨n, c, cs, hexValue?_eq_some_iff.1 hn, rfl, ?_⟩
    cases left with
    | zero => exact hread
    | succ left => exact hread

/-- Behind a backslash there stands the rest of a piece. -/
theorem exists_piece_of_read_escape (h : (escape context pieces).read cs = some v) :
    ∃ p xs rest, p.Spelled ('\\' :: xs) ∧ cs = xs ++ rest ∧
      (string context (p :: pieces)).read rest = some v := by
  cases cs with
  | nil => cases h
  | cons c cs =>
    obtain ⟨next, hstep, hread⟩ := exists_step_of_read h
    rw [step] at hstep
    split at hstep
    · next hu =>
      cases hstep
      subst hu
      obtain ⟨n₁, d₁, _, h₁, rfl, hread₁⟩ := exists_digit_of_read hread
      obtain ⟨n₂, d₂, _, h₂, rfl, hread₂⟩ := exists_digit_of_read hread₁
      obtain ⟨n₃, d₃, _, h₃, rfl, hread₃⟩ := exists_digit_of_read hread₂
      obtain ⟨n₄, d₄, rest, h₄, rfl, hread₄⟩ := exists_digit_of_read hread₃
      have hcode : (((0 * 16 + n₁) * 16 + n₂) * 16 + n₃) * 16 + n₄ =
          n₁ * 0x1000 + n₂ * 0x100 + n₃ * 0x10 + n₄ := by omega
      have hescape := NumberEscape.digits h₁ h₂ h₃ h₄
      rw [← hcode] at hescape
      exact ⟨_, ['u', d₁, d₂, d₃, d₄], rest, hescape.spelled_ofCode, rfl, hread₄⟩
    · obtain ⟨d, hd, rfl⟩ := Option.map_eq_some_iff.1 hstep
      exact ⟨.char d, [c], cs, .short (shortEscape?_eq_some_iff.1 hd), rfl, hread⟩

/-- A string goes on with a piece or ends. -/
theorem exists_piece_of_read (h : (string context pieces).read (c :: cs) = some v) :
    (∃ p xs rest, p.Spelled (c :: xs) ∧ cs = xs ++ rest ∧
      (string context (p :: pieces)).read rest = some v) ∨
    c = '"' ∧ ∃ context', context.step (.string (Piece.joinPairs pieces.reverse)) = some context' ∧
      (between context').read cs = some v := by
  obtain ⟨next, hstep, hread⟩ := exists_step_of_read h
  rw [step] at hstep
  split at hstep
  · next hquote =>
    obtain ⟨context', htake, rfl⟩ := exists_step_of_pass hstep
    exact .inr ⟨hquote, context', htake, hread⟩
  · next hquote =>
    split at hstep
    · next hbackslash =>
      cases hstep
      subst hbackslash
      exact .inl (exists_piece_of_read_escape hread)
    · next hbackslash =>
      split at hstep
      · cases hstep
      · next hcontrol =>
        cases hstep
        exact .inl ⟨.char c, [], cs, .raw hquote hbackslash (Nat.le_of_not_lt hcontrol), rfl, hread⟩

/-- What is left of a string are pieces and the closing quote. -/
theorem exists_pieces_of_read {cs : List Char} {pieces : List Piece}
    (h : (string context pieces).read cs = some v) :
    ∃ ps xs rest context', SpelledOut ps xs ∧ cs = xs ++ '"' :: rest ∧
      context.step (.string (Piece.joinPairs (pieces.reverse ++ ps))) = some context' ∧
      (between context').read rest = some v := by
  match cs with
  | [] => cases h
  | c :: cs =>
    rcases exists_piece_of_read h with ⟨p, xs, left, hp, hcs, hread⟩ | ⟨rfl, context', htake, hread⟩
    · have hlt : left.length < (c :: cs).length := by
        rw [hcs, List.length_cons, List.length_append]
        omega
      obtain ⟨ps, ys, rest, context', hps, hleft, htake, hread⟩ := exists_pieces_of_read hread
      rw [List.reverse_cons, List.append_assoc] at htake
      exact ⟨p :: ps, c :: xs ++ ys, rest, context', .cons hp hps, by simp [hcs, hleft], htake, hread⟩
    · refine ⟨[], [], cs, context', .nil, rfl, ?_, hread⟩
      rwa [List.append_nil]
termination_by cs.length

/-- What is left of a number leads to a phase in which it may end. -/
theorem exists_after?_of_read {digits : List Char} {phase : NumberPhase}
    (h : (number context digits phase).read cs = some v) :
    ∃ xs rest last context', cs = xs ++ rest ∧ phase.after? xs = some last ∧
      finishNumber context (xs.reverse ++ digits) last = some context' ∧
      (between context').read rest = some v := by
  induction cs generalizing digits phase with
  | nil =>
    have hend : (finishNumber context digits phase).bind Context.value? = some v := h
    obtain ⟨context', hfinish, hvalue⟩ := Option.bind_eq_some_iff.1 hend
    exact ⟨[], [], phase, context', rfl, rfl, hfinish, hvalue⟩
  | cons c cs ih =>
    obtain ⟨next, hstep, hread⟩ := exists_step_of_read h
    rw [step] at hstep
    split at hstep
    · next phase' hnext =>
      cases hstep
      obtain ⟨xs, rest, last, context', rfl, hafter, hfinish, hread⟩ := ih hread
      refine ⟨c :: xs, rest, last, context', rfl, ?_, ?_, hread⟩
      · rw [NumberPhase.after?_cons hnext, hafter]
      · rwa [List.reverse_cons, List.append_assoc]
    · obtain ⟨context', hfinish, hbetween⟩ := Option.bind_eq_some_iff.1 hstep
      refine ⟨[], c :: cs, phase, context', rfl, rfl, hfinish, ?_⟩
      have hbegin : (between context').step c = some next := hbetween
      rw [read_cons_of_step hbegin, hread]

/-- What is left of a literal name comes next. -/
theorem exists_rest_of_read_name {left : List Char} {value : Value}
    (h : (name context left value).read cs = some v) :
    ∃ rest context', cs = left ++ rest ∧ context.step (.word value) = some context' ∧
      (between context').read rest = some v := by
  induction left generalizing cs with
  | nil => cases cs <;> cases h
  | cons d left ih =>
    cases cs with
    | nil => cases h
    | cons c cs =>
      obtain ⟨next, hstep, hread⟩ := exists_step_of_read h
      cases left with
      | nil =>
        rw [step] at hstep
        split at hstep
        · next hc =>
          obtain ⟨context', htake, rfl⟩ := exists_step_of_pass hstep
          exact ⟨cs, context', by rw [hc]; rfl, htake, hread⟩
        · cases hstep
      | cons e left =>
        rw [step] at hstep
        split at hstep
        · next hc =>
          cases hstep
          obtain ⟨rest, context', rfl, hstep, hread⟩ := ih hread
          exact ⟨rest, context', by rw [hc]; rfl, hstep, hread⟩
        · cases hstep
        · simp

theorem exists_lexeme_of_read_name {left : List Char} {value : Value}
    (hspelled : Lexeme.Spelled (.word value) (c :: left))
    (h : (name context left value).read cs = some v) :
    ∃ l xs rest context', l.Spelled (c :: xs) ∧ cs = xs ++ rest ∧ context.step l = some context' ∧
      (between context').read rest = some v := by
  obtain ⟨rest, context', hcs, hstep, hread⟩ := exists_rest_of_read_name h
  exact ⟨.word value, left, rest, context', hspelled, hcs, hstep, hread⟩

/-- Between lexemes there comes a blank or a lexeme. -/
theorem exists_lexeme_of_read (h : (between context).read (c :: cs) = some v) :
    IsBlank c ∧ (between context).read cs = some v ∨
    ∃ l xs rest context', l.Spelled (c :: xs) ∧ cs = xs ++ rest ∧ context.step l = some context' ∧
      (between context').read rest = some v := by
  obtain ⟨next, hstep, hread⟩ := exists_step_of_read h
  rw [step, stepBetween] at hstep
  split at hstep
  · next hblank =>
    cases hstep
    exact .inl ⟨isBlank_iff.1 hblank, hread⟩
  refine .inr ?_
  split at hstep
  · next hquote =>
    cases hstep
    obtain ⟨ps, xs, rest, context', hps, rfl, hstep, hread⟩ := exists_pieces_of_read hread
    refine ⟨_, xs ++ ['"'], rest, context', ?_, by simp, hstep, hread⟩
    rw [hquote]
    exact .string hps (joined_joinPairs hps.isHalf)
  split at hstep
  · next hc =>
    cases hstep
    exact exists_lexeme_of_read_name (by rw [hc]; exact .null) hread
  split at hstep
  · next hc =>
    cases hstep
    exact exists_lexeme_of_read_name (by rw [hc]; exact .true) hread
  split at hstep
  · next hc =>
    cases hstep
    exact exists_lexeme_of_read_name (by rw [hc]; exact .false) hread
  split at hstep
  · next phase hfirst =>
    cases hstep
    obtain ⟨xs, rest, last, context', rfl, hafter, hfinish, hread⟩ := exists_after?_of_read hread
    rw [finishNumber] at hfinish
    split at hfinish
    · next hend =>
      have hnumber := NumberPhase.isNumber_of_first? hfirst (NumberPhase.rest_of_after? hafter hend)
      rw [List.reverse_append, List.reverse_reverse] at hfinish
      exact ⟨_, xs, rest, context', .number hnumber, rfl, hfinish, hread⟩
    · cases hfinish
  · obtain ⟨l, hl, hpass⟩ := Option.bind_eq_some_iff.1 hstep
    obtain ⟨context', htake, rfl⟩ := exists_step_of_pass hpass
    exact ⟨l, [], cs, context', (Lexeme.ofPunctuation?_eq_some_iff.1 hl).1, rfl, htake, hread⟩

/-- A text that is read to a value spells lexemes which lead the context to the value. -/
theorem exists_printed_of_read {cs : List Char} {context : Context}
    (h : (between context).read cs = some v) :
    ∃ ls, Printed ls cs ∧ context.run ls = some (.complete v) := by
  match cs with
  | [] =>
    refine ⟨[], .nil, ?_⟩
    cases context with
    | complete value =>
      cases h
      rfl
    | _ => cases h
  | c :: cs =>
    rcases exists_lexeme_of_read h with
      ⟨hblank, hread⟩ | ⟨l, xs, rest, context', hl, hcs, hstep, hread⟩
    · obtain ⟨ls, hls, hrun⟩ := exists_printed_of_read hread
      exact ⟨ls, .blank hblank hls, hrun⟩
    · have hlt : rest.length < (c :: cs).length := by
        rw [hcs, List.length_cons, List.length_append]
        omega
      obtain ⟨ls, hls, hrun⟩ := exists_printed_of_read hread
      refine ⟨l :: ls, ?_, ?_⟩
      · rw [hcs]
        exact .cons hl hls
      · rw [Context.run, hstep, Option.bind_some, hrun]
termination_by cs.length

end Reader

namespace Value

variable {v v' : Value} {text : String}

/-- A text is read as a value exactly when it prints the value. -/
theorem parse?_eq_some_iff : parse? text = some v ↔ v.Prints text := by
  constructor
  · intro h
    obtain ⟨ls, hls, hrun⟩ := Reader.exists_printed_of_read h
    obtain rfl := (Context.run_eq_complete_iff hls).1 hrun
    exact hls
  · exact parse?_of_prints

/-- A text prints one value at most. -/
theorem Prints.eq (h : v.Prints text) (h' : v'.Prints text) : v = v' :=
  Option.some.inj ((parse?_of_prints h).symm.trans (parse?_of_prints h'))

/-- A text that prints no value is refused, and no other text is. -/
theorem parse?_eq_none_iff : parse? text = none ↔ ∀ v : Value, ¬ v.Prints text := by
  simp only [Option.eq_none_iff_forall_ne_some, ne_eq, parse?_eq_some_iff]

end Value

end EpsilonNfa.Json
