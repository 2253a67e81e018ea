import EpsilonNfa.Proofs.Json.Escapes
import EpsilonNfa.Proofs.Json.Lexemes

/-!
The reader accepts every text that prints a value, and gives the value back (`parse?_of_prints`).
What a reader still makes of a text is `read`. Three facts carry the proof: a lexeme, read from its
first character to its last, passes to the context; a number ends where the next character does not
continue it, and then it is as if the reader had stood between lexemes; and behind a single word a
context takes nothing but a comma or the end of a container, none of which continues a number.

    between context        ──c──▶ … ──d──▶   between context'
              │ a lexeme is read, from c to d          ▲
              └────────────────── step ────────────────┘
-/

namespace EpsilonNfa.Json

/-! ### The phases of a number -/

/-- A blank, or what may come behind a complete value. -/
def IsDelimiter (c : Char) : Prop :=
  IsBlank c ∨ c ∈ [',', ']', '}']

namespace NumberPhase

/-- The phase after some characters more. -/
def after? (phase : NumberPhase) : List Char → Option NumberPhase
  | [] => some phase
  | c :: cs => (phase.next? c).bind (·.after? cs)

theorem after?_cons {phase phase' : NumberPhase} {c : Char} (h : phase.next? c = some phase')
    (cs : List Char) : phase.after? (c :: cs) = phase'.after? cs := by
  rw [after?, h, Option.bind_some]

theorem after?_append {phase phase' : NumberPhase} {xs : List Char}
    (h : phase.after? xs = some phase') (ys : List Char) :
    phase.after? (xs ++ ys) = phase'.after? ys := by
  induction xs generalizing phase with
  | nil =>
    cases h
    rfl
  | cons x xs ih =>
    obtain ⟨next, hnext, hrest⟩ := Option.bind_eq_some_iff.1 h
    exact (after?_cons hnext _).trans (ih hrest)

/-- A phase that digits do not leave is not left. -/
theorem after?_of_forall_isDigit {phase : NumberPhase} {cs : List Char}
    (hstay : ∀ c : Char, c.isDigit = true → phase.next? c = some phase)
    (h : ∀ c ∈ cs, c.isDigit = true) : phase.after? cs = some phase := by
  induction cs with
  | nil => rfl
  | cons c cs ih =>
    rw [after?_cons (hstay c (h c List.mem_cons_self))]
    exact ih fun d hd => h d (List.mem_cons_of_mem c hd)

theorem after?_of_isDigits {phase phase' : NumberPhase} {cs : List Char}
    (hfirst : ∀ c : Char, c.isDigit = true → phase.next? c = some phase')
    (hstay : ∀ c : Char, c.isDigit = true → phase'.next? c = some phase') (h : IsDigits cs) :
    phase.after? cs = some phase' := by
  obtain ⟨hne, hdigits⟩ := h
  cases cs with
  | nil => exact absurd rfl hne
  | cons c cs =>
    rw [after?_cons (hfirst c (hdigits c List.mem_cons_self))]
    exact after?_of_forall_isDigit hstay fun d hd => hdigits d (List.mem_cons_of_mem c hd)

theorem after?_of_isWhole {cs : List Char} (h : IsWhole cs) :
    ∃ phase ∈ [zero, integer], sign.after? cs = some phase := by
  rcases h with rfl | ⟨⟨hne, hdigits⟩, hzero⟩
  · exact ⟨zero, by simp, rfl⟩
  · cases cs with
    | nil => exact absurd rfl hne
    | cons c cs =>
      have hc : c ≠ '0' := fun heq => hzero (congrArg some heq)
      have hnext : sign.next? c = some integer := by
        simp [next?, hc, hdigits c List.mem_cons_self]
      refine ⟨integer, by simp, (after?_cons hnext cs).trans ?_⟩
      refine after?_of_forall_isDigit (fun d hd => ?_) fun d hd =>
        hdigits d (List.mem_cons_of_mem c hd)
      simp [next?, hd]

theorem after?_of_isFraction {phase : NumberPhase} {cs : List Char} (hphase : phase ∈ [zero, integer])
    (h : IsFraction cs) : ∃ phase' ∈ [zero, integer, fraction], phase.after? cs = some phase' := by
  simp only [List.mem_cons, List.not_mem_nil, or_false] at hphase
  rcases h with rfl | ⟨digits, hdigits, rfl⟩
  · refine ⟨phase, ?_, rfl⟩
    rcases hphase with rfl | rfl <;> simp
  · have hpoint : phase.next? '.' = some point := by
      rcases hphase with rfl | rfl <;> rfl
    refine ⟨fraction, by simp, (after?_cons hpoint digits).trans ?_⟩
    refine after?_of_isDigits (fun c hc => ?_) (fun c hc => ?_) hdigits <;> simp [next?, hc]

theorem after?_of_isExponent {phase : NumberPhase} {cs : List Char}
    (hphase : phase ∈ [zero, integer, fraction]) (h : IsExponent cs) :
    ∃ phase', phase.after? cs = some phase' ∧ phase'.isEnd = true := by
  rcases h with rfl | ⟨e, sign, digits, he, hsign, hdigits, rfl⟩
  · refine ⟨phase, rfl, ?_⟩
    simp only [List.mem_cons, List.not_mem_nil, or_false] at hphase
    rcases hphase with rfl | rfl | rfl <;> rfl
  · have hmark : phase.next? e = some mark := by
      simp only [List.mem_cons, List.not_mem_nil, or_false] at hphase he
      rcases hphase with rfl | rfl | rfl <;> rcases he with rfl | rfl <;> rfl
    refine ⟨exponent, (after?_cons hmark _).trans ?_, rfl⟩
    have hstay (c : Char) (hc : c.isDigit = true) : exponent.next? c = some exponent := by
      simp [next?, hc]
    have hsigned : markSign.after? digits = some exponent :=
      after?_of_isDigits (fun c hc => by simp [next?, hc]) hstay hdigits
    simp only [List.mem_cons, List.not_mem_nil, or_false] at hsign
    rcases hsign with rfl | rfl | rfl
    · refine after?_of_isDigits (fun c hc => ?_) hstay hdigits
      have hplus : c ≠ '+' := by
        rintro rfl
        cases hc
      have hminus : c ≠ '-' := by
        rintro rfl
        cases hc
      simp [next?, hplus, hminus, hc]
    · exact hsigned
    · exact hsigned

/-- Behind the sign, if there is one, a number passes through its phases to one in which it may
    end. -/
theorem after?_sign {whole fraction exponent : List Char} (hwhole : IsWhole whole)
    (hfraction : IsFraction fraction) (hexponent : IsExponent exponent) :
    ∃ phase, sign.after? (whole ++ (fraction ++ exponent)) = some phase ∧ phase.isEnd = true := by
  obtain ⟨p, hp, hafter⟩ := after?_of_isWhole hwhole
  obtain ⟨q, hq, hafter'⟩ := after?_of_isFraction hp hfraction
  obtain ⟨r, hafter'', hend⟩ := after?_of_isExponent hq hexponent
  refine ⟨r, ?_, hend⟩
  rw [after?_append hafter, after?_append hafter', hafter'']

/-- A number begins with a character that begins a number, and its phases lead to one in which it may
    end. -/
theorem exists_after?_of_isNumber {cs : List Char} (h : IsNumber cs) :
    ∃ c tail first last, cs = c :: tail ∧ first? c = some first ∧
      first.after? tail = some last ∧ last.isEnd = true := by
  obtain ⟨minus, whole, fraction, exponent, hminus, hwhole, hfraction, hexponent, rfl⟩ := h
  obtain ⟨last, hafter, hend⟩ := after?_sign hwhole hfraction hexponent
  simp only [List.mem_cons, List.not_mem_nil, or_false] at hminus
  rcases hminus with rfl | rfl
  · cases hcs : whole ++ (fraction ++ exponent) with
    | nil =>
      rw [hcs] at hafter
      cases hafter
      cases hend
    | cons c tail =>
      rw [hcs] at hafter
      obtain ⟨first, hfirst, htail⟩ := Option.bind_eq_some_iff.1 hafter
      have hc : c ≠ '-' := by
        rintro rfl
        cases hfirst
      refine ⟨c, tail, first, last, rfl, ?_, htail, hend⟩
      rw [← hfirst]
      simp [first?, next?, hc]
  · exact ⟨'-', _, sign, last, rfl, rfl, hafter, hend⟩

/-- What begins a number begins no other lexeme and is no blank. -/
theorem ne_of_first? {c : Char} {first : NumberPhase} (h : first? c = some first) :
    isBlank c = false ∧ c ≠ '"' ∧ c ≠ 'n' ∧ c ≠ 't' ∧ c ≠ 'f' := by
  refine ⟨Bool.eq_false_iff.2 fun hblank => ?_, ?_, ?_, ?_, ?_⟩
  · have hmem := isBlank_iff.1 hblank
    simp only [IsBlank, List.mem_cons, List.not_mem_nil, or_false] at hmem
    rcases hmem with rfl | rfl | rfl | rfl <;> cases h
  all_goals
    rintro rfl
    cases h

/-- No delimiter continues a number. -/
theorem next?_of_isDelimiter {c : Char} (h : IsDelimiter c) (phase : NumberPhase) :
    phase.next? c = none := by
  simp only [IsDelimiter, IsBlank, List.mem_cons, List.not_mem_nil, or_false] at h
  rcases h with (rfl | rfl | rfl | rfl) | rfl | rfl | rfl <;> cases phase <;> rfl

end NumberPhase

namespace Reader

/-- The value that the reader has at the end of a text. -/
def read (reader : Reader) (cs : List Char) : Option Value :=
  (reader.run cs).bind finish

theorem read_cons (reader : Reader) (c : Char) (cs : List Char) :
    reader.read (c :: cs) = (reader.step c).bind (·.read cs) := by
  rw [read, run]
  cases reader.step c <;> rfl

theorem read_cons_of_step {reader reader' : Reader} {c : Char} (h : reader.step c = some reader')
    (cs : List Char) : reader.read (c :: cs) = reader'.read cs := by
  rw [read_cons, h, Option.bind_some]

variable {context context' : Context}

/-! ### Strings -/

/-- A number of four digits adds the piece that it names. -/
theorem read_of_numberEscape {code : Nat} {xs : List Char} (h : NumberEscape code xs)
    (before : List Piece) (cs : List Char) :
    (string context before).read (xs ++ cs) =
      (string context (Piece.ofCode code :: before)).read cs := by
  cases h with
  | @digits n₁ n₂ n₃ n₄ d₁ d₂ d₃ d₄ h₁ h₂ h₃ h₄ =>
    have hescape : (string context before).step '\\' = some (escape context before) := rfl
    have hnumber : (escape context before).step 'u' = some (numbered context before 3 0) := rfl
    have hcode : (((0 * 16 + n₁) * 16 + n₂) * 16 + n₃) * 16 + n₄ =
        n₁ * 0x1000 + n₂ * 0x100 + n₃ * 0x10 + n₄ := by omega
    refine (read_cons_of_step hescape _).trans ((read_cons_of_step hnumber _).trans ?_)
    rw [← hcode]
    show (numbered context before 3 0).read (d₁ :: d₂ :: d₃ :: d₄ :: cs) = _
    simp only [read_cons, step, hexValue?_eq_some_iff.2 h₁, hexValue?_eq_some_iff.2 h₂,
      hexValue?_eq_some_iff.2 h₃, hexValue?_eq_some_iff.2 h₄, Option.map_some, Option.bind_some]

/-- What stands for a piece adds it. -/
theorem read_of_piece_spelled {p : Piece} {xs : List Char} (h : p.Spelled xs) (before : List Piece)
    (cs : List Char) :
    (string context before).read (xs ++ cs) = (string context (p :: before)).read cs := by
  cases h with
  | @raw c hquote hbackslash hcontrol =>
    refine read_cons_of_step ?_ cs
    simp [step, hquote, hbackslash, Nat.not_lt.2 hcontrol]
  | @short c d hd =>
    have hu : d ≠ 'u' := by
      rintro rfl
      cases hd
    have hescape : (string context before).step '\\' = some (escape context before) := rfl
    refine (read_cons_of_step hescape _).trans (read_cons_of_step ?_ cs)
    simp [step, hu, shortEscape?_eq_some_iff.2 hd]
  | @numbered c _ hc =>
    have : (string context before).read (xs ++ cs) = _ := read_of_numberEscape hc before cs
    rwa [Piece.ofCode_toNat] at this
  | half hhalf hcode =>
    have : (string context before).read (xs ++ cs) = _ := read_of_numberEscape hcode before cs
    rwa [Piece.ofCode_of_half hhalf] at this

theorem read_of_spelledOut {ps : List Piece} {xs : List Char} (h : SpelledOut ps xs)
    (before : List Piece) (cs : List Char) :
    (string context before).read (xs ++ cs) =
      (string context (ps.reverse ++ before)).read cs := by
  induction h generalizing before with
  | nil => rfl
  | cons hp _ ih =>
    rw [List.append_assoc, read_of_piece_spelled hp, ih]
    simp

/-! ### Numbers -/

/-- What continues a number is kept. -/
theorem read_of_after? {phase phase' : NumberPhase} {xs : List Char}
    (h : phase.after? xs = some phase') (digits cs : List Char) :
    (number context digits phase).read (xs ++ cs) =
      (number context (xs.reverse ++ digits) phase').read cs := by
  induction xs generalizing phase digits with
  | nil =>
    cases h
    rfl
  | cons x xs ih =>
    obtain ⟨next, hnext, hrest⟩ := Option.bind_eq_some_iff.1 h
    have hstep : (number context digits phase).step x =
        some (number context (x :: digits) next) := by
      simp only [step, hnext]
    rw [List.cons_append, read_cons_of_step hstep, ih hrest]
    simp

/-- A number that may end does so before a delimiter and at the end of the text. -/
theorem read_of_finishNumber {phase : NumberPhase} {digits cs : List Char}
    (h : finishNumber context digits phase = some context')
    (hcs : ∀ c ∈ cs.head?, IsDelimiter c) :
    (number context digits phase).read cs = (between context').read cs := by
  cases cs with
  | nil =>
    show (finishNumber context digits phase).bind Context.value? = _
    rw [h]
    rfl
  | cons c cs =>
    have hstep : (number context digits phase).step c = (between context').step c := by
      simp only [step, NumberPhase.next?_of_isDelimiter (hcs c rfl), h, Option.bind_some]
    rw [read_cons, read_cons, hstep]

theorem read_of_isNumber {xs cs : List Char} (h : IsNumber xs)
    (hstep : context.step (.word (.number (String.ofList xs))) = some context')
    (hcs : ∀ c ∈ cs.head?, IsDelimiter c) :
    (between context).read (xs ++ cs) = (between context').read cs := by
  obtain ⟨c, tail, first, last, rfl, hfirst, htail, hend⟩ :=
    NumberPhase.exists_after?_of_isNumber h
  obtain ⟨hblank, hquote, hn, ht, hf⟩ := NumberPhase.ne_of_first? hfirst
  have hbegin : (between context).step c = some (number context [c] first) := by
    simp [step, stepBetween, hblank, hquote, hn, ht, hf, hfirst]
  have hfinish : finishNumber context (tail.reverse ++ [c]) last = some context' := by
    have hdigits : (tail.reverse ++ [c]).reverse = c :: tail := by simp
    rw [finishNumber, if_pos hend, hdigits, hstep]
  rw [List.cons_append, read_cons_of_step hbegin, read_of_after? htail,
    read_of_finishNumber hfinish hcs]

/-! ### Lexemes -/

/-- A lexeme of one character that the context takes passes to it. -/
theorem read_of_punctuation {c : Char} {l : Lexeme} (h : Lexeme.ofPunctuation? c = some l)
    (hstep : context.step l = some context') (cs : List Char) :
    (between context).read (c :: cs) = (between context').read cs := by
  refine read_cons_of_step ?_ cs
  unfold Lexeme.ofPunctuation? at h
  split at h <;> cases h <;>
    simp [step, stepBetween, isBlank, NumberPhase.first?, Lexeme.ofPunctuation?, pass, hstep]

/-- A lexeme that the context takes passes to it; a word has to be followed by a delimiter. -/
theorem read_of_spelled {l : Lexeme} {xs cs : List Char} (h : l.Spelled xs)
    (hstep : context.step l = some context')
    (hcs : ∀ v, l = .word v → ∀ c ∈ cs.head?, IsDelimiter c) :
    (between context).read (xs ++ cs) = (between context').read cs := by
  cases h with
  | openArray => exact read_of_punctuation rfl hstep cs
  | closeArray => exact read_of_punctuation rfl hstep cs
  | openObject => exact read_of_punctuation rfl hstep cs
  | closeObject => exact read_of_punctuation rfl hstep cs
  | comma => exact read_of_punctuation rfl hstep cs
  | colon => exact read_of_punctuation rfl hstep cs
  | @string ps text body hbody hjoined =>
    have hquote : (between context).step '"' = some (string context []) := rfl
    have hclose : (string context ps.reverse).step '"' = some (between context') := by
      simp [step, pass, hbody.joined_iff.1 hjoined, hstep]
    rw [List.cons_append, List.append_assoc, read_cons_of_step hquote, read_of_spelledOut hbody,
      List.append_nil, List.singleton_append, read_cons_of_step hclose]
  | null => simp [read_cons, step, stepBetween, isBlank, pass, hstep]
  | true => simp [read_cons, step, stepBetween, isBlank, pass, hstep]
  | false => simp [read_cons, step, stepBetween, isBlank, pass, hstep]
  | number hnumber => exact read_of_isNumber hnumber hstep (hcs _ rfl)

/-- Behind a word there comes a comma or the end of a container. -/
theorem eq_of_step_word {v : Value} (h : context.step (.word v) = some context') {l : Lexeme}
    (hl : context'.step l ≠ none) : l = .comma ∨ l = .closeArray ∨ l = .closeObject := by
  have hclose : ∃ stack, context' = .close v stack := by
    cases context with
    | ready stack => exact ⟨stack, (Option.some.inj h).symm⟩
    | firstItem stack => exact ⟨_, (Option.some.inj h).symm⟩
    | _ => cases h
  obtain ⟨stack, rfl⟩ := hclose
  rcases stack with _ | ⟨_ | _, stack⟩
  · exact absurd rfl hl
  · cases l with
    | comma => exact .inl rfl
    | closeArray => exact .inr (.inl rfl)
    | _ => exact absurd rfl hl
  · cases l with
    | comma => exact .inl rfl
    | closeObject => exact .inr (.inr rfl)
    | _ => exact absurd rfl hl

/-- So what comes behind a word in the text is a delimiter. -/
theorem isDelimiter_of_printed {ls : List Lexeme} {cs : List Char} (h : Printed ls cs)
    (hls : ∀ l ∈ ls.head?, l = .comma ∨ l = .closeArray ∨ l = .closeObject) :
    ∀ c ∈ cs.head?, IsDelimiter c := by
  cases h with
  | nil => exact nofun
  | @blank c _ _ hc =>
    rintro _ ⟨⟩
    exact .inl hc
  | cons hl _ =>
    cases hl with
    | comma =>
      rintro _ ⟨⟩
      exact .inr (by simp)
    | closeArray =>
      rintro _ ⟨⟩
      exact .inr (by simp)
    | closeObject =>
      rintro _ ⟨⟩
      exact .inr (by simp)
    | _ => simp at hls

/-- A text that spells lexemes which the context takes is read to the value of the last context. -/
theorem read_of_printed {ls : List Lexeme} {cs : List Char} (h : Printed ls cs) {first last : Context}
    (hrun : first.run ls = some last) : (between first).read cs = last.value? := by
  induction h generalizing first with
  | nil =>
    cases hrun
    rfl
  | @blank c _ cs hc _ ih =>
    have hstep : (between first).step c = some (between first) := by
      simp [step, stepBetween, isBlank_iff.2 hc]
    rw [read_cons_of_step hstep, ih hrun]
  | @cons l ls xs ys hl hls ih =>
    obtain ⟨next, hstep, hrest⟩ := Option.bind_eq_some_iff.1 hrun
    rw [read_of_spelled hl hstep, ih hrest]
    rintro v rfl
    refine isDelimiter_of_printed hls fun l' hl' => eq_of_step_word hstep fun hnone => ?_
    cases ls with
    | nil => cases hl'
    | cons _ ls =>
      cases hl'
      rw [Context.run, hnone] at hrest
      cases hrest

end Reader

/-- A text that prints a value is read as the value. -/
theorem Value.parse?_of_prints {v : Value} {text : String} (h : v.Prints text) :
    Value.parse? text = some v :=
  Reader.read_of_printed h (Context.run_lexemes_eq_complete v)

end EpsilonNfa.Json
