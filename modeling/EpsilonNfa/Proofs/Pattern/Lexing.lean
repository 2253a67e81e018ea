import EpsilonNfa.Pattern.Lexer
import Mathlib.Data.List.Forall2
import Mathlib.Data.List.TakeWhile

/-!
Reading a pattern into tokens and writing tokens as text undo each other. A token is written as one
character, and that character reads as the token again unless the token is a symbol outside the
alphabet, so a pattern has at most one sequence of tokens.
-/

namespace EpsilonNfa

namespace Token

/-- A symbol that a pattern can hold reads an ASCII letter or digit. -/
def Lexical (token : Token) : Prop :=
  ∀ s, token = .symbol s → ∃ c : Char, c.isAlphanum = true ∧ s = .letter c

/-- The only character that a token is read from is the one that writes it. -/
theorem ofChar?_eq_some_iff {token : Token} {c : Char} :
    ofChar? c = some token ↔ token.Lexical ∧ token.toChar = c := by
  constructor
  · intro h
    refine ⟨?_, toChar_of_ofChar? h⟩
    rintro s rfl
    unfold ofChar? at h
    split at h
    · cases h
    · split at h
      · next halpha =>
        cases h
        exact ⟨c, halpha, rfl⟩
      · cases h
  · rintro ⟨hlexical, rfl⟩
    cases token with
    | symbol s =>
      obtain ⟨c, halpha, rfl⟩ := hlexical s rfl
      exact ofChar?_alphanum halpha
    | operator o => exact ofChar?_operator o

/-- All characters are admitted and give `tokens`, exactly when they give them one by one. -/
theorem forall₂_ofChar?_iff {tokens : List Token} {cs : List Char} :
    List.Forall₂ (fun token c => ofChar? c = some token) tokens cs ↔
      cs.dropWhile admits = [] ∧ cs.filterMap ofChar? = tokens := by
  induction cs generalizing tokens with
  | nil => simp [eq_comm]
  | cons c cs ih =>
    rw [List.forall₂_cons_right_iff]
    cases hc : ofChar? c with
    | none => simp [admits, hc]
    | some token =>
      rw [List.dropWhile_cons_of_pos (by simp [admits, hc]), List.filterMap_cons_some hc]
      constructor
      · rintro ⟨_, rest, ⟨⟩, hrest, rfl⟩
        obtain ⟨hadmitted, rfl⟩ := ih.1 hrest
        exact ⟨hadmitted, rfl⟩
      · rintro ⟨hadmitted, rfl⟩
        exact ⟨token, _, rfl, ih.2 ⟨hadmitted, rfl⟩, rfl⟩

theorem lexical_operator (o : Operator) : (operator o).Lexical :=
  nofun

theorem lexical_letter {c : Char} (h : c.isAlphanum = true) : (symbol (.letter c)).Lexical := by
  rintro s ⟨⟩
  exact ⟨c, h, rfl⟩

/-- Tokens that a pattern can hold are written as different characters. -/
theorem toChar_inj {token token' : Token} (h : token.Lexical) (h' : token'.Lexical) :
    token.toChar = token'.toChar ↔ token = token' := by
  constructor
  · intro heq
    have hread := ofChar?_eq_some_iff.2 ⟨h, heq⟩
    rw [ofChar?_eq_some_iff.2 ⟨h', rfl⟩] at hread
    exact (Option.some.inj hread).symm
  · rintro rfl
    rfl

/-- A token stands in a sequence as often as its character in the text. -/
theorem count_map_toChar {tokens : List Token} (h : ∀ token ∈ tokens, token.Lexical) {token : Token}
    (htoken : token.Lexical) : (tokens.map toChar).count token.toChar = tokens.count token := by
  rw [List.count, List.countP_map]
  exact List.countP_congr fun token' hmem => by simp [toChar_inj (h token' hmem) htoken]

theorem ofChar?_operator_eq_none_iff {c : Char} :
    Operator.ofChar? c = none ↔ c ∉ ['*', '.', '|', '(', ')'] := by
  unfold Operator.ofChar?
  split <;> simp_all

/-- A character outside the alphabet is no letter or digit and no operator. -/
theorem admits_eq_false_iff {c : Char} :
    admits c = false ↔ c.isAlphanum = false ∧ c ∉ ['*', '.', '|', '(', ')'] := by
  rw [← ofChar?_operator_eq_none_iff, admits, ofChar?]
  cases Operator.ofChar? c with
  | none => cases c.isAlphanum <;> simp
  | some o => simp

theorem display_eq_iff {tokens : List Token} {pattern : String} :
    display tokens = pattern ↔ tokens.map toChar = pattern.toList := by
  rw [display, ← String.ofList_inj, String.ofList_toList]

end Token

/-- The tokens of a pattern are the lexical ones that spell it. -/
theorem tokenize_eq_ok_iff {pattern : String} {tokens : List Token} :
    tokenize pattern = .ok tokens ↔
      (∀ token ∈ tokens, token.Lexical) ∧ Token.display tokens = pattern := by
  have hread : tokenize pattern = .ok tokens ↔
      List.Forall₂ (fun token c => Token.ofChar? c = some token) tokens pattern.toList := by
    rw [Token.forall₂_ofChar?_iff, tokenize]
    cases pattern.toList.dropWhile Token.admits <;> simp
  rw [hread, Token.display_eq_iff, ← List.forall₂_eq_eq_eq, List.forall₂_map_left_iff,
    ← List.forall₂_and_left]
  simp only [Token.ofChar?_eq_some_iff]

/-- A pattern is read when all its characters are of the alphabet, and the fault is
    `unexpectedCharacter` when one is not. -/
theorem exists_tokenize_eq_ok {pattern : String}
    (h : ∀ c ∈ pattern.toList, Token.admits c = true) : ∃ tokens, tokenize pattern = .ok tokens := by
  refine ⟨pattern.toList.filterMap Token.ofChar?, ?_⟩
  rw [tokenize, List.dropWhile_eq_nil_iff.2 h]

theorem exists_tokenize_eq_error {pattern : String} {c : Char} (hmem : c ∈ pattern.toList)
    (hc : Token.admits c = false) :
    ∃ consumed rest, tokenize pattern = .error (.unexpectedCharacter consumed rest) := by
  rw [tokenize]
  split
  · next hdrop =>
    have := List.dropWhile_eq_nil_iff.1 hdrop c hmem
    rw [hc] at this
    cases this
  · exact ⟨_, _, rfl⟩

end EpsilonNfa
