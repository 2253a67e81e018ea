import EpsilonNfa.Proofs.Grammar.Derivation

/-!
Concatenation with a dot and without. An edit of a sequence takes some of its dots out and puts dots
in at some of the places where a concatenation is put in (`Redotted`). In a sequence without gaps
each dot stands between an operand that has ended and one that begins, which is where it is put in
again when it has been taken out:

    a . b     ──edit──▶     a b
      │ expand                │ expand
    a . b                   a . b

So the edits of such a sequence have one expansion (`Redotted.expand_eq`). With gaps they have not:
`. a` keeps the dot that `a` does not get.
-/

namespace EpsilonNfa

/-- `Redotted xs ys`: `ys` is `xs` with some dots taken out, and dots put in at some of the places
    where `xs` gets a concatenation. -/
inductive Redotted : List Token → List Token → Prop where
  | nil : Redotted [] []
  | keep (token : Token) {xs ys : List Token} :
      Redotted xs ys → Redotted (token :: xs) (token :: ys)
  | takeOut {xs ys : List Token} :
      Redotted xs ys → Redotted (.operator .concat :: xs) ys
  | putIn {a b : Token} {xs ys : List Token} :
      a.endsOperand = true → b.beginsOperand = true →
      Redotted (b :: xs) ys → Redotted (a :: b :: xs) (a :: .operator .concat :: ys)

theorem seam_eq_concat {a b : Token} (ha : a.endsOperand = true) (hb : b.beginsOperand = true) :
    seam a b = [.operator .concat] := by
  rw [seam, ha, hb]
  rfl

/-- No concatenation is put in on either side of a dot. -/
@[simp]
theorem seam_concat_left (b : Token) : seam (.operator .concat) b = [] := rfl

@[simp]
theorem seam_concat_right (a : Token) : seam a (.operator .concat) = [] := by
  simp [seam, Token.beginsOperand]

theorem expandConcatenation_eq_nil_iff {tokens : List Token} :
    expandConcatenation tokens = [] ↔ tokens = [] := by
  match tokens with
  | [] => simp [expandConcatenation]
  | [a] => simp
  | a :: b :: rest => simp [expandConcatenation_cons]

/-- An expanded sequence gets no further concatenation. -/
theorem expandConcatenation_expandConcatenation (tokens : List Token) :
    expandConcatenation (expandConcatenation tokens) = expandConcatenation tokens := by
  induction tokens with
  | nil => rfl
  | cons a rest ih =>
    cases rest with
    | nil => rfl
    | cons b rest =>
      -- the expanded rest still begins with `b`, so its seam with `a` is the same
      obtain ⟨tail, htail⟩ : ∃ tail, expandConcatenation (b :: rest) = b :: tail := by
        cases rest with
        | nil => exact ⟨[], rfl⟩
        | cons c rest => exact ⟨_, expandConcatenation_cons b c rest⟩
      rw [htail] at ih
      rw [expandConcatenation_cons, htail]
      cases hseam : a.endsOperand && b.beginsOperand with
      | true =>
        have hdot : seam a b = [.operator .concat] := by rw [seam, hseam, if_pos rfl]
        rw [hdot, List.singleton_append, expandConcatenation_cons, expandConcatenation_cons, ih]
        simp
      | false =>
        have hnone : seam a b = [] := by simp [seam, hseam]
        rw [hnone, List.nil_append, expandConcatenation_cons, ih, hnone, List.nil_append]

namespace Redotted

variable {xs ys : List Token}

theorem refl (xs : List Token) : Redotted xs xs := by
  induction xs with
  | nil => exact .nil
  | cons a xs ih => exact .keep a ih

/-- Making all concatenations explicit is an edit. -/
theorem expand (xs : List Token) : Redotted xs (expandConcatenation xs) := by
  induction xs with
  | nil => exact .nil
  | cons a xs ih =>
    cases xs with
    | nil => exact .refl [a]
    | cons b xs =>
      rw [expandConcatenation_cons, seam]
      split
      · next h =>
        rw [Bool.and_eq_true] at h
        exact .putIn h.1 h.2 ih
      · exact .keep a ih

/-- An edit leaves every token but the dots as often as it was. -/
theorem count_eq (h : Redotted xs ys) {token : Token} (hne : token ≠ .operator .concat) :
    ys.count token = xs.count token := by
  induction h with
  | nil => rfl
  | keep a _ ih => rw [List.count_cons, List.count_cons, ih]
  | takeOut _ ih => rw [List.count_cons_of_ne hne.symm, ih]
  | @putIn a b xs ys _ _ _ ih =>
    rw [List.count_cons, List.count_cons_of_ne hne.symm, ih, ← List.count_cons]

/-- An edit brings in nothing but dots. -/
theorem mem_or_eq_concat (h : Redotted xs ys) {token : Token} (ht : token ∈ ys) :
    token ∈ xs ∨ token = .operator .concat := by
  by_cases hne : token = .operator .concat
  · exact .inr hne
  · rw [← List.count_pos_iff, h.count_eq hne] at ht
    exact .inl (List.count_pos_iff.1 ht)

/-- Behind any token that leaves no gap before it, a sequence and its edit expand alike. -/
theorem expand_cons_eq (h : Redotted xs ys) : ∀ a : Token, gaps a.endsOperand xs = 0 →
    expandConcatenation (a :: ys) = expandConcatenation (a :: xs) := by
  induction h with
  | nil => exact fun _ _ => rfl
  | keep token _ ih =>
    intro a hgaps
    rw [expandConcatenation_cons, expandConcatenation_cons,
      ih token (gaps_cons_eq_zero.1 hgaps).2]
  | @takeOut xs ys _ ih =>
    intro a hgaps
    obtain ⟨hfits, hrest⟩ := gaps_cons_eq_zero.1 hgaps
    -- an operand has ended before the dot, and the next one begins right behind it
    have ha : a.endsOperand = true := hfits.resolve_right (by decide)
    cases xs with
    | nil => cases hrest
    | cons b xs =>
      obtain ⟨hfits', hrest'⟩ := gaps_cons_eq_zero.1 hrest
      have hb : b.beginsOperand = true := hfits'.resolve_left (by decide)
      rw [ih a (gaps_cons_eq_zero.2 ⟨.inl ha, hrest'⟩), expandConcatenation_cons,
        seam_eq_concat ha hb, expandConcatenation_cons a, expandConcatenation_cons _ b]
      simp
  | @putIn token b xs ys hends hbegins _ ih =>
    intro a hgaps
    obtain ⟨-, hrest⟩ := gaps_cons_eq_zero.1 hgaps
    have hdot : gaps (Token.operator .concat).endsOperand (b :: xs) = 0 :=
      gaps_cons_eq_zero.2 ⟨.inr hbegins, (gaps_cons_eq_zero.1 hrest).2⟩
    rw [expandConcatenation_cons, expandConcatenation_cons token, ih _ hdot,
      expandConcatenation_cons a, expandConcatenation_cons token, expandConcatenation_cons _ b,
      seam_eq_concat hends hbegins]
    simp

/-- Without gaps, a sequence and its edit expand alike. -/
theorem expand_eq (h : Redotted xs ys) (hgaps : gaps false xs = 0) :
    expandConcatenation ys = expandConcatenation xs := by
  -- nothing is put in behind an opening parenthesis
  have hopen (zs : List Token) : expandConcatenation (.operator .openParen :: zs) =
      .operator .openParen :: expandConcatenation zs := by
    cases zs with
    | nil => rfl
    | cons z zs => exact expandConcatenation_cons _ z zs
  have := h.expand_cons_eq (.operator .openParen) hgaps
  rw [hopen, hopen] at this
  exact (List.cons.inj this).2

end Redotted

end EpsilonNfa
