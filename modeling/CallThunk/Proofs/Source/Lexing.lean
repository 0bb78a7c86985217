import CallThunk.Source.Token
import CallThunk.Proofs.Numeral

/-!
# Cutting texts into words

What the tokens of a text are, whatever stands behind it. A text is described by its words, which
are the kinds and lexemes of its tokens, because those do not depend on where the text lies.
-/

namespace CallThunk.Source

/-- The kind and the text of a token. -/
abbrev Word := TokenKind × String

def Token.word (t : Token) : Word := (t.kind, t.lexeme)

/-- A name that is an identifier of the language and no keyword. -/
def isIdentifier (name : String) : Bool :=
  match name.toList with
  | [] => false
  | c :: cs => isWordStart c && cs.all isWordChar && wordKind (c :: cs) = .ident

/-! ## Cutting -/

/-- A text is cut into words, and there is nothing in it that is no piece. -/
def Lexes (cs : List Char) (ws : List Word) : Prop :=
  ∀ offset, (cut offset 0 cs).errors = [] ∧ (cut offset 0 cs).tokens.map Token.word = ws

theorem lexes_nil : Lexes [] [] := fun _ => ⟨rfl, rfl⟩

/-- The characters of a piece are passed over. -/
theorem cut_append (offset : Nat) (xs rest : List Char) :
    cut offset xs.length (xs ++ rest) = cut (offset + byteLength xs) 0 rest := by
  induction xs generalizing offset with
  | nil => rfl
  | cons x xs ih =>
      rw [List.length_cons, List.cons_append, cut, ih]
      simp [byteLength, Nat.add_assoc]

theorem lexes_token {c : Char} {xs rest : List Char} {kind : TokenKind} {ws : List Word}
    (piece : Piece.at (c :: xs ++ rest) = .token kind (xs.length + 1)) (h : Lexes rest ws) :
    Lexes (c :: xs ++ rest) ((kind, String.ofList (c :: xs)) :: ws) := by
  intro offset
  have lexeme : (c :: (xs ++ rest)).take (xs.length + 1) = c :: xs := by
    simp
  rw [List.cons_append] at piece ⊢
  rw [cut, piece]
  simp only [Nat.add_sub_cancel, cut_append, lexeme]
  obtain ⟨clean, tokens⟩ := h (offset + c.utf8Size + byteLength xs)
  exact ⟨clean, by rw [List.map_cons, tokens]; rfl⟩

/-! ## Pieces -/

/-- The characters that start a piece of a kind of their own. -/
def symbols : List Char :=
  ['\x7b', '\x7d', '(', ')', ',', ':', ';', '.', '=', '*', '-', '/']

theorem piece_of_other {c : Char} (h : c ∉ symbols) (cs : List Char) :
    Piece.at (c :: cs) =
      if isBlank c then .skip (1 + (cs.takeWhile isBlank).length)
      else if isWordStart c then
        .token (wordKind (c :: cs.takeWhile isWordChar)) (cs.takeWhile isWordChar).length.succ
      else if c.isDigit then .token .int (1 + (cs.takeWhile Char.isDigit).length)
      else .bad := by
  unfold Piece.at
  split <;> simp_all [symbols]

theorem not_mem_symbols {p : Char → Bool} {c : Char} (hc : p c)
    (hp : symbols.all fun s => !p s) : c ∉ symbols := by
  intro hmem
  have not := List.all_eq_true.mp hp c hmem
  rw [hc] at not
  cases not

theorem piece_of_blank {c : Char} (h : isBlank c) (cs : List Char) :
    Piece.at (c :: cs) = .skip ((cs.takeWhile isBlank).length + 1) := by
  rw [piece_of_other (not_mem_symbols h (by decide)), if_pos h, Nat.add_comm]

theorem not_isBlank {p : Char → Bool} {c : Char} (hc : p c)
    (hp : [' ', '\t', '\r', '\n'].all fun b => !p b) : ¬ isBlank c := by
  intro blank
  have hmem : c ∈ [' ', '\t', '\r', '\n'] := by
    simpa [isBlank, or_assoc] using blank
  have not := List.all_eq_true.mp hp c hmem
  rw [hc] at not
  cases not

theorem piece_of_wordStart {c : Char} (h : isWordStart c) (cs : List Char) :
    Piece.at (c :: cs) =
      .token (wordKind (c :: cs.takeWhile isWordChar)) ((cs.takeWhile isWordChar).length + 1) := by
  rw [piece_of_other (not_mem_symbols h (by decide)), if_neg (not_isBlank h (by decide)), if_pos h]

theorem not_isWordStart_of_isDigit {c : Char} (h : c.isDigit) : ¬ isWordStart c := by
  intro word
  have digit : 48 ≤ c.toNat ∧ c.toNat ≤ 57 := by
    simpa [Char.isDigit, UInt32.le_iff_toNat_le] using h
  simp only [isWordStart, Bool.or_eq_true, decide_eq_true_eq] at word
  rcases word with (alpha | rfl) | rfl
  · delta Char.isAlpha Char.isUpper Char.isLower at alpha
    simp only [Bool.or_eq_true, Bool.and_eq_true, decide_eq_true_eq, UInt32.le_iff_toNat_le,
      ge_iff_le] at alpha
    simp at alpha
    omega
  · revert h
    decide
  · revert h
    decide

theorem piece_of_digit {c : Char} (h : c.isDigit) (cs : List Char) :
    Piece.at (c :: cs) = .token .int ((cs.takeWhile Char.isDigit).length + 1) := by
  rw [piece_of_other (not_mem_symbols h (by decide)), if_neg (not_isBlank h (by decide)),
    if_neg (not_isWordStart_of_isDigit h), if_pos h, Nat.add_comm]

/-! ## Words, numbers and blanks -/

/-- What stands behind a word or a number must not go on with it. -/
def Ends (cs : List Char) : Prop := ∀ c ∈ cs.head?, ¬ isWordChar c

theorem takeWhile_append_of_ends {p : Char → Bool} {xs rest : List Char} (hxs : ∀ x ∈ xs, p x)
    (hrest : ∀ c ∈ rest.head?, ¬ p c) : (xs ++ rest).takeWhile p = xs := by
  rw [List.takeWhile_append_of_pos hxs]
  cases rest with
  | nil => simp
  | cons c rest => simp [hrest c rfl]

theorem lexes_word {c : Char} {xs rest : List Char} {ws : List Word} (hc : isWordStart c)
    (hxs : ∀ x ∈ xs, isWordChar x) (hrest : Ends rest) (h : Lexes rest ws) :
    Lexes (c :: xs ++ rest) ((wordKind (c :: xs), String.ofList (c :: xs)) :: ws) := by
  refine lexes_token ?_ h
  rw [List.cons_append, piece_of_wordStart hc, takeWhile_append_of_ends hxs hrest]

/-- An identifier is one word. -/
theorem lexes_identifier {name : String} {rest : List Char} {ws : List Word}
    (hname : isIdentifier name) (hrest : Ends rest) (h : Lexes rest ws) :
    Lexes (name.toList ++ rest) ((.ident, name) :: ws) := by
  unfold isIdentifier at hname
  split at hname
  · cases hname
  next c cs heq =>
    simp only [Bool.and_eq_true, List.all_eq_true, decide_eq_true_eq] at hname
    obtain ⟨⟨hc, hcs⟩, kind⟩ := hname
    have word := lexes_word hc hcs hrest h
    rw [kind, ← heq, String.ofList_toList] at word
    exact word

/-- Blanks may as well be passed over one by one. -/
theorem cut_blank {c : Char} (hc : isBlank c) (offset : Nat) (cs : List Char) :
    cut offset 0 (c :: cs) = cut (offset + c.utf8Size) 0 cs := by
  have passed {d : Char} {ds : List Char} (hd : isBlank d) (offset : Nat) :
      cut offset 0 (d :: ds) =
        cut (offset + d.utf8Size + byteLength (ds.takeWhile isBlank)) 0 (ds.dropWhile isBlank) := by
    rw [cut, piece_of_blank hd]
    simp only [Nat.add_sub_cancel]
    rw [← cut_append, List.takeWhile_append_dropWhile]
  rw [passed hc]
  cases cs with
  | nil => rfl
  | cons d ds =>
      by_cases hd : isBlank d
      · rw [passed hd, List.takeWhile_cons_of_pos hd, List.dropWhile_cons_of_pos hd]
        simp [byteLength, Nat.add_assoc]
      · rw [List.takeWhile_cons_of_neg hd, List.dropWhile_cons_of_neg hd]
        rfl

theorem lexes_blank {c : Char} {rest : List Char} {ws : List Word} (hc : isBlank c)
    (h : Lexes rest ws) : Lexes (c :: rest) ws := by
  intro offset
  rw [cut_blank hc]
  exact h _

/-- A comment is passed over up to the end of its line. -/
theorem cut_comment {text rest : List Char} (line : '\n' ∉ text)
    (ends : ∀ d ∈ rest.head?, d = '\n') (offset : Nat) :
    cut offset 0 ('/' :: '/' :: text ++ rest) =
      cut (offset + byteLength ('/' :: '/' :: text)) 0 rest := by
  have taken : (text ++ rest).takeWhile (· ≠ '\n') = text := by
    refine takeWhile_append_of_ends (fun d hd => ?_) fun d hd => ?_
    · exact decide_eq_true (ne_of_mem_of_not_mem hd line)
    · rw [ends d hd]
      decide
  have piece : Piece.at ('/' :: '/' :: (text ++ rest)) = .skip (2 + text.length) := by
    show Piece.skip (2 + ((text ++ rest).takeWhile (· ≠ '\n')).length) = _
    rw [taken]
  have length : 2 + text.length - 1 = ('/' :: text).length := by
    rw [List.length_cons]
    omega
  rw [List.cons_append, List.cons_append, cut, piece]
  simp only [length]
  rw [← List.cons_append, cut_append, Nat.add_assoc]
  rfl

theorem lexes_comment {text rest : List Char} {ws : List Word} (htext : '\n' ∉ text)
    (h : Lexes rest ws) : Lexes ('/' :: '/' :: text ++ '\n' :: rest) ws := by
  intro offset
  have newline : ∀ d ∈ ('\n' :: rest).head?, d = '\n' := by
    rintro d ⟨⟩
    rfl
  rw [cut_comment htext newline]
  exact lexes_blank (by decide) h _

/-- A number in decimal is one word. -/
theorem lexes_decimal {n : Nat} {rest : List Char} {ws : List Word} (hrest : Ends rest)
    (h : Lexes rest ws) :
    Lexes ((Numeral.decimal n).toList ++ rest) ((.int, Numeral.decimal n) :: ws) := by
  have digits (c : Char) (hc : c ∈ (Numeral.decimal n).toList) : c.isDigit :=
    Numeral.isDigit_of_mem_decimal hc
  have notDigit : ∀ c ∈ rest.head?, ¬ c.isDigit := fun c hc hd =>
    hrest c hc (by simp [isWordChar, hd])
  cases heq : (Numeral.decimal n).toList with
  | nil =>
      rw [Numeral.toList_decimal] at heq
      exact absurd heq Nat.toDigits_ne_nil
  | cons c cs =>
      rw [heq] at digits
      have number : Lexes (c :: cs ++ rest) ((.int, String.ofList (c :: cs)) :: ws) := by
        refine lexes_token ?_ h
        rw [List.cons_append, piece_of_digit (digits c (List.mem_cons_self ..)),
          takeWhile_append_of_ends (fun d hd => digits d (List.mem_cons_of_mem _ hd)) notDigit]
      rwa [← heq, String.ofList_toList, heq] at number

/-! ## Identifiers -/

theorem piece_eq_ident {c : Char} {cs : List Char} {length : Nat}
    (h : Piece.at (c :: cs) = .token .ident length) :
    isWordStart c ∧ wordKind (c :: cs.takeWhile isWordChar) = .ident ∧
      length = (cs.takeWhile isWordChar).length + 1 := by
  unfold Piece.at at h
  split at h
  any_goals cases h
  next heq =>
    cases heq
    split at h
    · cases h
    · split at h
      next start =>
        obtain ⟨kind, length⟩ := Piece.token.inj h
        exact ⟨start, kind, length.symm⟩
      next => split at h <;> cases h

theorem isIdentifier_ofList {c : Char} {cs : List Char} (hc : isWordStart c)
    (hcs : ∀ d ∈ cs, isWordChar d) (kind : wordKind (c :: cs) = .ident) :
    isIdentifier (String.ofList (c :: cs)) := by
  unfold isIdentifier
  rw [String.toList_ofList]
  simp only [hc, kind, List.all_eq_true.mpr hcs, decide_true, Bool.and_self]

/-- A token that is an identifier is spelled as one. -/
theorem isIdentifier_of_mem_cut {offset pending : Nat} {cs : List Char} {t : Token}
    (h : t ∈ (cut offset pending cs).tokens) (kind : t.kind = .ident) : isIdentifier t.lexeme := by
  induction cs generalizing offset pending with
  | nil => cases pending <;> cases h
  | cons c cs ih =>
      cases pending with
      | succ pending => exact ih h
      | zero =>
          rw [cut] at h
          split at h
          · exact ih h
          next kind' length piece =>
            rcases List.mem_cons.mp h with rfl | h
            · cases kind
              obtain ⟨start, word, rfl⟩ := piece_eq_ident piece
              have whole : (c :: cs).take ((cs.takeWhile isWordChar).length + 1) =
                  c :: cs.takeWhile isWordChar := by
                rw [List.take_succ_cons]
                congr 1
                exact (List.prefix_iff_eq_take.mp (List.takeWhile_prefix _)).symm
              rw [whole]
              exact isIdentifier_ofList start (List.all_eq_true.mp (List.all_takeWhile ..)) word
            · exact ih h
          · exact ih h

end CallThunk.Source
