import CallThunk.Proofs.Source.Lexing

/-!
# The rules of tokens

Which texts are tokens, which are passed over, and what is the longest token at a place, said
without looking at a scanner. `Piece.fits_at` says that the piece at the start of a text follows
these rules, and `Longest.unique` that they leave no choice.
-/

namespace CallThunk.Source

/-! ## Rules -/

/-- The text of a keyword or of punctuation. -/
def TokenKind.spelling? : TokenKind → Option String
  | kwStruct => some "struct"
  | kwOpaque => some "opaque"
  | kwFn => some "fn"
  | kwLet => some "let"
  | kwAs => some "as"
  | kwReturn => some "return"
  | lBrace => some "\x7b"
  | rBrace => some "\x7d"
  | lParen => some "("
  | rParen => some ")"
  | comma => some ","
  | colon => some ":"
  | semi => some ";"
  | ellipsis => some "..."
  | dot => some "."
  | eq => some "="
  | star => some "*"
  | arrow => some "->"
  | int | ident | eof => none

/-- The texts that can be a token of a kind. A keyword could be an identifier, too. -/
inductive Spells : TokenKind → List Char → Prop where
  | fixed {kind : TokenKind} {text : String} (spelling : kind.spelling? = some text) :
      Spells kind text.toList
  | int {c : Char} {cs : List Char} (first : c.isDigit) (digits : ∀ d ∈ cs, d.isDigit) :
      Spells .int (c :: cs)
  | ident {c : Char} {cs : List Char} (first : isWordStart c) (chars : ∀ d ∈ cs, isWordChar d) :
      Spells .ident (c :: cs)

/-- The texts that are passed over in front of another text: blanks, and comments, which go up to
the end of their line. -/
inductive Skips : List Char → List Char → Prop where
  | blanks {c : Char} {cs behind : List Char} (first : isBlank c) (blanks : ∀ d ∈ cs, isBlank d) :
      Skips (c :: cs) behind
  | comment {cs behind : List Char} (line : '\n' ∉ cs) (ends : ∀ d ∈ behind.head?, d = '\n') :
      Skips ('/' :: '/' :: cs) behind

/-- A token is the longest one at its place, and a text that could be tokens of two kinds is no
identifier. -/
structure Longest (kind : TokenKind) (lexeme behind : List Char) : Prop where
  spells : Spells kind lexeme
  longest : ∀ other xs, Spells other xs → xs <+: lexeme ++ behind → xs.length ≤ lexeme.length
  wins : ∀ other, Spells other lexeme → other = kind ∨ other = .ident

/-- Neither a token nor a text that is passed over starts a text. -/
structure Idle (cs : List Char) : Prop where
  spells : ∀ kind xs, Spells kind xs → ¬ xs <+: cs
  skips : ∀ xs behind, Skips xs behind → xs ++ behind ≠ cs

/-- A piece is what the rules say of the start of a text. -/
inductive Piece.Fits : Piece → List Char → Prop where
  | skip {xs behind : List Char} (skips : Skips xs behind) :
      Fits (.skip xs.length) (xs ++ behind)
  | token {kind : TokenKind} {xs behind : List Char} (longest : Longest kind xs behind) :
      Fits (.token kind xs.length) (xs ++ behind)
  | bad {cs : List Char} (idle : Idle cs) : Fits .bad cs

/-! ## First characters -/

/-- Punctuation with its kinds. -/
def punctuation : List (TokenKind × List Char) :=
  [(.lBrace, ['\x7b']), (.rBrace, ['\x7d']), (.lParen, ['(']), (.rParen, [')']), (.comma, [',']),
    (.colon, [':']), (.semi, [';']), (.ellipsis, ['.', '.', '.']), (.dot, ['.']), (.eq, ['=']),
    (.star, ['*']), (.arrow, ['-', '>'])]

theorem Spells.ne_nil {kind : TokenKind} {cs : List Char} (h : Spells kind cs) : cs ≠ [] := by
  cases h with
  | @fixed _ text spelling => cases kind <;> cases spelling <;> decide
  | int => nofun
  | ident => nofun

/-- The end of input has no text. -/
theorem Spells.ne_eof {kind : TokenKind} {cs : List Char} (h : Spells kind cs) : kind ≠ .eof := by
  rintro rfl
  cases h with
  | fixed spelling => cases spelling

/-- The first character of a token tells whether it is a word, a number or punctuation. -/
theorem Spells.shape {kind : TokenKind} {c : Char} {cs : List Char} (h : Spells kind (c :: cs)) :
    (isWordStart c ∧ (∀ d ∈ cs, isWordChar d) ∧ (kind = .ident ∨ kind = wordKind (c :: cs))) ∨
      (c.isDigit ∧ (∀ d ∈ cs, d.isDigit) ∧ kind = .int) ∨ (kind, c :: cs) ∈ punctuation := by
  generalize whole : c :: cs = text at h
  cases h with
  | fixed spelling =>
      cases kind <;> cases spelling <;> cases whole
      all_goals
        first
        | exact .inl ⟨by decide, List.all_eq_true.mp rfl, .inr rfl⟩
        | exact .inr (.inr (by decide))
  | int first digits =>
      cases whole
      exact .inr (.inl ⟨first, digits, rfl⟩)
  | ident first chars =>
      cases whole
      exact .inl ⟨first, chars, .inl rfl⟩

theorem spells_of_mem_punctuation {kind : TokenKind} {cs : List Char}
    (h : (kind, cs) ∈ punctuation) : Spells kind cs := by
  have fixed : ∀ p ∈ punctuation, (p.1.spelling?.map String.toList) = some p.2 := by decide
  obtain ⟨text, spelling, rfl⟩ := Option.map_eq_some_iff.mp (fixed _ h)
  exact .fixed spelling

theorem spells_wordKind {c : Char} {cs : List Char} (first : isWordStart c)
    (chars : ∀ d ∈ cs, isWordChar d) : Spells (wordKind (c :: cs)) (c :: cs) := by
  unfold wordKind
  split
  next same => exact same ▸ .fixed rfl
  split
  next same => exact same ▸ .fixed rfl
  split
  next same => exact same ▸ .fixed rfl
  split
  next same => exact same ▸ .fixed rfl
  split
  next same => exact same ▸ .fixed rfl
  split
  next same => exact same ▸ .fixed rfl
  exact .ident first chars

theorem mem_symbols_of_mem_punctuation {kind : TokenKind} {c : Char} {cs : List Char}
    (h : (kind, c :: cs) ∈ punctuation) : c ∈ symbols := by
  have first : ∀ p ∈ punctuation, p.2.head?.all (· ∈ symbols) := by decide
  exact of_decide_eq_true (first _ h)

/-- No token starts like a text that is passed over. -/
theorem Spells.not_skips {kind : TokenKind} {xs ys behind : List Char} (h : Spells kind xs)
    (skips : Skips ys behind) : xs.head? ≠ ys.head? := by
  cases xs with
  | nil => exact absurd rfl h.ne_nil
  | cons c cs =>
      intro same
      have blank : isBlank c ∨ c = '/' := by
        cases skips with
        | blanks first =>
            cases same
            exact .inl first
        | comment =>
            cases same
            exact .inr rfl
      have clear : ∀ p ∈ punctuation, p.2.head?.all fun d => !isBlank d && d ≠ '/' := by decide
      rcases h.shape with ⟨first, -⟩ | ⟨first, -⟩ | mark
      · rcases blank with blank | rfl
        · exact not_isBlank first (by decide) blank
        · revert first
          decide
      · rcases blank with blank | rfl
        · exact not_isBlank first (by decide) blank
        · revert first
          decide
      · have neither := clear _ mark
        rcases blank with blank | rfl
        · simp [blank] at neither
        · simp at neither

/-! ## The piece at a place -/

theorem length_le_takeWhile {p : Char → Bool} {xs cs : List Char} (all : ∀ x ∈ xs, p x)
    (front : xs <+: cs) : xs.length ≤ (cs.takeWhile p).length := by
  obtain ⟨rest, rfl⟩ := front
  rw [List.takeWhile_append_of_pos all, List.length_append]
  exact Nat.le_add_right ..

/-- A word goes on as long as its characters do, and is an identifier or one keyword. -/
theorem longest_word {c : Char} (first : isWordStart c) (cs : List Char) :
    Longest (wordKind (c :: cs.takeWhile isWordChar)) (c :: cs.takeWhile isWordChar)
      (cs.dropWhile isWordChar) where
  spells := spells_wordKind first (List.all_eq_true.mp (List.all_takeWhile ..))
  longest other xs spells front := by
    rw [List.cons_append, List.takeWhile_append_dropWhile] at front
    cases xs with
    | nil => exact Nat.zero_le _
    | cons d ds =>
        obtain ⟨rfl, inner⟩ := List.cons_prefix_cons.mp front
        rcases spells.shape with ⟨-, chars, -⟩ | ⟨digit, -⟩ | mark
        · exact Nat.succ_le_succ (length_le_takeWhile chars inner)
        · exact absurd first (not_isWordStart_of_isDigit digit)
        · exact absurd (mem_symbols_of_mem_punctuation mark) (not_mem_symbols first (by decide))
  wins other spells := by
    rcases spells.shape with ⟨-, -, kind⟩ | ⟨digit, -⟩ | mark
    · exact kind.symm
    · exact absurd first (not_isWordStart_of_isDigit digit)
    · exact absurd (mem_symbols_of_mem_punctuation mark) (not_mem_symbols first (by decide))

/-- A number goes on as long as its digits do. -/
theorem longest_number {c : Char} (first : c.isDigit) (cs : List Char) :
    Longest .int (c :: cs.takeWhile Char.isDigit) (cs.dropWhile Char.isDigit) where
  spells := .int first (List.all_eq_true.mp (List.all_takeWhile ..))
  longest other xs spells front := by
    rw [List.cons_append, List.takeWhile_append_dropWhile] at front
    cases xs with
    | nil => exact Nat.zero_le _
    | cons d ds =>
        obtain ⟨rfl, inner⟩ := List.cons_prefix_cons.mp front
        rcases spells.shape with ⟨word, -⟩ | ⟨-, digits, -⟩ | mark
        · exact absurd word (not_isWordStart_of_isDigit first)
        · exact Nat.succ_le_succ (length_le_takeWhile digits inner)
        · exact absurd (mem_symbols_of_mem_punctuation mark) (not_mem_symbols first (by decide))
  wins other spells := by
    rcases spells.shape with ⟨word, -⟩ | ⟨-, -, kind⟩ | mark
    · exact absurd word (not_isWordStart_of_isDigit first)
    · exact .inl kind
    · exact absurd (mem_symbols_of_mem_punctuation mark) (not_mem_symbols first (by decide))

/-- No word and no number starts with a symbol. -/
theorem Spells.mem_punctuation {kind : TokenKind} {c : Char} {cs : List Char}
    (h : Spells kind (c :: cs)) (symbol : c ∈ symbols) : (kind, c :: cs) ∈ punctuation := by
  rcases h.shape with ⟨first, -⟩ | ⟨first, -⟩ | mark
  · exact absurd symbol (not_mem_symbols first (by decide))
  · exact absurd symbol (not_mem_symbols first (by decide))
  · exact mark

/-- Punctuation is the longest token at its place if no longer punctuation stands there. -/
theorem longest_mark {kind : TokenKind} {c : Char} {cs behind : List Char}
    (mark : (kind, c :: cs) ∈ punctuation)
    (only : ∀ p ∈ punctuation, p.2.head? = some c → p.2 <+: c :: cs ++ behind →
      p.2.length ≤ cs.length + 1) :
    Longest kind (c :: cs) behind where
  spells := spells_of_mem_punctuation mark
  longest other xs spells front := by
    cases xs with
    | nil => exact Nat.zero_le _
    | cons d ds =>
        have same := (List.cons_prefix_cons.mp front).1
        subst same
        exact only _ (spells.mem_punctuation (mem_symbols_of_mem_punctuation mark)) rfl front
  wins other spells := by
    have once : ∀ p ∈ punctuation, ∀ q ∈ punctuation, p.2 = q.2 → p.1 = q.1 := by decide
    exact .inl (once _ (spells.mem_punctuation (mem_symbols_of_mem_punctuation mark)) _ mark rfl)

/-- Nothing starts with a character that starts neither a word, a number, punctuation nor what is
passed over. -/
theorem idle_of_first {c : Char} {cs : List Char} (blank : ¬ isBlank c) (word : ¬ isWordStart c)
    (digit : ¬ c.isDigit) (marks : ∀ p ∈ punctuation, p.2.head? = some c → ¬ p.2 <+: c :: cs)
    (comment : ¬ ['/', '/'] <+: c :: cs) : Idle (c :: cs) where
  spells kind xs spells front := by
    cases xs with
    | nil => exact spells.ne_nil rfl
    | cons d ds =>
        have same := (List.cons_prefix_cons.mp front).1
        subst same
        rcases spells.shape with ⟨first, -⟩ | ⟨first, -⟩ | mark
        · exact word first
        · exact digit first
        · exact marks _ mark rfl front
  skips xs behind skips whole := by
    cases skips with
    | blanks first =>
        cases whole
        exact blank first
    | @comment line =>
        exact comment ⟨line ++ behind, whole⟩

/-- Punctuation of one character with which no other starts. -/
theorem fits_single {kind : TokenKind} {c : Char} (mark : (kind, [c]) ∈ punctuation)
    (alone : ∀ p ∈ punctuation, p.2.head? = some c → p.2.length = 1) (cs : List Char) :
    (Piece.token kind 1).Fits (c :: cs) :=
  .token (longest_mark mark fun p member first _ => Nat.le_of_eq (alone p member first))

theorem fits_dot (cs : List Char) : (Piece.at ('.' :: cs)).Fits ('.' :: cs) := by
  by_cases more : ['.', '.'] <+: cs
  · obtain ⟨behind, rfl⟩ := more
    have only : ∀ p ∈ punctuation, p.2.length ≤ 3 := by decide
    exact .token (longest_mark (by decide : (_, ['.', '.', '.']) ∈ punctuation)
      fun p member _ _ => only p member)
  · have piece : Piece.at ('.' :: cs) = .token .dot 1 := by
      rw [Piece.at]
      rintro behind rfl
      exact more ⟨behind, rfl⟩
    have rivals : ∀ p ∈ punctuation, p.2.head? = some '.' →
        p.2 = ['.', '.', '.'] ∨ p.2.length = 1 := by
      decide
    rw [piece]
    have mark : (TokenKind.dot, ['.']) ∈ punctuation := by decide
    refine .token (longest_mark mark fun p member first front => ?_)
    rcases rivals p member first with same | single
    · rw [same] at front
      exact absurd (List.cons_prefix_cons.mp front).2 more
    · exact Nat.le_of_eq single

/-- A symbol that starts only one longer text starts nothing without the rest of it. -/
theorem idle_dash {cs : List Char} (h : ¬ ['>'] <+: cs) : Idle ('-' :: cs) := by
  have only : ∀ p ∈ punctuation, p.2.head? = some '-' → p.2 = ['-', '>'] := by decide
  refine idle_of_first (by decide) (by decide) (by decide) (fun p member first front => ?_) ?_
  · rw [only p member first] at front
    exact h (List.cons_prefix_cons.mp front).2
  · intro comment
    exact absurd (List.cons_prefix_cons.mp comment).1 (by decide)

theorem fits_dash (cs : List Char) : (Piece.at ('-' :: cs)).Fits ('-' :: cs) := by
  by_cases more : ['>'] <+: cs
  · obtain ⟨behind, rfl⟩ := more
    have only : ∀ p ∈ punctuation, p.2.head? = some '-' → p.2.length = 2 := by decide
    exact .token (longest_mark (by decide : (_, ['-', '>']) ∈ punctuation)
      fun p member first _ => Nat.le_of_eq (only p member first))
  · have piece : Piece.at ('-' :: cs) = .bad := by
      rw [Piece.at] <;> simp_all
      · rfl
      · rintro behind rfl
        exact more ⟨behind, rfl⟩
    exact piece ▸ .bad (idle_dash more)

theorem idle_slash {cs : List Char} (h : ¬ ['/'] <+: cs) : Idle ('/' :: cs) := by
  have none : ∀ p ∈ punctuation, p.2.head? ≠ some '/' := by decide
  refine idle_of_first (by decide) (by decide) (by decide)
    (fun p member first => absurd first (none p member)) ?_
  exact fun comment => h (List.cons_prefix_cons.mp comment).2

/-- A comment ends at the next newline. -/
theorem skips_comment (cs : List Char) :
    Skips ('/' :: '/' :: cs.takeWhile (· ≠ '\n')) (cs.dropWhile (· ≠ '\n')) := by
  refine .comment (fun newline => ?_) (fun d hd => ?_)
  · have other := List.all_eq_true.mp (List.all_takeWhile ..) _ newline
    simp at other
  · have stop := List.head?_dropWhile_not (· ≠ '\n') cs
    rw [hd] at stop
    simpa using stop

theorem fits_slash (cs : List Char) : (Piece.at ('/' :: cs)).Fits ('/' :: cs) := by
  by_cases more : ['/'] <+: cs
  · obtain ⟨behind, rfl⟩ := more
    have skip := Piece.Fits.skip (skips_comment behind)
    rw [List.cons_append, List.cons_append, List.takeWhile_append_dropWhile, List.length_cons,
      List.length_cons] at skip
    have piece : Piece.at ('/' :: (['/'] ++ behind)) =
        .skip (2 + (behind.takeWhile (· ≠ '\n')).length) := rfl
    rw [piece, Nat.add_comm]
    exact skip
  · have piece : Piece.at ('/' :: cs) = .bad := by
      rw [Piece.at] <;> simp_all
      · rfl
      · rintro behind rfl
        exact more ⟨behind, rfl⟩
    exact piece ▸ .bad (idle_slash more)

/-- The piece at a place follows the rules. -/
theorem Piece.fits_at (c : Char) (cs : List Char) : (Piece.at (c :: cs)).Fits (c :: cs) := by
  by_cases symbol : c ∈ symbols
  · simp only [symbols, List.mem_cons, List.not_mem_nil, or_false] at symbol
    rcases symbol with rfl | rfl | rfl | rfl | rfl | rfl | rfl | rfl | rfl | rfl | rfl | rfl
    any_goals exact fits_single (by decide) (by decide) cs
    · exact fits_dot cs
    · exact fits_dash cs
    · exact fits_slash cs
  by_cases blank : isBlank c
  · have skips : Skips (c :: cs.takeWhile isBlank) (cs.dropWhile isBlank) :=
      .blanks blank (List.all_eq_true.mp (List.all_takeWhile ..))
    have skip := Fits.skip skips
    rw [List.cons_append, List.takeWhile_append_dropWhile] at skip
    exact piece_of_blank blank cs ▸ skip
  by_cases word : isWordStart c
  · have token := Fits.token (longest_word word cs)
    rw [List.cons_append, List.takeWhile_append_dropWhile] at token
    exact piece_of_wordStart word cs ▸ token
  by_cases digit : c.isDigit
  · have token := Fits.token (longest_number digit cs)
    rw [List.cons_append, List.takeWhile_append_dropWhile] at token
    exact piece_of_digit digit cs ▸ token
  · rw [piece_of_other symbol, if_neg blank, if_neg word, if_neg digit]
    refine .bad (idle_of_first blank word digit (fun p member first _ => ?_) fun comment => ?_)
    · obtain ⟨kind, text⟩ := p
      cases text with
      | nil => cases first
      | cons d ds =>
          cases first
          exact symbol (mem_symbols_of_mem_punctuation member)
    · have same := (List.cons_prefix_cons.mp comment).1
      subst same
      exact symbol (by decide)

/-! ## The rules leave no choice -/

theorem Longest.kind_eq {kind kind' : TokenKind} {xs behind : List Char}
    (h : Longest kind xs behind) (h' : Longest kind' xs behind) : kind = kind' := by
  rcases h'.wins kind h.spells with same | rfl
  · exact same
  · rcases h.wins kind' h'.spells with same | rfl
    · exact same.symm
    · rfl

/-- There is one longest token at a place at most. -/
theorem Longest.unique {kind kind' : TokenKind} {xs xs' behind behind' : List Char}
    (h : Longest kind xs behind) (h' : Longest kind' xs' behind')
    (same : xs ++ behind = xs' ++ behind') : kind = kind' ∧ xs = xs' := by
  have shorter := h'.longest kind xs h.spells ⟨behind, same⟩
  have longer := h.longest kind' xs' h'.spells ⟨behind', same.symm⟩
  obtain ⟨rfl, rfl⟩ := List.append_inj same (Nat.le_antisymm shorter longer)
  exact ⟨h.kind_eq h', rfl⟩

theorem Skips.ne_nil {xs behind : List Char} (h : Skips xs behind) : xs ≠ [] := by
  cases h <;> nofun

/-- The longest token at a place is the piece there. -/
theorem Piece.at_of_longest {kind : TokenKind} {xs behind : List Char}
    (h : Longest kind xs behind) : Piece.at (xs ++ behind) = .token kind xs.length := by
  obtain ⟨c, cs, rfl⟩ := List.exists_cons_of_ne_nil h.spells.ne_nil
  have fits := Piece.fits_at c (cs ++ behind)
  rw [← List.cons_append] at fits
  generalize piece : Piece.at (c :: cs ++ behind) = found at fits
  generalize whole : c :: cs ++ behind = text at fits
  cases fits with
  | @skip ys _ skips =>
      obtain ⟨d, ds, rfl⟩ := List.exists_cons_of_ne_nil skips.ne_nil
      have first := (List.cons.inj whole).1
      subst first
      exact (h.spells.not_skips skips rfl).elim
  | token longest =>
      obtain ⟨rfl, rfl⟩ := h.unique longest whole
      rfl
  | bad idle => exact absurd ⟨behind, whole⟩ (idle.spells _ _ h.spells)

/-- Where nothing starts, there is no piece. -/
theorem Piece.at_of_idle {c : Char} {cs : List Char} (h : Idle (c :: cs)) :
    Piece.at (c :: cs) = .bad := by
  have fits := Piece.fits_at c cs
  generalize Piece.at (c :: cs) = found at fits
  generalize whole : c :: cs = text at fits
  cases fits with
  | skip skips => exact absurd whole.symm (h.skips _ _ skips)
  | @token _ xs behind longest => exact absurd ⟨behind, whole.symm⟩ (h.spells _ xs longest.spells)
  | bad => rfl

/-! ## Words between blanks -/

theorem Spells.not_isBlank {kind : TokenKind} {xs : List Char} (h : Spells kind xs) :
    ∀ d ∈ xs, ¬ isBlank d := by
  intro d hd
  cases xs with
  | nil => cases hd
  | cons c cs =>
      have clear : ∀ p ∈ punctuation, p.2.all fun d => !isBlank d := by decide
      rcases h.shape with ⟨first, chars, -⟩ | ⟨first, digits, -⟩ | mark
      · rcases List.mem_cons.mp hd with rfl | hd
        · exact CallThunk.Source.not_isBlank first (by decide)
        · exact CallThunk.Source.not_isBlank (chars d hd) (by decide)
      · rcases List.mem_cons.mp hd with rfl | hd
        · exact CallThunk.Source.not_isBlank first (by decide)
        · exact CallThunk.Source.not_isBlank (digits d hd) (by decide)
      · have visible := List.all_eq_true.mp (clear _ mark) d hd
        simpa using visible

/-- No token goes on over a blank, so the longest one at a place is also the longest one when a
blank or the end stands behind it. -/
theorem Longest.before_blank {kind : TokenKind} {xs behind behind' : List Char}
    (h : Longest kind xs behind) (blank : ∀ d ∈ behind'.head?, isBlank d) :
    Longest kind xs behind' where
  spells := h.spells
  longest other ys spells front := by
    rcases List.prefix_or_prefix_of_prefix front (List.prefix_append xs behind') with short | long
    · exact short.length_le
    · obtain ⟨zs, rfl⟩ := long
      have tail := (List.prefix_append_right_inj xs).mp front
      cases zs with
      | nil => simp
      | cons d ds =>
          obtain ⟨rest, rfl⟩ := tail
          exact absurd (blank d rfl) (spells.not_isBlank d (by simp))
  wins := h.wins

end CallThunk.Source
