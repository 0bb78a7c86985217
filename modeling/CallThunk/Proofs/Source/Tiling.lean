import CallThunk.Proofs.Source.Pieces

/-!
# Tilings of a source

A source is tiled by its tokens and its bad characters with passed-over text between them. `Tiling`
says which tilings follow the rules of tokens; every text has one, and each of them gives its cut.
Joined with blanks, the tokens of a source are cut into the same words.
-/

namespace CallThunk.Source

/-! ## Lengths in bytes -/

theorem byteLength_append (xs ys : List Char) :
    byteLength (xs ++ ys) = byteLength xs + byteLength ys := by
  induction xs with
  | nil => exact (Nat.zero_add _).symm
  | cons x xs ih =>
      show x.utf8Size + byteLength (xs ++ ys) = x.utf8Size + byteLength xs + byteLength ys
      rw [ih, Nat.add_assoc]

theorem byteLength_eq_utf8ByteSize (cs : List Char) :
    byteLength cs = (String.ofList cs).utf8ByteSize := by
  induction cs with
  | nil => rfl
  | cons c cs ih =>
      rw [String.ofList_cons, String.utf8ByteSize_append, String.utf8ByteSize_singleton, ← ih]
      rfl

theorem byteLength_pos {cs : List Char} (h : cs ≠ []) : 0 < byteLength cs := by
  obtain ⟨c, cs, rfl⟩ := List.exists_cons_of_ne_nil h
  exact Nat.add_pos_left c.utf8Size_pos _

/-! ## Tilings -/

/-- Text that is passed over in front of another text. -/
inductive Gap : List Char → List Char → Prop where
  | nil {behind : List Char} : Gap [] behind
  | cons {xs ys behind : List Char} (first : Skips xs (ys ++ behind)) (rest : Gap ys behind) :
      Gap (xs ++ ys) behind

/-- A token or a bad character. -/
inductive Mark where
  | token (t : Token)
  | bad (b : BadChar)

namespace Mark

def span : Mark → Span
  | token t => t.span
  | bad b => b.span

def text : Mark → String
  | token t => t.lexeme
  | bad b => String.singleton b.char

def token? : Mark → Option Token
  | token t => some t
  | bad _ => none

def bad? : Mark → Option BadChar
  | token _ => none
  | bad b => some b

/-- What the rules ask of a mark in front of a text. -/
def Fits : Mark → List Char → Prop
  | token t, behind => Longest t.kind t.lexeme.toList behind
  | bad b, behind => Idle (b.char :: behind)

end Mark

/-- A text at an offset consists of marks with passed-over text around them. -/
inductive Tiling : Nat → List Char → List Mark → Prop where
  | done {offset : Nat} {cs : List Char} (gap : Gap cs []) : Tiling offset cs []
  | cons {offset : Nat} {before behind : List Char} {m : Mark} {marks : List Mark}
      (gap : Gap before (m.text.toList ++ behind))
      (place : m.span = ⟨offset + byteLength before,
        offset + byteLength before + byteLength m.text.toList⟩)
      (fits : m.Fits behind) (rest : Tiling m.span.stop behind marks) :
      Tiling offset (before ++ (m.text.toList ++ behind)) (m :: marks)

/-- Marks as tokens and errors. -/
def Tokens.ofMarks (marks : List Mark) : Tokens :=
  ⟨marks.filterMap Mark.token?, marks.filterMap Mark.bad?⟩

/-! ## Every text has a tiling -/

theorem Tiling.skip {offset : Nat} {xs cs : List Char} {marks : List Mark} (skips : Skips xs cs)
    (h : Tiling (offset + byteLength xs) cs marks) : Tiling offset (xs ++ cs) marks := by
  cases h with
  | done gap => exact .done (.cons (by rwa [List.append_nil]) gap)
  | cons gap place fits rest =>
      rw [← List.append_assoc]
      refine .cons (.cons skips gap) ?_ fits rest
      rw [place, byteLength_append, Nat.add_assoc offset]

theorem Tiling.mark {offset : Nat} {behind : List Char} {m : Mark} {marks : List Mark}
    (place : m.span = ⟨offset, offset + byteLength m.text.toList⟩) (fits : m.Fits behind)
    (rest : Tiling m.span.stop behind marks) :
    Tiling offset (m.text.toList ++ behind) (m :: marks) :=
  .cons .nil place fits rest

theorem exists_tiling (offset : Nat) (cs : List Char) : ∃ marks, Tiling offset cs marks := by
  -- every piece has characters, so what is behind it is shorter
  induction h : cs.length using Nat.strongRecOn generalizing offset cs with
  | _ n ih =>
    subst h
    cases cs with
    | nil => exact ⟨[], .done .nil⟩
    | cons c cs =>
      have fits := Piece.fits_at c cs
      generalize Piece.at (c :: cs) = piece at fits
      generalize whole : c :: cs = text at fits ih
      cases fits with
      | @skip xs behind skips =>
          have pos := List.length_pos_iff.mpr skips.ne_nil
          obtain ⟨marks, rest⟩ := ih behind.length (by simp; omega) (offset + byteLength xs) _ rfl
          exact ⟨marks, rest.skip skips⟩
      | @token kind xs behind longest =>
          have pos := List.length_pos_iff.mpr longest.spells.ne_nil
          let t : Token := ⟨kind, ⟨offset, offset + byteLength xs⟩, String.ofList xs⟩
          have lexeme : (Mark.token t).text.toList = xs := String.toList_ofList
          obtain ⟨marks, rest⟩ := ih behind.length (by simp; omega) t.span.stop _ rfl
          refine ⟨.token t :: marks, ?_⟩
          rw [← lexeme] at longest ⊢
          exact .mark (by rw [lexeme]; rfl) longest rest
      | bad idle =>
          let b : BadChar := ⟨c, ⟨offset, offset + c.utf8Size⟩⟩
          have char : (Mark.bad b).text.toList = [c] := String.toList_singleton c
          subst whole
          obtain ⟨marks, rest⟩ := ih cs.length (by simp) b.span.stop _ rfl
          refine ⟨.bad b :: marks, ?_⟩
          have tiling : Tiling offset ((Mark.bad b).text.toList ++ cs) (.bad b :: marks) :=
            .mark (by rw [char]; rfl) idle rest
          rwa [char] at tiling

/-! ## The cut of a text is its tiling -/

theorem cut_skips {xs behind : List Char} (h : Skips xs behind) (offset : Nat) :
    cut offset 0 (xs ++ behind) = cut (offset + byteLength xs) 0 behind := by
  cases h with
  | @blanks c cs _ first blanks =>
      have all : ∀ d ∈ c :: cs, isBlank d := List.forall_mem_cons.mpr ⟨first, blanks⟩
      generalize c :: cs = xs at all
      induction xs generalizing offset with
      | nil => rfl
      | cons d ds ih =>
          obtain ⟨blank, all⟩ := List.forall_mem_cons.mp all
          rw [List.cons_append, cut_blank blank, ih _ all, Nat.add_assoc]
          rfl
  | comment line ends => exact cut_comment line ends offset

theorem cut_gap {before behind : List Char} (h : Gap before behind) (offset : Nat) :
    cut offset 0 (before ++ behind) = cut (offset + byteLength before) 0 behind := by
  induction h generalizing offset with
  | nil => rfl
  | cons first _ ih =>
      rw [List.append_assoc, cut_skips first, ih, byteLength_append, Nat.add_assoc]

theorem cut_token {t : Token} {behind : List Char} {offset : Nat}
    (longest : Longest t.kind t.lexeme.toList behind)
    (place : t.span = ⟨offset, offset + byteLength t.lexeme.toList⟩) :
    cut offset 0 (t.lexeme.toList ++ behind) =
      { cut t.span.stop 0 behind with tokens := t :: (cut t.span.stop 0 behind).tokens } := by
  obtain ⟨kind, span, lexeme⟩ := t
  dsimp only at longest place ⊢
  subst place
  have piece := Piece.at_of_longest longest
  obtain ⟨c, cs, same⟩ := List.exists_cons_of_ne_nil longest.spells.ne_nil
  rw [same] at piece ⊢
  have text : String.ofList (c :: cs) = lexeme := by
    rw [← same, String.ofList_toList]
  have taken : (c :: (cs ++ behind)).take (cs.length + 1) = c :: cs := by
    simp
  rw [List.cons_append, List.length_cons] at piece
  rw [List.cons_append, cut, piece]
  simp only [taken, text, Nat.add_sub_cancel, cut_append]
  rw [Nat.add_assoc]
  rfl

theorem cut_bad {b : BadChar} {behind : List Char} {offset : Nat} (idle : Idle (b.char :: behind))
    (place : b.span = ⟨offset, offset + b.char.utf8Size⟩) :
    cut offset 0 (b.char :: behind) =
      { cut b.span.stop 0 behind with errors := b :: (cut b.span.stop 0 behind).errors } := by
  obtain ⟨char, span⟩ := b
  dsimp only at idle place ⊢
  subst place
  rw [cut, Piece.at_of_idle idle]

/-- Any tiling of a text that follows the rules is its cut. -/
theorem Tiling.cut_eq {offset : Nat} {cs : List Char} {marks : List Mark}
    (h : Tiling offset cs marks) : cut offset 0 cs = .ofMarks marks := by
  induction h with
  | done gap =>
      have passed := cut_gap gap
      simp only [List.append_nil] at passed
      rw [passed]
      rfl
  | @cons offset before behind m marks gap place fits rest ih =>
      rw [cut_gap gap]
      cases m with
      | token t =>
          have taken := cut_token fits place
          rw [show cut t.span.stop 0 behind = _ from ih] at taken
          exact taken
      | bad b =>
          have char : (Mark.bad b).text.toList = [b.char] := String.toList_singleton b.char
          rw [char] at place ⊢
          have taken := cut_bad fits place
          rw [show cut b.span.stop 0 behind = _ from ih] at taken
          exact taken

/-! ## Places in the source -/

/-- A span of a source and the text at it. -/
def Span.Covers (span : Span) (source text : String) : Prop :=
  ∃ before behind, source = before ++ text ++ behind ∧
    span = ⟨before.utf8ByteSize, (before ++ text).utf8ByteSize⟩

theorem Mark.Fits.ne_nil {m : Mark} {behind : List Char} (h : m.Fits behind) :
    m.text.toList ≠ [] := by
  cases m with
  | token t => exact Spells.ne_nil (Longest.spells h)
  | bad b =>
      rw [show (Mark.bad b).text.toList = [b.char] from String.toList_singleton b.char]
      exact List.cons_ne_nil _ _

/-- Every mark stands somewhere in the text and fits what is behind it. -/
theorem Tiling.exists_place {offset : Nat} {cs : List Char} {marks : List Mark}
    (h : Tiling offset cs marks) {m : Mark} (hm : m ∈ marks) :
    ∃ before behind, cs = before ++ m.text.toList ++ behind ∧ m.Fits behind ∧
      m.span = ⟨offset + byteLength before,
        offset + byteLength before + byteLength m.text.toList⟩ := by
  induction h with
  | done => cases hm
  | @cons offset before behind m' marks _ place fits _ ih =>
      rcases List.mem_cons.mp hm with rfl | hm
      · exact ⟨before, behind, (List.append_assoc ..).symm, fits, place⟩
      · obtain ⟨before', behind', rfl, fits', place'⟩ := ih hm
        refine ⟨before ++ m'.text.toList ++ before', behind', by simp, fits', ?_⟩
        rw [place', place]
        simp only [byteLength_append, Nat.add_assoc]

/-- The spans of marks are nonempty. -/
theorem Tiling.span_pos {offset : Nat} {cs : List Char} {marks : List Mark}
    (h : Tiling offset cs marks) {m : Mark} (hm : m ∈ marks) : m.span.start < m.span.stop := by
  obtain ⟨before, behind, -, fits, place⟩ := h.exists_place hm
  rw [place]
  exact Nat.lt_add_of_pos_right (byteLength_pos fits.ne_nil)

/-- Every mark ends before the next one starts. -/
theorem Tiling.pairwise {offset : Nat} {cs : List Char} {marks : List Mark}
    (h : Tiling offset cs marks) : marks.Pairwise fun a b => a.span.stop ≤ b.span.start := by
  induction h with
  | done => exact .nil
  | cons _ _ _ rest ih =>
      refine .cons (fun b hb => ?_) ih
      obtain ⟨before, behind, -, -, place⟩ := rest.exists_place hb
      rw [place]
      exact Nat.le_add_right ..

theorem Tiling.covers {source : String} {marks : List Mark} (h : Tiling 0 source.toList marks)
    {m : Mark} (hm : m ∈ marks) : m.span.Covers source m.text := by
  obtain ⟨before, behind, whole, -, place⟩ := h.exists_place hm
  refine ⟨String.ofList before, String.ofList behind, ?_, ?_⟩
  · rw [← String.toList_inj, whole]
    simp
  · rw [place, String.utf8ByteSize_append, ← byteLength_eq_utf8ByteSize, byteLength_eq_utf8ByteSize,
      byteLength_eq_utf8ByteSize, String.ofList_toList]
    simp

theorem eofToken_eq (source : String) :
    eofToken source = ⟨.eof, ⟨source.utf8ByteSize, source.utf8ByteSize⟩, ""⟩ := by
  unfold eofToken
  rw [byteLength_eq_utf8ByteSize, String.ofList_toList]

/-! ## Cutting joined tokens again -/

/-- The texts of tokens with a blank between them. -/
def joined (ts : List Token) : String := " ".intercalate (ts.map Token.lexeme)

theorem lexes_longest {kind : TokenKind} {xs behind : List Char} {ws : List Word}
    (longest : Longest kind xs behind) (h : Lexes behind ws) :
    Lexes (xs ++ behind) ((kind, String.ofList xs) :: ws) := by
  obtain ⟨c, cs, rfl⟩ := List.exists_cons_of_ne_nil longest.spells.ne_nil
  exact lexes_token (Piece.at_of_longest longest) h

theorem lexes_blanks {blanks : List Char} (h : ∀ c ∈ blanks, isBlank c) : Lexes blanks [] := by
  induction blanks with
  | nil => exact lexes_nil
  | cons c cs ih =>
      obtain ⟨blank, blanks⟩ := List.forall_mem_cons.mp h
      exact lexes_blank blank (ih blanks)

theorem lexes_joined {ts : List Token}
    (h : ∀ t ∈ ts, ∃ behind, Longest t.kind t.lexeme.toList behind) {blanks : List Char}
    (hblanks : ∀ c ∈ blanks, isBlank c) :
    Lexes ((joined ts).toList ++ blanks) (ts.map Token.word) := by
  induction ts with
  | nil => simpa [joined] using lexes_blanks hblanks
  | cons t ts ih =>
      obtain ⟨⟨behind, longest⟩, others⟩ := List.forall_mem_cons.mp h
      cases ts with
      | nil =>
          have last := lexes_longest
            (longest.before_blank fun d hd => hblanks d (List.mem_of_mem_head? hd))
            (lexes_blanks hblanks)
          simpa [joined, Token.word] using last
      | cons t' ts =>
          have rest := lexes_blank (c := ' ') (by decide) (ih others)
          have next := lexes_longest (longest.before_blank (by simp [isBlank])) rest
          simpa [joined, Token.word, String.intercalate_cons_cons] using next

/-- The end of input adds at most a blank to the joined tokens. -/
theorem exists_joined_eofToken (source : String) (ts : List Token) :
    ∃ blanks, (joined (ts ++ [eofToken source])).toList = (joined ts).toList ++ blanks ∧
      ∀ c ∈ blanks, isBlank c := by
  induction ts with
  | nil => exact ⟨[], rfl, nofun⟩
  | cons t ts ih =>
      cases ts with
      | nil =>
          refine ⟨[' '], ?_, List.all_eq_true.mp rfl⟩
          simp [joined, eofToken, String.intercalate_cons_cons]
      | cons t' ts =>
          obtain ⟨blanks, same, blank⟩ := ih
          refine ⟨blanks, ?_, blank⟩
          simp only [joined, List.cons_append, List.map_cons, String.intercalate_cons_cons,
            String.toList_append, List.append_assoc] at same ⊢
          rw [same]

theorem ofSource_of_lexes {source : String} {ws : List Word} (h : Lexes source.toList ws) :
    (Tokens.ofSource source).errors = [] ∧
      (Tokens.ofSource source).tokens.map Token.word = ws ++ [(.eof, "")] := by
  obtain ⟨clean, words⟩ := h 0
  refine ⟨clean, ?_⟩
  unfold Tokens.ofSource
  rw [List.map_append, words]
  rfl

/-- The tokens and the bad characters of a source tile it by the rules of tokens: their spans are
nonempty, one behind the other, and each token has the text at its span. The end of input is the
last token and stands nowhere else. Joined with blanks, with or without the end of input, the tokens
are cut into the same words. -/
theorem Tokens.ofSource_partition (source : String) :
    ∃ marks, Tiling 0 source.toList marks ∧
      (Tokens.ofSource source).tokens = marks.filterMap Mark.token? ++
        [⟨.eof, ⟨source.utf8ByteSize, source.utf8ByteSize⟩, ""⟩] ∧
      (Tokens.ofSource source).errors = marks.filterMap Mark.bad? ∧
      (∀ m ∈ marks, m.span.start < m.span.stop ∧ m.span.Covers source m.text) ∧
      (marks.Pairwise fun a b => a.span.stop ≤ b.span.start) ∧
      (∀ t ∈ marks.filterMap Mark.token?, t.kind ≠ .eof) ∧
      ∀ again ∈ [joined (Tokens.ofSource source).tokens,
          joined (Tokens.ofSource source).tokens.dropLast],
        (Tokens.ofSource again).errors = [] ∧
          (Tokens.ofSource again).tokens.map Token.word =
            (Tokens.ofSource source).tokens.map Token.word := by
  obtain ⟨marks, tiling⟩ := exists_tiling 0 source.toList
  have tokens : (Tokens.ofSource source).tokens =
      marks.filterMap Mark.token? ++ [eofToken source] := by
    unfold Tokens.ofSource
    rw [tiling.cut_eq]
    rfl
  have longest : ∀ t ∈ marks.filterMap Mark.token?,
      ∃ behind, Longest t.kind t.lexeme.toList behind := by
    intro t ht
    obtain ⟨m, hm, same⟩ := List.mem_filterMap.mp ht
    obtain ⟨-, behind, -, fits, -⟩ := tiling.exists_place hm
    cases m with
    | token =>
        cases same
        exact ⟨behind, fits⟩
    | bad => cases same
  refine ⟨marks, tiling, eofToken_eq source ▸ tokens, ?_, ?_, tiling.pairwise, ?_, ?_⟩
  · show (cut 0 0 source.toList).errors = _
    rw [tiling.cut_eq]
    rfl
  · exact fun m hm => ⟨tiling.span_pos hm, tiling.covers hm⟩
  · intro t ht
    obtain ⟨behind, place⟩ := longest t ht
    exact place.spells.ne_eof
  · intro again member
    have lexes : Lexes again.toList ((marks.filterMap Mark.token?).map Token.word) := by
      rw [tokens, List.dropLast_concat] at member
      simp only [List.mem_cons, List.not_mem_nil, or_false] at member
      rcases member with rfl | rfl
      · obtain ⟨blanks, same, blank⟩ := exists_joined_eofToken source (marks.filterMap Mark.token?)
        exact same ▸ lexes_joined longest blank
      · have text : ∀ c ∈ ([] : List Char), isBlank c := nofun
        have cleanly := lexes_joined longest text
        rwa [List.append_nil] at cleanly
    obtain ⟨clean, words⟩ := ofSource_of_lexes lexes
    refine ⟨clean, ?_⟩
    rw [words, tokens, List.map_append]
    rfl

example : ((Tokens.ofSource "a...->fnx#..fn// end").tokens.map Token.word) =
    [(.ident, "a"), (.ellipsis, "..."), (.arrow, "->"), (.ident, "fnx"), (.dot, "."), (.dot, "."),
      (.kwFn, "fn"), (.eof, "")] := by
  decide

end CallThunk.Source
