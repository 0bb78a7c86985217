import CallThunk.Ty.Printer
import CallThunk.Proofs.Source.Grammar
import CallThunk.Proofs.Source.Lexing
import CallThunk.Proofs.Ty.Mentions
import CallThunk.Proofs.Ty.WellFormed

/-!
# Spelled types are read back

The text of a type is cut into words that the grammar derives a type expression from, and that
expression means the type again. All that is asked for is that record names are identifiers.
-/

namespace CallThunk

open Source (Word TyExpr TyDerives ParamsDerive Token Lexes Ends)

mutual
/-- The words of a type. -/
def Ty.words : Ty → List Word
  | .void => [(.ident, "void")]
  | .bool => [(.ident, "bool")]
  | .int kind => [(.ident, kind.name)]
  | .float kind => [(.ident, kind.name)]
  | .record r => [(.ident, r.name)]
  | .pointer pointee => if pointee.isVoid then [(.ident, "ptr")] else (.star, "*") :: pointee.words
  | .function ret params variadic =>
    (.kwFn, "fn") :: (.lParen, "(") :: Ty.paramWords params variadic ++ (.rParen, ")") ::
      if ret.isVoid then [] else (.arrow, "->") :: ret.words
/-- The words of parameters, with `...` behind them if there may be more. -/
def Ty.paramWords : List Ty → Bool → List Word
  | [], false => []
  | [], true => [(.ellipsis, "...")]
  | t :: ts, variadic =>
    t.words ++ if ts.isEmpty && !variadic then [] else (.comma, ",") :: Ty.paramWords ts variadic
end

/-- The text of parameters. -/
def Ty.paramText (params : List Ty) (variadic : Bool) : String :=
  String.intercalate ", " (Ty.texts params ++ if variadic then ["..."] else [])

theorem Ty.paramText_cons (t : Ty) (ts : List Ty) (variadic : Bool) :
    Ty.paramText (t :: ts) variadic =
      t.text ++ if ts.isEmpty && !variadic then "" else ", " ++ Ty.paramText ts variadic := by
  unfold Ty.paramText
  rw [Ty.texts, List.cons_append]
  by_cases last : ts.isEmpty && !variadic
  · obtain ⟨rfl, rfl⟩ : ts = [] ∧ variadic = false := by simpa using last
    simp [Ty.texts]
  · rw [if_neg last, String.intercalate_cons_of_ne_nil, String.append_assoc]
    intro none
    refine last ?_
    cases ts <;> cases variadic <;> simp_all [Ty.texts]

/-! ## Cutting -/

/-- Whether a type only mentions records with identifiers as names. -/
def Ty.Nameable (ty : Ty) : Prop := ∀ r ∈ ty.mentions, Source.isIdentifier r.name

theorem ends_cons {c : Char} {rest : List Char} (h : ¬ Source.isWordChar c) : Ends (c :: rest) := by
  rintro d ⟨⟩
  exact h

/-- A symbol of one character is a word. -/
theorem lexes_symbol {c : Char} {rest : List Char} {kind : Source.TokenKind} {ws : List Word}
    (piece : Source.Piece.at (c :: rest) = .token kind 1) (h : Lexes rest ws) :
    Lexes (c :: rest) ((kind, String.ofList [c]) :: ws) :=
  @Source.lexes_token c [] rest kind ws piece h

mutual
theorem Ty.lexes_text : (ty : Ty) → ty.Nameable → {rest : List Char} → {ws : List Word} →
    Ends rest → Lexes rest ws → Lexes (ty.text.toList ++ rest) (ty.words ++ ws)
  | .void, _, _, _, ends, h => Source.lexes_identifier (by decide) ends h
  | .bool, _, _, _, ends, h => Source.lexes_identifier (by decide) ends h
  | .int kind, _, _, _, ends, h => by
      refine Source.lexes_identifier ?_ ends h
      cases kind <;> decide
  | .float kind, _, _, _, ends, h => by
      refine Source.lexes_identifier ?_ ends h
      cases kind <;> decide
  | .record r, names, _, _, ends, h =>
      Source.lexes_identifier (names r (List.mem_singleton_self r)) ends h
  | .pointer pointee, names, _, _, ends, h => by
      rw [Ty.text, Ty.words]
      split
      · exact Source.lexes_identifier (by decide) ends h
      · rw [String.toList_append, List.append_assoc]
        exact lexes_symbol rfl (Ty.lexes_text pointee names ends h)
  | .function ret params variadic, names, rest, ws, ends, h => by
      rw [Ty.text, Ty.words]
      have result : Lexes ((if ret.isVoid then "" else " -> " ++ ret.text).toList ++ rest)
          ((if ret.isVoid then [] else (.arrow, "->") :: ret.words) ++ ws) := by
        split
        · exact h
        · have text := Ty.lexes_text ret (fun r hr => names r (List.mem_append_left _ hr)) ends h
          have arrow : Lexes ('-' :: '>' :: ' ' :: (ret.text.toList ++ rest))
              ((.arrow, "->") :: (ret.words ++ ws)) :=
            @Source.lexes_token '-' ['>'] _ _ _ rfl (Source.lexes_blank (by decide) text)
          rw [String.toList_append, List.append_assoc]
          exact Source.lexes_blank (by decide) arrow
      have parens := lexes_symbol (c := ')') rfl result
      have params := Ty.lexes_paramText params variadic
        (fun r hr => names r (List.mem_append_right _ hr)) (ends_cons (by decide)) parens
      have keyword := @Source.lexes_word 'f' ['n'] _ _ (by decide)
        (List.forall_mem_singleton.mpr rfl) (ends_cons (by decide))
        (lexes_symbol (c := '(') rfl params)
      simp only [String.toList_append, List.append_assoc, List.cons_append]
      exact keyword
theorem Ty.lexes_paramText : (params : List Ty) → (variadic : Bool) →
    (∀ r ∈ Ty.mentionsAll params, Source.isIdentifier r.name) → {rest : List Char} →
    {ws : List Word} → Ends rest → Lexes rest ws →
      Lexes ((Ty.paramText params variadic).toList ++ rest) (Ty.paramWords params variadic ++ ws)
  | [], false, _, _, _, _, h => h
  | [], true, _, rest, _, _, h => @Source.lexes_token '.' ['.', '.'] rest _ _ rfl h
  | t :: ts, variadic, names, rest, ws, ends, h => by
      have first : t.Nameable := fun r hr => names r (List.mem_append_left _ hr)
      rw [Ty.paramText_cons, Ty.paramWords]
      split
      · rw [String.append_empty, List.append_nil]
        exact Ty.lexes_text t first ends h
      · have others := Ty.lexes_paramText ts variadic
          (fun r hr => names r (List.mem_append_right _ hr)) ends h
        have comma := lexes_symbol (c := ',') rfl (Source.lexes_blank (c := ' ') (by decide) others)
        simp only [String.toList_append, List.append_assoc, List.cons_append]
        exact Ty.lexes_text t first (ends_cons (by decide)) comma
end

theorem newline_not_mem_of_isIdentifier {name : String} (h : Source.isIdentifier name) :
    '\n' ∉ name.toList := by
  intro hmem
  unfold Source.isIdentifier at h
  split at h
  · cases h
  next c cs heq =>
    simp only [Bool.and_eq_true, List.all_eq_true] at h
    obtain ⟨⟨start, others⟩, -⟩ := h
    rw [heq] at hmem
    rcases List.mem_cons.mp hmem with rfl | hmem
    · revert start
      decide
    · have word := others _ hmem
      revert word
      decide

mutual
/-- The text of a type holds no line break. -/
theorem Ty.newline_not_mem_text : (ty : Ty) → ty.Nameable → '\n' ∉ ty.text.toList
  | .void, _ | .bool, _ => by decide
  | .int kind, _ => by cases kind <;> decide
  | .float kind, _ => by cases kind <;> decide
  | .record r, names => newline_not_mem_of_isIdentifier (names r (List.mem_singleton_self r))
  | .pointer pointee, names => by
      have inner := Ty.newline_not_mem_text pointee names
      rw [Ty.text]
      split
      · decide
      · rw [String.toList_append, List.mem_append, not_or]
        exact ⟨by decide, inner⟩
  | .function ret params variadic, names => by
      have result := Ty.newline_not_mem_text ret fun r hr => names r (List.mem_append_left _ hr)
      have takes := Ty.newline_not_mem_paramText params variadic fun r hr =>
        names r (List.mem_append_right _ hr)
      rw [Ty.text]
      simp only [String.toList_append, List.mem_append, not_or]
      refine ⟨⟨⟨by decide, takes⟩, by decide⟩, ?_⟩
      split
      · decide
      · rw [String.toList_append, List.mem_append, not_or]
        exact ⟨by decide, result⟩
theorem Ty.newline_not_mem_paramText : (params : List Ty) → (variadic : Bool) →
    (∀ r ∈ Ty.mentionsAll params, Source.isIdentifier r.name) →
      '\n' ∉ (Ty.paramText params variadic).toList
  | [], false, _ | [], true, _ => by decide
  | t :: ts, variadic, names => by
      have first := Ty.newline_not_mem_text t fun r hr => names r (List.mem_append_left _ hr)
      have others := Ty.newline_not_mem_paramText ts variadic fun r hr =>
        names r (List.mem_append_right _ hr)
      rw [Ty.paramText_cons, String.toList_append, List.mem_append, not_or]
      refine ⟨first, ?_⟩
      split
      · decide
      · rw [String.toList_append, List.mem_append, not_or]
        exact ⟨by decide, others⟩
end

/-! ## Deriving -/

mutual
/-- What a type expression means, whatever declares its records. -/
inductive Means : TyExpr → Ty → Prop where
  | builtin {ident : Source.Ident} {ty : Ty} (h : Ty.builtin? ident.name = some ty) :
      Means (.named ident) ty
  | record {ident : Source.Ident} {r : RecordTy} (h : ident.name = r.name) :
      Means (.named ident) (.record r)
  | pointer {e : TyExpr} {ty : Ty} {span : Source.Span} (h : Means e ty) :
      Means (.pointer e span) (.pointer ty)
  | function {es : List TyExpr} {tys : List Ty} {variadic : Bool} {e : TyExpr} {ret : Ty}
      {span : Source.Span} (params : MeansAll es tys) (result : Means e ret) :
      Means (.function es variadic (some e) span) (.function ret tys variadic)
  | procedure {es : List TyExpr} {tys : List Ty} {variadic : Bool} {span : Source.Span}
      (params : MeansAll es tys) :
      Means (.function es variadic none span) (.function .void tys variadic)
/-- What type expressions mean, one by one. -/
inductive MeansAll : List TyExpr → List Ty → Prop where
  | nil : MeansAll [] []
  | cons {e : TyExpr} {es : List TyExpr} {ty : Ty} {tys : List Ty} (head : Means e ty)
      (tail : MeansAll es tys) : MeansAll (e :: es) (ty :: tys)
end

theorem words_eq_cons {ts : List Token} {kind : Source.TokenKind} {text : String} {ws : List Word}
    (h : ts.map Token.word = (kind, text) :: ws) :
    ∃ t us, ts = t :: us ∧ t.kind = kind ∧ t.lexeme = text ∧ us.map Token.word = ws := by
  obtain ⟨t, us, rfl, ht, hus⟩ := List.map_eq_cons_iff.mp h
  exact ⟨t, us, rfl, congrArg Prod.fst ht, congrArg Prod.snd ht, hus⟩

/-- A name that a type has by itself. -/
theorem derives_named {ts : List Token} {text : String} {ty : Ty}
    (h : ts.map Token.word = [(.ident, text)])
    (means : ∀ ident : Source.Ident, ident.name = text → Means (.named ident) ty) :
    ∃ e, TyDerives ts e ∧ Means e ty := by
  obtain ⟨t, us, rfl, kind, lexeme, hus⟩ := words_eq_cons h
  obtain rfl := List.map_eq_nil_iff.mp hus
  exact ⟨_, .named kind, means _ lexeme⟩

mutual
/-- The words of a type are derived, and what they derive means the type. -/
theorem Ty.derives_words : (ty : Ty) → {ts : List Token} → ts.map Token.word = ty.words →
    ∃ e, TyDerives ts e ∧ Means e ty
  | .void, _, h => derives_named h fun _ name => .builtin (by rw [name]; rfl)
  | .bool, _, h => derives_named h fun _ name => .builtin (by rw [name]; rfl)
  | .int kind, _, h => derives_named h fun _ name => .builtin (by rw [name]; cases kind <;> rfl)
  | .float kind, _, h => derives_named h fun _ name => .builtin (by rw [name]; cases kind <;> rfl)
  | .record r, _, h => derives_named h fun _ name => .record name
  | .pointer pointee, ts, h => by
      rw [Ty.words] at h
      split at h
      next untyped =>
        obtain rfl := Ty.isVoid_iff.mp untyped
        exact derives_named h fun _ name => .builtin (by rw [name]; rfl)
      next =>
        obtain ⟨star, us, rfl, kind, -, hus⟩ := words_eq_cons h
        obtain ⟨e, derived, means⟩ := Ty.derives_words pointee hus
        exact ⟨_, .pointer kind derived, .pointer means⟩
  | .function ret params variadic, ts, h => by
      rw [Ty.words] at h
      obtain ⟨start, us, rfl, starts, -, h⟩ := words_eq_cons h
      obtain ⟨opens, us, rfl, left, -, h⟩ := words_eq_cons h
      obtain ⟨ps, us, rfl, hps, h⟩ := List.map_eq_append_iff.mp h
      obtain ⟨closes, us, rfl, right, -, h⟩ := words_eq_cons h
      obtain ⟨es, takes, means⟩ := Ty.derives_paramWords params variadic hps
      split at h
      next noResult =>
        obtain rfl := List.map_eq_nil_iff.mp h
        obtain rfl := Ty.isVoid_iff.mp noResult
        exact ⟨_, .function starts left takes right, .procedure means⟩
      next =>
        obtain ⟨arrow, us, rfl, leads, -, h⟩ := words_eq_cons h
        obtain ⟨e, gives, result⟩ := Ty.derives_words ret h
        exact ⟨_, .functionTo starts left takes right leads gives, .function means result⟩
theorem Ty.derives_paramWords : (params : List Ty) → (variadic : Bool) → {ts : List Token} →
    ts.map Token.word = Ty.paramWords params variadic →
      ∃ es, ParamsDerive ts es variadic ∧ MeansAll es params
  | [], false, _, h => by
      obtain rfl := List.map_eq_nil_iff.mp h
      exact ⟨[], .nil, .nil⟩
  | [], true, _, h => by
      obtain ⟨t, us, rfl, kind, -, h⟩ := words_eq_cons h
      obtain rfl := List.map_eq_nil_iff.mp h
      exact ⟨[], .variadic kind, .nil⟩
  | t :: ts, variadic, _, h => by
      rw [Ty.paramWords] at h
      obtain ⟨us, vs, rfl, hus, hvs⟩ := List.map_eq_append_iff.mp h
      obtain ⟨e, first, means⟩ := Ty.derives_words t hus
      by_cases last : ts.isEmpty && !variadic
      · rw [if_pos last] at hvs
        obtain ⟨rfl, rfl⟩ : ts = [] ∧ variadic = false := by simpa using last
        obtain rfl := List.map_eq_nil_iff.mp hvs
        rw [List.append_nil]
        exact ⟨[e], .last first, .cons means .nil⟩
      · rw [if_neg last] at hvs
        obtain ⟨comma, vs, rfl, separates, -, hvs⟩ := words_eq_cons hvs
        obtain ⟨es, rest, meansAll⟩ := Ty.derives_paramWords ts variadic hvs
        exact ⟨e :: es, .cons first separates rest, .cons means meansAll⟩
end

end CallThunk
