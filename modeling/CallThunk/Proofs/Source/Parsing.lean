import CallThunk.Source.Parser
import CallThunk.Proofs.Runs
import CallThunk.Proofs.Source.Grammar

/-!
# Parsing follows the grammar

Every parser takes a token list that the grammar derives and leaves the rest, and where a derivation
ends before a token that could not continue it, the parser finds exactly that derivation. Budgets
only bound repetitions: the number of tokens is always enough.
-/

namespace CallThunk.Source.Parse

variable {α : Type} {ts rest : List Token}

/-- The kind of the next token. -/
def headKind (ts : List Token) : TokenKind := (ts.head?.map Token.kind).getD .eof

@[simp] theorem headKind_nil : headKind [] = .eof := rfl

@[simp] theorem headKind_cons (t : Token) (ts : List Token) : headKind (t :: ts) = t.kind := rfl

/-! ## Runs of the parsers of single tokens -/

@[simp] theorem not_gives_unexpected {expected : Expectation} {a : α} :
    ¬ Gives (unexpected expected : Parse α) ts a rest := nofun

@[simp] theorem gives_peek {kind : TokenKind} :
    Gives peek ts kind rest ↔ kind = headKind ts ∧ rest = ts := by
  constructor
  · intro h
    cases h
    exact ⟨rfl, rfl⟩
  · rintro ⟨rfl, rfl⟩
    rfl

theorem gives_expect {kind : TokenKind} {t : Token} :
    Gives (expect kind) ts t rest ↔ ts = t :: rest ∧ t.kind = kind := by
  cases ts with
  | nil => exact ⟨nofun, fun h => nomatch h.1⟩
  | cons t' ts =>
      show (if t'.kind = kind then Except.ok (t', ts) else _) = Except.ok (t, rest) ↔ _
      split
      next same =>
        constructor
        · intro h
          cases h
          exact ⟨rfl, same⟩
        · rintro ⟨h, -⟩
          cases h
          rfl
      next different =>
        constructor
        · exact nofun
        · rintro ⟨h, same⟩
          cases h
          exact absurd same different

theorem gives_eat {kind : TokenKind} {taken : Bool} :
    Gives (eat kind) ts taken rest ↔
      (taken = true ∧ ∃ t, ts = t :: rest ∧ t.kind = kind) ∨
        (taken = false ∧ rest = ts ∧ ∀ t us, ts = t :: us → t.kind ≠ kind) := by
  cases ts with
  | nil =>
      constructor
      · intro h
        cases h
        exact .inr ⟨rfl, rfl, nofun⟩
      · rintro (⟨-, t, h, -⟩ | ⟨rfl, rfl, -⟩)
        · cases h
        · rfl
  | cons t' ts =>
      show (if t'.kind = kind then Except.ok (true, ts) else Except.ok (false, t' :: ts)) =
        Except.ok (taken, rest) ↔ _
      split
      next same =>
        constructor
        · intro h
          cases h
          exact .inl ⟨rfl, t', rfl, same⟩
        · rintro (⟨rfl, t, h, -⟩ | ⟨-, -, h⟩)
          · cases h
            rfl
          · exact absurd same (h t' ts rfl)
      next different =>
        constructor
        · intro h
          cases h
          refine .inr ⟨rfl, rfl, ?_⟩
          rintro t us ⟨⟩
          exact different
        · rintro (⟨-, t, h, same⟩ | ⟨rfl, rfl, -⟩)
          · cases h
            exact absurd same different
          · rfl

theorem eat_of_kind {t : Token} {kind : TokenKind} (h : t.kind = kind) :
    Gives (eat kind) (t :: rest) true rest := gives_eat.mpr (.inl ⟨rfl, t, rfl, h⟩)

theorem eat_of_ne {kind : TokenKind} (h : headKind rest ≠ kind) :
    Gives (eat kind) rest false rest := by
  refine gives_eat.mpr (.inr ⟨rfl, rfl, ?_⟩)
  rintro t us rfl
  exact h

theorem gives_ident {name : Ident} :
    Gives ident ts name rest ↔ ∃ t, ts = t :: rest ∧ t.kind = .ident ∧ name = t.ident := by
  unfold ident
  simp only [gives_bind, gives_pure, gives_expect]
  constructor
  · rintro ⟨t, u, ⟨rfl, word⟩, rfl, rfl⟩
    exact ⟨t, rfl, word, rfl⟩
  · rintro ⟨t, rfl, word, rfl⟩
    exact ⟨t, rest, ⟨rfl, word⟩, rfl, rfl⟩

theorem gives_word {text : String} {u : PUnit} :
    Gives (word text) ts u rest ↔
      ∃ t, ts = t :: rest ∧ t.kind = .ident ∧ t.lexeme = text := by
  cases ts with
  | nil => exact ⟨nofun, fun ⟨_, h, _⟩ => nomatch h⟩
  | cons t ts =>
      show (if t.kind = .ident ∧ t.lexeme = text then Except.ok (PUnit.unit, ts) else _) =
        Except.ok (u, rest) ↔ _
      split
      next same =>
        constructor
        · intro h
          cases h
          exact ⟨t, rfl, same⟩
        · rintro ⟨t, h, -⟩
          cases h
          rfl
      next different =>
        constructor
        · exact nofun
        · rintro ⟨t, h, same⟩
          cases h
          exact absurd same different

theorem gives_integer {n : UInt32} :
    Gives integer ts n rest ↔ ∃ t, ts = t :: rest ∧ t.IsInteger n := by
  unfold integer
  simp only [gives_bind, gives_expect]
  constructor
  · rintro ⟨t, u, ⟨rfl, kind⟩, h⟩
    split at h
    next m hm =>
      obtain ⟨rfl, rfl⟩ := gives_pure.mp h
      obtain ⟨value, small⟩ := Option.filter_eq_some_iff.mp hm
      refine ⟨t, rfl, kind, ?_⟩
      rw [value, UInt32.toNat_ofNat_of_lt' (of_decide_eq_true small)]
    next => cases h
  · rintro ⟨t, rfl, kind, value⟩
    refine ⟨t, rest, ⟨rfl, kind⟩, ?_⟩
    have found : (Numeral.value? 10 t.lexeme.toList).filter (· < UInt32.size) = some n.toNat := by
      rw [value, Option.filter_some, if_pos (decide_eq_true n.toNat_lt)]
    rw [found]
    exact gives_pure.mpr ⟨by simp, rfl⟩

theorem gives_peek_bind {β : Type} {f : TokenKind → Parse β} {b : β} :
    Gives (peek >>= f) ts b rest ↔ Gives (f (headKind ts)) ts b rest := by
  simp only [gives_bind, gives_peek]
  constructor
  · rintro ⟨_, _, ⟨rfl, rfl⟩, h⟩
    exact h
  · exact fun h => ⟨_, _, ⟨rfl, rfl⟩, h⟩

/-- What goes on behind a token that may be there or not. -/
theorem gives_eat_bind {β : Type} {kind : TokenKind} {x y : Parse β} {b : β}
    (h : Gives (eat kind >>= fun taken => if taken = true then x else y) ts b rest) :
    (∃ t us, ts = t :: us ∧ t.kind = kind ∧ Gives x us b rest) ∨ Gives y ts b rest := by
  obtain ⟨taken, us, eaten, run⟩ := gives_bind.mp h
  rcases gives_eat.mp eaten with ⟨rfl, t, rfl, kind⟩ | ⟨rfl, rfl, -⟩
  · exact .inl ⟨t, us, rfl, kind, run⟩
  · exact .inr run

/-! ## What parsers take is derived -/

/-- All tokens that a parser takes are derived. -/
def Sound (p : Parse α) (D : List Token → α → Prop) : Prop :=
  ∀ {ts : List Token} {a : α} {rest : List Token}, Gives p ts a rest →
    ∃ front, ts = front ++ rest ∧ D front a

theorem sound_commaList {p : Parse α} {D : List Token → α → Prop} (hp : Sound p D)
    (close : TokenKind) (budget : Nat) : Sound (commaList close p budget) (ListDerives D) := by
  induction budget with
  | zero => exact fun h => absurd h not_gives_unexpected
  | succ budget ih =>
      intro ts xs rest h
      rw [commaList, gives_peek_bind] at h
      split at h
      · obtain ⟨rfl, rfl⟩ := gives_pure.mp h
        exact ⟨[], rfl, .nil⟩
      · rw [gives_bind] at h
        obtain ⟨x, us, hx, h⟩ := h
        obtain ⟨front, rfl, first⟩ := hp hx
        replace h := gives_eat_bind h
        rcases h with ⟨comma, us, rfl, separates, h⟩ | h
        · rw [gives_bind] at h
          obtain ⟨xs', us, hxs, h⟩ := h
          obtain ⟨rfl, rfl⟩ := gives_pure.mp h
          obtain ⟨middle, rfl, more⟩ := ih hxs
          exact ⟨front ++ comma :: middle, by simp, .cons first separates more⟩
        · obtain ⟨rfl, rfl⟩ := gives_pure.mp h
          exact ⟨front, rfl, .last first⟩

theorem sound_paramTypes {p : Parse TyExpr} (hp : Sound p TyDerives) (budget : Nat) :
    Sound (paramTypes p budget) fun ts taken => ParamsDerive ts taken.1 taken.2 := by
  induction budget with
  | zero => exact fun h => absurd h not_gives_unexpected
  | succ budget ih =>
      intro ts taken rest h
      rw [paramTypes, gives_peek_bind] at h
      split at h
      · obtain ⟨rfl, rfl⟩ := gives_pure.mp h
        exact ⟨[], rfl, .nil⟩
      · replace h := gives_eat_bind h
        rcases h with ⟨dots, us, rfl, kind, h⟩ | h
        · obtain ⟨rfl, rfl⟩ := gives_pure.mp h
          exact ⟨[dots], rfl, .variadic kind⟩
        · rw [gives_bind] at h
          obtain ⟨ty, us, hty, h⟩ := h
          obtain ⟨front, rfl, first⟩ := hp hty
          replace h := gives_eat_bind h
          rcases h with ⟨comma, us, rfl, separates, h⟩ | h
          · rw [gives_bind] at h
            obtain ⟨taken', us, htaken, h⟩ := h
            obtain ⟨rfl, rfl⟩ := gives_pure.mp h
            obtain ⟨middle, rfl, more⟩ := ih htaken
            exact ⟨front ++ comma :: middle, by simp, .cons first separates more⟩
          · obtain ⟨rfl, rfl⟩ := gives_pure.mp h
            exact ⟨front, rfl, .last first⟩

theorem sound_tyExpr (budget : Nat) : Sound (tyExpr budget) TyDerives := by
  induction budget with
  | zero => exact fun h => absurd h not_gives_unexpected
  | succ budget ih =>
      intro ts ty rest h
      rw [tyExpr, gives_peek_bind] at h
      split at h
      · simp only [gives_bind, gives_expect, gives_pure] at h
        obtain ⟨star, us, ⟨rfl, kind⟩, pointee, _, hpointee, rfl, rfl⟩ := h
        obtain ⟨front, rfl, inner⟩ := ih hpointee
        exact ⟨star :: front, rfl, .pointer kind inner⟩
      · simp only [gives_bind, gives_expect] at h
        obtain ⟨start, us, ⟨rfl, starts⟩, opens, us, ⟨rfl, left⟩, taken, us, htaken, closes, us,
          ⟨rfl, right⟩, h⟩ := h
        obtain ⟨ps, rfl, takes⟩ := sound_paramTypes ih budget htaken
        simp only [← gives_bind] at h
        replace h := gives_eat_bind h
        rcases h with ⟨arrow, us, rfl, leads, h⟩ | h
        · rw [gives_bind] at h
          obtain ⟨ret, us, hret, h⟩ := h
          obtain ⟨rfl, rfl⟩ := gives_pure.mp h
          obtain ⟨front, rfl, gives⟩ := ih hret
          exact ⟨start :: opens :: ps ++ closes :: arrow :: front, by simp,
            .functionTo starts left takes right leads gives⟩
        · obtain ⟨rfl, rfl⟩ := gives_pure.mp h
          exact ⟨start :: opens :: ps ++ [closes], by simp, .function starts left takes right⟩
      · simp only [gives_bind, gives_ident, gives_pure] at h
        obtain ⟨name, us, ⟨t, rfl, word, rfl⟩, rfl, rfl⟩ := h
        exact ⟨[t], rfl, .named word⟩
      · exact absurd h not_gives_unexpected

theorem sound_typed (budget : Nat) : Sound (typed budget) TypedDerives := by
  intro ts field rest h
  unfold typed at h
  simp only [gives_bind, gives_ident, gives_expect, gives_pure] at h
  obtain ⟨_, us, ⟨name, rfl, word, rfl⟩, colon, us, ⟨rfl, separates⟩, ty, us, hty, rfl, rfl⟩ := h
  obtain ⟨front, rfl, typed⟩ := sound_tyExpr budget hty
  exact ⟨name :: colon :: front, rfl, .mk word separates typed⟩

/-! ### Expressions -/

theorem sound_casts (budget : Nat) {e : Expr} : Sound (casts budget e) (CastsDerive e) := by
  induction budget generalizing e with
  | zero =>
      intro ts e' rest h
      obtain ⟨rfl, rfl⟩ := gives_pure.mp h
      exact ⟨[], rfl, .nil⟩
  | succ budget ih =>
      intro ts e' rest h
      rw [casts] at h
      replace h := gives_eat_bind h
      rcases h with ⟨mark, us, rfl, marks, h⟩ | h
      · rw [gives_bind] at h
        obtain ⟨ty, us, hty, h⟩ := h
        obtain ⟨front, rfl, named⟩ := sound_tyExpr budget hty
        obtain ⟨more, rfl, rest⟩ := ih h
        exact ⟨mark :: front ++ more, by simp, .cons marks named rest⟩
      · obtain ⟨rfl, rfl⟩ := gives_pure.mp h
        exact ⟨[], rfl, .nil⟩

theorem sound_selections {inner : Parse Expr} (hinner : Sound inner ExprDerives) (budget : Nat)
    {e : Expr} : Sound (selections inner budget e) (SelectionsDerive e) := by
  induction budget generalizing e with
  | zero =>
      intro ts e' rest h
      obtain ⟨rfl, rfl⟩ := gives_pure.mp h
      exact ⟨[], rfl, .nil⟩
  | succ budget ih =>
      intro ts e' rest h
      rw [selections] at h
      replace h := gives_eat_bind h
      rcases h with ⟨dot, us, rfl, selects, h⟩ | h
      · rw [gives_bind] at h
        obtain ⟨_, us, hname, h⟩ := h
        obtain ⟨t, rfl, word, rfl⟩ := gives_ident.mp hname
        obtain ⟨more, rfl, rest⟩ := ih h
        exact ⟨dot :: t :: more, rfl, .field selects word rest⟩
      · replace h := gives_eat_bind h
        rcases h with ⟨opens, us, rfl, left, h⟩ | h
        · simp only [gives_bind, gives_expect] at h
          obtain ⟨args, us, hargs, closes, vs, ⟨rfl, right⟩, h⟩ := h
          obtain ⟨front, rfl, passed⟩ := sound_commaList hinner _ _ hargs
          obtain ⟨more, rfl, rest⟩ := ih h
          exact ⟨opens :: front ++ closes :: more, by simp, .call left passed right rest⟩
        · obtain ⟨rfl, rfl⟩ := gives_pure.mp h
          exact ⟨[], rfl, .nil⟩

theorem sound_atom {inner : Parse Expr} (hinner : Sound inner ExprDerives) :
    Sound (atom inner) AtomDerives := by
  intro ts e rest h
  unfold atom at h
  replace h := gives_eat_bind h
  rcases h with ⟨opens, us, rfl, left, h⟩ | h
  · simp only [gives_bind, gives_expect, gives_pure] at h
    obtain ⟨e', us, he, closes, us, ⟨rfl, right⟩, rfl, rfl⟩ := h
    obtain ⟨front, rfl, inner⟩ := hinner he
    exact ⟨opens :: front ++ [closes], by simp, .parens left inner right⟩
  · rw [gives_peek_bind] at h
    split at h
    · simp only [gives_bind, gives_ident, gives_pure] at h
      obtain ⟨_, us, ⟨t, rfl, word, rfl⟩, rfl, rfl⟩ := h
      exact ⟨[t], rfl, .var word⟩
    · exact absurd h not_gives_unexpected

theorem sound_expression (budget : Nat) : Sound (expression budget) ExprDerives := by
  induction budget with
  | zero => exact fun h => absurd h not_gives_unexpected
  | succ budget ih =>
      intro ts e rest h
      rw [expression] at h
      simp only [gives_bind] at h
      obtain ⟨a, us, ha, b, vs, hb, hc⟩ := h
      obtain ⟨front, rfl, atom⟩ := sound_atom ih ha
      obtain ⟨middle, rfl, selected⟩ := sound_selections ih budget hb
      obtain ⟨last, rfl, cast⟩ := sound_casts budget hc
      exact ⟨front ++ middle ++ last, by simp, .mk atom selected cast⟩

/-! ### Statements and items -/

theorem sound_statement (budget : Nat) : Sound (statement budget) StmtDerives := by
  intro ts stmt rest h
  unfold statement at h
  rw [gives_peek_bind] at h
  split at h
  · simp only [gives_bind, gives_expect, gives_ident, gives_pure] at h
    obtain ⟨start, us, ⟨rfl, starts⟩, _, us, ⟨name, rfl, word, rfl⟩, eq, us, ⟨rfl, is⟩, init, us,
      hinit, stop, us, ⟨rfl, stops⟩, rfl, rfl⟩ := h
    obtain ⟨front, rfl, value⟩ := sound_expression budget hinit
    exact ⟨start :: name :: eq :: front ++ [stop], by simp, .bind starts word is value stops⟩
  · simp only [gives_bind, gives_expect, gives_pure] at h
    obtain ⟨start, us, ⟨rfl, starts⟩, stop, us, ⟨rfl, stops⟩, rfl, rfl⟩ := h
    exact ⟨[start, stop], rfl, .ret starts stops⟩
  · rw [gives_bind] at h
    obtain ⟨place, us, hplace, h⟩ := h
    obtain ⟨front, rfl, first⟩ := sound_expression budget hplace
    replace h := gives_eat_bind h
    rcases h with ⟨eq, us, rfl, is, h⟩ | h
    · simp only [gives_bind, gives_expect, gives_pure] at h
      obtain ⟨value, us, hvalue, stop, us, ⟨rfl, stops⟩, rfl, rfl⟩ := h
      obtain ⟨middle, rfl, stored⟩ := sound_expression budget hvalue
      exact ⟨front ++ eq :: middle ++ [stop], by simp, .assign first is stored stops⟩
    · simp only [gives_bind, gives_expect, gives_pure] at h
      obtain ⟨stop, us, ⟨rfl, stops⟩, rfl, rfl⟩ := h
      exact ⟨front ++ [stop], by simp, .eval first stops⟩

theorem sound_statements {p : Parse Stmt} (hp : Sound p StmtDerives) (budget : Nat) :
    Sound (statements p budget) BodyDerives := by
  induction budget with
  | zero => exact fun h => absurd h not_gives_unexpected
  | succ budget ih =>
      intro ts stmts rest h
      rw [statements, gives_peek_bind] at h
      split at h
      · obtain ⟨rfl, rfl⟩ := gives_pure.mp h
        exact ⟨[], rfl, .nil⟩
      · simp only [gives_bind, gives_pure] at h
        obtain ⟨stmt, us, hstmt, stmts', us, hstmts, rfl, rfl⟩ := h
        obtain ⟨front, rfl, first⟩ := hp hstmt
        obtain ⟨more, rfl, rest⟩ := ih hstmts
        exact ⟨front ++ more, by simp, .cons first rest⟩

theorem sound_item (budget : Nat) : Sound (item budget) ItemDerives := by
  intro ts decl rest h
  unfold item at h
  rw [gives_peek_bind] at h
  split at h
  · unfold opaqueItem at h
    simp only [gives_bind, gives_expect, gives_ident, gives_word, gives_integer, gives_pure] at h
    obtain ⟨_, us, ⟨start, us, ⟨rfl, starts⟩, _, us, ⟨name, rfl, word, rfl⟩, colon, us,
      ⟨rfl, separates⟩, _, us, ⟨sizeWord, rfl, sizes⟩, n, us, ⟨size, rfl, size_is⟩, comma, us,
      ⟨rfl, separates'⟩, _, us, ⟨alignWord, rfl, aligns⟩, m, us, ⟨align, rfl, align_is⟩, stop, us,
      ⟨rfl, stops⟩, rfl, rfl⟩, rfl, rfl⟩ := h
    exact ⟨[start, name, colon, sizeWord, size, comma, alignWord, align, stop], rfl,
      .opaqueItem starts word separates sizes size_is separates' aligns align_is stops⟩
  · unfold structItem at h
    simp only [gives_bind, gives_expect, gives_ident, gives_pure] at h
    obtain ⟨_, us, ⟨start, us, ⟨rfl, starts⟩, _, us, ⟨name, rfl, word, rfl⟩, opens, us, ⟨rfl, left⟩,
      fields, us, hfields, closes, us, ⟨rfl, right⟩, rfl, rfl⟩, rfl, rfl⟩ := h
    obtain ⟨front, rfl, holds⟩ := sound_commaList (sound_typed budget) _ _ hfields
    exact ⟨start :: name :: opens :: front ++ [closes], by simp,
      .structItem starts word left holds right⟩
  · unfold functionItem at h
    simp only [gives_bind, gives_expect, gives_ident, gives_pure] at h
    obtain ⟨_, us, ⟨start, us, ⟨rfl, starts⟩, _, us, ⟨name, rfl, word, rfl⟩, opens, us,
      ⟨rfl, opens_is⟩, params, us, hparams, closes, us, ⟨rfl, closes_is⟩, left, us, ⟨rfl, left_is⟩,
      body, us, hbody, right, us, ⟨rfl, right_is⟩, rfl, rfl⟩, rfl, rfl⟩ := h
    obtain ⟨front, rfl, takes⟩ := sound_commaList (sound_typed budget) _ _ hparams
    obtain ⟨middle, rfl, does⟩ := sound_statements (sound_statement budget) _ hbody
    exact ⟨start :: name :: opens :: front ++ closes :: left :: middle ++ [right], by simp,
      .functionItem starts word opens_is takes closes_is left_is does right_is⟩
  · exact absurd h not_gives_unexpected

/-! ## What is derived is taken -/

/-- What is derived within a number of tokens is taken in front of a token at which it may stop. -/
def Complete (p : Parse α) (D : List Token → α → Prop) (stop : TokenKind → Prop) (limit : Nat) :
    Prop :=
  ∀ {ts : List Token} {a : α} {rest : List Token}, D ts a → ts.length ≤ limit →
    stop (headKind rest) → Gives p (ts ++ rest) a rest

theorem gives_eat_true {β : Type} {kind : TokenKind} {x y : Parse β} {b : β} {t : Token}
    (ht : t.kind = kind) (h : Gives x ts b rest) :
    Gives (eat kind >>= fun taken => if taken = true then x else y) (t :: ts) b rest :=
  gives_bind.mpr ⟨true, ts, eat_of_kind ht, h⟩

theorem gives_eat_false {β : Type} {kind : TokenKind} {x y : Parse β} {b : β}
    (ht : headKind ts ≠ kind) (h : Gives y ts b rest) :
    Gives (eat kind >>= fun taken => if taken = true then x else y) ts b rest :=
  gives_bind.mpr ⟨false, ts, eat_of_ne ht, h⟩

theorem headKind_append {t : Token} {us : List Token} (h : ts = t :: us) :
    headKind (ts ++ rest) = t.kind := by
  rw [h]
  rfl

theorem complete_commaList {p : Parse α} {D : List Token → α → Prop} {stop : TokenKind → Prop}
    {limit : Nat} {close : TokenKind} (hp : Complete p D stop limit)
    (first : ∀ ts x, D ts x → ∃ t us, ts = t :: us ∧ t.kind ≠ close) (hcomma : stop .comma)
    (hclose : stop close) (different : close ≠ .comma) {budget : Nat} {xs : List α}
    (h : ListDerives D ts xs) (small : ts.length < budget) (within : ts.length ≤ limit)
    (closes : headKind rest = close) : Gives (commaList close p budget) (ts ++ rest) xs rest := by
  induction budget generalizing ts xs with
  | zero => cases small
  | succ budget ih =>
      rw [commaList, gives_peek_bind]
      cases h with
      | nil =>
          rw [List.nil_append, if_pos closes]
          exact gives_pure.mpr ⟨rfl, rfl⟩
      | @last _ x only =>
          obtain ⟨t, us, heq, kind⟩ := first _ _ only
          rw [if_neg (headKind_append heq ▸ kind), gives_bind]
          refine ⟨x, rest, hp only within (closes ▸ hclose), ?_⟩
          exact gives_eat_false (closes ▸ different) (gives_pure.mpr ⟨rfl, rfl⟩)
      | @cons ts us comma x xs only separates more =>
          obtain ⟨t, vs, heq, kind⟩ := first _ _ only
          simp only [List.length_append, List.length_cons] at small within
          rw [List.append_assoc, if_neg (headKind_append heq ▸ kind), gives_bind]
          refine ⟨x, comma :: (us ++ rest), hp only (by omega) ?_, ?_⟩
          · exact (show stop comma.kind from separates ▸ hcomma)
          · exact gives_eat_true separates (gives_bind.mpr ⟨xs, rest, ih more (by omega) (by omega),
              gives_pure.mpr ⟨rfl, rfl⟩⟩)

/-! ### Types -/

theorem first_of_tyDerives {ty : TyExpr} (h : TyDerives ts ty) :
    ∃ t us, ts = t :: us ∧ (t.kind = .ident ∨ t.kind = .star ∨ t.kind = .kwFn) := by
  cases h with
  | named word => exact ⟨_, _, rfl, .inl word⟩
  | pointer marks inner => exact ⟨_, _, rfl, .inr (.inl marks)⟩
  | function starts => exact ⟨_, _, rfl, .inr (.inr starts)⟩
  | functionTo starts => exact ⟨_, _, rfl, .inr (.inr starts)⟩

/-- A type does not start with any other token. -/
theorem headKind_ne_of_tyDerives {ty : TyExpr} (kind : TokenKind) (h : TyDerives ts ty)
    (other : kind ∉ [.ident, .star, .kwFn]) : headKind (ts ++ rest) ≠ kind := by
  obtain ⟨t, us, heq, starts⟩ := first_of_tyDerives h
  rw [headKind_append heq]
  rintro rfl
  exact other (by simpa using starts)

theorem complete_paramTypes {p : Parse TyExpr} {limit : Nat}
    (hp : Complete p TyDerives (· ≠ .arrow) limit) {budget : Nat} {tys : List TyExpr}
    {variadic : Bool} (h : ParamsDerive ts tys variadic) (small : ts.length < budget)
    (within : ts.length ≤ limit) (closes : headKind rest = .rParen) :
    Gives (paramTypes p budget) (ts ++ rest) (tys, variadic) rest := by
  induction budget generalizing ts tys with
  | zero => cases small
  | succ budget ih =>
      rw [paramTypes, gives_peek_bind]
      cases h with
      | nil =>
          rw [List.nil_append, if_pos closes]
          exact gives_pure.mpr ⟨rfl, rfl⟩
      | @variadic t dots =>
          rw [List.singleton_append, headKind_cons, if_neg (dots ▸ nofun)]
          exact gives_eat_true dots (gives_pure.mpr ⟨rfl, rfl⟩)
      | @last _ ty only =>
          rw [if_neg (headKind_ne_of_tyDerives .rParen only (by decide))]
          refine gives_eat_false (headKind_ne_of_tyDerives .ellipsis only (by decide)) ?_
          rw [gives_bind]
          refine ⟨ty, rest, hp only within (by rw [closes]; decide), ?_⟩
          exact gives_eat_false (by rw [closes]; decide) (gives_pure.mpr ⟨rfl, rfl⟩)
      | @cons ts us comma ty tys variadic only separates more =>
          simp only [List.length_append, List.length_cons] at small within
          rw [List.append_assoc, if_neg (headKind_ne_of_tyDerives .rParen only (by decide))]
          refine gives_eat_false (headKind_ne_of_tyDerives .ellipsis only (by decide)) ?_
          rw [gives_bind]
          refine ⟨ty, comma :: (us ++ rest), hp only (by omega) ?_, ?_⟩
          · show comma.kind ≠ .arrow
            rw [separates]
            decide
          · exact gives_eat_true separates (gives_bind.mpr ⟨(tys, variadic), rest,
              ih more (by omega) (by omega), gives_pure.mpr ⟨rfl, rfl⟩⟩)

theorem complete_tyExpr (budget : Nat) :
    Complete (tyExpr budget) TyDerives (· ≠ .arrow) budget := by
  induction budget with
  | zero =>
      intro ts ty rest h small _
      obtain ⟨t, us, rfl, -⟩ := first_of_tyDerives h
      cases small
  | succ budget ih =>
      intro ts ty rest h small stops
      rw [tyExpr, gives_peek_bind]
      cases h with
      | @named t word =>
          rw [List.singleton_append, headKind_cons, word]
          simp only [gives_bind, gives_ident, gives_pure]
          exact ⟨_, rest, ⟨t, rfl, word, rfl⟩, rfl, rfl⟩
      | @pointer star ts pointee marks inner =>
          rw [List.cons_append, headKind_cons, marks]
          simp only [gives_bind, gives_expect, gives_pure]
          exact ⟨star, ts ++ rest, ⟨rfl, marks⟩, pointee, rest,
            ih inner (Nat.le_of_succ_le_succ small) stops, rfl, rfl⟩
      | @function start opens closes ps params variadic starts left takes right =>
          simp only [List.length_append, List.length_cons, List.length_nil] at small
          simp only [List.cons_append, List.append_assoc, List.nil_append, headKind_cons, starts]
          rw [gives_bind]
          refine ⟨start, _, gives_expect.mpr ⟨rfl, starts⟩, gives_bind.mpr ⟨opens, _,
            gives_expect.mpr ⟨rfl, left⟩, gives_bind.mpr ⟨(params, variadic), closes :: rest,
            complete_paramTypes ih takes (by omega) (by omega) right, gives_bind.mpr ⟨closes, rest,
            gives_expect.mpr ⟨rfl, right⟩, ?_⟩⟩⟩⟩
          exact gives_eat_false stops (gives_pure.mpr ⟨rfl, rfl⟩)
      | @functionTo start opens closes arrow ps ts params variadic ret starts left takes right leads
          gives =>
          simp only [List.length_append, List.length_cons] at small
          simp only [List.cons_append, List.append_assoc, headKind_cons, starts]
          rw [gives_bind]
          refine ⟨start, _, gives_expect.mpr ⟨rfl, starts⟩, gives_bind.mpr ⟨opens, _,
            gives_expect.mpr ⟨rfl, left⟩, gives_bind.mpr ⟨(params, variadic),
            closes :: arrow :: (ts ++ rest),
            complete_paramTypes ih takes (by omega) (by omega) right, gives_bind.mpr ⟨closes, _,
            gives_expect.mpr ⟨rfl, right⟩, ?_⟩⟩⟩⟩
          exact gives_eat_true leads (gives_bind.mpr ⟨ret, rest, ih gives (by omega) stops,
            gives_pure.mpr ⟨rfl, rfl⟩⟩)

theorem complete_typed (budget : Nat) :
    Complete (typed budget) TypedDerives (· ≠ .arrow) budget := by
  intro ts field rest h small stops
  cases h with
  | @mk name colon ts ty word separates typed =>
      unfold Parse.typed
      simp only [gives_bind, gives_ident, gives_expect, gives_pure]
      simp only [List.length_cons] at small
      exact ⟨_, colon :: (ts ++ rest), ⟨name, rfl, word, rfl⟩, colon, ts ++ rest,
        ⟨rfl, separates⟩, ty, rest, complete_tyExpr budget typed (by omega) stops, rfl, rfl⟩

/-! ### Expressions -/

theorem headKind_ne_of_not_mem {kind : TokenKind} {kinds : List TokenKind}
    (h : headKind rest ∉ kinds) (hk : kind ∈ kinds) : headKind rest ≠ kind :=
  fun same => h (same ▸ hk)

/-- The tokens that could not continue an expression. -/
def StopsExpr (kind : TokenKind) : Prop := kind ∉ [.dot, .lParen, .kwAs, .arrow]

theorem first_of_exprDerives {e : Expr} (h : ExprDerives ts e) :
    ∃ t us, ts = t :: us ∧ (t.kind = .ident ∨ t.kind = .lParen) := by
  obtain @⟨ts, us, vs, a, e, e', atom, -, -⟩ := h
  cases atom with
  | var word => exact ⟨_, _, rfl, .inl word⟩
  | parens left => exact ⟨_, _, rfl, .inr left⟩

theorem complete_casts {budget : Nat} {e e' : Expr} (h : CastsDerive e ts e')
    (small : ts.length ≤ budget) (stops : headKind rest ∉ [.kwAs, .arrow]) :
    Gives (casts budget e) (ts ++ rest) e' rest := by
  induction budget generalizing e ts with
  | zero =>
      cases h with
      | nil => exact gives_pure.mpr ⟨rfl, rfl⟩
      | cons => cases small
  | succ budget ih =>
      rw [casts]
      cases h with
      | nil =>
          exact gives_eat_false (headKind_ne_of_not_mem stops (by decide))
            (gives_pure.mpr ⟨rfl, rfl⟩)
      | @cons _ _ mark us vs ty marks named more =>
          simp only [List.length_append, List.length_cons] at small
          rw [List.append_assoc, List.cons_append]
          refine gives_eat_true marks (gives_bind.mpr ⟨ty, vs ++ rest, ?_, ih more (by omega)⟩)
          refine complete_tyExpr budget named (by omega) ?_
          cases more with
          | nil => exact headKind_ne_of_not_mem stops (by decide)
          | @cons _ _ mark' _ _ _ marks' =>
              show mark'.kind ≠ .arrow
              rw [marks']
              decide

theorem complete_selections {inner : Parse Expr} {limit : Nat}
    (hinner : Complete inner ExprDerives StopsExpr limit) {budget : Nat} {e e' : Expr}
    (h : SelectionsDerive e ts e') (small : ts.length ≤ budget) (within : ts.length ≤ limit)
    (stops : headKind rest ∉ [.dot, .lParen]) :
    Gives (selections inner budget e) (ts ++ rest) e' rest := by
  induction budget generalizing e ts with
  | zero =>
      cases h with
      | nil => exact gives_pure.mpr ⟨rfl, rfl⟩
      | field | call => cases small
  | succ budget ih =>
      rw [selections]
      cases h with
      | nil =>
          refine gives_eat_false (headKind_ne_of_not_mem stops (by decide)) ?_
          exact gives_eat_false (headKind_ne_of_not_mem stops (by decide))
            (gives_pure.mpr ⟨rfl, rfl⟩)
      | @field _ _ dot t us selects word more =>
          simp only [List.length_cons] at small within
          refine gives_eat_true selects (gives_bind.mpr ⟨t.ident, us ++ rest, ?_, ?_⟩)
          · exact gives_ident.mpr ⟨t, rfl, word, rfl⟩
          · exact ih more (by omega) (by omega)
      | @call _ _ opens closes us vs args left passed right more =>
          simp only [List.length_append, List.length_cons] at small within
          simp only [List.cons_append, List.append_assoc]
          refine gives_eat_false (fun h => ?_) (gives_eat_true left (gives_bind.mpr
            ⟨args, closes :: (vs ++ rest), ?_, gives_bind.mpr ⟨closes, vs ++ rest, ?_, ?_⟩⟩))
          · rw [headKind_cons, left] at h
            cases h
          · refine complete_commaList hinner ?_ (by simp [StopsExpr]) (by simp [StopsExpr])
              (by decide) passed (by omega) (by omega) right
            intro us e he
            obtain ⟨t, vs, heq, starts⟩ := first_of_exprDerives he
            refine ⟨t, vs, heq, fun h => ?_⟩
            rw [h] at starts
            simp at starts
          · exact gives_expect.mpr ⟨rfl, right⟩
          · exact ih more (by omega) (by omega)

/-- What stands behind an atom and its selections: a cast, or what stops the whole expression. -/
theorem stops_selections {e e' : Expr} (h : CastsDerive e ts e')
    (stops : StopsExpr (headKind rest)) : headKind (ts ++ rest) ∉ [.dot, .lParen] := by
  cases h with
  | nil => exact fun h => stops (List.mem_append_left [TokenKind.kwAs, .arrow] h)
  | @cons _ _ mark us vs _ marks =>
      rw [List.append_assoc, List.cons_append, headKind_cons, marks]
      decide

theorem complete_expression (budget : Nat) :
    Complete (expression budget) ExprDerives StopsExpr budget := by
  induction budget with
  | zero =>
      intro ts e rest h small _
      obtain ⟨t, us, rfl, -⟩ := first_of_exprDerives h
      cases small
  | succ budget ih =>
      intro ts e rest h small stops
      obtain @⟨ts, us, vs, a, b, _, atom, selected, cast⟩ := h
      simp only [List.length_append] at small
      rw [expression, List.append_assoc, List.append_assoc]
      have taken : Gives (Parse.atom (expression budget)) (ts ++ (us ++ (vs ++ rest))) a
          (us ++ (vs ++ rest)) ∧ 0 < ts.length := by
        unfold Parse.atom
        cases atom with
        | @var t word =>
            refine ⟨gives_eat_false (by rw [List.singleton_append, headKind_cons, word]; decide) ?_,
              by simp⟩
            rw [List.singleton_append, gives_peek_bind, headKind_cons, if_pos word]
            simp only [gives_bind, gives_ident, gives_pure]
            exact ⟨_, _, ⟨t, rfl, word, rfl⟩, rfl, rfl⟩
        | @parens opens closes ts e left inner right =>
            simp only [List.length_append, List.length_cons, List.length_nil] at small
            simp only [List.cons_append, List.append_assoc, List.nil_append]
            refine ⟨gives_eat_true left (gives_bind.mpr ⟨a, closes :: (us ++ (vs ++ rest)),
              ih inner (by omega) ?_, ?_⟩), by simp⟩
            · show StopsExpr closes.kind
              rw [right]
              simp [StopsExpr]
            · exact gives_bind.mpr ⟨closes, _, gives_expect.mpr ⟨rfl, right⟩,
                gives_pure.mpr ⟨rfl, rfl⟩⟩
      obtain ⟨first, pos⟩ := taken
      rw [gives_bind]
      refine ⟨a, _, first, gives_bind.mpr ⟨b, vs ++ rest, ?_, ?_⟩⟩
      · exact complete_selections ih selected (by omega) (by omega) (stops_selections cast stops)
      · refine complete_casts cast (by omega) fun h => stops ?_
        exact List.mem_append_right [TokenKind.dot, .lParen] h

/-! ### Statements and items -/

theorem complete_statement (budget : Nat) :
    Complete (statement budget) StmtDerives (fun _ => True) budget := by
  have expr {ts us : List Token} {e : Expr} {t : Token} (h : ExprDerives ts e)
      (small : ts.length ≤ budget) (stops : StopsExpr t.kind) :
      Gives (expression budget) (ts ++ t :: us) e (t :: us) :=
    complete_expression budget h small stops
  intro ts stmt rest h small _
  unfold statement
  rw [gives_peek_bind]
  cases h with
  | @bind start name eq stop ts init starts word is value stops =>
      simp only [List.length_append, List.length_cons] at small
      simp only [List.cons_append, List.append_assoc, List.nil_append, headKind_cons, starts]
      simp only [gives_bind, gives_expect, gives_ident, gives_pure]
      exact ⟨start, _, ⟨rfl, starts⟩, _, _, ⟨name, rfl, word, rfl⟩, eq, _, ⟨rfl, is⟩, init, _,
        expr value (by omega) (by rw [stops]; simp [StopsExpr]), stop, rest, ⟨rfl, stops⟩, rfl, rfl⟩
  | @ret start stop starts stops =>
      simp only [List.cons_append, List.nil_append, headKind_cons, starts]
      simp only [gives_bind, gives_expect, gives_pure]
      exact ⟨start, _, ⟨rfl, starts⟩, stop, rest, ⟨rfl, stops⟩, rfl, rfl⟩
  | @assign eq stop ts us place value dest is stored stops =>
      obtain ⟨t, vs, heq, starts⟩ := first_of_exprDerives dest
      simp only [List.length_append, List.length_cons] at small
      simp only [List.cons_append, List.append_assoc, List.nil_append, headKind_append heq]
      split
      next kind => rw [kind] at starts; simp at starts
      next kind => rw [kind] at starts; simp at starts
      next =>
        rw [gives_bind]
        refine ⟨place, _, expr dest (by omega) (by rw [is]; simp [StopsExpr]), gives_eat_true is ?_⟩
        simp only [gives_bind, gives_expect, gives_pure]
        exact ⟨value, _, expr stored (by omega) (by rw [stops]; simp [StopsExpr]), stop, rest,
          ⟨rfl, stops⟩, rfl, rfl⟩
  | @eval stop ts e value stops =>
      obtain ⟨t, vs, heq, starts⟩ := first_of_exprDerives value
      simp only [List.length_append, List.length_cons] at small
      simp only [List.cons_append, List.append_assoc, List.nil_append, headKind_append heq]
      split
      next kind => rw [kind] at starts; simp at starts
      next kind => rw [kind] at starts; simp at starts
      next =>
        rw [gives_bind]
        refine ⟨e, _, expr value (by omega) (by rw [stops]; simp [StopsExpr]),
          gives_eat_false ?_ ?_⟩
        · rw [headKind_cons, stops]
          decide
        · exact gives_bind.mpr ⟨stop, rest, gives_expect.mpr ⟨rfl, stops⟩,
            gives_pure.mpr ⟨rfl, rfl⟩⟩

theorem first_of_stmtDerives {stmt : Stmt} (h : StmtDerives ts stmt) :
    ∃ t us, ts = t :: us ∧ t.kind ∉ [.rBrace, .eof] := by
  cases h with
  | bind starts => exact ⟨_, _, rfl, by rw [starts]; decide⟩
  | ret starts => exact ⟨_, _, rfl, by rw [starts]; decide⟩
  | assign dest =>
      obtain ⟨t, us, rfl, starts⟩ := first_of_exprDerives dest
      exact ⟨t, _, rfl, by rcases starts with h | h <;> rw [h] <;> decide⟩
  | eval value =>
      obtain ⟨t, us, rfl, starts⟩ := first_of_exprDerives value
      exact ⟨t, _, rfl, by rcases starts with h | h <;> rw [h] <;> decide⟩

theorem complete_statements {p : Parse Stmt} {limit : Nat}
    (hp : Complete p StmtDerives (fun _ => True) limit) {budget : Nat} {stmts : List Stmt}
    (h : BodyDerives ts stmts) (small : ts.length < budget) (within : ts.length ≤ limit)
    (closes : headKind rest = .rBrace) : Gives (statements p budget) (ts ++ rest) stmts rest := by
  induction budget generalizing ts stmts with
  | zero => cases small
  | succ budget ih =>
      rw [statements, gives_peek_bind]
      cases h with
      | nil =>
          rw [List.nil_append, if_pos (.inl closes)]
          exact gives_pure.mpr ⟨rfl, rfl⟩
      | @cons ts us stmt stmts first more =>
          obtain ⟨t, vs, heq, kind⟩ := first_of_stmtDerives first
          have pos : 0 < ts.length := by
            rw [heq]
            exact Nat.succ_pos _
          simp only [List.length_append] at small within
          rw [List.append_assoc, headKind_append heq, if_neg (by simpa using kind), gives_bind]
          refine ⟨stmt, us ++ rest, hp first (by omega) trivial, gives_bind.mpr ⟨stmts, rest,
            ih more (by omega) (by omega), gives_pure.mpr ⟨rfl, rfl⟩⟩⟩

theorem complete_typeds {close : TokenKind} {budget : Nat} {fields : List Typed}
    (h : ListDerives TypedDerives ts fields) (small : ts.length < budget)
    (hclose : close ∉ [.ident, .comma, .arrow]) (closes : headKind rest = close) :
    Gives (commaList close (typed budget) budget) (ts ++ rest) fields rest := by
  have other {kind : TokenKind} (hk : kind ∈ [.ident, .comma, .arrow]) : close ≠ kind :=
    fun same => hclose (same ▸ hk)
  have first (us : List Token) (field : Typed) (hfield : TypedDerives us field) :
      ∃ t vs, us = t :: vs ∧ t.kind ≠ close := by
    obtain ⟨word, -, -⟩ := hfield
    exact ⟨_, _, rfl, word ▸ (other (by simp)).symm⟩
  have comma : TokenKind.comma ≠ .arrow := by decide
  exact @complete_commaList _ _ _ _ _ (· ≠ .arrow) _ _ (complete_typed budget) first comma
    (other (by simp)) (other (by simp)) _ _ h small (Nat.le_of_lt small) closes

theorem complete_item (budget : Nat) :
    Complete (item budget) ItemDerives (fun _ => True) budget := by
  intro ts decl rest h small _
  unfold item
  rw [gives_peek_bind]
  cases h with
  | @opaqueItem start name colon sizeWord size comma alignWord align stop n m starts word separates
      sizes size_is separates' aligns align_is stops =>
      simp only [List.cons_append, List.nil_append, headKind_cons, starts]
      unfold opaqueItem
      simp only [gives_bind, gives_expect, gives_ident, gives_word, gives_integer, gives_pure]
      exact ⟨_, rest, ⟨start, _, ⟨rfl, starts⟩, _, _, ⟨name, rfl, word, rfl⟩, colon, _,
        ⟨rfl, separates⟩, ⟨⟩, _, ⟨sizeWord, rfl, sizes⟩, n, _, ⟨size, rfl, size_is⟩, comma, _,
        ⟨rfl, separates'⟩, ⟨⟩, _, ⟨alignWord, rfl, aligns⟩, m, _, ⟨align, rfl, align_is⟩, stop,
        rest, ⟨rfl, stops⟩, rfl, rfl⟩, rfl, rfl⟩
  | @structItem start name opens closes ts fields starts word left holds right =>
      simp only [List.length_append, List.length_cons, List.length_nil] at small
      simp only [List.cons_append, List.append_assoc, List.nil_append, headKind_cons, starts]
      unfold structItem
      simp only [gives_bind, gives_expect, gives_ident, gives_pure]
      exact ⟨_, rest, ⟨start, _, ⟨rfl, starts⟩, _, _, ⟨name, rfl, word, rfl⟩, opens, _, ⟨rfl, left⟩,
        fields, _, complete_typeds holds (by omega) (by decide) right, closes, rest, ⟨rfl, right⟩,
        rfl, rfl⟩, rfl, rfl⟩
  | @functionItem start name opens closes left right ts us params body starts word opens_is takes
      closes_is left_is does right_is =>
      simp only [List.length_append, List.length_cons, List.length_nil] at small
      simp only [List.cons_append, List.append_assoc, List.nil_append, headKind_cons, starts]
      unfold functionItem
      simp only [gives_bind, gives_expect, gives_ident, gives_pure]
      exact ⟨_, rest, ⟨start, _, ⟨rfl, starts⟩, _, _, ⟨name, rfl, word, rfl⟩, opens, _,
        ⟨rfl, opens_is⟩, params, _, complete_typeds takes (by omega) (by decide) closes_is, closes,
        _, ⟨rfl, closes_is⟩, left, _, ⟨rfl, left_is⟩, body, _,
        complete_statements (complete_statement budget) does (by omega) (by omega) right_is, right,
        rest, ⟨rfl, right_is⟩, rfl, rfl⟩, rfl, rfl⟩

end CallThunk.Source.Parse

/-! ## Units -/

namespace CallThunk.Source

variable {ts : List Token} {items : List Item}

theorem length_pos_of_itemDerives {item : Item} (h : ItemDerives ts item) : 0 < ts.length := by
  cases h <;> exact Nat.succ_pos _

/-- When no item fails, the items are derived. -/
theorem unit_of_parseItems {budget : Nat} (enough : ts.length < budget)
    (h : parseItems budget ts = (items, [])) : UnitDerives ts items := by
  induction budget generalizing ts items with
  | zero => cases enough
  | succ budget ih =>
      cases ts with
      | nil =>
          cases h
          exact .nil
      | cons t ts =>
          rw [parseItems] at h
          split at h
          next item rest parsed =>
            obtain ⟨rfl, clean⟩ := Prod.mk.injEq .. ▸ h
            obtain ⟨front, split, first⟩ := Parse.sound_item _ parsed
            have pos := length_pos_of_itemDerives first
            have length := congrArg List.length split
            simp only [List.length_cons, List.length_append] at length enough
            rw [split]
            exact .cons first (ih (by omega) (Prod.ext rfl clean))
          next =>
            obtain ⟨-, clean⟩ := Prod.mk.injEq .. ▸ h
            cases clean

/-- Items that are derived are parsed without an error. -/
theorem parseItems_of_unit {budget : Nat} (enough : ts.length < budget)
    (h : UnitDerives ts items) : parseItems budget ts = (items, []) := by
  induction budget generalizing ts items with
  | zero => cases enough
  | succ budget ih =>
      cases h with
      | nil => rfl
      | @cons front us item items first more =>
          have pos := length_pos_of_itemDerives first
          simp only [List.length_append] at enough
          have parsed : Gives (Parse.item (budget + 1)) (front ++ us) item us :=
            Parse.complete_item (budget + 1) first (by omega) trivial
          cases front with
          | nil => cases pos
          | cons t front =>
              rw [List.cons_append] at parsed ⊢
              have run : Parse.item (budget + 1) (t :: (front ++ us)) = .ok (item, us) := parsed
              rw [parseItems, run]
              dsimp only
              rw [ih (by omega) more]

/-- A source has a unit exactly when it has no bad character and its tokens derive one. -/
theorem parse_eq_some {source : String} {unit : SourceUnit} {reports : Diagnostics} :
    SourceUnit.parse source = (some unit, reports) ↔
      (cut 0 0 source.toList).errors = [] ∧
        UnitDerives (cut 0 0 source.toList).tokens unit.items ∧ reports = [] := by
  unfold SourceUnit.parse
  generalize cut 0 0 source.toList = pieces
  dsimp only
  constructor
  · intro h
    split at h
    next clean =>
      obtain ⟨hunit, rfl⟩ := Prod.mk.injEq .. ▸ h
      cases hunit
      simp only [List.isEmpty_iff, List.append_eq_nil_iff, List.map_eq_nil_iff] at clean
      refine ⟨clean.1, unit_of_parseItems (Nat.lt_succ_self _) (Prod.ext rfl clean.2), ?_⟩
      simp [clean]
    next => cases h
  · rintro ⟨clean, derived, rfl⟩
    rw [parseItems_of_unit (Nat.lt_succ_self _) derived, clean]
    rfl

end CallThunk.Source
