import CallThunk.Proofs.Source.Derivation
import CallThunk.Proofs.Source.Parsing

/-!
# The grammar is unambiguous

Two derivations that write the same text are equal. Types, expressions and lists end where the next
token could not continue them, so each is fixed by any text it starts, as long as what follows is
such a token; a unit has nothing behind it. A source is therefore parsed exactly when its tokens
have a derivation, and the unit is the tree of the only one.
-/

namespace CallThunk.Source

open Parse (headKind headKind_cons headKind_append StopsExpr)

variable {α : Type}

/-! ## Tokens -/

attribute [simp] Terminal.kind_eq

/-- Two texts with the same first token agree on what a token of the grammar stands for there. -/
theorem cons_token_iff {β : Type} {token : β → Token} (injective : ∀ a b, token a = token b → a = b)
    {a b : β} {ts us : List Token} : token a :: ts = token b :: us ↔ a = b ∧ ts = us := by
  constructor
  · intro h
    obtain ⟨same, rest⟩ := List.cons.inj h
    exact ⟨injective a b same, rest⟩
  · rintro ⟨rfl, rfl⟩
    rfl

section
variable {ts us : List Token}

@[simp] theorem Terminal.cons_eq_cons {kind : TokenKind} {t u : Terminal kind} :
    t.token :: ts = u.token :: us ↔ t = u ∧ ts = us := by
  refine cons_token_iff fun t u h => ?_
  cases t
  cases u
  cases h
  rfl

@[simp] theorem Keyword.cons_eq_cons {text : String} {t u : Keyword text} :
    t.token :: ts = u.token :: us ↔ t = u ∧ ts = us := by
  refine cons_token_iff fun t u h => ?_
  cases t
  cases u
  cases h
  rfl

/-- A token writes only one number. -/
@[simp] theorem Number.cons_eq_cons {n m : Number} :
    n.token :: ts = m.token :: us ↔ n = m ∧ ts = us := by
  refine cons_token_iff fun n m h => ?_
  obtain ⟨t, a, ha⟩ := n
  obtain ⟨_, b, hb⟩ := m
  cases h
  have same : some a.toNat = some b.toNat := ha.2.symm.trans hb.2
  cases UInt32.toNat_inj.mp (Option.some.inj same)
  rfl

end

/-! ## What is fixed by the text it starts -/

/-- In front of tokens at which it may stop, a derivation is the only one of the text it starts. -/
def Determined (written : α → List Token) (stops : TokenKind → Prop) (a : α) : Prop :=
  ∀ ⦃b r s⦄, written a ++ r = written b ++ s → stops (headKind r) → stops (headKind s) →
    a = b ∧ r = s

namespace ListDerivation

variable {written : α → List Token} {stops : TokenKind → Prop} {close : TokenKind}

theorem tokens_cons_append {x : α} {comma : Terminal .comma} {rest : ListDerivation α}
    {r : List Token} : (cons x comma rest).tokens written ++ r =
      written x ++ comma.token :: (rest.tokens written ++ r) := by
  rw [tokens, List.append_assoc, List.cons_append]

/-- A list goes up to a closing token that no element starts with. -/
theorem determined {l : ListDerivation α} (element : ∀ x ∈ l.elements, Determined written stops x)
    (first : ∀ x r, headKind (written x ++ r) ≠ close) (hcomma : stops .comma)
    (hclose : stops close) (different : close ≠ .comma) :
    Determined (ListDerivation.tokens written) (· = close) l := by
  have at_comma (comma : Terminal .comma) (ts : List Token) :
      stops (headKind (comma.token :: ts)) := by simpa using hcomma
  have not_close (comma : Terminal .comma) (ts : List Token) :
      headKind (comma.token :: ts) ≠ close := fun h => different (h.symm.trans comma.kind_eq)
  induction l with
  | nil =>
      intro l' r s h hr hs
      have heads := (congrArg headKind h).symm.trans hr
      cases l' with
      | nil => exact ⟨rfl, h⟩
      | last x => exact absurd heads (first x s)
      | cons x comma rest =>
          rw [tokens_cons_append] at heads
          exact absurd heads (first x _)
  | last x =>
      intro l' r s h hr hs
      have ends : stops (headKind r) := hr.symm ▸ hclose
      cases l' with
      | nil => exact absurd ((congrArg headKind h).trans hs) (first x r)
      | last y =>
          obtain ⟨rfl, rest⟩ := element x List.mem_cons_self h ends (hs.symm ▸ hclose)
          exact ⟨rfl, rest⟩
      | cons y comma rest =>
          rw [tokens_cons_append] at h
          obtain ⟨-, same⟩ := element x List.mem_cons_self h ends (at_comma comma _)
          exact absurd hr (same ▸ not_close comma _)
  | cons x comma rest ih =>
      intro l' r s h hr hs
      rw [tokens_cons_append] at h
      cases l' with
      | nil => exact absurd ((congrArg headKind h).trans hs) (first x _)
      | last y =>
          obtain ⟨-, same⟩ :=
            element x List.mem_cons_self h (at_comma comma _) (hs.symm ▸ hclose)
          exact absurd hs (same ▸ not_close comma _)
      | cons y comma' rest' =>
          rw [tokens_cons_append] at h
          obtain ⟨rfl, behind⟩ :=
            element x List.mem_cons_self h (at_comma comma _) (at_comma comma' _)
          obtain ⟨rfl, more⟩ := Terminal.cons_eq_cons.mp behind
          obtain ⟨rfl, same⟩ := ih (fun z hz => element z (List.mem_cons_of_mem x hz)) more hr hs
          exact ⟨rfl, same⟩

end ListDerivation

/-! ## Types -/

theorem TyDerivation.headKind_ne (d : TyDerivation) (r : List Token) {kind : TokenKind}
    (other : kind ∉ [.ident, .star, .kwFn]) : headKind (d.tokens ++ r) ≠ kind :=
  Parse.headKind_ne_of_tyDerives kind d.derives other

mutual
theorem TyDerivation.determined :
    (d : TyDerivation) → Determined TyDerivation.tokens (· ≠ .arrow) d
  | .named name => by
      intro d' r s h hr hs
      have heads := congrArg headKind h
      cases d' with
      | named name' =>
          obtain ⟨rfl, rest⟩ := Terminal.cons_eq_cons.mp h
          exact ⟨rfl, rest⟩
      | pointer | function => simp [TyDerivation.tokens] at heads
  | .pointer star pointee => by
      intro d' r s h hr hs
      have heads := congrArg headKind h
      cases d' with
      | pointer star' pointee' =>
          obtain ⟨rfl, behind⟩ := Terminal.cons_eq_cons.mp h
          obtain ⟨rfl, rest⟩ := pointee.determined behind hr hs
          exact ⟨rfl, rest⟩
      | named | function => simp [TyDerivation.tokens] at heads
  | .function start opens params closes result => by
      intro d' r s h hr hs
      have heads := congrArg headKind h
      cases d' with
      | function start' opens' params' closes' result' =>
          simp only [TyDerivation.tokens, List.cons_append, List.append_assoc,
            Terminal.cons_eq_cons] at h
          obtain ⟨rfl, rfl, h⟩ := h
          obtain ⟨rfl, behind⟩ := params.determined h closes.kind_eq closes'.kind_eq
          obtain ⟨rfl, last⟩ := Terminal.cons_eq_cons.mp behind
          obtain ⟨rfl, rest⟩ := result.determined last hr hs
          exact ⟨rfl, rest⟩
      | named | pointer => simp [TyDerivation.tokens] at heads
/-- Parameters go up to the closing parenthesis, at which no type and no `...` starts. -/
theorem ParamsDerivation.determined :
    (d : ParamsDerivation) → Determined ParamsDerivation.tokens (· = .rParen) d
  | .nil => by
      intro d' r s h hr hs
      have heads := (congrArg headKind h).symm.trans hr
      cases d' with
      | nil => exact ⟨rfl, h⟩
      | variadic dots => simp [ParamsDerivation.tokens] at heads
      | last ty => exact absurd heads (ty.headKind_ne _ (by decide))
      | cons ty comma rest =>
          rw [ParamsDerivation.tokens, List.append_assoc] at heads
          exact absurd heads (ty.headKind_ne _ (by decide))
  | .variadic dots => by
      intro d' r s h hr hs
      have heads := (congrArg headKind h).symm.trans dots.kind_eq
      cases d' with
      | nil => exact absurd (hs.symm.trans heads) (by decide)
      | variadic dots' =>
          obtain ⟨rfl, rest⟩ := Terminal.cons_eq_cons.mp h
          exact ⟨rfl, rest⟩
      | last ty => exact absurd heads (ty.headKind_ne _ (by decide))
      | cons ty comma rest =>
          rw [ParamsDerivation.tokens, List.append_assoc] at heads
          exact absurd heads (ty.headKind_ne _ (by decide))
  | .last ty => by
      intro d' r s h hr hs
      have heads := congrArg headKind h
      cases d' with
      | nil => exact absurd (heads.trans hs) (ty.headKind_ne _ (by decide))
      | variadic dots => exact absurd (heads.trans dots.kind_eq) (ty.headKind_ne _ (by decide))
      | last ty' =>
          obtain ⟨rfl, rest⟩ := ty.determined h (by rw [hr]; decide) (by rw [hs]; decide)
          exact ⟨rfl, rest⟩
      | cons ty' comma rest =>
          simp only [ParamsDerivation.tokens, List.append_assoc, List.cons_append] at h
          obtain ⟨-, same⟩ := ty.determined h (by rw [hr]; decide) (by simp)
          simp [same] at hr
  | .cons ty comma rest => by
      intro d' r s h hr hs
      simp only [ParamsDerivation.tokens, List.append_assoc, List.cons_append] at h
      have heads := congrArg headKind h
      cases d' with
      | nil => exact absurd (heads.trans hs) (ty.headKind_ne _ (by decide))
      | variadic dots => exact absurd (heads.trans dots.kind_eq) (ty.headKind_ne _ (by decide))
      | last ty' =>
          obtain ⟨-, same⟩ := ty.determined h (by simp) (by rw [hs]; decide)
          simp [← same] at hs
      | cons ty' comma' rest' =>
          simp only [ParamsDerivation.tokens, List.append_assoc, List.cons_append] at h
          obtain ⟨rfl, behind⟩ := ty.determined h (by simp) (by simp)
          obtain ⟨rfl, more⟩ := Terminal.cons_eq_cons.mp behind
          obtain ⟨rfl, same⟩ := rest.determined more hr hs
          exact ⟨rfl, same⟩
theorem ResultDerivation.determined :
    (d : ResultDerivation) → Determined ResultDerivation.tokens (· ≠ .arrow) d
  | .none => by
      intro d' r s h hr hs
      cases d' with
      | none => exact ⟨rfl, h⟩
      | given arrow ret => exact absurd ((congrArg headKind h).trans arrow.kind_eq) hr
  | .given arrow ret => by
      intro d' r s h hr hs
      cases d' with
      | none => exact absurd ((congrArg headKind h).symm.trans arrow.kind_eq) hs
      | given arrow' ret' =>
          obtain ⟨rfl, behind⟩ := Terminal.cons_eq_cons.mp h
          obtain ⟨rfl, rest⟩ := ret.determined behind hr hs
          exact ⟨rfl, rest⟩
end

theorem TypedDerivation.determined (d : TypedDerivation) :
    Determined TypedDerivation.tokens (· ≠ .arrow) d := by
  intro d' r s h hr hs
  obtain ⟨name, colon, ty⟩ := d
  obtain ⟨name', colon', ty'⟩ := d'
  simp only [tokens, List.cons_append, Terminal.cons_eq_cons] at h
  obtain ⟨rfl, rfl, h⟩ := h
  obtain ⟨rfl, rest⟩ := ty.determined h hr hs
  exact ⟨rfl, rest⟩

/-- Fields and parameters are lists of names with types. -/
theorem determined_typeds {close : TokenKind} (other : close ∉ [.ident, .comma, .arrow])
    (l : ListDerivation TypedDerivation) :
    Determined (ListDerivation.tokens TypedDerivation.tokens) (· = close) l := by
  simp only [List.mem_cons, List.not_mem_nil, or_false, not_or] at other
  refine ListDerivation.determined (fun d _ => d.determined) ?_ (by decide) other.2.2 other.2.1
  intro d r h
  exact other.1 (h.symm.trans d.name.kind_eq)

/-! ## Expressions -/

theorem ExprDerivation.headKind_ne (d : ExprDerivation) (r : List Token) {kind : TokenKind}
    (other : kind ∉ [.ident, .lParen]) : headKind (d.tokens ++ r) ≠ kind := by
  obtain ⟨t, us, heq, starts⟩ := Parse.first_of_exprDerives d.derives
  rw [headKind_append heq]
  rintro rfl
  exact other (by simpa using starts)

theorem CastsDerivation.determined (d : CastsDerivation) :
    Determined CastsDerivation.tokens (· ∉ [.kwAs, .arrow]) d := by
  -- a cast goes up to the next one, or to what stops all of them
  have ends (d : CastsDerivation) (r : List Token) (hr : headKind r ∉ [.kwAs, .arrow]) :
      headKind (d.tokens ++ r) ≠ .arrow := by
    cases d with
    | nil => exact Parse.headKind_ne_of_not_mem hr (by decide)
    | cons mark ty rest => simp [tokens]
  induction d with
  | nil =>
      intro d' r s h hr hs
      cases d' with
      | nil => exact ⟨rfl, h⟩
      | cons mark ty rest =>
          have heads := (congrArg headKind h).trans mark.kind_eq
          exact absurd heads (Parse.headKind_ne_of_not_mem hr (by decide))
  | cons mark ty rest ih =>
      intro d' r s h hr hs
      cases d' with
      | nil =>
          have heads := (congrArg headKind h).symm.trans mark.kind_eq
          exact absurd heads (Parse.headKind_ne_of_not_mem hs (by decide))
      | cons mark' ty' rest' =>
          simp only [tokens, List.cons_append, List.append_assoc, Terminal.cons_eq_cons] at h
          obtain ⟨rfl, h⟩ := h
          obtain ⟨rfl, more⟩ := ty.determined h (ends rest r hr) (ends rest' s hs)
          obtain ⟨rfl, same⟩ := ih more hr hs
          exact ⟨rfl, same⟩

/-- Casts stand where no selection goes on. -/
theorem CastsDerivation.stops (d : CastsDerivation) {r : List Token}
    (hr : StopsExpr (headKind r)) : headKind (d.tokens ++ r) ∉ [.dot, .lParen] :=
  Parse.stops_selections (d.derives (.var ⟨"", ⟨0, 0⟩⟩ ⟨0, 0⟩)) hr

/-- Selections start with a dot or an opening parenthesis. -/
theorem SelectionsDerivation.eq_nil {d : SelectionsDerivation} {r : List Token}
    (h : headKind (d.tokens ++ r) ∉ [.dot, .lParen]) : d = .nil := by
  cases d with
  | nil => rfl
  | field | call => simp [SelectionsDerivation.tokens] at h

mutual
/-- Where an atom ends needs no look at what follows. -/
theorem AtomDerivation.determined :
    (d : AtomDerivation) → Determined AtomDerivation.tokens (fun _ => True) d
  | .var name => by
      intro d' r s h _ _
      cases d' with
      | var name' =>
          obtain ⟨rfl, rest⟩ := Terminal.cons_eq_cons.mp h
          exact ⟨rfl, rest⟩
      | parens opens inner closes =>
          have heads := congrArg headKind h
          simp [AtomDerivation.tokens] at heads
  | .parens opens inner closes => by
      intro d' r s h _ _
      cases d' with
      | var name =>
          have heads := congrArg headKind h
          simp [AtomDerivation.tokens] at heads
      | parens opens' inner' closes' =>
          simp only [AtomDerivation.tokens, List.cons_append, List.append_assoc, List.nil_append,
            Terminal.cons_eq_cons] at h
          obtain ⟨rfl, h⟩ := h
          obtain ⟨rfl, behind⟩ := inner.determined h (by simp [StopsExpr]) (by simp [StopsExpr])
          obtain ⟨rfl, same⟩ := Terminal.cons_eq_cons.mp behind
          exact ⟨rfl, same⟩
theorem SelectionsDerivation.determined : (d : SelectionsDerivation) →
    Determined SelectionsDerivation.tokens (· ∉ [.dot, .lParen]) d
  | .nil => by
      intro d' r s h hr hs
      rw [SelectionsDerivation.tokens, List.nil_append] at h
      cases SelectionsDerivation.eq_nil (h ▸ hr)
      exact ⟨rfl, h⟩
  | .field dot name rest => by
      intro d' r s h hr hs
      have heads := congrArg headKind h
      cases d' with
      | nil => cases SelectionsDerivation.eq_nil (show headKind (_ ++ r) ∉ _ from heads ▸ hs)
      | field dot' name' rest' =>
          simp only [SelectionsDerivation.tokens, List.cons_append, Terminal.cons_eq_cons] at h
          obtain ⟨rfl, rfl, h⟩ := h
          obtain ⟨rfl, same⟩ := rest.determined h hr hs
          exact ⟨rfl, same⟩
      | call opens args closes rest' => simp [SelectionsDerivation.tokens] at heads
  | .call opens args closes rest => by
      intro d' r s h hr hs
      have heads := congrArg headKind h
      cases d' with
      | nil => cases SelectionsDerivation.eq_nil (show headKind (_ ++ r) ∉ _ from heads ▸ hs)
      | field dot name rest' => simp [SelectionsDerivation.tokens] at heads
      | call opens' args' closes' rest' =>
          simp only [SelectionsDerivation.tokens, argumentTokens_eq, List.cons_append,
            List.append_assoc, Terminal.cons_eq_cons] at h
          obtain ⟨rfl, h⟩ := h
          have list : Determined (ListDerivation.tokens ExprDerivation.tokens) (· = .rParen) args :=
            ListDerivation.determined (determined_arguments args)
              (fun x r => x.headKind_ne r (by decide)) (by simp [StopsExpr]) (by simp [StopsExpr])
              (by decide)
          obtain ⟨rfl, behind⟩ := list h closes.kind_eq closes'.kind_eq
          obtain ⟨rfl, last⟩ := Terminal.cons_eq_cons.mp behind
          obtain ⟨rfl, same⟩ := rest.determined last hr hs
          exact ⟨rfl, same⟩
theorem ExprDerivation.determined :
    (d : ExprDerivation) → Determined ExprDerivation.tokens StopsExpr d
  | .mk atom selected casts => by
      intro d' r s h hr hs
      obtain ⟨atom', selected', casts'⟩ := d'
      simp only [ExprDerivation.tokens, List.append_assoc] at h
      obtain ⟨rfl, behind⟩ := atom.determined h trivial trivial
      obtain ⟨rfl, last⟩ := selected.determined behind (casts.stops hr) (casts'.stops hs)
      have ends (r : List Token) (hr : StopsExpr (headKind r)) : headKind r ∉ [.kwAs, .arrow] :=
        fun hm => hr (List.mem_append_right [TokenKind.dot, .lParen] hm)
      obtain ⟨rfl, same⟩ := casts.determined last (ends r hr) (ends s hs)
      exact ⟨rfl, same⟩
theorem determined_arguments : (args : ListDerivation ExprDerivation) →
    ∀ x ∈ args.elements, Determined ExprDerivation.tokens StopsExpr x
  | .nil => nofun
  | .last only => by
      intro x hx
      rw [List.mem_singleton.mp hx]
      exact only.determined
  | .cons first comma rest => by
      intro x hx
      rcases List.mem_cons.mp hx with h | h
      · rw [h]
        exact first.determined
      · exact determined_arguments rest x h
end

/-! ## Statements and items -/

theorem AssignedDerivation.determined (d : AssignedDerivation) :
    Determined AssignedDerivation.tokens (· = .semi) d := by
  intro d' r s h hr hs
  cases d with
  | none =>
      cases d' with
      | none => exact ⟨rfl, h⟩
      | given eq value =>
          have heads := (congrArg headKind h).trans eq.kind_eq
          exact absurd (hr.symm.trans heads) (by decide)
  | given eq value =>
      cases d' with
      | none =>
          have heads := (congrArg headKind h).symm.trans eq.kind_eq
          exact absurd (hs.symm.trans heads) (by decide)
      | given eq' value' =>
          obtain ⟨rfl, behind⟩ := Terminal.cons_eq_cons.mp h
          obtain ⟨rfl, same⟩ :=
            value.determined behind (by simp [hr, StopsExpr]) (by simp [hs, StopsExpr])
          exact ⟨rfl, same⟩

/-- An expression is followed by the sign of an assignment or by the end of the statement. -/
theorem AssignedDerivation.stops (d : AssignedDerivation) (stop : Terminal .semi)
    (r : List Token) : StopsExpr (headKind (d.tokens ++ stop.token :: r)) := by
  cases d <;> simp [tokens, StopsExpr]

/-- A statement ends with its semicolon. -/
theorem StmtDerivation.determined (d : StmtDerivation) :
    Determined StmtDerivation.tokens (fun _ => True) d := by
  intro d' r s h _ _
  have heads := congrArg headKind h
  cases d with
  | bind start name eq init stop =>
      cases d' with
      | bind start' name' eq' init' stop' =>
          simp only [tokens, List.cons_append, List.append_assoc, List.nil_append,
            Terminal.cons_eq_cons] at h
          obtain ⟨rfl, rfl, rfl, h⟩ := h
          obtain ⟨rfl, behind⟩ := init.determined h (by simp [StopsExpr]) (by simp [StopsExpr])
          obtain ⟨rfl, same⟩ := Terminal.cons_eq_cons.mp behind
          exact ⟨rfl, same⟩
      | ret => simp [tokens] at heads
      | eval place =>
          rw [tokens, tokens, List.append_assoc] at heads
          exact absurd (heads.symm.trans start.kind_eq) (place.headKind_ne _ (by decide))
  | ret start stop =>
      cases d' with
      | bind => simp [tokens] at heads
      | ret start' stop' =>
          simp only [tokens, List.cons_append, List.nil_append, Terminal.cons_eq_cons] at h
          obtain ⟨rfl, rfl, same⟩ := h
          exact ⟨rfl, same⟩
      | eval place =>
          rw [tokens, tokens, List.append_assoc] at heads
          exact absurd (heads.symm.trans start.kind_eq) (place.headKind_ne _ (by decide))
  | eval place assigned stop =>
      rw [tokens, List.append_assoc] at heads
      cases d' with
      | bind start => exact absurd (heads.trans start.kind_eq) (place.headKind_ne _ (by decide))
      | ret start => exact absurd (heads.trans start.kind_eq) (place.headKind_ne _ (by decide))
      | eval place' assigned' stop' =>
          simp only [tokens, List.append_assoc, List.cons_append, List.nil_append] at h
          obtain ⟨rfl, behind⟩ :=
            place.determined h (assigned.stops stop r) (assigned'.stops stop' s)
          obtain ⟨rfl, last⟩ := assigned.determined behind stop.kind_eq stop'.kind_eq
          obtain ⟨rfl, same⟩ := Terminal.cons_eq_cons.mp last
          exact ⟨rfl, same⟩

/-- No statement starts with one of the tokens at which a body ends. -/
theorem StmtDerivation.headKind_ne (d : StmtDerivation) (r : List Token) {kind : TokenKind}
    (ends : kind ∈ [.rBrace, .eof]) : headKind (d.tokens ++ r) ≠ kind := by
  obtain ⟨t, us, heq, starts⟩ := Parse.first_of_stmtDerives d.derives
  rw [headKind_append heq]
  rintro rfl
  exact starts ends

theorem determined_body (body : List StmtDerivation) :
    Determined (List.flatMap StmtDerivation.tokens) (· = .rBrace) body := by
  induction body with
  | nil =>
      intro body' r s h hr hs
      cases body' with
      | nil => exact ⟨rfl, h⟩
      | cons d' rest' =>
          rw [List.flatMap_cons, List.append_assoc] at h
          exact absurd ((congrArg headKind h).symm.trans hr) (d'.headKind_ne _ (by decide))
  | cons d rest ih =>
      intro body' r s h hr hs
      rw [List.flatMap_cons, List.append_assoc] at h
      cases body' with
      | nil => exact absurd ((congrArg headKind h).trans hs) (d.headKind_ne _ (by decide))
      | cons d' rest' =>
          rw [List.flatMap_cons, List.append_assoc] at h
          obtain ⟨rfl, behind⟩ := d.determined h trivial trivial
          obtain ⟨rfl, same⟩ := ih behind hr hs
          exact ⟨rfl, same⟩

/-- An item ends with its semicolon or its closing brace. -/
theorem ItemDerivation.determined (d : ItemDerivation) :
    Determined ItemDerivation.tokens (fun _ => True) d := by
  intro d' r s h _ _
  have heads := congrArg headKind h
  cases d with
  | opaqueItem start name colon sizeWord size comma alignWord align stop =>
      cases d' with
      | opaqueItem start' name' colon' sizeWord' size' comma' alignWord' align' stop' =>
          -- every part of an opaque declaration is one token
          simp only [tokens, List.cons_append, List.nil_append, Terminal.cons_eq_cons,
            Keyword.cons_eq_cons, Number.cons_eq_cons] at h
          obtain ⟨rfl, rfl, rfl, rfl, rfl, rfl, rfl, rfl, rfl, same⟩ := h
          exact ⟨rfl, same⟩
      | structItem | functionItem => simp [tokens] at heads
  | structItem start name opens fields closes =>
      cases d' with
      | structItem start' name' opens' fields' closes' =>
          simp only [tokens, List.cons_append, List.append_assoc, List.nil_append,
            Terminal.cons_eq_cons] at h
          obtain ⟨rfl, rfl, rfl, h⟩ := h
          obtain ⟨rfl, behind⟩ :=
            determined_typeds (by decide) fields h closes.kind_eq closes'.kind_eq
          obtain ⟨rfl, same⟩ := Terminal.cons_eq_cons.mp behind
          exact ⟨rfl, same⟩
      | opaqueItem | functionItem => simp [tokens] at heads
  | functionItem start name opens params closes left body right =>
      cases d' with
      | functionItem start' name' opens' params' closes' left' body' right' =>
          simp only [tokens, List.cons_append, List.append_assoc, List.nil_append,
            Terminal.cons_eq_cons] at h
          obtain ⟨rfl, rfl, rfl, h⟩ := h
          obtain ⟨rfl, behind⟩ :=
            determined_typeds (by decide) params h closes.kind_eq closes'.kind_eq
          simp only [Terminal.cons_eq_cons] at behind
          obtain ⟨rfl, rfl, behind⟩ := behind
          obtain ⟨rfl, last⟩ := determined_body body behind right.kind_eq right'.kind_eq
          obtain ⟨rfl, same⟩ := Terminal.cons_eq_cons.mp last
          exact ⟨rfl, same⟩
      | opaqueItem | structItem => simp [tokens] at heads

/-! ## Units -/

/-- No two derivations of units write the same text. -/
theorem UnitDerivation.eq_of_tokens {d d' : UnitDerivation} (h : d.tokens = d'.tokens) :
    d = d' := by
  obtain ⟨items⟩ := d
  obtain ⟨items'⟩ := d'
  have pos (item : ItemDerivation) : item.tokens ≠ [] := fun empty => by
    have := length_pos_of_itemDerives item.derives
    simp [empty] at this
  congr 1
  induction items generalizing items' with
  | nil =>
      cases items' with
      | nil => rfl
      | cons first rest => exact absurd (List.append_eq_nil_iff.mp h.symm).1 (pos first)
  | cons first rest ih =>
      cases items' with
      | nil => exact absurd (List.append_eq_nil_iff.mp h).1 (pos first)
      | cons first' rest' =>
          obtain ⟨rfl, behind⟩ := first.determined h trivial trivial
          rw [ih rest' behind]

/-- A source has a unit exactly when every character belongs to a token, a blank or a comment and
the tokens up to the end of input have a derivation; there is only one then, and the unit is its
tree. -/
theorem SourceUnit.parse_iff_derivation (source : String) (unit : SourceUnit) :
    (SourceUnit.parse source).1 = some unit ↔
      (Tokens.ofSource source).errors = [] ∧
        ∃ d : UnitDerivation, d.tokens ++ [eofToken source] = (Tokens.ofSource source).tokens ∧
          d.tree = unit ∧
          ∀ d' : UnitDerivation,
            d'.tokens ++ [eofToken source] = (Tokens.ofSource source).tokens → d' = d := by
  have tokens (d : UnitDerivation) :
      d.tokens ++ [eofToken source] = (Tokens.ofSource source).tokens ↔
        d.tokens = (cut 0 0 source.toList).tokens := List.append_left_inj _
  simp only [tokens]
  constructor
  · intro parsed
    obtain ⟨clean, derived, -⟩ := parse_eq_some.mp (Prod.ext parsed rfl)
    obtain ⟨d, written, tree⟩ := derived.derivable
    exact ⟨clean, d, written, tree, fun d' h => UnitDerivation.eq_of_tokens (h.trans written.symm)⟩
  · rintro ⟨clean, d, written, rfl, -⟩
    have parsed := parse_eq_some.mpr ⟨clean, written ▸ d.derives, rfl⟩
    exact congrArg Prod.fst parsed

end CallThunk.Source
