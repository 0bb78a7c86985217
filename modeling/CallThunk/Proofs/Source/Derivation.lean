import CallThunk.Proofs.Source.Grammar

/-!
# Derivations of wrapper source

A derivation says which rule of the grammar was taken at every place and holds all tokens, the
commas and parentheses that trees forget included. Its tokens, read from left to right, are the text
it derives, and its tree is what the parser should build. The relations of the grammar hold exactly
between the tokens of a derivation and its tree.
-/

namespace CallThunk.Source

variable {α β : Type}

/-! ## Tokens of the grammar -/

/-- A token of a kind. -/
structure Terminal (kind : TokenKind) where
  token : Token
  kind_eq : token.kind = kind

/-- An identifier that is a given word, which is a keyword only at its place. -/
structure Keyword (text : String) where
  token : Token
  is : token.kind = .ident ∧ token.lexeme = text

/-- A number below 2^32. -/
structure Number where
  token : Token
  value : UInt32
  writes : token.IsInteger value

/-! ## Lists with commas -/

/-- A possibly empty list with commas; one may stand behind the last element. -/
inductive ListDerivation (α : Type) where
  | nil
  | last (only : α)
  | cons (first : α) (comma : Terminal .comma) (rest : ListDerivation α)

namespace ListDerivation

def elements : ListDerivation α → List α
  | nil => []
  | last only => [only]
  | cons first _ rest => first :: rest.elements

/-- The tokens of a list whose elements have the given ones. -/
def tokens (written : α → List Token) : ListDerivation α → List Token
  | nil => []
  | last only => written only
  | cons first comma rest => written first ++ comma.token :: rest.tokens written

end ListDerivation

/-! ## Types -/

mutual
/-- A name, a pointer or a function type. -/
inductive TyDerivation where
  | named (name : Terminal .ident)
  | pointer (star : Terminal .star) (pointee : TyDerivation)
  | function (start : Terminal .kwFn) (opens : Terminal .lParen) (params : ParamsDerivation)
      (closes : Terminal .rParen) (result : ResultDerivation)
/-- Parameter types; `...` may stand in the last place. -/
inductive ParamsDerivation where
  | nil
  | variadic (dots : Terminal .ellipsis)
  | last (only : TyDerivation)
  | cons (first : TyDerivation) (comma : Terminal .comma) (rest : ParamsDerivation)
/-- The result of a function type, which may be left out. -/
inductive ResultDerivation where
  | none
  | given (arrow : Terminal .arrow) (ret : TyDerivation)
end

mutual
def TyDerivation.tokens : TyDerivation → List Token
  | .named name => [name.token]
  | .pointer star pointee => star.token :: pointee.tokens
  | .function start opens params closes result =>
    start.token :: opens.token :: (params.tokens ++ closes.token :: result.tokens)
def ParamsDerivation.tokens : ParamsDerivation → List Token
  | .nil => []
  | .variadic dots => [dots.token]
  | .last only => only.tokens
  | .cons first comma rest => first.tokens ++ comma.token :: rest.tokens
def ResultDerivation.tokens : ResultDerivation → List Token
  | .none => []
  | .given arrow ret => arrow.token :: ret.tokens
end

def ParamsDerivation.isVariadic : ParamsDerivation → Bool
  | .nil => false
  | .variadic _ => true
  | .last _ => false
  | .cons _ _ rest => rest.isVariadic

mutual
def TyDerivation.tree : TyDerivation → TyExpr
  | .named name => .named name.token.ident
  | .pointer star pointee => .pointer pointee.tree (star.token.span.merge pointee.tree.span)
  | .function start _ params closes result =>
    .function params.trees params.isVariadic result.tree?
      (start.token.span.merge ((result.tree?.map TyExpr.span).getD closes.token.span))
def ParamsDerivation.trees : ParamsDerivation → List TyExpr
  | .nil => []
  | .variadic _ => []
  | .last only => [only.tree]
  | .cons first _ rest => first.tree :: rest.trees
def ResultDerivation.tree? : ResultDerivation → Option TyExpr
  | .none => none
  | .given _ ret => some ret.tree
end

/-- A name, a colon and a type. -/
structure TypedDerivation where
  name : Terminal .ident
  colon : Terminal .colon
  ty : TyDerivation

namespace TypedDerivation

def tokens (d : TypedDerivation) : List Token := d.name.token :: d.colon.token :: d.ty.tokens

def tree (d : TypedDerivation) : Typed := ⟨d.name.token.ident, d.ty.tree⟩

end TypedDerivation

/-! ## Expressions -/

/-- Casts, from left to right. -/
inductive CastsDerivation where
  | nil
  | cons (mark : Terminal .kwAs) (ty : TyDerivation) (rest : CastsDerivation)

namespace CastsDerivation

def tokens : CastsDerivation → List Token
  | nil => []
  | cons mark ty rest => mark.token :: (ty.tokens ++ rest.tokens)

/-- The casts around an expression: the first one is the innermost. -/
def tree : CastsDerivation → Expr → Expr
  | nil, e => e
  | cons _ ty rest, e => rest.tree (.cast e ty.tree (e.span.merge ty.tree.span))

end CastsDerivation

mutual
/-- A name, or an expression in parentheses. -/
inductive AtomDerivation where
  | var (name : Terminal .ident)
  | parens (opens : Terminal .lParen) (inner : ExprDerivation) (closes : Terminal .rParen)
/-- Field selections and calls, from left to right. -/
inductive SelectionsDerivation where
  | nil
  | field (dot : Terminal .dot) (name : Terminal .ident) (rest : SelectionsDerivation)
  | call (opens : Terminal .lParen) (args : ListDerivation ExprDerivation)
      (closes : Terminal .rParen) (rest : SelectionsDerivation)
/-- Selections bind closer than casts. -/
inductive ExprDerivation where
  | mk (atom : AtomDerivation) (selected : SelectionsDerivation) (casts : CastsDerivation)
end

mutual
def AtomDerivation.tokens : AtomDerivation → List Token
  | .var name => [name.token]
  | .parens opens inner closes => opens.token :: (inner.tokens ++ [closes.token])
def SelectionsDerivation.tokens : SelectionsDerivation → List Token
  | .nil => []
  | .field dot name rest => dot.token :: name.token :: rest.tokens
  | .call opens args closes rest =>
    opens.token :: (argumentTokens args ++ closes.token :: rest.tokens)
def ExprDerivation.tokens : ExprDerivation → List Token
  | .mk atom selected casts => atom.tokens ++ (selected.tokens ++ casts.tokens)
def argumentTokens : ListDerivation ExprDerivation → List Token
  | .nil => []
  | .last only => only.tokens
  | .cons first comma rest => first.tokens ++ comma.token :: argumentTokens rest
end

mutual
def AtomDerivation.tree : AtomDerivation → Expr
  | .var name => .var name.token.ident name.token.span
  | .parens _ inner _ => inner.tree
/-- The selections behind an expression: the first one is the innermost. -/
def SelectionsDerivation.tree : SelectionsDerivation → Expr → Expr
  | .nil, e => e
  | .field _ name rest, e =>
    rest.tree (.field e name.token.ident (e.span.merge name.token.span))
  | .call _ args closes rest, e =>
    rest.tree (.call e (argumentTrees args) (e.span.merge closes.token.span))
def ExprDerivation.tree : ExprDerivation → Expr
  | .mk atom selected casts => casts.tree (selected.tree atom.tree)
def argumentTrees : ListDerivation ExprDerivation → List Expr
  | .nil => []
  | .last only => [only.tree]
  | .cons first _ rest => first.tree :: argumentTrees rest
end

/-- Arguments are a list of expressions like any other. -/
theorem argumentTokens_eq (args : ListDerivation ExprDerivation) :
    argumentTokens args = args.tokens ExprDerivation.tokens := by
  induction args with
  | nil => rfl
  | last only => rfl
  | cons first comma rest ih => rw [argumentTokens, ih, ListDerivation.tokens]

theorem argumentTrees_eq (args : ListDerivation ExprDerivation) :
    argumentTrees args = args.elements.map ExprDerivation.tree := by
  induction args with
  | nil => rfl
  | last only => rfl
  | cons first comma rest ih => rw [argumentTrees, ih, ListDerivation.elements, List.map_cons]

/-! ## Statements and items -/

/-- The value an expression is given, if it is a place. -/
inductive AssignedDerivation where
  | none
  | given (eq : Terminal .eq) (value : ExprDerivation)

def AssignedDerivation.tokens : AssignedDerivation → List Token
  | none => []
  | given eq value => eq.token :: value.tokens

inductive StmtDerivation where
  | bind (start : Terminal .kwLet) (name : Terminal .ident) (eq : Terminal .eq)
      (init : ExprDerivation) (stop : Terminal .semi)
  | ret (start : Terminal .kwReturn) (stop : Terminal .semi)
  | eval (place : ExprDerivation) (assigned : AssignedDerivation) (stop : Terminal .semi)

namespace StmtDerivation

def tokens : StmtDerivation → List Token
  | bind start name eq init stop =>
    start.token :: name.token :: eq.token :: (init.tokens ++ [stop.token])
  | ret start stop => [start.token, stop.token]
  | eval place assigned stop => place.tokens ++ (assigned.tokens ++ [stop.token])

def tree : StmtDerivation → Stmt
  | bind start name _ init stop =>
    .bind name.token.ident init.tree (start.token.span.merge stop.token.span)
  | ret start stop => .ret (start.token.span.merge stop.token.span)
  | eval place .none _ => .eval place.tree
  | eval place (.given _ value) stop =>
    .assign place.tree value.tree (place.tree.span.merge stop.token.span)

end StmtDerivation

inductive ItemDerivation where
  | opaqueItem (start : Terminal .kwOpaque) (name : Terminal .ident) (colon : Terminal .colon)
      (sizeWord : Keyword "size") (size : Number) (comma : Terminal .comma)
      (alignWord : Keyword "align") (align : Number) (stop : Terminal .semi)
  | structItem (start : Terminal .kwStruct) (name : Terminal .ident) (opens : Terminal .lBrace)
      (fields : ListDerivation TypedDerivation) (closes : Terminal .rBrace)
  | functionItem (start : Terminal .kwFn) (name : Terminal .ident) (opens : Terminal .lParen)
      (params : ListDerivation TypedDerivation) (closes : Terminal .rParen)
      (left : Terminal .lBrace) (body : List StmtDerivation) (right : Terminal .rBrace)

namespace ItemDerivation

def tokens : ItemDerivation → List Token
  | opaqueItem start name colon sizeWord size comma alignWord align stop =>
    [start.token, name.token, colon.token, sizeWord.token, size.token, comma.token,
      alignWord.token, align.token, stop.token]
  | structItem start name opens fields closes =>
    start.token :: name.token :: opens.token ::
      (fields.tokens TypedDerivation.tokens ++ [closes.token])
  | functionItem start name opens params closes left body right =>
    start.token :: name.token :: opens.token ::
      (params.tokens TypedDerivation.tokens ++ closes.token :: left.token ::
        (body.flatMap StmtDerivation.tokens ++ [right.token]))

def tree : ItemDerivation → Item
  | opaqueItem start name _ _ size _ _ align stop =>
    .opaqueItem ⟨name.token.ident, size.value, align.value,
      start.token.span.merge stop.token.span⟩
  | structItem start name _ fields closes =>
    .structItem ⟨name.token.ident, fields.elements.map TypedDerivation.tree,
      start.token.span.merge closes.token.span⟩
  | functionItem start name _ params _ _ body right =>
    .functionItem ⟨name.token.ident, params.elements.map TypedDerivation.tree,
      body.map StmtDerivation.tree, start.token.span.merge right.token.span⟩

end ItemDerivation

/-- A derivation of a unit: its items, one behind the other. -/
structure UnitDerivation where
  items : List ItemDerivation

namespace UnitDerivation

def tokens (d : UnitDerivation) : List Token := d.items.flatMap ItemDerivation.tokens

def tree (d : UnitDerivation) : SourceUnit := ⟨d.items.map ItemDerivation.tree⟩

end UnitDerivation

/-! ## Derivations follow the relations -/

theorem ListDerivation.derives {D : List Token → β → Prop} {written : α → List Token} {tree : α → β}
    {l : ListDerivation α} (h : ∀ x ∈ l.elements, D (written x) (tree x)) :
    ListDerives D (l.tokens written) (l.elements.map tree) := by
  induction l with
  | nil => exact .nil
  | last only => exact .last (h only (List.mem_singleton_self only))
  | cons first comma rest ih =>
      refine .cons (h first List.mem_cons_self) comma.kind_eq (ih ?_)
      exact fun x hx => h x (List.mem_cons_of_mem first hx)

mutual
theorem TyDerivation.derives : (d : TyDerivation) → TyDerives d.tokens d.tree
  | .named name => .named name.kind_eq
  | .pointer star pointee => .pointer star.kind_eq pointee.derives
  | .function start opens params closes .none =>
    .function start.kind_eq opens.kind_eq params.derives closes.kind_eq
  | .function start opens params closes (.given arrow ret) =>
    .functionTo start.kind_eq opens.kind_eq params.derives closes.kind_eq arrow.kind_eq ret.derives
theorem ParamsDerivation.derives :
    (d : ParamsDerivation) → ParamsDerive d.tokens d.trees d.isVariadic
  | .nil => .nil
  | .variadic dots => .variadic dots.kind_eq
  | .last only => .last only.derives
  | .cons first comma rest => .cons first.derives comma.kind_eq rest.derives
end

theorem TypedDerivation.derives (d : TypedDerivation) : TypedDerives d.tokens d.tree :=
  .mk d.name.kind_eq d.colon.kind_eq d.ty.derives

theorem CastsDerivation.derives (d : CastsDerivation) (e : Expr) :
    CastsDerive e d.tokens (d.tree e) := by
  induction d generalizing e with
  | nil => exact .nil
  | cons mark ty rest ih => exact .cons mark.kind_eq ty.derives (ih _)

mutual
theorem AtomDerivation.derives : (d : AtomDerivation) → AtomDerives d.tokens d.tree
  | .var name => .var name.kind_eq
  | .parens opens inner closes => .parens opens.kind_eq inner.derives closes.kind_eq
theorem SelectionsDerivation.derives :
    (d : SelectionsDerivation) → (e : Expr) → SelectionsDerive e d.tokens (d.tree e)
  | .nil, _ => .nil
  | .field dot name rest, _ => .field dot.kind_eq name.kind_eq (rest.derives _)
  | .call opens args closes rest, _ =>
    .call opens.kind_eq (derives_arguments args) closes.kind_eq (rest.derives _)
theorem ExprDerivation.derives : (d : ExprDerivation) → ExprDerives d.tokens d.tree
  | .mk atom selected casts => by
      have h := ExprDerives.mk atom.derives (selected.derives _) (casts.derives _)
      rwa [List.append_assoc] at h
theorem derives_arguments : (args : ListDerivation ExprDerivation) →
    ListDerives ExprDerives (argumentTokens args) (argumentTrees args)
  | .nil => .nil
  | .last only => .last only.derives
  | .cons first comma rest => .cons first.derives comma.kind_eq (derives_arguments rest)
end

theorem StmtDerivation.derives (d : StmtDerivation) : StmtDerives d.tokens d.tree := by
  cases d with
  | bind start name eq init stop =>
      exact .bind start.kind_eq name.kind_eq eq.kind_eq init.derives stop.kind_eq
  | ret start stop => exact .ret start.kind_eq stop.kind_eq
  | eval place assigned stop =>
      cases assigned with
      | none => exact .eval place.derives stop.kind_eq
      | given eq value =>
          have h := StmtDerives.assign place.derives eq.kind_eq value.derives stop.kind_eq
          rwa [List.append_assoc] at h

theorem derives_body (body : List StmtDerivation) :
    BodyDerives (body.flatMap StmtDerivation.tokens) (body.map StmtDerivation.tree) := by
  induction body with
  | nil => exact .nil
  | cons first rest ih => exact .cons first.derives ih

theorem ItemDerivation.derives (d : ItemDerivation) : ItemDerives d.tokens d.tree := by
  cases d with
  | opaqueItem start name colon sizeWord size comma alignWord align stop =>
      exact .opaqueItem start.kind_eq name.kind_eq colon.kind_eq sizeWord.is size.writes
        comma.kind_eq alignWord.is align.writes stop.kind_eq
  | structItem start name opens fields closes =>
      exact .structItem start.kind_eq name.kind_eq opens.kind_eq
        (ListDerivation.derives fun x _ => x.derives) closes.kind_eq
  | functionItem start name opens params closes left body right =>
      have h := ItemDerives.functionItem start.kind_eq name.kind_eq opens.kind_eq
        (ListDerivation.derives (l := params) fun x _ => x.derives) closes.kind_eq left.kind_eq
        (derives_body body) right.kind_eq
      rwa [List.append_assoc] at h

theorem UnitDerivation.derives (d : UnitDerivation) : UnitDerives d.tokens d.tree.items := by
  obtain ⟨items⟩ := d
  induction items with
  | nil => exact .nil
  | cons first rest ih => exact .cons first.derives ih

/-! ## What is derived has a derivation -/

/-- Some derivation writes the tokens and builds the tree. -/
def Derivable (written : α → List Token) (tree : α → β) (ts : List Token) (b : β) : Prop :=
  ∃ d, written d = ts ∧ tree d = b

theorem ListDerives.derivable {D : List Token → β → Prop} {written : α → List Token} {tree : α → β}
    {ts : List Token} {xs : List β} (h : ListDerives D ts xs)
    (element : ∀ us x, us.length ≤ ts.length → D us x → Derivable written tree us x) :
    Derivable (ListDerivation.tokens written) (fun l => l.elements.map tree) ts xs := by
  induction h with
  | nil => exact ⟨.nil, rfl, rfl⟩
  | @last us x only =>
      obtain ⟨d, rfl, rfl⟩ := element us x (Nat.le_refl _) only
      exact ⟨.last d, rfl, rfl⟩
  | @cons us vs comma x xs first separates rest ih =>
      have within : us.length ≤ (us ++ comma :: vs).length ∧
          vs.length ≤ (us ++ comma :: vs).length := by
        simp only [List.length_append, List.length_cons]
        omega
      obtain ⟨d, rfl, rfl⟩ := element us x within.1 first
      obtain ⟨l, rfl, rfl⟩ := ih fun ws y small => element ws y (Nat.le_trans small within.2)
      exact ⟨.cons d ⟨comma, separates⟩ l, rfl, rfl⟩

mutual
theorem TyDerives.derivable {ts : List Token} {ty : TyExpr} :
    TyDerives ts ty → Derivable TyDerivation.tokens TyDerivation.tree ts ty
  | .named word => ⟨.named ⟨_, word⟩, rfl, rfl⟩
  | .pointer marks inner => by
      obtain ⟨d, rfl, rfl⟩ := inner.derivable
      exact ⟨.pointer ⟨_, marks⟩ d, rfl, rfl⟩
  | .function starts left takes right => by
      obtain ⟨ps, rfl, rfl, rfl⟩ := takes.derivable
      exact ⟨.function ⟨_, starts⟩ ⟨_, left⟩ ps ⟨_, right⟩ .none, rfl, rfl⟩
  | .functionTo starts left takes right leads gives => by
      obtain ⟨ps, rfl, rfl, rfl⟩ := takes.derivable
      obtain ⟨d, rfl, rfl⟩ := gives.derivable
      exact ⟨.function ⟨_, starts⟩ ⟨_, left⟩ ps ⟨_, right⟩ (.given ⟨_, leads⟩ d), rfl, rfl⟩
theorem ParamsDerive.derivable {ts : List Token} {tys : List TyExpr} {variadic : Bool} :
    ParamsDerive ts tys variadic →
      ∃ d : ParamsDerivation, d.tokens = ts ∧ d.trees = tys ∧ d.isVariadic = variadic
  | .nil => ⟨.nil, rfl, rfl, rfl⟩
  | .variadic dots => ⟨.variadic ⟨_, dots⟩, rfl, rfl, rfl⟩
  | .last only => by
      obtain ⟨d, rfl, rfl⟩ := only.derivable
      exact ⟨.last d, rfl, rfl, rfl⟩
  | .cons first separates rest => by
      obtain ⟨d, rfl, rfl⟩ := first.derivable
      obtain ⟨ps, rfl, rfl, rfl⟩ := rest.derivable
      exact ⟨.cons d ⟨_, separates⟩ ps, rfl, rfl, rfl⟩
end

theorem TypedDerives.derivable {ts : List Token} {field : Typed} (h : TypedDerives ts field) :
    Derivable TypedDerivation.tokens TypedDerivation.tree ts field := by
  obtain ⟨word, separates, typed⟩ := h
  obtain ⟨d, rfl, rfl⟩ := typed.derivable
  exact ⟨⟨⟨_, word⟩, ⟨_, separates⟩, d⟩, rfl, rfl⟩

theorem CastsDerive.derivable {e e' : Expr} {ts : List Token} (h : CastsDerive e ts e') :
    ∃ d : CastsDerivation, d.tokens = ts ∧ d.tree e = e' := by
  induction h with
  | nil => exact ⟨.nil, rfl, rfl⟩
  | cons marks named rest ih =>
      obtain ⟨ty, rfl, rfl⟩ := named.derivable
      obtain ⟨d, rfl, rfl⟩ := ih
      exact ⟨.cons ⟨_, marks⟩ ty d, rfl, rfl⟩

/-- Arguments stand inside the parentheses of a call, so they are shorter than the expression. -/
theorem SelectionsDerive.derivable {n : Nat}
    (inner : ∀ us x, us.length < n → ExprDerives us x →
      Derivable ExprDerivation.tokens ExprDerivation.tree us x)
    {e e' : Expr} {ts : List Token} (h : SelectionsDerive e ts e') (small : ts.length ≤ n) :
    ∃ d : SelectionsDerivation, d.tokens = ts ∧ d.tree e = e' := by
  cases h with
  | nil => exact ⟨.nil, rfl, rfl⟩
  | @field _ _ dot t us selects word rest =>
      simp only [List.length_cons] at small
      obtain ⟨d, rfl, rfl⟩ := SelectionsDerive.derivable inner rest (by omega)
      exact ⟨.field ⟨dot, selects⟩ ⟨t, word⟩ d, rfl, rfl⟩
  | @call _ _ opens closes us vs args left passed right rest =>
      simp only [List.length_append, List.length_cons] at small
      obtain ⟨l, rfl, rfl⟩ := passed.derivable fun ws x short => inner ws x (by omega)
      obtain ⟨d, rfl, rfl⟩ := SelectionsDerive.derivable inner rest (by omega)
      refine ⟨.call ⟨opens, left⟩ l ⟨closes, right⟩ d, ?_, ?_⟩
      · rw [SelectionsDerivation.tokens, argumentTokens_eq, List.cons_append]
      · rw [SelectionsDerivation.tree, argumentTrees_eq]
termination_by ts.length

theorem ExprDerives.derivable {ts : List Token} {e : Expr} (h : ExprDerives ts e) :
    Derivable ExprDerivation.tokens ExprDerivation.tree ts e := by
  -- by the number of tokens: what stands in parentheses is shorter, arguments included
  induction hn : ts.length using Nat.strongRecOn generalizing ts e with
  | ind n ih =>
      have inner (us : List Token) (x : Expr) (small : us.length < n) (hx : ExprDerives us x) :
          Derivable ExprDerivation.tokens ExprDerivation.tree us x := ih us.length small hx rfl
      obtain @⟨ts, us, vs, a, b, _, atom, selected, cast⟩ := h
      simp only [List.length_append] at hn
      have first : ∃ d : AtomDerivation, d.tokens = ts ∧ d.tree = a := by
        cases atom with
        | @var t word => exact ⟨.var ⟨t, word⟩, rfl, rfl⟩
        | @parens opens closes ws e left within right =>
            simp only [List.length_append, List.length_cons] at hn
            obtain ⟨d, rfl, rfl⟩ := inner ws a (by omega) within
            exact ⟨.parens ⟨opens, left⟩ d ⟨closes, right⟩, rfl, rfl⟩
      obtain ⟨d, rfl, rfl⟩ := first
      obtain ⟨s, rfl, rfl⟩ := selected.derivable inner (by omega)
      obtain ⟨c, rfl, rfl⟩ := cast.derivable
      exact ⟨.mk d s c, by rw [ExprDerivation.tokens, List.append_assoc], rfl⟩

theorem StmtDerives.derivable {ts : List Token} {stmt : Stmt} (h : StmtDerives ts stmt) :
    Derivable StmtDerivation.tokens StmtDerivation.tree ts stmt := by
  cases h with
  | bind starts word is value stops =>
      obtain ⟨init, rfl, rfl⟩ := value.derivable
      exact ⟨.bind ⟨_, starts⟩ ⟨_, word⟩ ⟨_, is⟩ init ⟨_, stops⟩, rfl, rfl⟩
  | ret starts stops => exact ⟨.ret ⟨_, starts⟩ ⟨_, stops⟩, rfl, rfl⟩
  | assign dest is stored stops =>
      obtain ⟨place, rfl, rfl⟩ := dest.derivable
      obtain ⟨value, rfl, rfl⟩ := stored.derivable
      exact ⟨.eval place (.given ⟨_, is⟩ value) ⟨_, stops⟩, by rw [List.append_assoc]; rfl, rfl⟩
  | eval value stops =>
      obtain ⟨d, rfl, rfl⟩ := value.derivable
      exact ⟨.eval d .none ⟨_, stops⟩, rfl, rfl⟩

theorem BodyDerives.derivable {ts : List Token} {body : List Stmt} (h : BodyDerives ts body) :
    Derivable (List.flatMap StmtDerivation.tokens) (List.map StmtDerivation.tree) ts body := by
  induction h with
  | nil => exact ⟨[], rfl, rfl⟩
  | cons first rest ih =>
      obtain ⟨d, rfl, rfl⟩ := first.derivable
      obtain ⟨ds, rfl, rfl⟩ := ih
      exact ⟨d :: ds, rfl, rfl⟩

theorem ItemDerives.derivable {ts : List Token} {item : Item} (h : ItemDerives ts item) :
    Derivable ItemDerivation.tokens ItemDerivation.tree ts item := by
  cases h with
  | opaqueItem starts word separates sizes size_is separates' aligns align_is stops =>
      exact ⟨.opaqueItem ⟨_, starts⟩ ⟨_, word⟩ ⟨_, separates⟩ ⟨_, sizes⟩ ⟨_, _, size_is⟩
        ⟨_, separates'⟩ ⟨_, aligns⟩ ⟨_, _, align_is⟩ ⟨_, stops⟩, rfl, rfl⟩
  | structItem starts word left holds right =>
      obtain ⟨fields, rfl, rfl⟩ := holds.derivable fun _ _ _ h => h.derivable
      exact ⟨.structItem ⟨_, starts⟩ ⟨_, word⟩ ⟨_, left⟩ fields ⟨_, right⟩, rfl, rfl⟩
  | functionItem starts word opens_is takes closes_is left_is does right_is =>
      obtain ⟨params, rfl, rfl⟩ := takes.derivable fun _ _ _ h => h.derivable
      obtain ⟨body, rfl, rfl⟩ := does.derivable
      exact ⟨.functionItem ⟨_, starts⟩ ⟨_, word⟩ ⟨_, opens_is⟩ params ⟨_, closes_is⟩ ⟨_, left_is⟩
        body ⟨_, right_is⟩, by rw [List.append_assoc]; rfl, rfl⟩

theorem UnitDerives.derivable {ts : List Token} {items : List Item} (h : UnitDerives ts items) :
    Derivable UnitDerivation.tokens UnitDerivation.tree ts ⟨items⟩ := by
  induction h with
  | nil => exact ⟨⟨[]⟩, rfl, rfl⟩
  | cons first rest ih =>
      obtain ⟨d, rfl, rfl⟩ := first.derivable
      obtain ⟨ds, rfl, tree⟩ := ih
      cases tree
      exact ⟨⟨d :: ds.items⟩, rfl, rfl⟩

end CallThunk.Source
