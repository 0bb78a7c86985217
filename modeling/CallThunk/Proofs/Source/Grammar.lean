import CallThunk.Source.Token
import CallThunk.Source.Tree
import CallThunk.Numeral

/-!
# Grammar of wrapper source

Which token lists a tree is written as, without a parser. Trees keep the places of their tokens, so
a derivation fixes the tree down to its spans.
-/

namespace CallThunk.Source

/-- The name at a token. -/
def Token.ident (t : Token) : Ident := ⟨t.lexeme, t.span⟩

/-- A list with commas; a comma may stand behind its last element. -/
inductive ListDerives {α : Type} (element : List Token → α → Prop) :
    List Token → List α → Prop where
  | nil : ListDerives element [] []
  | last {ts : List Token} {x : α} (only : element ts x) : ListDerives element ts [x]
  | cons {ts us : List Token} {comma : Token} {x : α} {xs : List α} (first : element ts x)
      (separates : comma.kind = .comma) (rest : ListDerives element us xs) :
      ListDerives element (ts ++ comma :: us) (x :: xs)

/-! ## Types -/

mutual
/-- A type as it is written. -/
inductive TyDerives : List Token → TyExpr → Prop where
  | named {t : Token} (word : t.kind = .ident) : TyDerives [t] (.named t.ident)
  | pointer {star : Token} {ts : List Token} {pointee : TyExpr} (marks : star.kind = .star)
      (inner : TyDerives ts pointee) :
      TyDerives (star :: ts) (.pointer pointee (star.span.merge pointee.span))
  | function {start opens closes : Token} {ps : List Token} {params : List TyExpr}
      {variadic : Bool} (starts : start.kind = .kwFn) (left : opens.kind = .lParen)
      (takes : ParamsDerive ps params variadic) (right : closes.kind = .rParen) :
      TyDerives (start :: opens :: ps ++ [closes])
        (.function params variadic none (start.span.merge closes.span))
  | functionTo {start opens closes arrow : Token} {ps ts : List Token} {params : List TyExpr}
      {variadic : Bool} {ret : TyExpr} (starts : start.kind = .kwFn) (left : opens.kind = .lParen)
      (takes : ParamsDerive ps params variadic) (right : closes.kind = .rParen)
      (leads : arrow.kind = .arrow) (gives : TyDerives ts ret) :
      TyDerives (start :: opens :: ps ++ closes :: arrow :: ts)
        (.function params variadic (some ret) (start.span.merge ret.span))
/-- Parameter types; `...` may stand in the last place. -/
inductive ParamsDerive : List Token → List TyExpr → Bool → Prop where
  | nil : ParamsDerive [] [] false
  | variadic {t : Token} (dots : t.kind = .ellipsis) : ParamsDerive [t] [] true
  | last {ts : List Token} {ty : TyExpr} (only : TyDerives ts ty) : ParamsDerive ts [ty] false
  | cons {ts us : List Token} {comma : Token} {ty : TyExpr} {tys : List TyExpr} {variadic : Bool}
      (first : TyDerives ts ty) (separates : comma.kind = .comma)
      (rest : ParamsDerive us tys variadic) :
      ParamsDerive (ts ++ comma :: us) (ty :: tys) variadic
end

/-- A name, a colon and a type. -/
inductive TypedDerives : List Token → Typed → Prop where
  | mk {name colon : Token} {ts : List Token} {ty : TyExpr} (word : name.kind = .ident)
      (separates : colon.kind = .colon) (typed : TyDerives ts ty) :
      TypedDerives (name :: colon :: ts) ⟨name.ident, ty⟩

/-! ## Expressions -/

/-- Casts behind an expression, which they lead to another one. -/
inductive CastsDerive : Expr → List Token → Expr → Prop where
  | nil {e : Expr} : CastsDerive e [] e
  | cons {e e' : Expr} {mark : Token} {ts us : List Token} {ty : TyExpr} (marks : mark.kind = .kwAs)
      (named : TyDerives ts ty) (rest : CastsDerive (.cast e ty (e.span.merge ty.span)) us e') :
      CastsDerive e (mark :: ts ++ us) e'

mutual
/-- A name, or an expression in parentheses. -/
inductive AtomDerives : List Token → Expr → Prop where
  | var {t : Token} (word : t.kind = .ident) : AtomDerives [t] (.var t.ident t.span)
  | parens {opens closes : Token} {ts : List Token} {e : Expr} (left : opens.kind = .lParen)
      (inner : ExprDerives ts e) (right : closes.kind = .rParen) :
      AtomDerives (opens :: ts ++ [closes]) e
/-- Field selections and calls behind an expression, which they lead to another one. -/
inductive SelectionsDerive : Expr → List Token → Expr → Prop where
  | nil {e : Expr} : SelectionsDerive e [] e
  | field {e e' : Expr} {dot t : Token} {ts : List Token} (selects : dot.kind = .dot)
      (word : t.kind = .ident)
      (rest : SelectionsDerive (.field e t.ident (e.span.merge t.span)) ts e') :
      SelectionsDerive e (dot :: t :: ts) e'
  | call {e e' : Expr} {opens closes : Token} {us ts : List Token} {args : List Expr}
      (left : opens.kind = .lParen) (passed : ListDerives ExprDerives us args)
      (right : closes.kind = .rParen)
      (rest : SelectionsDerive (.call e args (e.span.merge closes.span)) ts e') :
      SelectionsDerive e (opens :: us ++ closes :: ts) e'
/-- Selections bind closer than casts. -/
inductive ExprDerives : List Token → Expr → Prop where
  | mk {ts us vs : List Token} {a e e' : Expr} (atom : AtomDerives ts a)
      (selected : SelectionsDerive a us e) (cast : CastsDerive e vs e') :
      ExprDerives (ts ++ us ++ vs) e'
end

/-! ## Statements and items -/

inductive StmtDerives : List Token → Stmt → Prop where
  | bind {start name eq stop : Token} {ts : List Token} {init : Expr} (starts : start.kind = .kwLet)
      (word : name.kind = .ident) (is : eq.kind = .eq) (value : ExprDerives ts init)
      (stops : stop.kind = .semi) :
      StmtDerives (start :: name :: eq :: ts ++ [stop])
        (.bind name.ident init (start.span.merge stop.span))
  | ret {start stop : Token} (starts : start.kind = .kwReturn) (stops : stop.kind = .semi) :
      StmtDerives [start, stop] (.ret (start.span.merge stop.span))
  | assign {eq stop : Token} {ts us : List Token} {place value : Expr} (dest : ExprDerives ts place)
      (is : eq.kind = .eq) (stored : ExprDerives us value) (stops : stop.kind = .semi) :
      StmtDerives (ts ++ eq :: us ++ [stop]) (.assign place value (place.span.merge stop.span))
  | eval {stop : Token} {ts : List Token} {e : Expr} (value : ExprDerives ts e)
      (stops : stop.kind = .semi) : StmtDerives (ts ++ [stop]) (.eval e)

inductive BodyDerives : List Token → List Stmt → Prop where
  | nil : BodyDerives [] []
  | cons {ts us : List Token} {s : Stmt} {ss : List Stmt} (first : StmtDerives ts s)
      (rest : BodyDerives us ss) : BodyDerives (ts ++ us) (s :: ss)

/-- A token that writes a number below 2^32. -/
def Token.IsInteger (t : Token) (n : UInt32) : Prop :=
  t.kind = .int ∧ Numeral.value? 10 t.lexeme.toList = some n.toNat

inductive ItemDerives : List Token → Item → Prop where
  | opaqueItem {start name colon sizeWord size comma alignWord align stop : Token} {n m : UInt32}
      (starts : start.kind = .kwOpaque) (word : name.kind = .ident)
      (separates : colon.kind = .colon)
      (sizes : sizeWord.kind = .ident ∧ sizeWord.lexeme = "size") (size_is : size.IsInteger n)
      (separates' : comma.kind = .comma)
      (aligns : alignWord.kind = .ident ∧ alignWord.lexeme = "align") (align_is : align.IsInteger m)
      (stops : stop.kind = .semi) :
      ItemDerives [start, name, colon, sizeWord, size, comma, alignWord, align, stop]
        (.opaqueItem ⟨name.ident, n, m, start.span.merge stop.span⟩)
  | structItem {start name opens closes : Token} {ts : List Token} {fields : List Typed}
      (starts : start.kind = .kwStruct) (word : name.kind = .ident) (left : opens.kind = .lBrace)
      (holds : ListDerives TypedDerives ts fields) (right : closes.kind = .rBrace) :
      ItemDerives (start :: name :: opens :: ts ++ [closes])
        (.structItem ⟨name.ident, fields, start.span.merge closes.span⟩)
  | functionItem {start name opens closes left right : Token} {ts us : List Token}
      {params : List Typed} {body : List Stmt} (starts : start.kind = .kwFn)
      (word : name.kind = .ident) (opens_is : opens.kind = .lParen)
      (takes : ListDerives TypedDerives ts params) (closes_is : closes.kind = .rParen)
      (left_is : left.kind = .lBrace) (does : BodyDerives us body)
      (right_is : right.kind = .rBrace) :
      ItemDerives (start :: name :: opens :: ts ++ closes :: left :: us ++ [right])
        (.functionItem ⟨name.ident, params, body, start.span.merge right.span⟩)

/-- A unit is written as its items, one behind the other. -/
inductive UnitDerives : List Token → List Item → Prop where
  | nil : UnitDerives [] []
  | cons {ts us : List Token} {item : Item} {items : List Item} (first : ItemDerives ts item)
      (rest : UnitDerives us items) : UnitDerives (ts ++ us) (item :: items)

end CallThunk.Source
