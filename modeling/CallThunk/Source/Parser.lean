import CallThunk.Source.Token
import CallThunk.Source.Tree
import CallThunk.Diagnostic

/-!
# Parsing wrapper source

A parser takes the tokens that are left, without the end of input, and gives a tree with the tokens
behind it, or a failure at the tokens it could not use. Repetitions and nested trees are bounded by
a budget that the number of tokens always suffices for. `SourceUnit.parse` reports every lexical
error and one syntax error for each item that fails; after a failure it goes on at the next keyword
that starts an item.
-/

namespace CallThunk.Source

/-- What a parser would have accepted. -/
inductive Expectation where
  | token (kind : TokenKind)
  | word (text : String)
  | aType
  | anExpression
  | anItem
  deriving DecidableEq

def Expectation.text : Expectation → String
  | token kind => kind.text
  | word text => "`" ++ text ++ "`"
  | aType => "a type"
  | anExpression => "an expression"
  | anItem => "`struct`, `opaque` or `fn`"

/-- Why a text is no unit. -/
inductive SyntaxError where
  /-- Another token was needed; none was found at the end of input. -/
  | unexpected (expected : Expectation) (found : Option Token)
  | integerRange (token : Token)
  deriving DecidableEq

namespace SyntaxError

def message : SyntaxError → String
  | unexpected expected found =>
    "expected " ++ expected.text ++ ", found " ++
      match found with
      | some token => "`" ++ token.lexeme ++ "`"
      | none => TokenKind.eof.text
  | integerRange token => "integer `" ++ token.lexeme ++ "` is out of range"

/-- The place of an error in a source with a given end. -/
def span (eof : Span) : SyntaxError → Span
  | unexpected _ found => (found.map Token.span).getD eof
  | integerRange token => token.span

end SyntaxError

/-- An error and the tokens from which parsing may go on. -/
structure Failure where
  error : SyntaxError
  rest : List Token

/-- Parsers of wrapper source. -/
abbrev Parse := StateT (List Token) (Except Failure)

namespace Parse

/-- Fails at the current token. -/
def unexpected {α : Type} (expected : Expectation) : Parse α := fun ts =>
  .error ⟨.unexpected expected ts.head?, ts⟩

/-- The kind of the current token. -/
def peek : Parse TokenKind := fun ts =>
  .ok ((ts.head?.map Token.kind).getD .eof, ts)

/-- Takes a token that must have a kind. -/
def expect (kind : TokenKind) : Parse Token := fun ts =>
  match ts with
  | t :: rest => if t.kind = kind then .ok (t, rest) else unexpected (.token kind) ts
  | [] => unexpected (.token kind) ts

/-- Takes a token if it has a kind. -/
def eat (kind : TokenKind) : Parse Bool := fun ts =>
  match ts with
  | t :: rest => if t.kind = kind then .ok (true, rest) else .ok (false, ts)
  | [] => .ok (false, ts)

def ident : Parse Ident := do
  let t ← expect .ident
  return ⟨t.lexeme, t.span⟩

/-- Takes an identifier that must be a given word. -/
def word (text : String) : Parse PUnit := fun ts =>
  match ts with
  | t :: rest =>
    if t.kind = .ident ∧ t.lexeme = text then .ok ((), rest) else unexpected (.word text) ts
  | [] => unexpected (.word text) ts

/-- Takes an integer below 2^32. -/
def integer : Parse UInt32 := do
  let t ← expect .int
  match (Numeral.value? 10 t.lexeme.toList).filter (· < UInt32.size) with
  | some n => return UInt32.ofNat n
  | none => fun ts => .error ⟨.integerRange t, ts⟩

/-- Items separated by commas up to a closing token, which is left; the last comma may stay. -/
def commaList {α : Type} (close : TokenKind) (element : Parse α) : (budget : Nat) → Parse (List α)
  | 0 => unexpected (.token close)
  | budget + 1 => do
    if (← peek) = close then
      return []
    let x ← element
    if ← eat .comma then
      let xs ← commaList close element budget
      return x :: xs
    return [x]

/-! ## Types -/

/-- Parameter types up to the closing parenthesis, with `...` allowed in the last place. -/
def paramTypes (ty : Parse TyExpr) : (budget : Nat) → Parse (List TyExpr × Bool)
  | 0 => unexpected .aType
  | budget + 1 => do
    if (← peek) = .rParen then
      return ([], false)
    if ← eat .ellipsis then
      return ([], true)
    let t ← ty
    if ← eat .comma then
      let (ts, variadic) ← paramTypes ty budget
      return (t :: ts, variadic)
    return ([t], false)

def tyExpr : (budget : Nat) → Parse TyExpr
  | 0 => unexpected .aType
  | budget + 1 => do
    match ← peek with
    | .star =>
      let start ← expect .star
      let pointee ← tyExpr budget
      return .pointer pointee (start.span.merge pointee.span)
    | .kwFn =>
      let start ← expect .kwFn
      let _ ← expect .lParen
      let (params, variadic) ← paramTypes (tyExpr budget) budget
      let close ← expect .rParen
      if ← eat .arrow then
        let ret ← tyExpr budget
        return .function params variadic (some ret) (start.span.merge ret.span)
      return .function params variadic none (start.span.merge close.span)
    | .ident => return .named (← ident)
    | _ => unexpected .aType

/-! ## Expressions -/

/-- A name or an expression in parentheses. -/
def atom (inner : Parse Expr) : Parse Expr := do
  if ← eat .lParen then
    let e ← inner
    let _ ← expect .rParen
    return e
  if (← peek) = .ident then
    let name ← ident
    return .var name name.span
  unexpected .anExpression

/-- Field selections and calls behind an expression. -/
def selections (inner : Parse Expr) : (budget : Nat) → Expr → Parse Expr
  | 0, e => return e
  | budget + 1, e => do
    if ← eat .dot then
      let field ← ident
      selections inner budget (.field e field (e.span.merge field.span))
    else if ← eat .lParen then
      let args ← commaList .rParen inner budget
      let close ← expect .rParen
      selections inner budget (.call e args (e.span.merge close.span))
    else return e

/-- Casts behind an expression. -/
def casts : (budget : Nat) → Expr → Parse Expr
  | 0, e => return e
  | budget + 1, e => do
    if ← eat .kwAs then
      let ty ← tyExpr budget
      casts budget (.cast e ty (e.span.merge ty.span))
    else return e

def expression : (budget : Nat) → Parse Expr
  | 0 => unexpected .anExpression
  | budget + 1 => do
    let e ← atom (expression budget)
    let e ← selections (expression budget) budget e
    casts budget e

/-! ## Statements and items -/

def statement (budget : Nat) : Parse Stmt := do
  match ← peek with
  | .kwLet =>
    let start ← expect .kwLet
    let name ← ident
    let _ ← expect .eq
    let init ← expression budget
    let stop ← expect .semi
    return .bind name init (start.span.merge stop.span)
  | .kwReturn =>
    let start ← expect .kwReturn
    let stop ← expect .semi
    return .ret (start.span.merge stop.span)
  | _ =>
    let place ← expression budget
    if ← eat .eq then
      let value ← expression budget
      let stop ← expect .semi
      return .assign place value (place.span.merge stop.span)
    let _ ← expect .semi
    return .eval place

/-- Statements up to the closing brace or the end of input, which is left. -/
def statements (stmt : Parse Stmt) : (budget : Nat) → Parse (List Stmt)
  | 0 => unexpected (.token .rBrace)
  | budget + 1 => do
    let kind ← peek
    if kind = .rBrace ∨ kind = .eof then
      return []
    let s ← stmt
    let ss ← statements stmt budget
    return s :: ss

/-- A name, a colon and a type. -/
def typed (budget : Nat) : Parse Typed := do
  let name ← ident
  let _ ← expect .colon
  let ty ← tyExpr budget
  return ⟨name, ty⟩

def opaqueItem : Parse OpaqueDecl := do
  let start ← expect .kwOpaque
  let name ← ident
  let _ ← expect .colon
  word "size"
  let size ← integer
  let _ ← expect .comma
  word "align"
  let align ← integer
  let stop ← expect .semi
  return ⟨name, size, align, start.span.merge stop.span⟩

def structItem (budget : Nat) : Parse StructDecl := do
  let start ← expect .kwStruct
  let name ← ident
  let _ ← expect .lBrace
  let fields ← commaList .rBrace (typed budget) budget
  let stop ← expect .rBrace
  return ⟨name, fields, start.span.merge stop.span⟩

def functionItem (budget : Nat) : Parse FunctionDecl := do
  let start ← expect .kwFn
  let name ← ident
  let _ ← expect .lParen
  let params ← commaList .rParen (typed budget) budget
  let _ ← expect .rParen
  let _ ← expect .lBrace
  let body ← statements (statement budget) budget
  let stop ← expect .rBrace
  return ⟨name, params, body, start.span.merge stop.span⟩

def item (budget : Nat) : Parse Item := do
  match ← peek with
  | .kwOpaque => return .opaqueItem (← opaqueItem)
  | .kwStruct => return .structItem (← structItem budget)
  | .kwFn => return .functionItem (← functionItem budget)
  | _ => unexpected .anItem

end Parse

/-! ## Units -/

/-- Whether a token starts an item. -/
def TokenKind.startsItem : TokenKind → Bool
  | kwStruct | kwOpaque | kwFn => true
  | _ => false

/-- The tokens from which parsing goes on after a failure: the first one is dropped, then all up to
the start of an item. -/
def resume (ts : List Token) : List Token :=
  (ts.drop 1).dropWhile (!·.kind.startsItem)

/-- The items of a token list, and the errors of those that fail. -/
def parseItems : (budget : Nat) → List Token → List Item × List SyntaxError
  | 0, _ => ([], [])
  | _, [] => ([], [])
  | budget + 1, t :: ts =>
    match Parse.item (budget + 1) (t :: ts) with
    | .ok (item, rest) =>
      let (items, errors) := parseItems budget rest
      (item :: items, errors)
    | .error failure =>
      let (items, errors) := parseItems budget (resume failure.rest)
      (items, failure.error :: errors)

/-- The diagnostic of a character at which no token starts. -/
def BadChar.diagnostic (bad : BadChar) : Diagnostic :=
  { severity := .error
    message := "unexpected character `" ++ bad.char.toString ++ "`"
    span := some bad.span }

/-- The diagnostic of a syntax error in a source with a given end. -/
def SyntaxError.diagnostic (eof : Span) (error : SyntaxError) : Diagnostic :=
  { severity := .error, message := error.message, span := some (error.span eof) }

/-- Parses a source; there is a unit exactly when nothing is reported. -/
def SourceUnit.parse (source : String) : Option SourceUnit × Diagnostics :=
  let pieces := cut 0 0 source.toList
  let eof := (eofToken source).span
  let (items, errors) := parseItems (pieces.tokens.length + 1) pieces.tokens
  let reports := pieces.errors.map BadChar.diagnostic ++ errors.map (·.diagnostic eof)
  (if reports.isEmpty then some ⟨items⟩ else none, reports)

end CallThunk.Source
