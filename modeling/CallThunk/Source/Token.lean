import CallThunk.Source.Span

/-!
# Tokens of wrapper source

`Tokens.ofSource` cuts a source into tokens, blanks and comments (which are dropped) and characters
at which nothing can start (which are errors). At every position the longest piece wins, and a word
that is a keyword is no identifier.
-/

namespace CallThunk.Source

/-- The kinds of tokens. -/
inductive TokenKind where
  | kwStruct | kwOpaque | kwFn | kwLet | kwAs | kwReturn
  | int | ident
  | lBrace | rBrace | lParen | rParen | comma | colon | semi | ellipsis | dot | eq | star | arrow
  | eof
  deriving DecidableEq

def TokenKind.text : TokenKind → String
  | kwStruct => "`struct`"
  | kwOpaque => "`opaque`"
  | kwFn => "`fn`"
  | kwLet => "`let`"
  | kwAs => "`as`"
  | kwReturn => "`return`"
  | int => "integer"
  | ident => "identifier"
  | lBrace => "`\x7b`"
  | rBrace => "`\x7d`"
  | lParen => "`(`"
  | rParen => "`)`"
  | comma => "`,`"
  | colon => "`:`"
  | semi => "`;`"
  | ellipsis => "`...`"
  | dot => "`.`"
  | eq => "`=`"
  | star => "`*`"
  | arrow => "`->`"
  | eof => "end of input"

/-- A token with its place and its text. -/
structure Token where
  kind : TokenKind
  span : Span
  lexeme : String
  deriving DecidableEq

/-! ## What starts at a position -/

/-- Blanks that separate tokens. -/
def isBlank (c : Char) : Bool := c = ' ' || c = '\t' || c = '\r' || c = '\n'

/-- Letters, the underscore and the dollar sign start a word. -/
def isWordStart (c : Char) : Bool := c.isAlpha || c = '_' || c = '$'

def isWordChar (c : Char) : Bool := isWordStart c || c.isDigit

/-- The kind of a whole word. -/
def wordKind (word : List Char) : TokenKind :=
  if word = "struct".toList then .kwStruct
  else if word = "opaque".toList then .kwOpaque
  else if word = "fn".toList then .kwFn
  else if word = "let".toList then .kwLet
  else if word = "as".toList then .kwAs
  else if word = "return".toList then .kwReturn
  else .ident

/-- The longest piece at a position, with its length in characters. -/
inductive Piece where
  /-- Blanks or a comment. -/
  | skip (length : Nat)
  | token (kind : TokenKind) (length : Nat)
  /-- Nothing starts with this character. -/
  | bad
  deriving DecidableEq

/-- The longest piece that starts a nonempty text. -/
def Piece.at : List Char → Piece
  | [] => .bad
  | '\x7b' :: _ => .token .lBrace 1
  | '\x7d' :: _ => .token .rBrace 1
  | '(' :: _ => .token .lParen 1
  | ')' :: _ => .token .rParen 1
  | ',' :: _ => .token .comma 1
  | ':' :: _ => .token .colon 1
  | ';' :: _ => .token .semi 1
  | '.' :: '.' :: '.' :: _ => .token .ellipsis 3
  | '.' :: _ => .token .dot 1
  | '=' :: _ => .token .eq 1
  | '*' :: _ => .token .star 1
  | '-' :: '>' :: _ => .token .arrow 2
  | '/' :: '/' :: cs => .skip (2 + (cs.takeWhile (· ≠ '\n')).length)
  | c :: cs =>
    if isBlank c then .skip (1 + (cs.takeWhile isBlank).length)
    else if isWordStart c then
      let word := c :: cs.takeWhile isWordChar
      .token (wordKind word) word.length
    else if c.isDigit then .token .int (1 + (cs.takeWhile Char.isDigit).length)
    else .bad

/-! ## Cutting a source -/

/-- Number of bytes of a text. -/
def byteLength (cs : List Char) : Nat := cs.foldr (fun c n => c.utf8Size + n) 0

/-- A character at which nothing can start. -/
structure BadChar where
  char : Char
  span : Span
  deriving DecidableEq

/-- A source cut into tokens and errors, each in order. -/
structure Tokens where
  tokens : List Token
  errors : List BadChar

/-- Cuts the text at a byte offset; the first `pending` characters belong to the piece before. -/
def cut (offset : Nat) : (pending : Nat) → List Char → Tokens
  | _, [] => ⟨[], []⟩
  | pending + 1, c :: cs => cut (offset + c.utf8Size) pending cs
  | 0, c :: cs =>
    match Piece.at (c :: cs) with
    | .skip length => cut (offset + c.utf8Size) (length - 1) cs
    | .token kind length =>
      let lexeme := (c :: cs).take length
      let rest := cut (offset + c.utf8Size) (length - 1) cs
      { rest with
        tokens :=
          ⟨kind, ⟨offset, offset + byteLength lexeme⟩, String.ofList lexeme⟩ :: rest.tokens }
    | .bad =>
      let rest := cut (offset + c.utf8Size) 0 cs
      { rest with errors := ⟨c, ⟨offset, offset + c.utf8Size⟩⟩ :: rest.errors }

/-- The end of a source as a token. -/
def eofToken (source : String) : Token :=
  let stop := byteLength source.toList
  ⟨.eof, ⟨stop, stop⟩, ""⟩

/-- The tokens of a source, with the end of input as the last one. -/
def Tokens.ofSource (source : String) : Tokens :=
  let pieces := cut 0 0 source.toList
  { pieces with tokens := pieces.tokens ++ [eofToken source] }

end CallThunk.Source
