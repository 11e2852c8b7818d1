import OnePass.Location
import OnePass.Number.Shortest
import OnePass.Text.Quoted
import OnePass.Ty

/-!
# Tokens

A token is a kind, the place where its text starts, and whether a line break stands before it.

* `Keyword`, `Mark` — the words and signs of the language, with their spellings;
* `TokenKind` — all kinds; names and literals carry their content;
* `TokenKind.ofWord` — the kind of an identifier-like word;
* `TokenKind.sameSort` — equality that looks past the content.
-/

namespace OnePass

/-- Reserved words. -/
inductive Keyword where
  | elseWord
  | funcWord
  | ifWord
  | letWord
  | nilWord
  | returnWord
  | varWord
  | whileWord
  | underscore
deriving DecidableEq, Repr, Inhabited

/-- Operators and punctuation. -/
inductive Mark where
  | plus
  | minus
  | star
  | slash
  | assign
  | equal
  | notEqual
  | less
  | greater
  | lessEqual
  | greaterEqual
  | bang
  | coalesce
  | leftParen
  | rightParen
  | leftBrace
  | rightBrace
  | colon
  | comma
  | arrow
deriving DecidableEq, Repr, Inhabited

namespace Keyword

def text : Keyword → String
  | elseWord => "else"
  | funcWord => "func"
  | ifWord => "if"
  | letWord => "let"
  | nilWord => "nil"
  | returnWord => "return"
  | varWord => "var"
  | whileWord => "while"
  | underscore => "_"

def all : List Keyword :=
  [elseWord, funcWord, ifWord, letWord, nilWord, returnWord, varWord, whileWord, underscore]

end Keyword

namespace Mark

def text : Mark → String
  | plus => "+"
  | minus => "-"
  | star => "*"
  | slash => "/"
  | assign => "="
  | equal => "=="
  | notEqual => "!="
  | less => "<"
  | greater => ">"
  | lessEqual => "<="
  | greaterEqual => ">="
  | bang => "!"
  | coalesce => "??"
  | leftParen => "("
  | rightParen => ")"
  | leftBrace => "\x7b"
  | rightBrace => "\x7d"
  | colon => ":"
  | comma => ","
  | arrow => "->"

end Mark

/-- What a token is. -/
inductive TokenKind where
  | identifier (name : String)
  | intLiteral (value : Int)
  | doubleLiteral (value : Double)
  | stringLiteral (text : String)
  | typeName (ty : Ty)
  | keyword (word : Keyword)
  | mark (sign : Mark)
  | eof
deriving DecidableEq, Repr, Inhabited

namespace TokenKind

def typeWords : List Base := [.double, .int, .string]

def ofWord (word : String) : TokenKind :=
  match typeWords.find? (·.text == word) with
  | some b => .typeName (.base b)
  | none =>
      match Keyword.all.find? (·.text == word) with
      | some reserved => .keyword reserved
      | none => .identifier word

def isTerm : TokenKind → Bool
  | identifier _ | intLiteral _ | doubleLiteral _ | stringLiteral _ => true
  | keyword .nilWord => true
  | _ => false

def sameSort : TokenKind → TokenKind → Bool
  | identifier _, identifier _ => true
  | intLiteral _, intLiteral _ => true
  | doubleLiteral _, doubleLiteral _ => true
  | stringLiteral _, stringLiteral _ => true
  | typeName _, typeName _ => true
  | a, b => a == b

def text : TokenKind → String
  | identifier name => s!"識別子 '{name}'"
  | intLiteral value => s!"整数リテラル {value}"
  | doubleLiteral value => s!"浮動小数点リテラル {value.text}"
  | stringLiteral text => s!"文字列リテラル {Text.quoted text}"
  | typeName ty => s!"型 {ty.text}"
  | keyword word => word.text
  | mark sign => sign.text
  | eof => "EOF"

def shown : TokenKind → String
  | keyword word => s!"'{word.text}'"
  | mark sign => s!"'{sign.text}'"
  | eof => "ファイルの終端"
  | kind => kind.text

end TokenKind

/-- A token. -/
structure Token where
  kind : TokenKind
  location : Location
  afterBreak : Bool
deriving DecidableEq, Repr, Inhabited

namespace Token

def identifier? (token : Token) : Option String :=
  match token.kind with
  | .identifier name => some name
  | _ => none

def text (token : Token) : String := s!"{token.kind.text} at {token.location.text}"

end Token

end OnePass
