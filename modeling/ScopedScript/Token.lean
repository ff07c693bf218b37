/-
**Tokens.**

A token is a number, a text, a name, a keyword, a mark or the end of the text. The tables here are
the vocabulary of the language: spellings of keywords and marks, and the classes that the grammar
asks about:

* `Token.ofWord`: a word is a keyword or a name;
* `Token.endsBlock`, `Token.startsExpr`: what closes a statement list and what may open an
  expression;
* `Token.describe`: how a diagnostic names a token.
-/

import ScopedScript.Position
import ScopedScript.Text.Decimal
import ScopedScript.Text.Quoted

namespace ScopedScript

inductive Keyword where
  | def_ | end_ | if_ | elsif | else_ | while_ | for_ | in_ | return_ | final
  | and_ | or_ | not_ | true_ | false_ | none_
deriving DecidableEq, Repr, Inhabited

inductive Mark where
  | plus | minus | star | slash | percent
  | assign | equal | notEqual | less | lessEqual | greater | greaterEqual
  | colon | comma
  | leftParen | rightParen | leftBracket | rightBracket | leftBrace | rightBrace
deriving DecidableEq, Repr, Inhabited

/-- A token without its place. -/
inductive Token where
  | int (value : Int64)
  | text (value : String)
  | name (value : String)
  | keyword (word : Keyword)
  | mark (sign : Mark)
  | eof
deriving DecidableEq, Repr, Inhabited

/-- A token and the place where it starts. -/
structure Lexeme where
  token : Token
  position : Position
deriving DecidableEq, Repr, Inhabited

namespace Keyword

def all : List Keyword :=
  [.def_, .end_, .if_, .elsif, .else_, .while_, .for_, .in_, .return_, .final,
    .and_, .or_, .not_, .true_, .false_, .none_]

def spelling : Keyword → String
  | .def_ => "def" | .end_ => "end" | .if_ => "if" | .elsif => "elsif" | .else_ => "else"
  | .while_ => "while" | .for_ => "for" | .in_ => "in" | .return_ => "return" | .final => "final"
  | .and_ => "and" | .or_ => "or" | .not_ => "not"
  | .true_ => "True" | .false_ => "False" | .none_ => "None"

def label : Keyword → String
  | .def_ => "Def" | .end_ => "End" | .if_ => "If" | .elsif => "Elsif" | .else_ => "Else"
  | .while_ => "While" | .for_ => "For" | .in_ => "In" | .return_ => "Return" | .final => "Final"
  | .and_ => "And" | .or_ => "Or" | .not_ => "Not"
  | .true_ => "True" | .false_ => "False" | .none_ => "None"

end Keyword

namespace Mark

def spelling : Mark → String
  | .plus => "+" | .minus => "-" | .star => "*" | .slash => "/" | .percent => "%"
  | .assign => "=" | .equal => "==" | .notEqual => "!="
  | .less => "<" | .lessEqual => "<=" | .greater => ">" | .greaterEqual => ">="
  | .colon => ":" | .comma => "," | .leftParen => "(" | .rightParen => ")"
  | .leftBracket => "[" | .rightBracket => "]" | .leftBrace => "\x7b" | .rightBrace => "\x7d"

def label : Mark → String
  | .plus => "Plus" | .minus => "Minus" | .star => "Star" | .slash => "Slash"
  | .percent => "Percent" | .assign => "Eq" | .equal => "EqEq" | .notEqual => "BangEq"
  | .less => "Lt" | .lessEqual => "LtEq" | .greater => "Gt" | .greaterEqual => "GtEq"
  | .colon => "Colon" | .comma => "Comma" | .leftParen => "LParen" | .rightParen => "RParen"
  | .leftBracket => "LBracket" | .rightBracket => "RBracket" | .leftBrace => "LBrace"
  | .rightBrace => "RBrace"

/-- The mark that is this character alone, whatever follows it. -/
def ofChar? : Char → Option Mark
  | '+' => some .plus | '-' => some .minus | '*' => some .star | '/' => some .slash
  | '%' => some .percent | ':' => some .colon | ',' => some .comma
  | '(' => some .leftParen | ')' => some .rightParen
  | '[' => some .leftBracket | ']' => some .rightBracket
  | '\x7b' => some .leftBrace | '\x7d' => some .rightBrace
  | _ => none

end Mark

namespace Token

/-- A word is a keyword if it is spelled like one, else a name. -/
def ofWord (word : String) : Token :=
  match Keyword.all.find? fun reserved => reserved.spelling == word with
  | some reserved => .keyword reserved
  | none => .name word

/-- The kind of a token, as diagnostics and listings name it. -/
def label : Token → String
  | .int _ => "Int"
  | .text _ => "StringLit"
  | .name _ => "Ident"
  | .keyword word => word.label
  | .mark sign => sign.label
  | .eof => "Eof"

/-- How a diagnostic shows a token: its kind, and what it carries in parentheses. -/
def describe : Token → String
  | .int value => "Int(" ++ Decimal.text value ++ ")"
  | .text value => "StringLit(" ++ Text.quoted value ++ ")"
  | .name value => "Ident(" ++ Text.quoted value ++ ")"
  | token => token.label

/-! ### Classes -/

/-- Numbers, texts and the three constants. -/
def isLiteral : Token → Bool
  | .int _ | .text _ | .keyword .true_ | .keyword .false_ | .keyword .none_ => true
  | _ => false

def isArithmetic : Token → Bool
  | .mark .plus | .mark .minus | .mark .star | .mark .slash | .mark .percent => true
  | _ => false

def isComparison : Token → Bool
  | .mark .equal | .mark .notEqual | .mark .less | .mark .lessEqual | .mark .greater
  | .mark .greaterEqual => true
  | _ => false

def isLogical : Token → Bool
  | .keyword .and_ | .keyword .or_ | .keyword .not_ => true
  | _ => false

def isKeyword : Token → Bool
  | .keyword _ => true
  | _ => false

/-- Tokens that close a statement list without being part of it. -/
def endsBlock : Token → Bool
  | .keyword .end_ | .keyword .elsif | .keyword .else_ | .eof => true
  | _ => false

def startsExpr : Token → Bool
  | .int _ | .text _ | .name _ => true
  | .keyword .true_ | .keyword .false_ | .keyword .none_ | .keyword .not_ => true
  | .mark .minus | .mark .leftParen | .mark .leftBracket | .mark .leftBrace => true
  | _ => false

/-- Tokens at which reading goes on after a mistake: the words that open a statement. -/
def opensStatement : Token → Bool
  | .keyword .def_ | .keyword .if_ | .keyword .while_ | .keyword .for_ | .keyword .return_
  | .keyword .final => true
  | _ => false

end Token

end ScopedScript
