/-
**From text to tokens.**

The text is read once, character by character. A `Scanner` knows what it is in the middle of (its
`Mode`), and each character either extends that, or ends it and opens something new:

* `Scanner.feed`: the effect of one character;
* `Scanner.finish`: the effect of the end of the text;
* `Token.scan`: all tokens, the last one `eof`, or all problems if there is any.

Columns count bytes, so a character that no token can hold is reported once per byte, each byte shown
as the character of the same number.
-/

import ScopedScript.Diagnostic

namespace ScopedScript

/-! ### Characters -/

def isBlank (char : Char) : Bool := char = ' ' || char = '\t' || char = '\r' || char = '\n'

def isWordStart (char : Char) : Bool := char.isAlpha || char = '_'

def isWordPart (char : Char) : Bool := char.isAlphanum || char = '_'

/-- The characters that open a mark which an equals sign may extend. -/
def isComparisonStart (char : Char) : Bool :=
  char = '=' || char = '!' || char = '<' || char = '>'

/-- What a backslash and this character stand for inside a text. -/
def unescape? : Char → Option Char
  | 'n' => some '\n'
  | 't' => some '\t'
  | '"' => some '"'
  | '\\' => some '\\'
  | _ => none

/-- The bytes of a character, each as the character of the same number. -/
def byteChars (char : Char) : List Char :=
  (String.utf8EncodeChar char).map fun byte => Char.ofNat byte.toNat

/-! ### The scanner -/

/-- What the scanner is in the middle of. Characters already read stand last first. -/
inductive Mode where
  | start
  /-- In a comment, up to the end of the line. -/
  | comment
  | word (first : Position) (chars : List Char)
  | number (first : Position) (digits : List Char)
  /-- After a mark that an equals sign may extend. -/
  | comparison (first : Position) (char : Char)
  /-- In a text; `bad` is its first unknown escape. -/
  | text (first : Position) (chars : List Char) (bad : Option Diagnostic)
  /-- In a text, right behind a backslash. -/
  | escape (first : Position) (chars : List Char) (bad : Option Diagnostic)
deriving DecidableEq, Repr

/-- The scanner: the place of the next character, what it is in the middle of, and what it has
found, last first. -/
structure Scanner where
  position : Position
  mode : Mode
  lexemes : List Lexeme
  problems : List Diagnostic
deriving DecidableEq, Repr

namespace Scanner

def initial : Scanner := ⟨.start, .start, [], []⟩

/-- Ends what is under way with a token. -/
def emit (scanner : Scanner) (token : Token) (first : Position) : Scanner :=
  { scanner with mode := .start, lexemes := ⟨token, first⟩ :: scanner.lexemes }

/-- Ends what is under way with a problem. -/
def complain (scanner : Scanner) (problem : Problem) (first : Position) : Scanner :=
  { scanner with mode := .start, problems := ⟨problem, first⟩ :: scanner.problems }

/-- Reports every byte of a character that no token can hold. -/
def reject (scanner : Scanner) (char : Char) : Scanner :=
  let reports := (byteChars char).mapIdx fun offset shown =>
    (⟨.strayCharacter shown, ⟨scanner.position.line, scanner.position.column + offset⟩⟩ : Diagnostic)
  { scanner with mode := .start, problems := reports.reverse ++ scanner.problems }

/-- A character that stands between tokens opens the next one. -/
def opening (scanner : Scanner) (char : Char) : Scanner :=
  if isBlank char then { scanner with mode := .start }
  else if char = '#' then { scanner with mode := .comment }
  else if char = '"' then { scanner with mode := .text scanner.position [] none }
  else if char.isDigit then { scanner with mode := .number scanner.position [char] }
  else if isWordStart char then { scanner with mode := .word scanner.position [char] }
  else if isComparisonStart char then { scanner with mode := .comparison scanner.position char }
  else
    match Mark.ofChar? char with
    | some mark => scanner.emit (.mark mark) scanner.position
    | none => scanner.reject char

/-- The mark of a comparison character that no equals sign follows. -/
def shortMark? : Char → Option Mark
  | '=' => some .assign
  | '<' => some .less
  | '>' => some .greater
  | _ => none

/-- The mark of a comparison character and an equals sign. -/
def longMark : Char → Mark
  | '=' => .equal
  | '<' => .lessEqual
  | '>' => .greaterEqual
  | _ => .notEqual

/-- Ends a word, a number or a short mark, because the next character is no part of it. -/
def settle (scanner : Scanner) : Scanner :=
  match scanner.mode with
  | .word first chars => scanner.emit (.ofWord (String.ofList chars.reverse)) first
  | .number first digits =>
    match Decimal.fit? (Decimal.value digits.reverse) with
    | some value => scanner.emit (.int value) first
    | none => scanner.complain (.integerTooLarge (String.ofList digits.reverse)) first
  | .comparison first char =>
    match shortMark? char with
    | some mark => scanner.emit (.mark mark) first
    | none => scanner.complain .bareBang first
  | _ => scanner

def closeText (scanner : Scanner) (first : Position) (chars : List Char)
    (bad : Option Diagnostic) : Scanner :=
  match bad with
  | some diagnostic => scanner.complain diagnostic.problem diagnostic.position
  | none => scanner.emit (.text (String.ofList chars.reverse)) first

/-- The mode after a backslash and this character inside a text. -/
def afterEscape (scanner : Scanner) (first : Position) (chars : List Char)
    (bad : Option Diagnostic) (char : Char) : Mode :=
  match unescape? char with
  | some plain => .text first (plain :: chars) bad
  | none =>
    let shown := (byteChars char).headD char
    .text first chars (bad <|> some ⟨.unknownEscape shown, scanner.position⟩)

def react (scanner : Scanner) (char : Char) : Scanner :=
  match scanner.mode with
  | .start => scanner.opening char
  | .comment => if char = '\n' then { scanner with mode := .start } else scanner
  | .word first chars =>
    if isWordPart char then { scanner with mode := .word first (char :: chars) }
    else scanner.settle.opening char
  | .number first digits =>
    if char.isDigit then { scanner with mode := .number first (char :: digits) }
    else scanner.settle.opening char
  | .comparison first sign =>
    if char = '=' then scanner.emit (.mark (longMark sign)) first
    else scanner.settle.opening char
  | .text first chars bad =>
    if char = '\n' then scanner.complain .unterminatedText first
    else if char = '"' then scanner.closeText first chars bad
    else if char = '\\' then { scanner with mode := .escape first chars bad }
    else { scanner with mode := .text first (char :: chars) bad }
  | .escape first chars bad =>
    { scanner with mode := scanner.afterEscape first chars bad char }

def feed (scanner : Scanner) (char : Char) : Scanner :=
  { scanner.react char with position := scanner.position.after char }

def finish (scanner : Scanner) : Scanner :=
  match scanner.mode with
  | .text first _ _ | .escape first _ _ => scanner.complain .unterminatedText first
  | _ => scanner.settle

/-- All tokens, the last one `eof`, or all problems if there is any. -/
def result (scanner : Scanner) : Except (List Diagnostic) (List Lexeme) :=
  if scanner.problems.isEmpty then .ok (scanner.lexemes.reverse ++ [⟨.eof, scanner.position⟩])
  else .error scanner.problems.reverse

end Scanner

/-- The tokens of a text, or its problems. -/
def Token.scan (source : String) : Except (List Diagnostic) (List Lexeme) :=
  (source.toList.foldl Scanner.feed .initial).finish.result

end ScopedScript
