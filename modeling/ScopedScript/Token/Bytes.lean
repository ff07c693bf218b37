/-
**From bytes to tokens.**

The same scanner one byte at a time, each byte taken for the character of the same number. A byte beyond ASCII
opens no token, and what stands between two quotes is decoded when the text ends:

* `Scanner.feedByte`: the effect of one byte;
* `Token.scanBytes`: the tokens of a text, read from its bytes.
-/

import ScopedScript.Text.Bytes
import ScopedScript.Token.Scan

namespace ScopedScript

namespace Scanner

/-- The text of bytes. Bytes that are no text would be replaced. -/
def decode (chars : List Char) : String :=
  (String.fromUTF8? ⟨(chars.map fun char => char.toNat.toUInt8).toArray⟩).getD "�"

def openingByte (scanner : Scanner) (char : Char) : Scanner :=
  if char.toNat < 128 then scanner.opening char
  else scanner.complain (.strayCharacter char) scanner.position

def reactByte (scanner : Scanner) (char : Char) : Scanner :=
  match scanner.mode with
  | .start => scanner.openingByte char
  | .comment => if char = '\n' then { scanner with mode := .start } else scanner
  | .word first chars =>
    if isWordPart char then { scanner with mode := .word first (char :: chars) }
    else scanner.settle.openingByte char
  | .number first digits =>
    if char.isDigit then { scanner with mode := .number first (char :: digits) }
    else scanner.settle.openingByte char
  | .comparison first sign =>
    if char = '=' then scanner.emit (.mark (longMark sign)) first
    else scanner.settle.openingByte char
  | .text first chars bad =>
    if char = '\n' then scanner.complain .unterminatedText first
    else if char = '"' then
      match bad with
      | some diagnostic => scanner.complain diagnostic.problem diagnostic.position
      | none => scanner.emit (.text (decode chars.reverse)) first
    else if char = '\\' then { scanner with mode := .escape first chars bad }
    else { scanner with mode := .text first (char :: chars) bad }
  | .escape first chars bad =>
    match unescape? char with
    | some plain => { scanner with mode := .text first (plain :: chars) bad }
    | none => { scanner with mode := .text first chars (bad <|> some ⟨.unknownEscape char, scanner.position⟩) }

def feedByte (scanner : Scanner) (char : Char) : Scanner :=
  let place := scanner.position
  { scanner.reactByte char with
    position := if char = '\n' then ⟨place.line + 1, 1⟩ else ⟨place.line, place.column + 1⟩ }

end Scanner

/-- The tokens of a text that is read byte by byte. -/
def Token.scanBytes (source : String) : Except (List Diagnostic) (List Lexeme) :=
  let chars := (Text.bytes source).map fun byte => Char.ofNat byte.toNat
  (chars.foldl Scanner.feedByte .initial).finish.result

end ScopedScript
