/-
**Lines are scanned one by one.**

A newline ends whatever the scanner is in the middle of, just as the end of the text does, so the lines
below it are scanned as a text of their own that stands further down. The one exception is a text that is
still open at the end of a line and whose last character is a backslash: the backslash takes the newline,
and the text goes on in the next line:

* `Scanner.below`: a scanner with lines above it, and what was found there;
* `Scanner.feed_below`, `Scanner.finish_below`: what stands above changes nothing but places;
* `Scanner.feed_newline`: except behind a backslash, a newline ends what the end of the text would end;
* `Token.joined`: the lexemes of two texts, or the problems of both;
* `Token.scan_lines`: **two texts with a newline between them are scanned one after the other, whatever the
  second is, exactly if the first does not end behind a backslash in an open text.**
-/

import ScopedScript.Token.Scan

namespace ScopedScript

/-! ### Further down -/

/-- The same place, so many lines further down. -/
def Position.below (lines : Nat) (place : Position) : Position := ⟨lines + place.line, place.column⟩

/-- The same lexeme, so many lines further down. -/
def Lexeme.below (lines : Nat) (lexeme : Lexeme) : Lexeme :=
  ⟨lexeme.token, lexeme.position.below lines⟩

/-- The same diagnostic, so many lines further down. -/
def Diagnostic.below (lines : Nat) (diagnostic : Diagnostic) : Diagnostic :=
  ⟨diagnostic.problem, diagnostic.position.below lines⟩

/-- The same mode, so many lines further down. -/
def Mode.below (lines : Nat) : Mode → Mode
  | .start => .start
  | .comment => .comment
  | .word first chars => .word (first.below lines) chars
  | .number first digits => .number (first.below lines) digits
  | .comparison first char => .comparison (first.below lines) char
  | .text first chars bad => .text (first.below lines) chars (bad.map (Diagnostic.below lines))
  | .escape first chars bad => .escape (first.below lines) chars (bad.map (Diagnostic.below lines))

theorem Position.after_below (lines : Nat) (place : Position) (char : Char) :
    (place.below lines).after char = (place.after char).below lines := by
  unfold after below
  split <;> rfl

theorem Position.line_afterAll (place : Position) (chars : List Char) :
    (place.afterAll chars).line = place.line + chars.count '\n' := by
  induction chars generalizing place with
  | nil => rfl
  | cons char rest ih =>
    rw [afterAll, List.foldl_cons, ← afterAll, ih, List.count_cons]
    unfold after
    by_cases newline : char = '\n'
    · simp only [newline, if_true, beq_self_eq_true]
      omega
    · simp only [newline, if_false, beq_iff_eq, Nat.add_zero]

namespace Scanner

/-- A scanner that stands `lines` further down, below where `above` has found something. -/
def below (above : Scanner) (lines : Nat) (scanner : Scanner) : Scanner where
  position := scanner.position.below lines
  mode := scanner.mode.below lines
  lexemes := scanner.lexemes.map (Lexeme.below lines) ++ above.lexemes
  problems := scanner.problems.map (Diagnostic.below lines) ++ above.problems

variable (above : Scanner) (lines : Nat) (scanner : Scanner)

/-! ### What stands above does not matter -/

/-- Every byte of a stray character is reported in its own column. -/
theorem reject_below (char : Char) :
    (below above lines scanner).reject char = below above lines (scanner.reject char) := by
  have reports : (byteChars char).mapIdx (fun offset shown =>
        (⟨.strayCharacter shown, ⟨lines + scanner.position.line, scanner.position.column + offset⟩⟩ :
          Diagnostic)) =
      ((byteChars char).mapIdx fun offset shown =>
        (⟨.strayCharacter shown, ⟨scanner.position.line, scanner.position.column + offset⟩⟩ :
          Diagnostic)).map (Diagnostic.below lines) := by
    rw [List.mapIdx_eq_zipIdx_map, List.mapIdx_eq_zipIdx_map, List.map_map]
    rfl
  simp only [reject, below, Position.below, Mode.below, List.map_append, List.map_reverse, reports,
    List.append_assoc]

theorem opening_below (char : Char) :
    (below above lines scanner).opening char = below above lines (scanner.opening char) := by
  unfold opening
  split
  · rfl
  split
  · rfl
  split
  · rfl
  split
  · rfl
  split
  · rfl
  split
  · rfl
  cases Mark.ofChar? char with
  | some mark => rfl
  | none => exact reject_below above lines scanner char

theorem settle_below :
    (below above lines scanner).settle = below above lines scanner.settle := by
  obtain ⟨position, mode, lexemes, problems⟩ := scanner
  cases mode with
  | number first digits =>
    simp only [settle, below, Mode.below]
    cases Decimal.fit? (Decimal.value digits.reverse) <;> rfl
  | comparison first char =>
    simp only [settle, below, Mode.below]
    cases shortMark? char <;> rfl
  | _ => rfl

theorem closeText_below (first : Position) (chars : List Char) (bad : Option Diagnostic) :
    (below above lines scanner).closeText (first.below lines) chars
        (bad.map (Diagnostic.below lines)) =
      below above lines (scanner.closeText first chars bad) := by
  cases bad <;> rfl

theorem afterEscape_below (first : Position) (chars : List Char) (bad : Option Diagnostic)
    (char : Char) :
    (below above lines scanner).afterEscape (first.below lines) chars
        (bad.map (Diagnostic.below lines)) char =
      (scanner.afterEscape first chars bad char).below lines := by
  unfold afterEscape
  cases unescape? char with
  | some plain => rfl
  | none => cases bad <;> rfl

/-- A word, a number or a short mark ends before a character, and the character opens the next. -/
theorem settle_opening_below (char : Char) :
    (below above lines scanner).settle.opening char =
      below above lines (scanner.settle.opening char) := by
  rw [settle_below, opening_below]

theorem react_below (char : Char) :
    (below above lines scanner).react char = below above lines (scanner.react char) := by
  have settled := settle_opening_below above lines scanner char
  obtain ⟨position, mode, lexemes, problems⟩ := scanner
  cases mode with
  | start => exact opening_below above lines _ char
  | comment =>
    simp only [react, below, Mode.below]
    split <;> rfl
  | word | number | comparison =>
    simp only [react, below, Mode.below] at settled ⊢
    split
    · rfl
    · exact settled
  | text first chars bad =>
    have closed := closeText_below above lines ⟨position, .text first chars bad, lexemes, problems⟩
      first chars bad
    simp only [react, below, Mode.below] at closed ⊢
    split
    · rfl
    split
    · exact closed
    split <;> rfl
  | escape first chars bad =>
    have escaped := afterEscape_below above lines ⟨position, .escape first chars bad, lexemes, problems⟩
      first chars bad char
    simp only [react, below, Mode.below] at escaped ⊢
    rw [escaped]

/-- **A character has the same effect**, whatever stands above. -/
theorem feed_below (char : Char) :
    (below above lines scanner).feed char = below above lines (scanner.feed char) := by
  unfold feed
  rw [react_below]
  simp only [below, Position.after_below]

theorem foldl_feed_below (chars : List Char) :
    chars.foldl feed (below above lines scanner) = below above lines (chars.foldl feed scanner) := by
  induction chars generalizing scanner with
  | nil => rfl
  | cons char rest ih => rw [List.foldl_cons, feed_below, ih, List.foldl_cons]

/-- **The end of the text has the same effect**, whatever stands above. -/
theorem finish_below :
    (below above lines scanner).finish = below above lines scanner.finish := by
  have settled := settle_below above lines scanner
  obtain ⟨position, mode, lexemes, problems⟩ := scanner
  cases mode with
  | text | escape => rfl
  | start | comment | word | number | comparison => exact settled

/-! ### The end of a line -/

/-- The scanner stands right behind a backslash in a text. -/
def escaping : Bool :=
  match scanner.mode with
  | .escape _ _ _ => true
  | _ => false

/-- **A newline ends what the end of the text would end**, except behind a backslash in a text. -/
theorem feed_newline (plain : scanner.escaping = false) :
    scanner.feed '\n' = below scanner.finish scanner.position.line .initial := by
  obtain ⟨position, mode, lexemes, problems⟩ := scanner
  cases mode with
  | escape => cases plain
  | number first digits =>
    simp only [feed, react, finish, settle]
    cases Decimal.fit? (Decimal.value digits.reverse) <;> rfl
  | comparison first char =>
    simp only [feed, react, finish, settle]
    cases shortMark? char <;> rfl
  | _ => rfl

theorem position_foldl (chars : List Char) :
    (chars.foldl feed scanner).position = scanner.position.afterAll chars := by
  induction chars generalizing scanner with
  | nil => rfl
  | cons char rest ih => exact ih (scanner.feed char)

end Scanner

/-! ### Texts -/

namespace Token

/-- The scanner behind the last character of a text. -/
def readThrough (text : String) : Scanner := text.toList.foldl Scanner.feed .initial

/-- How many lines a text has. -/
def lineCount (text : String) : Nat := text.toList.count '\n' + 1

/-- The problems of a text that was scanned. -/
def problemsOf : Except (List Diagnostic) (List Lexeme) → List Diagnostic
  | .ok _ => []
  | .error problems => problems

/-- What scanning gives for two texts, one below the other: the lexemes of the first without its end and
those of the second, or the problems of both. The first text has so many `lines`. -/
def joined (lines : Nat) :
    Except (List Diagnostic) (List Lexeme) → Except (List Diagnostic) (List Lexeme) →
      Except (List Diagnostic) (List Lexeme)
  | .ok upper, .ok lower => .ok (upper.dropLast ++ lower.map (Lexeme.below lines))
  | upper, lower => .error (problemsOf upper ++ (problemsOf lower).map (Diagnostic.below lines))

theorem line_readThrough (text : String) : (readThrough text).position.line = lineCount text := by
  rw [readThrough, Scanner.position_foldl, Position.line_afterAll, lineCount, Nat.add_comm]
  rfl

/-- Unless the first text ends behind a backslash in an open text, scanning goes on below it as from the
start. -/
theorem readThrough_lines {upper : String} (plain : (readThrough upper).escaping = false)
    (lower : String) :
    readThrough (upper ++ "\n" ++ lower) =
      Scanner.below (readThrough upper).finish (lineCount upper) (readThrough lower) := by
  have split : (upper ++ "\n" ++ lower).toList = upper.toList ++ '\n' :: lower.toList := by simp
  rw [readThrough, split, List.foldl_append, List.foldl_cons, ← readThrough,
    Scanner.feed_newline _ plain, Scanner.foldl_feed_below, line_readThrough, ← readThrough]

theorem scan_eq (text : String) : scan text = (readThrough text).finish.result := rfl

theorem result_below (above final : Scanner) (lines : Nat) :
    (Scanner.below above lines final).result = joined lines above.result final.result := by
  obtain ⟨_, _, upper, worse⟩ := above
  obtain ⟨_, _, lower, bad⟩ := final
  cases bad <;> cases worse <;>
    simp [Scanner.result, Scanner.below, joined, problemsOf, Lexeme.below]

/-- Behind a backslash in an open text, a newline is an unknown escape, and a quote below it still closes the
text. By itself, each of the two lines has a text that is not closed. -/
theorem scan_escaped {upper : String} (escaped : (readThrough upper).escaping = true) :
    (problemsOf (scan (upper ++ "\n" ++ "\""))).length = (problemsOf (scan upper)).length ∧
      (problemsOf (scan "\"")).length = 1 := by
  have split : (upper ++ "\n" ++ "\"").toList = upper.toList ++ ['\n', '"'] := by simp
  have whole : readThrough (upper ++ "\n" ++ "\"") = ((readThrough upper).feed '\n').feed '"' := by
    rw [readThrough, split, List.foldl_append]
    rfl
  refine ⟨?_, by decide⟩
  rw [scan_eq, scan_eq, whole]
  generalize readThrough upper = scanner at escaped
  obtain ⟨position, mode, lexemes, problems⟩ := scanner
  cases mode with
  | escape first chars bad => cases bad <;> simp [Scanner.result, problemsOf, Scanner.feed, Scanner.react,
      Scanner.afterEscape, unescape?, Scanner.closeText, Scanner.complain, Scanner.finish,
      Scanner.settle]
  | _ => cases escaped

/-- **Lines are scanned one by one.** A text and any other below it are scanned one after the other, with the
lines of the second counted on, exactly if the first does not end behind a backslash in an open text. So no
other state of the scanner lets a problem of one line hide or change what is found in the lines below. -/
theorem scan_lines (upper : String) :
    (∀ lower, scan (upper ++ "\n" ++ lower) = joined (lineCount upper) (scan upper) (scan lower)) ↔
      (readThrough upper).escaping = false := by
  constructor
  · intro law
    refine Bool.eq_false_iff.mpr fun escaped => ?_
    obtain ⟨same, one⟩ := scan_escaped escaped
    have counted : (problemsOf (scan (upper ++ "\n" ++ "\""))).length =
        (problemsOf (scan upper)).length + 1 := by
      rw [law "\""]
      cases lower : scan "\"" with
      | ok => simp [lower, problemsOf] at one
      | error problems =>
        rw [lower] at one
        have listed : joined (lineCount upper) (scan upper) (.error problems) =
            .error (problemsOf (scan upper) ++ problems.map (Diagnostic.below (lineCount upper))) := by
          cases scan upper <;> rfl
        rw [listed]
        simpa [problemsOf] using one
    omega
  · intro plain lower
    rw [scan_eq, readThrough_lines plain, Scanner.finish_below, result_below]
    rfl

/-- A line that ends in a backslash in an open text, over a line without any problem: the text is closed by
the quote that opens a text in the second line, and the quote that closes that one opens another. -/
theorem scan_lines_escaped :
    problemsOf (scan ("s = \"abc\\" ++ "\n" ++ "t = \"def\"")) =
      [⟨.unknownEscape '\n', ⟨1, 10⟩⟩, ⟨.unterminatedText, ⟨2, 9⟩⟩] ∧
    problemsOf (scan "s = \"abc\\") = [⟨.unterminatedText, ⟨1, 5⟩⟩] ∧
    problemsOf (scan "t = \"def\"") = [] ∧
    scan ("s = \"abc\\" ++ "\n" ++ "t = \"def\"") ≠
      joined (lineCount "s = \"abc\\") (scan "s = \"abc\\") (scan "t = \"def\"") := by
  have whole : problemsOf (scan ("s = \"abc\\" ++ "\n" ++ "t = \"def\"")) =
      [⟨.unknownEscape '\n', ⟨1, 10⟩⟩, ⟨.unterminatedText, ⟨2, 9⟩⟩] := by decide +kernel
  have apart : problemsOf (joined (lineCount "s = \"abc\\") (scan "s = \"abc\\")
      (scan "t = \"def\"")) = [⟨.unterminatedText, ⟨1, 5⟩⟩] := by decide +kernel
  refine ⟨whole, by decide +kernel, by decide +kernel, fun same => ?_⟩
  rw [same, apart] at whole
  cases whole

end Token

end ScopedScript
