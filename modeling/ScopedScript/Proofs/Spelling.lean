/-
**Tokens are found again in the text that spells them.**

A token is spelled in several ways: an integer with zeros before it, a text with some characters escaped.
Between two tokens stands a gap of blanks and comments, and what it holds does not matter. A text falls into
gaps, tokens, and what no token can be made of, and the scanner finds these pieces:

* `Token.Spelled`: the ways to write a token; `Token.grows`: what would make it longer;
* `Gap`: blanks and comments, each comment with the end of its line;
* `Printed`: tokens written one after another with gaps between them;
* `Piece`: a piece of a text, with the lexeme or the problems in it; `Sliced`: a text in pieces;
* `Sliced.scan`: **scanning gives the lexemes in the pieces, or the problems in them**;
* `Token.scan_printed`: **scanning gives back the tokens that were printed**, with the end behind them.
-/

import Mathlib.Algebra.GroupWithZero.Nat
import ScopedScript.Token.Scan

namespace ScopedScript

/-! ### Writing tokens -/

/-- A character of a text as it may stand between the quotes. A tab may be escaped or not. -/
inductive Escaped : Char → List Char → Prop
  | newline : Escaped '\n' ['\\', 'n']
  | tab : Escaped '\t' ['\\', 't']
  | quote : Escaped '"' ['\\', '"']
  | backslash : Escaped '\\' ['\\', '\\']
  | raw {char : Char} : char ≠ '\n' → char ≠ '"' → char ≠ '\\' → Escaped char [char]

/-- The characters of a text as they may stand between the quotes. -/
inductive Contents : List Char → List Char → Prop
  | nil : Contents [] []
  | cons {char : Char} {chars written rest : List Char} :
      Escaped char written → Contents chars rest → Contents (char :: chars) (written ++ rest)

/-- The ways to write a token. The end of the text is not written. -/
inductive Token.Spelled : Token → List Char → Prop
  | int {value : Int64} (zeros : Nat) : 0 ≤ value →
      Spelled (.int value) (List.replicate zeros '0' ++ Nat.toDigits 10 value.toInt.toNat)
  | text {value : String} {written : List Char} : Contents value.toList written →
      Spelled (.text value) ('"' :: (written ++ ['"']))
  | name {first : Char} {rest : List Char} : first.isAlpha ∨ first = '_' →
      (∀ char ∈ rest, char.isAlphanum ∨ char = '_') →
      (∀ word : Keyword, word.spelling ≠ String.ofList (first :: rest)) →
      Spelled (.name (String.ofList (first :: rest))) (first :: rest)
  | keyword {word : Keyword} : Spelled (.keyword word) word.spelling.toList
  | mark {sign : Mark} : Spelled (.mark sign) sign.spelling.toList

/-- What may stand between tokens: blanks, and comments with the end of their line. -/
inductive Gap : List Char → Prop
  | nil : Gap []
  | blank {char : Char} {rest : List Char} : char ∈ [' ', '\t', '\r', '\n'] → Gap rest →
      Gap (char :: rest)
  | comment {body rest : List Char} : '\n' ∉ body → Gap rest → Gap ('#' :: (body ++ '\n' :: rest))

/-- Tokens written one after another, with a gap between each two of them. -/
inductive Printed : List Token → List Char → Prop
  | nil : Printed [] []
  | last {token : Token} {spelled : List Char} : token.Spelled spelled → Printed [token] spelled
  | cons {token next : Token} {others : List Token} {spelled gap rest : List Char} :
      token.Spelled spelled → Gap gap → gap ≠ [] → Printed (next :: others) rest →
      Printed (token :: next :: others) (spelled ++ (gap ++ rest))

/-! ### Pieces of a text -/

/-- The place behind `front`. Newlines count the lines, and the bytes since the last one the columns. -/
def Position.behind (front : List Char) : Position where
  line := 1 + front.count '\n'
  column := 1 + ((front.reverse.takeWhile (· ≠ '\n')).map Char.utf8Size).sum

/-- The characters that would make a token longer. -/
def Token.grows : Token → Char → Bool
  | .name _ | .keyword _ => isWordPart
  | .int _ => Char.isDigit
  | .mark .assign | .mark .less | .mark .greater => (· == '=')
  | _ => fun _ => false

/-- What comes next does not go on with what was read. -/
def Apart (goesOn : Char → Bool) (rest : List Char) : Prop := ∀ char ∈ rest.head?, goesOn char = false

/-- What may stand between the quotes, known escapes or not. -/
inductive Inside : List Char → Prop
  | nil : Inside []
  | raw {char : Char} {rest : List Char} : char ≠ '\n' → char ≠ '"' → char ≠ '\\' → Inside rest →
      Inside (char :: rest)
  | escape {char : Char} {rest : List Char} : Inside rest → Inside ('\\' :: char :: rest)

/-- The characters that no token can hold outside a text. -/
def isStray (char : Char) : Bool :=
  !isBlank char && char != '#' && char != '"' && !char.isDigit && !isWordStart char &&
    !isComparisonStart char && (Mark.ofChar? char).isNone

/-- A piece behind `front`, what comes next, and the lexeme or the problems in the piece. A token and a number
that is too large end where they cannot go on. A text ends at its closing quote, at the end of the line, or at the
end of all, where a backslash may be its last character. -/
inductive Piece (front : List Char) : List Char → List Char → List Lexeme → List Diagnostic → Prop
  | gap {written rest : List Char} : Gap written → Piece front written rest [] []
  | token {written rest : List Char} {token : Token} : token.Spelled written → Apart token.grows rest →
      Piece front written rest [⟨token, .behind front⟩] []
  | stray {char : Char} {rest : List Char} : isStray char = true →
      Piece front [char] rest [] ((byteChars char).mapIdx fun offset shown =>
        ⟨.strayCharacter shown,
          ⟨(Position.behind front).line, (Position.behind front).column + offset⟩⟩)
  | bang {rest : List Char} : Apart (· == '=') rest →
      Piece front ['!'] rest [] [⟨.bareBang, .behind front⟩]
  | large {digits rest : List Char} : digits ≠ [] → (∀ char ∈ digits, char.isDigit = true) →
      Apart Char.isDigit rest → Decimal.fit? (Decimal.value digits) = none →
      Piece front digits rest [] [⟨.integerTooLarge (String.ofList digits), .behind front⟩]
  | unclosed {body rest : List Char} : Inside body → Apart (· != '\n') rest →
      Piece front ('"' :: body) rest [] [⟨.unterminatedText, .behind front⟩]
  | hanging {body : List Char} : Inside body →
      Piece front ('"' :: (body ++ ['\\'])) [] [] [⟨.unterminatedText, .behind front⟩]
  | escape {value known body rest : List Char} {char : Char} : Contents value known →
      unescape? char = none → Inside body →
      Piece front ('"' :: (known ++ '\\' :: char :: (body ++ ['"']))) rest []
        [⟨.unknownEscape ((byteChars char).headD char), .behind (front ++ '"' :: (known ++ ['\\']))⟩]

/-- The text behind `front` in pieces. The last line may end in a comment. -/
inductive Sliced : List Char → List Char → List Lexeme → List Diagnostic → Prop
  | done {front : List Char} : Sliced front [] [] []
  | comment {front body : List Char} : '\n' ∉ body → Sliced front ('#' :: body) [] []
  | cons {front written rest : List Char} {found lexemes : List Lexeme}
      {flaws problems : List Diagnostic} : Piece front written rest found flaws →
      Sliced (front ++ written) rest lexemes problems →
      Sliced front (written ++ rest) (found ++ lexemes) (flaws ++ problems)

theorem Position.behind_concat (front : List Char) (char : Char) :
    behind (front ++ [char]) = (behind front).after char := by
  unfold behind after
  by_cases newline : char = '\n'
  · simp [newline, Nat.add_assoc]
  · simp [newline, Nat.add_assoc, Nat.add_comm char.utf8Size]

theorem Position.behind_append (front more : List Char) :
    behind (front ++ more) = (behind front).afterAll more := by
  induction more generalizing front with
  | nil => rw [List.append_nil, afterAll, List.foldl_nil]
  | cons char more ih => rw [List.append_cons, ih, behind_concat, afterAll, afterAll, List.foldl_cons]

/-! ### Characters -/

/-- The characters with which a gap begins. -/
def separators : List Char := [' ', '\t', '\r', '\n', '#']

/-- No separator goes on with a token. -/
theorem grows_separator (token : Token) {char : Char} (separates : char ∈ separators) :
    token.grows char = false := by
  have apart : ∀ char ∈ separators,
      isWordPart char = false ∧ char.isDigit = false ∧ (char == '=') = false := by
    simp only [separators, List.forall_mem_cons]
    exact ⟨by decide, by decide, by decide, by decide, by decide, nofun⟩
  obtain ⟨part, digit, equals⟩ := apart char separates
  cases token with
  | name | keyword => exact part
  | int => exact digit
  | mark sign =>
    cases sign with
    | assign | less | greater => exact equals
    | _ => rfl
  | _ => rfl

theorem Gap.head {char : Char} {rest : List Char} (gap : Gap (char :: rest)) : char ∈ separators := by
  cases gap with
  | blank inside _ => exact List.mem_append_left ['#'] inside
  | comment => decide

theorem opening_of_wordPart {char : Char} (part : isWordPart char = true) :
    isBlank char = false ∧ char ≠ '#' ∧ char ≠ '"' := by
  refine ⟨Bool.eq_false_iff.mpr fun blank => ?_, ?_, ?_⟩
  · simp only [isBlank, Bool.or_eq_true, decide_eq_true_eq] at blank
    rcases blank with ((rfl | rfl) | rfl) | rfl <;> cases part
  · rintro rfl
    cases part
  · rintro rfl
    cases part

theorem isWordPart_of_isDigit {char : Char} (digit : char.isDigit = true) :
    isWordPart char = true := by
  simp [isWordPart, Char.isAlphanum, digit]

theorem isWordPart_of_isWordStart {char : Char} (starts : isWordStart char = true) :
    isWordPart char = true := by
  simp only [isWordStart, isWordPart, Char.isAlphanum, Bool.or_eq_true] at starts ⊢
  exact starts.imp_left .inl

theorem not_isDigit_of_isWordStart {char : Char} (starts : isWordStart char = true) :
    char.isDigit = false := by
  refine Bool.eq_false_iff.mpr fun digit => ?_
  change (decide (char.val ≥ 'A'.val ∧ char.val ≤ 'Z'.val)
    || decide (char.val ≥ 'a'.val) && decide (char.val ≤ 'z'.val) || decide (char = '_')) = true
    at starts
  simp only [Bool.or_eq_true, Bool.and_eq_true, decide_eq_true_eq, UInt32.le_iff_toNat_le,
    ge_iff_le] at starts
  simp only [Char.isDigit, Bool.and_eq_true, decide_eq_true_eq, UInt32.le_iff_toNat_le] at digit
  have nine : '9'.val.toNat = 57 := rfl
  have upper : 'A'.val.toNat = 65 := rfl
  have lower : 'a'.val.toNat = 97 := rfl
  rcases starts with (letter | letter) | rfl
  · omega
  · omega
  · exact absurd digit.2 (by decide)

namespace Scanner

variable {scanner : Scanner} {char : Char} {tokens : List Token}

theorem opening_blank (blank : char ∈ [' ', '\t', '\r', '\n']) :
    scanner.opening char = { scanner with mode := .start } := by
  have blank : isBlank char = true := by
    simpa [isBlank, or_assoc] using blank
  rw [opening, if_pos blank]

theorem opening_digit (digit : char.isDigit = true) :
    scanner.opening char = { scanner with mode := .number scanner.position [char] } := by
  obtain ⟨blank, hash, quote⟩ := opening_of_wordPart (isWordPart_of_isDigit digit)
  simp [opening, blank, hash, quote, digit]

theorem opening_wordStart (starts : isWordStart char = true) :
    scanner.opening char = { scanner with mode := .word scanner.position [char] } := by
  obtain ⟨blank, hash, quote⟩ := opening_of_wordPart (isWordPart_of_isWordStart starts)
  simp [opening, blank, hash, quote, not_isDigit_of_isWordStart starts, starts]

theorem opening_stray (stray : isStray char = true) : scanner.opening char = scanner.reject char := by
  simp only [isStray, Bool.and_eq_true, Bool.not_eq_true', bne_iff_ne, Option.isNone_iff_eq_none] at stray
  obtain ⟨⟨⟨⟨⟨⟨blank, hash⟩, quote⟩, digit⟩, word⟩, comparison⟩, mark⟩ := stray
  simp [opening, blank, hash, quote, digit, word, comparison, mark]

theorem position_settle (scanner : Scanner) : scanner.settle.position = scanner.position := by
  unfold settle emit complain
  split
  · rfl
  · split <;> rfl
  · split <;> rfl
  · rfl

/-! ### Runs of characters -/

theorem feed_collected {collecting : List Char → Mode} {chars more : List Char}
    (mode : scanner.mode = collecting chars)
    (each : ∀ char ∈ more, ∀ (scanner : Scanner) (chars : List Char),
      scanner.mode = collecting chars →
        scanner.react char = { scanner with mode := collecting (char :: chars) }) :
    more.foldl feed scanner =
      { scanner with
        position := scanner.position.afterAll more
        mode := collecting (more.reverse ++ chars) } := by
  induction more generalizing scanner chars with
  | nil => simp [Position.afterAll, ← mode]
  | cons char more ih =>
    have here : scanner.feed char =
        { scanner with
          position := scanner.position.after char
          mode := collecting (char :: chars) } := by
      rw [feed, each char (.head _) scanner chars mode]
    rw [List.foldl_cons, here, ih rfl fun char inside => each char (.tail _ inside)]
    simp [Position.afterAll]

theorem feed_comment {body : List Char} (mode : scanner.mode = .comment) (inside : '\n' ∉ body) :
    body.foldl feed scanner = { scanner with position := scanner.position.afterAll body } := by
  rw [@feed_collected _ (fun _ => .comment) [] body mode fun char found scanner _ mode => ?_, ← mode]
  have other : char ≠ '\n' := fun newline => inside (newline ▸ found)
  obtain ⟨place, _, lexemes, problems⟩ := scanner
  cases mode
  exact if_neg other

theorem feed_escaped {first : Position} {chars written : List Char}
    (mode : scanner.mode = .text first chars none) (escaped : Escaped char written) :
    written.foldl feed scanner =
      { scanner with
        position := scanner.position.afterAll written
        mode := .text first (char :: chars) none } := by
  cases escaped with
  | newline | tab | quote | backslash =>
    simp [feed, react, mode, afterEscape, unescape?, Position.afterAll]
  | raw line quote backslash =>
    simp [feed, react, mode, line, quote, backslash, Position.afterAll]

theorem feed_contents {first : Position} {chars value written : List Char}
    (mode : scanner.mode = .text first chars none) (contents : Contents value written) :
    written.foldl feed scanner =
      { scanner with
        position := scanner.position.afterAll written
        mode := .text first (value.reverse ++ chars) none } := by
  induction contents generalizing scanner chars with
  | nil => simp [Position.afterAll, ← mode]
  | cons escaped _ ih =>
    rw [List.foldl_append, feed_escaped mode escaped, ih rfl]
    simp [Position.afterAll]

/-- A text stays open, and its first unknown escape stays the first. -/
theorem feed_inside {first : Position} {chars body : List Char} {bad : Option Diagnostic}
    (mode : scanner.mode = .text first chars bad) (inside : Inside body) :
    ∃ chars' bad', (∀ diagnostic, bad = some diagnostic → bad' = some diagnostic) ∧
      body.foldl feed scanner =
        { scanner with
          position := scanner.position.afterAll body
          mode := .text first chars' bad' } := by
  induction inside generalizing scanner chars bad with
  | nil => exact ⟨chars, bad, fun _ same => same, by simp [Position.afterAll, ← mode]⟩
  | @raw char rest line quote backslash _ ih =>
    have here : scanner.feed char =
        { scanner with
          position := scanner.position.after char
          mode := .text first (char :: chars) bad } := by
      simp [feed, react, mode, line, quote, backslash]
    rw [List.foldl_cons, here]
    exact ih rfl
  | @escape char rest _ ih =>
    have here : (scanner.feed '\\').feed char =
        { scanner with
          position := (scanner.position.after '\\').after char
          mode := { scanner with position := scanner.position.after '\\' }.afterEscape first chars bad char } := by
      simp [feed, react, mode, afterEscape]
    rw [List.foldl_cons, List.foldl_cons, here]
    unfold afterEscape
    cases unescape? char with
    | some plain => exact @ih _ (plain :: chars) bad rfl
    | none =>
      refine (@ih _ chars _ rfl).imp fun chars' => Exists.imp fun bad' found => ⟨?_, found.2⟩
      intro diagnostic same
      exact found.1 diagnostic (by rw [same]; rfl)

/-! ### Between tokens -/

/-- The scanner between tokens, behind `front`. -/
def between (front : List Char) (lexemes : List Lexeme) (problems : List Diagnostic) : Scanner :=
  ⟨.behind front, .start, lexemes, problems⟩

/-- The scanner at the end of the text. -/
def through (scanner : Scanner) (chars : List Char) : Scanner := (chars.foldl feed scanner).finish

theorem through_append (scanner : Scanner) (first second : List Char) :
    scanner.through (first ++ second) = (first.foldl feed scanner).through second := by
  rw [through, through, List.foldl_append]

/-- What was read ends where it does not go on. -/
theorem through_settle {rest : List Char} (start : scanner.settle.mode = .start)
    (ending : scanner.finish = scanner.settle)
    (next : ∀ char ∈ rest.head?, scanner.react char = scanner.settle.opening char) :
    scanner.through rest = scanner.settle.through rest := by
  cases rest with
  | nil =>
    have settled : scanner.settle.finish = scanner.settle := by
      generalize scanner.settle = settled at start
      rw [finish, settle, start]
    rw [through, through, List.foldl_nil, List.foldl_nil, ending, settled]
  | cons char rest =>
    have same : scanner.feed char = scanner.settle.feed char := by
      rw [feed, feed, next char rfl, position_settle, react, start]
    rw [through, through, List.foldl_cons, List.foldl_cons, same]

section Between

variable {front rest : List Char} {lexemes : List Lexeme} {problems : List Diagnostic}

theorem feed_hash {body : List Char} (inside : '\n' ∉ body) :
    ('#' :: body).foldl feed (between front lexemes problems) =
      ⟨.behind (front ++ '#' :: body), .comment, lexemes, problems⟩ := by
  rw [Position.behind_append, List.foldl_cons, feed_comment rfl inside]
  rfl

theorem feed_gap {gap : List Char} (blank : Gap gap) :
    gap.foldl feed (between front lexemes problems) = between (front ++ gap) lexemes problems := by
  induction blank generalizing front with
  | nil => rw [List.append_nil, List.foldl_nil]
  | @blank char rest blank _ ih =>
    have fed : (between front lexemes problems).feed char = between (front ++ [char]) lexemes problems := by
      rw [between, between, Position.behind_concat, feed, react, opening_blank blank]
    rw [List.append_cons, ← ih, ← fed, List.foldl_cons]
  | @comment body rest inside _ ih =>
    have line : ('#' :: body ++ ['\n']).foldl feed (between front lexemes problems) =
        between (front ++ ('#' :: body ++ ['\n'])) lexemes problems := by
      rw [List.foldl_append, feed_hash inside, ← List.append_assoc, between, Position.behind_concat]
      rfl
    have split : '#' :: (body ++ '\n' :: rest) = '#' :: body ++ ['\n'] ++ rest := by simp
    rw [split, List.foldl_append, line, ih, List.append_assoc]

/-- What a mode collects, up to where it does not go on. -/
theorem through_run {collecting : Position → List Char → Mode} {goesOn : Char → Bool} {first : Char}
    {more : List Char}
    (opens : ∀ scanner : Scanner,
      scanner.opening first = { scanner with mode := collecting scanner.position [first] })
    (collects : ∀ char ∈ more, ∀ (scanner : Scanner) (place : Position) (chars : List Char),
      scanner.mode = collecting place chars →
        scanner.react char = { scanner with mode := collecting place (char :: chars) })
    (stops : ∀ (scanner : Scanner) (place : Position) (chars : List Char),
      scanner.mode = collecting place chars →
        scanner.settle.mode = .start ∧ scanner.finish = scanner.settle ∧
          ∀ char, goesOn char = false → scanner.react char = scanner.settle.opening char)
    (apart : Apart goesOn rest) :
    (between front lexemes problems).through (first :: more ++ rest) =
      (settle ⟨.behind (front ++ first :: more), collecting (.behind front) (first :: more).reverse,
        lexemes, problems⟩).through rest := by
  have run : (first :: more).foldl feed (between front lexemes problems) =
      ⟨.behind (front ++ first :: more), collecting (.behind front) (first :: more).reverse,
        lexemes, problems⟩ := by
    have fed : (between front lexemes problems).feed first =
        ⟨(Position.behind front).after first, collecting (.behind front) [first], lexemes, problems⟩ := by
      rw [between, feed, react, opens]
    rw [List.foldl_cons, fed, Position.behind_append, List.reverse_cons]
    exact feed_collected rfl fun char inside scanner chars => collects char inside scanner _ chars
  rw [through_append, run]
  obtain ⟨start, ending, next⟩ := stops ⟨_, _, lexemes, problems⟩ _ _ rfl
  exact through_settle start ending fun char found => next char (apart char found)

theorem through_word {first : Char} {more : List Char} (starts : isWordStart first = true)
    (each : ∀ char ∈ more, isWordPart char = true) (apart : Apart isWordPart rest) :
    (between front lexemes problems).through (first :: more ++ rest) =
      (between (front ++ first :: more)
        (⟨.ofWord (String.ofList (first :: more)), .behind front⟩ :: lexemes) problems).through rest := by
  rw [@through_run _ _ _ _ .word isWordPart _ _ (fun _ => opening_wordStart starts) ?_ ?_ apart]
  · simp only [settle, List.reverse_reverse]
    rfl
  · intro char inside scanner place chars mode
    simp [react, mode, each char inside]
  · intro scanner place chars mode
    refine ⟨?_, ?_, fun char stops => ?_⟩
    · rw [settle, mode]
      rfl
    · rw [finish, mode]
    · simp [react, mode, stops]

theorem through_number {first : Char} {more : List Char}
    (each : ∀ char ∈ first :: more, char.isDigit = true) (apart : Apart Char.isDigit rest) :
    (between front lexemes problems).through (first :: more ++ rest) =
      (match Decimal.fit? (Decimal.value (first :: more)) with
        | some value => between (front ++ first :: more) (⟨.int value, .behind front⟩ :: lexemes) problems
        | none => between (front ++ first :: more) lexemes
            (⟨.integerTooLarge (String.ofList (first :: more)), .behind front⟩ :: problems)).through
          rest := by
  rw [@through_run _ _ _ _ .number Char.isDigit _ _ (fun _ => opening_digit (each first (.head _))) ?_ ?_ apart]
  · simp only [settle, List.reverse_reverse]
    cases Decimal.fit? (Decimal.value (first :: more)) <;> rfl
  · intro char inside scanner place chars mode
    simp [react, mode, each char (.tail _ inside)]
  · intro scanner place digits mode
    refine ⟨?_, ?_, fun char stops => ?_⟩
    · rw [settle, mode]
      cases fits : Decimal.fit? (Decimal.value digits.reverse) <;> simp [fits, emit, complain]
    · rw [finish, mode]
    · simp [react, mode, stops]

section Comparison

variable {sign : Char}
  (opens : ∀ scanner : Scanner,
    scanner.opening sign = { scanner with mode := .comparison scanner.position sign })

include opens

theorem through_short (apart : Apart (· == '=') rest) :
    (between front lexemes problems).through ([sign] ++ rest) =
      (match shortMark? sign with
        | some mark => between (front ++ [sign]) (⟨.mark mark, .behind front⟩ :: lexemes) problems
        | none => between (front ++ [sign]) lexemes (⟨.bareBang, .behind front⟩ :: problems)).through
          rest := by
  rw [@through_run _ _ _ _ (fun place _ => .comparison place sign) (· == '=') _ [] opens nofun ?_ apart]
  · simp only [settle]
    cases shortMark? sign <;> rfl
  · intro scanner place chars mode
    refine ⟨?_, ?_, fun char stops => ?_⟩
    · rw [settle, mode]
      cases short : shortMark? sign <;> simp [short, emit, complain]
    · rw [finish, mode]
    · have other : char ≠ '=' := beq_eq_false_iff_ne.mp stops
      simp [react, mode, other]

theorem through_long : (between front lexemes problems).through ([sign, '='] ++ rest) =
    (between (front ++ [sign, '=']) (⟨.mark (longMark sign), .behind front⟩ :: lexemes)
      problems).through rest := by
  have fed : (between front lexemes problems).feed sign =
      ⟨(Position.behind front).after sign, .comparison (.behind front) sign, lexemes, problems⟩ := by
    rw [between, feed, react, opens]
  rw [through_append, List.foldl_cons, fed, between, Position.behind_append]
  rfl

end Comparison

theorem through_mark {sign : Mark} (apart : Apart (Token.mark sign).grows rest) :
    (between front lexemes problems).through (sign.spelling.toList ++ rest) =
      (between (front ++ sign.spelling.toList) (⟨.mark sign, .behind front⟩ :: lexemes)
        problems).through rest := by
  have single (char : Char) (sign : Mark) (opens : ∀ scanner : Scanner,
      scanner.opening char = scanner.emit (.mark sign) scanner.position) :
      (between front lexemes problems).through ([char] ++ rest) =
        (between (front ++ [char]) (⟨.mark sign, .behind front⟩ :: lexemes) problems).through rest := by
    have fed : (between front lexemes problems).feed char =
        between (front ++ [char]) (⟨.mark sign, .behind front⟩ :: lexemes) problems := by
      rw [between, between, Position.behind_concat, feed, react, opens]
      rfl
    rw [through_append, List.foldl_cons, fed, List.foldl_nil]
  cases sign with
  | assign | less | greater => exact through_short (fun _ => rfl) apart
  | equal | notEqual | lessEqual | greaterEqual => exact through_long fun _ => rfl
  | _ => exact single _ _ fun _ => rfl

/-- A text was opened, and what stands in it so far is known. -/
theorem feed_known {value known : List Char} (contents : Contents value known) :
    ('"' :: known).foldl feed (between front lexemes problems) =
      ⟨.behind (front ++ '"' :: known), .text (.behind front) value.reverse none, lexemes, problems⟩ := by
  rw [List.foldl_cons, feed_contents rfl contents, List.append_nil, Position.behind_append]
  rfl

/-- A text was opened, and what stands in it is not known. -/
theorem feed_unknown {body : List Char} (inside : Inside body) :
    ∃ chars bad, ('"' :: body).foldl feed (between front lexemes problems) =
      ⟨.behind (front ++ '"' :: body), .text (.behind front) chars bad, lexemes, problems⟩ := by
  obtain ⟨chars, bad, -, fed⟩ := @feed_inside
    ⟨(Position.behind front).after '"', .text (.behind front) [] none, lexemes, problems⟩ _ _ _ _ rfl inside
  rw [Position.behind_append]
  exact ⟨chars, bad, fed⟩

end Between

end Scanner

theorem Token.ofWord_spelling (word : Keyword) : Token.ofWord word.spelling = .keyword word := by
  cases word <;> decide

theorem Token.ofWord_name {name : String} (other : ∀ word : Keyword, word.spelling ≠ name) :
    Token.ofWord name = .name name := by
  have nothing : Keyword.all.find? (fun reserved => reserved.spelling == name) = none := by
    simp [List.find?_eq_none, other]
  rw [ofWord, nothing]

theorem Keyword.spelling_eq (word : Keyword) : ∃ first rest, word.spelling.toList = first :: rest ∧
    isWordStart first = true ∧ ∀ char ∈ rest, isWordPart char = true := by
  cases word <;> exact ⟨_, _, rfl, by decide, List.all_eq_true.mp (by decide)⟩

theorem Decimal.value_eq (digits : List Char) : Decimal.value digits = Nat.ofDigitChars 10 digits 0 := by
  simp only [Decimal.value, Nat.ofDigitChars, Decimal.digit, Nat.mul_comm]

theorem Decimal.value_toDigits (zeros number : Nat) :
    Decimal.value (List.replicate zeros '0' ++ Nat.toDigits 10 number) = number := by
  have nothing : (List.replicate zeros '0').foldl
      (fun sum char => 10 * sum + (char.toNat - '0'.toNat)) 0 = 0 := by
    induction zeros with
    | zero => rfl
    | succ zeros ih =>
      rw [List.replicate_succ, List.foldl_cons]
      exact ih
  rw [Decimal.value_eq, Nat.ofDigitChars, List.foldl_append, nothing]
  exact Nat.ofDigitChars_ten_toDigits

theorem Decimal.fit?_toInt (value : Int64) : Decimal.fit? value.toInt = some value := by
  rw [Decimal.fit?, if_pos ⟨value.minValue_le_toInt, value.toInt_le⟩, Int64.ofInt_toInt]

namespace Scanner

variable {front rest : List Char} {lexemes : List Lexeme} {problems : List Diagnostic}

/-- **A token is found in what spells it.** -/
theorem through_spelled {token : Token} {chars : List Char} (spelled : token.Spelled chars)
    (apart : Apart token.grows rest) :
    (between front lexemes problems).through (chars ++ rest) =
      (between (front ++ chars) (⟨token, .behind front⟩ :: lexemes) problems).through rest := by
  cases spelled with
  | @int value zeros natural =>
    obtain ⟨first, more, written⟩ := List.exists_cons_of_ne_nil
      (List.append_ne_nil_of_right_ne_nil (List.replicate zeros '0')
        (@Nat.toDigits_ne_nil value.toInt.toNat 10))
    have digits : ∀ char ∈ first :: more, char.isDigit = true := by
      intro char inside
      rw [← written] at inside
      rcases List.mem_append.mp inside with zero | digit
      · rw [List.eq_of_mem_replicate zero]
        rfl
      · exact Nat.isDigit_of_mem_toDigits (by decide) (by decide) digit
    have whole : ((value.toInt.toNat : Nat) : Int) = value.toInt :=
      Int.toNat_of_nonneg (Int64.le_iff_toInt_le.mp natural)
    have fits : Decimal.fit? (Decimal.value (first :: more)) = some value := by
      rw [← written, Decimal.value_toDigits, whole, Decimal.fit?_toInt]
    rw [written, through_number digits apart, fits]
  | @text value written contents =>
    rw [← List.cons_append, through_append, List.foldl_append, feed_known contents, ← List.append_assoc, between,
      Position.behind_concat]
    simp [feed, react, closeText, emit]
  | @name first more starts each other =>
    rw [← Token.ofWord_name other]
    refine through_word ?_ (fun char inside => ?_) apart
    · simpa [isWordStart] using starts
    · simpa [isWordPart] using each char inside
  | @keyword word =>
    obtain ⟨first, more, written, starts, each⟩ := word.spelling_eq
    have same : Token.ofWord (String.ofList (first :: more)) = .keyword word := by
      rw [← written, String.ofList_toList, Token.ofWord_spelling]
    rw [← same, written]
    exact through_word starts each apart
  | mark => exact through_mark apart

/-- **What is in a piece is found in it.** -/
theorem through_piece {written : List Char} {found : List Lexeme} {flaws : List Diagnostic}
    (piece : Piece front written rest found flaws) :
    (between front lexemes problems).through (written ++ rest) =
      (between (front ++ written) (found.reverse ++ lexemes) (flaws.reverse ++ problems)).through rest := by
  cases piece with
  | gap blank =>
    rw [through_append, feed_gap blank]
    rfl
  | token spelled apart => exact through_spelled spelled apart
  | stray stray =>
    rw [through_append, between, between, Position.behind_concat, List.foldl_cons, feed, react,
      opening_stray stray]
    rfl
  | bang apart => exact through_short (fun _ => rfl) apart
  | @large digits _ some each apart fits =>
    obtain ⟨first, more, rfl⟩ := List.exists_cons_of_ne_nil some
    rw [through_number each apart, fits]
    rfl
  | @unclosed body _ inside apart =>
    obtain ⟨chars, bad, fed⟩ := @feed_unknown front lexemes problems body inside
    rw [through_append, fed]
    cases rest with
    | nil => rfl
    | cons char rest =>
      obtain rfl : char = '\n' := by simpa using apart char rfl
      rfl
  | @hanging body inside =>
    obtain ⟨chars, bad, fed⟩ := @feed_unknown front lexemes problems body inside
    rw [← List.cons_append, through_append, List.foldl_append, fed, ← List.append_assoc, between,
      Position.behind_concat]
    rfl
  | @escape value known body _ char contents unknown inside =>
    have met : ('"' :: known ++ ['\\', char]).foldl feed (between front lexemes problems) =
        ⟨.behind (front ++ ('"' :: known ++ ['\\', char])), .text (.behind front) value.reverse
          (some ⟨.unknownEscape ((byteChars char).headD char), .behind (front ++ ('"' :: known ++ ['\\']))⟩),
          lexemes, problems⟩ := by
      rw [List.foldl_append, feed_known contents, ← List.append_assoc, ← List.append_assoc,
        Position.behind_append _ ['\\', char], Position.behind_concat]
      simp [feed, react, afterEscape, unknown, Position.afterAll]
    obtain ⟨chars, bad, keeps, fed⟩ := feed_inside (congrArg Scanner.mode met) inside
    have split : '"' :: (known ++ '\\' :: char :: (body ++ ['"'])) =
        '"' :: known ++ ['\\', char] ++ body ++ ['"'] := by simp
    rw [split, through_append, List.foldl_append, List.foldl_append, fed, met, keeps _ rfl,
      ← Position.behind_append, List.append_assoc front, ← List.append_assoc front _ ['"'], between,
      Position.behind_concat]
    rfl

end Scanner

/-! ### Whole texts -/

/-- At the end of the text, the scanner has found what is in the pieces. -/
theorem Sliced.through {front chars : List Char} {lexemes : List Lexeme} {problems : List Diagnostic}
    (sliced : Sliced front chars lexemes problems) (found : List Lexeme) (known : List Diagnostic) :
    ∃ mode, (Scanner.between front found known).through chars =
      ⟨.behind (front ++ chars), mode, lexemes.reverse ++ found, problems.reverse ++ known⟩ := by
  induction sliced generalizing found known with
  | done =>
    rw [List.append_nil]
    exact ⟨.start, rfl⟩
  | comment inside =>
    rw [Scanner.through, Scanner.feed_hash inside]
    exact ⟨.comment, rfl⟩
  | cons piece _ ih =>
    obtain ⟨mode, ended⟩ := ih (_ ++ found) (_ ++ known)
    refine ⟨mode, ?_⟩
    rw [Scanner.through_piece piece, ended]
    simp

/-- **Scanning gives the lexemes in the pieces and the end of the text, or the problems in the pieces.** -/
theorem Sliced.scan {source : String} {lexemes : List Lexeme} {problems : List Diagnostic}
    (sliced : Sliced [] source.toList lexemes problems) :
    Token.scan source = if problems.isEmpty then
      .ok (lexemes ++ [⟨.eof, .behind source.toList⟩]) else .error problems := by
  obtain ⟨mode, ended⟩ := sliced.through [] []
  rw [List.nil_append, List.append_nil, List.append_nil] at ended
  have final : (source.toList.foldl Scanner.feed .initial).finish =
      ⟨.behind source.toList, mode, lexemes.reverse, problems.reverse⟩ := ended
  rw [Token.scan, final]
  simp [Scanner.result]

/-- Printed tokens are the only pieces besides gaps. -/
theorem Printed.sliced {tokens : List Token} {chars after : List Char} (printed : Printed tokens chars)
    (front : List Char) (closing : Gap after) :
    ∃ lexemes, Sliced front (chars ++ after) lexemes [] ∧ lexemes.map Lexeme.token = tokens := by
  have last (front : List Char) : Sliced front after [] [] := by
    have sliced := Sliced.cons (.gap closing) (@Sliced.done (front ++ after))
    rwa [List.append_nil] at sliced
  have apart (token : Token) {gap rest : List Char} (blank : Gap gap) (some : gap ≠ [] ∨ rest = []) :
      Apart token.grows (gap ++ rest) := by
    intro char next
    cases gap with
    | nil => simp_all
    | cons first more =>
      cases next
      exact grows_separator token blank.head
  induction printed generalizing front with
  | nil => exact ⟨[], last front, rfl⟩
  | @last token _ spelled =>
    have ends := apart token closing (.inr rfl)
    rw [List.append_nil] at ends
    exact ⟨[_], .cons (.token spelled ends) (last _), rfl⟩
  | @cons token _ _ spelled gap rest written blank some _ ih =>
    obtain ⟨lexemes, sliced, found⟩ := ih (front ++ spelled ++ gap)
    rw [List.append_assoc, List.append_assoc]
    refine ⟨_ :: lexemes, .cons (.token written (apart token blank (.inl some))) (.cons (.gap blank) sliced), ?_⟩
    rw [List.map_cons, found]

/-- **Scanning gives back the tokens that were printed**, with the end of the text behind them, whatever
ways of spelling and whatever gaps were chosen. Gaps may also stand before and behind all tokens. -/
theorem Token.scan_printed {tokens : List Token} {before chars after : List Char} (opening : Gap before)
    (printed : Printed tokens chars) (closing : Gap after) :
    ∃ lexemes, Token.scan (String.ofList (before ++ (chars ++ after))) = .ok lexemes ∧
      lexemes.map Lexeme.token = tokens ++ [.eof] := by
  obtain ⟨lexemes, sliced, found⟩ := printed.sliced before closing
  have sliced := @Sliced.cons [] before _ _ _ _ _ (.gap opening) sliced
  rw [← @String.toList_ofList (before ++ (chars ++ after))] at sliced
  refine ⟨_, sliced.scan, ?_⟩
  rw [List.nil_append, List.map_append, found]
  rfl

/-- Leading zeros, escapes and a comment. -/
def spelledTokens : List Token :=
  [.int 7, .text "\t\"é\n", .mark .assign, .keyword .not_, .name "_x1"]

/-- One way to write them. -/
def spelledChars : List Char := "007 \"\t\\\"é\\n\"#é=\n=\rnot\n _x1".toList

theorem Token.scan_printed_spelled :
    Printed spelledTokens spelledChars ∧
      ∃ lexemes, Token.scan (String.ofList (spelledChars ++ ['\t'])) = .ok lexemes ∧
        lexemes.map Lexeme.token = spelledTokens ++ [.eof] := by
  have seven : Token.Spelled (.int 7) ['0', '0', '7'] := .int 2 (by decide)
  have contents : Contents "\t\"é\n".toList ['\t', '\\', '"', 'é', '\\', 'n'] :=
    .cons (.raw (by decide) (by decide) (by decide))
      (.cons .quote (.cons (.raw (by decide) (by decide) (by decide)) (.cons .newline .nil)))
  have quoted : Token.Spelled (.text "\t\"é\n") "\"\t\\\"é\\n\"".toList := .text contents
  have parts : ∀ char ∈ ['x', '1'], char.isAlphanum = true ∨ char = '_' :=
    List.forall_mem_cons.mpr ⟨by decide, List.forall_mem_singleton.mpr (by decide)⟩
  have named : Token.Spelled (.name "_x1") ['_', 'x', '1'] :=
    .name (.inr rfl) parts (by intro word; cases word <;> decide)
  have printed : Printed spelledTokens spelledChars :=
    .cons seven (.blank (by decide) .nil) (by decide)
      (.cons quoted (@Gap.comment ['é', '='] [] (by decide) .nil) (by decide)
        (.cons .mark (.blank (by decide) .nil) (by decide)
          (.cons .keyword (.blank (by decide) (.blank (by decide) .nil)) (by decide) (.last named))))
  have tab : Gap ['\t'] := .blank (by decide) .nil
  have scanned := Token.scan_printed .nil printed tab
  rw [List.nil_append] at scanned
  exact ⟨printed, scanned⟩

end ScopedScript
