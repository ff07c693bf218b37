/-
**Reading bytes is reading characters.**

An ASCII character is one byte, and any other character has only bytes beyond ASCII. No token but a text holds such
a byte, and between quotes the bytes of a character stay together:

* `Text.bytes_eq_flatMap`, `Text.le_of_mem_utf8EncodeChar`: a text as the bytes of its characters;
* `Scanner.Coded`: one scanner has read the characters and the other one their bytes;
* `Scanner.Coded.feed`: a character and its bytes keep this;
* `Token.scanBytes_eq`: **a text has the same tokens and problems when it is read byte by byte**, so what is
  decoded at a closing quote is always a text.
-/

import ScopedScript.Proofs.Spelling
import ScopedScript.Token.Bytes

namespace ScopedScript

variable {char : Char}

/-! ### Texts as bytes -/

namespace Text

theorem bytes_append (first second : String) : bytes (first ++ second) = bytes first ++ bytes second := by
  rw [bytes, String.toByteArray_append, ByteArray.data_append, Array.toList_append]
  rfl

theorem bytes_eq_flatMap (text : String) : bytes text = text.toList.flatMap String.utf8EncodeChar := by
  rw [bytes, ← String.utf8Encode_toList]
  exact congrArg Array.toList List.data_toByteArray

theorem fromUTF8?_bytes (text : String) : String.fromUTF8? ⟨(bytes text).toArray⟩ = some text :=
  dif_pos text.isValidUTF8

theorem utf8EncodeChar_of_lt (low : char.toNat < 128) :
    String.utf8EncodeChar char = [char.toNat.toUInt8] :=
  String.utf8EncodeChar_eq_singleton
    (Char.utf8Size_eq_one_iff.mpr (UInt32.le_iff_toNat_le.mpr (Nat.le_of_lt_succ low)))

theorem le_of_mem_utf8EncodeChar {byte : UInt8} (high : 128 ≤ char.toNat)
    (member : byte ∈ String.utf8EncodeChar char) : 128 ≤ byte.toNat := by
  have more : char.utf8Size ≠ 1 := by
    intro one
    have low : char.toNat ≤ 127 := UInt32.le_iff_toNat_le.mp (Char.utf8Size_eq_one_iff.mp one)
    omega
  have sizes : char.utf8Size = 2 ∨ char.utf8Size = 3 ∨ char.utf8Size = 4 := by
    have least := char.utf8Size_pos
    have most := char.utf8Size_le_four
    omega
  have large : ∃ low high : UInt8, byte = low ||| high ∧ 128 ≤ high.toNat := by
    rcases sizes with two | three | four
    · simp only [String.utf8EncodeChar_eq_cons_cons two, List.mem_cons, List.not_mem_nil, or_false] at member
      rcases member with rfl | rfl <;> exact ⟨_, _, rfl, by decide⟩
    · simp only [String.utf8EncodeChar_eq_cons_cons_cons three, List.mem_cons, List.not_mem_nil,
        or_false] at member
      rcases member with rfl | rfl | rfl <;> exact ⟨_, _, rfl, by decide⟩
    · simp only [String.utf8EncodeChar_eq_cons_cons_cons_cons four, List.mem_cons, List.not_mem_nil,
        or_false] at member
      rcases member with rfl | rfl | rfl | rfl <;> exact ⟨_, _, rfl, by decide⟩
  obtain ⟨low, high, rfl, large⟩ := large
  rw [UInt8.toNat_or]
  exact Nat.le_trans large Nat.right_le_or

end Text

/-! ### Bytes as characters -/

theorem byteChars_of_lt (low : char.toNat < 128) : byteChars char = [char] := by
  rw [byteChars, Text.utf8EncodeChar_of_lt low, List.map_singleton]
  have same : char.toNat.toUInt8.toNat = char.toNat := Nat.mod_eq_of_lt (by omega)
  rw [same, Char.ofNat_toNat]

theorem toNat_ofNat_byte (byte : UInt8) : (Char.ofNat byte.toNat).toNat = byte.toNat := by
  have small : byte.toNat < 256 := byte.toNat_lt
  rw [Char.ofNat, dif_pos (.inl (by omega))]
  rfl

theorem le_of_mem_byteChars {shown : Char} (high : 128 ≤ char.toNat) (member : shown ∈ byteChars char) :
    128 ≤ shown.toNat := by
  obtain ⟨byte, inside, rfl⟩ := List.mem_map.mp member
  rw [toNat_ofNat_byte]
  exact Text.le_of_mem_utf8EncodeChar high inside

theorem ne_of_le {other : Char} (high : 128 ≤ char.toNat) (low : other.toNat < 128) : char ≠ other := by
  rintro rfl
  omega

theorem isStray_of_le (high : 128 ≤ char.toNat) : isStray char = true := by
  have mark : Mark.ofChar? char = none := by
    unfold Mark.ofChar?
    split
    all_goals first | rfl | exact absurd high (by decide)
  have beyond {last : Char} (low : last.toNat < 128) : ¬ char.val ≤ last.val := fun inside =>
    absurd (UInt32.le_iff_toNat_le.mp inside) (Nat.not_le.mpr (Nat.lt_of_lt_of_le low high))
  have digit : char.isDigit = false := by
    change (decide (_ ≥ '0'.val) && decide (_ ≤ '9'.val)) = false
    simp only [beyond (show '9'.toNat < 128 by decide), decide_false, Bool.and_false]
  have letter : char.isAlpha = false := by
    change (decide (_ ≥ 'A'.val ∧ _ ≤ 'Z'.val) || decide (_ ≥ 'a'.val) && decide (_ ≤ 'z'.val)) = false
    simp only [beyond (show 'Z'.toNat < 128 by decide), beyond (show 'z'.toNat < 128 by decide), and_false,
      decide_false, Bool.and_false, Bool.or_false]
  simp (disch := decide) [isStray, isBlank, isWordStart, isComparisonStart, mark, digit, letter, ne_of_le high]

namespace Scanner

/-- The bytes of a text are read back as the text. -/
theorem decode_byteChars (chars : List Char) : decode (chars.flatMap byteChars) = String.ofList chars := by
  have bytes : (chars.flatMap byteChars).map (fun char => char.toNat.toUInt8) =
      Text.bytes (String.ofList chars) := by
    have each (char : Char) : (byteChars char).map (fun shown => shown.toNat.toUInt8) =
        String.utf8EncodeChar char := by
      simp [byteChars, Function.comp_def, toNat_ofNat_byte]
    simp only [Text.bytes_eq_flatMap, String.toList_ofList, List.map_flatMap, each]
  rw [decode, bytes, Text.fromUTF8?_bytes]
  rfl

/-- What one scanner is in the middle of after characters, and the other one after their bytes. Inside a text that is
going to be a problem, they need not have kept the same. -/
inductive CodedMode : Mode → Mode → Prop
  | start : CodedMode .start .start
  | comment : CodedMode .comment .comment
  | word {first : Position} {chars : List Char} : CodedMode (.word first chars) (.word first chars)
  | number {first : Position} {digits : List Char} : CodedMode (.number first digits) (.number first digits)
  | comparison {first : Position} {sign : Char} :
      CodedMode (.comparison first sign) (.comparison first sign)
  | text {first : Position} {chars coded : List Char} {bad : Option Diagnostic} :
      (bad = none → coded.reverse = chars.reverse.flatMap byteChars) →
      CodedMode (.text first chars bad) (.text first coded bad)
  | escape {first : Position} {chars coded : List Char} {bad : Option Diagnostic} :
      (bad = none → coded.reverse = chars.reverse.flatMap byteChars) →
      CodedMode (.escape first chars bad) (.escape first coded bad)

/-- One scanner has read characters, and the other one their bytes. -/
inductive Coded : Scanner → Scanner → Prop
  | intro {position : Position} {mode other : Mode} {lexemes : List Lexeme} {problems : List Diagnostic} :
      CodedMode mode other → Coded ⟨position, mode, lexemes, problems⟩ ⟨position, other, lexemes, problems⟩

variable {scanner bytewise : Scanner}

theorem opening_coded (scanner : Scanner) (char : Char) :
    CodedMode (scanner.opening char).mode (scanner.opening char).mode := by
  unfold opening
  split
  · exact .start
  split
  · exact .comment
  split
  · exact .text fun _ => rfl
  split
  · exact .number
  split
  · exact .word
  split
  · exact .comparison
  split
  · exact .start
  · exact .start

theorem Coded.moved (coded : Coded scanner bytewise) (position : Position) :
    Coded { scanner with position := position } { bytewise with position := position } := by
  cases coded with
  | intro mode => exact .intro mode

theorem reactByte_coded (low : char.toNat < 128) (coded : Coded scanner bytewise) :
    Coded (scanner.react char) (bytewise.reactByte char) := by
  have opens (scanner : Scanner) : Coded (scanner.opening char) (scanner.openingByte char) := by
    rw [openingByte, if_pos low]
    exact .intro (opening_coded scanner char)
  obtain ⟨mode⟩ := coded
  cases mode with
  | start => exact opens _
  | comment =>
    simp only [react, reactByte]
    split
    · exact .intro .start
    · exact .intro .comment
  | word =>
    simp only [react, reactByte]
    split
    · exact .intro .word
    · exact opens _
  | number =>
    simp only [react, reactByte]
    split
    · exact .intro .number
    · exact opens _
  | comparison =>
    simp only [react, reactByte]
    split
    · exact .intro .start
    · exact opens _
  | @text first chars coded bad same =>
    simp only [react, reactByte]
    split
    · exact .intro .start
    split
    · cases bad with
      | some => exact .intro .start
      | none =>
        simp only [closeText, same rfl, decode_byteChars]
        exact .intro .start
    split
    · exact .intro (.escape same)
    · exact .intro (.text fun none => by simp [same none, byteChars_of_lt low])
  | @escape first chars coded bad same =>
    simp only [react, reactByte, afterEscape, byteChars_of_lt low]
    cases known : unescape? char with
    | none => exact .intro (.text fun none => by simp at none)
    | some plain =>
      have ascii : byteChars plain = [plain] := by
        unfold unescape? at known
        split at known <;> cases known <;> rfl
      exact .intro (.text fun none => by simp [same none, ascii])

/-! ### Bytes beyond ASCII -/

variable {chars : List Char} {place first : Position} {lexemes : List Lexeme} {problems : List Diagnostic}

theorem foldl_feedByte_start (high : ∀ char ∈ chars, 128 ≤ char.toNat) :
    chars.foldl feedByte ⟨place, .start, lexemes, problems⟩ =
      ⟨⟨place.line, place.column + chars.length⟩, .start, lexemes,
        (chars.mapIdx fun offset shown =>
          (⟨.strayCharacter shown, ⟨place.line, place.column + offset⟩⟩ : Diagnostic)).reverse ++ problems⟩ := by
  induction chars generalizing place problems with
  | nil => rfl
  | cons char rest ih =>
    have here := high char List.mem_cons_self
    have step : feedByte ⟨place, .start, lexemes, problems⟩ char =
        ⟨⟨place.line, place.column + 1⟩, .start, lexemes, ⟨.strayCharacter char, place⟩ :: problems⟩ := by
      simp [feedByte, reactByte, openingByte, Nat.not_lt.mpr here, complain, ne_of_le here]
    rw [List.foldl_cons, step, ih fun char inside => high char (List.mem_cons_of_mem _ inside)]
    simp [List.mapIdx_cons, Nat.add_assoc, Nat.add_comm 1]

/-- Bytes beyond ASCII that only make what is under way longer. -/
theorem foldl_feedByte_kept (kept : List Char → Mode) {coded : List Char}
    (keeps : ∀ {place coded char}, 128 ≤ char.toNat →
      reactByte ⟨place, kept coded, lexemes, problems⟩ char = ⟨place, kept (char :: coded), lexemes, problems⟩)
    (high : ∀ char ∈ chars, 128 ≤ char.toNat) :
    chars.foldl feedByte ⟨place, kept coded, lexemes, problems⟩ =
      ⟨⟨place.line, place.column + chars.length⟩, kept (chars.reverse ++ coded), lexemes, problems⟩ := by
  induction chars generalizing place coded with
  | nil => rfl
  | cons char rest ih =>
    have here := high char List.mem_cons_self
    have step : feedByte ⟨place, kept coded, lexemes, problems⟩ char =
        ⟨⟨place.line, place.column + 1⟩, kept (char :: coded), lexemes, problems⟩ := by
      simp [feedByte, keeps here, ne_of_le here]
    rw [List.foldl_cons, step, ih fun char inside => high char (List.mem_cons_of_mem _ inside)]
    simp [Nat.add_assoc, Nat.add_comm 1]

theorem foldl_feedByte_text {coded : List Char} {bad : Option Diagnostic}
    (high : ∀ char ∈ chars, 128 ≤ char.toNat) :
    chars.foldl feedByte ⟨place, .text first coded bad, lexemes, problems⟩ =
      ⟨⟨place.line, place.column + chars.length⟩, .text first (chars.reverse ++ coded) bad, lexemes, problems⟩ :=
  foldl_feedByte_kept (.text first · bad) (fun here => by simp (disch := decide) [reactByte, ne_of_le here]) high

theorem foldl_feedByte_comment (high : ∀ char ∈ chars, 128 ≤ char.toNat) :
    chars.foldl feedByte ⟨place, .comment, lexemes, problems⟩ =
      ⟨⟨place.line, place.column + chars.length⟩, .comment, lexemes, problems⟩ :=
  @foldl_feedByte_kept _ _ _ _ (fun _ => .comment) [] (fun here => by simp [reactByte, ne_of_le here]) high

theorem exists_byteChars (char : Char) : ∃ byte rest, byteChars char = byte :: rest := by
  refine List.exists_cons_of_ne_nil fun none => ?_
  have width : (byteChars char).length = char.utf8Size := by
    rw [byteChars, List.length_map, String.length_utf8EncodeChar]
  have positive := char.utf8Size_pos
  simp [none] at width
  omega

theorem feed_of_le (high : 128 ≤ char.toNat) : scanner.feed char = { scanner.react char with
    position := ⟨scanner.position.line, scanner.position.column + (byteChars char).length⟩ } := by
  rw [feed, Position.after, if_neg (ne_of_le high (by decide)), byteChars, List.length_map,
    String.length_utf8EncodeChar]

/-- A character beyond ASCII that ends what is under way is reported byte by byte. -/
theorem Coded.stray (high : 128 ≤ char.toNat) (settled : scanner.settle.mode = .start)
    (ends : scanner.react char = scanner.settle.opening char)
    (each : ∀ byte, 128 ≤ byte.toNat → scanner.reactByte byte = scanner.settle.openingByte byte) :
    Coded (scanner.feed char) ((byteChars char).foldl feedByte scanner) := by
  have bytes : ∀ byte ∈ byteChars char, 128 ≤ byte.toNat := fun _ => le_of_mem_byteChars high
  have again : (byteChars char).foldl feedByte scanner = (byteChars char).foldl feedByte scanner.settle := by
    obtain ⟨byte, rest, same⟩ := exists_byteChars char
    have first := each byte (bytes byte (by simp [same]))
    rw [same, List.foldl_cons, List.foldl_cons, feedByte, feedByte, first, reactByte, settled, position_settle]
  have between : scanner.settle =
      ⟨scanner.position, .start, scanner.settle.lexemes, scanner.settle.problems⟩ := by
    rw [← settled, ← position_settle]
  rw [again, feed_of_le high, ends, opening_stray (isStray_of_le high), between, foldl_feedByte_start bytes]
  exact .intro .start

/-- A character and its bytes have the same effect. -/
theorem Coded.feed (coded : Coded scanner bytewise) (char : Char) :
    Coded (scanner.feed char) ((byteChars char).foldl feedByte bytewise) := by
  rcases Nat.lt_or_ge char.toNat 128 with low | high
  · have one : char.utf8Size = 1 := by
      rw [← String.length_utf8EncodeChar, Text.utf8EncodeChar_of_lt low, List.length_singleton]
    have place : bytewise.position = scanner.position := by
      cases coded
      rfl
    rw [byteChars_of_lt low, List.foldl_cons, List.foldl_nil, Scanner.feed, feedByte, place, Position.after, one]
    exact (reactByte_coded low coded).moved _
  have bytes : ∀ byte ∈ byteChars char, 128 ≤ byte.toNat := fun _ => le_of_mem_byteChars high
  have word {char : Char} (high : 128 ≤ char.toNat) : isWordPart char = false ∧ char.isDigit = false := by
    have stray := isStray_of_le high
    simp only [isStray, isWordStart, Bool.and_eq_true, Bool.not_eq_true', Bool.or_eq_false_iff] at stray
    simp_all [isWordPart, Char.isAlphanum]
  obtain ⟨mode⟩ := coded
  cases mode with
  | start => exact .stray high rfl rfl fun _ _ => rfl
  | comment =>
    rw [foldl_feedByte_comment bytes, feed_of_le high, react, if_neg (ne_of_le high (by decide))]
    exact .intro .comment
  | word =>
    refine .stray high rfl ?_ fun byte beyond => ?_
    · simp [react, word high]
    · simp [reactByte, word beyond]
  | @number first digits =>
    refine .stray high ?_ ?_ fun byte beyond => ?_
    · unfold settle
      dsimp only
      split <;> rfl
    · simp [react, word high]
    · simp [reactByte, word beyond]
  | @comparison first sign =>
    refine .stray high ?_ ?_ fun byte beyond => ?_
    · unfold settle
      dsimp only
      split <;> rfl
    · simp (disch := decide) [react, ne_of_le high]
    · simp (disch := decide) [reactByte, ne_of_le beyond]
  | text same =>
    rw [foldl_feedByte_text bytes, feed_of_le high, react]
    simp (disch := decide) only [ne_of_le high, if_false]
    exact .intro (.text fun none => by simp [same none])
  | @escape first chars coded bad same =>
    have unknown {char : Char} (high : 128 ≤ char.toNat) : unescape? char = none := by
      unfold unescape?
      split
      all_goals first | rfl | exact absurd high (by decide)
    obtain ⟨byte, rest, split⟩ := exists_byteChars char
    have beyond := bytes byte (by simp [split])
    have step {place : Position} {lexemes : List Lexeme} {problems : List Diagnostic} :
        feedByte ⟨place, .escape first coded bad, lexemes, problems⟩ byte =
          ⟨⟨place.line, place.column + 1⟩,
            .text first coded (bad <|> some ⟨.unknownEscape byte, place⟩), lexemes, problems⟩ := by
      simp [feedByte, reactByte, unknown beyond, ne_of_le beyond]
    rw [feed_of_le high, split, List.foldl_cons, step,
      foldl_feedByte_text fun byte inside => bytes byte (by simp [split, inside])]
    simp only [react, afterEscape, unknown high, split, List.headD_cons, List.length_cons, Nat.add_assoc,
      Nat.add_comm 1]
    exact .intro (.text fun none => by cases bad <;> cases none)

theorem Coded.finish (coded : Coded scanner bytewise) : bytewise.finish = scanner.finish := by
  obtain ⟨mode⟩ := coded
  cases mode <;> rfl

end Scanner

/-- **A text has the same tokens and problems when it is read byte by byte.** -/
theorem Token.scanBytes_eq (source : String) : Token.scanBytes source = Token.scan source := by
  have chars : (Text.bytes source).map (fun byte => Char.ofNat byte.toNat) = source.toList.flatMap byteChars := by
    rw [Text.bytes_eq_flatMap, List.map_flatMap]
    rfl
  have coded : ∀ (chars : List Char) {scanner bytewise : Scanner}, scanner.Coded bytewise →
      (chars.foldl Scanner.feed scanner).Coded ((chars.flatMap byteChars).foldl Scanner.feedByte bytewise) := by
    intro chars
    induction chars with
    | nil => exact id
    | cons char rest ih =>
      intro scanner bytewise coded
      rw [List.flatMap_cons, List.foldl_append]
      exact ih (coded.feed char)
  have final := coded source.toList (show Scanner.Coded .initial .initial from .intro .start)
  rw [Token.scanBytes, Token.scan, chars, final.finish]

end ScopedScript
