/-
**Every text falls into pieces.**

A text that is not empty begins with a piece, so every text can be sliced, and what scanning gives can be read off
the pieces:

* `exists_piece`, `Sliced.exists`: every text begins with a piece, and can be sliced;
* `Position.Before`: the order of the places of a text;
* `Piece.ordered`, `Sliced.ordered`: problems are in that order, each inside its piece;
* `Token.scan_covers`: **tokens cover the text, each at its place, and problems are inside their pieces.**
-/

import ScopedScript.Proofs.Numerals

namespace ScopedScript

/-! ### Numbers and words -/

theorem Decimal.digitChar_digit {char : Char} (each : char.isDigit = true) :
    digit char < 10 ∧ (digit char).digitChar = char := by
  simp only [Char.isDigit, Bool.and_eq_true, decide_eq_true_eq, UInt32.le_iff_toNat_le] at each
  have zero : '0'.val.toNat = 48 := rfl
  have nine : '9'.val.toNat = 57 := rfl
  have same : digit char = char.val.toNat - 48 := rfl
  have small : digit char < 10 := by omega
  refine ⟨small, Char.toNat_inj.mp ?_⟩
  rw [Nat.toNat_digitChar_of_lt_ten small, same]
  change 48 + (char.val.toNat - 48) = char.val.toNat
  omega

/-- Digits are zeros and the digits of their value. -/
theorem Decimal.exists_zeros {digits : List Char} (written : digits ≠ [])
    (each : ∀ char ∈ digits, char.isDigit = true) :
    ∃ zeros, digits = List.replicate zeros '0' ++ Nat.toDigits 10 (value digits) := by
  induction digits using List.reverseRecOn with
  | nil => exact absurd rfl written
  | append_singleton digits last ih =>
    obtain ⟨small, same⟩ := digitChar_digit (each last (by simp))
    have ones : [last] = Nat.toDigits 10 (digit last) := by rw [Nat.toDigits_of_lt_base small, same]
    have total : value (digits ++ [last]) = 10 * value digits + digit last := by
      rw [value, List.foldl_append, Nat.mul_comm]
      rfl
    by_cases empty : digits = []
    · subst empty
      exact ⟨0, ones.trans (by simp [value])⟩
    obtain ⟨zeros, front⟩ := ih empty fun char inside => each char (List.mem_append_left _ inside)
    rw [total]
    rcases Nat.eq_zero_or_pos (value digits) with nothing | positive
    · refine ⟨zeros + 1, ?_⟩
      rw [nothing, Nat.toDigits_zero, ← List.replicate_succ'] at front
      rw [nothing, Nat.mul_zero, Nat.zero_add, ← ones, ← front]
    · refine ⟨zeros, ?_⟩
      rw [← Nat.toDigits_append_toDigits (by decide) positive small, ← ones, ← List.append_assoc, ← front]

theorem Token.spelled_int {digits : List Char} {value : Int64} (written : digits ≠ [])
    (each : ∀ char ∈ digits, char.isDigit = true)
    (fits : Decimal.fit? (Decimal.value digits) = some value) : (Token.int value).Spelled digits := by
  have whole := Decimal.fit?_eq_some_iff.mp fits
  obtain ⟨zeros, same⟩ := Decimal.exists_zeros written each
  have natural : 0 ≤ value := by
    rw [Int64.le_iff_toInt_le, whole]
    exact Int.natCast_nonneg _
  have spelled := Token.Spelled.int zeros natural
  rwa [whole, Int.toNat_natCast, ← same] at spelled

theorem Token.spelled_word {first : Char} {more : List Char} (starts : isWordStart first = true)
    (each : ∀ char ∈ more, isWordPart char = true) :
    (Token.ofWord (String.ofList (first :: more))).Spelled (first :: more) ∧
      (Token.ofWord (String.ofList (first :: more))).grows = isWordPart := by
  unfold Token.ofWord
  cases reserved : Keyword.all.find? fun reserved => reserved.spelling == String.ofList (first :: more) with
  | some word =>
    have same : word.spelling.toList = first :: more := by
      have same := List.find?_some reserved
      rw [beq_iff_eq.mp same, String.toList_ofList]
    exact ⟨same ▸ .keyword, rfl⟩
  | none =>
    refine ⟨.name ?_ (fun char inside => ?_) fun word => ?_, rfl⟩
    · simpa [isWordStart] using starts
    · simpa [isWordPart] using each char inside
    · have member : word ∈ Keyword.all := by cases word <;> decide
      simpa using List.find?_eq_none.mp reserved word member

/-! ### Texts -/

theorem Escaped.of_unescape? {char plain : Char} (known : unescape? char = some plain) :
    Escaped plain ['\\', char] := by
  unfold unescape? at known
  split at known <;> cases known
  · exact .newline
  · exact .tab
  · exact .quote
  · exact .backslash

/-- What stands between the quotes is known up to the end, or up to the first unknown escape. -/
theorem Inside.known {body : List Char} (inside : Inside body) :
    ∃ value known tail, Contents value known ∧ body = known ++ tail ∧
      (tail = [] ∨ ∃ char more, tail = '\\' :: char :: more ∧ unescape? char = none ∧ Inside more) := by
  induction inside with
  | nil => exact ⟨[], [], [], .nil, rfl, .inl rfl⟩
  | raw line quote backslash _ ih =>
    obtain ⟨value, known, tail, contents, rfl, ends⟩ := ih
    exact ⟨_, _, tail, .cons (.raw line quote backslash) contents, rfl, ends⟩
  | @escape char rest inside ih =>
    cases unescaped : unescape? char with
    | none => exact ⟨[], [], _, .nil, rfl, .inr ⟨char, rest, rfl, unescaped, inside⟩⟩
    | some plain =>
      obtain ⟨value, known, tail, contents, rfl, ends⟩ := ih
      exact ⟨_, _, tail, .cons (.of_unescape? unescaped) contents, rfl, ends⟩

/-- Behind a quote, the text is closed, or its line ends, or all ends behind a backslash. -/
theorem exists_inside : ∀ chars : List Char, ∃ body rest, Inside body ∧
    (chars = body ++ '"' :: rest ∨ chars = body ++ rest ∧ Apart (· != '\n') rest ∨ chars = body ++ ['\\'])
  | [] => ⟨[], [], .nil, .inr (.inl ⟨rfl, nofun⟩)⟩
  | char :: chars => by
    by_cases line : char = '\n'
    · refine ⟨[], char :: chars, .nil, .inr (.inl ⟨rfl, ?_⟩)⟩
      rintro _ ⟨⟩
      simp [line]
    by_cases quote : char = '"'
    · exact ⟨[], chars, .nil, .inl (by rw [quote, List.nil_append])⟩
    by_cases backslash : char = '\\'
    · cases chars with
      | nil => exact ⟨[], [], .nil, .inr (.inr (by rw [backslash, List.nil_append]))⟩
      | cons next chars =>
        obtain ⟨body, rest, inside, ends⟩ := exists_inside chars
        refine ⟨'\\' :: next :: body, rest, .escape inside, ?_⟩
        simpa [backslash] using ends
    · obtain ⟨body, rest, inside, ends⟩ := exists_inside chars
      refine ⟨char :: body, rest, .raw line quote backslash inside, ?_⟩
      simpa using ends

/-! ### Every text can be sliced -/

theorem exists_run (goesOn : Char → Bool) (chars : List Char) : ∃ run rest, chars = run ++ rest ∧
    (∀ char ∈ run, goesOn char = true) ∧ Apart goesOn rest := by
  refine ⟨chars.takeWhile goesOn, chars.dropWhile goesOn, List.takeWhile_append_dropWhile.symm,
    List.all_eq_true.mp List.all_takeWhile, fun char next => ?_⟩
  have stops := List.head?_dropWhile_not goesOn chars
  rwa [Option.mem_def.mp next] at stops

section Piece

variable (front : List Char) {char : Char} {rest : List Char}

theorem exists_text (rest : List Char) : ∃ written more lexemes problems,
    '"' :: rest = '"' :: written ++ more ∧ Piece front ('"' :: written) more lexemes problems := by
  obtain ⟨body, more, inside, rfl | ⟨rfl, ends⟩ | rfl⟩ := exists_inside rest
  · obtain ⟨value, known, _, contents, rfl, rfl | ⟨char, rest, rfl, unknown, after⟩⟩ := inside.known
    · rw [← @String.toList_ofList value] at contents
      exact ⟨_, more, _, _, by simp, .token (.text contents) fun _ _ => rfl⟩
    · exact ⟨_, more, _, _, by simp, .escape contents unknown after⟩
  · exact ⟨body, more, _, _, rfl, .unclosed inside ends⟩
  · exact ⟨_, [], _, _, by simp, .hanging inside⟩

theorem exists_comparison (starts : isComparisonStart char = true) :
    ∃ written more lexemes problems, char :: rest = char :: written ++ more ∧
      Piece front (char :: written) more lexemes problems := by
  have either : (∃ more, rest = '=' :: more) ∨ Apart (· == '=') rest := by
    cases rest with
    | nil => exact .inr nofun
    | cons next more =>
      by_cases equals : next = '='
      · exact .inl ⟨more, by rw [equals]⟩
      · refine .inr ?_
        rintro _ ⟨⟩
        exact beq_eq_false_iff_ne.mpr equals
  have signs : ((char = '=' ∨ char = '!') ∨ char = '<') ∨ char = '>' := by
    simpa [isComparisonStart] using starts
  obtain ⟨more, rfl⟩ | apart := either
  · have spelled : (Token.mark (Scanner.longMark char)).Spelled [char, '='] := by
      rcases signs with ((rfl | rfl) | rfl) | rfl <;> exact .mark
    refine ⟨['='], more, _, _, rfl, .token spelled fun _ _ => ?_⟩
    rcases signs with ((rfl | rfl) | rfl) | rfl <;> rfl
  · refine ⟨[], rest, ?_⟩
    rcases signs with ((rfl | rfl) | rfl) | rfl
    · exact ⟨_, _, rfl, .token (@Token.Spelled.mark .assign) apart⟩
    · exact ⟨_, _, rfl, .bang apart⟩
    · exact ⟨_, _, rfl, .token (@Token.Spelled.mark .less) apart⟩
    · exact ⟨_, _, rfl, .token (@Token.Spelled.mark .greater) apart⟩

theorem exists_piece (char : Char) (rest : List Char) : (char = '#' ∧ '\n' ∉ rest) ∨
    ∃ written more lexemes problems, char :: rest = char :: written ++ more ∧
      Piece front (char :: written) more lexemes problems := by
  by_cases blank : isBlank char = true
  · have blank : char ∈ [' ', '\t', '\r', '\n'] := by simpa [isBlank, or_assoc] using blank
    exact .inr ⟨[], rest, _, _, rfl, .gap (.blank blank .nil)⟩
  by_cases hash : char = '#'
  · obtain ⟨body, more, rfl, inside, ends⟩ := exists_run (· != '\n') rest
    have inside : '\n' ∉ body := fun found => absurd (inside _ found) (by decide)
    cases more with
    | nil => exact .inl ⟨hash, by rwa [List.append_nil]⟩
    | cons next more =>
      obtain rfl : next = '\n' := by simpa using ends next rfl
      rw [hash]
      exact .inr ⟨body ++ ['\n'], more, _, _, by simp, .gap (.comment inside .nil)⟩
  refine .inr ?_
  by_cases quote : char = '"'
  · rw [quote]
    exact exists_text front rest
  by_cases digit : char.isDigit = true
  · obtain ⟨more, next, rfl, each, ends⟩ := exists_run Char.isDigit rest
    have each : ∀ char' ∈ char :: more, char'.isDigit = true := List.forall_mem_cons.mpr ⟨digit, each⟩
    refine ⟨more, next, ?_⟩
    cases fits : Decimal.fit? (Decimal.value (char :: more)) with
    | some value => exact ⟨_, _, rfl, .token (Token.spelled_int (List.cons_ne_nil _ _) each fits) ends⟩
    | none => exact ⟨_, _, rfl, .large (List.cons_ne_nil _ _) each ends fits⟩
  by_cases word : isWordStart char = true
  · obtain ⟨more, next, rfl, each, ends⟩ := exists_run isWordPart rest
    obtain ⟨spelled, grows⟩ := Token.spelled_word word each
    exact ⟨more, next, _, _, rfl, .token spelled (by rwa [grows])⟩
  by_cases comparison : isComparisonStart char = true
  · exact exists_comparison front comparison
  refine ⟨[], rest, ?_⟩
  cases mark : Mark.ofChar? char with
  | some sign =>
    obtain ⟨same, grows⟩ : sign.spelling.toList = [char] ∧ (Token.mark sign).grows = fun _ => false := by
      unfold Mark.ofChar? at mark
      split at mark <;> cases mark <;> exact ⟨rfl, rfl⟩
    have spelled : (Token.mark sign).Spelled [char] := same ▸ .mark
    exact ⟨_, _, rfl, .token spelled fun _ _ => by rw [grows]⟩
  | none => exact ⟨_, _, rfl, .stray (by simp [isStray, *])⟩

end Piece

/-- **Every text can be sliced.** -/
theorem Sliced.exists (front chars : List Char) :
    ∃ lexemes problems, Sliced front chars lexemes problems := by
  induction same : chars.length using Nat.strong_induction_on generalizing front chars with
  | _ size ih =>
    cases chars with
    | nil => exact ⟨[], [], .done⟩
    | cons char rest =>
      rcases exists_piece front char rest with ⟨rfl, inside⟩ | ⟨written, more, _, _, split, piece⟩
      · exact ⟨[], [], .comment inside⟩
      · have shorter : more.length < size := by
          rw [← same, split, List.length_append, List.length_cons]
          omega
        obtain ⟨lexemes, problems, sliced⟩ := ih _ shorter (front ++ char :: written) more rfl
        rw [split]
        exact ⟨_, _, .cons piece sliced⟩

/-! ### The order of problems -/

/-- The order of the places of a text. -/
def Position.Before (first second : Position) : Prop :=
  first.line < second.line ∨ first.line = second.line ∧ first.column < second.column

theorem Position.before_after (place : Position) (char : Char) : place.Before (place.after char) := by
  have width := char.utf8Size_pos
  unfold after Before
  split
  · exact .inl (Nat.lt_succ_self _)
  · exact .inr ⟨rfl, by simpa using width⟩

/-- What is read lies between its first place and the place behind it. -/
theorem Position.before_behind (front more : List Char) :
    ¬(behind (front ++ more)).Before (behind front) ∧
      (more ≠ [] → (behind front).Before (behind (front ++ more))) := by
  induction more using List.reverseRecOn with
  | nil =>
    rw [List.append_nil]
    refine ⟨?_, absurd rfl⟩
    unfold Before
    omega
  | append_singleton more char ih =>
    have step := before_after (behind (front ++ more)) char
    rw [← List.append_assoc, behind_concat]
    unfold Before at ih step ⊢
    omega

section Problems

variable {front chars written rest : List Char} {lexemes : List Lexeme} {flaws problems : List Diagnostic}

/-- Problems one behind the other, from one place up to another. -/
structure Ordered (first last : Position) (problems : List Diagnostic) : Prop where
  increasing : problems.Pairwise fun problem next => problem.position.Before next.position
  within : ∀ problem ∈ problems, ¬problem.position.Before first ∧ problem.position.Before last

theorem Ordered.nil {first last : Position} : Ordered first last [] where
  increasing := .nil
  within _ member := absurd member List.not_mem_nil

theorem Ordered.single {problem : Problem} (some : rest ≠ []) :
    Ordered (.behind front) (.behind (front ++ (written ++ rest))) [⟨problem, .behind (front ++ written)⟩] := by
  have after := (Position.before_behind (front ++ written) rest).2 some
  rw [List.append_assoc] at after
  exact ⟨List.pairwise_singleton _ _,
    List.forall_mem_singleton.mpr ⟨(Position.before_behind front written).1, after⟩⟩

/-- **The problems of a piece are inside it.** -/
theorem Piece.ordered (piece : Piece front written rest lexemes flaws) :
    Ordered (.behind front) (.behind (front ++ written)) flaws := by
  have whole {problem : Problem} {written : List Char} (some : written ≠ []) :
      Ordered (.behind front) (.behind (front ++ written)) [⟨problem, .behind front⟩] := by
    have single := @Ordered.single front [] written problem some
    rwa [List.append_nil] at single
  cases piece with
  | gap | token => exact .nil
  | @stray char _ stray =>
    have line : char ≠ '\n' := by
      rintro rfl
      cases stray
    have width : (byteChars char).length = char.utf8Size := by
      rw [byteChars, List.length_map, String.length_utf8EncodeChar]
    rw [Position.behind_concat, Position.after, if_neg line]
    constructor
    · refine List.pairwise_iff_getElem.mpr fun first second _ _ less => ?_
      rw [List.getElem_mapIdx, List.getElem_mapIdx]
      exact .inr ⟨rfl, Nat.add_lt_add_left less _⟩
    · intro problem member
      obtain ⟨offset, small, rfl⟩ := List.mem_mapIdx.mp member
      refine ⟨fun before => ?_, .inr ⟨rfl, Nat.add_lt_add_left (width ▸ small) _⟩⟩
      rcases before with before | ⟨-, before⟩
      · exact absurd before (Nat.lt_irrefl _)
      · exact absurd before (Nat.not_lt.mpr (Nat.le_add_right _ _))
  | bang => exact whole (List.cons_ne_nil _ _)
  | large some => exact whole some
  | unclosed | hanging => exact whole (List.cons_ne_nil _ _)
  | @escape _ known body _ char =>
    have single := @Ordered.single front ('"' :: (known ++ ['\\'])) (char :: (body ++ ['"']))
      (.unknownEscape ((byteChars char).headD char)) (List.cons_ne_nil _ _)
    rwa [List.cons_append, List.append_assoc] at single

/-- What is read later has the later problems. -/
theorem Ordered.append (first : Ordered (.behind front) (.behind (front ++ written)) flaws)
    (second : Ordered (.behind (front ++ written)) (.behind (front ++ written ++ rest)) problems) :
    Ordered (.behind front) (.behind (front ++ written ++ rest)) (flaws ++ problems) := by
  have start := (Position.before_behind front written).1
  have finish := (Position.before_behind (front ++ written) rest).1
  constructor
  · refine List.pairwise_append.mpr ⟨first.increasing, second.increasing, fun problem member next later => ?_⟩
    have before := (first.within problem member).2
    have after := (second.within next later).1
    unfold Position.Before at *
    omega
  · intro problem member
    rcases List.mem_append.mp member with member | member
    · have inside := first.within problem member
      unfold Position.Before at *
      omega
    · have inside := second.within problem member
      unfold Position.Before at *
      omega

theorem Sliced.ordered (sliced : Sliced front chars lexemes problems) :
    Ordered (.behind front) (.behind (front ++ chars)) problems := by
  induction sliced with
  | done | comment => exact .nil
  | cons piece _ ih =>
    rw [← List.append_assoc]
    exact piece.ordered.append ih

/-- **Every problem comes from a piece.** -/
theorem Sliced.exists_flaw (sliced : Sliced front chars lexemes problems) {problem : Diagnostic}
    (member : problem ∈ problems) :
    ∃ before written rest flaws, front ++ chars = before ++ (written ++ rest) ∧
      Piece before written rest [] flaws ∧ problem ∈ flaws := by
  induction sliced with
  | done | comment => cases member
  | @cons front written rest found _ flaws _ piece _ ih =>
    rcases List.mem_append.mp member with member | member
    · have nothing : found = [] := by
        cases piece with
        | token => cases member
        | _ => rfl
      exact ⟨front, written, rest, flaws, rfl, nothing ▸ piece, member⟩
    · rw [← List.append_assoc]
      exact ih member

end Problems

theorem Token.Spelled.scan {token : Token} {written : List Char} (spelled : token.Spelled written) :
    Token.scan (String.ofList written) = .ok [⟨token, .start⟩, ⟨.eof, .behind written⟩] := by
  have sliced : Sliced [] (written ++ []) [⟨token, .start⟩] [] :=
    @Sliced.cons [] written [] _ _ _ _ (.token spelled nofun) .done
  rw [List.append_nil, ← @String.toList_ofList written] at sliced
  rw [sliced.scan, String.toList_ofList]
  rfl

/-- **Tokens cover the text.** A text that is scanned without a problem falls into gaps and tokens, each as long
as it can be. Each token has the place where its characters start, and they alone say which token it is; the last
one has the place where the text ends. Otherwise the problems stand one behind the other, each inside a piece that
is no token. -/
theorem Token.scan_covers (source : String) :
    (∀ lexemes, Token.scan source = .ok lexemes → ∃ found, Sliced [] source.toList found [] ∧
      lexemes = found ++ [⟨.eof, .behind source.toList⟩]) ∧
    (∀ problems, Token.scan source = .error problems → problems ≠ [] ∧
      (∃ found, Sliced [] source.toList found problems) ∧
      problems.Pairwise (fun problem next => problem.position.Before next.position) ∧
      ∀ problem ∈ problems, ∃ front written rest flaws, source.toList = front ++ (written ++ rest) ∧
        Piece front written rest [] flaws ∧ problem ∈ flaws ∧
        ¬problem.position.Before (.behind front) ∧
        problem.position.Before (.behind (front ++ written))) ∧
    ∀ (token other : Token) (written : List Char), token.Spelled written → other.Spelled written →
      token = other := by
  obtain ⟨found, problems, sliced⟩ := Sliced.exists [] source.toList
  refine ⟨fun lexemes same => ?_, fun wrong same => ?_, fun token other written spelled also => ?_⟩
  · cases problems with
    | nil => exact ⟨found, sliced, Except.ok.inj (same.symm.trans sliced.scan)⟩
    | cons => cases same.symm.trans sliced.scan
  · cases problems with
    | nil => cases same.symm.trans sliced.scan
    | cons problem others =>
      obtain rfl := Except.error.inj (same.symm.trans sliced.scan)
      refine ⟨List.cons_ne_nil _ _, ⟨found, sliced⟩, sliced.ordered.increasing, fun problem member => ?_⟩
      obtain ⟨front, written, rest, flaws, split, piece, member⟩ := sliced.exists_flaw member
      exact ⟨front, written, rest, flaws, split, piece, member, piece.ordered.within problem member⟩
  · cases spelled.scan.symm.trans also.scan
    rfl

end ScopedScript
