/-
**Integers as texts.**

A numeral is an optional single sign and one or more digits, as many leading zeros as one likes. The number
that it writes is said here by positions, while it is read digit by digit:

* `Decimal.Numeral`, `Decimal.Writes`: a run of digits, and a text that writes a whole number;
* `Decimal.read?_eq_some_iff`: what is read is what is written, if it is in range;
* `Decimal.writes_shown`: what is shown of an integer writes it;
* `Builtin.int_reads`: **`int` takes exactly the numerals of 64-bit integers.**
-/

import Mathlib.Data.List.Induction
import Mathlib.Data.Nat.Digits.Defs
import ScopedScript.Builtin.Call
import ScopedScript.Proofs.Spelling

namespace ScopedScript

namespace Decimal

variable {text : String} {chars : List Char} {number : Int}

/-- One or more digits. -/
def Numeral (chars : List Char) : Prop := chars ≠ [] ∧ ∀ char ∈ chars, char.isDigit = true

/-- The number that digits write: the last one counts ones, the one before it tens, and so on. -/
def positional (chars : List Char) : Nat := Nat.ofDigits 10 (chars.reverse.map digit)

/-- A text writes a whole number: an optional single sign and digits, and nothing else. -/
inductive Writes : String → Int → Prop
  | plain {chars : List Char} : Numeral chars → Writes (String.ofList chars) (positional chars)
  | plus {chars : List Char} : Numeral chars →
    Writes (String.ofList ('+' :: chars)) (positional chars)
  | minus {chars : List Char} : Numeral chars →
    Writes (String.ofList ('-' :: chars)) (-positional chars)

/-! ### Digits -/

/-- Reading digit by digit counts by positions. -/
theorem value_eq_positional (chars : List Char) : value chars = positional chars := by
  induction chars using List.reverseRecOn with
  | nil => rfl
  | append_singleton chars char ih =>
    have last : value (chars ++ [char]) = value chars * 10 + digit char := by
      rw [value, List.foldl_append]
      rfl
    rw [last, ih, positional, positional, List.reverse_append, List.reverse_singleton,
      List.singleton_append, List.map_cons, Nat.ofDigits_cons]
    exact Nat.add_comm _ _ |>.trans (congrArg _ (Nat.mul_comm _ _))

theorem digits?_eq_some_iff {count : Nat} :
    digits? chars = some count ↔ Numeral chars ∧ positional chars = count := by
  rw [digits?, Option.ite_none_right_eq_some, Option.some_inj, value_eq_positional]
  refine and_congr_left fun _ => ?_
  simp [Numeral]

theorem fit?_eq_some_iff {value : Int64} : fit? number = some value ↔ value.toInt = number := by
  constructor
  · intro fits
    obtain ⟨⟨least, most⟩, same⟩ := Option.ite_none_right_eq_some.mp fits
    rw [← Option.some.inj same, Int64.toInt_ofInt_of_le least (Int.lt_add_one_of_le most)]
  · rintro rfl
    exact fit?_toInt value

/-! ### Signs -/

/-- What is left to read once the sign is taken off. -/
theorem bind_digits? {value : Int64} (signed : Nat → Int) :
    ((digits? chars).bind fun count => fit? (signed count)) = some value ↔
      Numeral chars ∧ signed (positional chars) = value.toInt := by
  simp only [Option.bind_eq_some_iff, digits?_eq_some_iff, fit?_eq_some_iff]
  constructor
  · rintro ⟨count, ⟨numeral, rfl⟩, same⟩
    exact ⟨numeral, same.symm⟩
  · rintro ⟨numeral, same⟩
    exact ⟨_, ⟨numeral, rfl⟩, same.symm⟩

/-- A numeral without a sign does not begin with one. -/
theorem read?_plain (numeral : Numeral chars) : read? (String.ofList chars) =
    (digits? chars).bind fun count => fit? count := by
  have sign : ∀ char rest, char.isDigit = false → chars ≠ char :: rest := by
    rintro char rest other rfl
    rw [numeral.2 char List.mem_cons_self] at other
    cases other
  rw [read?, String.toList_ofList]
  split
  · exact absurd rfl (sign '-' _ rfl)
  · exact absurd rfl (sign '+' _ rfl)
  · rfl

/-- **What is read is what is written**, if it is in range. -/
theorem read?_eq_some_iff {value : Int64} : read? text = some value ↔ Writes text value.toInt := by
  constructor
  · intro found
    unfold read? at found
    split at found
    · rename_i chars shape
      obtain ⟨numeral, same⟩ := (bind_digits? fun count => -count).mp found
      rw [← String.ofList_toList (s := text), shape, ← same]
      exact .minus numeral
    · rename_i chars shape
      obtain ⟨numeral, same⟩ := (bind_digits? fun count => count).mp found
      rw [← String.ofList_toList (s := text), shape, ← same]
      exact .plus numeral
    · obtain ⟨numeral, same⟩ := (bind_digits? fun count => count).mp found
      rw [← same]
      simpa only [String.ofList_toList] using Writes.plain numeral
  · intro writes
    generalize whole : value.toInt = number at writes
    cases writes with
    | plain numeral =>
      rw [read?_plain numeral]
      exact (bind_digits? fun count => count).mpr ⟨numeral, whole.symm⟩
    | plus numeral =>
      rw [read?, String.toList_ofList]
      exact (bind_digits? fun count => count).mpr ⟨numeral, whole.symm⟩
    | minus numeral =>
      rw [read?, String.toList_ofList]
      exact (bind_digits? fun count => -count).mpr ⟨numeral, whole.symm⟩

/-- A text is read if what it writes is in range. -/
theorem exists_read?_iff : (∃ value, read? text = some value) ↔
    ∃ number, Writes text number ∧ -2 ^ 63 ≤ number ∧ number ≤ 2 ^ 63 - 1 := by
  simp only [read?_eq_some_iff]
  constructor
  · rintro ⟨value, writes⟩
    exact ⟨_, writes, value.minValue_le_toInt, value.toInt_le⟩
  · rintro ⟨number, writes, least, most⟩
    refine ⟨Int64.ofInt number, ?_⟩
    rwa [Int64.toInt_ofInt_of_le least (by omega)]

/-! ### What is shown -/

theorem numeral_toDigits (count : Nat) : Numeral (Nat.toDigits 10 count) :=
  ⟨Nat.toDigits_ne_nil, fun _ => Nat.isDigit_of_mem_toDigits (by decide) (by decide)⟩

theorem positional_toDigits (count : Nat) : positional (Nat.toDigits 10 count) = count := by
  rw [← value_eq_positional]
  exact value_toDigits 0 count

theorem writes_text (value : Int64) : Writes (Decimal.text value) value.toInt := by
  have sign : value < 0 ↔ value.toInt < 0 := Int64.lt_iff_toInt_lt
  rw [Decimal.text, natText]
  generalize size : value.toInt.natAbs = count
  have numeral := numeral_toDigits count
  split
  · rename_i negative
    have whole : value.toInt = -positional (Nat.toDigits 10 count) := by
      have := sign.mp negative
      rw [positional_toDigits]
      omega
    rw [whole]
    exact @String.ofList_append ['-'] _ ▸ Writes.minus numeral
  · rename_i natural
    have whole : value.toInt = positional (Nat.toDigits 10 count) := by
      have := mt sign.mpr natural
      rw [positional_toDigits]
      omega
    rw [whole]
    exact .plain numeral

/-- The pieces of an integer make its decimal form. -/
theorem join_intPieces (value : Int64) : String.join (intPieces value) = Decimal.text value := by
  simp only [intPieces, Decimal.text]
  split <;> simp

theorem writes_shown (heap : Heap) (value : Int64) :
    Writes ((Value.int value).shown heap) value.toInt := by
  have shown : (Value.int value).shown heap = Decimal.text value := by
    rw [Value.shown, Value.written, Value.pieces, join_intPieces]
  rw [shown]
  exact writes_text value

end Decimal

/-- `int` gives what is read of a text, or fails with the text. -/
theorem Builtin.call_int (text : String) (world : World) : Builtin.call .int [.text text] world =
    (Decimal.read? text).elim (.error (.invalidInteger text) world) fun number =>
      .ok (.int number) world := by
  have taken : Builtin.call .int [.text text] world = readInt text world := rfl
  rw [taken, readInt]
  cases Decimal.read? text <;> rfl

/-- **`int` takes exactly the numerals of 64-bit integers.** It reads back the text that `print` shows of
any integer. Of all texts it takes those that are an optional single sign and one or more digits, if what
they write is in range, and gives that number; it fails on every other one with the text as it is. In
no case does it change anything. -/
theorem Builtin.int_reads (world : World) :
    (∀ number : Int64,
      Builtin.call .print [.int number] world = emit ((Value.int number).shown world.heap) world ∧
      Builtin.call .int [.text ((Value.int number).shown world.heap)] world = .ok (.int number) world) ∧
    ∀ text : String,
      (∀ value after, Builtin.call .int [.text text] world = .ok value after ↔
        ∃ number, Decimal.Writes text number ∧ -2 ^ 63 ≤ number ∧ number ≤ 2 ^ 63 - 1 ∧
          value = .int (Int64.ofInt number) ∧ after = world) ∧
      ∀ cause after, Builtin.call .int [.text text] world = .error cause after ↔
        (¬ ∃ number, Decimal.Writes text number ∧ -2 ^ 63 ≤ number ∧ number ≤ 2 ^ 63 - 1) ∧
          cause = .invalidInteger text ∧ after = world := by
  refine ⟨fun number => ⟨rfl, ?_⟩, fun text => ⟨fun value after => ?_, fun cause after => ?_⟩⟩
  · rw [call_int, Decimal.read?_eq_some_iff.mpr (Decimal.writes_shown world.heap number)]
    rfl
  · rw [call_int]
    constructor
    · intro given
      cases read : Decimal.read? text with
      | none =>
        rw [read] at given
        cases given
      | some number =>
        rw [read] at given
        cases given
        refine ⟨number.toInt, Decimal.read?_eq_some_iff.mp read, number.minValue_le_toInt,
          number.toInt_le, ?_, rfl⟩
        rw [Int64.ofInt_toInt]
    · rintro ⟨number, writes, least, most, rfl, rfl⟩
      have whole : (Int64.ofInt number).toInt = number := Int64.toInt_ofInt_of_le least (by omega)
      rw [Decimal.read?_eq_some_iff.mpr (whole.symm ▸ writes)]
      rfl
  · rw [call_int, ← Decimal.exists_read?_iff]
    constructor
    · intro failed
      cases read : Decimal.read? text with
      | none =>
        rw [read] at failed
        cases failed
        exact ⟨nofun, rfl, rfl⟩
      | some number =>
        rw [read] at failed
        cases failed
    · rintro ⟨unread, rfl, rfl⟩
      rw [Option.eq_none_iff_forall_ne_some.mpr fun number read => unread ⟨number, read⟩]
      rfl

end ScopedScript
