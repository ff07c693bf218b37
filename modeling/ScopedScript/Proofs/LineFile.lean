/-
**Lines written are lines read.**

A value is written as its text and the end of a line, piece by piece through a buffer; a line is read
back byte by byte through another:

* `Text.lineFeed_not_mem_bytes`: no other character has the byte that ends a line;
* `Writer.Holds`: the bytes in the file and those kept back are all that was written, and the next
  ones go behind them; `Writer.Holds.putAll`: pieces of any size keep this;
* `Reader.Ahead`: the bytes taken and those that are still in the file are all that is left to read;
  `Reader.Ahead.gather`: blocks of any size keep this, up to the end of a line;
* `World.Spares`: a change that leaves an open file and what it is about alone;
* `World.lines_read_back`: **what is written line by line is read back line by line**, whatever
  happens in between elsewhere.
-/

import Mathlib.Data.List.TakeDrop
import Mathlib.Data.List.TakeWhile
import ScopedScript.Builtin.Call
import ScopedScript.Proofs.Encoding

namespace ScopedScript

variable {α β : Type} {block rest : List UInt8} {world : World} {files : Files}

/-! ### Texts as bytes -/

namespace Text

variable {text : String}

/-- Only a line feed has its byte. -/
theorem eq_of_lineFeed_mem {char : Char} (member : lineFeed ∈ String.utf8EncodeChar char) :
    char = '\n' := by
  rcases Nat.lt_or_ge char.toNat 128 with low | high
  · rw [utf8EncodeChar_of_lt low, List.mem_singleton] at member
    have value : 10 = char.toNat % 256 := congrArg UInt8.toNat member
    exact Char.toNat_inj.mp (by rw [show '\n'.toNat = 10 from rfl]; omega)
  · have wide : 128 ≤ lineFeed.toNat := le_of_mem_utf8EncodeChar high member
    exact absurd wide (by decide)

/-- A text that can stand on a line of its own. -/
def OneLine (text : String) : Prop := '\n' ∉ text.toList ∧ text.toList.getLast? ≠ some '\r'

/-- Texts on lines of their own. -/
def lines (texts : List String) : String := String.join (texts.map (· ++ "\n"))

theorem bytes_line (text : String) : bytes (text ++ "\n") = bytes text ++ [lineFeed] :=
  bytes_append text "\n"

theorem lineFeed_not_mem_bytes (plain : '\n' ∉ text.toList) : lineFeed ∉ bytes text := by
  rw [bytes_eq_flatMap, List.mem_flatMap]
  rintro ⟨char, member, here⟩
  exact plain (eq_of_lineFeed_mem here ▸ member)

theorem bytes_lines_cons (text : String) (texts : List String) :
    bytes (lines (text :: texts)) = bytes text ++ lineFeed :: bytes (lines texts) := by
  unfold lines
  rw [List.map_cons, String.join_cons, bytes_append, bytes_line, List.append_assoc,
    List.singleton_append]

/-- The ends that are dropped from a line are those that were added. -/
theorem chopped_line (fits : OneLine text) :
    String.ofList (chopped '\r' (chopped '\n' (text ++ "\n").toList)) = text := by
  have line : (text ++ "\n").toList = text.toList ++ ['\n'] := String.toList_append
  unfold chopped
  rw [line, List.getLast?_concat, if_pos rfl, List.dropLast_concat, if_neg fits.2, String.ofList_toList]

end Text

/-! ### Files as bytes -/

theorem ok_bind {ε : Type} (value : α) (next : α → Except ε β) :
    (Except.ok value >>= next) = next value := rfl

namespace Folder

variable {folder : Folder} {name : String} {bytes : List UInt8}
variable {part : String}

/-- The bytes of a file, if there is one. -/
def stored? (folder : Folder) (name : String) : Option (List UInt8) :=
  (folder.files.get? name).map fun content => content.data.toList

theorem content_of_stored (stored : folder.stored? name = some bytes) :
    (folder.content name).data.toList = bytes := by
  obtain ⟨content, found, rfl⟩ := Option.map_eq_some_iff.mp stored
  unfold Folder.content
  rw [found, Option.getD_some]

theorem size_of_stored (stored : folder.stored? name = some bytes) :
    folder.size (.file name) = bytes.length := by
  rw [← content_of_stored stored]
  rfl

theorem read_of_stored (stored : folder.stored? name = some bytes) (offset count : Nat) :
    folder.read (.file name) offset count = .ok ((bytes.drop offset).take count) := by
  show Except.ok ((folder.content name).extract offset (offset + count)).data.toList = _
  rw [ByteArray.data_extract, Array.toList_extract, content_of_stored stored, List.extract_eq_take_drop,
    Nat.add_sub_cancel_left]

theorem overwrite_size (content chunk : ByteArray) :
    overwrite content content.size chunk = content ++ chunk := by
  unfold overwrite
  simp only [Nat.lt_irrefl, if_false]
  rw [ByteArray.extract_zero_size, ByteArray.extract_eq_empty_iff.mpr (by omega),
    ByteArray.append_empty]

/-- Bytes written at the end of a file go behind what it holds. -/
theorem write_end (stored : folder.stored? name = some bytes) (chunk : ByteArray) :
    ∃ later, folder.write (.file name) bytes.length chunk = .ok later ∧
      later.stored? name = some (bytes ++ chunk.data.toList) := by
  unfold Folder.write
  by_cases nothing : chunk.isEmpty = true
  · have empty : chunk.data.toList = [] := List.length_eq_zero_iff.mp (beq_iff_eq.mp nothing)
    rw [if_pos nothing, empty, List.append_nil]
    exact ⟨folder, rfl, stored⟩
  · have size : bytes.length = (folder.content name).size := (size_of_stored stored).symm
    rw [if_neg nothing, size]
    refine ⟨_, rfl, ?_⟩
    rw [overwrite_size, stored?, Bindings.get?_set_self, Option.map_some, ByteArray.data_append,
      Array.toList_append, content_of_stored stored]

/-! ### Paths to files -/

variable {later after : Folder} {path : String} {place : Place}

/-- Directories are the same in every folder. -/
theorem entry?_directory {inner : Place}
    (found : folder.entry? place part = some (.directory inner)) :
    later.entry? place part = some (.directory inner) := by
  cases place with
  | root => exact found
  | devices => exact found
  | here =>
    obtain ⟨_, -, same⟩ := Option.map_eq_some_iff.mp found
    cases same

/-- Files are in the folder itself. -/
theorem entry?_file (found : folder.entry? place part = some (.leaf (.file name))) :
    place = .here ∧ part = name := by
  cases place with
  | root =>
    simp only [ entry?] at found
    split at found <;> cases found
  | devices =>
    simp only [ entry?] at found
    split at found
    · cases found
    · split at found <;> cases found
  | here =>
    obtain ⟨_, -, same⟩ := Option.map_eq_some_iff.mp found
    cases same
    exact ⟨rfl, rfl⟩

/-- A path leads to a file, or to where one can be created. -/
def Leads (name : String) (located : Except OsError Located) : Prop :=
  located = .ok (.present (.file name) false) ∨ located = .ok (.absent .here name false)

theorem not_leads_error {error : OsError} : ¬ Leads name (.error error) := by
  rintro (same | same) <;> cases same

/-- The parts of a path to a file lead to it in every folder that has the file. -/
theorem follow_file (known : (later.files.get? name).isSome) {parts : List String}
    (leads : Leads name (folder.follow place parts)) :
    later.follow place parts = .ok (.present (.file name) false) := by
  induction parts generalizing place with
  | nil => rcases leads with same | same <;> cases same
  | cons part rest ih =>
    unfold follow at leads ⊢
    by_cases skipped : part = "" ∨ part = "."
    · rw [if_pos skipped] at leads ⊢
      exact ih leads
    by_cases upwards : part = ".."
    · rw [if_neg skipped, if_pos upwards] at leads ⊢
      exact ih leads
    by_cases long : longestName < part.utf8ByteSize
    · rw [if_neg skipped, if_neg upwards, if_pos long] at leads
      exact absurd leads not_leads_error
    rw [if_neg skipped, if_neg upwards, if_neg long] at leads ⊢
    obtain ⟨content, stored⟩ := Option.isSome_iff_exists.mp known
    have arrived : later.entry? .here name = some (.leaf (.file name)) := by
      rw [ entry?, stored, Option.map_some]
    cases found : folder.entry? place part with
    | none =>
      simp only [found] at leads
      split at leads
      · rename_i last
        rcases leads with same | same
        · cases same
        · obtain ⟨rfl, rfl, slash⟩ := Located.absent.inj (Except.ok.inj same)
          simp only [arrived, last, if_true, slash]
      · exact absurd leads not_leads_error
    | some entry =>
      simp only [found] at leads
      cases entry with
      | directory inner =>
        rw [ entry?_directory found]
        exact ih leads
      | leaf endpoint =>
        simp only at leads
        split at leads
        · rename_i last
          rcases leads with same | same
          · obtain ⟨rfl, slash⟩ := Located.present.inj (Except.ok.inj same)
            obtain ⟨rfl, rfl⟩ := entry?_file found
            simp only [arrived, last, if_true, slash]
          · cases same
        · exact absurd leads not_leads_error

theorem locate_file (known : (later.files.get? name).isSome)
    (leads : Leads name (folder.locate path)) :
    later.locate path = .ok (.present (.file name) false) := by
  unfold locate at leads ⊢
  split at leads
  · exact absurd leads not_leads_error
  split at leads
  · exact absurd leads not_leads_error
  split at leads
  · exact absurd leads not_leads_error
  rename_i clean some_path short
  rw [if_neg clean, if_neg some_path, if_neg short]
  exact follow_file known leads

/-- A file that is created is there, and empty. -/
theorem create_file (created : folder.create path = .ok (.file name, after)) :
    Leads name (folder.locate path) ∧ after.stored? name = some [] := by
  have emptied : (Folder.mk (folder.files.set name .empty)).stored? name = some [] := by
    rw [stored?, Bindings.get?_set_self]
    rfl
  unfold create at created
  cases located : folder.locate path with
  | error error =>
    rw [located] at created
    cases created
  | ok place =>
    rw [located] at created
    cases place with
    | directory => cases created
    | present endpoint slash =>
      cases slash with
      | true => cases endpoint <;> cases created
      | false =>
        cases endpoint with
        | file other =>
          cases created
          exact ⟨.inl rfl, emptied⟩
        | _ => cases created
    | absent place other slash =>
      cases slash with
      | true => cases place <;> cases created
      | false =>
        cases place with
        | here =>
          cases created
          exact ⟨.inr rfl, emptied⟩
        | _ => cases created

theorem readText_of_stored {text : String} (source : folder.source path = .ok (.file name))
    (stored : folder.stored? name = some (Text.bytes text)) : folder.readText path = .ok text := by
  have read := read_of_stored stored 0 (folder.size (.file name))
  rw [size_of_stored stored, List.drop_zero, List.take_length, ← size_of_stored stored] at read
  unfold readText
  rw [source, ok_bind, read, ok_bind, Text.fromUTF8?_bytes]
  rfl

/-- A path that led to a file when it was created leads to it as long as the file is there. -/
theorem source_of_create (created : folder.create path = .ok (.file name, after))
    (known : (later.files.get? name).isSome) : later.source path = .ok (.file name) := by
  unfold source
  rw [locate_file known (create_file created).1]
  rfl

end Folder

/-! ### Writing through a buffer -/

/-- What was written: the bytes that are in the file, and behind them those kept back. -/
structure Writer.Holds (writer : Writer) (folder : Folder) (name : String) (bytes : List UInt8) :
    Prop where
  sink : writer.sink = .file name
  split : ∃ before, folder.stored? name = some before ∧ writer.offset = before.length ∧
    before ++ writer.buffer.data.toList = bytes

namespace Writer

variable {writer : Writer} {folder : Folder} {name : String} {before bytes : List UInt8}

theorem direct_end (sink : writer.sink = .file name) (stored : folder.stored? name = some before)
    (offset : writer.offset = before.length) (chunk : ByteArray) :
    ∃ later, writer.direct folder chunk =
        .ok (later, { writer with offset := writer.offset + chunk.size }) ∧
      later.stored? name = some (before ++ chunk.data.toList) := by
  obtain ⟨later, done, stored'⟩ := Folder.write_end stored chunk
  refine ⟨later, ?_, stored'⟩
  unfold direct
  rw [sink, offset, done]
  rfl

variable (holds : writer.Holds folder name bytes)

include holds

/-- Writing out keeps back nothing. -/
theorem Holds.flush :
    ∃ later, writer.flush folder = .ok (later, ⟨.file name, bytes.length, .empty⟩) ∧
      later.stored? name = some bytes := by
  obtain ⟨before, stored, offset, rfl⟩ := holds.split
  obtain ⟨later, done, stored'⟩ := direct_end holds.sink stored offset writer.buffer
  refine ⟨later, ?_, stored'⟩
  have size : (before ++ writer.buffer.data.toList).length = writer.offset + writer.buffer.size := by
    rw [List.length_append, offset]
    rfl
  unfold Writer.flush
  rw [done, size, ← holds.sink]
  rfl

/-- A piece goes past the buffer or into it. One that is too large for any buffer finds it empty. -/
theorem Holds.take {chunk : ByteArray}
    (empty : bufferSize ≤ chunk.size → writer.buffer.data.toList = []) :
    ∃ later writer', (if bufferSize ≤ chunk.size then writer.direct folder chunk
        else pure (folder, { writer with buffer := writer.buffer ++ chunk })) = .ok (later, writer') ∧
      writer'.Holds later name (bytes ++ chunk.data.toList) := by
  obtain ⟨before, stored, offset, rfl⟩ := holds.split
  by_cases large : bufferSize ≤ chunk.size
  · obtain ⟨later, done, stored'⟩ := direct_end holds.sink stored offset chunk
    refine ⟨later, _, (if_pos large).trans done, ⟨holds.sink, _, stored', ?_, ?_⟩⟩
    · rw [List.length_append, ← offset]
      rfl
    · show _ ++ writer.buffer.data.toList = _
      rw [empty large, List.append_nil, List.append_nil]
  · refine ⟨folder, _, if_neg large, ⟨holds.sink, before, stored, offset, ?_⟩⟩
    rw [ByteArray.data_append, Array.toList_append, List.append_assoc]

theorem Holds.put (chunk : ByteArray) :
    ∃ later writer', writer.put folder chunk = .ok (later, writer') ∧
      writer'.Holds later name (bytes ++ chunk.data.toList) := by
  unfold Writer.put
  by_cases full : bufferSize - writer.buffer.size < chunk.size
  · obtain ⟨middle, done, stored⟩ := holds.flush
    have flushed : Writer.Holds ⟨.file name, bytes.length, .empty⟩ middle name bytes :=
      ⟨rfl, bytes, stored, rfl, List.append_nil bytes⟩
    simp only [if_pos full, done]
    exact flushed.take fun _ => rfl
  · simp only [if_neg full]
    refine holds.take fun large => List.length_eq_zero_iff.mp ?_
    show writer.buffer.size = 0
    have some_room : 0 < bufferSize := by decide
    omega

theorem Holds.putAll (pieces : List String) :
    ∃ later writer', writer.putAll folder pieces = (.ok (), later, writer') ∧
      writer'.Holds later name (bytes ++ Text.bytes (String.join pieces)) := by
  induction pieces generalizing writer folder bytes with
  | nil =>
    exact ⟨folder, writer, rfl, by rwa [show Text.bytes (String.join []) = [] from rfl, List.append_nil]⟩
  | cons piece rest ih =>
    obtain ⟨middle, writer', done, holds⟩ := holds.put piece.toUTF8
    obtain ⟨later, writer'', finished, holds⟩ := ih holds
    refine ⟨later, writer'', ?_, ?_⟩
    · unfold Writer.putAll
      rw [done]
      exact finished
    · rw [String.join_cons, Text.bytes_append, ← List.append_assoc]
      exact holds

end Writer

/-! ### Reading through a buffer -/

/-- The bytes up to the end of the first line. -/
def firstLine (bytes : List UInt8) : List UInt8 :=
  bytes.takeWhile (· != lineFeed) ++ (bytes.dropWhile (· != lineFeed)).take 1

/-- The bytes behind the first line. -/
def furtherLines (bytes : List UInt8) : List UInt8 := (bytes.dropWhile (· != lineFeed)).drop 1

theorem furtherLines_suffix (bytes : List UInt8) : furtherLines bytes <:+ bytes :=
  (List.drop_suffix 1 _).trans (List.dropWhile_suffix _)

theorem lines_of_feed {feed : UInt8} (behind : block.dropWhile (· != lineFeed) = feed :: rest)
    (tail : List UInt8) :
    firstLine (block ++ tail) = block.takeWhile (· != lineFeed) ++ [feed] ∧
      furtherLines (block ++ tail) = rest ++ tail := by
  have whole := List.takeWhile_append_dropWhile (p := (· != lineFeed)) (l := block)
  have shorter : (block.takeWhile (· != lineFeed)).length ≠ block.length := by
    intro same
    have lengths := congrArg List.length whole
    rw [behind, List.length_append, List.length_cons] at lengths
    omega
  unfold firstLine furtherLines
  rw [List.takeWhile_append, if_neg shorter, List.dropWhile_append, behind]
  exact ⟨rfl, rfl⟩

theorem lines_of_no_feed (inside : ∀ byte ∈ block, (byte != lineFeed) = true) (tail : List UInt8) :
    firstLine (block ++ tail) = block ++ firstLine tail ∧
      furtherLines (block ++ tail) = furtherLines tail := by
  unfold firstLine furtherLines
  rw [List.takeWhile_append_of_pos inside, List.dropWhile_append_of_pos inside, List.append_assoc]
  exact ⟨rfl, rfl⟩

/-- What is left to read: the bytes that were taken, and behind them those that are in the file. -/
structure Reader.Ahead (reader : Reader) (folder : Folder) (name : String) (bytes : List UInt8) :
    Prop where
  source : reader.source = .file name
  split : ∃ all, folder.stored? name = some all ∧ reader.buffer ++ all.drop reader.offset = bytes ∧
    bytes <:+ all

namespace Reader

variable {reader : Reader} {folder : Folder} {name : String} {bytes : List UInt8}

/-- A block is taken where none is left, and nothing is left where there is none. -/
theorem Ahead.filled (ahead : reader.Ahead folder name bytes) :
    ∃ reader', reader.filled folder = .ok reader' ∧ reader'.Ahead folder name bytes ∧
      (reader'.buffer = [] → bytes = []) := by
  obtain ⟨source, offset, buffer⟩ := reader
  obtain ⟨rfl, all, stored, left, suffix⟩ := ahead
  cases buffer with
  | cons byte rest => exact ⟨_, rfl, ⟨rfl, all, stored, left, suffix⟩, nofun⟩
  | nil =>
    have read := Folder.read_of_stored stored offset bufferSize
    have behind : (all.drop offset).take bufferSize ++
        all.drop (offset + ((all.drop offset).take bufferSize).length) = bytes := by
      rw [← List.drop_drop, ← left]
      exact (List.prefix_iff_eq_append.mp (List.take_prefix _ _))
    refine ⟨⟨.file name, _, _⟩, by unfold Reader.filled; simp only [read]; rfl,
      ⟨rfl, all, stored, behind, suffix⟩, fun nothing => ?_⟩
    rcases List.take_eq_nil_iff.mp nothing with none | none
    · cases none
    · rw [← left, none]
      rfl

/-- **Blocks of any size make up a line.** -/
theorem Ahead.gather (ahead : reader.Ahead folder name bytes) {blocks : Nat}
    (enough : (bytes.takeWhile (· != lineFeed)).length < blocks) (before : List UInt8) :
    ∃ reader', reader.gather folder blocks before = .ok (before ++ firstLine bytes, reader') ∧
      reader'.Ahead folder name (furtherLines bytes) := by
  induction blocks generalizing reader bytes before with
  | zero => cases enough
  | succ blocks ih =>
    obtain ⟨⟨_, offset, block⟩, made, ⟨rfl, all, stored, rfl, suffix⟩, nothing⟩ := ahead.filled
    unfold Reader.gather
    rw [made, ok_bind, List.span_eq_takeWhile_dropWhile]
    cases behind : block.dropWhile (· != lineFeed) with
    | cons feed rest =>
      -- the line ends in this block
      obtain ⟨line, further⟩ := lines_of_feed behind (all.drop offset)
      rw [line, further, ← List.append_assoc]
      exact ⟨_, rfl, rfl, all, stored, rfl, further ▸ (furtherLines_suffix _).trans suffix⟩
    | nil =>
      have inside : ∀ byte ∈ block, (byte != lineFeed) = true := List.dropWhile_eq_nil_iff.mp behind
      rw [List.takeWhile_eq_self_iff.mpr inside]
      cases block with
      | nil =>
        rw [nothing rfl]
        rw [show firstLine [] = [] from rfl, List.append_nil]
        exact ⟨_, rfl, rfl, all, stored, nothing rfl, List.nil_suffix⟩
      | cons byte more =>
        -- the whole block is part of the line, and what follows is in the file
        obtain ⟨line, further⟩ := lines_of_no_feed inside (all.drop offset)
        change ((byte :: more ++ all.drop offset).takeWhile (· != lineFeed)).length < _ at enough
        rw [List.takeWhile_append_of_pos inside, List.length_append, List.length_cons] at enough
        have ahead : Reader.Ahead ⟨.file name, offset, []⟩ folder name (all.drop offset) :=
          ⟨rfl, all, stored, rfl, List.drop_suffix offset all⟩
        rw [line, further, ← List.append_assoc]
        exact ih ahead (by omega) (before ++ byte :: more)

/-- A line is gathered to its end. -/
theorem Ahead.gather_all (ahead : reader.Ahead folder name bytes) :
    ∃ reader', reader.gather folder (folder.size reader.source + 2) [] =
        .ok (firstLine bytes, reader') ∧ reader'.Ahead folder name (furtherLines bytes) := by
  obtain ⟨all, stored, -, suffix⟩ := ahead.split
  refine ahead.gather ?_ []
  have shorter := (List.takeWhile_sublist (p := (· != lineFeed)) (l := bytes)).length_le
  have within := suffix.length_le
  rw [ahead.source, Folder.size_of_stored stored]
  omega

/-- At the end of a file there is no line. -/
theorem Ahead.line_end (ahead : reader.Ahead folder name []) :
    ∃ reader', reader.line folder = (.ok none, reader') ∧ reader'.Ahead folder name [] := by
  obtain ⟨reader', done, ahead⟩ := ahead.gather_all
  refine ⟨reader', ?_, ahead⟩
  unfold Reader.line
  rw [done]
  rfl

/-- The next line is the text that was written as one. -/
theorem Ahead.line_text {text : String} (fits : Text.OneLine text)
    (ahead : reader.Ahead folder name (Text.bytes text ++ lineFeed :: rest)) :
    ∃ reader', reader.line folder = (.ok (some text), reader') ∧ reader'.Ahead folder name rest := by
  have inside : ∀ byte ∈ Text.bytes text, (byte != lineFeed) = true := by
    rintro byte member
    exact bne_iff_ne.mpr fun same => Text.lineFeed_not_mem_bytes fits.1 (same ▸ member)
  obtain ⟨line, further⟩ := lines_of_no_feed inside (lineFeed :: rest)
  obtain ⟨reader', done, ahead⟩ := ahead.gather_all
  rw [line] at done
  rw [further] at ahead
  refine ⟨reader', ?_, ahead⟩
  have whole : Text.bytes text ++ firstLine (lineFeed :: rest) = Text.bytes (text ++ "\n") :=
    (Text.bytes_line text).symm
  have some_bytes : Text.bytes (text ++ "\n") ≠ [] := by
    rw [Text.bytes_line]
    exact List.append_ne_nil_of_right_ne_nil _ (List.cons_ne_nil _ _)
  unfold Reader.line
  rw [done, whole]
  cases read : Text.bytes (text ++ "\n") with
  | nil => exact absurd read some_bytes
  | cons first others =>
    simp only [← read, Text.fromUTF8?_bytes, Text.chopped_line fits]

end Reader

/-! ### Operations on files -/

namespace Files

variable {files : Files} {number : Nat}

theorem handle_setHandle {handle : Handle} (known : files.handle number ≠ .closed) :
    (files.setHandle number handle).handle number = handle := by
  have inside : number < files.handles.size := by
    by_contra outside
    exact known (by simp [Files.handle, Array.getD, outside])
  simp [Files.handle, setHandle, Array.getD, inside]

theorem handle_add (files : Files) (path : String) (handle : Handle) :
    (files.add path handle).2.handle (files.add path handle).1.handle = handle := by
  simp [Files.handle, add, Array.getD]

end Files

theorem Action.bind_ok {action : Action α} {next : α → Action β} {later : World} {value : α}
    (done : action world = .ok value later) : (action >>= next) world = next value later := by
  show EStateM.bind action next world = _
  unfold EStateM.bind
  rw [done]

theorem onFiles_ok {operation : Files → Except FileFault α × Files} {value : α}
    (done : operation world.files = (.ok value, files)) :
    onFiles operation world = .ok value { world with files } := by
  have changed : (modifyGet fun world => ((operation world.files).1,
      { world with files := (operation world.files).2 }) : Action (Except FileFault α)) world =
        .ok (.ok value) { world with files } := by
    show EStateM.Result.ok (operation world.files).1 { world with files := (operation world.files).2 } = _
    rw [done]
  exact Action.bind_ok changed

namespace World

variable {world later : World} {ref : FileRef} {name : String} {bytes : List UInt8}
variable {path : String}

/-- A change that leaves an open file and the content of a file alone. -/
structure Spares (ref : FileRef) (name : String) (world later : World) : Prop where
  handle : later.files.handle ref.handle = world.files.handle ref.handle
  content : later.files.folder.files.get? name = world.files.folder.files.get? name

/-- A file is open for writing, and these bytes were written. -/
def Writing (ref : FileRef) (name : String) (bytes : List UInt8) (world : World) : Prop :=
  ∃ writer, world.files.handle ref.handle = .writing writer ∧
    writer.Holds world.files.folder name bytes

/-- A file is open for reading, and these bytes are left. -/
def Reading (ref : FileRef) (name : String) (bytes : List UInt8) (world : World) : Prop :=
  ∃ reader, world.files.handle ref.handle = .reading reader ∧
    reader.Ahead world.files.folder name bytes

theorem Spares.refl (ref : FileRef) (name : String) (world : World) : Spares ref name world world :=
  ⟨rfl, rfl⟩

theorem Spares.stored? (spares : Spares ref name world later) :
    later.files.folder.stored? name = world.files.folder.stored? name := by
  rw [Folder.stored?, Folder.stored?, spares.content]

theorem Spares.writing (spares : Spares ref name world later)
    (writing : world.Writing ref name bytes) : later.Writing ref name bytes := by
  obtain ⟨writer, handle, sink, before, stored, rest⟩ := writing
  exact ⟨writer, spares.handle.trans handle, sink, before, spares.stored?.trans stored, rest⟩

theorem Spares.reading (spares : Spares ref name world later)
    (reading : world.Reading ref name bytes) : later.Reading ref name bytes := by
  obtain ⟨reader, handle, source, all, stored, rest⟩ := reading
  exact ⟨reader, spares.handle.trans handle, source, all, spares.stored?.trans stored, rest⟩

theorem Writing.write (writing : world.Writing ref name bytes) (value : Value) :
    ∃ later, Builtin.write.call [.file ref, value] world = .ok .none later ∧
      later.heap = world.heap ∧
      later.Writing ref name (bytes ++ Text.bytes (value.shown world.heap ++ "\n")) := by
  obtain ⟨writer, open_, holds⟩ := writing
  obtain ⟨folder, writer', put, holds⟩ := holds.putAll (value.written world.heap ++ ["\n"])
  have done : world.files.writeLine ref (value.written world.heap) =
      (.ok (), { world.files with folder }.setHandle ref.handle (.writing writer')) := by
    unfold Files.writeLine
    rw [open_]
    simp only [put]
    rfl
  have shown : String.join (value.written world.heap ++ ["\n"]) = value.shown world.heap ++ "\n" := by
    rw [String.join_append]
    rfl
  refine ⟨{ world with files := { world.files with folder }.setHandle ref.handle (.writing writer') },
    Action.bind_ok (onFiles_ok done), rfl, writer', Files.handle_setHandle ?_, shown ▸ holds⟩
  show world.files.handle ref.handle ≠ .closed
  rw [open_]
  exact nofun

/-- What was written is in the file once it is closed. -/
theorem Writing.close (writing : world.Writing ref name bytes) :
    ∃ later, Builtin.close.call [.file ref] world = .ok .none later ∧
      later.files.folder.stored? name = some bytes := by
  obtain ⟨writer, open_, holds⟩ := writing
  obtain ⟨folder, flushed, stored⟩ := holds.flush
  have done : world.files.close ref =
      (.ok (), { world.files with folder }.setHandle ref.handle .closed) := by
    unfold Files.close
    rw [open_]
    simp only [flushed]
  exact ⟨_, Action.bind_ok (onFiles_ok done), stored⟩

/-- The next line of a file is read, if there is one. -/
theorem read_line {reader reader' : Reader} {line : Option String}
    (open_ : world.files.handle ref.handle = .reading reader)
    (read : reader.line world.files.folder = (.ok line, reader'))
    (ahead : reader'.Ahead world.files.folder name bytes) :
    ∃ later, Builtin.read.call [.file ref] world = .ok (line.elim .none .text) later ∧
      later.Reading ref name bytes := by
  have done : world.files.readLine ref =
      (.ok line, world.files.setHandle ref.handle (.reading reader')) := by
    unfold Files.readLine
    rw [open_]
    simp only [read]
    rfl
  refine ⟨{ world with files := world.files.setHandle ref.handle (.reading reader') },
    (Action.bind_ok (onFiles_ok done)).trans (by cases line <;> rfl),
    reader', Files.handle_setHandle ?_, ahead⟩
  rw [open_]
  exact nofun

/-- The next of the lines that are left is read, or nothing if none is. -/
theorem Reading.read {texts : List String} (fits : ∀ text ∈ texts, Text.OneLine text)
    (reading : world.Reading ref name (Text.bytes (Text.lines texts))) :
    ∃ later, Builtin.read.call [.file ref] world = .ok (texts.head?.elim .none .text) later ∧
      later.Reading ref name (Text.bytes (Text.lines texts.tail)) := by
  obtain ⟨reader, open_, ahead⟩ := reading
  cases texts with
  | nil =>
    obtain ⟨reader', line, ahead⟩ := ahead.line_end
    exact read_line open_ line ahead
  | cons text texts =>
    rw [Text.bytes_lines_cons] at ahead
    obtain ⟨reader', line, ahead⟩ := ahead.line_text (fits text List.mem_cons_self)
    exact read_line open_ line ahead

theorem call_open {mode : String} (opened : world.files.openFile path mode = .ok (ref, files)) :
    Builtin.open_.call [.text path, .text mode] world = .ok (.file ref) { world with files } := by
  have taken : Builtin.open_.call [.text path, .text mode] world = openPath path mode world := rfl
  have got : (get : Action World) world = .ok world world := rfl
  refine taken.trans ((Action.bind_ok got).trans ?_)
  rw [opened]
  rfl

theorem open_writing {folder : Folder}
    (created : world.files.folder.create path = .ok (.file name, folder)) :
    ∃ ref later, Builtin.open_.call [.text path, .text "w"] world = .ok (.file ref) later ∧
      later.heap = world.heap ∧ later.Writing ref name [] := by
  have opened : world.files.openFile path "w" =
      .ok ({ world.files with folder }.add path (.writing (.new (.file name)))) := by
    unfold Files.openFile
    rw [if_neg (by decide), if_pos (by decide), created]
  exact ⟨_, _, call_open opened, rfl, _, Files.handle_add _ _ _, rfl, [],
    (Folder.create_file created).2, rfl, rfl⟩

theorem open_reading (source : world.files.folder.source path = .ok (.file name))
    (stored : world.files.folder.stored? name = some bytes) :
    ∃ ref later, Builtin.open_.call [.text path, .text "r"] world = .ok (.file ref) later ∧
      later.Reading ref name bytes := by
  have opened : world.files.openFile path "r" =
      .ok (world.files.add path (.reading (.new (.file name)))) := by
    unfold Files.openFile
    rw [if_pos (by decide), source]
  exact ⟨_, _, call_open opened, _, Files.handle_add _ _ _, rfl, bytes, stored, rfl,
    List.suffix_refl bytes⟩

/-! ### Runs of reads and writes -/

/-- Writes values to a file, with something else in front of each; gives the texts of the values. -/
def writeLines (ref : FileRef) : List ((World → World) × Value) → Action (List String)
  | [] => return []
  | (meanwhile, value) :: rest => do
    modify meanwhile
    let text := value.shown (← get).heap
    let _ ← Builtin.write.call [.file ref, value]
    return text :: (← writeLines ref rest)

/-- Reads from a file, with something else in front of each reading. -/
def readLines (ref : FileRef) : List (World → World) → Action (List Value)
  | [] => return []
  | meanwhile :: rest => do
    modify meanwhile
    let line ← Builtin.read.call [.file ref]
    return line :: (← readLines ref rest)

/-- **Values written one after the other stand on one line each.** -/
theorem Writing.writeLines {entries : List ((World → World) × Value)}
    (spared : ∀ entry ∈ entries, ∀ world, Spares ref name world (entry.1 world))
    (writing : world.Writing ref name bytes) :
    ∃ texts later, World.writeLines ref entries world = .ok texts later ∧
      ((∀ entry ∈ entries, ∀ world, (entry.1 world).heap = world.heap) →
        texts = entries.map fun entry => entry.2.shown world.heap) ∧
      later.Writing ref name (bytes ++ Text.bytes (Text.lines texts)) := by
  induction entries generalizing world bytes with
  | nil =>
    refine ⟨[], world, rfl, fun _ => rfl, ?_⟩
    rwa [show Text.bytes (Text.lines []) = [] from rfl, List.append_nil]
  | cons entry rest ih =>
    obtain ⟨meanwhile, value⟩ := entry
    have writing := (spared _ List.mem_cons_self world).writing writing
    obtain ⟨middle, done, heap, writing⟩ := writing.write value
    obtain ⟨texts, later, finished, same, writing⟩ :=
      ih (fun entry member => spared entry (List.mem_cons_of_mem _ member)) writing
    have changed : (modify meanwhile : Action PUnit) world = .ok ⟨⟩ (meanwhile world) := rfl
    have got : (get : Action World) (meanwhile world) = .ok _ (meanwhile world) := rfl
    refine ⟨value.shown (meanwhile world).heap :: texts, later, ?_, fun quiet => ?_, ?_⟩
    · exact (Action.bind_ok changed).trans ((Action.bind_ok got).trans
        ((Action.bind_ok done).trans (Action.bind_ok finished)))
    · have quietly : (meanwhile world).heap = world.heap := quiet _ List.mem_cons_self world
      rw [List.map_cons, same fun entry member => quiet entry (List.mem_cons_of_mem _ member), heap,
        quietly]
    · rwa [Text.bytes_lines_cons, ← List.singleton_append, ← List.append_assoc (Text.bytes _),
        ← Text.bytes_line, ← List.append_assoc]

/-- **Lines are read one after the other, and then there is nothing.** -/
theorem Reading.readLines {texts : List String} {pauses : List (World → World)}
    (fits : ∀ text ∈ texts, Text.OneLine text)
    (spared : ∀ pause ∈ pauses, ∀ world, Spares ref name world (pause world))
    (reading : world.Reading ref name (Text.bytes (Text.lines texts))) :
    ∃ later, World.readLines ref pauses world =
      .ok ((List.range pauses.length).map fun index => texts[index]?.elim .none .text) later := by
  induction pauses generalizing world texts with
  | nil => exact ⟨world, rfl⟩
  | cons meanwhile rest ih =>
    have reading := (spared _ List.mem_cons_self world).reading reading
    have changed : (modify meanwhile : Action PUnit) world = .ok ⟨⟩ (meanwhile world) := rfl
    have spared := fun pause member => spared pause (List.mem_cons_of_mem _ member)
    obtain ⟨middle, done, reading⟩ := reading.read fits
    obtain ⟨later, finished⟩ :=
      ih (fun text member => fits text (List.mem_of_mem_tail member)) spared reading
    refine ⟨later, (Action.bind_ok changed).trans ((Action.bind_ok done).trans
      ((Action.bind_ok finished).trans ?_))⟩
    rw [List.length_cons, List.range_succ_eq_map, List.map_cons, List.map_map]
    cases texts <;> rfl

/-- **Lines written are the lines read back.** A path that leads to a file, or to where one can be
created, is opened for writing, values are written to it, and it is closed: every call succeeds, and
the file holds the text of each value and the end of a line. If the texts can stand on lines of their
own, the path is then opened for reading, and reading gives the texts in order and nothing from then
on. Whatever else happens before each of these calls, as long as it leaves the open file and the
content of the file alone; a value is written with the text it has at that moment. -/
theorem lines_read_back {world : World} {path name : String} {folder : Folder}
    (created : world.files.folder.create path = .ok (.file name, folder)) :
    ∃ ref opened, Builtin.open_.call [.text path, .text "w"] world = .ok (.file ref) opened ∧
    ∀ entries : List ((World → World) × Value),
      (∀ entry ∈ entries, ∀ world, Spares ref name world (entry.1 world)) →
    ∃ texts written, writeLines ref entries opened = .ok texts written ∧
      ((∀ entry ∈ entries, ∀ world, (entry.1 world).heap = world.heap) →
        texts = entries.map fun entry => entry.2.shown world.heap) ∧
    ∀ closing, Spares ref name written closing →
    ∃ closed, Builtin.close.call [.file ref] closing = .ok .none closed ∧
      closed.files.folder.readText path = .ok (Text.lines texts) ∧
      ((∀ text ∈ texts, Text.OneLine text) → ∀ reopening : World,
        reopening.files.folder.files.get? name = closed.files.folder.files.get? name →
      ∃ ref' reopened, Builtin.open_.call [.text path, .text "r"] reopening =
          .ok (.file ref') reopened ∧
        ∀ pauses : List (World → World),
          (∀ pause ∈ pauses, ∀ world, Spares ref' name world (pause world)) →
          ∃ finished, readLines ref' pauses reopened =
            .ok ((List.range pauses.length).map fun index => texts[index]?.elim .none .text)
              finished) := by
  obtain ⟨ref, opened, done, heap, writing⟩ := open_writing created
  refine ⟨ref, opened, done, fun entries spared => ?_⟩
  obtain ⟨texts, written, done, same, writing⟩ := writing.writeLines spared
  rw [List.nil_append] at writing
  refine ⟨texts, written, done, heap ▸ same, fun closing spares => ?_⟩
  obtain ⟨closed, done, stored⟩ := (spares.writing writing).close
  have source : ∀ later : Folder, later.stored? name = some (Text.bytes (Text.lines texts)) →
      later.source path = .ok (.file name) := by
    intro later stored
    obtain ⟨content, found, -⟩ := Option.map_eq_some_iff.mp stored
    exact Folder.source_of_create created (Option.isSome_iff_exists.mpr ⟨content, found⟩)
  refine ⟨closed, done, Folder.readText_of_stored (source _ stored) stored,
    fun fits reopening content => ?_⟩
  have stored : reopening.files.folder.stored? name = some (Text.bytes (Text.lines texts)) := by
    rw [← stored, Folder.stored?, Folder.stored?, content]
  obtain ⟨ref', reopened, done, reading⟩ := open_reading (source _ stored) stored
  exact ⟨ref', reopened, done, fun pauses spared => reading.readLines fits spared⟩

/-- A text, a negative number and an empty text, in a folder that was empty. -/
theorem lines_read_back_notes :
    ∃ ref opened, Builtin.open_.call [.text "notes", .text "w"] (.new .empty none) =
        .ok (.file ref) opened ∧
    ∃ written, writeLines ref [(id, .text "one"), (id, .int (-7)), (id, .text "")] opened =
        .ok ["one", "-7", ""] written ∧
    ∃ closed, Builtin.close.call [.file ref] written = .ok .none closed ∧
      closed.files.folder.readText "notes" = .ok "one\n-7\n\n" ∧
    ∃ ref' reopened, Builtin.open_.call [.text "notes", .text "r"] closed =
        .ok (.file ref') reopened ∧
    ∃ finished, readLines ref' [id, id, id, id, id] reopened =
      .ok [.text "one", .text "-7", .text "", .none, .none] finished := by
  have created : (World.new .empty none).files.folder.create "notes" =
      .ok (.file "notes", ⟨Folder.empty.files.set "notes" .empty⟩) := by rfl
  obtain ⟨ref, opened, done, further⟩ := lines_read_back created
  refine ⟨ref, opened, done, ?_⟩
  obtain ⟨texts, written, done, same, further⟩ :=
    further [(id, .text "one"), (id, .int (-7)), (id, .text "")] (by simp [Spares.refl])
  have texts_eq : texts = ["one", "-7", ""] := (same (by simp)).trans (by decide +kernel)
  subst texts_eq
  refine ⟨written, done, ?_⟩
  obtain ⟨closed, done, text, further⟩ := further written (.refl _ _ _)
  refine ⟨closed, done, text, ?_⟩
  have fits : ∀ text ∈ ["one", "-7", ""], Text.OneLine text := by
    simp [Text.OneLine]
  obtain ⟨ref', reopened, done, further⟩ := further fits closed rfl
  exact ⟨ref', reopened, done, further [id, id, id, id, id] (by simp [Spares.refl])⟩

end World

end ScopedScript
