/-
**Texts follow the structure of values.**

What a value shows is laid out along the paths into it: a container shows its parts between brackets, unless
it is cut, and then it shows as an abbreviation. Rendering keeps the containers that are open around a
value; they are the ones that the path to it leads through:

* `Value.word`, `Shape.enclose`: what a value shows in one piece, and how a container holds its parts;
* `Value.Laid`: the text of what a path leads to, given where containers are cut;
* `Value.Repeats`: a path ends in a container that it led through before;
* `Value.Laid.transfer`: values that look alike along all paths have the same text;
* `Value.laid_shown`, `Value.laid_plain`: rendering cuts where a path repeats, and nowhere without cycles;
* `Value.rendering_faithful`: **rendering ends, cuts nothing but repeated containers, and shows equal values
  alike.**
-/

import ScopedScript.Proofs.Bisimilarity

namespace ScopedScript

/-! ### The parts of a text -/

/-- The texts of its parts, as a container of some shape holds them. -/
def Shape.enclose : Shape → List String → String
  | .map _, texts => "\x7b" ++ ", ".intercalate texts ++ "\x7d"
  | _, texts => "[" ++ ", ".intercalate texts ++ "]"

/-- What stands before a part. -/
def PathStep.label : PathStep → String
  | .item _ => ""
  | .entry key => key.shown ++ ": "

namespace Value

variable {heap : Heap} {a b root root' value : Value} {cut cut' : List PathStep → Prop}
  {path : List PathStep} {text text' : String}

/-- What a value shows in one piece. Texts stand between quotes inside containers, and a container is
abbreviated. -/
def word (nested : Bool) : Value → String
  | .int value => Decimal.text value
  | .bool value => boolText value
  | .text value => if nested then "\"" ++ value ++ "\"" else value
  | .none => "None"
  | .array _ => "[...]"
  | .map _ => "\x7b...\x7d"
  | .function name _ => name
  | .builtin name => name
  | .file ref => "<file " ++ ref.path ++ ">"

/-- The text of what a path leads to: containers are opened unless the path is cut there, and all else
shows in one piece. -/
inductive Laid (heap : Heap) (root : Value) (cut : List PathStep → Prop) :
    List PathStep → String → Prop
  | closed {path : List PathStep} {value : Value} : root.follow heap path = some value →
    (value.isContainer = true → cut path) → Laid heap root cut path (value.word !path.isEmpty)
  | opened {path : List PathStep} {value : Value} (texts : PathStep → String) :
    root.follow heap path = some value → value.isContainer = true → ¬ cut path →
    (∀ step ∈ (value.shape heap).steps, Laid heap root cut (path ++ [step]) (texts step)) →
    Laid heap root cut path ((value.shape heap).enclose
      ((value.shape heap).steps.map fun step => step.label ++ texts step))

/-- What a path leads to is one of the values that it leads through. -/
def Repeats (heap : Heap) (root : Value) (path : List PathStep) : Prop :=
  ∃ shorter, shorter <+: path ∧ shorter ≠ path ∧ root.follow heap shorter = root.follow heap path

theorem Laid.unique (laid : Laid heap root cut path text) (laid' : Laid heap root cut path text') :
    text = text' := by
  induction laid generalizing text' with
  | closed found closes =>
    cases laid' with
    | closed found' => rw [Option.some.inj (found.symm.trans found')]
    | opened _ found' holds open_ =>
      rw [Option.some.inj (found'.symm.trans found)] at holds
      exact absurd (closes holds) open_
  | opened texts found holds open_ _ ih =>
    cases laid' with
    | closed found' closes =>
      rw [Option.some.inj (found.symm.trans found')] at holds
      exact absurd (closes holds) open_
    | opened texts' found' _ _ parts =>
      obtain rfl := Option.some.inj (found.symm.trans found')
      exact congrArg _ (List.map_congr_left fun step member => by
        rw [ih step member (parts step member)])

theorem isContainer_eq_of_shape (shapes : a.shape heap = b.shape heap) :
    a.isContainer = b.isContainer := by
  cases a <;> cases b <;> first | rfl | cases shapes

/-- **Values that look alike** along all paths, and are cut at the same ones, have the same text. -/
theorem Laid.transfer (alike : ∀ path value, root.follow heap path = some value →
      ∃ other, root'.follow heap path = some other ∧ other.shape heap = value.shape heap ∧
        other.word (!path.isEmpty) = value.word (!path.isEmpty) ∧
        (value.isContainer = true → (cut' path ↔ cut path)))
    (laid : Laid heap root cut path text) : Laid heap root' cut' path text := by
  induction laid with
  | closed found closes =>
    obtain ⟨other, found', shapes, words, cuts⟩ := alike _ _ found
    rw [← words]
    refine .closed found' fun holds => ?_
    rw [isContainer_eq_of_shape shapes] at holds
    exact (cuts holds).mpr (closes holds)
  | opened texts found holds open_ _ ih =>
    obtain ⟨other, found', shapes, -, cuts⟩ := alike _ _ found
    rw [← shapes] at ih ⊢
    refine .opened texts found' ?_ (mt (cuts holds).mp open_) ih
    rwa [isContainer_eq_of_shape shapes]

/-! ### One level of a text -/

theorem join_separated (texts : List (List String)) :
    String.join (separated texts) = ", ".intercalate (texts.map String.join) := by
  induction texts with
  | nil => rfl
  | cons first rest ih =>
    cases rest with
    | nil => rw [separated, List.map_singleton, String.intercalate_singleton]
    | cons second rest =>
      rw [separated, String.join_append, String.join_cons, ih]
      · simp only [List.map_cons, String.intercalate_cons_cons, String.append_assoc]
      · exact nofun

theorem map_steps_array (heap : Heap) (place : Nat) (shown : Value → String) :
    ((Value.array place).shape heap).steps.map (fun step =>
        step.label ++ shown (((Value.array place).part? heap step).getD .none)) =
      (heap.items place).toList.map shown := by
  rw [shape, Shape.steps, List.map_map]
  refine List.ext_getElem? fun index => ?_
  by_cases inside : index < (heap.items place).size <;> simp [part?, PathStep.label, inside]

theorem map_steps_map (heap : Heap) (place : Nat) (shown : Value → String) :
    ((Value.map place).shape heap).steps.map (fun step =>
        step.label ++ shown (((Value.map place).part? heap step).getD .none)) =
      (heap.entries place).toList.map fun entry => entry.1.shown ++ ": " ++ shown entry.2 := by
  rw [shape, Shape.steps, List.map_map, ← Std.TreeMap.map_fst_toList_eq_keys, List.map_map]
  refine List.map_congr_left fun entry member => ?_
  simp [part?, PathStep.label, Std.TreeMap.mem_toList_iff_getElem?_eq_some.mp member]

/-- The text of a value inside the containers around it. -/
def textWithin (heap : Heap) (bound : Nat) (around : List Value) (nested : Bool) (value : Value) : String :=
  String.join (value.pieces heap bound around nested)

theorem textWithin_scalar (bound : Nat) (around : List Value) (nested : Bool)
    (scalar : value.isContainer = false) :
    value.textWithin heap bound around nested = value.word nested := by
  unfold textWithin
  cases value with
  | array => cases scalar
  | map => cases scalar
  | int value =>
    simp only [pieces, word, intPieces, Decimal.text]
    split <;> simp
  | text value => cases nested <;> simp [pieces, word, quotedPieces, String.append_assoc]
  | _ => simp [pieces, word, String.append_assoc]

/-- **One level of a text:** a container that is open already is abbreviated, and any other is opened. -/
theorem textWithin_succ (bound : Nat) (around : List Value) (nested : Bool)
    (holds : value.isContainer = true) :
    value.textWithin heap (bound + 1) around nested =
      if value ∈ around then value.word nested
      else (value.shape heap).enclose ((value.shape heap).steps.map fun step => step.label ++
        ((value.part? heap step).getD .none).textWithin heap bound (value :: around) true) := by
  unfold textWithin
  cases value with
  | array place =>
    simp only [pieces, List.contains_iff_mem]
    split
    · rfl
    · rw [map_steps_array heap place fun part => String.join (pieces heap bound _ true part),
        List.cons_append, String.join_cons, String.join_append, join_separated, List.map_map,
        ← String.append_assoc]
      rfl
  | map place =>
    simp only [pieces, List.contains_iff_mem]
    split
    · rfl
    · rw [map_steps_map heap place fun part => String.join (pieces heap bound _ true part),
        List.cons_append, String.join_cons, String.join_append, join_separated, List.map_map,
        ← String.append_assoc]
      refine congrArg (fun texts => "\x7b" ++ ", ".intercalate texts ++ "\x7d") (List.map_congr_left ?_)
      intro entry _
      simp [Key.shown, String.append_assoc]
  | _ => cases holds

/-- The paths before a longer one. -/
theorem prefix_concat {shorter : List PathStep} {step : PathStep} :
    (shorter <+: path ++ [step] ∧ shorter ≠ path ++ [step]) ↔ shorter <+: path := by
  rw [List.prefix_concat_iff]
  constructor
  · rintro ⟨same | earlier, proper⟩
    · exact absurd same proper
    · exact earlier
  · intro earlier
    refine ⟨.inr earlier, ?_⟩
    rintro rfl
    have := earlier.length_le
    rw [List.length_append, List.length_singleton] at this
    omega

/-- Rendering follows the paths into a value; what is open is what the path leads through. -/
theorem laid_textWithin {bound : Nat} {around : List Value} (found : root.follow heap path = some value)
    (ancestors : ∀ other, other ∈ around ↔
      ∃ shorter, shorter <+: path ∧ shorter ≠ path ∧ root.follow heap shorter = some other)
    (enough : unused heap.containers.toFinset around < bound) :
    Laid heap root (Repeats heap root) path (value.textWithin heap bound around !path.isEmpty) := by
  induction bound generalizing path value around with
  | zero => cases enough
  | succ bound ih =>
    have repeats : Repeats heap root path ↔ value ∈ around := by
      rw [ancestors, Repeats, found]
    cases holds : value.isContainer with
    | false =>
      rw [textWithin_scalar _ _ _ holds]
      exact .closed found fun holds' => nomatch holds.symm.trans holds'
    | true =>
      rw [textWithin_succ _ _ _ holds]
      split
      · rename_i open_
        exact .closed found fun _ => repeats.mpr open_
      · rename_i new
        refine .opened _ found holds (mt repeats.mp new) fun step member => ?_
        obtain ⟨part, here⟩ := mem_steps_iff.mp member
        have onward : root.follow heap (path ++ [step]) = some part := by
          rw [follow_append, found, Option.bind_some, follow, here]
          rfl
        have fewer := unused_cons (List.mem_toFinset.mpr (mem_containers_of_part (mem_parts here))) new
        have ancestors' : ∀ other, other ∈ value :: around ↔ ∃ shorter, shorter <+: path ++ [step] ∧
            shorter ≠ path ++ [step] ∧ root.follow heap shorter = some other := by
          intro other
          simp only [List.mem_cons, ancestors, ← and_assoc, prefix_concat]
          constructor
          · rintro (rfl | ⟨shorter, ⟨earlier, -⟩, reached⟩)
            · exact ⟨path, List.prefix_rfl, found⟩
            · exact ⟨shorter, earlier, reached⟩
          · rintro ⟨shorter, earlier, reached⟩
            by_cases last : shorter = path
            · rw [last, found] at reached
              exact .inl (Option.some.inj reached).symm
            · exact .inr ⟨shorter, ⟨earlier, last⟩, reached⟩
        have inner := ih onward ancestors' (by omega)
        have nested : (path ++ [step]).isEmpty = false := by simp
        rw [nested] at inner
        rwa [here]

/-- **Rendering cuts where a path repeats**, and gives a text of every value. -/
theorem laid_shown (heap : Heap) (value : Value) :
    Laid heap value (Repeats heap value) [] (value.shown heap) := by
  have few := Heap.unused_containers heap
  have ancestors : ∀ other, other ∈ ([] : List Value) ↔
      ∃ shorter, shorter <+: [] ∧ shorter ≠ [] ∧ value.follow heap shorter = some other := by
    refine fun other => iff_of_false List.not_mem_nil ?_
    rintro ⟨shorter, earlier, proper, -⟩
    exact proper (List.prefix_nil.mp earlier)
  exact laid_textWithin rfl ancestors (Nat.lt_succ_of_le few)

theorem Acyclic.not_repeats (acyclic : Acyclic heap value) {inner : Value}
    (found : value.follow heap path = some inner) : ¬ Repeats heap value path := by
  rintro ⟨shorter, ⟨rest, rfl⟩, proper, same⟩
  rw [found] at same
  rw [follow_append, same, Option.bind_some] at found
  obtain rfl := acyclic shorter rest inner same found
  exact proper (List.append_nil _).symm

/-- **Without cycles nothing is cut**, however often a container is shared. -/
theorem laid_plain (acyclic : Acyclic heap value) :
    Laid heap value (fun _ => False) [] (value.shown heap) :=
  (laid_shown heap value).transfer fun _ inner found =>
    ⟨inner, found, rfl, rfl, fun _ => iff_of_false id (acyclic.not_repeats found)⟩

/-! ### Equal values -/

/-- No path leads from a value to a function. -/
def FunctionFree (heap : Heap) (value : Value) : Prop :=
  ∀ path inner, value.follow heap path = some inner → inner.kind ≠ .function

theorem FunctionFree.of_parts (own : a.kind ≠ .function)
    (inner : ∀ part ∈ heap.parts a, FunctionFree heap part) : FunctionFree heap a := by
  intro path value reached
  cases path with
  | nil =>
    cases reached
    exact own
  | cons step path =>
    obtain ⟨part, here, onward⟩ := Option.bind_eq_some_iff.mp reached
    exact inner part (mem_parts here) path value onward

/-- Values of one shape that are no functions show the same in one piece. -/
theorem word_eq_of_shape (nested : Bool) (shapes : a.shape heap = b.shape heap)
    (plain : a.kind ≠ .function) : a.word nested = b.word nested := by
  cases a <;> cases b <;> simp_all [shape, word, kind]

/-- What is at the end of a path of a value is at the end of that path of an equal one. -/
theorem Bisimilar.follow (same : Bisimilar heap a b) {inner : Value}
    (found : a.follow heap path = some inner) :
    ∃ other, b.follow heap path = some other ∧ Bisimilar heap inner other := by
  induction path generalizing a b with
  | nil =>
    cases found
    exact ⟨b, rfl, same⟩
  | cons step path ih =>
    obtain ⟨part, here, onward⟩ := Option.bind_eq_some_iff.mp found
    obtain ⟨part', there⟩ := exists_part same.shape here
    obtain ⟨other, reached, alike⟩ := ih (same.part here there) onward
    exact ⟨other, by rw [Value.follow, there]; exact reached, alike⟩

/-- Equal values without cycles and functions have the same text. -/
theorem shown_eq_of_same (acyclic : Acyclic heap a) (acyclic' : Acyclic heap b)
    (plain : FunctionFree heap a) (same : a.same heap b = true) : a.shown heap = b.shown heap := by
  have laid : Laid heap b (fun _ => False) [] (a.shown heap) := by
    refine (laid_plain acyclic).transfer fun path inner found => ?_
    obtain ⟨other, found', alike⟩ := (same_iff_bisimilar.mp same).follow found
    have words := word_eq_of_shape (!path.isEmpty) alike.shape (plain path inner found)
    exact ⟨other, found', alike.shape.symm, words.symm, fun _ => Iff.rfl⟩
  exact laid.unique (laid_plain acyclic')

/-- **Texts follow the structure of values.** Every value of every heap has one text, which is laid out
along the paths into it: a container is abbreviated exactly where the path to it leads through it before,
and no bound on the nesting shows. Without cycles nothing is abbreviated. Equal values without cycles and
functions have the same text. -/
theorem rendering_faithful (heap : Heap) :
    (∀ value text, Laid heap value (Repeats heap value) [] text ↔ text = value.shown heap) ∧
    (∀ (value : Value) (more : Nat), value.pieces heap (heap.size + 1 + more) [] false = value.written heap) ∧
    (∀ value, Acyclic heap value →
      ∀ text, Laid heap value (fun _ => False) [] text ↔ text = value.shown heap) ∧
    ∀ a b : Value, Acyclic heap a → Acyclic heap b → FunctionFree heap a → FunctionFree heap b →
      a.same heap b = true → a.shown heap = b.shown heap := by
  have exact_ : ∀ {value : Value} {cut : List PathStep → Prop} (text : String),
      Laid heap value cut [] (value.shown heap) →
        (Laid heap value cut [] text ↔ text = value.shown heap) := by
    intro value cut text laid
    constructor
    · exact fun laid' => laid'.unique laid
    · rintro rfl
      exact laid
  refine ⟨fun value text => exact_ text (laid_shown heap value), written_eq_pieces heap,
    fun value acyclic text => exact_ text (laid_plain acyclic), ?_⟩
  intro a b acyclic acyclic' plain _ same
  exact shown_eq_of_same acyclic acyclic' plain same

/-- Two equal arrays that hold a file; one of them holds a third array twice. -/
def twins : Heap :=
  ⟨#[#[.array 2, .array 2, .file ⟨0, "a"⟩], #[.array 2, .array 3, .file ⟨0, "a"⟩], #[.int 1], #[.int 1]], #[]⟩

theorem rendering_faithful_twins :
    (Value.array 0).same twins (.array 1) = true ∧ Acyclic twins (.array 0) ∧
      FunctionFree twins (.array 0) ∧ (Value.array 0).shown twins = (Value.array 1).shown twins := by
  have clear {value : Value} (own : value.kind ≠ .function)
      (parts : ∀ part ∈ twins.parts value, Acyclic twins part ∧ FunctionFree twins part) :
      Acyclic twins value ∧ FunctionFree twins value :=
    ⟨.of_parts fun part held => (parts part held).1, .of_parts own fun part held => (parts part held).2⟩
  have number := @clear (.int 1) (by decide) (List.forall_mem_nil _)
  have file := @clear (.file ⟨0, "a"⟩) (by decide) (List.forall_mem_nil _)
  have second := @clear (.array 2) (by decide) (show ∀ part ∈ [Value.int 1], _ by simpa using number)
  have third := @clear (.array 3) (by decide) (show ∀ part ∈ [Value.int 1], _ by simpa using number)
  have one := @clear (.array 0) (by decide)
    (show ∀ part ∈ [Value.array 2, .array 2, .file ⟨0, "a"⟩], _ by simpa using ⟨second, file⟩)
  have other := @clear (.array 1) (by decide)
    (show ∀ part ∈ [Value.array 2, .array 3, .file ⟨0, "a"⟩], _ by simpa using ⟨second, third, file⟩)
  have equal : (Value.array 0).same twins (.array 1) = true := by decide +kernel
  obtain ⟨-, -, -, alike⟩ := rendering_faithful twins
  exact ⟨equal, one.1, one.2, alike _ _ one.1 other.1 one.2 other.2 equal⟩

end Value

end ScopedScript
