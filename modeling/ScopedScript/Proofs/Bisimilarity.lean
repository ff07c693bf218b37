/-
**Equality is bisimilarity.**

Two values are bisimilar if no path of indices and keys leads from them to values that look different.
Equality follows values into containers, also where these lie inside themselves, and takes pairs under
comparison as equal. Still it finds every difference, since the shortest path to a difference never
comes back to a pair under comparison:

* `Value.shape`: what a value shows without what it holds; `Value.follow` where a path leads;
* `Value.Bisimilar`: no path leads to a difference;
* `Value.sameWithin_succ`: one level of equality in terms of shapes and parts;
* `Value.same_eq_sameWithin`: comparisons are complete, as each level uses up a pair of containers;
* `Value.sameWithin_eq_false`, `Value.sameWithin_eq_true`: differences are found, and nothing else;
* `Value.compare?`, `Value.plain?`: the comparison that gives no answer when cut short, and the one that
  takes nothing as equal;
* `Value.Acyclic`: no path leads back to where it was;
* `Value.equality_bisimilarity`: **equality is bisimilarity**, an equivalence, and ends on every heap.
-/

import Mathlib.Data.Finset.Prod
import ScopedScript.Proofs.Nesting
import ScopedScript.Value.Equality
import ScopedScript.Value.Operation

namespace ScopedScript

/-! ### Shapes and paths -/

/-- What a value shows without what it holds. -/
inductive Shape where
  | int (value : Int64)
  | bool (value : Bool)
  | text (value : String)
  | none
  | array (length : Nat)
  | map (keys : List Key)
  | function (decl : DeclId)
  | builtin (name : String)
  | file (ref : FileRef)
deriving DecidableEq, Repr

/-- A step into a container: to an item of an array, or to the value of a key. -/
inductive PathStep where
  | item (index : Nat)
  | entry (key : Key)
deriving DecidableEq, Repr

/-- The steps into a container of some shape. -/
def Shape.steps : Shape → List PathStep
  | .array length => (List.range length).map .item
  | .map keys => keys.map .entry
  | _ => []

theorem Heap.unused_pairs (heap : Heap) :
    unused (heap.containers.toFinset ×ˢ heap.containers.toFinset) [] ≤ heap.size * heap.size := by
  rw [← Heap.length_containers]
  simpa [unused, Finset.card_product] using Nat.mul_le_mul
    (List.toFinset_card_le heap.containers) (List.toFinset_card_le heap.containers)

namespace Value

variable {heap : Heap} {a b c : Value} {assumed : List (Value × Value)} {bound : Nat}
  {step : PathStep} {path : List PathStep}

/-- The shape of a value: sort and content, the length of an array, the keys of a map. -/
def shape (heap : Heap) : Value → Shape
  | .int value => .int value
  | .bool value => .bool value
  | .text value => .text value
  | .none => .none
  | .array place => .array (heap.items place).size
  | .map place => .map (heap.entries place).keys
  | .function _ decl => .function decl
  | .builtin name => .builtin name
  | .file ref => .file ref

/-- What a step into a container leads to. -/
def part? (heap : Heap) : Value → PathStep → Option Value
  | .array place, .item index => (heap.items place)[index]?
  | .map place, .entry key => (heap.entries place)[key]?
  | _, _ => Option.none

/-- Where a path leads. -/
def follow (heap : Heap) : List PathStep → Value → Option Value
  | [], value => some value
  | step :: path, value => (value.part? heap step).bind (follow heap path)

/-- A path leads from two values to values of different shapes. -/
def Differ (heap : Heap) (path : List PathStep) (a b : Value) : Prop :=
  ∃ one two, a.follow heap path = some one ∧ b.follow heap path = some two ∧
    one.shape heap ≠ two.shape heap

/-- No path leads from two values to values of different shapes. -/
def Bisimilar (heap : Heap) (a b : Value) : Prop := ∀ path, ¬ Differ heap path a b

theorem differ_nil : Differ heap [] a b ↔ a.shape heap ≠ b.shape heap := by
  simp [Differ, follow]

theorem differ_cons :
    Differ heap (step :: path) a b ↔ ∃ one two, a.part? heap step = some one ∧
      b.part? heap step = some two ∧ Differ heap path one two := by
  constructor
  · rintro ⟨one, two, first, second, apart⟩
    obtain ⟨one', here, first⟩ := Option.bind_eq_some_iff.mp first
    obtain ⟨two', there, second⟩ := Option.bind_eq_some_iff.mp second
    exact ⟨one', two', here, there, one, two, first, second, apart⟩
  · rintro ⟨one', two', here, there, one, two, first, second, apart⟩
    exact ⟨one, two, by rw [follow, here]; exact first, by rw [follow, there]; exact second, apart⟩

theorem Differ.symm (differ : Differ heap path a b) :
    Differ heap path b a := by
  obtain ⟨one, two, first, second, apart⟩ := differ
  exact ⟨two, one, second, first, apart.symm⟩

theorem Bisimilar.shape (same : Bisimilar heap a b) : a.shape heap = b.shape heap := by
  by_contra apart
  exact same [] (differ_nil.mpr apart)

/-- What bisimilar values hold in the same place is bisimilar. -/
theorem Bisimilar.part {one two : Value} (same : Bisimilar heap a b)
    (here : a.part? heap step = some one) (there : b.part? heap step = some two) :
    Bisimilar heap one two :=
  fun path differ => same (step :: path) (differ_cons.mpr ⟨one, two, here, there, differ⟩)

/-! ### Parts of values of one shape -/

theorem values_eq_map (entries : Std.TreeMap Key Value) :
    entries.values = entries.toList.map Prod.snd := by
  have folded : entries.values = entries.foldr (fun _ value rest => value :: rest) [] := rfl
  rw [folded, Std.TreeMap.foldr_eq_foldr_toList]
  induction entries.toList with
  | nil => rfl
  | cons first rest ih => simp [ih]

theorem mem_zip_values {first second : Std.TreeMap Key Value} (keys : first.keys = second.keys)
    {one two : Value} : (one, two) ∈ first.values.zip second.values ↔
      ∃ key : Key, first[key]? = some one ∧ second[key]? = some two := by
  have keyed : ∀ (entries : Std.TreeMap Key Value) (index : Nat) (key : Key) (value : Value),
      entries.toList[index]? = some (key, value) ↔
        entries.keys[index]? = some key ∧ entries.values[index]? = some value := by
    intro entries index key value
    rw [← Std.TreeMap.map_fst_toList_eq_keys, values_eq_map, List.getElem?_map, List.getElem?_map]
    cases entries.toList[index]? with
    | none => simp
    | some entry => simp [Prod.ext_iff]
  constructor
  · intro member
    obtain ⟨index, found⟩ := List.mem_iff_getElem?.mp member
    obtain ⟨left, right⟩ := List.getElem?_zip_eq_some.mp found
    have inside : index < first.keys.length := by
      rw [← Std.TreeMap.map_fst_toList_eq_keys, List.length_map]
      obtain ⟨within, -⟩ := List.getElem?_eq_some_iff.mp left
      rwa [values_eq_map, List.length_map] at within
    have key := List.getElem?_eq_getElem inside
    have one := (keyed first index _ _).mpr ⟨key, left⟩
    have two := (keyed second index _ _).mpr ⟨by rw [← keys]; exact key, right⟩
    exact ⟨_, Std.TreeMap.mem_toList_iff_getElem?_eq_some.mp (List.mem_of_getElem? one),
      Std.TreeMap.mem_toList_iff_getElem?_eq_some.mp (List.mem_of_getElem? two)⟩
  · rintro ⟨key, left, right⟩
    obtain ⟨index, found⟩ :=
      List.mem_iff_getElem?.mp (Std.TreeMap.mem_toList_iff_getElem?_eq_some.mpr left)
    obtain ⟨index', found'⟩ :=
      List.mem_iff_getElem?.mp (Std.TreeMap.mem_toList_iff_getElem?_eq_some.mpr right)
    obtain ⟨key₁, value₁⟩ := (keyed _ _ _ _).mp found
    obtain ⟨key₂, value₂⟩ := (keyed _ _ _ _).mp found'
    -- a key stands once among the keys
    rw [← keys] at key₂
    obtain ⟨inside, -⟩ := List.getElem?_eq_some_iff.mp key₁
    obtain rfl := (List.getElem?_inj inside Std.TreeMap.nodup_keys).mp (key₁.trans key₂.symm)
    exact List.mem_of_getElem? (List.getElem?_zip_eq_some.mpr ⟨value₁, value₂⟩)

/-- The parts of two values of one shape, side by side, are what the same steps lead to. -/
theorem mem_zip_parts (shapes : a.shape heap = b.shape heap) {one two : Value} :
    (one, two) ∈ (heap.parts a).zip (heap.parts b) ↔
      ∃ step, a.part? heap step = some one ∧ b.part? heap step = some two := by
  cases a with
  | array place =>
    cases b with
    | array place' =>
      constructor
      · intro member
        obtain ⟨index, found⟩ := List.mem_iff_getElem?.mp member
        obtain ⟨left, right⟩ := List.getElem?_zip_eq_some.mp found
        rw [Heap.parts, Array.getElem?_toList] at left right
        exact ⟨.item index, left, right⟩
      · rintro ⟨step, left, right⟩
        cases step with
        | item index =>
          refine List.mem_of_getElem? (i := index) (List.getElem?_zip_eq_some.mpr ⟨?_, ?_⟩)
          · rw [Heap.parts, Array.getElem?_toList]
            exact left
          · rw [Heap.parts, Array.getElem?_toList]
            exact right
        | entry => cases left
    | _ => cases shapes
  | map place =>
    cases b with
    | map place' =>
      rw [Heap.parts, Heap.parts, mem_zip_values (Shape.map.inj shapes)]
      constructor
      · rintro ⟨key, found⟩
        exact ⟨.entry key, found⟩
      · rintro ⟨step, left, right⟩
        cases step with
        | item => cases left
        | entry key => exact ⟨key, left, right⟩
    | _ => cases shapes
  | _ =>
    constructor
    · intro member
      cases member
    · rintro ⟨step, left, -⟩
      cases step <;> cases left

theorem mem_parts {part : Value} (here : a.part? heap step = some part) : part ∈ heap.parts a :=
  (List.of_mem_zip ((mem_zip_parts rfl).mpr ⟨step, here, here⟩)).1

theorem mem_steps_iff :
    step ∈ (a.shape heap).steps ↔ ∃ part, a.part? heap step = some part := by
  rw [← Option.isSome_iff_exists]
  cases a <;> cases step <;> simp [shape, Shape.steps, part?]

/-- A step that one of two values of one shape can take, the other can take. -/
theorem exists_part {one : Value} (shapes : a.shape heap = b.shape heap)
    (here : a.part? heap step = some one) : ∃ two, b.part? heap step = some two := by
  rw [← mem_steps_iff, ← shapes, mem_steps_iff]
  exact ⟨one, here⟩

/-- A value that holds something is a container of the heap. -/
theorem mem_containers_of_part {part : Value} (held : part ∈ heap.parts a) :
    a ∈ heap.containers := by
  cases a with
  | array place => exact Heap.array_mem_containers (List.ne_nil_of_mem held)
  | map place =>
    rw [Heap.parts, values_eq_map] at held
    obtain ⟨entry, member, -⟩ := List.mem_map.mp held
    exact Heap.map_mem_containers (List.ne_nil_of_mem member)
  | _ => cases held

/-! ### Bisimilarity is an equivalence -/

/-- Values are bisimilar if they have one shape and hold bisimilar values in the same places. -/
theorem bisimilar_iff : Bisimilar heap a b ↔ a.shape heap = b.shape heap ∧
    ∀ pair ∈ (heap.parts a).zip (heap.parts b), Bisimilar heap pair.1 pair.2 := by
  constructor
  · intro same
    refine ⟨same.shape, fun pair member => ?_⟩
    obtain ⟨step, here, there⟩ := (mem_zip_parts same.shape).mp member
    exact same.part here there
  · rintro ⟨shapes, parts⟩ path differ
    cases path with
    | nil => exact differ_nil.mp differ shapes
    | cons step path =>
      obtain ⟨one, two, here, there, differ⟩ := differ_cons.mp differ
      exact parts (one, two) ((mem_zip_parts shapes).mpr ⟨step, here, there⟩) path differ

theorem Bisimilar.refl (heap : Heap) (a : Value) : Bisimilar heap a a := by
  rintro path ⟨one, two, first, second, apart⟩
  cases first.symm.trans second
  exact apart rfl

theorem Bisimilar.symm (same : Bisimilar heap a b) : Bisimilar heap b a :=
  fun path differ => same path differ.symm

theorem Bisimilar.trans (same : Bisimilar heap a b) (same' : Bisimilar heap b c) :
    Bisimilar heap a c := by
  intro path
  induction path generalizing a b c with
  | nil => exact fun differ => differ_nil.mp differ (same.shape.trans same'.shape)
  | cons step path ih =>
    intro differ
    obtain ⟨one, three, here, there, differ⟩ := differ_cons.mp differ
    obtain ⟨two, between⟩ := exists_part same.shape here
    exact ih (same.part here between) (same'.part between there) differ

/-! ### One level of equality -/

/-- Whether two containers count as equal without a look inside: they are one container, or are assumed
equal. -/
def meets (assumed : List (Value × Value)) : Value → Value → Bool
  | .array one, .array two => one == two || assumed.contains (.array one, .array two)
  | .map one, .map two => one == two || assumed.contains (.map one, .map two)
  | _, _ => false

theorem of_meets (met : meets assumed a b = true) : a = b ∨ (a, b) ∈ assumed := by
  cases a with
  | array one =>
    cases b with
    | array two => simpa [meets] using met
    | _ => cases met
  | map one =>
    cases b with
    | map two => simpa [meets] using met
    | _ => cases met
  | _ => cases b <;> cases met

theorem meets_of_mem {part : Value} (shapes : a.shape heap = b.shape heap)
    (held : part ∈ heap.parts a) (member : (a, b) ∈ assumed) : meets assumed a b = true := by
  cases a with
  | array one =>
    cases b with
    | array two => simp [meets, member]
    | _ => cases shapes
  | map one =>
    cases b with
    | map two => simp [meets, member]
    | _ => cases shapes
  | _ => cases held

theorem meets_eq_false (differ : Differ heap path a b)
    (new : (a, b) ∈ assumed → ¬ Differ heap path a b) : meets assumed a b = false := by
  by_contra met
  rcases of_meets (Bool.eq_true_of_not_eq_false met) with rfl | member
  · exact Bisimilar.refl heap a path differ
  · exact new member differ

/-- Whether a value can hold others. -/
def isContainer : Value → Bool
  | .array _ | .map _ => true
  | _ => false

/-- Values that hold nothing are equal if they have one shape. -/
theorem sameWithin_scalar (bound : Nat) (assumed : List (Value × Value)) (b : Value)
    (scalar : a.isContainer = false) :
    a.sameWithin heap bound assumed b = decide (a.shape heap = b.shape heap) := by
  rw [Bool.eq_iff_iff, decide_eq_true_iff]
  cases a with
  | array => cases scalar
  | map => cases scalar
  | _ =>
    -- values of different sorts, two that need no comparison, and two that hold something
    cases b <;> cases bound <;> first
      | exact iff_of_false Bool.false_ne_true nofun
      | exact iff_of_true rfl rfl
      | exact beq_iff_eq.trans (by simp only [shape, Shape.int.injEq, Shape.bool.injEq, Shape.text.injEq,
          Shape.function.injEq, Shape.builtin.injEq, Shape.file.injEq])

/-- Side by side, entries have the same keys and related values if the keys are the same and the values
side by side are related. -/
theorem entries_all (related : Value → Value → Bool) (first second : List (Key × Value)) :
    (first.length == second.length && (first.zip second).all fun pair =>
        pair.1.1 == pair.2.1 && related pair.1.2 pair.2.2) =
      (decide (first.map Prod.fst = second.map Prod.fst) &&
        ((first.map Prod.snd).zip (second.map Prod.snd)).all fun pair => related pair.1 pair.2) := by
  rw [Bool.eq_iff_iff]
  induction first generalizing second with
  | nil => cases second <;> simp
  | cons entry first ih =>
    cases second with
    | nil => simp
    | cons entry' second =>
      have rest := ih second
      simp only [Bool.and_eq_true, beq_iff_eq, decide_eq_true_iff] at rest
      simp only [List.length_cons, List.zip_cons_cons, List.all_cons, List.map_cons, Bool.and_eq_true,
        beq_iff_eq, decide_eq_true_iff, Nat.add_right_cancel_iff, List.cons.injEq]
      tauto

theorem sameWithin_arrays (bound : Nat) (assumed : List (Value × Value)) (one two : Nat) :
    sameWithin heap (bound + 1) assumed (.array one) (.array two) =
      (one == two || assumed.contains (.array one, .array two) ||
        ((heap.items one).size == (heap.items two).size &&
          ((heap.items one).toList.zip (heap.items two).toList).all fun pair =>
            sameWithin heap bound ((.array one, .array two) :: assumed) pair.1 pair.2)) := rfl

theorem sameWithin_maps (bound : Nat) (assumed : List (Value × Value)) (one two : Nat) :
    sameWithin heap (bound + 1) assumed (.map one) (.map two) =
      (one == two || assumed.contains (.map one, .map two) ||
        ((heap.entries one).size == (heap.entries two).size &&
          ((heap.entries one).toList.zip (heap.entries two).toList).all fun pair =>
            pair.1.1 == pair.2.1 &&
              sameWithin heap bound ((.map one, .map two) :: assumed) pair.1.2 pair.2.2)) := rfl

/-- **One level of equality:** values are equal if they meet, or have one shape and equal parts. -/
theorem sameWithin_succ (bound : Nat) (assumed : List (Value × Value)) (a b : Value) :
    a.sameWithin heap (bound + 1) assumed b = (meets assumed a b ||
      (decide (a.shape heap = b.shape heap) && ((heap.parts a).zip (heap.parts b)).all fun pair =>
        sameWithin heap bound ((a, b) :: assumed) pair.1 pair.2)) := by
  cases a with
  | array one =>
    cases b with
    | array two =>
      have sizes : ((heap.items one).size == (heap.items two).size) =
          decide ((Value.array one).shape heap = (Value.array two).shape heap) := by
        rw [Bool.eq_iff_iff, beq_iff_eq, decide_eq_true_iff, shape, shape, Shape.array.injEq]
      rw [sameWithin_arrays, sizes]
      rfl
    | _ => rfl
  | map one =>
    cases b with
    | map two =>
      have keys := entries_all (sameWithin heap bound ((.map one, .map two) :: assumed))
        (heap.entries one).toList (heap.entries two).toList
      rw [Std.TreeMap.length_toList, Std.TreeMap.length_toList, Std.TreeMap.map_fst_toList_eq_keys,
        Std.TreeMap.map_fst_toList_eq_keys, ← values_eq_map, ← values_eq_map] at keys
      have shapes : decide ((heap.entries one).keys = (heap.entries two).keys) =
          decide ((Value.map one).shape heap = (Value.map two).shape heap) := by
        simp [shape]
      rw [sameWithin_maps, keys, shapes]
      rfl
    | _ => rfl
  | _ =>
    rw [sameWithin_scalar _ _ _ rfl]
    cases b <;> simp [meets, Heap.parts]

/-! ### Comparisons are complete -/

/-- Inside a pair of containers that do not meet, one pair fewer is left. -/
theorem unused_inside {pair : Value × Value} (apart : meets assumed a b = false)
    (shapes : a.shape heap = b.shape heap) (member : pair ∈ (heap.parts a).zip (heap.parts b)) :
    unused (heap.containers.toFinset ×ˢ heap.containers.toFinset) ((a, b) :: assumed) <
      unused (heap.containers.toFinset ×ˢ heap.containers.toFinset) assumed := by
  obtain ⟨left, right⟩ := List.of_mem_zip member
  have known : (a, b) ∈ heap.containers.toFinset ×ˢ heap.containers.toFinset :=
    Finset.mem_product.mpr ⟨List.mem_toFinset.mpr (mem_containers_of_part left),
      List.mem_toFinset.mpr (mem_containers_of_part right)⟩
  refine unused_cons known fun member => ?_
  cases apart.symm.trans (meets_of_mem shapes left member)

theorem all_congr_of_mem {α : Type} {items : List α} {test test' : α → Bool}
    (same : ∀ item ∈ items, test item = test' item) : items.all test = items.all test' := by
  rw [Bool.eq_iff_iff, List.all_eq_true, List.all_eq_true]
  exact forall₂_congr fun item member => by rw [same item member]

/-- Comparisons are the same with all bounds that exceed the number of pairs not yet met. -/
theorem sameWithin_bound {bound' : Nat} (a b : Value)
    (enough : unused (heap.containers.toFinset ×ˢ heap.containers.toFinset) assumed < bound)
    (enough' : unused (heap.containers.toFinset ×ˢ heap.containers.toFinset) assumed < bound') :
    a.sameWithin heap bound assumed b = a.sameWithin heap bound' assumed b := by
  induction bound generalizing bound' assumed a b with
  | zero => cases enough
  | succ bound ih =>
    obtain ⟨bound', rfl⟩ : ∃ fewer, bound' = fewer + 1 := ⟨bound' - 1, by omega⟩
    rw [sameWithin_succ, sameWithin_succ]
    cases apart : meets assumed a b with
    | true => rfl
    | false =>
      by_cases shapes : a.shape heap = b.shape heap
      · refine congrArg (fun rest => _ || (_ && rest)) (all_congr_of_mem fun pair member => ?_)
        have fewer := unused_inside apart shapes member
        exact ih pair.1 pair.2 (by omega) (by omega)
      · rw [decide_eq_false shapes, Bool.false_and, Bool.false_and]

/-- **Comparisons are complete:** they are the same however many pairs of containers may lie inside one
another. -/
theorem same_eq_sameWithin (heap : Heap) (first second : Value) (more : Nat) :
    first.sameWithin heap (heap.size * heap.size + 1 + more) [] second = first.same heap second := by
  have few := Heap.unused_pairs heap
  exact sameWithin_bound first second (by omega) (by omega)

/-! ### Equality is bisimilarity -/

theorem sameWithin_eq_true (bound : Nat) (assumed : List (Value × Value))
    (same : Bisimilar heap a b) : a.sameWithin heap bound assumed b = true := by
  induction bound generalizing assumed a b with
  | zero =>
    have shapes := same.shape
    by_cases scalar : a.isContainer = false
    · rw [sameWithin_scalar _ _ _ scalar, decide_eq_true shapes]
    · cases a with
      | array =>
        cases b with
        | array => rfl
        | _ => cases shapes
      | map =>
        cases b with
        | map => rfl
        | _ => cases shapes
      | _ => exact absurd rfl scalar
  | succ bound ih =>
    obtain ⟨shapes, parts⟩ := bisimilar_iff.mp same
    rw [sameWithin_succ, decide_eq_true shapes, Bool.true_and, Bool.or_eq_true]
    exact .inr (List.all_eq_true.mpr fun pair member => ih _ (parts pair member))

/-- A shortest path to a difference is found if the pairs assumed equal differ by longer paths only. -/
theorem sameWithin_eq_false (differ : Differ heap path a b)
    (shortest : ∀ other : List PathStep, other.length < path.length → ¬ Differ heap other a b)
    (longer : ∀ pair ∈ assumed, ∀ other : List PathStep, other.length ≤ path.length →
      ¬ Differ heap other pair.1 pair.2)
    (enough : path.length < bound) : a.sameWithin heap bound assumed b = false := by
  induction path generalizing a b assumed bound with
  | nil =>
    obtain ⟨bound, rfl⟩ : ∃ fewer, bound = fewer + 1 := ⟨bound - 1, by omega⟩
    rw [sameWithin_succ, meets_eq_false differ fun member => longer _ member [] le_rfl,
      decide_eq_false (differ_nil.mp differ)]
    rfl
  | cons step path ih =>
    obtain ⟨bound, rfl⟩ : ∃ fewer, bound = fewer + 1 := ⟨bound - 1, by omega⟩
    have shapes : a.shape heap = b.shape heap := by
      by_contra unlike
      exact shortest [] (Nat.succ_pos _) (differ_nil.mpr unlike)
    obtain ⟨one, two, here, there, inner⟩ := differ_cons.mp differ
    have found : one.sameWithin heap bound ((a, b) :: assumed) two = false := by
      refine ih inner ?_ ?_ (Nat.lt_of_succ_lt_succ enough)
      · intro other fewer differ
        exact shortest (step :: other) (Nat.succ_lt_succ fewer)
          (differ_cons.mpr ⟨one, two, here, there, differ⟩)
      · intro pair member other fewer
        -- the pair compared here differs by the whole path, which is longer than what is left of it
        rcases List.mem_cons.mp member with rfl | member
        · exact shortest other (Nat.lt_succ_of_le fewer)
        · exact longer pair member other (Nat.le_succ_of_le fewer)
    rw [sameWithin_succ, meets_eq_false differ fun member => longer _ member _ le_rfl, Bool.false_or,
      Bool.and_eq_false_iff]
    refine .inr (List.all_eq_false.mpr ⟨(one, two), (mem_zip_parts shapes).mpr ⟨step, here, there⟩, ?_⟩)
    simp [found]

theorem exists_shortest (differ : Differ heap path a b) :
    ∃ path, Differ heap path a b ∧
      ∀ other : List PathStep, other.length < path.length → ¬ Differ heap other a b := by
  induction size : path.length using Nat.strong_induction_on generalizing path with
  | _ size ih =>
    subst size
    by_cases shortest : ∀ other : List PathStep, other.length < path.length →
        ¬ Differ heap other a b
    · exact ⟨path, differ, shortest⟩
    · push Not at shortest
      obtain ⟨other, fewer, differ⟩ := shortest
      exact ih _ fewer differ rfl

/-- **Equality is bisimilarity.** -/
theorem same_iff_bisimilar : a.same heap b = true ↔ Bisimilar heap a b := by
  constructor
  · intro equal path differ
    obtain ⟨path, differ, shortest⟩ := exists_shortest differ
    have found : a.sameWithin heap (heap.size * heap.size + 1 + path.length) [] b = false :=
      sameWithin_eq_false differ shortest nofun (by omega)
    rw [same_eq_sameWithin, equal] at found
    cases found
  · exact sameWithin_eq_true _ _

/-- Equal values have one shape and equal parts, however they lie inside one another. -/
theorem same_unfold (heap : Heap) (a b : Value) : a.same heap b =
    (decide (a.shape heap = b.shape heap) &&
      ((heap.parts a).zip (heap.parts b)).all fun pair => pair.1.same heap pair.2) := by
  rw [Bool.eq_iff_iff, same_iff_bisimilar, bisimilar_iff, Bool.and_eq_true, decide_eq_true_iff,
    List.all_eq_true]
  simp only [same_iff_bisimilar]

/-! ### The comparison ends -/

/-- Two values by their shapes and what they hold, in order up to the first difference. -/
def compareParts (heap : Heap) (inner : Value → Value → Option Bool) (a b : Value) : Option Bool :=
  if a.shape heap = b.shape heap then
    ((heap.parts a).zip (heap.parts b)).allM fun pair => inner pair.1 pair.2
  else some false

/-- The comparison that gives no answer where `depth` calls inside one another are not enough. -/
def compare? (heap : Heap) : Nat → List (Value × Value) → Value → Value → Option Bool
  | 0, _, _, _ => Option.none
  | depth + 1, assumed, a, b =>
    if meets assumed a b then some true
    else compareParts heap (compare? heap depth ((a, b) :: assumed)) a b

/-- Plain structural recursion, which takes nothing as equal that it has not seen to the end. -/
def plain? (heap : Heap) : Nat → Value → Value → Option Bool
  | 0, _, _ => Option.none
  | depth + 1, a, b => compareParts heap (plain? heap depth) a b

/-- Tests one after the other answer if each of them does. -/
theorem allM_eq_all {α : Type} {items : List α} {test : α → Option Bool} {answer : α → Bool}
    (answers : ∀ item ∈ items, test item = some (answer item)) :
    items.allM test = some (items.all answer) := by
  induction items with
  | nil => rfl
  | cons item items ih =>
    have rest := ih fun item member => answers item (List.mem_cons_of_mem _ member)
    rw [List.allM, answers item List.mem_cons_self, List.all_cons]
    cases answer item with
    | false => rfl
    | true => exact rest

/-- A comparison of parts answers if the comparisons of the parts do. -/
theorem compareParts_eq {inner : Value → Value → Option Bool} {answer : Value → Value → Bool}
    (answers : a.shape heap = b.shape heap → ∀ pair ∈ (heap.parts a).zip (heap.parts b),
      inner pair.1 pair.2 = some (answer pair.1 pair.2)) :
    compareParts heap inner a b = some (decide (a.shape heap = b.shape heap) &&
      ((heap.parts a).zip (heap.parts b)).all fun pair => answer pair.1 pair.2) := by
  rw [compareParts]
  split
  · rename_i shapes
    rw [allM_eq_all (answers shapes), decide_eq_true shapes, Bool.true_and]
  · rename_i unlike
    rw [decide_eq_false unlike, Bool.false_and]

/-- The comparison answers within as many calls as there are pairs of containers not yet met. -/
theorem compare?_eq_sameWithin {depth : Nat} (a b : Value)
    (enough : unused (heap.containers.toFinset ×ˢ heap.containers.toFinset) assumed < depth) :
    compare? heap depth assumed a b = some (a.sameWithin heap depth assumed b) := by
  induction depth generalizing assumed a b with
  | zero => cases enough
  | succ depth ih =>
    rw [compare?, sameWithin_succ]
    by_cases met : meets assumed a b = true
    · rw [if_pos met, met, Bool.true_or]
    have apart := Bool.eq_false_of_not_eq_true met
    rw [if_neg met, apart, Bool.false_or]
    refine compareParts_eq fun shapes pair member => ih _ _ ?_
    have fewer := unused_inside apart shapes member
    omega

/-- **The comparison ends** on every heap. -/
theorem compare?_eq_same (heap : Heap) (a b : Value) (more : Nat) :
    compare? heap (heap.size * heap.size + 1 + more) [] a b = some (a.same heap b) := by
  have few := Heap.unused_pairs heap
  rw [compare?_eq_sameWithin a b (by omega), same_eq_sameWithin]

/-! ### Values without cycles -/

theorem follow_append (path path' : List PathStep) :
    a.follow heap (path ++ path') = (a.follow heap path).bind (follow heap path') := by
  induction path generalizing a with
  | nil => rfl
  | cons step path ih =>
    rw [List.cons_append, follow, follow]
    cases a.part? heap step with
    | none => rfl
    | some part => exact ih

/-- No path leads from what a value reaches back to it. -/
def Acyclic (heap : Heap) (value : Value) : Prop :=
  ∀ path loop inner, value.follow heap path = some inner → inner.follow heap loop = some inner →
    loop = []

theorem Acyclic.part {part : Value} (acyclic : Acyclic heap a)
    (here : a.part? heap step = some part) : Acyclic heap part := by
  intro path loop inner reached back
  refine acyclic (step :: path) loop inner ?_ back
  rw [follow, here]
  exact reached

/-- A value is without cycles if all that it holds is. -/
theorem Acyclic.of_parts (inner : ∀ part ∈ heap.parts a, Acyclic heap part) : Acyclic heap a := by
  intro path loop value reached back
  cases path with
  | cons step path =>
    obtain ⟨part, here, reached⟩ := Option.bind_eq_some_iff.mp reached
    exact inner part (mem_parts here) path loop value reached back
  | nil =>
    cases reached
    cases loop with
    | nil => rfl
    | cons step loop =>
      -- a way back to the value is a cycle of the part that it leads through
      obtain ⟨part, here, onward⟩ := Option.bind_eq_some_iff.mp back
      exact inner part (mem_parts here) loop (step :: loop) a onward back

/-- Without cycles plain recursion answers within as many calls as there are containers not around. -/
theorem plain?_eq_same_of_around {depth : Nat} (around : List Value) (b : Value)
    (acyclic : Acyclic heap a)
    (reached : ∀ whole ∈ around, ∃ path, path ≠ [] ∧ whole.follow heap path = some a)
    (enough : unused heap.containers.toFinset around < depth) :
    plain? heap depth a b = some (a.same heap b) := by
  induction depth generalizing around a b with
  | zero => cases enough
  | succ depth ih =>
    rw [plain?, same_unfold]
    refine compareParts_eq fun shapes pair member => ?_
    obtain ⟨step, here, -⟩ := (mem_zip_parts shapes).mp member
    have new : a ∉ around := by
      intro inside
      obtain ⟨loop, long, back⟩ := reached a inside
      exact long (acyclic [] loop a rfl back)
    have fewer := unused_cons (List.mem_toFinset.mpr
      (mem_containers_of_part (List.of_mem_zip member).1)) new
    refine ih (a :: around) pair.2 (acyclic.part here) ?_ (by omega)
    intro whole inside
    rcases List.mem_cons.mp inside with rfl | inside
    · exact ⟨[step], List.cons_ne_nil _ _, by rw [follow, here]; rfl⟩
    · obtain ⟨path, -, onward⟩ := reached whole inside
      refine ⟨path ++ [step], by simp, ?_⟩
      rw [follow_append, onward, Option.bind_some, follow, here]
      rfl

/-- **Without cycles equality is plain structural recursion.** -/
theorem plain?_eq_same (b : Value) (more : Nat) (acyclic : Acyclic heap a) :
    plain? heap (heap.size + 1 + more) a b = some (a.same heap b) := by
  have few := Heap.unused_containers heap
  exact plain?_eq_same_of_around [] b acyclic nofun (by omega)

/-! ### The operator -/

/-- **Equality is bisimilarity.** On every heap the operators `==` and `!=` answer for all values, by a
comparison that ends; two values are equal exactly if no path leads from them to a difference, which is
an equivalence; and without cycles plain structural recursion gives the same answer. -/
theorem equality_bisimilarity (heap : Heap) :
    (∀ a b : Value, BinaryOp.apply heap .eq a b = .ok (.bool (a.same heap b)) ∧
      BinaryOp.apply heap .notEq a b = .ok (.bool !a.same heap b)) ∧
    (∀ (a b : Value) (more : Nat),
      compare? heap (heap.size * heap.size + 1 + more) [] a b = some (a.same heap b)) ∧
    (∀ a b : Value, a.same heap b = true ↔ Bisimilar heap a b) ∧
    (∀ a : Value, a.same heap a = true) ∧
    (∀ a b : Value, a.same heap b = b.same heap a) ∧
    (∀ a b c : Value, a.same heap b = true → b.same heap c = true → a.same heap c = true) ∧
    ∀ (a b : Value) (more : Nat), Acyclic heap a →
      plain? heap (heap.size + 1 + more) a b = some (a.same heap b) := by
  refine ⟨fun a b => ⟨rfl, rfl⟩, compare?_eq_same heap, fun a b => same_iff_bisimilar, ?_, ?_, ?_,
    fun a b more acyclic => plain?_eq_same b more acyclic⟩
  · exact fun a => same_iff_bisimilar.mpr (Bisimilar.refl heap a)
  · intro a b
    rw [Bool.eq_iff_iff, same_iff_bisimilar, same_iff_bisimilar]
    exact ⟨Bisimilar.symm, Bisimilar.symm⟩
  · intro a b c same same'
    exact same_iff_bisimilar.mpr
      ((same_iff_bisimilar.mp same).trans (same_iff_bisimilar.mp same'))

/-- Two arrays that lie in one another, and an array that holds a third one twice. -/
def interlocked : Heap :=
  ⟨#[#[.array 1, .int 7], #[.array 0, .int 7], #[.array 3, .array 3], #[.int 1]], #[]⟩

theorem interlocked_acyclic : Acyclic interlocked (.array 2) := by
  have number : Acyclic interlocked (.int 1) := .of_parts nofun
  have inner : Acyclic interlocked (.array 3) :=
    .of_parts (show ∀ part ∈ [Value.int 1], _ by simpa using number)
  exact .of_parts (show ∀ part ∈ [Value.array 3, .array 3], _ by simpa using inner)

/-- Arrays that lie in one another are equal, which plain recursion never finds; for the array without
cycles it ends. -/
theorem equality_bisimilarity_interlocked :
    Bisimilar interlocked (.array 0) (.array 1) ∧
      (Value.array 0).same interlocked (.array 0) = true ∧
      plain? interlocked 17 (.array 0) (.array 1) = Option.none ∧
      Acyclic interlocked (.array 2) ∧
      plain? interlocked 5 (.array 2) (.array 2) = some true := by
  obtain ⟨-, -, bisimilar, reflexive, symmetric, transitive, plain⟩ := equality_bisimilarity interlocked
  have equal : (Value.array 0).same interlocked (.array 1) = true := by decide +kernel
  have back : (Value.array 1).same interlocked (.array 0) = true := by
    rw [← symmetric]
    exact equal
  refine ⟨(bisimilar _ _).mp equal, transitive _ _ _ equal back, by decide +kernel,
    interlocked_acyclic, ?_⟩
  calc plain? interlocked 5 (.array 2) (.array 2)
      = some ((Value.array 2).same interlocked (.array 2)) := plain _ _ 0 interlocked_acyclic
    _ = some true := congrArg some (reflexive _)

end Value

end ScopedScript
