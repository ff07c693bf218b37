/-
**Elements of containers.**

A container and an index name a slot, and no other container and index name the same one. So a store
shows in one element, whatever values lead to the container, and in no other one:

* `Value.asIndex_eq_ok_iff`, `Value.asKey_eq_ok_iff`: the values that are positions and keys;
* `Heap.Names`: which slot a container and an index name, `Value.slot_eq_ok_iff` that it is the one used;
* `Heap.at?_put_self`, `Heap.at?_put_other`: what slots hold after a store;
* `Value.load_eq_ok_iff`, `Value.load_congr`: a load gives what is in the slot;
* `replaceElement_laws`: **when a store succeeds, and what every load gives after it.**
-/

import ScopedScript.Machine.Step

namespace ScopedScript

variable {heap later : Heap} {base index value : Value} {slot other : Heap.Slot}

/-! ### Indices -/

namespace Value

theorem asIndex_eq_ok_iff {length number : Nat} : index.asIndex length = .ok number ↔
    ∃ position : Int64, index = .int position ∧ position.toInt = number ∧ number < length := by
  cases index with
  | int position =>
    have negative : position < 0 ↔ position.toInt < 0 := Int64.lt_iff_toInt_lt
    have clamped : position.toNatClampNeg = position.toInt.toNat := rfl
    simp only [asIndex, negative, clamped]
    constructor
    · intro named
      split at named
      · cases named
      · cases named
        exact ⟨position, rfl, by omega, by omega⟩
    · rintro ⟨position, ⟨⟩, exact, inside⟩
      rw [if_neg (by omega), exact]
      rfl
  | _ =>
    constructor
    · nofun
    · rintro ⟨position, ⟨⟩, -⟩

theorem asKey_eq_ok_iff {key : Key} : index.asKey = .ok key ↔ index = key.toValue := by
  constructor
  · intro named
    cases index <;> cases named <;> rfl
  · rintro rfl
    cases key <;> rfl

theorem exists_eq_toValue_iff : (∃ key : Key, index = key.toValue) ↔
    index.kind = .int ∨ index.kind = .string ∨ index.kind = .bool := by
  constructor
  · rintro ⟨key, rfl⟩
    cases key <;> simp [Key.toValue, kind]
  · cases index with
    | int number => exact fun _ => ⟨.int number, rfl⟩
    | text text => exact fun _ => ⟨.text text, rfl⟩
    | bool holds => exact fun _ => ⟨.bool holds, rfl⟩
    | _ => simp [kind]

end Value

/-! ### Slots -/

/-- A container and an index name a slot: a position of an array, or any key of a map. -/
inductive Heap.Names (heap : Heap) : Value → Value → Heap.Slot → Prop
  | item {place number : Nat} {position : Int64} : position.toInt = number →
    number < (heap.items place).size → Names heap (.array place) (.int position) (.item place number)
  | entry (place : Nat) (key : Key) : Names heap (.map place) key.toValue (.entry place key)

theorem Value.slot_eq_ok_iff : base.slot heap index = .ok slot ↔ heap.Names base index slot := by
  constructor
  · intro found
    cases base with
    | array place =>
      cases named : index.asIndex (heap.items place).size with
      | error cause =>
        rw [Value.slot, named] at found
        cases found
      | ok number =>
        rw [Value.slot, named] at found
        cases found
        obtain ⟨position, rfl, exact, inside⟩ := asIndex_eq_ok_iff.mp named
        exact .item exact inside
    | map place =>
      cases named : index.asKey with
      | error cause =>
        rw [Value.slot, named] at found
        cases found
      | ok key =>
        rw [Value.slot, named] at found
        cases found
        obtain rfl := asKey_eq_ok_iff.mp named
        exact .entry place key
    | _ => cases found
  · intro names
    cases names with
    | item exact inside => rw [Value.slot, asIndex_eq_ok_iff.mpr ⟨_, rfl, exact, inside⟩]; rfl
    | entry place key => rw [Value.slot, asKey_eq_ok_iff.mpr rfl]; rfl

/-- A slot is named in one way only. -/
theorem Heap.Names.unique {base' index' : Value} (names : heap.Names base index slot)
    (names' : heap.Names base' index' slot) : base' = base ∧ index' = index := by
  cases names with
  | item exact _ =>
    cases names' with
    | item exact' _ =>
      exact ⟨rfl, congrArg Value.int (Int64.toInt_inj.mp (exact'.trans exact.symm))⟩
  | entry place key =>
    generalize whole : Slot.entry place key = slot at names'
    cases names' with
    | item => cases whole
    | entry =>
      cases whole
      exact ⟨rfl, rfl⟩

namespace Heap

theorem number?_eq_some_iff {number : Nat} : heap.number? value = some number ↔
    (∃ place < heap.arrays.size, value = .array place ∧ number = place) ∨
      ∃ place < heap.maps.size, value = .map place ∧ number = heap.arrays.size + place := by
  constructor
  · intro known
    cases value with
    | array place =>
      obtain ⟨inside, same⟩ := Option.ite_none_right_eq_some.mp known
      exact .inl ⟨place, inside, rfl, (Option.some.inj same).symm⟩
    | map place =>
      obtain ⟨inside, same⟩ := Option.ite_none_right_eq_some.mp known
      exact .inr ⟨place, inside, rfl, (Option.some.inj same).symm⟩
    | _ => cases known
  · rintro (⟨place, inside, rfl, rfl⟩ | ⟨place, inside, rfl, rfl⟩) <;> exact if_pos inside

/-- Two values that stand for one container are the same value. -/
theorem number?_injective {one two : Value} {number : Nat} (first : heap.number? one = some number)
    (second : heap.number? two = some number) : one = two := by
  rcases number?_eq_some_iff.mp first with ⟨place, inside, rfl, rfl⟩ | ⟨place, inside, rfl, rfl⟩ <;>
    rcases number?_eq_some_iff.mp second with ⟨place', inside', rfl, same⟩ | ⟨place', inside', rfl, same⟩
  · rw [same]
  · omega
  · omega
  · rw [Nat.add_left_cancel same]

theorem size_items_put (heap : Heap) (slot : Slot) (value : Value) (place : Nat) :
    ((heap.put slot value).items place).size = (heap.items place).size := by
  cases slot with
  | entry => rfl
  | item other number =>
    by_cases same : place = other
    · subst same
      rw [put, items_setItem_self, Array.size_setIfInBounds]
    · rw [put, items_setItem_other heap number value same]

/-- A store changes no more of the containers than the one that the slot is in. -/
theorem arrays_put {place : Nat} (elsewhere : ∀ number, slot ≠ .item place number) :
    (heap.put slot value).arrays[place]? = heap.arrays[place]? := by
  cases slot with
  | entry => rfl
  | item other number =>
    have apart : other ≠ place := fun same => elsewhere number (same ▸ rfl)
    rw [put, setItem, Array.getElem?_modify, if_neg apart]

theorem maps_put {place : Nat} (elsewhere : ∀ key, slot ≠ .entry place key) :
    (heap.put slot value).maps[place]? = heap.maps[place]? := by
  cases slot with
  | item => rfl
  | entry other key =>
    have apart : other ≠ place := fun same => elsewhere key (same ▸ rfl)
    rw [put, setEntry, Array.getElem?_modify, if_neg apart]

/-- What is stored in a slot of a container of the heap is in that slot. -/
theorem at?_put_self {number : Nat} (names : heap.Names base index slot)
    (known : heap.number? base = some number) (value : Value) :
    (heap.put slot value).at? slot = some value := by
  cases names with
  | item exact inside =>
    rw [put, at?, items_setItem_self, Array.getElem?_setIfInBounds_self_of_lt inside]
  | entry place key =>
    obtain ⟨_, _, ⟨⟩, -⟩ | ⟨_, inside, ⟨⟩, -⟩ := number?_eq_some_iff.mp known
    rw [put, at?, entries_setEntry_self heap key value inside, Std.TreeMap.getElem?_insert_self]

theorem at?_put_other (apart : other ≠ slot) (value : Value) :
    (heap.put slot value).at? other = heap.at? other := by
  cases slot with
  | item place number =>
    cases other with
    | entry => rfl
    | item place' number' =>
      by_cases same : place' = place
      · subst same
        have apart : number ≠ number' := fun equal => apart (equal ▸ rfl)
        rw [put, at?, at?, items_setItem_self, Array.getElem?_setIfInBounds_ne apart]
      · rw [put, at?, at?, items_setItem_other heap number value same]
  | entry place key =>
    cases other with
    | item => rfl
    | entry place' key' =>
      by_cases same : place' = place
      · subst same
        have apart : key ≠ key' := fun equal => apart (equal ▸ rfl)
        rw [put, at?, at?]
        by_cases known : place' < heap.maps.size
        · rw [entries_setEntry_self heap key value known, Std.TreeMap.getElem?_insert,
            if_neg fun equal => apart (Std.LawfulEqOrd.compare_eq_iff_eq.mp equal)]
        · simp [entries, setEntry, Array.getD, known]
      · rw [put, at?, at?, entries_setEntry_other heap key value same]

end Heap

/-! ### Loads -/

namespace Value

/-- A slot is named on a heap as on any other one with arrays of the same lengths. -/
theorem slot_congr (sizes : ∀ place, (later.items place).size = (heap.items place).size)
    (base index : Value) : base.slot later index = base.slot heap index := by
  cases base with
  | array place => rw [Value.slot, Value.slot, sizes]
  | _ => rfl

theorem load_array (heap : Heap) (place : Nat) (index : Value) :
    (Value.array place).load heap index =
      (index.asIndex (heap.items place).size).map ((heap.items place).getD · .none) := by
  cases named : index.asIndex (heap.items place).size <;> simp only [load, named] <;> rfl

theorem load_map (heap : Heap) (place : Nat) (index : Value) :
    (Value.map place).load heap index = index.asKey.bind fun key =>
      (heap.entries place)[key]?.elim (.error (.key (.missing key))) .ok := by
  cases named : index.asKey with
  | error => simp only [load, named]; rfl
  | ok key =>
    simp only [load, named]
    show Except.bind _ _ = Option.elim _ _ _
    cases held : (heap.entries place)[key]? <;> simp only [Except.bind, held] <;> rfl

theorem load_eq_ok_iff : base.load heap index = .ok value ↔
    ∃ slot, heap.Names base index slot ∧ heap.at? slot = some value := by
  constructor
  · intro loaded
    cases base with
    | array place =>
      rw [load_array] at loaded
      cases named : index.asIndex (heap.items place).size with
      | error => rw [named] at loaded; cases loaded
      | ok number =>
        rw [named] at loaded
        obtain ⟨position, rfl, exact, inside⟩ := asIndex_eq_ok_iff.mp named
        refine ⟨_, .item exact inside, ?_⟩
        obtain rfl : (heap.items place).getD number .none = value := Except.ok.inj loaded
        rw [Heap.at?, Array.getD_eq_getD_getElem?, Array.getElem?_eq_getElem inside,
          Option.getD_some]
    | map place =>
      rw [load_map] at loaded
      cases named : index.asKey with
      | error => rw [named] at loaded; cases loaded
      | ok key =>
        rw [named] at loaded
        obtain rfl := asKey_eq_ok_iff.mp named
        refine ⟨_, .entry place key, ?_⟩
        rw [Except.bind] at loaded
        cases held : (heap.entries place)[key]? with
        | none => rw [held] at loaded; cases loaded
        | some found =>
          rw [held] at loaded
          cases loaded
          exact held
    | _ => cases loaded
  · rintro ⟨slot, names, held⟩
    cases names with
    | item exact inside =>
      rw [load_array, asIndex_eq_ok_iff.mpr ⟨_, rfl, exact, inside⟩, Except.map,
        Array.getD_eq_getD_getElem?]
      exact congrArg Except.ok (congrArg (Option.getD · Value.none) held)
    | entry place key =>
      rw [load_map, asKey_eq_ok_iff.mpr rfl, Except.bind]
      exact congrArg (Option.elim · _ _) held

/-- A load looks at the slot that is named, and at nothing else. -/
theorem load_congr (sizes : ∀ place, (later.items place).size = (heap.items place).size)
    (held : ∀ slot, heap.Names base index slot → later.at? slot = heap.at? slot) :
    base.load later index = base.load heap index := by
  cases base with
  | array place =>
    rw [load_array, load_array, sizes]
    cases named : index.asIndex (heap.items place).size with
    | error => rfl
    | ok number =>
      obtain ⟨position, rfl, exact, inside⟩ := asIndex_eq_ok_iff.mp named
      have same := held _ (.item exact inside)
      rw [Except.map, Except.map, Array.getD_eq_getD_getElem?, Array.getD_eq_getD_getElem?]
      exact congrArg (fun found : Option Value => Except.ok (found.getD .none)) same
  | map place =>
    rw [load_map, load_map]
    cases named : index.asKey with
    | error => rfl
    | ok key =>
      obtain rfl := asKey_eq_ok_iff.mp named
      exact congrArg (Option.elim · _ _) (held _ (.entry place key))
  | _ => rfl

end Value

/-! ### Stores -/

variable {world after : World} {old : Option Value}

/-- A store that succeeds puts the value into the slot that is named, and gives what was there. -/
theorem replaceElement_eq_ok_iff : replaceElement base index value world = .ok old after ↔
    ∃ slot, world.heap.Names base index slot ∧ old = world.heap.at? slot ∧
      after = { world with heap := world.heap.put slot value } := by
  unfold replaceElement
  cases found : base.slot world.heap index with
  | error cause =>
    refine ⟨nofun, ?_⟩
    rintro ⟨slot, names, -⟩
    cases found.symm.trans (Value.slot_eq_ok_iff.mpr names)
  | ok slot =>
    constructor
    · rintro ⟨⟩
      exact ⟨slot, Value.slot_eq_ok_iff.mp found, rfl, rfl⟩
    · rintro ⟨slot', names, rfl, rfl⟩
      cases found.symm.trans (Value.slot_eq_ok_iff.mpr names)
      rfl

/-- A store that fails has no slot, and changes nothing. -/
theorem replaceElement_error {cause : Cause}
    (failed : replaceElement base index value world = .error cause after) :
    base.slot world.heap index = .error cause ∧ after = world := by
  unfold replaceElement at failed
  split at failed
  case h_1 => cases failed
  case h_2 unnamed =>
    cases failed
    exact ⟨unnamed, rfl⟩

namespace Value

/-- An array and a position in it. -/
def HasItem (heap : Heap) (base index : Value) : Prop :=
  ∃ (place : Nat) (position : Int64), base = .array place ∧ index = .int position ∧
    0 ≤ position.toInt ∧ position.toInt < (heap.items place).size

/-- A map and a key that it has. -/
def HasEntry (heap : Heap) (base index : Value) : Prop :=
  ∃ (place : Nat) (key : Key), base = .map place ∧ index = key.toValue ∧ key ∈ heap.entries place

theorem exists_names_iff : (∃ slot, heap.Names base index slot) ↔
    base.HasItem heap index ∨ (∃ place, base = .map place) ∧ ∃ key : Key, index = key.toValue := by
  constructor
  · rintro ⟨slot, names⟩
    cases names with
    | @item place number position exact inside =>
      exact .inl ⟨place, position, rfl, rfl, by omega, by omega⟩
    | entry place key => exact .inr ⟨⟨place, rfl⟩, key, rfl⟩
  · rintro (⟨place, position, rfl, rfl, least, inside⟩ | ⟨⟨place, rfl⟩, key, rfl⟩)
    · have exact : position.toInt = (position.toInt.toNat : Int) := by omega
      exact ⟨_, .item exact (by omega)⟩
    · exact ⟨_, .entry place key⟩

theorem exists_load_iff : (∃ held, base.load heap index = .ok held) ↔
    base.HasItem heap index ∨ base.HasEntry heap index := by
  constructor
  · rintro ⟨held, loaded⟩
    obtain ⟨slot, names, found⟩ := load_eq_ok_iff.mp loaded
    cases names with
    | @item place number position exact inside =>
      exact .inl ⟨place, position, rfl, rfl, by omega, by omega⟩
    | entry place key =>
      refine .inr ⟨place, key, rfl, rfl, ?_⟩
      rw [Std.TreeMap.mem_iff_isSome_getElem?]
      exact Option.isSome_of_eq_some found
  · rintro (⟨place, position, rfl, rfl, least, inside⟩ | ⟨place, key, rfl, rfl, known⟩)
    · have exact : position.toInt = (position.toInt.toNat : Int) := by omega
      have below : position.toInt.toNat < (heap.items place).size := by omega
      exact ⟨_, load_eq_ok_iff.mpr ⟨_, .item exact below, Array.getElem?_eq_getElem below⟩⟩
    · exact ⟨_, load_eq_ok_iff.mpr ⟨_, .entry place key, Std.TreeMap.getElem?_eq_some_getElem known⟩⟩

end Value

/-- **Stores and loads of elements.** A store succeeds exactly for a position of an array and for any
key of a map, and a load exactly for a position of an array and for a key that the map has. After a store
that succeeds, whatever stands for the container gives the new value at the index; every other load gives
what it gave, a value or a failure, and every other array and map is as it was. A store that fails changes
nothing. -/
theorem replaceElement_laws (world : World) (base index value : Value) :
    ((∃ old after, replaceElement base index value world = .ok old after) ↔
      base.HasItem world.heap index ∨ (∃ place, base = .map place) ∧
        (index.kind = .int ∨ index.kind = .string ∨ index.kind = .bool)) ∧
    (∀ old after, replaceElement base index value world = .ok old after →
      (∀ through number, world.heap.number? base = some number →
        world.heap.number? through = some number → through.load after.heap index = .ok value) ∧
      (∀ container other, (container, other) ≠ (base, index) →
        container.load after.heap other = container.load world.heap other) ∧
      (∀ place, base ≠ .array place → after.heap.arrays[place]? = world.heap.arrays[place]?) ∧
      (∀ place, base ≠ .map place → after.heap.maps[place]? = world.heap.maps[place]?) ∧
      after.files = world.files ∧ after.output = world.output) ∧
    (∀ cause after, replaceElement base index value world = .error cause after → after = world) ∧
    ((∃ held, base.load world.heap index = .ok held) ↔
      base.HasItem world.heap index ∨ base.HasEntry world.heap index) := by
  refine ⟨?_, ?_, fun _ _ failed => (replaceElement_error failed).2, Value.exists_load_iff⟩
  · rw [← Value.exists_eq_toValue_iff, ← Value.exists_names_iff]
    constructor
    · rintro ⟨old, after, stored⟩
      obtain ⟨slot, names, -⟩ := replaceElement_eq_ok_iff.mp stored
      exact ⟨slot, names⟩
    · rintro ⟨slot, names⟩
      exact ⟨_, _, replaceElement_eq_ok_iff.mpr ⟨slot, names, rfl, rfl⟩⟩
  · intro old after stored
    obtain ⟨slot, names, rfl, rfl⟩ := replaceElement_eq_ok_iff.mp stored
    have sizes := world.heap.size_items_put slot value
    refine ⟨?_, ?_, ?_, ?_, rfl, rfl⟩
    · intro through number known same
      obtain rfl := Heap.number?_injective known same
      refine Value.load_eq_ok_iff.mpr ⟨slot, ?_, Heap.at?_put_self names known value⟩
      rw [← Value.slot_eq_ok_iff, Value.slot_congr sizes]
      exact Value.slot_eq_ok_iff.mpr names
    · intro container other apart
      refine Value.load_congr sizes fun slot' names' => Heap.at?_put_other ?_ value
      rintro rfl
      obtain ⟨rfl, rfl⟩ := names.unique names'
      exact apart rfl
    · intro place elsewhere
      refine Heap.arrays_put ?_
      rintro number rfl
      cases names with
      | item => exact elsewhere rfl
    · intro place elsewhere
      refine Heap.maps_put ?_
      rintro key rfl
      cases names with
      | entry => exact elsewhere rfl

/-- A world with an array that holds itself, and a map that holds the array under a text. -/
def World.knotted : World :=
  { World.new .empty none with
    heap := ⟨#[#[.array 0, .none]], #[Std.TreeMap.empty.insert (.text "self") (.array 0)]⟩ }

/-- A store into an array that holds itself shows in what it holds, and the map keeps its entry. -/
theorem replaceElement_laws_knotted : ∃ through old after,
    (Value.array 0).load World.knotted.heap (.int 0) = .ok through ∧
    replaceElement (.array 0) (.int 1) (.text "new") World.knotted = .ok old after ∧
    through.load after.heap (.int 1) = .ok (.text "new") ∧
    through.load after.heap (.int 0) = .ok through ∧
    (Value.map 0).load after.heap (.text "self") = .ok through ∧
    (Value.array 0).load after.heap (.int 2) = .error (.indexOutOfRange 2 2) := by
  obtain ⟨succeeds, stores, -, -⟩ :=
    replaceElement_laws World.knotted (.array 0) (.int 1) (.text "new")
  obtain ⟨old, after, stored⟩ :=
    succeeds.mpr (.inl ⟨0, 1, rfl, rfl, by decide, by decide⟩)
  obtain ⟨shows, keeps, -⟩ := stores old after stored
  exact ⟨.array 0, old, after, rfl, stored, shows (.array 0) 0 rfl rfl,
    keeps (.array 0) (.int 0) (by decide), keeps (.map 0) (.text "self") (by decide),
    keeps (.array 0) (.int 2) (by decide)⟩

end ScopedScript
