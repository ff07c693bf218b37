/-
**What is in a map.**

A map is made by a literal, entry by entry, and changed by stores of elements. What it holds is the last
value that was put in for each key, and all that a program sees of a map depends on that alone:

* `Code.noted`: what a test notes along a run; `Config.gathers?`, `Config.enters?` the entries that a literal
  and a store put in;
* `filled`: entries put in one after the other; `getElem?_filled` that the last one for a key counts;
* `Gathering`, `Code.map_literal`: a literal makes a map of the entries that it put in;
* `Code.Fills`, `Code.Fills.content`: **a map holds the entries put in** by its literal and by stores since;
* `Code.maps_canonical`: **maps with the same last values look the same**, and list their keys in order.
-/

import ScopedScript.Proofs.Allocation
import ScopedScript.Proofs.Rendering
import ScopedScript.Proofs.Sorting

namespace ScopedScript

variable {steps more : Nat}

/-! ### Entries put in -/

/-- Entries put into a new map one after the other. -/
def filled (entries : List (Key × Value)) : Std.TreeMap Key Value :=
  entries.foldl (fun content entry => content.insert entry.1 entry.2) ∅

theorem filled_concat (entries : List (Key × Value)) (key : Key) (value : Value) :
    filled (entries ++ [(key, value)]) = (filled entries).insert key value := by
  rw [filled, List.foldl_append]
  rfl

theorem getElem?_filled (entries : List (Key × Value)) (key : Key) :
    (filled entries)[key]? = entries.reverse.lookup key := by
  induction entries using List.reverseRecOn with
  | nil => rfl
  | append_singleton entries entry ih =>
    obtain ⟨other, value⟩ := entry
    rw [filled_concat, Std.TreeMap.getElem?_insert, ih, List.reverse_append, List.reverse_singleton,
      List.singleton_append, List.lookup_cons]
    by_cases same : key = other
    · rw [if_pos (Std.LawfulEqOrd.compare_eq_iff_eq.mpr same.symm), beq_iff_eq.mpr same]
    · rw [if_neg fun equal => same (Std.LawfulEqOrd.compare_eq_iff_eq.mp equal).symm,
        beq_eq_false_iff_ne.mpr same]

/-- What a test notes in a number of steps of a run. -/
def Code.noted {α : Type} (code : Code) (event? : Config → Option α) : Nat → Config → List α
  | 0, _ => []
  | steps + 1, config =>
    (event? config).toList ++ (code.next? config).elim [] (code.noted event? steps)

theorem Code.noted_succ {α : Type} {code : Code} {event? : Config → Option α} {config last : Config}
    (reached : code.after steps config = some last) :
    code.noted event? (steps + 1) config = code.noted event? steps config ++ (event? last).toList := by
  induction steps generalizing config with
  | zero =>
    cases reached
    rw [noted, noted, List.nil_append]
    cases code.next? last <;> exact List.append_nil _
  | succ steps ih =>
    obtain ⟨next, found, reached⟩ := Option.bind_eq_some_iff.mp reached
    rw [noted, found, Option.elim_some, ih reached, noted, found, Option.elim_some, List.append_assoc]

namespace Config

/-- The entry that a literal puts in, above as much work as `height` says. -/
def gathers? (height : Nat) : Config → Option (Key × Value)
  | ⟨.resume value, .entry key _ _ :: below, _⟩ =>
    if below.length = height then some (key, value) else none
  | _ => none

/-- The entry that a configuration is about to store in a map. -/
def enters? (place : Nat) (config : Config) : Option (Key × Value) :=
  match config.due? with
  | some (.map other, index, value) =>
    if other = place then (Key.ofValue? index).map (·, value) else none
  | _ => none

theorem enters?_eq_some_iff {place : Nat} {config : Config} {key : Key} {value : Value} :
    config.enters? place = some (key, value) ↔ config.due? = some (.map place, key.toValue, value) := by
  unfold enters?
  split
  · rename_i other index held due
    rw [due, Option.ite_none_right_eq_some, Option.map_eq_some_iff]
    simp only [Key.ofValue?_eq_some_iff, Option.some_inj, Prod.mk.injEq, Value.map.injEq]
    constructor
    · rintro ⟨rfl, found, rfl, rfl, rfl⟩
      exact ⟨rfl, rfl, rfl⟩
    · rintro ⟨rfl, rfl, rfl⟩
      exact ⟨rfl, key, rfl, rfl, rfl⟩
  · rename_i other
    exact iff_of_false nofun fun due => other _ _ _ due

end Config

/-! ### Literals -/

/-- What a literal that waits for a key or a value has put in. -/
def Pending.gathered? : Pending → Option (Std.TreeMap Key Value)
  | .key _ content _ _ | .entry _ content _ => some content
  | _ => none

/-- A literal above some work is at its beginning, or has put in these entries and waits. -/
inductive Gathering (below : List Pending) : List (Key × Value) → Config → Prop
  | start {config : Config} {tag : Tag} {literal : List (Expr × Expr)} :
    config.control = .eval (.map tag literal) → config.pending = below → Gathering below [] config
  | waits {entries : List (Key × Value)} {config : Config} {top : List Pending} {work : Pending} :
    work.gathered? = some (filled entries) → config.pending = top ++ work :: below →
      Gathering below entries config

/-- A literal goes on, or it is over: it has failed, or handed over a new map of the entries put in. -/
def Gathers (below : List Pending) (entries : List (Key × Value)) (config : Config) : Prop :=
  Gathering below entries config ∨ config.pending = below ∧ config.control.isOver = true ∧
    ∀ value, config.control = .resume value → ∃ place, value = .map place ∧
      config.store.world.heap.maps[place]? = some (filled entries)

namespace Gathers

variable {code : Code} {below : List Pending} {entries : List (Key × Value)} {store : Store}
  {config next : Config}
variable {control : Control} {work : Pending}

theorem tidied (gathers : Gathers below entries config) : Gathers below entries config.tidied := by
  rcases gathers with gathering | ⟨last, finished, made⟩
  · cases gathering with
    | start begins last =>
      exact .inl (.start (config.tidied_control.trans begins) (config.tidied_pending.trans last))
    | waits gathered shape => exact .inl (.waits gathered (config.tidied_pending.trans shape))
  · refine .inr ⟨config.tidied_pending.trans last, by rwa [config.tidied_control], ?_⟩
    rw [config.tidied_control, config.tidied_world]
    exact made

theorem evalEntries (entries : List (Key × Value)) (rest : List (Expr × Expr)) :
    Gathers below entries (evalEntries (filled entries) rest below store) := by
  cases rest with
  | nil =>
    refine .inr ⟨rfl, rfl, ?_⟩
    rintro _ ⟨⟩
    exact ⟨_, rfl, Array.getElem?_push_size⟩
  | cons entry rest => exact .inl (.waits rfl (List.nil_append _).symm)

theorem failed {fault : Fault} : Gathers below entries ⟨.unwind fault, below, store⟩ :=
  .inr ⟨rfl, rfl, nofun⟩

/-- What goes on above a literal leaves it as it is, and puts in nothing. -/
theorem above {top : List Pending}
    (step : code.step ⟨control, top ++ work :: below, store⟩ = .next next)
    (busy : control.isOver = true → top ≠ []) :
    (∃ top', next.pending = top' ++ work :: below) ∧
      Config.gathers? below.length ⟨control, top ++ work :: below, store⟩ = none := by
  cases ended : control.isOver with
  | false =>
    have nothing : ([] : List Pending).length = control.isOver.toNat := by rw [ended]; rfl
    obtain ⟨more, longer⟩ := Code.suffix_step nothing step
    refine ⟨⟨more ++ top, by rw [← longer, List.append_assoc]; rfl⟩, ?_⟩
    cases control <;> first | rfl | cases ended
  | true =>
    cases top with
    | nil => exact absurd rfl (busy ended)
    | cons first top =>
      have one : [first].length = control.isOver.toNat := by rw [ended]; rfl
      obtain ⟨more, longer⟩ := Code.suffix_step one step
      refine ⟨⟨more ++ top, by rw [← longer, List.append_assoc]; rfl⟩, ?_⟩
      unfold Config.gathers?
      split
      · rename_i shape
        simp only [Config.mk.injEq, List.cons_append, List.cons.injEq] at shape
        rw [← shape.2.1.2, if_neg (by simp; omega)]
      · rfl

/-- The literal goes on with a key or a value. -/
theorem own (gathered : work.gathered? = some (filled entries)) (ended : control.isOver = true)
    (step : code.step ⟨control, work :: below, store⟩ = .next next) :
    Gathers below
      (entries ++ (Config.gathers? below.length ⟨control, work :: below, store⟩).toList) next := by
  cases work with
  | key line content expr rest =>
    cases gathered
    cases control with
    | unwind =>
      cases step
      exact failed
    | resume value =>
      cases step
      have nothing : Config.gathers? below.length
          ⟨.resume value, .key line (filled entries) expr rest :: below, store⟩ = none := rfl
      rw [nothing, Option.toList_none, List.append_nil]
      simp only [Code.resume]
      split
      · exact .inl (.waits rfl (List.nil_append _).symm)
      · exact failed
    | _ => cases ended
  | entry key content rest =>
    cases gathered
    cases control with
    | unwind =>
      cases step
      exact failed
    | resume value =>
      cases step
      have puts : Config.gathers? below.length
          ⟨.resume value, .entry key (filled entries) rest :: below, store⟩ = some (key, value) :=
        if_pos rfl
      rw [puts, Option.toList_some]
      show Gathers below _ (ScopedScript.evalEntries ((filled entries).insert key value) rest below _)
      rw [← filled_concat]
      exact evalEntries _ rest
    | _ => cases ended
  | _ => cases gathered

/-- **One step of a literal.** -/
theorem of_next (gathering : Gathering below entries config) (found : code.next? config = some next) :
    Gathers below (entries ++ (config.gathers? below.length).toList) next := by
  obtain ⟨middle, step, rfl⟩ := Code.step_of_next? found
  refine tidied ?_
  obtain ⟨control, pending, store⟩ := config
  cases gathering with
  | start begins last =>
    obtain rfl : control = _ := begins
    obtain rfl : pending = below := last
    cases step
    exact evalEntries [] _
  | @waits _ _ top work gathered shape =>
    obtain rfl : pending = _ := shape
    by_cases busy : control.isOver = true → top ≠ []
    · obtain ⟨⟨top', shape⟩, nothing⟩ := above step busy
      rw [nothing, Option.toList_none, List.append_nil]
      exact .inl (.waits gathered shape)
    · obtain ⟨ended, rfl⟩ : control.isOver = true ∧ top = [] := by simpa using busy
      exact own gathered ended step

end Gathers

namespace Code

variable {code : Code} {config middle last : Config} {steps place : Nat} {tag : Tag}
  {literal : List (Expr × Expr)} {value : Value} {entries : List (Key × Value)}

/-- A literal on its way has put in what was noted. -/
theorem gathers_of_after (begins : config.control = .eval (.map tag literal))
    (first : code.Lasts steps config config.pending) (reached : code.after steps config = some last) :
    Gathers config.pending (code.noted (Config.gathers? config.pending.length) steps config) last := by
  refine after_induction (.inl (.start begins rfl))
    (fun count early middle next before found gathers => ?_) reached
  rw [noted_succ before]
  rcases gathers with gathering | ⟨finished, ended, -⟩
  · exact .of_next gathering found
  · exact absurd finished (first count early middle before ended)

/-- **A literal makes a map** of the entries that it put in. -/
theorem map_literal (evaluates : code.Evaluates config steps (.map tag literal) value)
    (reached : code.after steps config = some last) : ∃ place, value = .map place ∧
      last.store.world.heap.maps[place]? =
        some (filled (code.noted (Config.gathers? config.pending.length) steps config)) := by
  obtain ⟨begins, ⟨store, reached'⟩, first⟩ := evaluates
  obtain rfl := Option.some.inj (reached.symm.trans reached')
  rcases gathers_of_after begins first reached with gathering | ⟨-, -, made⟩
  · -- work of the literal would lie above the work that waits for its value
    generalize code.noted _ steps config = entries at gathering
    cases gathering with
    | start begins => cases begins
    | waits gathered shape =>
      have longer := congrArg List.length shape
      simp at longer
      omega
  · exact made value rfl

/-! ### Stores -/

/-- A store into a map puts in its entry. -/
theorem storeElement_heap (line place : Nat) (key : Key) (value : Value) (pending : List Pending)
    (store : Store) : (storeElement line (.map place) key.toValue value pending store).store.world.heap =
      store.world.heap.setEntry place key value := by
  cases key <;> rfl

/-- **One step of a map:** it holds what it held, with the entry that is stored. -/
theorem content_next {next : Config} (found : code.next? config = some next)
    (held : config.store.world.heap.maps[place]? = some (filled entries)) :
    next.store.world.heap.maps[place]? =
      some (filled (entries ++ (config.enters? place).toList)) := by
  obtain ⟨middle, step, rfl⟩ := Code.step_of_next? found
  rw [middle.tidied_world]
  cases enters : config.enters? place with
  | none =>
    rw [Option.toList_none, List.append_nil]
    change middle.store.world.heap.maps[place]? = _
    have moves : config.store.world.heap.Moves config.due? middle.store.world.heap := step_moves step
    generalize middle.store.world.heap = later at moves
    cases moves with
    | rest | array => exact held
    | map content => exact (Heap.keeps_newMap _ content).maps place _ held
    | put due names =>
      rw [Heap.maps_put, held]
      rintro key rfl
      cases names with
      | entry =>
        rw [Config.enters?_eq_some_iff.mpr due] at enters
        cases enters
  | some entry =>
    obtain ⟨key, value⟩ := entry
    have due := Config.enters?_eq_some_iff.mp enters
    rw [Option.toList_some, filled_concat]
    unfold Config.due? at due
    split at due
    · rename_i line _ _ below store
      cases due
      cases step
      change (storeElement line (.map place) key.toValue value below
        store).store.world.heap.maps[place]? = _
      rw [storeElement_heap, Heap.setEntry, Array.getElem?_modify, if_pos rfl]
      exact congrArg (Option.map _) held
    · cases due

/-- **A run of a map:** it holds what it held, with the entries that are stored. -/
theorem content_after (reached : code.after more config = some last)
    (held : config.store.world.heap.maps[place]? = some (filled entries)) :
    last.store.world.heap.maps[place]? =
      some (filled (entries ++ code.noted (Config.enters? place) more config)) := by
  refine after_induction (by rwa [noted, List.append_nil])
    (fun count _ middle next before found held => ?_) reached
  rw [noted_succ before, ← List.append_assoc]
  exact content_next found held

/-- From a configuration, a literal makes a map at a place, and the run goes on to another configuration.
The entries are those that the literal puts in and those that are stored in the map since, in order. -/
def Fills (code : Code) (config : Config) (place : Nat) (entries : List (Key × Value)) (last : Config) :
    Prop :=
  ∃ tag literal steps middle more, code.Evaluates config steps (.map tag literal) (.map place) ∧
    code.after steps config = some middle ∧ code.after more middle = some last ∧
    entries = code.noted (Config.gathers? config.pending.length) steps config ++
      code.noted (Config.enters? place) more middle

/-- **A map holds the entries put in.** -/
theorem Fills.content (fills : code.Fills config place entries last) :
    last.store.world.heap.entries place = filled entries := by
  obtain ⟨tag, literal, steps, middle, more, evaluates, reached, onward, rfl⟩ := fills
  obtain ⟨place', same, made⟩ := map_literal evaluates reached
  cases same
  rw [Heap.entries, Array.getD_eq_getD_getElem?, content_after onward made, Option.getD_some]

end Code

/-! ### What is seen of a map -/

namespace Value

variable {heap : Heap} {place place' : Nat}
variable {path : List PathStep}

/-- A path leads from a value back to it. -/
def InItself (heap : Heap) (value : Value) : Prop :=
  ∃ path, path ≠ [] ∧ value.follow heap path = some value

theorem load_map_iff {index : Value} : (∃ held, (Value.map place).load heap index = .ok held) ↔
    index ∈ (heap.entries place).keys.map Key.toValue := by
  rw [exists_load_iff, List.mem_map]
  constructor
  · rintro (⟨_, _, ⟨⟩, -⟩ | ⟨_, key, ⟨⟩, rfl, known⟩)
    exact ⟨key, Std.TreeMap.mem_keys.mpr known, rfl⟩
  · rintro ⟨key, known, rfl⟩
    exact .inr ⟨place, key, rfl, rfl, Std.TreeMap.mem_keys.mp known⟩

variable (same : ∀ key : Key, (heap.entries place)[key]? = (heap.entries place')[key]?)

include same

/-- Maps with the same content lead to the same values. -/
theorem follow_of_content (proper : path ≠ []) :
    (Value.map place).follow heap path = (Value.map place').follow heap path := by
  obtain ⟨step, path, rfl⟩ := List.exists_cons_of_ne_nil proper
  cases step with
  | item => rfl
  | entry key => exact congrArg (Option.bind · _) (same key)

/-- What repeats in a map that is not in itself is in its content. -/
theorem Repeats.of_content (outside : ¬ InItself heap (.map place))
    (repeats : Repeats heap (.map place) path) : Repeats heap (.map place') path := by
  obtain ⟨shorter, earlier, proper, again⟩ := repeats
  have longer : path ≠ [] := fun nothing => proper (by
    rw [nothing] at earlier ⊢
    exact List.prefix_nil.mp earlier)
  by_cases empty : shorter = []
  · subst empty
    exact absurd ⟨path, longer, again.symm⟩ outside
  · refine ⟨shorter, earlier, proper, ?_⟩
    rw [← follow_of_content same empty, ← follow_of_content same longer, again]

/-- Maps with the same content that are not in themselves have the same text. -/
theorem shown_of_content (keys : (heap.entries place).keys = (heap.entries place').keys)
    (outside : ¬ InItself heap (.map place)) (outside' : ¬ InItself heap (.map place')) :
    (Value.map place).shown heap = (Value.map place').shown heap := by
  refine Laid.unique (Laid.transfer (fun path inner found => ?_) (laid_shown heap _))
    (laid_shown heap (.map place'))
  have cuts : Repeats heap (.map place') path ↔ Repeats heap (.map place) path :=
    ⟨.of_content (fun key => (same key).symm) outside', .of_content same outside⟩
  by_cases top : path = []
  · subst top
    cases found
    exact ⟨.map place', rfl, congrArg Shape.map keys.symm, rfl, fun _ => cuts⟩
  · exact ⟨inner, (follow_of_content same top).symm.trans found, rfl, rfl, fun _ => cuts⟩

end Value

namespace Script

/-- Whether a run comes to a literal, and this makes a map in a number of steps, with these entries put in
when the run has gone on for some more. -/
def fillsWithin (script : Script) (begun steps more place : Nat) (entries : List (Key × Value)) : Bool :=
  (script.code.after begun (script.start .bare)).any fun config =>
    (config.control matches .eval (.map ..)) &&
      (script.code.ends? steps config.pending config).any fun middle =>
        Config.held middle.control = [.map place] &&
          script.code.noted (Config.gathers? config.pending.length) steps config ++
            script.code.noted (Config.enters? place) more middle = entries

theorem exists_fills {source : String} {script : Script} (compiled : compile source {} = .ok script)
    {begun total place : Nat} {entries : List (Key × Value)} {last : Config}
    (fills : script.fillsWithin begun steps more place entries = true)
    (reached : script.code.after total (script.start .bare) = some last)
    (sum : total = begun + (steps + more)) :
    ∃ config, script.code.Fills config place entries last := by
  obtain ⟨config, begins, rest⟩ := (Option.any_eq_true _ _).mp fills
  obtain ⟨literal, rest⟩ := Bool.and_eq_true_iff.mp rest
  obtain ⟨middle, ends, rest⟩ := (Option.any_eq_true _ _).mp rest
  obtain ⟨given, same⟩ := Bool.and_eq_true_iff.mp rest
  obtain ⟨tag, literal, starts⟩ : ∃ tag literal, config.control = .eval (.map tag literal) := by
    split at literal
    · exact ⟨_, _, by assumption⟩
    · cases literal
  obtain ⟨act, callers, standing⟩ := standing compiled ⟨begun, begins⟩
  have after := (Code.of_ends? ends).1
  rw [sum, Code.after_add, begins, Option.bind_some, Code.after_add, after] at reached
  exact ⟨config, tag, literal, steps, middle, more, (setting compiled).evaluates_of_ends? standing
    starts ends (Config.resume_of_held (of_decide_eq_true given)), after, reached,
    (of_decide_eq_true same).symm⟩

/-- A run makes two maps, and what is then on the heap has a property. -/
theorem exists_maps (source : String) (entries entries' : List (Key × Value))
    (begun steps begun' steps' total : Nat) (property : Heap → Prop) [DecidablePred property]
    (passes : (compile source {}).toOption.any (fun script =>
      script.fillsWithin begun steps (total - begun - steps) 0 entries &&
        script.fillsWithin begun' steps' (total - begun' - steps') 1 entries' &&
        (script.code.after total (script.start .bare)).any (property ·.store.world.heap)) = true)
    (long : begun + steps ≤ total ∧ begun' + steps' ≤ total) :
    ∃ script, compile source {} = .ok script ∧ ∃ config config' last,
      script.code.Fills config 0 entries last ∧ script.code.Fills config' 1 entries' last ∧
      property last.store.world.heap := by
  refine exists_compiled _ passes fun script compiled passes => ?_
  obtain ⟨both, passes⟩ := Bool.and_eq_true_iff.mp passes
  obtain ⟨first, second⟩ := Bool.and_eq_true_iff.mp both
  obtain ⟨last, reached, holds⟩ := (Option.any_eq_true _ _).mp passes
  obtain ⟨config, fills⟩ := exists_fills compiled first reached (by omega)
  obtain ⟨config', fills'⟩ := exists_fills compiled second reached (by omega)
  exact ⟨config, config', last, fills, fills', of_decide_eq_true holds⟩

end Script

/-- **Maps with the same last values look the same.** The order of keys is strict and total, goes with
equality, and puts ints before texts before truth values. Two maps into which the same last value was put for
each key, by literals and by stores in whatever order, are equal and have the same length; they have the same
text unless one of them is in itself. `indexer` lists the same keys for both, each once and in order, and an
element can be loaded exactly at these. -/
theorem Code.maps_canonical (code : Code) :
    (∀ first second : Key, (Key.order first second = .lt ↔ first.Before second) ∧
      (Key.order first second = .eq ↔ first = second)) ∧
    (∀ key : Key, ¬ key.Before key) ∧
    (∀ first second third : Key, first.Before second → second.Before third → first.Before third) ∧
    (∀ first second : Key, first.Before second ∨ first = second ∨ second.Before first) ∧
    ∀ config config' last place place' entries entries',
      code.Fills config place entries last → code.Fills config' place' entries' last →
      (∀ key : Key, entries.reverse.lookup key = entries'.reverse.lookup key) →
      (Value.map place).same last.store.world.heap (.map place') = true ∧
      Builtin.call .len [.map place] last.store.world = Builtin.call .len [.map place'] last.store.world ∧
      (¬ Value.InItself last.store.world.heap (.map place) →
        ¬ Value.InItself last.store.world.heap (.map place') →
        (Value.map place).shown last.store.world.heap =
          (Value.map place').shown last.store.world.heap) ∧
      ∃ keys : List Key, keys.Pairwise Key.Before ∧ ∀ either ∈ [place, place'],
        Builtin.call .indexer [.map either] last.store.world =
          allocate (keys.map Key.toValue).toArray last.store.world ∧
        ∀ index, (∃ held, (Value.map either).load last.store.world.heap index = .ok held) ↔
          index ∈ keys.map Key.toValue := by
  refine ⟨fun _ _ => ⟨Key.order_eq_lt_iff, Key.order_eq_iff⟩, Key.before_laws.1, Key.before_laws.2.1,
    Key.before_laws.2.2, ?_⟩
  intro config config' last place place' entries entries' fills fills' lasts
  have content := fills.content
  have content' := fills'.content
  generalize last.store.world = world at content content' ⊢
  have same : ∀ key : Key, (world.heap.entries place)[key]? = (world.heap.entries place')[key]? := by
    intro key
    rw [content, content', getElem?_filled, getElem?_filled, lasts key]
  have alike := Std.TreeMap.Equiv.of_forall_constGet?_eq same
  have keys := alike.keys_eq
  refine ⟨?_, ?_, Value.shown_of_content same keys, (world.heap.entries place).keys, ?_, ?_⟩
  · refine Value.same_of_parts (congrArg Shape.map keys) ?_
    exact alike.values_eq
  · have sizes : (world.heap.entries place).size = (world.heap.entries place').size := alike.size_eq
    change EStateM.Result.ok (intValue _) world = EStateM.Result.ok (intValue _) world
    rw [sizes]
  · have ordered : (world.heap.entries place).keys.Pairwise fun first second =>
        compare first second = .lt := Std.TreeMap.ordered_keys
    exact ordered.imp Key.order_eq_lt_iff.mp
  · intro either member
    have listed : (world.heap.entries either).keys = (world.heap.entries place).keys := by
      rcases List.mem_pair.mp member with rfl | rfl
      · rfl
      · exact keys.symm
    rw [← listed]
    exact ⟨rfl, fun index => Value.load_map_iff⟩

/-- A text that puts the same entries into two maps, in different orders. -/
def reordered : String :=
  "\n".intercalate ["m = \x7bTrue: 0, 1: 1\x7d", "m[True] = 2", "n = \x7bTrue: 2\x7d", "n[1] = 1", ""]

theorem Script.reordered_canonical : ∃ script, Script.compile reordered {} = .ok script ∧
    ∃ config config' last,
      script.code.Fills config 0 [(.bool true, .int 0), (.int 1, .int 1), (.bool true, .int 2)] last ∧
      script.code.Fills config' 1 [(.bool true, .int 2), (.int 1, .int 1)] last ∧
      (Value.map 0).same last.store.world.heap (.map 1) = true := by
  obtain ⟨script, compiled, config, config', last, fills, fills', -⟩ :=
    Script.exists_maps reordered [(.bool true, .int 0), (.int 1, .int 1), (.bool true, .int 2)]
      [(.bool true, .int 2), (.int 1, .int 1)] 2 9 22 5 36 (fun _ => True) (by decide +kernel) (by decide)
  refine ⟨script, compiled, config, config', last, fills, fills', ?_⟩
  refine ((Code.maps_canonical _).2.2.2.2 _ _ _ _ _ _ _ fills fills' fun key => ?_).1
  simp only [List.reverse_cons, List.reverse_nil, List.nil_append, List.cons_append, List.lookup_cons]
  by_cases yes : key = .bool true
  · subst yes
    rfl
  · rw [beq_eq_false_iff_ne.mpr yes]

/-- A text that stores a map under the same key in itself and in another map. -/
def selfStoring : String :=
  "\n".intercalate ["m = \x7b\x7d", "m[\"me\"] = m", "n = \x7b\x7d", "n[\"me\"] = m", ""]

/-- A map that is in itself and a map that is not have the same last values, but not the same text. -/
theorem Script.selfStoring_shown : ∃ script, Script.compile selfStoring {} = .ok script ∧
    ∃ config config' last, script.code.Fills config 0 [(.text "me", .map 0)] last ∧
      script.code.Fills config' 1 [(.text "me", .map 0)] last ∧
      (Value.map 0).shown last.store.world.heap ≠ (Value.map 1).shown last.store.world.heap :=
  Script.exists_maps _ _ _ 2 1 14 1 24 (fun heap => (Value.map 0).shown heap ≠ (Value.map 1).shown heap)
    (by decide +kernel) (by decide)

end ScopedScript
