/-
**Final variables.**

A final variable keeps its value for as long as its frame lasts, with one reservation. Its name can
be declared again in the same scope, by a function first and by a variable after that, and the new
variable has its value in the same place:

* `Activation.Lists`, `Keeps`: the layer of a frame lists a declaration, whose value the frame
  holds;
* `Transition.keeps`: whatever a step does, the value stays, unless the step assigns a later
  declaration of the same name in the same frame;
* `Script.finals_kept`: **reading a final variable gives the value that was assigned to it**, unless
  such an assignment came in between;
* `Script.final_replaced`: such an assignment can come in between.
-/

import Mathlib.Data.Nat.Init
import ScopedScript.Proofs.Storage

namespace ScopedScript

variable {number : Nat}
variable {final : DeclId → Prop} {moved : Option Assignment} {value : Value} {steps : Nat}

/-! ### Names in frames -/

namespace Frames

variable {frames others : Frames} {number : Nat} {name : String} {value : Value}

theorem scope_congr (same : others.table[number]? = frames.table[number]?) :
    others.scope number = frames.scope number := by
  rw [scope, scope, Array.getD_eq_getD_getElem?, Array.getD_eq_getD_getElem?, same]

theorem lt_size_of_get? (found : frames.get? number name = some value) :
    number < frames.table.size := by
  obtain ⟨frame, inside, -⟩ := Option.bind_eq_some_iff.mp found
  exact (Array.getElem?_eq_some_iff.mp inside).1

theorem get?_set_self (inside : number < frames.table.size) :
    (frames.set number name value).get? number name = some value := by
  rw [get?, table_set_self (Array.getElem?_eq_getElem inside), Option.bind_some,
    Bindings.get?_set_self]

theorem get?_set_other {place : Nat} {key : String} (other : number ≠ place ∨ name ≠ key) :
    (frames.set place key value).get? number name = frames.get? number name := by
  by_cases same : place = number
  · subst same
    cases found : frames.table[place]? with
    | none =>
      rw [get?, get?, set, Array.getElem?_modify, if_pos rfl, found, Option.map_none]
    | some frame =>
      rw [get?, get?, table_set_self found, found, Option.bind_some, Option.bind_some,
        Bindings.get?_set_other _ _ (other.resolve_left (absurd rfl))]
  · exact get?_congr (table_set_other same) name

theorem scope_set (place : Nat) (key : String) :
    (frames.set place key value).scope number = frames.scope number := by
  rw [scope, scope, Array.getD_eq_getD_getElem?, Array.getD_eq_getD_getElem?]
  by_cases same : place = number
  · subst same
    cases found : frames.table[place]? with
    | none => rw [set, Array.getElem?_modify, if_pos rfl, found, Option.map_none]
    | some frame => rw [table_set_self found, Option.getD_some, Option.getD_some]
  · rw [table_set_other same]

end Frames

/-! ### What steps leave alone -/

namespace Activation

variable {promise : Promise} {act next : Activation} {event : Assignment} {value : Value}
variable {top : Layer} {rest : List Layer}

/-- The layer of a frame lists a declaration under a name. -/
def Lists (act : Activation) (event : Assignment) : Prop :=
  ∃ layer ∈ act.layers, layer.scope = act.frames.scope event.number ∧
    (event.name, event.decl) ∈ layer.names

/-- The frames of an activation are on the chain. -/
theorem Fits.own_mem {numbers : List Nat} (fits : act.Fits promise) (own : act.base ≤ number)
    (inside : number < act.frames.table.size)
    (ascent : Ascent act.frames.links act.frames.newest numbers) : number ∈ numbers := by
  have newest : act.frames.newest = act.frames.table.size - 1 := rfl
  have upTo : number ≤ act.frames.newest := by omega
  -- from the newest frame downward, every own frame is inside the one before it
  induction upTo using Nat.decreasingInduction with
  | self =>
    obtain ⟨rest, rfl⟩ := ascent.cons_eq
    exact List.mem_cons_self
  | of_succ number below ih =>
    have above : number + 1 < act.frames.table.size := by omega
    have member := ih (by omega) above
    obtain ⟨before, rest, rfl⟩ := List.append_of_mem member
    have link := fits.stacked (Nat.lt_succ_of_le own) above
    cases ascent.suffix with
    | last top =>
      rw [top] at link
      cases link
    | next up further =>
      rw [up] at link
      cases link
      obtain ⟨after, rfl⟩ := further.cons_eq
      simp

/-- Only the innermost layer is of the newest frame. -/
theorem Fits.eq_top {layer : Layer} (fits : act.Fits promise)
    (apart : (act.layers.map Layer.scope).Nodup) (shape : act.layers = top :: rest)
    (member : layer ∈ act.layers) (scope : layer.scope = act.frames.scope number)
    (newest : number = act.frames.newest) : layer = top := by
  refine List.inj_on_of_nodup_map apart member (shape ▸ List.mem_cons_self) ?_
  rw [scope, newest, (fits.top shape).scope]

/-- A layer that is left is not of an older frame. -/
theorem Fits.ne_top (fits : act.Fits promise) (apart : (act.layers.map Layer.scope).Nodup)
    (shape : act.layers = top :: rest) (own : act.base ≤ number)
    (older : number < act.frames.newest) : top.scope ≠ act.frames.scope number := by
  intro same
  obtain ⟨numbers, ascent, scopes⟩ := fits.chain_scopes
  have inside : number < act.frames.table.size := Nat.lt_trans older fits.newest_lt
  have member := fits.own_mem own inside ascent
  have newest := fits.own_mem fits.base_le fits.newest_lt ascent
  rw [← scopes] at apart
  have equal : number = act.frames.newest := by
    refine List.inj_on_of_nodup_map apart member newest ?_
    rw [← same, (fits.top shape).scope]
  omega

theorem Lists.mono (lists : act.Lists event)
    (scope : next.frames.scope event.number = act.frames.scope event.number)
    (layers : ∀ layer ∈ act.layers, layer.scope = act.frames.scope event.number →
      ∃ layer' ∈ next.layers, layer'.scope = layer.scope ∧ layer.names ⊆ layer'.names) :
    next.Lists event := by
  obtain ⟨layer, member, same, named⟩ := lists
  obtain ⟨layer', member', same', names⟩ := layers layer member same
  exact ⟨layer', member', by rw [same', same, scope], names named⟩

theorem Lists.cons {base : Nat} {frames later : Frames} {layer : Layer} {layers : List Layer}
    (lists : Lists ⟨base, frames, layers⟩ event)
    (old : later.table[event.number]? = frames.table[event.number]?) :
    Lists ⟨base, later, layer :: layers⟩ event :=
  lists.mono (Frames.scope_congr old) fun other member _ =>
    ⟨other, List.mem_cons_of_mem _ member, rfl, List.Subset.refl _⟩

/-- A name that is added to the innermost layer leaves the others. -/
theorem mem_named {layer : Layer} (name : String) (id : DeclId) (member : layer ∈ top :: rest) :
    ∃ layer' ∈ top.named name id :: rest, layer'.scope = layer.scope ∧
      layer.names ⊆ layer'.names := by
  rcases List.mem_cons.mp member with rfl | further
  · exact ⟨_, List.mem_cons_self, rfl, List.subset_cons_self _ _⟩
  · exact ⟨layer, List.mem_cons_of_mem _ further, rfl, List.Subset.refl _⟩

/-- **What a move does to a final variable of the same activation.** -/
theorem Move.keeps (move : act.Move promise final moved next) (fits : act.Fits promise)
    (apart : (act.layers.map Layer.scope).Nodup)
    (latest : ∀ ⦃layer⦄, layer ∈ act.layers → ∀ ⦃name id other⦄, layer.names.lookup name = some id →
      (name, other) ∈ layer.names → other ≤ id) (isFinal : final event.decl)
    (own : act.base ≤ event.number) (lasts : event.number < next.frames.table.size)
    (found : act.frames.get? event.number event.name = some value) (lists : act.Lists event) :
    next.Lists event ∧
      (next.frames.get? event.number event.name = some value ∨
        ∃ newer, moved = some ⟨event.number, event.name, newer⟩ ∧ event.decl < newer ∧
          next.Lists ⟨event.number, event.name, newer⟩) := by
  have inside := Frames.lt_size_of_get? found
  cases move with
  | still => exact ⟨lists, .inl found⟩
  | @opened base frames layers scope =>
    have old : (frames.child frames.newest scope).table[event.number]? = _ :=
      Frames.table_child_old inside
    exact ⟨lists.cons old, .inl ((Frames.get?_congr old _).trans found)⟩
  | @begun base frames layers scope name id value allowed =>
    have old : ((frames.child frames.newest scope).set frames.table.size name
        value).table[event.number]? = _ :=
      (Frames.table_set_other (Nat.ne_of_gt inside)).trans (Frames.table_child_old inside)
    exact ⟨lists.cons old, .inl ((Frames.get?_congr old _).trans found)⟩
  | @again base frames rest owned scope name id value allowed free =>
    refine ⟨lists.mono (Frames.scope_set _ _) fun layer member _ =>
      ⟨layer, member, rfl, List.Subset.refl _⟩, .inl ?_⟩
    -- the variable of the loop is the only name of its layer, and it is not final
    refine (Frames.get?_set_other (not_and_or.mp fun here => free ?_)).trans found
    obtain ⟨layer, member, same, named⟩ := lists
    rw [fits.eq_top apart rfl member same here.1] at named
    obtain ⟨-, rfl⟩ := Prod.mk.inj (List.mem_singleton.mp named)
    exact isFinal
  | @closed base frames layer kept rest inner =>
    change event.number < frames.pop.table.size at lasts
    rw [Frames.size_pop] at lasts
    have old := Frames.table_pop lasts
    refine ⟨lists.mono (Frames.scope_congr old) fun other member scope => ?_,
      .inl ((Frames.get?_congr old _).trans found)⟩
    rcases List.mem_cons.mp member with rfl | further
    · exact absurd scope (fits.ne_top apart rfl own lasts)
    · exact ⟨other, further, rfl, List.Subset.refl _⟩
  | defined name id other =>
    exact ⟨lists.mono rfl fun layer member _ => mem_named name id member, .inl found⟩
  | @declared base frames layer rest name id value newer admits =>
    refine ⟨lists.mono (Frames.scope_set _ _) fun other member _ => mem_named name id member, ?_⟩
    by_cases here : event.number = frames.newest ∧ event.name = name
    · obtain ⟨other, member, same, named⟩ := lists
      have top := fits.eq_top apart rfl member same here.1
      rw [top] at named same
      refine .inr ⟨id, by rw [here.1, here.2], newer _ named, ?_⟩
      exact ⟨_, List.mem_cons_self, same.trans (Frames.scope_set _ _).symm,
        by rw [here.2]; exact List.mem_cons_self⟩
    · exact .inl ((Frames.get?_set_other (not_and_or.mp here)).trans found)
  | @rebound base frames layers layer number name id value member mine found' free place admits =>
    refine ⟨lists.mono (Frames.scope_set _ _) fun layer member _ =>
      ⟨layer, member, rfl, List.Subset.refl _⟩, ?_⟩
    by_cases here : event.number = number ∧ event.name = name
    · obtain ⟨rfl, rfl⟩ := here
      obtain ⟨number, place', lies⟩ := fits.frame apart member
      obtain rfl : event.number = number := Option.some.inj (place.symm.trans place')
      obtain ⟨other, member', same, named⟩ := lists
      obtain rfl : other = layer :=
        List.inj_on_of_nodup_map apart member' member (same.trans lies.scope)
      have upTo := latest member found' named
      have different : event.decl ≠ id := fun equal => free (equal ▸ isFinal)
      refine .inr ⟨id, rfl, Nat.lt_of_le_of_ne upTo different, ?_⟩
      exact ⟨other, member, same.trans (Frames.scope_set _ _).symm, Layer.mem_of_lookup found'⟩
    · exact .inl ((Frames.get?_set_other (not_and_or.mp here)).trans found)

end Activation

/-- A frame holds a value under a name, and the activation that the frame belongs to lists the
declaration. -/
def Keeps (event : Assignment) (value : Value) : List Activation → Prop
  | [] => False
  | act :: callers => act.frames.get? event.number event.name = some value ∧
    (act.base ≤ event.number → act.Lists event) ∧
    (event.number < act.base → Keeps event value callers)

/-- **What a step does to a final variable**: its frame keeps the value, or a later declaration of
the name is assigned in that frame. -/
theorem Transition.keeps {promise : Promise} {act next : Activation}
    {callers callers' : List Activation} {event : Assignment}
    (transition : Transition promise final (act :: callers) moved (next :: callers'))
    (sound : Sound promise (act :: callers)) (apart : (act.layers.map Layer.scope).Nodup)
    (latest : ∀ ⦃layer⦄, layer ∈ act.layers → ∀ ⦃name id other⦄, layer.names.lookup name = some id →
      (name, other) ∈ layer.names → other ≤ id) (isFinal : final event.decl)
    (lasts : event.number < next.frames.table.size) (keeps : Keeps event value (act :: callers)) :
    Keeps event value (next :: callers') ∨
      ∃ newer, moved = some ⟨event.number, event.name, newer⟩ ∧ event.decl < newer ∧
        next.Lists event ∧ next.Lists ⟨event.number, event.name, newer⟩ := by
  obtain ⟨found, own, theirs⟩ := keeps
  cases transition with
  | move move =>
    obtain ⟨base, below⟩ := move.below sound.fits apart
    rcases Nat.lt_or_ge event.number act.base with before | after
    · refine .inl ⟨(Frames.get?_congr (below _ before) _).trans found, fun mine => ?_,
        fun _ => theirs before⟩
      exact absurd mine (by omega)
    · obtain ⟨lists, same | ⟨newer, event, later, lists'⟩⟩ :=
        move.keeps sound.fits apart latest isFinal after lasts found (own after)
      · exact .inl ⟨same, fun _ => lists, fun before => absurd before (by omega)⟩
      · exact .inr ⟨newer, event, later, lists, lists'⟩
  | call calls =>
    have inside := Frames.lt_size_of_get? found
    cases calls with
    | mk _ _ _ table =>
      refine .inl ⟨(Frames.get?_congr (Frames.pushed_old table inside) _).trans found,
        fun mine => absurd mine (Nat.not_le_of_lt inside), fun _ => ⟨found, own, theirs⟩⟩
  | ended =>
    cases sound with
    | call _ upon _ => exact .inl (theirs (upon.base ▸ lasts))

/-! ### Runs -/

theorem ScopeTree.Final.holds {tree : ScopeTree} {id : DeclId} (isFinal : tree.Final id) :
    tree.Holds id := by
  obtain ⟨decl, stored, final⟩ := isFinal
  refine ⟨decl, stored, ?_⟩
  unfold Decl.isFinal at final
  unfold Decl.isFunction
  split at final
  · rw [‹decl.kind = _›]
  · cases final

namespace Code

variable {code : Code} {config next : Config} {event : Assignment} {value : Value}

theorem of_assignment? (made : code.assignment? config = some event) :
    ∃ value name line pending store resolution,
      config = ⟨.resume value, .assign name line :: pending, store⟩ ∧
      code.analysis.resolutions[name.id]? = some resolution ∧
      store.frames.frameFor store.current resolution.scope = some event.number ∧
      event = ⟨event.number, name.name, resolution.decl⟩ := by
  unfold assignment? at made
  split at made
  · obtain ⟨resolution, noted, made⟩ := Option.bind_eq_some_iff.mp made
    obtain ⟨number, place, made⟩ := Option.bind_eq_some_iff.mp made
    cases made
    exact ⟨_, _, _, _, _, resolution, rfl, noted, place, rfl⟩
  · cases made

/-- An assignment puts its value under its name, in its frame. -/
theorem frames_of_assignment? (made : code.assignment? config = some event)
    (gives : config.control = .resume value) (found : code.next? config = some next) :
    next.store.frames = config.store.frames.set event.number event.name value := by
  obtain ⟨value', name, line, pending, store, resolution, rfl, noted, place, same⟩ :=
    of_assignment? made
  cases gives
  obtain ⟨middle, step, rfl⟩ := step_of_next? found
  cases step
  rw [Config.tidied_frames, same]
  show (code.assign name line value pending store).store.frames = _
  rw [assign, noted, Option.bind_some, place]
  rfl

end Code

section Run

variable {program : Program} {policy : Redeclaration} {code : Code} {bottom : Bottom}
  {act : Activation} {callers : List Activation} {config : Config} {event : Assignment}
  {value : Value} (setting : Setting program policy code .anything bottom)

include setting

/-- Reading a variable gives what its frame holds. -/
theorem Setting.reads_held {name : Ident} {resolution : Resolution}
    (reads : config.reads? = some name)
    (noted : code.analysis.resolutions[name.id]? = some resolution)
    (held : (program.resolve policy).tree.Holds resolution.decl)
    (place : config.store.frames.frameFor config.store.current resolution.scope = some number)
    (found : config.store.frames.get? number name.name = some value) :
    code.read? config = some (name, value) := by
  rw [Code.read?, reads]
  obtain ⟨control, pending, store⟩ := config
  unfold Config.reads? at reads
  split at reads
  · rename_i tag key _ _ same
    cases same
    cases reads
    obtain ⟨decl, stored, plain⟩ := held
    have resolved : code.resolved? tag.id = some (resolution, decl.kind) :=
      setting.resolved (setting.of.resolutions ▸ noted) stored
    have looked : code.lookup store tag.id key = .ok value := by
      unfold Code.lookup
      rw [resolved]
      unfold Decl.isFunction at plain
      split at plain
      · cases plain
      · cases plain
      · simp only [place, Option.bind_some, found]
    rw [Code.next?_name looked, Option.map_some, Config.tidied_control]
  · cases reads

variable (standing : Standing program policy code .anything bottom act callers config)

include standing

/-- The declaration that a name finds in a layer is the latest of that name. -/
theorem Setting.latest {layer : Layer} (member : layer ∈ act.layers) {name : String} {id other : DeclId}
    (found : layer.names.lookup name = some id) (named : (name, other) ∈ layer.names) :
    other ≤ id := by
  obtain ⟨steps, -, here⟩ := setting.place standing
  rw [here] at member
  exact Resolver.le_of_lookup ((program.formed_before policy steps).latest member) found named

/-- What the layer of a frame lists is declared under that name, in the scope of the frame. -/
theorem Setting.listed (lists : act.Lists event) :
    ∃ decl, (program.resolve policy).tree.decls[event.decl]? = some decl ∧
      decl.name = event.name ∧ decl.scope = act.frames.scope event.number := by
  obtain ⟨steps, within, here⟩ := setting.place standing
  obtain ⟨layer, member, scope, named⟩ := lists
  rw [here] at member
  obtain ⟨decl, stored, name, inside⟩ := Program.listed within member named
  exact ⟨decl, stored, name, inside.trans scope⟩

/-- Two declarations that the layer of a frame lists under one name have one place. -/
theorem Setting.shares {newer : DeclId} (lists : act.Lists event)
    (lists' : act.Lists ⟨event.number, event.name, newer⟩) (later : event.decl < newer)
    (held : (program.resolve policy).tree.Holds event.decl)
    (held' : (program.resolve policy).tree.Holds newer) :
    (program.resolve policy).tree.shares event.decl newer = true := by
  obtain ⟨decl, stored, name, scope⟩ := setting.listed standing lists
  obtain ⟨decl', stored', name', scope'⟩ := setting.listed standing lists'
  obtain ⟨_, found, plain⟩ := held
  obtain ⟨_, found', plain'⟩ := held'
  cases stored.symm.trans found
  cases stored'.symm.trans found'
  unfold ScopeTree.shares
  rw [stored, stored']
  simp [later, plain, plain', name, name', scope, scope']

theorem Setting.holds_assigned (whole : bottom.pending = [])
    (made : code.assignment? config = some event) :
    (program.resolve policy).tree.Holds event.decl := by
  obtain ⟨value, name, line, pending, store, resolution, rfl, noted, -, same⟩ :=
    Code.of_assignment? made
  obtain ⟨decl, number, ⟨resolution', noted', stored, -⟩, plain⟩ :=
    (setting.names_found whole standing).2.1 name rfl
  cases noted.symm.trans noted'
  rw [same, ← setting.of.tree]
  exact ⟨decl, stored, plain⟩

/-- **A final variable keeps its value** as long as its frame lasts and nothing else is assigned in
its place. -/
theorem Setting.keeps {last : Config} (whole : bottom.pending = [])
    (isFinal : (program.resolve policy).tree.Final event.decl)
    (lasts : ∀ between ≤ steps, ∀ middle, code.after between config = some middle → event.number <
      middle.store.frames.table.size) (keeps : Keeps event value (act :: callers))
    (reached : code.after steps config = some last) :
    (∃ act' callers', Standing program policy code .anything bottom act' callers' last ∧
      Keeps event value (act' :: callers')) ∨
    ∃ between < steps, ∃ middle later, code.after between config = some middle ∧
      code.assignment? middle = some later ∧ later.number = event.number ∧
      (program.resolve policy).tree.shares event.decl later.decl = true := by
  refine Code.after_induction (.inl ⟨act, callers, standing, keeps⟩) ?_ reached
  rintro count early middle next before found (⟨act', callers', stands, keeps⟩ | ⟨between, early, rest⟩)
  · obtain ⟨act'', callers'', stands', transition⟩ := setting.next stands
      (fun finished => whole ▸ Code.pending_of_next? found finished) (fun _ _ => trivial) found
    have reached' : code.after (count + 1) config = some next := by
      rw [Code.after_succ, before, Option.bind_some, found]
    have size := lasts (count + 1) early next reached'
    rw [stands'.frames] at size
    rcases transition.keeps stands.sound (setting.apart stands)
        (fun _ member _ _ _ => setting.latest stands member) isFinal size keeps with
      kept | ⟨newer, made, later, lists, lists'⟩
    · exact .inl ⟨act'', callers'', stands', kept⟩
    · refine .inr ⟨count, Nat.lt_succ_self count, middle, _, before, made, rfl, ?_⟩
      exact setting.shares stands' lists lists' later isFinal.holds
        (setting.holds_assigned stands whole made)
  · exact .inr ⟨between, Nat.lt_succ_of_lt early, rest⟩

/-- The assignment of a final variable gives it its value. -/
theorem Setting.assigned_keeps {next : Config} (whole : bottom.pending = [])
    (made : code.assignment? config = some event) (gives : config.control = .resume value)
    (isFinal : (program.resolve policy).tree.Final event.decl)
    (found : code.next? config = some next) :
    ∃ act' callers', Standing program policy code .anything bottom act' callers' next ∧
      act'.Lists event ∧ Keeps event value (act' :: callers') := by
  obtain ⟨act', callers', stands, transition⟩ := setting.next standing
    (fun finished => whole ▸ Code.pending_of_next? found finished) (fun _ _ => trivial) found
  refine ⟨act', callers', stands, ?_⟩
  have bound := Code.frames_of_assignment? made gives found
  rw [made] at transition
  generalize whatever : some event = moved at transition
  have fits := standing.sound.fits
  cases transition with
  | call | ended => cases whatever
  | move move =>
    cases move with
    | still | opened | begun | again | closed | defined => cases whatever
    | rebound name id value member own latest free =>
      cases whatever
      exact absurd isFinal free
    | @declared base frames layer rest name id value newer admits =>
      cases whatever
      have lists : Activation.Lists ⟨base, frames.set frames.newest name value,
          layer.named name id :: rest⟩ ⟨frames.newest, name, id⟩ :=
        ⟨_, List.mem_cons_self, (fits.top rfl).scope.symm.trans (Frames.scope_set _ _).symm,
          List.mem_cons_self⟩
      refine ⟨lists, ?_, fun _ => lists, fun below => absurd below (Nat.not_lt.mpr fits.base_le)⟩
      rw [← stands.frames, bound, standing.frames]
      exact Frames.get?_set_self fits.newest_lt

end Run

/-- From the assignment of a final variable a run goes on, while the frame of the variable lasts, to
a use of the variable that finds it in that frame. -/
structure Code.ReadsFinal (code : Code) (config : Config) (event : Assignment) (steps : Nat)
    (last : Config) (name : Ident) : Prop where
  made : code.assignment? config = some event
  isFinal : code.analysis.tree.Final event.decl
  further : code.after (steps + 1) config = some last
  lasts : ∀ between ≤ steps, ∀ middle, code.after (between + 1) config = some middle →
    event.number < middle.store.frames.table.size
  reads : last.reads? = some name
  refers : ∃ resolution, code.analysis.resolutions[name.id]? = some resolution ∧
    resolution.decl = event.decl ∧
    last.store.frames.frameFor last.store.current resolution.scope = some event.number

/-- **Final variables keep their values.** Once a final variable is assigned a value in a frame, and
as long as the frame lasts, every name that refers to the variable and finds it in that frame gives
that value, unless a later declaration that has its value in the same place was assigned in between.
-/
theorem Script.finals_kept {source : String} {options : Options} {script : Script}
    (compiled : Script.compile source options = .ok script) {host : Host}
    {config last : Config} {value : Value} {event : Assignment} {steps : Nat}
    {name : Ident} (reached : script.Reaches host config)
    (gives : config.control = .resume value)
    (use : script.code.ReadsFinal config event steps last name) :
    script.code.read? last = some (name, value) ∨
      ∃ between < steps, ∃ middle later,
        script.code.after (between + 1) config = some middle ∧
        script.code.assignment? middle = some later ∧ later.number = event.number ∧
        script.analysis.tree.shares event.decl later.decl = true := by
  have setting := Script.setting compiled
  have tree : script.analysis.tree = (script.program.resolve options.redeclaration).tree :=
    setting.of.tree
  obtain ⟨made, isFinal, further, lasts, reads, resolution, noted, same, place⟩ := use
  change script.analysis.tree.Final event.decl at isFinal
  rw [tree] at isFinal ⊢
  obtain ⟨act, callers, standing⟩ := Script.standing compiled reached
  obtain ⟨first, found, further⟩ := Option.bind_eq_some_iff.mp further
  have shift : ∀ between, script.code.after (between + 1) config =
      script.code.after between first := by
    intro between
    rw [Code.after, found, Option.bind_some]
  simp only [shift] at lasts ⊢
  obtain ⟨act', callers', stands, lists, keeps⟩ :=
    setting.assigned_keeps standing rfl made gives isFinal found
  rcases setting.keeps stands rfl isFinal lasts keeps further with
    ⟨act'', callers'', stands', held, -⟩ | replaced
  · left
    obtain ⟨decl, stored, named, -⟩ := setting.listed stands lists
    have key : name.name = event.name := by
      obtain ⟨place, within, -⟩ := setting.uses stands' reads
      rw [← named]
      refine (setting.of.accepted.use_named within ?_ (same ▸ stored)).symm
      rw [← setting.of.resolutions]
      exact noted
    refine setting.reads_held reads noted (same ▸ isFinal.holds) place ?_
    rw [stands'.frames, key]
    exact held
  · exact .inr replaced

/-- The value that a final variable is assigned in a configuration, and the value that is read when
the variable is used after some steps. -/
def Code.finalRead? (code : Code) (config : Config) (steps : Nat) : Option (Value × Value) := do
  let event ← code.assignment? config
  let last ← code.after (steps + 1) config
  let (name, read) ← code.read? last
  let resolution ← code.analysis.resolutions[name.id]?
  match config.control with
  | .resume value =>
    if (code.analysis.tree.decls[event.decl]?).any Decl.isFinal ∧
        (∀ between < steps + 1, (code.after (between + 1) config).all fun middle =>
          event.number < middle.store.frames.table.size) ∧
        resolution.decl = event.decl ∧
        last.store.frames.frameFor last.store.current resolution.scope = some event.number then
      some (value, read)
    else none
  | _ => none

theorem Code.of_finalRead? {code : Code} {config : Config} {read : Value}
    (found : code.finalRead? config steps = some (value, read)) :
    ∃ event last name, config.control = .resume value ∧
      code.ReadsFinal config event steps last name ∧ code.read? last = some (name, read) := by
  unfold finalRead? at found
  obtain ⟨event, made, found⟩ := Option.bind_eq_some_iff.mp found
  obtain ⟨last, further, found⟩ := Option.bind_eq_some_iff.mp found
  obtain ⟨⟨name, read'⟩, reading, found⟩ := Option.bind_eq_some_iff.mp found
  obtain ⟨resolution, noted, found⟩ := Option.bind_eq_some_iff.mp found
  split at found
  · rename_i value' gives
    split at found
    · rename_i all
      obtain ⟨isFinal, lasts, same, place⟩ := all
      cases found
      refine ⟨event, last, name, gives,
        ⟨made, ?_, further, ?_, ?_, resolution, noted, same, place⟩, reading⟩
      · exact (Option.any_eq_true _ _).mp isFinal
      · intro between early middle reached
        have inside := (Option.all_eq_true _ _).mp (lasts between (Nat.lt_succ_of_le early)) middle
        simpa using inside reached
      · exact (of_read? reading).1
    · cases found
  · cases found

/-- A final variable of a function, read by an inner function that calls itself. -/
theorem Script.finals_kept_inside : ∃ script, Script.compile nesting {} = .ok script ∧
    ∃ config event last name, script.Reaches .bare config ∧
      config.control = .resume (.int 3) ∧ script.code.ReadsFinal config event 34 last name ∧
      (script.code.read? last = some (name, .int 3) ∨
        ∃ between < 34, ∃ middle later, script.code.after (between + 1) config = some middle ∧
          script.code.assignment? middle = some later ∧ later.number = event.number ∧
          script.analysis.tree.shares event.decl later.decl = true) := by
  refine Script.exists_compiled (fun script =>
    (script.code.after 10 (script.start .bare)).any fun config =>
      script.code.finalRead? config 34 = some (.int 3, .int 3)) (by decide +kernel)
    fun script compiled passes => ?_
  obtain ⟨config, reached, found⟩ := (Option.any_eq_true _ _).mp passes
  obtain ⟨event, last, name, gives, use, -⟩ := Code.of_finalRead? (of_decide_eq_true found)
  exact ⟨config, event, last, name, ⟨10, reached⟩, gives, use,
    Script.finals_kept compiled ⟨10, reached⟩ gives use⟩

/-- **A final variable can lose its value**: its name goes to a function, and then to a variable. -/
theorem Script.final_replaced : ∃ script,
    Script.compile ("\n".intercalate ["final x = 1", "def f():", "  return x", "end", "def x():",
      "  return 0", "end", "x = 2", "println(f())", ""]) {} = .ok script ∧
    ∃ config event last name, script.Reaches .bare config ∧
      config.control = .resume (.int 1) ∧ script.code.ReadsFinal config event 14 last name ∧
      script.code.read? last = some (name, .int 2) := by
  refine Script.exists_compiled (fun script =>
    (script.code.after 3 (script.start .bare)).any fun config =>
      script.code.finalRead? config 14 = some (.int 1, .int 2)) (by decide +kernel)
    fun script compiled passes => ?_
  obtain ⟨config, reached, found⟩ := (Option.any_eq_true _ _).mp passes
  obtain ⟨event, last, name, gives, use, read⟩ := Code.of_finalRead? (of_decide_eq_true found)
  exact ⟨config, event, last, name, ⟨3, reached⟩, gives, use, read⟩

end ScopedScript
