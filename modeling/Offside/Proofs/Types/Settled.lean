import Offside.Proofs.Types.Matched

/-!
# Tables between calls

Whatever types have been resolved, with success or not, and whatever has been declared in between,
every layout is finished. It belongs to one struct, it has the declared fields in their order, and
it is natural.

## Main definitions

* `Offside.TypeEnv.Settled`: tables between calls.

## Main results

* `Offside.TypeEnv.Reachable.matched`: layouts and structs match in all tables.
* `Offside.TypeEnv.settled_of_reachable`: so all tables are settled.
* `Offside.TypeEnv.natural_of_reachable`: all layouts are natural, and what lies in a struct is
  aligned.
-/

namespace Offside.TypeEnv

variable {env : TypeEnv} {type : TypeExpr} {id : StructId}

theorem Reachable.advances_resolve (reachable : env.Reachable) (matched : env.Matched)
    (type : TypeExpr) : env.Advances env.structs.names (env.resolve type).env := by
  cases h : (env.resolve type).answer with
  | ok r => exact (matched.resolve_of_ok h).1
  | error error =>
    rw [reachable.closed.rested.resolve_env_of_error reachable.layouts_below h]
    exact .refl matched

/-- A declaration takes no struct away. -/
theorem structDecl?_declareStruct_of_some {name : String} {known decl : StructDecl}
    (h : env.structDecl? name = some known) :
    (env.declareStruct decl).structDecl? name = some known := by
  cases hused : env.hasStruct decl.name with
  | true => rwa [TypeEnv.declareStruct, if_pos hused]
  | false =>
    rw [structDecl?_declareStruct hused, if_neg, h]
    rintro rfl
    rw [hasStruct_eq, h] at hused
    cases hused

/-- In all tables layouts and structs belong to each other. -/
theorem Reachable.matched (reachable : env.Reachable) : env.Matched := by
  induction reachable with
  | empty => exact unresolved_empty.matched Reachable.empty.keyed
  | initial => exact unresolved_initial.matched Reachable.initial.keyed
  | @call env reachable call ih =>
    have hkeyed := (Reachable.call reachable call).keyed
    cases call with
    | declareStruct decl =>
      have hextends : env.Extends (env.declareStruct decl) := extends_declareStruct decl
      exact ih.congr hkeyed hextends.layouts hextends.idOf?
        fun _ _ => structDecl?_declareStruct_of_some
    | declareAlias name target => exact ih.congr hkeyed rfl (fun _ => rfl) fun _ _ h => h
    | resolve type => exact (reachable.advances_resolve ih type).matched
    | resolveStructId name =>
      rw [Call.run, env_resolveStructId]
      exact (reachable.advances_resolve ih _).matched
    | reset => exact unresolved_initial.matched Reachable.initial.keyed

/-- Tables between calls: every layout is finished and belongs to one struct, whose name it has and
whose fields it has in the declared order. -/
structure Settled (env : TypeEnv) : Prop where
  complete : ∀ layout ∈ env.layouts, layout.complete = true
  owner : ∀ id : StructId, id.index < env.layouts.size →
    ∃! entry, entry ∈ env.structs.entries ∧ entry.2.layout = some id
  layout : ∀ entry ∈ env.structs.entries, ∀ id, entry.2.layout = some id →
    ∃ layout, env.layouts[id.index]? = some layout ∧ layout.name = entry.1 ∧
      entry.2.decl.name = entry.1 ∧
      layout.fields.map (·.name) = entry.2.decl.fields.map (·.name)

theorem Reachable.get?_of_mem (reachable : env.Reachable) {entry : String × StructEntry}
    (h : entry ∈ env.structs.entries) : env.structs.get? entry.1 = some entry.2 :=
  Table.find_of_mem reachable.keyed.nodup_names h

/-- Whatever has been called, tables are settled. -/
theorem settled_of_reachable (reachable : env.Reachable) : env.Settled := by
  have hmatched := reachable.matched
  have hid {entry : String × StructEntry} {id : StructId} (hentry : entry ∈ env.structs.entries)
      (hlayout : entry.2.layout = some id) : env.idOf? entry.1 = some id := by
    rw [idOf?, reachable.get?_of_mem hentry]
    exact hlayout
  refine ⟨fun layout hlayout => ?_, fun id hlt => ?_, fun entry hentry id hlayout => ?_⟩
  · obtain ⟨i, hi, rfl⟩ := Array.getElem_of_mem hlayout
    have hfinished : (env.layout ⟨i⟩).complete = true := (reachable.closed.finished hi).2
    rwa [TypeEnv.layout, ← Array.getElem_eq_getD (h := hi)] at hfinished
  · obtain ⟨name, hname⟩ := hmatched.owned id hlt
    obtain ⟨entry, hentry, hlayout⟩ := Option.bind_eq_some_iff.1 hname
    refine ⟨(name, entry), ⟨Table.mem_of_find hentry, hlayout⟩, ?_⟩
    rintro other ⟨hother, hlayout'⟩
    have hsame : other.1 = name :=
      (hmatched.titled _ id (hid hother hlayout')).symm.trans (hmatched.titled name id hname)
    have hget := reachable.get?_of_mem hother
    rw [hsame, hentry] at hget
    exact Prod.ext hsame (Option.some.inj hget).symm
  · have hnumber := hid hentry hlayout
    have hlt := hmatched.valid _ id hnumber
    have htitle := hmatched.titled _ id hnumber
    obtain ⟨decl, hdecl, hfields⟩ := hmatched.fields id (reachable.closed.finished hlt)
    rw [htitle, structDecl?_of_get? (reachable.get?_of_mem hentry)] at hdecl
    cases hdecl
    rw [TypeEnv.layout, ← Array.getElem_eq_getD (h := hlt)] at htitle hfields
    exact ⟨_, Array.getElem?_eq_getElem hlt, htitle,
      reachable.keyed.named (entry.1, entry.2.decl) (List.mem_map_of_mem hentry), hfields⟩

/-- A struct that holds another one by value. -/
def nested : TypeEnv :=
  (initial.declareStruct
      ⟨"Outer", [⟨"tag", .builtin .i8⟩, ⟨"inner", .named "Inner"⟩], ⟨1, 1⟩⟩).declareStruct
    ⟨"Inner", [⟨"small", .builtin .i8⟩, ⟨"large", .builtin .i64⟩], ⟨4, 1⟩⟩

/-- The tables after the outer struct has been laid out and an alias has taken the name of the inner
one. -/
def nestedLater : TypeEnv :=
  (nested.resolve (.named "Outer")).env.declareAlias "Inner" (.builtin .i32)

theorem reachable_nestedLater : nestedLater.Reachable :=
  .call (.call (.call (.call .initial (.declareStruct _)) (.declareStruct _)) (.resolve _))
    (.declareAlias "Inner" _)

theorem settled_of_reachable_nestedLater : nestedLater.Reachable ∧ nestedLater.layouts.size = 2 ∧
    nestedLater.Settled :=
  ⟨reachable_nestedLater, by cbv, settled_of_reachable reachable_nestedLater⟩

/-- Every layout has its fields in the declared order and is natural. So the fields lie one after
the other within the struct, and wherever an array of the struct begins, all that lies in one of its
elements is aligned, and ends within the element. -/
theorem natural_of_reachable (reachable : env.Reachable) (h : id.index < env.layouts.size) :
    (∃ decl, env.structDecl? (env.layout id).name = some decl ∧
      (env.layout id).fields.map (·.name) = decl.fields.map (·.name)) ∧
    env.Natural (env.layout id) ∧
    (env.layout id).fields.Pairwise (fun f g => env.fieldEnd f ≤ g.offset) ∧
    (∀ field ∈ (env.layout id).fields, env.fieldEnd field ≤ (env.layout id).size) ∧
    ∀ offset part, env.Inside (.struct id) offset part → ∀ start index,
      (env.layout id).align ∣ start →
      env.alignOf part ∣ start + (index * (env.layout id).size + offset) ∧
        offset + env.sizeOf part ≤ (env.layout id).size := by
  have hfinished := reachable.closed.finished h
  have hsolid := reachable.matched.solid id hfinished
  exact ⟨reachable.matched.fields id hfinished, hsolid.natural, hsolid.natural.pairwise,
    fun _ => hsolid.natural.fieldEnd_le, fun _ _ hinside => hsolid.inside hinside⟩

theorem natural_of_reachable_nestedLater : nestedLater.Reachable ∧
    (⟨0⟩ : StructId).index < nestedLater.layouts.size ∧
    nestedLater.Natural (nestedLater.layout ⟨0⟩) ∧
    nestedLater.Inside (.struct ⟨0⟩) 16 (.int 64 true) ∧
    nestedLater.alignOf (.int 64 true) ∣ 48 + (5 * (nestedLater.layout ⟨0⟩).size + 16) := by
  have hlt : (⟨0⟩ : StructId).index < nestedLater.layouts.size := by cbv
  have houter : nestedLater.layout ⟨0⟩ = ⟨"Outer", [⟨"tag", .int 8 true, 0⟩,
      ⟨"inner", .struct ⟨1⟩, 8⟩], 24, 8, true⟩ := by cbv
  have hinner : nestedLater.layout ⟨1⟩ = ⟨"Inner", [⟨"small", .int 8 true, 0⟩,
      ⟨"large", .int 64 true, 8⟩], 16, 8, true⟩ := by cbv
  have hlarge : (⟨"large", .int 64 true, 8⟩ : LayoutField) ∈ (nestedLater.layout ⟨1⟩).fields := by
    rw [hinner]
    decide
  have hfield : (⟨"inner", .struct ⟨1⟩, 8⟩ : LayoutField) ∈ (nestedLater.layout ⟨0⟩).fields := by
    rw [houter]
    decide
  have hinside : nestedLater.Inside (.struct ⟨0⟩) 16 (.int 64 true) :=
    .field hfield (.field hlarge (.self _))
  obtain ⟨-, hnatural, -, -, haligned⟩ := natural_of_reachable reachable_nestedLater hlt
  exact ⟨reachable_nestedLater, hlt, hnatural, hinside,
    (haligned 16 _ hinside 48 5 (by rw [houter]; decide)).1⟩

end Offside.TypeEnv
