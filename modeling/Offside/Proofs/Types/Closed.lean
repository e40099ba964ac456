import Offside.Proofs.Types.History

/-!
# Numbers of layouts

A resolved type names a struct by the number of a layout, and such numbers are copied into other
layouts, into signatures and into scopes, where nothing tells that they were taken from the tables.
They stay good because a resolution that succeeds lays out every struct that it has given a number
to, and one that fails leaves no trace.

While a type is being resolved some layouts are unfinished. Each of them belongs to a struct that is
being laid out or waits. Nothing is asked of the declarations here, so all this is true even after
an alias has been given another target.

## Main definitions

* `Offside.ResolvedType.structs`: the numbers in a type.
* `Offside.TypeEnv.Finished`: the number of a finished layout.
* `Offside.TypeEnv.Covers`, `Offside.TypeEnv.Knows`: types with the numbers of layouts, and of
  finished layouts.
* `Offside.TypeEnv.Closed`: tables with the numbers of their own layouts only.

## Main results

* `Offside.TypeEnv.Closed.knows`: if no struct is pending, all these layouts are finished.
* `Offside.TypeEnv.Closed.resolve`: resolution leaves no unfinished layout, whether or not it
  succeeds, and takes no layout away.
-/

namespace Offside

/-- The numbers of the structs in a type, also behind pointers. -/
def ResolvedType.structs : ResolvedType → List StructId
  | .struct id => [id]
  | .pointer element => element.structs
  | .void | .bool | .int _ _ | .float _ => []

theorem ResolvedType.structs_ofBuiltin (b : Builtin) : (ofBuiltin b).structs = [] := by
  cases b <;> rfl

namespace TypeEnv

variable {env env' : TypeEnv} {type : ResolvedType} {name : String} {id : StructId}
  {entry : StructEntry} {layout : StructLayout} {pending : List String}

/-- The number of a finished layout. -/
def Finished (env : TypeEnv) (id : StructId) : Prop :=
  id.index < env.layouts.size ∧ (env.layout id).complete = true

/-- The numbers in a type are those of layouts, finished or not. -/
def Covers (env : TypeEnv) (type : ResolvedType) : Prop :=
  ∀ id ∈ type.structs, id.index < env.layouts.size

/-- The numbers in a type are those of finished layouts. -/
def Knows (env : TypeEnv) (type : ResolvedType) : Prop := ∀ id ∈ type.structs, env.Finished id

/-- The types of all fields of all layouts. -/
def fieldTypes (env : TypeEnv) : List ResolvedType :=
  env.layouts.toList.flatMap fun layout => layout.fields.map (·.type)

/-- Tables with the numbers of their own layouts only, in which the layouts of the structs in
`pending` may be unfinished. -/
structure Closed (env : TypeEnv) (pending : List String) : Prop where
  numbers : ∀ name id, env.idOf? name = some id → id.index < env.layouts.size
  fields : ∀ type ∈ env.fieldTypes, env.Covers type
  pending : ∀ id, id.index < env.layouts.size → (env.layout id).complete = false →
    ∃ name ∈ pending, env.idOf? name = some id

theorem covers_ofBuiltin (b : Builtin) : env.Covers (.ofBuiltin b) := by
  rw [Covers, ResolvedType.structs_ofBuiltin]
  exact List.forall_mem_nil _

theorem Covers.mono (h : env.Covers type) (more : env.layouts.size ≤ env'.layouts.size) :
    env'.Covers type := fun id hid => Nat.lt_of_lt_of_le (h id hid) more

theorem covers_struct (h : id.index < env.layouts.size) : env.Covers (.struct id) :=
  List.forall_mem_singleton.2 h

theorem mem_fieldTypes (h : id.index < env.layouts.size) {field : LayoutField}
    (hfield : field ∈ (env.layout id).fields) : field.type ∈ env.fieldTypes := by
  rw [TypeEnv.layout, ← Array.getElem_eq_getD (h := h)] at hfield
  exact List.mem_flatMap.2 ⟨_, Array.getElem_mem_toList h, List.mem_map_of_mem hfield⟩

theorem fieldTypes_enroll (env : TypeEnv) (name : String) (entry : StructEntry) :
    (env.enroll name entry).fieldTypes = env.fieldTypes := by
  rw [fieldTypes, enroll, Array.toList_push, List.flatMap_append]
  exact List.append_nil _

theorem mem_of_mem_fieldTypes_finish (h : type ∈ (env.finish id layout).fieldTypes) :
    type ∈ env.fieldTypes ∨ type ∈ layout.fields.map (·.type) := by
  rw [fieldTypes, finish, Array.toList_setIfInBounds] at h
  obtain ⟨found, hfound, htype⟩ := List.mem_flatMap.1 h
  rcases List.mem_or_eq_of_mem_set hfound with hold | rfl
  · exact .inl (List.mem_flatMap.2 ⟨found, hold, htype⟩)
  · exact .inr htype

namespace Closed

theorem finished (closed : env.Closed []) (h : id.index < env.layouts.size) : env.Finished id := by
  refine ⟨h, ?_⟩
  by_contra hc
  obtain ⟨name, hname, -⟩ := closed.pending id h (Bool.eq_false_iff.2 hc)
  cases hname

theorem knows (closed : env.Closed []) (h : env.Covers type) : env.Knows type :=
  fun id hid => closed.finished (h id hid)

theorem rested (closed : env.Closed []) : env.Rested :=
  fun name id hid => closed.finished (closed.numbers name id hid)

theorem mono {pending' : List String} (closed : env.Closed pending)
    (hle : ∀ name ∈ pending, name ∈ pending') : env.Closed pending' :=
  ⟨closed.numbers, closed.fields, fun id hid hc =>
    (closed.pending id hid hc).imp fun name hname => ⟨hle name hname.1, hname.2⟩⟩

/-- A struct with a finished layout is not pending. -/
theorem drop (closed : env.Closed (name :: pending)) (hid : env.idOf? name = some id)
    (hc : (env.layout id).complete = true) : env.Closed pending := by
  refine ⟨closed.numbers, closed.fields, fun id' hid' hc' => ?_⟩
  obtain ⟨other, hother, hnumber⟩ := closed.pending id' hid' hc'
  refine ⟨other, (List.mem_cons.1 hother).resolve_left ?_, hnumber⟩
  rintro rfl
  obtain rfl : id' = id := Option.some.inj (hnumber.symm.trans hid)
  rw [hc] at hc'
  cases hc'

/-- A struct that has been given a number is pending. -/
theorem enroll (closed : env.Closed pending) (hentry : env.structs.get? name = some entry)
    (hnew : entry.layout = none) : (env.enroll name entry).Closed (name :: pending) := by
  have hsize : (env.enroll name entry).layouts.size = env.layouts.size + 1 := Array.size_push _
  refine ⟨fun other id hid => ?_, fun type htype => ?_, fun id hid hc => ?_⟩
  · rw [idOf?_enroll] at hid
    rw [hsize]
    split at hid
    · cases hid
      exact Nat.lt_succ_self _
    · exact Nat.lt_succ_of_lt (closed.numbers other id hid)
  · rw [fieldTypes_enroll] at htype
    exact (closed.fields type htype).mono (hsize ▸ Nat.le_succ _)
  · rw [hsize] at hid
    rcases Nat.lt_succ_iff_lt_or_eq.1 hid with hlt | heq
    · rw [layout_enroll_of_lt hlt] at hc
      obtain ⟨other, hother, hnumber⟩ := closed.pending id hlt hc
      exact ⟨other, List.mem_cons_of_mem _ hother, idOf?_enroll_of_some hentry hnew hnumber⟩
    · refine ⟨name, List.mem_cons_self, ?_⟩
      rw [idOf?_enroll, if_pos rfl, ← heq]

/-- A struct whose layout is finished is no longer pending. -/
theorem finish (closed : env.Closed (name :: pending)) (hid : env.idOf? name = some id)
    (hc : layout.complete = true) (hfields : ∀ field ∈ layout.fields, env.Covers field.type) :
    (env.finish id layout).Closed pending := by
  have hsize : (env.finish id layout).layouts.size = env.layouts.size :=
    Array.size_setIfInBounds
  have hself := layout_finish_self layout (closed.numbers name id hid)
  -- The struct counts as pending until its layout is seen to be finished.
  suffices hpending : (env.finish id layout).Closed (name :: pending) from
    hpending.drop hid (by rw [hself, hc])
  refine ⟨fun other id' hid' => ?_, fun type htype => ?_, fun id' hid' hc' => ?_⟩
  · rw [hsize]
    exact closed.numbers other id' hid'
  · have hcovers : env.Covers type := by
      rcases mem_of_mem_fieldTypes_finish htype with hold | hnew
      · exact closed.fields type hold
      · obtain ⟨field, hfield, rfl⟩ := List.mem_map.1 hnew
        exact hfields field hfield
    exact hcovers.mono (Nat.le_of_eq hsize.symm)
  · rw [hsize] at hid'
    by_cases he : id' = id
    · exact ⟨name, List.mem_cons_self, he ▸ hid⟩
    · rw [layout_finish_of_ne he] at hc'
      exact closed.pending id' hid' hc'

end Closed

end TypeEnv

/-! ### Resolutions in progress -/

namespace ResolveState

variable {s t u : ResolveState} {path : List String} {name : String} {id : StructId}
  {entry : StructEntry} {layout : StructLayout}

/-- What a part of a resolution does while the structs in `path` are being laid out: the other
structs with an unfinished layout wait, and nothing is taken away. -/
structure Extends (path : List String) (s t : ResolveState) : Prop where
  closed : t.env.Closed (path ++ t.waiting)
  more : s.env.layouts.size ≤ t.env.layouts.size
  keeps : s.env.KeepsNumbers t.env
  budget : t.env.unnumbered + t.waiting.length ≤ s.env.unnumbered + s.waiting.length

theorem Extends.refl (closed : s.env.Closed (path ++ s.waiting)) : Extends path s s :=
  ⟨closed, Nat.le_refl _, refl_of TypeEnv.KeepsNumbers _, Nat.le_refl _⟩

theorem Extends.trans {path' : List String} (h : Extends path' s t) (k : Extends path t u) :
    Extends path s u :=
  ⟨k.closed, Nat.le_trans h.more k.more, trans_of TypeEnv.KeepsNumbers h.keeps k.keeps,
    Nat.le_trans k.budget h.budget⟩

theorem Extends.register (closed : s.env.Closed (name :: path ++ s.waiting))
    (hentry : s.env.structs.get? name = some entry) (hnew : entry.layout = none) :
    Extends (name :: path) s { s with env := s.env.enroll name entry } := by
  refine ⟨(closed.enroll hentry hnew).mono ?_, ?_,
    fun _ _ => TypeEnv.idOf?_enroll_of_some hentry hnew, ?_⟩
  · simp
  · rw [TypeEnv.enroll, Array.size_push]
    exact Nat.le_succ _
  · have := TypeEnv.unnumbered_enroll hentry hnew
    dsimp only
    omega

theorem Extends.await (closed : s.env.Closed (path ++ s.waiting))
    (hentry : s.env.structs.get? name = some entry) (hnew : entry.layout = none) :
    Extends path s { s with env := s.env.enroll name entry, waiting := name :: s.waiting } := by
  have hpending : s.env.Closed (name :: path ++ s.waiting) :=
    closed.mono fun _ => List.mem_cons_of_mem name
  have hregister := Extends.register hpending hentry hnew
  refine ⟨hregister.closed.mono fun other => ?_, hregister.more, hregister.keeps, ?_⟩
  · simp [or_left_comm]
  · have := TypeEnv.unnumbered_enroll hentry hnew
    rw [List.length_cons]
    dsimp only
    omega

theorem Extends.complete (closed : s.env.Closed (name :: path ++ s.waiting))
    (hid : s.env.idOf? name = some id) (hc : layout.complete = true)
    (hfields : ∀ field ∈ layout.fields, s.env.Covers field.type) (notes : List Note) :
    Extends path s { s with env := s.env.finish id layout, notes } :=
  ⟨TypeEnv.Closed.finish closed hid hc hfields, Nat.le_of_eq Array.size_setIfInBounds.symm,
    refl_of TypeEnv.KeepsNumbers s.env, Nat.le_refl _⟩

end ResolveState

section

open ResolveState

/-- Resolving a type, by value or behind a pointer, extends the tables to cover it. -/
def TypeExtends (structs aliases : List String) (behind : Bool) (type : TypeExpr) : Prop :=
  ∀ path s, s.env.Closed (path ++ s.waiting) →
    Yields s (resolveType structs aliases behind type)
      (fun r t => Extends path s t ∧ t.env.Covers r) fun _ _ => True

/-- So does resolving the name of a struct; by value it may be pending. -/
def StructExtends (structs : List String) (behind : Bool) (name : String) : Prop :=
  ∀ path s, s.env.Closed ((if behind then path else name :: path) ++ s.waiting) →
    Yields s (resolveStruct structs behind name)
      (fun r t => Extends path s t ∧ t.env.Covers r) fun _ _ => True

/-- So does laying out the fields of a struct that has a number. -/
def LayoutExtends (structs aliases : List String) (decl : StructDecl) (id : StructId) : Prop :=
  ∀ name path s, s.env.Closed (name :: path ++ s.waiting) → s.env.idOf? name = some id →
    Yields s (layOut structs aliases decl id)
      (fun r t => Extends path s t ∧ t.env.Covers r) fun _ _ => True

/-- So does laying out fields after others. -/
def FieldsExtend (structs aliases : List String) (fields : List Binding) (run : FieldRun) : Prop :=
  ∀ path s, s.env.Closed (path ++ s.waiting) →
    (∀ field ∈ run.fields, s.env.Covers field.type) →
    Yields s (layFields structs aliases fields run)
      (fun run' t => Extends path s t ∧ ∀ field ∈ run'.fields, t.env.Covers field.type)
      fun _ _ => True

variable {structs aliases : List String} {behind : Bool}

theorem typeExtends_builtin (b : Builtin) :
    TypeExtends structs aliases behind (.builtin b) := by
  intro path s closed
  rw [resolveType]
  exact ⟨.refl closed, TypeEnv.covers_ofBuiltin b⟩

theorem typeExtends_pointer {element : TypeExpr}
    (ih : TypeExtends structs aliases true element) :
    TypeExtends structs aliases behind (.pointer element) := by
  intro path s closed
  rw [resolveType]
  exact yields_bind ((ih path s closed).mono (fun r t h => h) fun _ _ h => h)

theorem typeExtends_named {name : String}
    (ihAlias : ∀ target, name ∈ aliases →
      TypeExtends structs (aliases.erase name) behind target)
    (ihStruct : StructExtends structs behind name) :
    TypeExtends structs aliases behind (.named name) := by
  intro path s closed
  rw [resolveType]
  refine Resolve.yields_env ?_
  split
  · next target _ =>
    split
    · next hmem => exact ihAlias target hmem path s closed
    · exact trivial
  · refine ihStruct path s (closed.mono fun other hother => ?_)
    cases behind with
    | true => exact hother
    | false => exact List.mem_cons_of_mem name hother

theorem structExtends_of_layoutExtends {name : String}
    (ih : ∀ (env : TypeEnv) (entry : StructEntry), name ∈ structs → ∀ id,
      LayoutExtends (structs.erase name) env.aliases.names entry.decl id) :
    StructExtends structs behind name := by
  intro path s closed
  rw [resolveStruct]
  refine Resolve.yields_env ?_
  split
  · exact trivial
  · next entry hentry =>
    have hid : s.env.idOf? name = entry.layout := by
      rw [TypeEnv.idOf?, hentry]
      rfl
    cases behind with
    | true =>
      have closed : s.env.Closed (path ++ s.waiting) := closed
      rw [if_pos rfl]
      cases hlayout : entry.layout with
      | some id =>
        exact ⟨.refl closed, TypeEnv.covers_struct (closed.numbers name id (hid.trans hlayout))⟩
      | none =>
        have hawait := Extends.await closed hentry hlayout
        exact ⟨hawait, TypeEnv.covers_struct
          (hawait.closed.numbers name _ (TypeEnv.idOf?_enroll.trans (if_pos rfl)))⟩
    | false =>
      have closed : s.env.Closed (name :: path ++ s.waiting) := closed
      rw [if_neg Bool.false_ne_true]
      split
      · next hmem =>
        cases hlayout : entry.layout with
        | some id =>
          have hnumber := hid.trans hlayout
          dsimp only
          split
          · next hcomplete =>
            exact ⟨.refl (closed.drop hnumber hcomplete),
              TypeEnv.covers_struct (closed.numbers name id hnumber)⟩
          · exact ih s.env entry hmem id name path s closed hnumber
        | none =>
          have hregister := Extends.register closed hentry hlayout
          exact (ih s.env entry hmem _ name path _ hregister.closed
            (TypeEnv.idOf?_enroll.trans (if_pos rfl))).mono
              (fun r t h => ⟨hregister.trans h.1, h.2⟩) fun _ _ h => h
      · exact trivial

theorem layoutExtends_of_fieldsExtend {decl : StructDecl} {id : StructId}
    (ih : FieldsExtend structs aliases decl.fields .empty) :
    LayoutExtends structs aliases decl id := by
  intro name path s closed hid
  rw [layOut]
  refine yields_bind ((ih (name :: path) s closed (List.forall_mem_nil _)).mono ?_ fun _ _ h => h)
  rintro run t ⟨hfields, hcovers⟩
  have hnumber := hfields.keeps name id hid
  have hcomplete : (run.layout decl.name).complete = true := rfl
  have hdone := Extends.complete hfields.closed hnumber hcomplete hcovers
    (.structLaidOut decl.name (run.layout decl.name).size (run.layout decl.name).align :: t.notes)
  exact ⟨hfields.trans hdone, TypeEnv.covers_struct (hdone.closed.numbers name id hnumber)⟩

theorem fieldsExtend_nil {run : FieldRun} : FieldsExtend structs aliases [] run := by
  intro path s closed hrun
  rw [layFields]
  exact ⟨.refl closed, hrun⟩

theorem fieldsExtend_cons {field : Binding} {fields : List Binding} {run : FieldRun}
    (ihType : TypeExtends structs aliases false field.type)
    (ihFields : ∀ type env, FieldsExtend structs aliases fields (run.add env field.name type)) :
    FieldsExtend structs aliases (field :: fields) run := by
  intro path s closed hrun
  rw [layFields]
  refine yields_bind ((ihType path s closed).mono ?_ fun _ _ h => h)
  rintro type t ⟨hfirst, htype⟩
  refine Resolve.yields_env ((ihFields type t.env path t hfirst.closed ?_).mono ?_ fun _ _ h => h)
  · rw [FieldRun.add]
    exact List.forall_mem_append.2 ⟨fun placed hplaced => (hrun placed hplaced).mono hfirst.more,
      List.forall_mem_singleton.2 htype⟩
  · exact fun run' u h => ⟨hfirst.trans h.1, h.2⟩

private theorem extends_resolution :
    (∀ structs aliases behind type, TypeExtends structs aliases behind type) ∧
    (∀ structs behind name, StructExtends structs behind name) ∧
    (∀ structs aliases decl id, LayoutExtends structs aliases decl id) ∧
    ∀ structs aliases fields run, FieldsExtend structs aliases fields run := by
  apply resolveType.mutual_induct
  case case1 => exact fun _ _ _ b => typeExtends_builtin b
  case case2 => exact fun _ _ _ _ ih => typeExtends_pointer ih
  case case3 => exact fun _ _ _ _ ihAlias ihStruct => typeExtends_named ihAlias ihStruct
  case case4 => exact fun _ _ _ ih => structExtends_of_layoutExtends ih
  case case5 => exact fun _ _ _ _ ih => layoutExtends_of_fieldsExtend ih
  case case6 => exact fun _ _ _ => fieldsExtend_nil
  case case7 => exact fun _ _ _ _ _ ihType ihFields => fieldsExtend_cons ihType ihFields

/-- With fuel for the structs that wait and for those that may begin to, none is left waiting. -/
theorem extends_layOutWaiting (fuel : Nat) (s : ResolveState) (closed : s.env.Closed s.waiting)
    (enough : s.env.unnumbered + s.waiting.length ≤ fuel) :
    Yields s (layOutWaiting fuel)
      (fun _ t => t.env.Closed [] ∧ s.env.layouts.size ≤ t.env.layouts.size) fun _ _ => True := by
  have hdone {s : ResolveState} (closed : s.env.Closed s.waiting) (hnone : s.waiting = []) :
      s.env.Closed [] ∧ s.env.layouts.size ≤ s.env.layouts.size :=
    ⟨hnone ▸ closed, Nat.le_refl _⟩
  induction fuel generalizing s with
  | zero => exact hdone closed (List.length_eq_zero_iff.1 (by omega))
  | succ fuel ih =>
    rw [layOutWaiting]
    refine yields_get ?_
    split
    · next hnone => exact hdone closed hnone
    · next name rest hwaiting =>
      rw [hwaiting] at closed enough
      rw [List.length_cons] at enough
      refine yields_bind (show Yields s (set { s with waiting := rest } : Resolve PUnit) _ _ from ?_)
      refine yields_bind ((extends_resolution.2.1 s.env.structs.names false name []
        { s with waiting := rest } closed).mono ?_ fun _ _ h => h)
      rintro r t ⟨hstep, -⟩
      have hbudget : t.env.unnumbered + t.waiting.length ≤ s.env.unnumbered + rest.length :=
        hstep.budget
      exact (ih t hstep.closed (by omega)).mono
        (fun _ u h => ⟨h.1, Nat.le_trans hstep.more h.2⟩) fun _ _ h => h

end

namespace TypeEnv

variable {env env' : TypeEnv}

/-- Only the layouts and the numbers matter. -/
theorem Closed.congr {pending : List String} (closed : env.Closed pending)
    (layouts : env'.layouts = env.layouts) (idOf? : ∀ name, env'.idOf? name = env.idOf? name) :
    env'.Closed pending := by
  refine ⟨fun name id hid => ?_, fun type htype => ?_, fun id hid hc => ?_⟩
  · rw [layouts]
    exact closed.numbers name id (idOf? name ▸ hid)
  · rw [fieldTypes, layouts] at htype
    exact (closed.fields type htype).mono (Nat.le_of_eq (congrArg _ layouts.symm))
  · rw [layouts] at hid
    rw [layout, layouts] at hc
    exact (closed.pending id hid hc).imp fun name hname => ⟨hname.1, (idOf? name).trans hname.2⟩

theorem Unresolved.closed (unresolved : env.Unresolved) : env.Closed [] := by
  have hnone {id : StructId} : ¬ id.index < env.layouts.size := by
    rw [unresolved.layouts]
    exact Nat.not_lt_zero _
  refine ⟨fun name id hid => ?_, fun type htype => ?_, fun id hid => absurd hid hnone⟩
  · rw [unresolved.idOf?] at hid
    cases hid
  · rw [fieldTypes, unresolved.layouts] at htype
    cases htype

theorem Closed.declareAlias (closed : env.Closed []) (name : String) (target : TypeExpr) :
    (env.declareAlias name target).Closed [] := closed.congr rfl fun _ => rfl

theorem Closed.declareStruct (closed : env.Closed []) (decl : StructDecl) :
    (env.declareStruct decl).Closed [] :=
  closed.congr (extends_declareStruct decl).layouts (extends_declareStruct decl).idOf?

/-- What a resolution leaves behind. -/
theorem Closed.resolve (closed : env.Closed []) (type : TypeExpr) :
    (env.resolve type).env.Closed [] ∧ env.layouts.size ≤ (env.resolve type).env.layouts.size ∧
      ∀ r, (env.resolve type).answer = .ok r → (env.resolve type).env.Covers r := by
  have hall : Yields ⟨env, [], []⟩ (resolveAll type)
      (fun r t => t.env.Closed [] ∧ env.layouts.size ≤ t.env.layouts.size ∧ t.env.Covers r)
      fun _ _ => True := by
    refine Resolve.yields_env (yields_bind ((extends_resolution.1 _ _ false type [] ⟨env, [], []⟩
      closed).mono ?_ fun _ _ h => h))
    rintro r t ⟨htype, hcovers⟩
    have hbudget : t.env.unnumbered + t.waiting.length ≤ env.unnumbered + 0 := htype.budget
    refine yields_bind ((extends_layOutWaiting env.structs.size t htype.closed
      (Nat.le_trans hbudget env.unnumbered_le)).mono ?_ fun _ _ h => h)
    exact fun _ u h => ⟨h.1, Nat.le_trans htype.more h.2, hcovers.mono h.2⟩
  rw [TypeEnv.resolve]
  split
  · next hrun =>
    obtain ⟨hclosed, hmore, hcovers⟩ := hall.ok hrun
    exact ⟨hclosed, hmore, fun r hr => Except.ok.inj hr ▸ hcovers⟩
  · next hrun =>
    have hrestores := (stays_resolveAll closed.rested type).error hrun |>.restores_rollback closed.rested
    exact ⟨closed.congr hrestores.layouts hrestores.idOf?,
      Nat.le_of_eq (congrArg Array.size hrestores.layouts).symm, fun r hr => by cases hr⟩

end TypeEnv

end Offside
