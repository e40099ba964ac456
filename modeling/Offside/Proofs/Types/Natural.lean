import Mathlib.Order.Bounds.Basic
import Offside.Proofs.Types.Closed

/-!
# Natural layouts

A layout is natural if each field lies at the first place after the field before it that suits its
type, and the struct ends at the first place after its last field at which another one may begin.
Alignments are 1, 2, 4 or 8, so of two of them the smaller one divides the larger one. This is why
what is aligned inside a field is aligned inside the struct, and inside any struct that holds it.

## Main definitions

* `Offside.TypeEnv.Natural`: natural layouts.
* `Offside.TypeEnv.Solid`: finished layouts that are natural down to the innermost struct.
* `Offside.TypeEnv.Inside`: what lies in a type at which distance from its start.

## Main results

* `Offside.TypeEnv.Natural.pairwise`, `Offside.TypeEnv.Natural.fieldEnd_le`: fields do not overlap.
* `Offside.TypeEnv.Natural.placing`: where fields lie follows from the extents of their types.
* `Offside.TypeEnv.Solid.inside`: what lies in a struct is aligned, and does not reach beyond it.
* `Offside.FieldRun.Natural.add`: one more field keeps a run of fields natural.
-/

namespace Offside

/-- The alignments that types have. -/
def alignments : List Nat := [1, 2, 4, 8]

theorem dvd_of_mem_alignments {a b : Nat} (ha : a ∈ alignments) (hb : b ∈ alignments)
    (hle : a ≤ b) : a ∣ b := by
  simp only [alignments, List.mem_cons, List.not_mem_nil, or_false] at ha hb
  rcases ha with rfl | rfl | rfl | rfl <;> rcases hb with rfl | rfl | rfl | rfl <;> omega

theorem pos_of_mem_alignments {a : Nat} (ha : a ∈ alignments) : 0 < a := by
  simp only [alignments, List.mem_cons, List.not_mem_nil, or_false] at ha
  omega

/-- The next multiple of an alignment is the least one that is not below. -/
theorem isLeast_alignUp (offset : Nat) {align : Nat} (h : 0 < align) :
    IsLeast {place | align ∣ place ∧ offset ≤ place} (alignUp offset align) :=
  ⟨⟨dvd_alignUp offset h, le_alignUp offset align⟩, fun _ hplace =>
    alignUp_le_of_dvd hplace.1 hplace.2⟩

namespace TypeEnv

variable {env env' : TypeEnv} {layout : StructLayout} {fields before after : List LayoutField}
  {field : LayoutField} {type part : ResolvedType} {id : StructId} {offset : Nat}

/-- One more field, and the largest alignment is that of the fields so far or of the new one. -/
theorem isGreatest_insert_append {align : Nat}
    (h : IsGreatest (insert 1 {align | ∃ field ∈ fields, env.alignOf field.type = align}) align) :
    IsGreatest (insert 1 {align | ∃ f ∈ fields ++ [field], env.alignOf f.type = align})
      (max align (env.alignOf field.type)) := by
  refine ⟨?_, ?_⟩
  · rcases Nat.le_total align (env.alignOf field.type) with hle | hle
    · rw [Nat.max_eq_right hle]
      exact .inr ⟨_, List.mem_append_right _ (List.mem_singleton_self _), rfl⟩
    · rw [Nat.max_eq_left hle]
      exact h.1.imp_right fun ⟨f, hf, heq⟩ => ⟨f, List.mem_append_left _ hf, heq⟩
  · rintro other (rfl | ⟨f, hf, rfl⟩)
    · exact Nat.le_trans (h.2 (Set.mem_insert 1 _)) (Nat.le_max_left _ _)
    · rcases List.mem_append.1 hf with hold | hnew
      · exact Nat.le_trans (h.2 (.inr ⟨f, hold, rfl⟩)) (Nat.le_max_left _ _)
      · rw [List.mem_singleton.1 hnew]
        exact Nat.le_max_right _ _

/-- Where a field ends. -/
def fieldEnd (env : TypeEnv) (field : LayoutField) : Nat := field.offset + env.sizeOf field.type

/-- Where the last of some fields ends. -/
def fieldsEnd (env : TypeEnv) (fields : List LayoutField) : Nat :=
  fields.getLast?.elim 0 env.fieldEnd

@[simp] theorem fieldsEnd_append_singleton :
    env.fieldsEnd (fields ++ [field]) = env.fieldEnd field := by
  rw [fieldsEnd, List.getLast?_append, List.getLast?_singleton]
  rfl

/-- Each of the fields lies at the least multiple of its alignment that is not below the end of the
field before it. -/
def Placed (env : TypeEnv) (fields : List LayoutField) : Prop :=
  ∀ before field after, fields = before ++ field :: after →
    IsLeast {offset | env.alignOf field.type ∣ offset ∧ env.fieldsEnd before ≤ offset} field.offset

/-- A layout with its fields, its alignment and its size as they should be. -/
structure Natural (env : TypeEnv) (layout : StructLayout) : Prop where
  placed : env.Placed layout.fields
  aligned : ∀ field ∈ layout.fields, env.alignOf field.type ∈ alignments
  align : layout.fields ≠ [] →
    IsGreatest {align | ∃ field ∈ layout.fields, env.alignOf field.type = align} layout.align
  align_nil : layout.fields = [] → layout.align = 1
  align_mem : layout.align ∈ alignments
  size : IsLeast {size | layout.align ∣ size ∧ env.fieldsEnd layout.fields ≤ size} layout.size

/-! ### Fields beside each other -/

theorem placed_nil : env.Placed [] := fun before field after h => by simp at h

theorem placed_append_singleton : env.Placed (fields ++ [field]) ↔ env.Placed fields ∧
    IsLeast {offset | env.alignOf field.type ∣ offset ∧ env.fieldsEnd fields ≤ offset}
      field.offset := by
  constructor
  · refine fun h => ⟨fun before middle after hfields => ?_, h fields field [] rfl⟩
    exact h before middle (after ++ [field]) (by rw [hfields, List.append_assoc, List.cons_append])
  · rintro ⟨h, hfield⟩ before middle after hsplit
    rcases List.eq_nil_or_concat after with rfl | ⟨after, last, rfl⟩
    · obtain ⟨rfl, hlast⟩ := List.append_inj' hsplit rfl
      cases hlast
      exact hfield
    · rw [List.concat_eq_append, ← List.cons_append, ← List.append_assoc] at hsplit
      exact h before middle after (List.append_inj' hsplit rfl).1

/-- Fields lie one after the other, and all of them before the end of the last one. -/
theorem Placed.pairwise_and_le (h : env.Placed fields) :
    fields.Pairwise (fun f g => env.fieldEnd f ≤ g.offset) ∧
      ∀ f ∈ fields, env.fieldEnd f ≤ env.fieldsEnd fields := by
  induction fields using List.reverseRecOn with
  | nil => exact ⟨.nil, List.forall_mem_nil _⟩
  | append_singleton fields field ih =>
    obtain ⟨hfields, ⟨-, hend⟩, -⟩ := placed_append_singleton.1 h
    obtain ⟨hpairwise, hle⟩ := ih hfields
    have hbefore : ∀ f ∈ fields, env.fieldEnd f ≤ field.offset :=
      fun f hf => Nat.le_trans (hle f hf) hend
    rw [List.pairwise_append, fieldsEnd_append_singleton]
    refine ⟨⟨hpairwise, List.pairwise_singleton _ _, fun f hf g hg => ?_⟩,
      List.forall_mem_append.2 ⟨fun f hf => ?_, List.forall_mem_singleton.2 (Nat.le_refl _)⟩⟩
    · rw [List.mem_singleton.1 hg]
      exact hbefore f hf
    · exact Nat.le_trans (hbefore f hf) (Nat.le_add_right _ _)

theorem Placed.dvd_offset (h : env.Placed fields) (hfield : field ∈ fields) :
    env.alignOf field.type ∣ field.offset := by
  obtain ⟨before, after, hsplit⟩ := List.append_of_mem hfield
  exact (h before field after hsplit).1.1

/-- Such fields lie where the extents of their types put them. -/
theorem Placed.placing (h : env.Placed fields)
    (aligned : ∀ field ∈ fields, env.alignOf field.type ∈ alignments) :
    (Placing.ofExtents (fields.map fun field => env.extentOf field.type)).offsets =
        fields.map (·.offset) ∧
      (Placing.ofExtents (fields.map fun field => env.extentOf field.type)).stop =
        env.fieldsEnd fields ∧
      IsGreatest (insert 1 {align | ∃ field ∈ fields, env.alignOf field.type = align})
        (Placing.ofExtents (fields.map fun field => env.extentOf field.type)).align := by
  induction fields using List.reverseRecOn with
  | nil =>
    refine ⟨rfl, rfl, Set.mem_insert 1 _, ?_⟩
    rintro align (rfl | ⟨f, hf, -⟩)
    · exact Nat.le_refl _
    · cases hf
  | append_singleton fields field ih =>
    obtain ⟨hfields, hleast⟩ := placed_append_singleton.1 h
    obtain ⟨hold, hnew⟩ := List.forall_mem_append.1 aligned
    obtain ⟨hoffsets, hstop, hgreatest⟩ := ih hfields hold
    have hpos := pos_of_mem_alignments (hnew field (List.mem_singleton_self field))
    have hadd : Placing.ofExtents ((fields ++ [field]).map fun field => env.extentOf field.type) =
        (Placing.ofExtents (fields.map fun field => env.extentOf field.type)).add
          (env.extentOf field.type) := by
      rw [Placing.ofExtents, List.map_append, List.foldl_append]
      rfl
    have hoffset : alignUp (env.fieldsEnd fields) (env.alignOf field.type) = field.offset :=
      (isLeast_alignUp _ hpos).unique hleast
    rw [hadd, Placing.add, hoffsets, hstop]
    dsimp only [extentOf]
    rw [hoffset, fieldsEnd_append_singleton, List.map_append]
    exact ⟨rfl, rfl, isGreatest_insert_append hgreatest⟩

namespace Natural

/-- No alignment is below 1, so the alignment of a struct is the largest one of 1 and those of its
fields. -/
theorem isGreatest (h : env.Natural layout) :
    IsGreatest (insert 1 {align | ∃ field ∈ layout.fields, env.alignOf field.type = align})
      layout.align := by
  by_cases hnil : layout.fields = []
  · rw [h.align_nil hnil, hnil]
    refine ⟨Set.mem_insert 1 _, ?_⟩
    rintro align (rfl | ⟨f, hf, -⟩)
    · exact Nat.le_refl _
    · cases hf
  · refine ⟨.inr (h.align hnil).1, ?_⟩
    rintro align (rfl | hmem)
    · exact pos_of_mem_alignments h.align_mem
    · exact (h.align hnil).2 hmem

/-- The extent of a natural layout, and where its fields lie, follow from the extents of their
types. -/
theorem placing (h : env.Natural layout) :
    layout.fields.map (·.offset) =
        (Placing.ofExtents (layout.fields.map fun field => env.extentOf field.type)).offsets ∧
      (⟨layout.size, layout.align⟩ : Extent) =
        (Placing.ofExtents (layout.fields.map fun field => env.extentOf field.type)).extent := by
  obtain ⟨hoffsets, hstop, hgreatest⟩ := h.placed.placing h.aligned
  have halign := hgreatest.unique h.isGreatest
  have hpos := pos_of_mem_alignments h.align_mem
  refine ⟨hoffsets.symm, ?_⟩
  rw [Placing.extent, hstop, halign, (isLeast_alignUp _ hpos).unique h.size]

/-- The fields of a natural layout lie one after the other. -/
theorem pairwise (h : env.Natural layout) :
    layout.fields.Pairwise fun f g => env.fieldEnd f ≤ g.offset := h.placed.pairwise_and_le.1

/-- The fields of a natural layout lie inside the struct. -/
theorem fieldEnd_le (h : env.Natural layout) (hfield : field ∈ layout.fields) :
    env.fieldEnd field ≤ layout.size :=
  Nat.le_trans (h.placed.pairwise_and_le.2 field hfield) h.size.1.2

/-- The alignment of a field divides that of the struct. -/
theorem dvd_align (h : env.Natural layout) (hfield : field ∈ layout.fields) :
    env.alignOf field.type ∣ layout.align :=
  dvd_of_mem_alignments (h.aligned field hfield) h.align_mem
    ((h.align (List.ne_nil_of_mem hfield)).2 ⟨field, hfield, rfl⟩)

end Natural

/-! ### Structs inside structs -/

/-- A finished layout that is natural, as are the layouts of all structs that its fields hold. -/
inductive Solid (env : TypeEnv) : StructId → Prop
  | intro {id : StructId} (finished : env.Finished id) (natural : env.Natural (env.layout id))
    (fields : ∀ field ∈ (env.layout id).fields, ∀ inner, field.type = .struct inner →
      Solid env inner) : Solid env id

theorem Solid.finished (h : env.Solid id) : env.Finished id := by
  cases h
  assumption

theorem Solid.natural (h : env.Solid id) : env.Natural (env.layout id) := by
  cases h
  assumption

theorem Solid.of_field (h : env.Solid id) (hfield : field ∈ (env.layout id).fields)
    {inner : StructId} (htype : field.type = .struct inner) : env.Solid inner := by
  cases h with
  | intro _ _ fields => exact fields field hfield inner htype

/-- A part of a type that is held by value, with its distance from the start. -/
inductive Inside (env : TypeEnv) : ResolvedType → Nat → ResolvedType → Prop
  | self (type : ResolvedType) : Inside env type 0 type
  | field {id : StructId} {field : LayoutField} {offset : Nat} {part : ResolvedType}
    (mem : field ∈ (env.layout id).fields) (h : Inside env field.type offset part) :
    Inside env (.struct id) (field.offset + offset) part

/-- A part is aligned where it lies and where the whole is aligned, and ends within the whole. -/
theorem Inside.spec (h : env.Inside type offset part)
    (solid : ∀ id, type = .struct id → env.Solid id) :
    env.alignOf part ∣ offset ∧ env.alignOf part ∣ env.alignOf type ∧
      offset + env.sizeOf part ≤ env.sizeOf type := by
  induction h with
  | self type => exact ⟨Nat.dvd_zero _, Nat.dvd_refl _, by rw [Nat.zero_add]⟩
  | @field id field offset part mem _ ih =>
    have hsolid := solid id rfl
    have hnatural := hsolid.natural
    obtain ⟨hoffset, halign, hend⟩ := ih fun inner htype => hsolid.of_field mem htype
    have hfield : env.alignOf field.type ∣ field.offset := hnatural.placed.dvd_offset mem
    refine ⟨Nat.dvd_add (halign.trans hfield) hoffset, halign.trans (hnatural.dvd_align mem), ?_⟩
    calc field.offset + offset + env.sizeOf part
        = field.offset + (offset + env.sizeOf part) := Nat.add_assoc _ _ _
      _ ≤ env.fieldEnd field := Nat.add_le_add_left hend _
      _ ≤ env.sizeOf (.struct id) := hnatural.fieldEnd_le mem

/-- What lies in a struct is aligned in every element of an array of the struct, and does not reach
into the next element. -/
theorem Solid.inside (solid : env.Solid id) (h : env.Inside (.struct id) offset part)
    (start index : Nat) (hstart : (env.layout id).align ∣ start) :
    env.alignOf part ∣ start + (index * (env.layout id).size + offset) ∧
      offset + env.sizeOf part ≤ (env.layout id).size := by
  obtain ⟨hoffset, halign, hend⟩ := h.spec fun inner hinner => by
    cases hinner
    exact solid
  have hsize : (env.layout id).align ∣ (env.layout id).size := solid.natural.size.1.1
  exact ⟨Nat.dvd_add (halign.trans hstart)
    (Nat.dvd_add (halign.trans (hsize.mul_left index)) hoffset), hend⟩

/-! ### Later tables -/

/-- Later tables in which finished layouts are what they were. -/
def KeepsFinished (env env' : TypeEnv) : Prop :=
  ∀ id, env.Finished id → env'.Finished id ∧ env'.layout id = env.layout id

instance : IsPreorder TypeEnv KeepsFinished where
  refl _ _ h := ⟨h, rfl⟩
  trans _ _ _ h k id hid := by
    obtain ⟨hid', heq⟩ := h id hid
    obtain ⟨hid'', heq'⟩ := k id hid'
    exact ⟨hid'', heq'.trans heq⟩

/-- A type whose size and alignment are known: a struct in it is laid out. -/
structure Sized (env : TypeEnv) (type : ResolvedType) : Prop where
  solid : ∀ id, type = .struct id → env.Solid id
  aligned : env.alignOf type ∈ alignments

theorem KeepsFinished.extentOf (keeps : env.KeepsFinished env')
    (h : ∀ id, type = .struct id → env.Finished id) : env'.extentOf type = env.extentOf type := by
  cases type with
  | struct id =>
    have hlayout := (keeps id (h id rfl)).2
    rw [TypeEnv.extentOf, TypeEnv.sizeOf, TypeEnv.alignOf, hlayout]
    rfl
  | void | bool | int | float | pointer => rfl

theorem sizeOf_eq (h : env'.extentOf type = env.extentOf type) :
    env'.sizeOf type = env.sizeOf type := congrArg Extent.size h

theorem alignOf_eq (h : env'.extentOf type = env.extentOf type) :
    env'.alignOf type = env.alignOf type := congrArg Extent.align h

theorem fieldsEnd_congr (h : ∀ f ∈ fields, env'.extentOf f.type = env.extentOf f.type) :
    env'.fieldsEnd fields = env.fieldsEnd fields := by
  rcases List.eq_nil_or_concat fields with rfl | ⟨fields, last, rfl⟩
  · rfl
  · rw [List.concat_eq_append, fieldsEnd_append_singleton, fieldsEnd_append_singleton, fieldEnd,
      sizeOf_eq (h last (by simp)), fieldEnd]

theorem Placed.congr (h : env.Placed fields)
    (same : ∀ f ∈ fields, env'.extentOf f.type = env.extentOf f.type) : env'.Placed fields := by
  intro before field after hsplit
  rw [alignOf_eq (same field (by simp [hsplit])),
    fieldsEnd_congr fun f hf => same f (by simp [hsplit, hf])]
  exact h before field after hsplit

theorem Natural.congr (h : env.Natural layout)
    (same : ∀ f ∈ layout.fields, env'.extentOf f.type = env.extentOf f.type) :
    env'.Natural layout := by
  refine ⟨h.placed.congr same, fun f hf => ?_, fun hne => ?_, h.align_nil, h.align_mem, ?_⟩
  · rw [alignOf_eq (same f hf)]
    exact h.aligned f hf
  · obtain ⟨⟨f, hf, heq⟩, hmax⟩ := h.align hne
    refine ⟨⟨f, hf, (alignOf_eq (same f hf)).trans heq⟩, ?_⟩
    rintro _ ⟨g, hg, rfl⟩
    exact hmax ⟨g, hg, (alignOf_eq (same g hg)).symm⟩
  · rw [fieldsEnd_congr same]
    exact h.size

theorem Solid.mono (keeps : env.KeepsFinished env') (h : env.Solid id) : env'.Solid id := by
  induction h with
  | intro finished natural fields ih =>
    obtain ⟨hfinished, heq⟩ := keeps _ finished
    refine .intro hfinished ?_ ?_
    · rw [heq]
      exact natural.congr fun f hf => keeps.extentOf fun inner htype =>
        (fields f hf inner htype).finished
    · rw [heq]
      exact ih

theorem Sized.finished (h : env.Sized type) (id : StructId) (htype : type = .struct id) :
    env.Finished id := (h.solid id htype).finished

theorem Sized.mono (keeps : env.KeepsFinished env') (h : env.Sized type) : env'.Sized type := by
  refine ⟨fun id htype => (h.solid id htype).mono keeps, ?_⟩
  rw [alignOf_eq (keeps.extentOf h.finished)]
  exact h.aligned

theorem sized_ofBuiltin (b : Builtin) : env.Sized (.ofBuiltin b) := by
  refine ⟨fun inner htype => ?_, ?_⟩
  · cases b <;> cases htype
  · cases b <;> simp [alignOf, sizeOf, ResolvedType.ofBuiltin, alignments]

theorem sized_pointer (element : ResolvedType) : env.Sized (.pointer element) :=
  ⟨nofun, by simp [alignOf, sizeOf, pointerSize, alignments]⟩

theorem Solid.sized (h : env.Solid id) : env.Sized (.struct id) := by
  refine ⟨fun inner htype => ?_, h.natural.align_mem⟩
  cases htype
  exact h

end TypeEnv

/-! ### Runs of fields -/

/-- Fields that have been laid out naturally, one after the other. -/
structure FieldRun.Natural (env : TypeEnv) (run : FieldRun) : Prop where
  placed : env.Placed run.fields
  sized : ∀ field ∈ run.fields, env.Sized field.type
  stop : run.stop = env.fieldsEnd run.fields
  align : IsGreatest (insert 1 {align | ∃ field ∈ run.fields, env.alignOf field.type = align})
    run.align

namespace FieldRun

variable {env env' : TypeEnv} {run : FieldRun} {type : ResolvedType}

theorem natural_empty : FieldRun.Natural env .empty := by
  refine ⟨TypeEnv.placed_nil, List.forall_mem_nil _, rfl, Set.mem_insert 1 _, ?_⟩
  rintro align (rfl | ⟨f, hf, -⟩)
  · exact Nat.le_refl _
  · cases hf

theorem Natural.align_mem (h : run.Natural env) : run.align ∈ alignments := by
  obtain hone | ⟨f, hf, heq⟩ := h.align.1
  · rw [hone]
    decide
  · rw [← heq]
    exact (h.sized f hf).aligned

theorem Natural.add (h : run.Natural env) (name : String) (sized : env.Sized type) :
    (run.add env name type).Natural env := by
  have hpos := pos_of_mem_alignments sized.aligned
  refine ⟨TypeEnv.placed_append_singleton.2 ⟨h.placed, ?_⟩, ?_, ?_,
    TypeEnv.isGreatest_insert_append h.align⟩
  · rw [← h.stop]
    exact isLeast_alignUp run.stop hpos
  · exact List.forall_mem_append.2 ⟨h.sized, List.forall_mem_singleton.2 sized⟩
  · rw [FieldRun.add, TypeEnv.fieldsEnd_append_singleton]
    rfl

theorem Natural.mono (keeps : env.KeepsFinished env') (h : run.Natural env) : run.Natural env' := by
  have hsame : ∀ f ∈ run.fields, env'.extentOf f.type = env.extentOf f.type :=
    fun f hf => keeps.extentOf (h.sized f hf).finished
  refine ⟨h.placed.congr hsame, fun f hf => (h.sized f hf).mono keeps, ?_, ?_⟩
  · rw [TypeEnv.fieldsEnd_congr hsame]
    exact h.stop
  · have hset : {align | ∃ f ∈ run.fields, env'.alignOf f.type = align} =
        {align | ∃ f ∈ run.fields, env.alignOf f.type = align} := by
      ext align
      refine exists_congr fun f => and_congr_right fun hf => ?_
      rw [TypeEnv.alignOf_eq (hsame f hf)]
    rw [hset]
    exact h.align

/-- The layout of a natural run of fields is natural. -/
theorem Natural.layout (h : run.Natural env) (name : String) : env.Natural (run.layout name) := by
  have hmem := h.align_mem
  refine ⟨h.placed, fun f hf => (h.sized f hf).aligned, fun hne => ?_, fun hnil => ?_, hmem, ?_⟩
  · obtain ⟨f, hf⟩ := List.exists_mem_of_ne_nil _ hne
    refine ⟨?_, fun align halign => h.align.2 (.inr halign)⟩
    obtain hone | hfield := h.align.1
    · -- All alignments are at least 1, so the alignment of any field is the largest one.
      refine ⟨f, hf, Nat.le_antisymm (h.align.2 (.inr ⟨f, hf, rfl⟩)) ?_⟩
      show run.align ≤ env.alignOf f.type
      rw [hone]
      exact pos_of_mem_alignments (h.sized f hf).aligned
    · exact hfield
  · refine h.align.1.resolve_right ?_
    rintro ⟨f, hf, -⟩
    rw [show run.fields = [] from hnil] at hf
    cases hf
  · show IsLeast {size | run.align ∣ size ∧ env.fieldsEnd run.fields ≤ size}
      (alignUp run.stop run.align)
    rw [← h.stop]
    exact isLeast_alignUp run.stop (pos_of_mem_alignments hmem)

end FieldRun

end Offside
