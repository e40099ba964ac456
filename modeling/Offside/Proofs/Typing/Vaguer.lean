import Offside.Proofs.Typing.Covered

/-!
# What is known of an expression with fewer names

Where less is known of the variables and functions, less is known of an expression, and what is not
known contradicts nothing. A type that is known with fewer names has to pass for the one that would
be known otherwise: it is accepted wherever that one is.

The one exception is arithmetic. Its type is that of the first operand whose type is known, so the
right operand lends its type where that of the left one has been forgotten. This does no harm if the
type that is lent passes for the forgotten one, as any integer type passes for any other, or if
nothing looks into the type of the result.

## Main definitions

* `Offside.ResolvedType.passesFor`, `Offside.Vaguer`: types that are accepted wherever others are.
* `Offside.Context.Lends`, `Offside.Context.Uncovers`: the two ways to see another type.
* `Offside.Expr.Anchored`: an expression whose type is not lent.
* `Offside.Expr.inspected`: the parts of an expression whose types are looked into.

## Main results

* `Offside.Context.hint_of_forgets`: if these parts are anchored, there is no contradiction with
  fewer names; and if the expression itself is anchored, what is known passes for what was known.
-/

namespace Offside

/-! ### Types that pass for others -/

namespace ResolvedType

/-- The first type is accepted wherever the second one is: any integer type in the place of another
one, and any type in the place of a floating-point type, which can be neither indexed nor compared
with cases and has no members. -/
def passesFor : ResolvedType → ResolvedType → Bool
  | .pointer element', .pointer element => element'.passesFor element
  | type', type => type.isFloat || (type'.isIntegerLike && type.isIntegerLike) || type' = type

variable {type' type : ResolvedType}

theorem passesFor_self (type : ResolvedType) : type.passesFor type := by
  induction type with
  | pointer element ih => exact ih
  | void | bool | int | float | struct => simp [passesFor]

theorem passesFor_of_isFloat (type' : ResolvedType) (h : type.isFloat) : type'.passesFor type := by
  cases type with
  | float bits => cases type' <;> rfl
  | void | bool | int | pointer | struct => cases h

/-- Nothing else has a floating-point type in its place. -/
theorem isFloat_of_passesFor (h : type'.passesFor type) (hfloat : type'.isFloat) :
    type.isFloat := by
  cases type' with
  | float bits => cases type <;> simp_all [passesFor, isFloat, isIntegerLike]
  | void | bool | int | pointer | struct => cases hfloat

theorem isIntegerLike_of_passesFor (h : type'.passesFor type) (hlike : type.isIntegerLike) :
    type'.isIntegerLike := by
  cases type with
  | bool | int => cases type' <;> simp_all [passesFor, isFloat, isIntegerLike]
  | void | float | pointer | struct => cases hlike

theorem exists_pointer_of_passesFor {element : ResolvedType}
    (h : type'.passesFor (.pointer element)) :
    ∃ element', type' = .pointer element' ∧ element'.passesFor element := by
  cases type' with
  | pointer element' => exact ⟨element', rfl, h⟩
  | void | bool | int | float | struct => simp [passesFor, isFloat, isIntegerLike] at h

theorem eq_struct_of_passesFor {id : StructId} (h : type'.passesFor (.struct id)) :
    type' = .struct id := by
  cases type' with
  | struct other => simpa [passesFor, isFloat, isIntegerLike] using h
  | void | bool | int | float | pointer => simp [passesFor, isFloat, isIntegerLike] at h

/-- The first type is seen in the place of one that has been forgotten, and does not pass for it. -/
def Supplants (seen : ResolvedType) (type' type : Option ResolvedType) : Prop :=
  type' = none ∧ ∃ forgotten ∈ type, ¬ seen.passesFor forgotten

instance (seen : ResolvedType) (type' type : Option ResolvedType) :
    Decidable (seen.Supplants type' type) :=
  inferInstanceAs (Decidable (_ ∧ _))

end ResolvedType

/-- If the first type is known then so is the second one, and the first one passes for it. -/
def Vaguer (type' type : Option ResolvedType) : Prop :=
  ∀ known' ∈ type', ∃ known ∈ type, known'.passesFor known

namespace Vaguer

variable {type' type left' left right' right : Option ResolvedType}

theorem refl (type : Option ResolvedType) : Vaguer type type :=
  fun known h => ⟨known, h, known.passesFor_self⟩

theorem of_none (type : Option ResolvedType) : Vaguer none type := nofun

theorem of_eq (h : type' = none ∨ type' = type) : Vaguer type' type := by
  rcases h with rfl | rfl
  · exact of_none type
  · exact refl type'

/-- Anything passes for a floating-point type. -/
theorem of_float {known : ResolvedType} (h : known.isFloat) : Vaguer type' (some known) :=
  fun known' _ => ⟨known, rfl, ResolvedType.passesFor_of_isFloat known' h⟩

theorem of_passesFor {known' known : ResolvedType} (h : known'.passesFor known) :
    Vaguer (some known') (some known) := by
  rintro _ ⟨⟩
  exact ⟨known, rfl, h⟩

theorem eq_none (h : Vaguer type' none) : type' = none :=
  Option.eq_none_iff_forall_not_mem.2 fun known' hknown' => by
    obtain ⟨_, hknown, -⟩ := h known' hknown'
    cases hknown

theorem not_isFloat (h : Vaguer type' type) (hfloat : ∀ known ∈ type, known.isFloat = false) :
    ∀ known' ∈ type', known'.isFloat = false := by
  intro known' hknown'
  obtain ⟨known, hknown, hpasses⟩ := h known' hknown'
  exact Bool.eq_false_iff.2 fun hfloat' =>
    Bool.eq_false_iff.1 (hfloat known hknown) (ResolvedType.isFloat_of_passesFor hpasses hfloat')

theorem map_pointer (h : Vaguer type' type) : Vaguer (type'.map .pointer) (type.map .pointer) := by
  intro known' hknown'
  obtain ⟨element', helement', rfl⟩ := Option.map_eq_some_iff.1 hknown'
  obtain ⟨element, helement, hpasses⟩ := h element' helement'
  exact ⟨.pointer element, Option.mem_map_of_mem _ helement, hpasses⟩

/-- Of two types that may be known the first one counts. If it is forgotten, the second one must not
supplant it. -/
theorem or (hleft : Vaguer left' left) (hright : Vaguer right' right)
    (supplants : ∀ seen ∈ right', ¬ seen.Supplants left' left) :
    Vaguer (left'.or right') (left.or right) := by
  cases left with
  | none =>
    rw [hleft.eq_none]
    exact hright
  | some known =>
    cases left' with
    | some known' => exact hleft
    | none =>
      refine fun seen hseen => ⟨known, rfl, ?_⟩
      by_contra hpasses
      exact supplants seen hseen ⟨rfl, known, rfl, hpasses⟩

/-- What is the same in both places is not forgotten. -/
theorem same_or (left : Option ResolvedType) (hright : Vaguer right' right) :
    Vaguer (left.or right') (left.or right) := by
  refine (refl left).or hright fun seen _ hsupplants => ?_
  obtain ⟨hnone, _, hknown, -⟩ := hsupplants
  rw [hnone] at hknown
  cases hknown

end Vaguer

/-- Arithmetic with a floating-point operand yields a floating-point type. -/
theorem exists_isFloat_arithmeticType {left right : Option ResolvedType}
    (h : (∃ type ∈ left, type.isFloat) ∨ ∃ type ∈ right, type.isFloat) :
    ∃ known, arithmeticType left right = some known ∧ known.isFloat := by
  cases left with
  | none =>
    obtain ⟨_, ⟨⟩, -⟩ | ⟨type, rfl, htype⟩ := h
    exact ⟨type, rfl, htype⟩
  | some left =>
    cases hleft : left.isFloat with
    | true => exact ⟨left, by cases right <;> simp [arithmeticType, hleft], hleft⟩
    | false =>
      obtain ⟨_, ⟨⟩, htype⟩ | ⟨type, rfl, htype⟩ := h
      · exact absurd htype (Bool.eq_false_iff.1 hleft)
      · exact ⟨type, by simp [arithmeticType, hleft, htype], htype⟩

/-- Other arithmetic yields the first type that is known. -/
theorem arithmeticType_eq_or {left right : Option ResolvedType}
    (hleft : ∀ type ∈ left, type.isFloat = false) (hright : ∀ type ∈ right, type.isFloat = false) :
    arithmeticType left right = left.or right := by
  cases left with
  | none => rfl
  | some left =>
    cases right with
    | none => simp [arithmeticType]
    | some right => simp [arithmeticType, hleft left rfl, hright right rfl]

/-- Arithmetic knows less if its operands do, unless the right one lends its type. -/
theorem vaguer_arithmeticType {left' left right' right : Option ResolvedType}
    (hleft : Vaguer left' left) (hright : Vaguer right' right)
    (lends : ∀ seen ∈ right', seen.isFloat = false → ¬ seen.Supplants left' left) :
    Vaguer (arithmeticType left' right') (arithmeticType left right) := by
  by_cases hfloat : (∃ type ∈ left, type.isFloat) ∨ ∃ type ∈ right, type.isFloat
  · obtain ⟨known, hknown, hisFloat⟩ := exists_isFloat_arithmeticType hfloat
    rw [hknown]
    exact .of_float hisFloat
  · obtain ⟨hfirst, hsecond⟩ := not_or.1 hfloat
    have hleftOther : ∀ type ∈ left, type.isFloat = false := by simpa using hfirst
    have hrightOther : ∀ type ∈ right, type.isFloat = false := by simpa using hsecond
    rw [arithmeticType_eq_or hleftOther hrightOther,
      arithmeticType_eq_or (hleft.not_isFloat hleftOther) (hright.not_isFloat hrightOther)]
    exact hleft.or hright fun seen hseen =>
      lends seen hseen (hright.not_isFloat hrightOther seen hseen)

/-! ### Expressions whose types are not lent -/

namespace Context

variable (context context' : Context)

/-- The type of the left operand is forgotten, and arithmetic takes that of the right one in its
place. -/
def Lends (left right : Expr) : Prop :=
  ∃ seen ∈ context'.known right, seen.isFloat = false ∧
    seen.Supplants (context'.known left) (context.known left)

/-- The type of the start of a loop is forgotten, so that the counter is not bound, and a variable
outside is seen in its place. -/
def Uncovers (counter : String) (start : Expr) : Prop :=
  ∃ seen ∈ context'.lookup? counter, seen.Supplants (context'.known start) (context.known start)

instance (left right : Expr) : Decidable (context.Lends context' left right) :=
  inferInstanceAs (Decidable (∃ _ ∈ _, _ ∧ _))

instance (counter : String) (start : Expr) :
    Decidable (context.Uncovers context' counter start) :=
  inferInstanceAs (Decidable (∃ _ ∈ _, _))

end Context

/-- Where the type of the expression is that of an arithmetic operation, no operand lends its
type. -/
def Expr.Anchored (context context' : Context) : Expr → Prop
  | .unary _ .neg operand | .unary _ .bitNot operand => operand.Anchored context context'
  | .binary _ op left right =>
    (op.isComparison || op.isLogical) = true ∨
      left.Anchored context context' ∧ right.Anchored context context' ∧
        ¬ context.Lends context' left right
  | .unary _ .not _ | .number _ _ | .var _ _ | .addressOf _ _ | .index _ _ _ | .member _ _ _
  | .call _ _ _ => True

instance Expr.decidableAnchored (context context' : Context) :
    (e : Expr) → Decidable (e.Anchored context context')
  | .unary _ .neg operand | .unary _ .bitNot operand =>
    decidableAnchored context context' operand
  | .binary _ _ left right =>
    have := decidableAnchored context context' left
    have := decidableAnchored context context' right
    inferInstanceAs (Decidable (_ ∨ _ ∧ _ ∧ _))
  | .unary _ .not _ | .number _ _ | .var _ _ | .addressOf _ _ | .index _ _ _ | .member _ _ _
  | .call _ _ _ => .isTrue trivial

mutual

/-- The parts of an expression whose types are looked into: what is indexed, and what a member is
taken of. -/
def Expr.inspected : Expr → List Expr
  | .number _ _ | .var _ _ => []
  | .addressOf _ place => place.inspected
  | .index _ base subscript => base :: (base.inspected ++ subscript.inspected)
  | .member _ object _ => object :: object.inspected
  | .unary _ _ operand => operand.inspected
  | .binary _ _ left right => left.inspected ++ right.inspected
  | .call _ _ args => Expr.inspectedAll args

/-- The parts of several expressions whose types are looked into. -/
def Expr.inspectedAll : List Expr → List Expr
  | [] => []
  | e :: es => e.inspected ++ Expr.inspectedAll es

end

theorem Expr.inspectedAll_eq (es : List Expr) : inspectedAll es = es.flatMap inspected := by
  induction es with
  | nil => rfl
  | cons e es ih => rw [inspectedAll, ih, List.flatMap_cons]

theorem Expr.anchored_of_isAddressable {context context' : Context} {e : Expr}
    (h : e.isAddressable) : e.Anchored context context' := by
  cases e with
  | var | index | member => trivial
  | number | addressOf | unary | binary | call => cases h

/-! ### What is known of an expression -/

namespace Context

/-- What is seen of fewer names, in the same place. -/
structure Forgets (context context' : Context) : Prop where
  types : context'.types = context.types
  lookup? : ∀ name, Vaguer (context'.lookup? name) (context.lookup? name)
  signature? : ∀ name, context'.signature? name = none ∨
    context'.signature? name = context.signature? name

/-- An expression without contradictions has none with fewer names either, and less is known of it
if it is anchored. -/
def HintsAlso (context context' : Context) (e : Expr) : Prop :=
  ∀ type, context.hint e = .ok type → ∃ type', context'.hint e = .ok type' ∧
    (e.Anchored context context' → Vaguer type' type)

variable {context context' : Context}

theorem known_of_hint {e : Expr} {type : Option ResolvedType} (h : context.hint e = .ok type) :
    context.known e = type := by
  rw [known, h]
  rfl

theorem exists_elementType {base' base type : Option ResolvedType} {place : Location}
    (hbase : Vaguer base' base) (htype : context.elementType base place = .ok type) :
    ∃ type', context'.elementType base' place = .ok type' ∧ Vaguer type' type := by
  cases base' with
  | none => exact ⟨none, rfl, .of_none type⟩
  | some known' =>
    obtain ⟨known, rfl, hpasses⟩ := hbase known' rfl
    cases known with
    | pointer element =>
      cases htype
      obtain ⟨element', rfl, helement⟩ := ResolvedType.exists_pointer_of_passesFor hpasses
      exact ⟨some element', rfl, .of_passesFor helement⟩
    | void | bool | int | float | struct => cases htype

theorem exists_fieldType {object' object type : Option ResolvedType} {field : String}
    {place : Location} (hobject : Vaguer object' object)
    (htype : context.fieldType object field place = .ok type) :
    ∃ type', context.fieldType object' field place = .ok type' ∧ Vaguer type' type := by
  cases object' with
  | none => exact ⟨none, rfl, .of_none type⟩
  | some known' =>
    obtain ⟨known, rfl, hpasses⟩ := hobject known' rfl
    cases known with
    | struct id =>
      rw [ResolvedType.eq_struct_of_passesFor hpasses]
      exact ⟨type, htype, .refl type⟩
    | void | bool | int | float | pointer => cases htype

theorem hintsAlso_number (tag : Tag) (value : Number) :
    HintsAlso context context' (.number tag value) := by
  intro type htype
  rw [hint] at htype ⊢
  exact ⟨type, htype, fun _ => .refl type⟩

theorem Forgets.hintsAlso_var (h : context.Forgets context') (tag : Tag) (name : String) :
    HintsAlso context context' (.var tag name) := by
  intro type htype
  rw [hint] at htype ⊢
  cases htype
  exact ⟨_, rfl, fun _ => h.lookup? name⟩

/-- The place whose address is taken is anchored, as it is no arithmetic operation. -/
theorem HintsAlso.addressOf {place : Expr} (hplace : HintsAlso context context' place) (tag : Tag) :
    HintsAlso context context' (.addressOf tag place) := by
  intro type htype
  rw [hint] at htype ⊢
  cases haddressable : place.isAddressable with
  | false =>
    rw [haddressable] at htype
    cases htype
  | true =>
    rw [haddressable] at htype
    obtain ⟨inner, hinner, hpointer⟩ := exists_of_bind_ok htype
    cases hpointer
    obtain ⟨inner', hinner', hvaguer⟩ := hplace inner hinner
    refine ⟨inner'.map .pointer, ?_, fun _ => ?_⟩
    · rw [hinner']
      rfl
    · exact (hvaguer (Expr.anchored_of_isAddressable haddressable)).map_pointer

/-- What is indexed is looked into, so it has to be anchored. -/
theorem HintsAlso.index {base subscript : Expr}
    (hbase : HintsAlso context context' base) (hsubscript : HintsAlso context context' subscript)
    (anchored : base.Anchored context context') (tag : Tag) :
    HintsAlso context context' (.index tag base subscript) := by
  intro type htype
  rw [hint] at htype ⊢
  obtain ⟨_, hindex, htype⟩ := exists_of_bind_ok htype
  obtain ⟨_, hpointer, htype⟩ := exists_of_bind_ok htype
  obtain ⟨_, hindex', -⟩ := hsubscript _ hindex
  obtain ⟨_, hpointer', hvaguer⟩ := hbase _ hpointer
  obtain ⟨type', htype', hless⟩ := exists_elementType (hvaguer anchored) htype
  refine ⟨type', ?_, fun _ => hless⟩
  rw [hindex', hpointer']
  exact htype'

/-- What a member is taken of is looked into, so it has to be anchored. -/
theorem HintsAlso.member (h : context.Forgets context') {object : Expr}
    (hobject : HintsAlso context context' object) (anchored : object.Anchored context context')
    (tag : Tag) (field : String) : HintsAlso context context' (.member tag object field) := by
  intro type htype
  rw [hint] at htype ⊢
  obtain ⟨_, hstruct, htype⟩ := exists_of_bind_ok htype
  obtain ⟨object', hstruct', hvaguer⟩ := hobject _ hstruct
  obtain ⟨type', htype', hless⟩ := exists_fieldType (hvaguer anchored) htype
  refine ⟨type', ?_, fun _ => hless⟩
  rw [hstruct']
  have hsame : context'.fieldType object' field tag.location =
      context.fieldType object' field tag.location := by
    rw [fieldType.eq_def, fieldType.eq_def, h.types]
  exact hsame.trans htype'

theorem HintsAlso.unary {operand : Expr} (hoperand : HintsAlso context context' operand) (tag : Tag)
    (op : UnaryOp) : HintsAlso context context' (.unary tag op operand) := by
  intro type htype
  rw [hint] at htype ⊢
  obtain ⟨_, hinner, htype⟩ := exists_of_bind_ok htype
  cases htype
  obtain ⟨operand', hinner', hvaguer⟩ := hoperand _ hinner
  refine ⟨op.resultType operand', ?_, fun anchored => ?_⟩
  · rw [hinner']
    rfl
  · cases op with
    | not => exact .refl _
    | neg | bitNot => exact hvaguer anchored

theorem HintsAlso.binary {left right : Expr} (hleft : HintsAlso context context' left)
    (hright : HintsAlso context context' right) (tag : Tag) (op : BinaryOp) :
    HintsAlso context context' (.binary tag op left right) := by
  intro type htype
  rw [hint] at htype ⊢
  obtain ⟨_, hfirst, htype⟩ := exists_of_bind_ok htype
  obtain ⟨_, hsecond, htype⟩ := exists_of_bind_ok htype
  cases htype
  obtain ⟨left', hfirst', hvaguerLeft⟩ := hleft _ hfirst
  obtain ⟨right', hsecond', hvaguerRight⟩ := hright _ hsecond
  refine ⟨op.resultType left' right', ?_, fun anchored => ?_⟩
  · rw [hfirst', hsecond']
    rfl
  · rw [BinaryOp.resultType, BinaryOp.resultType]
    rcases anchored with hbool | ⟨hanchoredLeft, hanchoredRight, hlends⟩
    · rw [if_pos hbool, if_pos hbool]
      exact .refl _
    · split
      · exact .refl _
      · refine vaguer_arithmeticType (hvaguerLeft hanchoredLeft) (hvaguerRight hanchoredRight) ?_
        intro seen hseen hfloat hsupplants
        rw [Lends, known_of_hint hfirst, known_of_hint hfirst', known_of_hint hsecond'] at hlends
        exact hlends ⟨seen, hseen, hfloat, hsupplants⟩

theorem Forgets.hintsAlso_call (h : context.Forgets context') {args : List Expr}
    (hargs : context.hintAll args = .ok () → context'.hintAll args = .ok ()) (tag : Tag)
    (callee : String) : HintsAlso context context' (.call tag callee args) := by
  intro type htype
  rw [hint] at htype ⊢
  obtain ⟨_, hall, htype⟩ := exists_of_bind_ok htype
  cases htype
  rw [hargs hall]
  refine ⟨_, rfl, fun _ => .of_eq ?_⟩
  exact (h.signature? callee).imp (fun hnone => by rw [hnone]; rfl) fun hsame => by rw [hsame]

mutual

/-- An expression without contradictions has none after names have been forgotten, if what is looked
into in it is anchored. If it is anchored itself, less is known of it. -/
theorem hint_of_forgets (h : context.Forgets context') : (e : Expr) →
    (∀ part ∈ e.inspected, part.Anchored context context') → HintsAlso context context' e
  | .number tag value, _ => hintsAlso_number tag value
  | .var tag name, _ => h.hintsAlso_var tag name
  | .addressOf tag place, hparts => (hint_of_forgets h place hparts).addressOf tag
  | .index tag base subscript, hparts => by
    obtain ⟨hanchored, hparts⟩ := List.forall_mem_cons.1 hparts
    obtain ⟨hbases, hsubscripts⟩ := List.forall_mem_append.1 hparts
    exact .index (hint_of_forgets h base hbases) (hint_of_forgets h subscript hsubscripts)
      hanchored tag
  | .member tag object field, hparts => by
    obtain ⟨hanchored, hparts⟩ := List.forall_mem_cons.1 hparts
    exact .member h (hint_of_forgets h object hparts) hanchored tag field
  | .unary tag op operand, hparts => (hint_of_forgets h operand hparts).unary tag op
  | .binary tag op left right, hparts => by
    obtain ⟨hlefts, hrights⟩ := List.forall_mem_append.1 hparts
    exact (hint_of_forgets h left hlefts).binary (hint_of_forgets h right hrights) tag op
  | .call tag callee args, hparts => h.hintsAlso_call (hintAll_of_forgets h args hparts) tag callee

theorem hintAll_of_forgets (h : context.Forgets context') : (es : List Expr) →
    (∀ part ∈ Expr.inspectedAll es, part.Anchored context context') →
    context.hintAll es = .ok () → context'.hintAll es = .ok ()
  | [], _, _ => by rw [hintAll]; rfl
  | e :: es, hparts, hall => by
    rw [hintAll] at hall ⊢
    obtain ⟨hfirst, hrest⟩ := List.forall_mem_append.1 hparts
    obtain ⟨_, he, hes⟩ := exists_of_bind_ok hall
    obtain ⟨_, he', -⟩ := hint_of_forgets h e hfirst _ he
    rw [he']
    exact hintAll_of_forgets h es hrest hes

end

end Context

end Offside
