import Offside.Proofs.Types.Twin
import Offside.Typing.Hint

/-!
# The same names in two sessions

Two sessions that declare the same see the same variables and functions, of types that are the same
but for the numbers of structs. The type of an expression is then the same as well, and so is what
contradicts it, wherever the expression stands.

## Main definitions

* `Offside.Table.Alike`: tables that bind the same names to related values.
* `Offside.Symbols.Twin`, `Offside.Context.Twin`: the same functions and variables.

## Main results

* `Offside.Context.Twin.hint`: the type of an expression at other places.
-/

namespace Offside

/-! ### Tables of related values -/

namespace Table

variable {α β : Type} {R S : α → β → Prop} {t : Table α} {t' : Table β}

/-- Tables that bind the same names in the same order, to related values. -/
def Alike (R : α → β → Prop) (t : Table α) (t' : Table β) : Prop :=
  List.Forall₂ (fun entry entry' => entry'.1 = entry.1 ∧ R entry.2 entry'.2) t.entries t'.entries

theorem alike_empty : Alike R (empty : Table α) (empty : Table β) := .nil

theorem Alike.mono (h : Alike R t t') (hle : ∀ a b, R a b → S a b) : Alike S t t' :=
  h.imp fun _ _ hentry => ⟨hentry.1, hle _ _ hentry.2⟩

theorem Alike.get? (h : Alike R t t') (name : String) : Option.Rel R (t.get? name) (t'.get? name) := by
  obtain ⟨entries⟩ := t
  obtain ⟨entries'⟩ := t'
  rw [Table.get?, Table.get?]
  rw [Alike] at h
  dsimp only at h ⊢
  induction h with
  | nil => exact .none
  | @cons entry entry' _ _ hentry _ ih =>
    rw [get?.find, get?.find, hentry.1]
    split
    · exact .some hentry.2
    · exact ih

theorem Alike.insert (h : Alike R t t') (name : String) {a : α} {b : β} (hab : R a b) :
    Alike R (t.insert name a) (t'.insert name b) := by
  obtain ⟨entries⟩ := t
  obtain ⟨entries'⟩ := t'
  rw [Table.insert, Table.insert]
  rw [Alike] at h ⊢
  dsimp only at h ⊢
  induction h with
  | nil => exact .cons ⟨rfl, hab⟩ .nil
  | @cons entry entry' _ _ hentry hrest ih =>
    rw [insert.place, insert.place, hentry.1]
    split
    · exact .cons ⟨rfl, hab⟩ hrest
    · exact .cons ⟨rfl, hentry.2⟩ ih

theorem Alike.merge {u : Table α} {u' : Table β} (h : Alike R t t') (k : Alike R u u') :
    Alike R (t.merge u) (t'.merge u') := by
  obtain ⟨entries⟩ := u
  obtain ⟨entries'⟩ := u'
  rw [Table.merge, Table.merge]
  rw [Alike] at k
  dsimp only at k ⊢
  induction k generalizing t t' with
  | nil => exact h
  | @cons entry entry' _ _ hentry _ ih =>
    rw [List.foldl_cons, List.foldl_cons, hentry.1]
    exact ih (h.insert _ hentry.2)

theorem alike_ofList (names : List String) {as : List α} {bs : List β}
    (h : List.Forall₂ R as bs) :
    Alike R (ofList (names.zip as)) (ofList (names.zip bs)) := by
  refine alike_empty.merge ?_
  rw [Alike]
  induction h generalizing names with
  | nil =>
    rw [List.zip_nil_right, List.zip_nil_right]
    exact .nil
  | cons hab _ ih =>
    cases names with
    | nil => exact .nil
    | cons name names => exact .cons ⟨rfl, hab⟩ (ih names)

end Table

/-- Values that look the same to `f` and `g`. -/
theorem Table.Alike.map_eq {α β γ : Type} {R : α → β → Prop} {t : Table α} {t' : Table β}
    {f : α → γ} {g : β → γ} (h : Alike R t t') (hfg : ∀ a b, R a b → g b = f a) :
    t'.entries.map (fun entry => (entry.1, g entry.2)) =
      t.entries.map fun entry => (entry.1, f entry.2) := by
  obtain ⟨entries⟩ := t
  obtain ⟨entries'⟩ := t'
  rw [Alike] at h
  dsimp only at h ⊢
  induction h with
  | nil => rfl
  | cons hentry _ ih => rw [List.map_cons, List.map_cons, ih, hentry.1, hfg _ _ hentry.2]

/-! ### Names -/

variable {f : Location → Location} {before : List (String × StructDecl)}
  {env env' env₁ env₁' : TypeEnv}

/-- The same types of parameters and of the result. -/
structure Signature.Twin (env env' : TypeEnv) (s s' : Signature) : Prop where
  params : List.Forall₂ (TypeEnv.Twin env env') s.params s'.params
  result : TypeEnv.Twin env env' s.result s'.result

theorem Signature.Twin.mono {s s' : Signature} (h : s.Twin env env' s')
    (keeps : env.KeepsNumbers env₁) (keeps' : env'.KeepsNumbers env₁') : s.Twin env₁ env₁' s' :=
  ⟨h.params.imp fun _ _ htype => htype.mono keeps keeps', h.result.mono keeps keeps'⟩

/-- The same functions and globals. -/
structure Symbols.Twin (env env' : TypeEnv) (symbols symbols' : Symbols) : Prop where
  functions : Table.Alike (Signature.Twin env env') symbols.functions symbols'.functions
  globals : Table.Alike (TypeEnv.Twin env env') symbols.globals symbols'.globals

theorem Symbols.twin_empty : Symbols.Twin env env' .empty .empty :=
  ⟨Table.alike_empty, Table.alike_empty⟩

theorem Symbols.Twin.mono {symbols symbols' : Symbols} (h : symbols.Twin env env' symbols')
    (keeps : env.KeepsNumbers env₁) (keeps' : env'.KeepsNumbers env₁') :
    symbols.Twin env₁ env₁' symbols' :=
  ⟨h.functions.mono fun _ _ hsignature => hsignature.mono keeps keeps',
    h.globals.mono fun _ _ htype => htype.mono keeps keeps'⟩

/-- The functions and the globals, with their types as they are printed. -/
def Symbols.describe (env : TypeEnv) (symbols : Symbols) :
    List (String × List String × String) × List (String × String) :=
  (symbols.functions.entries.map fun entry =>
      (entry.1, entry.2.params.map env.describe, env.describe entry.2.result),
    symbols.globals.entries.map fun entry => (entry.1, env.describe entry.2))

theorem Symbols.Twin.describe {symbols symbols' : Symbols} (h : symbols.Twin env env' symbols')
    (sound : env.Sound []) (sound' : env'.Sound []) :
    symbols'.describe env' = symbols.describe env := by
  have htypes {types types' : List ResolvedType}
      (htypes : List.Forall₂ (TypeEnv.Twin env env') types types') :
      types'.map env'.describe = types.map env.describe := by
    induction htypes with
    | nil => rfl
    | cons htype _ ih => rw [List.map_cons, List.map_cons, ih, htype.describe sound sound']
  have hfunctions := h.functions.map_eq
    (f := fun signature => (signature.params.map env.describe, env.describe signature.result))
    (g := fun signature => (signature.params.map env'.describe, env'.describe signature.result))
    fun signature signature' hsignature => by
      rw [htypes hsignature.params, hsignature.result.describe sound sound']
  have hglobals := h.globals.map_eq (f := env.describe) (g := env'.describe)
    fun type type' htype => htype.describe sound sound'
  rw [Symbols.describe, Symbols.describe, hfunctions, hglobals]

namespace Context

/-- The same is seen in both sessions. -/
structure Twin (f : Location → Location) (before : List (String × StructDecl))
    (c c' : Context) : Prop where
  types : TypeEnv.Matches f before c.types c'.types
  symbols : c.symbols.Twin c.types c'.types c'.symbols
  scopes : List.Forall₂ (Table.Alike (TypeEnv.Twin c.types c'.types)) c.scopes c'.scopes
  function : Option.Rel (fun known known' => known'.1 = known.1 ∧
    known.2.Twin c.types c'.types known'.2) c.function c'.function

variable {c c' : Context}

theorem Twin.lookup? (h : Twin f before c c') (name : String) :
    Option.Rel (TypeEnv.Twin c.types c'.types) (c.lookup? name) (c'.lookup? name) := by
  have hglobal := h.symbols.globals.get? name
  have hscopes := h.scopes
  rw [Context.lookup?, Context.lookup?]
  generalize c.scopes = scopes at hscopes
  generalize c'.scopes = scopes' at hscopes
  induction hscopes with
  | nil => simpa using hglobal
  | @cons scope scope' _ _ hscope _ ih =>
    have hname := hscope.get? name
    rw [List.findSome?_cons, List.findSome?_cons]
    generalize scope.get? name = found at hname
    generalize scope'.get? name = found' at hname
    cases hname with
    | some htype => exact .some htype
    | none => exact ih

theorem Twin.signature? (h : Twin f before c c') (name : String) :
    Option.Rel (Signature.Twin c.types c'.types) (c.signature? name) (c'.signature? name) := by
  have hfunction := h.function
  rw [Context.signature?, Context.signature?]
  generalize c.function = current at hfunction
  generalize c'.function = current' at hfunction
  cases hfunction with
  | none => exact h.symbols.functions.get? name
  | @some known known' hknown =>
    obtain ⟨current, signature⟩ := known
    obtain ⟨current', signature'⟩ := known'
    obtain ⟨rfl, hsignature⟩ := hknown
    dsimp only
    split
    · exact .some hsignature
    · exact h.symbols.functions.get? name

end Context

/-! ### The types of expressions -/

/-- Related answers, or the same error at the place that corresponds. -/
inductive HintsAlike {α β : Type} (f : Location → Location) (R : α → β → Prop) :
    Except Diagnostic α → Except Diagnostic β → Prop
  | ok {a : α} {b : β} (h : R a b) : HintsAlike f R (.ok a) (.ok b)
  | error (d : Diagnostic) : HintsAlike f R (.error d) (.error (d.relocate f))

theorem HintsAlike.bind {α α' β β' : Type} {R : α → β → Prop} {S : α' → β' → Prop}
    {x : Except Diagnostic α} {y : Except Diagnostic β} {g : α → Except Diagnostic α'}
    {g' : β → Except Diagnostic β'} (h : HintsAlike f R x y)
    (hg : ∀ a b, R a b → HintsAlike f S (g a) (g' b)) : HintsAlike f S (x >>= g) (y >>= g') := by
  cases h with
  | ok hab => exact hg _ _ hab
  | error d => exact .error d

/-- Arithmetic on twins yields twins. -/
theorem rel_arithmeticType {left right left' right' : Option ResolvedType}
    (h : Option.Rel (TypeEnv.Twin env env') left left')
    (k : Option.Rel (TypeEnv.Twin env env') right right') :
    Option.Rel (TypeEnv.Twin env env') (arithmeticType left right)
      (arithmeticType left' right') := by
  cases h with
  | none => exact k
  | some hleft =>
    simp only [arithmeticType, hleft.isFloat]
    split
    · exact .some hleft
    · cases k with
      | none => exact .some hleft
      | some hright =>
        simp only [hright.isFloat]
        split
        · exact .some hright
        · exact .some hleft

namespace Context.Twin

variable {c c' : Context}

theorem elementType (h : Twin f before c c') {base base' : Option ResolvedType} (place : Location)
    (hbase : Option.Rel (TypeEnv.Twin c.types c'.types) base base') :
    HintsAlike f (Option.Rel (TypeEnv.Twin c.types c'.types)) (c.elementType base place)
      (c'.elementType base' (f place)) := by
  cases hbase with
  | none => exact .ok .none
  | @some type type' htype =>
    have hdescribe := htype.describe h.types.sound h.types.sound'
    have refused : HintsAlike f (Option.Rel (TypeEnv.Twin c.types c'.types))
        (.error (semanticError (.notIndexable (c.types.describe type)) place))
        (.error (semanticError (.notIndexable (c'.types.describe type')) (f place))) := by
      rw [hdescribe]
      exact .error (semanticError (.notIndexable (c.types.describe type)) place)
    cases htype with
    | pointer helement => exact .ok (.some helement)
    | void => exact refused
    | bool => exact refused
    | int => exact refused
    | float => exact refused
    | struct => exact refused

theorem fieldType (h : Twin f before c c') {object object' : Option ResolvedType} (field : String)
    (place : Location)
    (hobject : Option.Rel (TypeEnv.Twin c.types c'.types) object object') :
    HintsAlike f (Option.Rel (TypeEnv.Twin c.types c'.types)) (c.fieldType object field place)
      (c'.fieldType object' field (f place)) := by
  cases hobject with
  | none => exact .ok .none
  | @some type type' htype =>
    have hdescribe := htype.describe h.types.sound h.types.sound'
    have refused : HintsAlike f (Option.Rel (TypeEnv.Twin c.types c'.types))
        (.error (semanticError (.notStruct (c.types.describe type)) place))
        (.error (semanticError (.notStruct (c'.types.describe type')) (f place))) := by
      rw [hdescribe]
      exact .error (semanticError (.notStruct (c.types.describe type)) place)
    cases htype with
    | pointer => exact refused
    | void => exact refused
    | bool => exact refused
    | int => exact refused
    | float => exact refused
    | @struct name id id' left right =>
      have hfield := h.types.field? left right field
      have hname : (c'.types.layout id').name = (c.types.layout id).name := hdescribe
      rw [Context.fieldType, Context.fieldType]
      generalize (c.types.layout id).field? field = found at hfield
      generalize (c'.types.layout id').field? field = found' at hfield
      cases hfield with
      | some hplaced => exact .ok (.some hplaced)
      | none =>
        rw [hname]
        exact .error (semanticError (.unknownField field (c.types.layout id).name) place)

mutual

/-- An expression has twin types in both, or the same contradiction. -/
theorem hint (h : Twin f before c c') : (e : Expr) →
    HintsAlike f (Option.Rel (TypeEnv.Twin c.types c'.types)) (c.hint e) (c'.hint (e.relocate f))
  | .number _ value => by
    rw [Expr.relocate, Context.hint, Context.hint]
    refine .ok (.some ?_)
    cases value with
    | int n => exact .int 64 true
    | float x => exact .float 64
  | .var _ name => by
    rw [Expr.relocate, Context.hint, Context.hint]
    exact .ok (h.lookup? name)
  | .addressOf tag place => by
    rw [Expr.relocate, Context.hint, Context.hint, Expr.isAddressable_relocate]
    split
    · exact .error (semanticError .notAddressable tag.location)
    · refine (hint h place).bind fun type type' htype => .ok ?_
      cases htype with
      | none => exact .none
      | some htype => exact .some htype.pointer
  | .index tag base subscript => by
    rw [Expr.relocate, Context.hint, Context.hint]
    refine (hint h subscript).bind fun _ _ _ => ?_
    exact (hint h base).bind fun type type' htype => h.elementType tag.location htype
  | .member tag object field => by
    rw [Expr.relocate, Context.hint, Context.hint]
    exact (hint h object).bind fun type type' htype => h.fieldType field tag.location htype
  | .unary _ op operand => by
    rw [Expr.relocate, Context.hint, Context.hint]
    refine (hint h operand).bind fun type type' htype => .ok ?_
    cases op with
    | not => exact .some .bool
    | neg => exact htype
    | bitNot => exact htype
  | .binary _ op left right => by
    rw [Expr.relocate, Context.hint, Context.hint]
    refine (hint h left).bind fun _ _ hleft => ?_
    refine (hint h right).bind fun _ _ hright => .ok ?_
    rw [BinaryOp.resultType, BinaryOp.resultType]
    split
    · exact .some .bool
    · exact rel_arithmeticType hleft hright
  | .call _ callee args => by
    rw [Expr.relocate, Context.hint, Context.hint]
    refine (hintAll h args).bind fun _ _ _ => .ok ?_
    have hsignature := h.signature? callee
    generalize c.signature? callee = signature at hsignature
    generalize c'.signature? callee = signature' at hsignature
    cases hsignature with
    | none => exact .none
    | some hsignature => exact .some hsignature.result

theorem hintAll (h : Twin f before c c') : (es : List Expr) →
    HintsAlike f (fun _ _ => True) (c.hintAll es) (c'.hintAll (Expr.relocateAll f es))
  | [] => by
    rw [Expr.relocateAll, Context.hintAll, Context.hintAll]
    exact .ok trivial
  | e :: es => by
    rw [Expr.relocateAll, Context.hintAll, Context.hintAll]
    exact (hint h e).bind fun _ _ _ => hintAll h es

end

end Context.Twin

end Offside
