import Mathlib
import Offside.Proofs.Couples
import Offside.Proofs.Typing.Scopes
import Offside.Proofs.Typing.Vaguer

/-!
# What a check accepts with fewer names

An unknown name has no known type, and where no type is known nothing is contradicted. So an item
that is accepted ought to be accepted as well where less is known: after globals and functions have
been forgotten.

This holds unless a known type comes up where another one was expected, which happens in two
places. The sum of an unknown and a known operand takes the type of the known one, also where the
type of the forgotten operand would have come first. And a counting loop whose start has no known
type does not bind its counter, so that an outer variable of that name is seen in its body. Neither
does harm if the type that is seen passes for the one that has been forgotten.

The two checks of an item go side by side. In each scope, what is known in the second one passes for
what is known in the first one, and so it is with the expressions that a statement looks into.

## Main definitions

* `Offside.Symbols.Forgets`: fewer names, with the same types.
* `Offside.CheckState.Forgets`: two checks side by side.
* `Offside.Check.GoesOn`: the second one goes on as the first one does.
* `Offside.Item.Anchored`: an item whose expressions are anchored where their types matter, and
  whose loops uncover nothing.

## Main results

* `Offside.goesOn_checkStmt`: the check of a statement goes on with fewer names.
* `Offside.checkItem_of_forgets`: an anchored item is accepted with fewer names.
* `Offside.not_accepts_of_forgets`: items that are not.
-/

namespace Offside

open Check

/-! ### Checks side by side -/

/-- Fewer functions and globals; those that are left have the same types. -/
structure Symbols.Forgets (symbols symbols' : Symbols) : Prop where
  globals : ∀ name type, symbols'.globals.get? name = some type →
    symbols.globals.get? name = some type
  functions : ∀ name signature, symbols'.functions.get? name = some signature →
    symbols.functions.get? name = some signature

/-- The type of a variable in scopes, or that of a global. -/
def Scope.seen? (globals : Table ResolvedType) (scopes : List Scope) (name : String) :
    Option ResolvedType :=
  (scopes.findSome? (·.get? name)).or (globals.get? name)

theorem Scope.seen?_cons (globals : Table ResolvedType) (scope : Scope) (outer : List Scope)
    (name : String) :
    seen? globals (scope :: outer) name = (scope.get? name).or (seen? globals outer name) := by
  rw [seen?, List.findSome?_cons, seen?]
  cases scope.get? name <;> rfl

theorem get?_counterScope (counter : String) (type : Option ResolvedType) (name : String) :
    (counterScope counter type).get? name = if counter = name then type else none := by
  cases type with
  | none => rw [ite_self]; rfl
  | some type => exact Table.get?_insert _ _ _ _

/-- Two checks at the same place, the second one with fewer names: less is known of the variables,
seen from there and from each scope around it. -/
structure CheckState.Forgets (c c' : CheckState) : Prop where
  symbols : c.symbols.Forgets c'.symbols
  types : c'.types = c.types
  depth : c'.scopes.length = c.scopes.length
  seen : ∀ n name, Vaguer (Scope.seen? c'.symbols.globals (c'.scopes.drop n) name)
    (Scope.seen? c.symbols.globals (c.scopes.drop n) name)
  function : c'.function = c.function
  loops : c'.loops = c.loops

namespace CheckState.Forgets

variable {c c' : CheckState}

theorem initial (types : TypeEnv) {symbols symbols' : Symbols} (h : symbols.Forgets symbols') :
    (CheckState.initial types symbols).Forgets (.initial types symbols') where
  symbols := h
  types := rfl
  depth := rfl
  seen n name := by
    have hnone : ([] : List Scope).drop n = [] := List.drop_nil
    rw [CheckState.initial, CheckState.initial, Context.topLevel, Context.topLevel, hnone]
    exact fun known hknown => ⟨known, h.globals name known hknown, known.passesFor_self⟩
  function := rfl
  loops := rfl

theorem context (h : c.Forgets c') : c.toContext.Forgets c'.toContext where
  types := h.types
  lookup? := h.seen 0
  signature? name := by
    have hsymbols : c'.symbols.functions.get? name = none ∨
        c'.symbols.functions.get? name = c.symbols.functions.get? name := by
      cases hfunction : c'.symbols.functions.get? name with
      | none => exact .inl rfl
      | some signature => exact .inr (h.symbols.functions name signature hfunction).symm
    rw [Context.signature?, Context.signature?, h.function]
    split
    · split
      · exact .inr rfl
      · exact hsymbols
    · exact hsymbols

/-- Both go on with the types and notes that a resolution leaves. -/
theorem resolved (h : c.Forgets c') (types : TypeEnv) (notes notes' : List Note) :
    CheckState.Forgets { c with types := types, notes := notes }
      { c' with types := types, notes := notes' } :=
  ⟨h.symbols, rfl, h.depth, h.seen, h.function, h.loops⟩

theorem enterScope (h : c.Forgets c') {scope scope' : Scope}
    (hscope : ∀ name, Vaguer ((scope'.get? name).or (c'.lookup? name))
      ((scope.get? name).or (c.lookup? name))) :
    (c.enterScope scope).Forgets (c'.enterScope scope') where
  symbols := h.symbols
  types := h.types
  depth := congrArg (· + 1) h.depth
  seen n name := by
    cases n with
    | zero =>
      rw [List.drop_zero, List.drop_zero, CheckState.enterScope, CheckState.enterScope,
        Scope.seen?_cons, Scope.seen?_cons]
      exact hscope name
    | succ n => exact h.seen n name
  function := h.function
  loops := h.loops

theorem enterSame (h : c.Forgets c') (scope : Scope) :
    (c.enterScope scope).Forgets (c'.enterScope scope) :=
  h.enterScope fun name => (h.seen 0 name).same_or (scope.get? name)

/-- A counter may be bound in the first check only, unless a variable outside is uncovered then. -/
theorem enterCounter (h : c.Forgets c') (counter : String) {type' type : Option ResolvedType}
    (hvaguer : Vaguer type' type)
    (uncovers : ∀ seen ∈ c'.lookup? counter, ¬ seen.Supplants type' type) :
    (c.enterScope (counterScope counter type)).Forgets
      (c'.enterScope (counterScope counter type')) := by
  refine h.enterScope fun name => ?_
  rw [get?_counterScope, get?_counterScope]
  split
  · next hname =>
    subst hname
    exact hvaguer.or (h.seen 0 counter) uncovers
  · exact h.seen 0 name

theorem leaveScope (h : c.Forgets c') :
    CheckState.Forgets { c with scopes := c.scopes.tail } { c' with scopes := c'.scopes.tail } where
  symbols := h.symbols
  types := h.types
  depth := by
    dsimp only
    rw [List.length_tail, List.length_tail, h.depth]
  seen n name := by
    dsimp only
    rw [List.drop_tail, List.drop_tail]
    exact h.seen (n + 1) name
  function := h.function
  loops := h.loops

theorem enterLoop (h : c.Forgets c') : c.enterLoop.Forgets c'.enterLoop :=
  ⟨h.symbols, h.types, h.depth, h.seen, h.function, congrArg (· + 1) h.loops⟩

theorem leaveLoop (h : c.Forgets c') :
    CheckState.Forgets { c with loops := c.loops - 1 } { c' with loops := c'.loops - 1 } :=
  ⟨h.symbols, h.types, h.depth, h.seen, h.function, congrArg (· - 1) h.loops⟩

theorem inFunction (h : c.Forgets c') (function : Option (String × Signature)) :
    CheckState.Forgets { c with function := function } { c' with function := function } :=
  ⟨h.symbols, h.types, h.depth, h.seen, rfl, h.loops⟩

end CheckState.Forgets

namespace Check

variable {α β : Type} {c c' : CheckState}

/-- An expression that is looked into changes nothing. -/
theorem follows_hint {e : Expr} (h : c.Forgets c')
    (hparts : ∀ part ∈ e.inspected, part.Anchored c.toContext c'.toContext)
    {ok : Option ResolvedType → CheckState → Option ResolvedType → CheckState → Prop}
    (hok : (e.Anchored c.toContext c'.toContext → Vaguer (c'.known e) (c.known e)) →
      ok (c.known e) c (c'.known e) c') :
    Follows c c' (hint e) (hint e) ok := by
  rw [Follows, hint]
  cases hs : c.toContext.hint e with
  | error d => trivial
  | ok type =>
    obtain ⟨type', ht, hvaguer⟩ := Context.hint_of_forgets h.context e hparts type hs
    rw [Context.known_of_hint hs, Context.known_of_hint ht] at hok
    dsimp only
    rw [Yields, hint, ht]
    exact hok hvaguer

/-- If the first check succeeds then so does the second one, and as before less is known in it. -/
def GoesOn (c c' : CheckState) (x x' : Check Unit) : Prop :=
  Follows c c' x x' fun _ d _ d' => d.Forgets d'

theorem goesOn_hintAll {es : List Expr} (h : c.Forgets c')
    (hparts : ∀ e ∈ es, ∀ part ∈ e.inspected, part.Anchored c.toContext c'.toContext) :
    GoesOn c c' (hintAll es) (hintAll es) := by
  rw [GoesOn, Follows, hintAll]
  cases hs : c.toContext.hintAll es with
  | error d => trivial
  | ok _ =>
    have hall : ∀ part ∈ Expr.inspectedAll es, part.Anchored c.toContext c'.toContext := by
      rw [Expr.inspectedAll_eq]
      exact List.forall_mem_flatMap.2 hparts
    dsimp only
    rw [Yields, hintAll, Context.hintAll_of_forgets h.context es hall hs]
    exact h

theorem follows_checkOptional (e : Option Expr) (h : c.Forgets c')
    (hparts : ∀ e' ∈ e.toList, ∀ part ∈ e'.inspected, part.Anchored c.toContext c'.toContext)
    {ok : Unit → CheckState → Unit → CheckState → Prop} (hok : ok () c () c') :
    Follows c c' (checkOptional e) (checkOptional e) ok := by
  cases e with
  | none => exact hok
  | some e => exact follows_bind (follows_hint h (hparts e List.mem_cons_self) fun _ => hok)

theorem follows_resolve (h : c.Forgets c') (type : TypeExpr) (place : Location) :
    Follows c c' (resolve type place) (resolve type place) fun r d r' d' =>
      r' = r ∧ d.Forgets d' := by
  rw [Follows, resolve]
  cases hs : (c.types.resolve type).answer with
  | error e => trivial
  | ok r =>
    dsimp only
    rw [Yields, resolve]
    simp only [h.types, hs]
    exact ⟨trivial, h.resolved _ _ _⟩

theorem goesOn_declare (h : c.Forgets c') (name : String) (type : ResolvedType) :
    GoesOn c c' (declare name type) (declare name type) := by
  have hdepth := h.depth
  show CheckState.Forgets _ _
  dsimp only
  cases hc : c.scopes with
  | nil =>
    have hc' : c'.scopes = [] := by rwa [hc, List.length_nil, List.length_eq_zero_iff] at hdepth
    rw [hc']
    exact h
  | cons scope outer =>
    rw [hc, List.length_cons] at hdepth
    obtain ⟨scope', outer', hc'⟩ := List.exists_cons_of_length_eq_add_one hdepth
    rw [hc'] at hdepth ⊢
    refine ⟨h.symbols, h.types, hdepth, fun n other => ?_, h.function, h.loops⟩
    have hseen := h.seen n other
    rw [hc, hc'] at hseen
    cases n with
    | zero =>
      rw [List.drop_zero, List.drop_zero, Scope.seen?_cons, Scope.seen?_cons] at hseen ⊢
      rw [Table.get?_insert, Table.get?_insert]
      split
      · exact .refl _
      · exact hseen
    | succ n => exact hseen

/-- What comes next starts in the states in which both have ended. -/
theorem follows_then {x : Check Unit} {f : Unit → Check α}
    {ok : α → CheckState → α → CheckState → Prop} (hx : GoesOn c c' x x)
    (hf : (x.after c).Forgets (x.after c') →
      Follows (x.after c) (x.after c') (f ()) (f ()) ok) :
    Follows c c' (x >>= f) (x >>= f) ok := by
  refine follows_bind (hx.run.mono ?_)
  rintro _ d _ d' ⟨hd, hrun, hrun'⟩
  rw [after_of_ok hrun, after_of_ok hrun'] at hf
  exact hf hd

/-- What is entered before a check and left after it. -/
private theorem follows_enclosed {x x' : Check α} {y y' : Check β} {s s' : CheckState}
    {leave : CheckState → CheckState} {result : α → CheckState → β}
    {ok : α → CheckState → α → CheckState → Prop} {ok' : β → CheckState → β → CheckState → Prop}
    (hinside : Follows s s' x x' ok)
    (hy : y c = match x s with
      | .ok a d => .ok (result a d) (leave d)
      | .error e d => .error e (leave d))
    (hy' : y' c' = match x' s' with
      | .ok a d => .ok (result a d) (leave d)
      | .error e d => .error e (leave d))
    (hleave : ∀ a d a' d', ok a d a' d' →
      ok' (result a d) (leave d) (result a' d') (leave d')) :
    Follows c c' y y' ok' := by
  rw [Follows, hy]
  rw [Follows] at hinside
  split at hinside
  · next a d hx =>
    rw [hx]
    dsimp only
    rw [Yields] at hinside ⊢
    rw [hy']
    split at hinside
    · next hx' =>
      rw [hx']
      exact hleave _ _ _ _ hinside
    · exact hinside.elim
  · next hx =>
    rw [hx]
    trivial

variable {x : Check Unit} {scope scope' : Scope}

theorem follows_withScope {ok : Unit → CheckState → Unit → CheckState → Prop}
    (hinside : Follows (c.enterScope scope) (c'.enterScope scope') x x ok)
    {ok' : Unit × Scope → CheckState → Unit × Scope → CheckState → Prop}
    (hleave : ∀ d d', ok () d () d' →
      ok' ((), d.scopes.headD Table.empty) { d with scopes := d.scopes.tail }
        ((), d'.scopes.headD Table.empty) { d' with scopes := d'.scopes.tail }) :
    Follows c c' (withScope scope x) (withScope scope' x) ok' :=
  follows_enclosed hinside rfl rfl fun _ d _ d' => hleave d d'

theorem goesOn_inScope (hinside : GoesOn (c.enterScope scope) (c'.enterScope scope') x x) :
    GoesOn c c' (inScope scope x) (inScope scope' x) :=
  follows_bind (follows_withScope hinside fun _ _ h => h.leaveScope)

theorem goesOn_withLoop (hinside : GoesOn c.enterLoop c'.enterLoop x x) :
    GoesOn c c' (withLoop x) (withLoop x) :=
  follows_enclosed hinside rfl rfl fun _ _ _ _ h => h.leaveLoop

theorem goesOn_withFunction (name : String) (signature : Signature)
    (hinside : GoesOn (c.enterFunction name signature) (c'.enterFunction name signature) x x) :
    GoesOn c c' (withFunction name signature x) (withFunction name signature x) :=
  follows_enclosed hinside rfl rfl fun _ _ _ _ h => h.inFunction none

end Check

/-! ### Statements whose types are not lent -/

/-- The state in which the check of a statement looks into the expressions of the statement itself,
if it starts in the state `c`. -/
def Stmt.lookState (c : CheckState) : Stmt → CheckState
  | .declare tag _ type _ => (resolve type tag.location).after c
  | .doWhile _ body _ => (withLoop (checkSuite body)).after c
  | .expr _ _ | .assign _ _ _ | .ret _ _ | .print _ _ | .branch _ _ _ _ | .forRange _ _ _ _ _ _
  | .whileLoop _ _ _ | .jump _ _ | .select _ _ _ => c

/-- An expression whose type decides how the check of the statement goes on is anchored: a counting
loop gives its counter the type of the start, and must not uncover anything; a `match` takes
integers and truth values only. -/
def Stmt.AnchoredItself (c c' : CheckState) : Stmt → Prop
  | .forRange _ counter start _ _ _ =>
    start.Anchored c.toContext c'.toContext ∧ ¬ c.toContext.Uncovers c'.toContext counter start
  | .select _ scrutinee _ => scrutinee.Anchored c.toContext c'.toContext
  | .expr _ _ | .declare _ _ _ _ | .assign _ _ _ | .ret _ _ | .print _ _ | .branch _ _ _ _
  | .whileLoop _ _ _ | .doWhile _ _ _ | .jump _ _ => True

instance (c c' : CheckState) : (s : Stmt) → Decidable (s.AnchoredItself c c')
  | .forRange _ _ start _ _ _ => inferInstanceAs (Decidable (start.Anchored _ _ ∧ ¬ _))
  | .select _ scrutinee _ => inferInstanceAs (Decidable (scrutinee.Anchored _ _))
  | .expr _ _ | .declare _ _ _ _ | .assign _ _ _ | .ret _ _ | .print _ _ | .branch _ _ _ _
  | .whileLoop _ _ _ | .doWhile _ _ _ | .jump _ _ => .isTrue trivial

/-- All types that the statement itself looks into are anchored. -/
def Stmt.Anchored (c c' : CheckState) (s : Stmt) : Prop :=
  s.AnchoredItself c c' ∧ ∀ e ∈ s.exprs, ∀ part ∈ e.inspected,
    part.Anchored (s.lookState c).toContext (s.lookState c').toContext

instance (c c' : CheckState) (s : Stmt) : Decidable (s.Anchored c c') :=
  inferInstanceAs (Decidable (_ ∧ ∀ e ∈ s.exprs, ∀ part ∈ e.inspected, _))

/-- The statements that two checks come to, side by side, are anchored. -/
def Visit.Anchored (visits visits' : List Visit) : Prop :=
  ∀ pair ∈ visits.zip visits', pair.1.stmt.Anchored pair.1.state pair.2.state

instance (visits visits' : List Visit) : Decidable (Visit.Anchored visits visits') :=
  inferInstanceAs (Decidable (∀ pair ∈ visits.zip visits', _))

/-- The statements of the item are anchored in the states in which two checks of it come to them,
of which the second one knows fewer names. -/
def Item.Anchored (types : TypeEnv) (symbols symbols' : Symbols) (item : Item) : Prop :=
  Visit.Anchored (item.visits (.initial types symbols)) (item.visits (.initial types symbols'))

instance (types : TypeEnv) (symbols symbols' : Symbols) (item : Item) :
    Decidable (item.Anchored types symbols symbols') :=
  inferInstanceAs (Decidable (Visit.Anchored _ _))

namespace Visit

theorem anchored_cons {c c' : CheckState} {s : Stmt} {visits visits' : List Visit} :
    Anchored (⟨c, s⟩ :: visits) (⟨c', s⟩ :: visits') ↔
      s.Anchored c c' ∧ Anchored visits visits' := by
  rw [Anchored, List.zip_cons_cons, List.forall_mem_cons, Anchored]

theorem anchored_append {visits visits' more more' : List Visit}
    (h : visits.length = visits'.length) :
    Anchored (visits ++ more) (visits' ++ more') ↔
      Anchored visits visits' ∧ Anchored more more' := by
  rw [Anchored, List.zip_append h, List.forall_mem_append, Anchored, Anchored]

end Visit

/-- In as many loops, the check of a statement comes to as many others. -/
theorem Stmt.length_visits (s : Stmt) {c c' : CheckState} (h : c'.loops = c.loops) :
    (s.visits c).length = (s.visits c').length := by
  rw [← List.length_map Visit.level, s.map_level_visits, ← h, ← s.map_level_visits,
    List.length_map]

theorem Suite.length_visits (suite : Suite) {c c' : CheckState} (h : c'.loops = c.loops) :
    (suite.visits c).length = (suite.visits c').length := by
  rw [← List.length_map Visit.level, suite.map_level_visits, ← h, ← suite.map_level_visits,
    List.length_map]

/-! ### Statements side by side -/

section

variable {c c' : CheckState}

theorem follows_checkScrutinee {e : Expr} (h : c.Forgets c')
    (hparts : ∀ part ∈ e.inspected, part.Anchored c.toContext c'.toContext)
    (he : e.Anchored c.toContext c'.toContext)
    {ok : Unit → CheckState → Unit → CheckState → Prop} (hok : ok () c () c') :
    Follows c c' (checkScrutinee e) (checkScrutinee e) ok := by
  refine follows_bind (follows_hint h hparts fun hvaguer => ?_)
  have hless := hvaguer he
  cases htype : c.known e with
  | none =>
    rw [htype] at hless
    rw [hless.eq_none]
    exact hok
  | some known =>
    cases hlike : known.isIntegerLike with
    | false =>
      simp only [hlike, Bool.not_false, if_true]
      trivial
    | true =>
      simp only [hlike, Bool.not_true, Bool.false_eq_true, if_false]
      cases htype' : c'.known e with
      | none => exact hok
      | some known' =>
        obtain ⟨_, hknown, hpasses⟩ := hless known' htype'
        cases htype.symm.trans hknown
        have hlike' := ResolvedType.isIntegerLike_of_passesFor hpasses hlike
        simp only [hlike', Bool.not_true, Bool.false_eq_true, if_false]
        exact hok

theorem follows_checkPattern (seen : List Int) (pattern : Pattern)
    {ok : List Int → CheckState → List Int → CheckState → Prop}
    (hok : ∀ seen', ok seen' c seen' c') :
    Follows c c' (checkPattern seen pattern) (checkPattern seen pattern) ok := by
  cases pattern with
  | wildcard => exact hok seen
  | value e =>
    rw [checkPattern]
    split
    · trivial
    · split
      · trivial
      · exact hok _

theorem goesOn_jump (h : c.Forgets c') (tag : Tag) (jump : Jump) :
    GoesOn c c' (checkStmt (.jump tag jump)) (checkStmt (.jump tag jump)) := by
  rw [checkStmt]
  refine follows_bind (show Follows c c' (get : Check CheckState) get _ from ?_)
  show Follows c c' (if c.loops = 0 then _ else _) (if c'.loops = 0 then _ else _) _
  rw [h.loops]
  split
  · trivial
  · exact h

theorem goesOn_declaration (h : c.Forgets c') (tag : Tag) (name : String) (type : TypeExpr)
    (init : Option Expr) (ha : (Stmt.declare tag name type init).Anchored c c') :
    GoesOn c c' (checkStmt (.declare tag name type init))
      (checkStmt (.declare tag name type init)) := by
  rw [checkStmt]
  refine follows_bind ((follows_resolve h type tag.location).run.mono ?_)
  rintro r d _ d' ⟨⟨rfl, hd⟩, hrun, hrun'⟩
  obtain ⟨-, hinit⟩ := ha
  rw [Stmt.lookState, Stmt.lookState, after_of_ok hrun, after_of_ok hrun'] at hinit
  exact follows_bind (follows_checkOptional init hd hinit (goesOn_declare hd name _))

/-- The body of a counting loop, in which the counter may be bound in the first check only. -/
theorem goesOn_forRange (h : c.Forgets c') (tag : Tag) (counter : String) (start stop : Expr)
    (step : Option Expr) (body : Suite)
    (ha : (Stmt.forRange tag counter start stop step body).Anchored c c')
    (hbody : ∀ d d' : CheckState, d.Forgets d' →
      Visit.Anchored (body.visits d) (body.visits d') →
      GoesOn d d' (checkSuite body) (checkSuite body))
    (hvisits : Visit.Anchored
      (body.visits (c.enterScope (counterScope counter (c.known start))).enterLoop)
      (body.visits (c'.enterScope (counterScope counter (c'.known start))).enterLoop)) :
    GoesOn c c' (checkStmt (.forRange tag counter start stop step body))
      (checkStmt (.forRange tag counter start stop step body)) := by
  obtain ⟨⟨hstart, huncovers⟩, hexprs⟩ := ha
  obtain ⟨hparts, hexprs⟩ := List.forall_mem_cons.1 hexprs
  obtain ⟨hstop, hstep⟩ := List.forall_mem_cons.1 hexprs
  rw [checkStmt]
  refine follows_bind (follows_hint h hparts fun hvaguer => ?_)
  have huncovered (seen : ResolvedType) (hseen : seen ∈ c'.lookup? counter) :
      ¬ seen.Supplants (c'.known start) (c.known start) :=
    fun hsupplants => huncovers ⟨seen, hseen, hsupplants⟩
  have hinside := (h.enterCounter counter (hvaguer hstart) huncovered).enterLoop
  refine follows_bind (follows_checkOptional (some stop) h (List.forall_mem_singleton.2 hstop) ?_)
  refine follows_bind (follows_checkOptional step h hstep ?_)
  exact goesOn_inScope (goesOn_withLoop (hbody _ _ hinside hvisits))

mutual

/-- After names have been forgotten, the check of a statement goes on as before, if all that it
comes to is anchored. -/
theorem goesOn_checkStmt : (s : Stmt) → {c c' : CheckState} → c.Forgets c' →
    Visit.Anchored (s.visits c) (s.visits c') →
      GoesOn c c' (checkStmt s) (checkStmt s)
  | .expr _ value, _, _, h, ha => by
    rw [checkStmt]
    exact follows_checkOptional (some value) h (Visit.anchored_cons.1 ha).1.2 h
  | .declare tag name type init, _, _, h, ha =>
    goesOn_declaration h tag name type init (Visit.anchored_cons.1 ha).1
  | .assign _ target value, _, _, h, ha => by
    rw [checkStmt]
    obtain ⟨htarget, hvalue⟩ := List.forall_mem_cons.1 (Visit.anchored_cons.1 ha).1.2
    exact follows_bind (follows_checkOptional (some target) h
      (List.forall_mem_singleton.2 htarget) (follows_checkOptional (some value) h hvalue h))
  | .ret _ value, _, _, h, ha => by
    rw [checkStmt]
    exact follows_checkOptional value h (Visit.anchored_cons.1 ha).1.2 h
  | .print _ args, _, _, h, ha => by
    rw [checkStmt]
    exact goesOn_hintAll h (Visit.anchored_cons.1 ha).1.2
  | .branch _ condition thenSuite elseSuite, _, _, h, ha => by
    obtain ⟨hself, hinside⟩ := Visit.anchored_cons.1 ha
    obtain ⟨hthen, helse⟩ := (Visit.anchored_append (thenSuite.length_visits h.loops)).1 hinside
    rw [checkStmt]
    exact follows_bind (follows_checkOptional (some condition) h hself.2
      (follows_then (goesOn_checkSuite thenSuite h hthen) fun hd =>
        goesOn_checkElse elseSuite hd helse))
  | .forRange tag counter start stop step body, _, _, h, ha => by
    obtain ⟨hself, hbody⟩ := Visit.anchored_cons.1 ha
    exact goesOn_forRange h tag counter start stop step body hself
      (fun _ _ => goesOn_checkSuite body) hbody
  | .whileLoop _ condition body, _, _, h, ha => by
    obtain ⟨hself, hbody⟩ := Visit.anchored_cons.1 ha
    rw [checkStmt]
    exact follows_bind (follows_checkOptional (some condition) h hself.2
      (goesOn_withLoop (goesOn_checkSuite body h.enterLoop hbody)))
  | .doWhile _ body condition, _, _, h, ha => by
    obtain ⟨⟨-, hself⟩, hbody⟩ := Visit.anchored_cons.1 ha
    rw [checkStmt]
    exact follows_then (goesOn_withLoop (goesOn_checkSuite body h.enterLoop hbody)) fun hd =>
      follows_checkOptional (some condition) hd hself hd
  | .jump tag jump, _, _, h, _ => goesOn_jump h tag jump
  | .select _ scrutinee arms, _, _, h, ha => by
    obtain ⟨⟨hscrutinee, hself⟩, harms⟩ := Visit.anchored_cons.1 ha
    rw [checkStmt]
    exact follows_bind (follows_checkScrutinee h (List.forall_mem_cons.1 hself).1 hscrutinee
      (goesOn_checkArms [] arms h harms))

theorem goesOn_checkSuite : (suite : Suite) → {c c' : CheckState} → c.Forgets c' →
    Visit.Anchored (suite.visits c) (suite.visits c') →
      GoesOn c c' (checkSuite suite) (checkSuite suite)
  | .mk _ stmts, _, _, h, ha => by
    rw [checkSuite]
    exact goesOn_inScope (goesOn_checkStmts stmts (h.enterSame Table.empty) ha)

theorem goesOn_checkStmts : (ss : List Stmt) → {c c' : CheckState} → c.Forgets c' →
    Visit.Anchored (Stmt.visitsAll c ss) (Stmt.visitsAll c' ss) →
      GoesOn c c' (checkStmts ss) (checkStmts ss)
  | [], _, _, h, _ => h
  | s :: ss, _, _, h, ha => by
    obtain ⟨hs, hss⟩ := (Visit.anchored_append (s.length_visits h.loops)).1 ha
    rw [checkStmts]
    exact follows_then (goesOn_checkStmt s h hs) fun hd => goesOn_checkStmts ss hd hss

theorem goesOn_checkElse : (suite : Option Suite) → {c c' : CheckState} → c.Forgets c' →
    Visit.Anchored (Suite.visitsElse c suite) (Suite.visitsElse c' suite) →
      GoesOn c c' (checkElse suite) (checkElse suite)
  | none, _, _, h, _ => h
  | some suite, _, _, h, ha => goesOn_checkSuite suite h ha

theorem goesOn_checkArms : (seen : List Int) → (arms : List Arm) → {c c' : CheckState} →
    c.Forgets c' → Visit.Anchored (Arm.visitsAll c arms) (Arm.visitsAll c' arms) →
      GoesOn c c' (checkArms seen arms) (checkArms seen arms)
  | _, [], _, _, h, _ => h
  | seen, .mk _ pattern body :: arms, _, _, h, ha => by
    obtain ⟨hbody, harms⟩ := (Visit.anchored_append (body.length_visits h.loops)).1 ha
    rw [checkArms]
    refine follows_bind (follows_checkPattern seen pattern fun _ => ?_)
    exact follows_then (goesOn_checkSuite body h hbody) fun hd =>
      goesOn_checkArms _ arms hd harms

end

end

/-! ### Items side by side -/

theorem follows_resolveParams (place : Location) (params : List Binding) {c c' : CheckState}
    (h : c.Forgets c') :
    Follows c c' (resolveParams place params) (resolveParams place params) fun types d types' d' =>
      types' = types ∧ d.Forgets d' := by
  induction params generalizing c c' with
  | nil => exact ⟨rfl, h⟩
  | cons param params ih =>
    refine follows_bind ((follows_resolve h param.type place).mono ?_)
    rintro r d _ d' ⟨rfl, hd⟩
    refine follows_bind ((ih hd).mono ?_)
    rintro rs b _ b' ⟨rfl, hb⟩
    exact ⟨rfl, hb⟩

theorem follows_resolveSignature (proto : Prototype) {c c' : CheckState} (h : c.Forgets c') :
    Follows c c' (resolveSignature proto) (resolveSignature proto)
      fun signature d signature' d' => signature' = signature ∧ d.Forgets d' := by
  refine follows_bind ((follows_resolveParams proto.location proto.params h).mono ?_)
  rintro rs d _ d' ⟨rfl, hd⟩
  refine follows_bind ((follows_resolve hd proto.result proto.location).mono ?_)
  rintro r b _ b' ⟨rfl, hb⟩
  exact ⟨rfl, hb⟩

/-- What is declared after both is declared alike. -/
theorem Table.forall_get?_insert {α : Type} {table table' : Table α}
    (h : ∀ name value, table'.get? name = some value → table.get? name = some value) (key : String)
    (new : α) : ∀ name value, (table'.insert key new).get? name = some value →
      (table.insert key new).get? name = some value := by
  intro name value hvalue
  rw [Table.get?_insert] at hvalue ⊢
  split at hvalue
  · next hkey => rwa [if_pos hkey]
  · next hkey =>
    rw [if_neg hkey]
    exact h name value hvalue

theorem Table.forall_get?_merge {α : Type} {table table' : Table α}
    (h : ∀ name value, table'.get? name = some value → table.get? name = some value)
    (other : Table α) : ∀ name value, (table'.merge other).get? name = some value →
      (table.merge other).get? name = some value := by
  rw [Table.merge, Table.merge]
  induction other.entries generalizing table table' with
  | nil => exact h
  | cons entry entries ih => exact ih (Table.forall_get?_insert h entry.1 entry.2)

/-- Two checks that have declared the same: all names of the second one are known in the first one,
with the same types. -/
def CheckState.PublishAlike (c c' : CheckState) : Prop :=
  c'.types = c.types ∧ c.symbols.Forgets c'.symbols

theorem follows_declareFunction (name : String) (signature : Signature) {c c' : CheckState}
    (h : c.Forgets c') :
    Follows c c' (declareFunction name signature) (declareFunction name signature)
      fun _ d _ d' => d.PublishAlike d' :=
  ⟨h.types, h.symbols.globals, Table.forall_get?_insert h.symbols.functions name signature⟩

theorem follows_function (proto : Prototype) (body : Suite) (place : Location) {c c' : CheckState}
    (h : c.Forgets c')
    (ha : Visit.Anchored (Item.visits c ⟨.function proto body, place⟩)
      (Item.visits c' ⟨.function proto body, place⟩)) :
    Follows c c' (checkItem ⟨.function proto body, place⟩) (checkItem ⟨.function proto body, place⟩)
      fun _ d _ d' => d.PublishAlike d' := by
  rw [checkItem]
  refine follows_bind ((follows_resolveSignature proto h).run.mono ?_)
  rintro _ d signature d' ⟨⟨rfl, hd⟩, hrun, hrun'⟩
  rw [Item.visits, Item.visits] at ha
  dsimp only at ha
  rw [hrun, hrun'] at ha
  have hinside :=
    (hd.inFunction (some (proto.name, signature))).enterSame (paramScope proto signature)
  have hbody := goesOn_checkSuite body hinside ha
  refine follows_bind ((goesOn_withFunction proto.name signature (goesOn_inScope hbody)).mono ?_)
  exact fun _ b _ b' hb => follows_declareFunction proto.name signature hb

theorem Stmt.scopesAfter_congr (s : Stmt) {c c' : CheckState} (htypes : c'.types = c.types)
    (hscopes : c'.scopes = c.scopes) : s.scopesAfter c' = s.scopesAfter c := by
  cases s <;> simp only [Stmt.scopesAfter, htypes, hscopes]

/-- A statement outside any function declares the same globals in both checks. -/
theorem follows_statement (stmt : Stmt) (place : Location) {c c' : CheckState}
    (h : c.Forgets c') (hscopes : c'.scopes = c.scopes)
    (ha : Visit.Anchored (Item.visits c ⟨.statement stmt, place⟩)
      (Item.visits c' ⟨.statement stmt, place⟩)) :
    Follows c c' (checkItem ⟨.statement stmt, place⟩) (checkItem ⟨.statement stmt, place⟩)
      fun _ d _ d' => d.PublishAlike d' := by
  have hinside : Follows (c.enterScope Table.empty) (c'.enterScope Table.empty) (checkStmt stmt)
      (checkStmt stmt) fun _ d _ d' => d.Forgets d' ∧ d'.scopes = d.scopes := by
    refine (goesOn_checkStmt stmt (h.enterSame Table.empty) ha).run.mono ?_
    rintro _ d _ d' ⟨hd, hrun, hrun'⟩
    refine ⟨hd, ?_⟩
    rw [(yields_scopes _ stmt).ok hrun, (yields_scopes _ stmt).ok hrun']
    exact stmt.scopesAfter_congr h.types (congrArg (Table.empty :: ·) hscopes)
  rw [checkItem]
  refine follows_bind (follows_withScope hinside fun d d' hd => ?_)
  dsimp only
  rw [hd.2]
  exact ⟨hd.1.types, Table.forall_get?_merge hd.1.symbols.globals _, hd.1.symbols.functions⟩

/-- An item that is accepted is accepted with fewer names as well, and declares the same. This is so
unless arithmetic whose type is looked into takes the type of its right operand where that of the
left one is forgotten, or a counting loop shows an outer variable where the type of its counter is
forgotten, and the type that is seen does not pass for the forgotten one. -/
theorem checkItem_of_forgets {types : TypeEnv} {symbols symbols' : Symbols}
    (forgets : symbols.Forgets symbols') {item : Item}
    (anchored : item.Anchored types symbols symbols') {s : CheckState}
    (accepted : (checkItem item).run (.initial types symbols) = .ok () s) :
    ∃ t, (checkItem item).run (.initial types symbols') = .ok () t ∧ t.types = s.types ∧
      s.symbols.Forgets t.symbols := by
  have hstart := CheckState.Forgets.initial types forgets
  have hfollows : Follows (.initial types symbols) (.initial types symbols') (checkItem item)
      (checkItem item) fun _ s _ t => s.PublishAlike t := by
    obtain ⟨shape, place⟩ := item
    cases shape with
    | function proto body => exact follows_function proto body place hstart anchored
    | external proto =>
      refine follows_bind ((follows_resolveSignature proto hstart).mono ?_)
      rintro _ d signature d' ⟨rfl, hd⟩
      exact follows_declareFunction proto.name signature hd
    | typeAlias | struct => exact ⟨rfl, forgets⟩
    | statement stmt => exact follows_statement stmt place hstart rfl anchored
  obtain ⟨_, t, ht, h⟩ := hfollows.exists_ok accepted
  exact ⟨t, ht, h⟩

/-! ### Items that are refused for want of a name -/

/-- Whether an item passes its check. -/
def accepts (types : TypeEnv) (symbols : Symbols) (item : Item) : Bool :=
  match (checkItem item).run (.initial types symbols) with
  | .ok _ _ => true
  | .error _ _ => false

theorem exists_ok_of_accepts {types : TypeEnv} {symbols : Symbols} {item : Item}
    (h : accepts types symbols item = true) :
    ∃ s, (checkItem item).run (.initial types symbols) = .ok () s := by
  rw [accepts] at h
  split at h
  · next s hs => exact ⟨s, hs⟩
  · cases h

/-- A function of a pointer `p` that compares an expression with a number, inside a statement. -/
def comparingBody (scrutinee : Expr) (around : Suite → Suite) : Item :=
  let place : Location := ⟨1, 1⟩
  let one : Expr := .number ⟨0, place⟩ (.int 1)
  let arm : Arm := .mk place (.value one) (.mk place [.ret ⟨0, place⟩ (some one)])
  ⟨.function ⟨"f", [⟨"p", .pointer (.builtin .i32)⟩], .builtin .i32, place⟩
    (around (.mk place [.select ⟨0, place⟩ scrutinee [arm]])), place⟩

/-- A variable. -/
def varNamed (name : String) : Expr := .var ⟨0, ⟨1, 1⟩⟩ name

/-- The expression `x + p`. -/
def sumOfXP : Expr := .binary ⟨0, ⟨1, 1⟩⟩ .add (varNamed "x") (varNamed "p")

/-- The expression `x + 1`. -/
def sumOfXOne : Expr := .binary ⟨0, ⟨1, 1⟩⟩ .add (varNamed "x") (.number ⟨0, ⟨1, 1⟩⟩ (.int 1))

/-- The body of a loop that counts from `x`. -/
def countingFromX (counter : String) (body : Suite) : Suite :=
  .mk ⟨1, 1⟩ [.forRange ⟨0, ⟨1, 1⟩⟩ counter (varNamed "x") (varNamed "x") none body]

/-- One global `x`. -/
def onlyX : Symbols := ⟨Table.empty, Table.empty.insert "x" (.int 32 true)⟩

theorem onlyX_forgets_empty : onlyX.Forgets Symbols.empty :=
  ⟨fun _ _ h => (nomatch h), fun _ _ h => (nomatch h)⟩

/-- A sum with an unknown left operand takes the type of the right one, and a counter without a type
shows a variable outside. -/
theorem not_accepts_of_forgets :
    onlyX.Forgets Symbols.empty ∧
      (accepts .initial onlyX (comparingBody sumOfXP id) = true ∧
        accepts .initial .empty (comparingBody sumOfXP id) = false) ∧
      accepts .initial onlyX (comparingBody (varNamed "p") (countingFromX "p")) = true ∧
        accepts .initial .empty (comparingBody (varNamed "p") (countingFromX "p")) = false :=
  ⟨onlyX_forgets_empty, by cbv, by cbv⟩

/-- A loop that counts `i` from `x`, around a `match` on `x + 1`, is anchored without `x`: no outer
variable is called `i`, and one integer type passes for another. -/
theorem checkItem_of_forgets_counting :
    onlyX.Forgets Symbols.empty ∧
      (comparingBody sumOfXOne (countingFromX "i")).Anchored .initial onlyX .empty ∧
      ∃ s t,
        (checkItem (comparingBody sumOfXOne (countingFromX "i"))).run (.initial .initial onlyX) =
          .ok () s ∧
        (checkItem (comparingBody sumOfXOne (countingFromX "i"))).run (.initial .initial .empty) =
          .ok () t ∧
        t.types = s.types ∧ s.symbols.Forgets t.symbols := by
  have anchored : (comparingBody sumOfXOne (countingFromX "i")).Anchored .initial onlyX .empty := by
    decide_cbv
  have haccepts : accepts .initial onlyX (comparingBody sumOfXOne (countingFromX "i")) = true := by
    cbv
  obtain ⟨s, hs⟩ := exists_ok_of_accepts haccepts
  obtain ⟨t, ht⟩ := checkItem_of_forgets onlyX_forgets_empty anchored hs
  exact ⟨onlyX_forgets_empty, anchored, s, t, hs, ht⟩

/-- The items that are refused are not anchored. -/
example :
    ¬ (comparingBody sumOfXP id).Anchored .initial onlyX .empty ∧
      ¬ (comparingBody (varNamed "p") (countingFromX "p")).Anchored .initial onlyX .empty := by
  decide_cbv

end Offside
