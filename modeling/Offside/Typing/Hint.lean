import Offside.Diagnostic.Basic
import Offside.Typing.Context

/-!
# Type hints

The type of an expression as far as it is known. Names that nothing declares have no known type,
and neither has what is computed from them alone; only a contradiction between known types is an
error.

Literals have the widest type of their sort, comparisons and logical operators yield `bool`, and
arithmetic yields the type of a floating-point operand if there is one and else that of its first
operand with a known type.

## Main definitions

* `Offside.Context.hint`: the type of an expression as far as it is known.
* `Offside.arithmeticType`: the type of the result of arithmetic.
-/

namespace Offside

/-- A semantic error at a place. -/
def semanticError (error : SemanticError) (place : Location) : Diagnostic :=
  ⟨.semantic error, place⟩

/-- The type of the result of arithmetic on operands of the given types. -/
def arithmeticType : Option ResolvedType → Option ResolvedType → Option ResolvedType
  | some left, right =>
    if left.isFloat then some left
    else match right with
      | some right => if right.isFloat then some right else some left
      | none => some left
  | none, right => right

/-- The type of the result of a binary operator on operands of the given types. -/
def BinaryOp.resultType (op : BinaryOp) (left right : Option ResolvedType) : Option ResolvedType :=
  if op.isComparison || op.isLogical then some .bool else arithmeticType left right

/-- The type of the result of a unary operator on an operand of the given type. -/
def UnaryOp.resultType (op : UnaryOp) (operand : Option ResolvedType) : Option ResolvedType :=
  match op with
  | .not => some .bool
  | .neg | .bitNot => operand

/-- The type of a literal. -/
def Number.type : Number → ResolvedType
  | .int _ => .int 64 true
  | .float _ => .float 64

namespace Context

variable (context : Context)

/-- The type of an element of a value of type `base`, indexed at `place`. -/
def elementType (base : Option ResolvedType) (place : Location) :
    Except Diagnostic (Option ResolvedType) :=
  match base with
  | none => .ok none
  | some (.pointer element) => .ok (some element)
  | some other => .error (semanticError (.notIndexable (context.types.describe other)) place)

/-- The type of a field of a value of type `object`, selected at `place`. -/
def fieldType (object : Option ResolvedType) (field : String) (place : Location) :
    Except Diagnostic (Option ResolvedType) :=
  match object with
  | none => .ok none
  | some (.struct id) =>
    let layout := context.types.layout id
    match layout.field? field with
    | some found => .ok (some found.type)
    | none => .error (semanticError (.unknownField field layout.name) place)
  | some other => .error (semanticError (.notStruct (context.types.describe other)) place)

mutual

/-- The type of an expression as far as it is known. -/
def hint : Expr → Except Diagnostic (Option ResolvedType)
  | .number _ value => return some value.type
  | .var _ name => return context.lookup? name
  | .addressOf tag place => do
    if !place.isAddressable then throw (semanticError .notAddressable tag.location)
    return (← hint place).map .pointer
  | .index tag base index => do
    let _ ← hint index
    context.elementType (← hint base) tag.location
  | .member tag object field => do
    context.fieldType (← hint object) field tag.location
  | .unary _ op operand => return op.resultType (← hint operand)
  | .binary _ op left right => do
    let left ← hint left
    let right ← hint right
    return op.resultType left right
  | .call _ callee args => do
    hintAll args
    return (context.signature? callee).map (·.result)

/-- Look for contradictions in each of several expressions. -/
def hintAll : List Expr → Except Diagnostic Unit
  | [] => return
  | e :: es => do
    let _ ← hint e
    hintAll es

end

end Context

end Offside
