import ViewGen.Compile.Options
import ViewGen.Document.Node
import ViewGen.Error
import ViewGen.Naming

/-!
# Expressions for references, conditions and handlers

## Main definitions

* `CompileOptions.reference` — the expression of a reference
* `Test.expr` — the expression that tests a subject
* `CompileOptions.handlers` — the function that runs on an event
-/

namespace ViewGen

namespace CompileOptions

/-- The expression of a reference: `props.title`. -/
def reference (options : CompileOptions) (r : Reference) : Except GenError Expr :=
  match options.qualifiers r.kind with
  | none => .error (.unmapped r)
  | some .bare => .ok (Expr.path r.id)
  | some (.within path) => .ok ((Expr.path path).members (Reference.segments r.id))

/-- The call that a handler stands for. -/
def handlerCall (options : CompileOptions) : Handler → Except GenError Expr
  | .setState state value => do
    let value ← match value with
      | .text s =>
        if s = Handler.toggle then Expr.not <$> options.reference ⟨state, .state⟩
        else pure (.str s)
      | _ => pure (Expr.ofScalar value)
    return .call (.ident (setterName state)) [value]
  | .callProp prop arguments => do
    let callee ← options.reference ⟨prop, .prop⟩
    return .call callee (arguments.map Expr.ofScalar)

/-- The calls that handlers stand for. -/
def handlerCalls (options : CompileOptions) : List Handler → Except GenError (List Expr)
  | [] => .ok []
  | h :: rest => do
    let call ← options.handlerCall h
    let calls ← handlerCalls options rest
    return call :: calls

/-- The function that runs on an event: it returns a single call and runs several in a block. -/
def handlers (options : CompileOptions) (hs : List Handler) : Except GenError Expr := do
  match ← options.handlerCalls hs with
  | [call] => return .arrow [] call
  | calls => return .arrowBlock [] (calls.map .expr)

/-- The expression of a loop's source. -/
def source (options : CompileOptions) : LoopSource → Except GenError Expr
  | .reference r => options.reference r
  | .inline items => .ok (.array (items.map Expr.ofScalar))

end CompileOptions

/-- The comparison of an operation that makes one. -/
def Operation.comparison? : Operation → Option Comparison
  | .equal => some .equal
  | .notEqual => some .notEqual
  | .greater => some .greater
  | .greaterOrEqual => some .greaterOrEqual
  | .less => some .less
  | .lessOrEqual => some .lessOrEqual
  | .truthy | .falsy => none

/-- The expression of a condition on a subject. -/
def Condition.expr (subject : Expr) (c : Condition) : Expr :=
  match c.operation.comparison? with
  | some comparison => .compare comparison subject ((c.operand.map Expr.ofScalar).getD .null)
  | none => if c.operation = .falsy then .not subject else subject

/-- The connective of a quantifier. -/
def Quantifier.connective : Quantifier → Connective
  | .all => .and
  | .any => .or

/-- The expression that tests a subject: its conditions in order, joined by the connective of the
quantifier. Without conditions it is the subject itself. -/
def Test.expr (subject : Expr) (t : Test) : Expr :=
  match t.conditions with
  | [] => subject
  | c :: rest =>
    rest.foldl (fun left c => .logical t.quantifier.connective left (c.expr subject))
      (c.expr subject)

end ViewGen
