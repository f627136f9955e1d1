import AsyncScheduler.Common.ErrorHandling
import AsyncScheduler.Models.Dag
import AsyncScheduler.Shared.PyValue

/-!
# Conditions of DAG steps

The evaluator of `DagEngine._eval_node` over syntax trees. The parser is Python's own and is a
parameter.
-/

namespace AsyncScheduler

inductive CompareOp where
  | eq | notEq | lt | ltE | gt | gtE | isIn | notIn | is | isNot
  deriving DecidableEq, Repr

inductive BoolOp where
  | and | or
  deriving DecidableEq, Repr

inductive UnaryOp where
  | not | uAdd | uSub | invert
  deriving DecidableEq, Repr

/-- What `ast.parse` makes of a condition. -/
inductive Expr where
  -- `none`: a constant of a type that a condition has no use for
  | constant (value : Option JsonValue)
  | name (id : String)
  | compare (left : Expr) (rest : List (CompareOp × Expr))
  | boolOp (op : BoolOp) (values : List Expr)
  | unaryOp (op : UnaryOp) (operand : Expr)
  | attribute (value : Expr) (attr : String)
  -- A node of any other class
  | other (className : String)

def className (s : String) : String := "<class '" ++ s ++ "'>"

namespace CompareOp

def ordering (symbol : String) (holds : Ordering → Bool) (left right : JsonValue) : Except PyErr Bool :=
  match left.order right with
  | some o => .ok (holds o)
  | none => .error (.typeError ("'" ++ symbol ++ "' not supported between instances of '" ++ left.typeName ++
      "' and '" ++ right.typeName ++ "'"))

def test : CompareOp → JsonValue → JsonValue → Except PyErr Bool
  | .eq, l, r => .ok (l.equals r)
  | .notEq, l, r => .ok (!l.equals r)
  | .lt, l, r => ordering "<" (· = .lt) l r
  | .ltE, l, r => ordering "<=" (· ≠ .gt) l r
  | .gt, l, r => ordering ">" (· = .gt) l r
  | .gtE, l, r => ordering ">=" (· ≠ .lt) l r
  -- The `TypeError` of a membership test is caught
  | .isIn, l, r => .ok ((r.contains l).getD false)
  | .notIn, l, r => .ok (((r.contains l).map (!·)).getD false)
  | .is, _, _ => .error (.valueError ("Unsupported comparison op: " ++ className "ast.Is"))
  | .isNot, _, _ => .error (.valueError ("Unsupported comparison op: " ++ className "ast.IsNot"))

/-- `result and (left op right)`: once the result is false the operands are not compared. -/
def combine (op : CompareOp) (result : Bool) (left right : JsonValue) : Except PyErr Bool :=
  if result || op = .is || op = .isNot then op.test left right else .ok false

end CompareOp

namespace UnaryOp

def badOperand (symbol : String) (v : JsonValue) : PyErr :=
  .typeError ("bad operand type for unary " ++ symbol ++ ": '" ++ v.typeName ++ "'")

def apply : UnaryOp → JsonValue → Except PyErr JsonValue
  | .not, v => .ok (.bool (!v.truthy))
  | .uAdd, v => (v.asNumber.map fun q => .ok (.num q)).getD (.error (badOperand "+" v))
  | .uSub, v => (v.asNumber.map fun q => .ok (.num (-q))).getD (.error (badOperand "-" v))
  | .invert, _ => .error (.valueError ("Unsupported unary op: " ++ className "ast.Invert"))

end UnaryOp

def BoolOp.apply (values : List JsonValue) : BoolOp → JsonValue
  | .and => .bool (values.all (·.truthy))
  | .or => .bool (values.any (·.truthy))

def attributeOf (attr : String) : JsonValue → Except PyErr JsonValue
  | .obj fields => .ok ((fields.lookup attr).getD .null)
  | v => .error (.valueError ("Attribute access only allowed on dicts: " ++ className v.typeName))

namespace Expr

mutual

def evalNode (localVars : String → JsonValue) : Expr → Except PyErr JsonValue
  | .constant value => .ok (value.getD .null)
  | .name id => .ok (localVars id)
  | .compare left rest => (evalNode localVars left).bind fun l => (evalChain localVars true l rest).map .bool
  | .boolOp op values => (evalAll localVars values).map (op.apply ·)
  | .unaryOp op operand => (evalNode localVars operand).bind op.apply
  | .attribute value attr => (evalNode localVars value).bind (attributeOf attr)
  | .other node => .error (.valueError ("Unsupported AST node: " ++ className node))

def evalChain (localVars : String → JsonValue) (result : Bool) (left : JsonValue) :
    List (CompareOp × Expr) → Except PyErr Bool
  | [] => .ok result
  | (op, e) :: rest => (evalNode localVars e).bind fun right =>
    (op.combine result left right).bind fun result' => evalChain localVars result' right rest

def evalAll (localVars : String → JsonValue) : List Expr → Except PyErr (List JsonValue)
  | [] => .ok []
  | e :: es => (evalNode localVars e).bind fun v => (evalAll localVars es).map (v :: ·)

end

mutual

def names : Expr → List String
  | .constant _ | .other _ => []
  | .name id => [id]
  | .compare left rest => names left ++ chainNames rest
  | .boolOp _ values => allNames values
  | .unaryOp _ operand => names operand
  | .attribute value _ => names value

def chainNames : List (CompareOp × Expr) → List String
  | [] => []
  | (_, e) :: rest => names e ++ chainNames rest

def allNames : List Expr → List String
  | [] => []
  | e :: es => names e ++ allNames es

end

section
variable {v w : String → JsonValue}

mutual

/-- The value of an expression depends on the names it mentions. -/
theorem evalNode_congr (e : Expr) (h : ∀ n ∈ e.names, v n = w n) : e.evalNode v = e.evalNode w := by
  match e with
  | .constant _ => rfl
  | .name id => exact congrArg Except.ok (h id (List.mem_singleton_self id))
  | .compare left rest =>
    rw [names] at h
    rw [evalNode, evalNode, evalNode_congr left fun n hn => h n (List.mem_append_left _ hn)]
    refine congrArg _ (funext fun l => congrArg _ ?_)
    exact evalChain_congr rest true l fun n hn => h n (List.mem_append_right _ hn)
  | .boolOp op values =>
    rw [names] at h
    rw [evalNode, evalNode, evalAll_congr values h]
  | .unaryOp op operand =>
    rw [names] at h
    rw [evalNode, evalNode, evalNode_congr operand h]
  | .attribute value attr =>
    rw [names] at h
    rw [evalNode, evalNode, evalNode_congr value h]
  | .other _ => rfl

theorem evalChain_congr (rest : List (CompareOp × Expr)) (result : Bool) (left : JsonValue)
    (h : ∀ n ∈ chainNames rest, v n = w n) : evalChain v result left rest = evalChain w result left rest := by
  match rest with
  | [] => rfl
  | (op, e) :: rest =>
    rw [chainNames] at h
    rw [evalChain, evalChain, evalNode_congr e fun n hn => h n (List.mem_append_left _ hn)]
    refine congrArg _ (funext fun right => congrArg _ (funext fun result' => ?_))
    exact evalChain_congr rest result' right fun n hn => h n (List.mem_append_right _ hn)

theorem evalAll_congr (es : List Expr) (h : ∀ n ∈ allNames es, v n = w n) : evalAll v es = evalAll w es := by
  match es with
  | [] => rfl
  | e :: es =>
    rw [allNames] at h
    rw [evalAll, evalAll, evalNode_congr e fun n hn => h n (List.mem_append_left _ hn),
      evalAll_congr es fun n hn => h n (List.mem_append_right _ hn)]

end

end

end Expr

namespace DagContext

/-- `{**ctx.context, **ctx.input_data}`. -/
def localVars (ctx : DagContext) (name : String) : JsonValue :=
  ((ctx.inputData.lookup name).or (ctx.context.lookup name)).getD .null

end DagContext

/-- Fail-open: a text that is no expression, and an expression that raises, count as true. -/
def safeEvalCondition (parse : String → Option Expr) (expr : String) (ctx : DagContext) : Bool :=
  match parse expr with
  | none => true
  | some tree =>
    match tree.evalNode ctx.localVars with
    | .ok v => v.truthy
    | .error _ => true

def conditionNames (parse : String → Option Expr) (condition : Option String) : List String :=
  ((condition.bind parse).map Expr.names).getD []

theorem safeEvalCondition_congr {parse : String → Option Expr} {expr : String} {ctx ctx' : DagContext}
    (h : ∀ n ∈ conditionNames parse (some expr), ctx.localVars n = ctx'.localVars n) :
    safeEvalCondition parse expr ctx = safeEvalCondition parse expr ctx' := by
  unfold safeEvalCondition
  cases hp : parse expr with
  | none => rfl
  | some tree =>
    have hn : conditionNames parse (some expr) = tree.names := by simp [conditionNames, hp]
    rw [hn] at h
    dsimp only
    rw [Expr.evalNode_congr tree h]

/-- Only the names of a condition count, by their presence and value among the merged variables. -/
theorem condition_noninterference (parse : String → Option Expr) (expr : String) (ctx ctx' : DagContext)
    (h : ∀ n ∈ conditionNames parse (some expr),
      (ctx.inputData.lookup n).or (ctx.context.lookup n) = (ctx'.inputData.lookup n).or (ctx'.context.lookup n)) :
    safeEvalCondition parse expr ctx = safeEvalCondition parse expr ctx' := by
  refine safeEvalCondition_congr fun n hn => ?_
  rw [DagContext.localVars, DagContext.localVars, h n hn]

theorem condition_noninterference_less :
    let parse := fun _ : String => some (Expr.compare (.name "x") [(.lt, .constant (some (.num 3)))])
    let ctx : DagContext := { taskId := "t1", dagId := "d", inputData := [("x", .num 5)], context := [("x", .num 1)] }
    let ctx' : DagContext := { taskId := "t2", dagId := "d", context := [("y", .null), ("x", .num 5)] }
    safeEvalCondition parse "x < 3" ctx = safeEvalCondition parse "x < 3" ctx' ∧
      safeEvalCondition parse "x < 3" ctx = false := by
  intro parse ctx ctx'
  refine ⟨condition_noninterference parse "x < 3" ctx ctx' fun n hn => ?_, by decide⟩
  obtain rfl : n = "x" := List.mem_singleton.mp hn
  rfl

end AsyncScheduler
