import SchemaForge.Proofs.Go.Value
/-! What generated code does: the meaning of its expressions, statements and functions. Whatever
has no meaning, such as a name that nobody has declared or an optional value that is not there,
yields nothing.

Structs are values here. A method may change the struct that it belongs to, which then is changed
under the name that it was called by; generated code never knows one builder by two names. -/
namespace SchemaForge.Go

/-- What is left to the packages that generated code imports. -/
structure Runtime where
  /-- The shortest digits that read back as a number. -/
  formatFloat : Float64 → String
  /-- The text of an error, by its format and what is filled in. -/
  errorText : String → List Value → String
  /-- The text of the error that an attribute was never set. -/
  unsetText : String
  /-- A number without its fraction; those that are too large are left to the machine. -/
  truncate : Float64 → Int64

/-- Names and what they stand for, those of the innermost block first. -/
abbrev Scope := List (String × Value)

/-- Gives a name that is declared another value. -/
def Scope.assign : Scope → String → Value → Scope
  | [], _, _ => []
  | (y, w) :: rest, x, v => if y = x then (x, v) :: rest else (y, w) :: Scope.assign rest x v

/-- Gives a key of a map a value. -/
def putEntry : List (String × Value) → String → Value → List (String × Value)
  | [], key, v => [(key, v)]
  | (k, w) :: rest, key, v => if k = key then (key, v) :: rest else (k, w) :: putEntry rest key v

/-- What a call of a function leaves behind. -/
structure Outcome where
  result : Option Value
  /-- The struct that the method belongs to, as it is afterwards. -/
  receiver : Option Value
  written : ByteArray

/-- The meaning of functions by the struct they belong to, if they do, their name and what they are
called with. -/
abbrev Callee := Option Value → String → List Value → Option Outcome

/-- The order of the bytes of two texts. -/
def compareTexts (s t : String) : Int :=
  if s.toByteArray.data.toList < t.toByteArray.data.toList then -1
  else if t.toByteArray.data.toList < s.toByteArray.data.toList then 1
  else 0

def builtin : String → List Value → Option Value
  | "len", [.slice _ vs] => some (.int vs.length)
  | "append", [.slice items vs, v] => some (.slice items (vs ++ [v]))
  | _, _ => none

/-- Functions of other packages. -/
def Runtime.imported (rt : Runtime) : Package → String → List Value → Option Value
  | .strings, "Compare", [.string s, .string t] => some (.int (compareTexts s t))
  | .attributes, "StringLiteral", [.string s] => some (.literal (Json.quote s))
  | .attributes, "IntegerLiteral", [.int64 n] => some (.literal (Decimal.intText n.toInt))
  | .attributes, "BoolLiteral", [.bool b] => some (.literal (if b then "true" else "false"))
  | .strconv, "FormatFloat", [.float64 x, .int format, .int digits, .int bits] =>
    if format = 'g'.toNat ∧ digits = -1 ∧ bits = 64 then some (.string (rt.formatFloat x)) else none
  | .fmt, "Errorf", .string format :: args => some (.error (rt.errorText format args))
  | _, _, _ => none

/-- Generic functions of other packages, by the type that they are used at. -/
def applied : Package → String → GoType → List Value → Option Value
  | .options, "Some", type, [v] => some (.present (v.as type))
  | .options, "None", _, [] => some .absent
  | .options, "Ok", _, [v] => some (.ok v)
  | .options, "Err", _, [v] => some (.err v)
  | .attributes, "OptionalAttribute", type, [] => some (.unset type)
  | .attributes, "MustAttribute", type, [] => some (.set type type.zero)
  | _, _, _, _ => none

/-- Methods of the values of other packages. -/
def Runtime.method (rt : Runtime) : Value → String → List Value → Option Value
  | .present _, "IsSome", [] => some (.bool true)
  | .absent, "IsSome", [] => some (.bool false)
  | .present _, "IsNone", [] => some (.bool false)
  | .absent, "IsNone", [] => some (.bool true)
  | .present v, "Value", [] => some (.pointer v)
  | .ok _, "IsErr", [] => some (.bool false)
  | .err _, "IsErr", [] => some (.bool true)
  | .ok v, "Ok", [] => some v
  | .err v, "Err", [] => some v
  | .unset _, "IsValid", [] => some (.present (.error rt.unsetText))
  | .set _ _, "IsValid", [] => some .absent
  | .set _ v, "Get", [] => some v
  | .literal text, "String", [] => some (.pointer (.string text))
  | .error text, "Error", [] => some (.string text)
  | _, _, _ => none

def Runtime.convert (rt : Runtime) (type : GoType) : Value → Option Value
  | .string s => if type = .slice (.named "byte") then some (.bytes s.toByteArray) else none
  | .int64 n =>
    if type = .named "int64" then some (.int64 n)
    else if type = .named "float64" then some (.float64 (.ofInt n.toInt)) else none
  | .float64 x =>
    if type = .named "float64" then some (.float64 x)
    else if type = .named "int64" then some (.int64 (rt.truncate x)) else none
  | .int n =>
    if type = .named "int64" then some (.int64 (.ofInt n))
    else if type = .named "float64" then some (.float64 (.ofInt n)) else none
  | _ => none

def compareValue? : BinaryOp → Value → Value → Option Value
  | .less, .int m, .int n => some (.bool (m < n))
  | .greater, .int m, .int n => some (.bool (n < m))
  | .less, .int64 m, .int64 n => some (.bool (m < n))
  | .greater, .int64 m, .int64 n => some (.bool (n < m))
  | .less, .float64 x, .float64 y => some (.bool (x.less y))
  | .greater, .float64 x, .float64 y => some (.bool (y.less x))
  | _, _, _ => none

/-- The value at a place of a slice, or at a key of a map. -/
def Value.at? : Value → Value → Option Value
  | .slice _ vs, .int i => if 0 ≤ i then vs[i.toNat]? else none
  | .map entries, .string key => entries.lookup key
  | _, _ => none

section expressions

variable (rt : Runtime) (call : Callee) (scope : Scope)

mutual

def eval : Expr → Option Value
  | .name x =>
    (scope.lookup x).or <|
      if x = "true" then some (.bool true) else if x = "false" then some (.bool false) else none
  | .field e f =>
    match eval e with
    | some (.struct _ fields) => fields.lookup f
    | _ => none
  | .index e i => (eval e).bind fun v => (eval i).bind v.at?
  | .deref e =>
    match eval e with
    | some (.pointer v) => some v
    | _ => none
  | .not e =>
    match eval e with
    | some (.bool b) => some (.bool !b)
    | _ => none
  | .paren e => eval e
  | .binary .and l r =>
    match eval l with
    | some (.bool true) => eval r
    | some (.bool false) => some (.bool false)
    | _ => none
  | .binary op l r => (eval l).bind fun v => (eval r).bind (compareValue? op v)
  | .number n => some (.int n)
  | .text s => some (.string s)
  | .letter c => some (.int c.toNat)
  | .default v => Value.ofJson v
  | .call (.name f) args =>
    (evalAll args).bind fun vs =>
      (builtin f vs).or ((call none f vs).bind Outcome.result)
  | .call (.imported p f) args => (evalAll args).bind (rt.imported p f)
  | .call (.applied p f type) args => (evalAll args).bind (applied p f type)
  | .call (.field e m) args =>
    (eval e).bind fun v => (evalAll args).bind fun vs =>
      match v with
      | .struct .. => (call (some v) m vs).bind Outcome.result
      | _ => rt.method v m vs
  | .call _ _ => none
  | .imported _ _ | .applied _ _ _ => none
  | .convert type e => (eval e).bind (rt.convert type)
  | .assert e type => (eval e).bind fun v => if v.type? = some type then some v else none
  | .makeSlice (.slice items) room => (eval room).map fun _ => .slice items []
  | .makeSlice _ _ => none
  | .empty (.named type) => some (if .named type = GoType.anyMap then .map [] else .struct type [])
  | .empty _ => none
  | .address e =>
    match eval e with
    | some (.struct type fields) => some (.struct type fields)
    | _ => none
  | .build type fields => (evalFields fields).map (.struct type)

def evalAll : List Expr → Option (List Value)
  | [] => some []
  | e :: es => (eval e).bind fun v => (evalAll es).map (v :: ·)

def evalFields : List (String × Expr) → Option (List (String × Value))
  | [] => some []
  | (f, e) :: rest => (eval e).bind fun v => (evalFields rest).map ((f, v) :: ·)

end

/-- The values of names that are declared together. The second one tells whether the first has its
value from the expression. -/
def evalNames : List String → Expr → Option Scope
  | [x], e => (eval rt call scope e).map fun v => [(x, v)]
  | [x, ok], .assert e type =>
    (eval rt call scope e).map fun v =>
      if v.type? = some type then [(x, v), (ok, .bool true)]
      else [(x, type.zero), (ok, .bool false)]
  | [x, found], .index e i =>
    (eval rt call scope e).bind fun m => (eval rt call scope i).map fun key =>
      match m.at? key with
      | some v => [(x, v), (found, .bool true)]
      | none => [(x, .nil), (found, .bool false)]
  | _, _ => none

end expressions

/-- What a function has at a point: its names, and the bytes that it has written. -/
structure State where
  scope : Scope
  written : ByteArray

/-- Where a statement leads: on to the next one, or out of the function with a result. -/
abbrev Step := Option (State × Option Value)

/-- Goes on from a state unless the function has returned. -/
def Step.next (s : Step) (f : State → Step) : Step :=
  s.bind fun (st, result) =>
    match result with
    | none => f st
    | some v => some (st, some v)

/-- Runs a block, whose names end with it. -/
def inBlock (names : Scope) (body : State → Step) (st : State) : Step :=
  (body { st with scope := names ++ st.scope }).map fun (st', result) =>
    ({ st' with scope := st'.scope.drop (st'.scope.length - st.scope.length) }, result)

/-- Runs a body for so many indexes, from one on. -/
def iterate (body : Nat → State → Step) (i : Nat) : Nat → State → Step
  | 0, st => some (st, none)
  | count + 1, st => (body i st).next (iterate body (i + 1) count)

section statements

variable (rt : Runtime) (call : Callee)

/-- Goes on with the value of an expression. -/
def State.withValue (st : State) (e : Expr) (f : Value → Step) : Step :=
  (eval rt call st.scope e).bind f

/-- Branches on a condition. -/
def State.branch (st : State) (test : Expr) (yes no : State → Step) : Step :=
  st.withValue rt call test fun
    | .bool true => yes st
    | .bool false => no st
    | _ => none

/-- Runs an expression for what it changes. -/
def perform (st : State) : Expr → Step
  | .call (.field target m) args =>
    st.withValue rt call target fun v =>
      (evalAll rt call st.scope args).bind fun vs =>
        match v, target, m, vs with
        | .writer, _, "Write", [.bytes b] => some ({ st with written := st.written ++ b }, none)
        | .unset type, .field (.name x) f, "Set", [w] | .set type _, .field (.name x) f, "Set", [w] =>
          match st.scope.lookup x with
          | some (.struct s fields) =>
            some ({ st with
              scope := st.scope.assign x (.struct s (putEntry fields f (.set type (w.as type)))) },
              none)
          | _ => none
        | .struct .., _, _, _ =>
          (call (some v) m vs).map fun o =>
            let scope := match target, o.receiver with
              | .name x, some v => st.scope.assign x v
              | _, _ => st.scope
            (⟨scope, st.written ++ o.written⟩, none)
        | _, _, _, _ => none
  | _ => none

/-- Gives a name, or a key of a map that has a name, a value. -/
def store (st : State) (v : Value) : Expr → Step
  | .name x => some ({ st with scope := st.scope.assign x v }, none)
  | .index (.name x) key =>
    st.withValue rt call key fun
      | .string key =>
        match st.scope.lookup x with
        | some (.map entries) =>
          some ({ st with scope := st.scope.assign x (.map (putEntry entries key v)) }, none)
        | _ => none
      | _ => none
  | _ => none

mutual

def exec : Stmt → State → Step
  | .run e => fun st => perform rt call st e
  | .define names e => fun st =>
    (evalNames rt call st.scope names e).map fun new =>
      ({ st with scope := new ++ st.scope }, none)
  | .declare x type => fun st => some ({ st with scope := (x, type.zero) :: st.scope }, none)
  | .assign target e => fun st =>
    st.withValue rt call e fun v => store rt call st v target
  | .ret e => fun st => st.withValue rt call e fun v => some (st, some v)
  | .cond test body => fun st =>
    st.branch rt call test (inBlock [] (execAll body)) fun st => some (st, none)
  | .condDefine names e test body => fun st =>
    (evalNames rt call st.scope names e).bind fun new =>
      inBlock new (fun st => st.branch rt call test (execAll body) fun st => some (st, none)) st
  | .condElse test body otherwise => fun st =>
    st.branch rt call test (inBlock [] (execAll body)) (inBlock [] (execAll otherwise))
  | .chain test body arms => fun st =>
    st.branch rt call test (inBlock [] (execAll body)) (execArms arms)
  | .loop index slice body => fun st =>
    st.withValue rt call slice fun
      | .slice _ vs =>
        iterate (fun i => inBlock [(index, .int i)] (execAll body)) 0 vs.length st
      | _ => none
  | .block body => inBlock [] (execAll body)
  | .typeSwitch source target cases otherwise => fun st =>
    st.withValue rt call source fun v =>
      match cases.find? fun c => v.type? = some c.1 with
      | some (_, e) =>
        inBlock [("x", v)]
          (fun st => st.withValue rt call e fun w => store rt call st w (.name target)) st
      | none => inBlock [("x", v)] (execAll otherwise) st

def execAll : List Stmt → State → Step
  | [] => fun st => some (st, none)
  | s :: ss => fun st => (exec s st).next (execAll ss)

def execArms : List (Expr × List Stmt) → State → Step
  | [] => fun st => some (st, none)
  | (test, body) :: arms => fun st =>
    st.branch rt call test (inBlock [] (execAll body)) (execArms arms)

end

end statements

namespace Decl

/-- Whether a call is one of a function. Methods are told apart by how much they are called with,
where a struct has two of one name. -/
def answers (receiver : Option Value) (name : String) (arity : Nat) : Decl → Bool
  | function signature _ =>
    receiver matches none && signature.name == name && signature.params.length == arity
  | method _ type signature _ =>
    (match receiver with
      | some (.struct t _) => t == type
      | _ => false) && signature.name == name && signature.params.length == arity
  | _ => false

/-- Runs the body of a function, with the struct that it belongs to and what it is called with. -/
def apply (rt : Runtime) (call : Callee) (receiver : Option Value) (args : List Value) :
    Decl → Option Outcome
  | function signature body =>
    (execAll rt call body ⟨(signature.params.map Prod.fst).zip args, .empty⟩).map
      fun (st, result) => ⟨result, none, st.written⟩
  | method x _ signature body =>
    receiver.bind fun v =>
      (execAll rt call body ⟨(x, v) :: (signature.params.map Prod.fst).zip args, .empty⟩).map
        fun (st, result) => ⟨result, st.scope.lookup x, st.written⟩
  | _ => none

end Decl

/-- The functions of a package, through at most so many calls inside each other. -/
def callWithin (rt : Runtime) (decls : List Decl) : Nat → Callee
  | 0 => fun _ _ _ => none
  | depth + 1 => fun receiver name args =>
    (decls.find? (·.answers receiver name args.length)).bind
      (·.apply rt (callWithin rt decls depth) receiver args)

/-- A call comes to an end with an outcome, however deep calls may go beyond what it takes. -/
def Ends (rt : Runtime) (decls : List Decl) (receiver : Option Value) (name : String)
    (args : List Value) (o : Outcome) : Prop :=
  ∃ depth, ∀ more, callWithin rt decls (depth + more) receiver name args = some o

end SchemaForge.Go
