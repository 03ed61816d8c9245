import TxGraph.DataType.Move
import TxGraph.Lowering.Target

/-!
# The lowering walk

The walk resolves the operands of each operation, encodes literals as pure arguments and packs
lists of handles into vectors. Within one operation a variable is encoded once for each kind.
-/

namespace TxGraph.Lowering

/-- What a name stands for: a value still to be resolved, or a handle. -/
inductive Entry (η : Type)
  | init (value : Operand)
  | bound (handle : η)

/-- A value with all references followed. -/
inductive Resolved (η : Type)
  | literal (value : Literal)
  | handle (handle : η)
  | list (items : List (Resolved η))

/-- The state of the walk. -/
structure Walk (σ η : Type) where
  target : σ
  env : Directory (Entry η)
  /-- The arguments encoded so far in this operation, by kind and symbol. -/
  memo : List ((ParamKind × String) × η)

abbrev WalkM (σ η : Type) := StateT (Walk σ η) (Except LowerError)

/-- What stays the same within an operation. A variable may be followed through at most `depth`
others. -/
structure Context (σ η : Type) where
  target : Target σ η
  site : Site
  sender : Option String
  depth : Nat

variable {σ η : Type}

/-- The literals of resolved values, when all of them are literals. -/
def literals? : List (Resolved η) → Option (List Literal)
  | [] => some []
  | .literal l :: rest => (literals? rest).map (l :: ·)
  | _ :: _ => none

/-- A vector of resolved values; one of literals is a literal. -/
def Resolved.vector (items : List (Resolved η)) : Resolved η :=
  match literals? items with
  | some ls => .literal (.list ls)
  | none => .list items

def constantLiteral : Constant → Literal
  | .bool b => .bool b
  | .string s => .string s
  | .address s => .address s
  | .number digits => .number digits
  | .sender => .sender
  | .bytes bs => .bytes bs

/-- The symbol that names an operand. -/
def symbolOf : Operand → Option String
  | .ref name => some name
  | _ => none

namespace Context

variable (c : Context σ η)

/-- Runs a call of the target. -/
def call {α : Type} (f : σ → Except Refusal (α × σ)) : WalkM σ η α := fun ⟨target, env, memo⟩ =>
  match f target with
  | .ok (a, target) => .ok (a, ⟨target, env, memo⟩)
  | .error (.encode cause) => .error (.encode c.site cause)
  | .error (.uncut cause) => .error (.uncut cause)

/-! ## Resolving -/

/-- Resolves an operand, given how the value of a variable is resolved. -/
def resolveWith (expand : (name : String) → Operand → WalkM σ η (Resolved η)) (slot : Slot) :
    (symbol : Option String) → Operand → WalkM σ η (Resolved η)
  | _, .absent => throw (.undefinedOperand c.site slot)
  | _, .ref name => do
    match Directory.get? (← get).env name with
    | some (.bound handle) => return .handle handle
    | some (.init (.ref _)) => throw (.unresolvedSymbol c.site name)
    | some (.init value) => expand name value
    | none => throw (.unresolvedSymbol c.site name)
  | _, .constant k => return .literal (constantLiteral k)
  | _, .integer width digits => return .literal (.integer width digits)
  | symbol, .object o => return .handle (← c.call (c.target.object o symbol))
  | _, .vector items => return .vector (← resolveItems expand slot items)
where
  resolveItems (expand : (name : String) → Operand → WalkM σ η (Resolved η)) (slot : Slot) :
      List Operand → WalkM σ η (List (Resolved η))
    | [] => return []
    | item :: rest => do
      let item ← resolveWith expand slot none item
      let rest ← resolveItems expand slot rest
      return item :: rest

/-- Resolves an operand through at most `depth` variables. -/
def resolveFrom (slot : Slot) : (depth : Nat) → (symbol : Option String) → Operand →
    WalkM σ η (Resolved η)
  | 0 => c.resolveWith (fun name _ => throw (.circular c.site name)) slot
  | depth + 1 =>
    c.resolveWith (fun name value => resolveFrom slot depth (some name) value) slot

def resolve (slot : Slot) (value : Operand) : WalkM σ η (Resolved η) :=
  c.resolveFrom slot c.depth (symbolOf value) value

/-! ## Encoding -/

/-- Encodes a literal, or finds it encoded. -/
def encodeLiteral (kind : ParamKind) (value : Literal) (symbol : Option String) : WalkM σ η η := do
  let memo := (← get).memo
  match symbol.bind fun s => memo.lookup (kind, s) with
  | some handle => return handle
  | none =>
    let value := c.sender.elim value fun s => value.withSender s
    let handle ← c.call (c.target.pure kind value symbol)
    match symbol with
    | none => return handle
    | some s =>
      modify fun w => { w with memo := ((kind, s), handle) :: w.memo }
      return handle

/-- The kind of the elements of a list that is given to a parameter. -/
def elemKind : ParamKind → ParamKind
  | .vector elem => elem
  | kind => kind

/-- The handle of a resolved value at a kind. A list of handles becomes a vector of its own. -/
def encode (kind : ParamKind) (symbol : Option String) : Resolved η → WalkM σ η η
  | .handle handle => return handle
  | .literal value => c.encodeLiteral kind value symbol
  | .list items => do
    let handles ← encodeItems (elemKind kind) items
    c.call (c.target.makeMoveVec (elemKind kind).pureType? handles none)
where
  encodeItems (kind : ParamKind) : List (Resolved η) → WalkM σ η (List η)
    | [] => return []
    | item :: rest => do
      let handle ← encode kind none item
      let rest ← encodeItems kind rest
      return handle :: rest

/-! ## Operands by use -/

def shapeError {α : Type} (slot : Slot) (expected : Expected) : WalkM σ η α :=
  throw (.operandShape c.site slot expected)

/-- An argument of a kind. -/
def argument (slot : Slot) (kind : ParamKind) (value : Operand) : WalkM σ η η := do
  c.encode kind (symbolOf value) (← c.resolve slot value)

/-- An operand that is an object or a command result. -/
def handle (slot : Slot) (value : Operand) : WalkM σ η η := do
  match ← c.resolve slot value with
  | .handle handle => return handle
  | _ => c.shapeError slot .handle

/-- An element of a group. Objects cannot be literals. -/
def element (slot : Slot) (kind : ParamKind) (symbol : Option String) :
    Resolved η → WalkM σ η η
  | .literal value =>
    if kind = .handle then c.shapeError slot .handle else c.encodeLiteral kind value symbol
  | value => c.encode kind symbol value

def elements (slot : Slot) (kind : ParamKind) : List (Resolved η) → WalkM σ η (List η)
  | [] => return []
  | item :: rest => do
    let handle ← c.element slot kind none item
    let rest ← elements slot kind rest
    return handle :: rest

/-- The elements of a numbered group, from the `i`th on. -/
def numbered (name : String) (kind : ParamKind) (i : Nat) : List Operand → WalkM σ η (List η)
  | [] => return []
  | value :: rest => do
    let slot := Slot.nth name i
    let handle ← c.element slot kind (symbolOf value) (← c.resolve slot value)
    let rest ← numbered name kind (i + 1) rest
    return handle :: rest

/-- One handle for each element of a group; a vector that is a handle stays whole. -/
def spread (name : String) (kind : ParamKind) : Group → WalkM σ η (List η)
  | .each values => c.numbered name kind 0 values
  | .packed value => do
    let slot := Slot.of name
    match ← c.resolve slot value with
    | .handle handle => return [handle]
    | .list items => c.elements slot kind items
    | .literal (.list items) => c.elements slot kind (items.map .literal)
    | .literal _ => c.shapeError slot .vector

/-- Arguments of one kind, from the `i`th on. -/
def arguments (name : String) (i : Nat) : List Argument → WalkM σ η (List η)
  | [] => return []
  | a :: rest => do
    let handle ← c.argument (Slot.nth name i) a.kind a.value
    let rest ← arguments name (i + 1) rest
    return handle :: rest

/-- The text of a type argument. -/
def typeName (slot : Slot) (value : Operand) : WalkM σ η String := do
  match ← c.resolve slot value with
  | .literal (.string s) =>
    let name := Text.trim s
    if name.isEmpty then c.shapeError slot .typeName else return name
  | _ => c.shapeError slot .typeName

/-- Type arguments, from the `i`th on. -/
def typeNames (i : Nat) : List Operand → WalkM σ η (List String)
  | [] => return []
  | value :: rest => do
    let name ← c.typeName (Slot.nth "type_arg" i) value
    let rest ← typeNames (i + 1) rest
    return name :: rest

/-! ## Operations -/

def bind (name : String) (handle : η) : WalkM σ η Unit :=
  modify fun w => { w with env := Directory.insert name (.bound handle) w.env }

def bindAll : List String → List η → WalkM σ η Unit
  | name :: names, handle :: handles => do
    bind name handle
    bindAll names handles
  | _, _ => return

/-- The kind of the elements of a vector by the spelling of their type. -/
def vectorElemKind (elem : Option String) : ParamKind :=
  elem.elim .handle fun spelling => ParamKind.ofType (DataType.ofMove spelling)

def operation : Operation → WalkM σ η Unit
  | .splitCoins coin amounts out => do
    let coin ← c.handle (Slot.of "coin") coin
    let amounts ← c.arguments "amount" 0 (amounts.map fun a => ⟨a, .integer .u64⟩)
    bindAll out (← c.call (c.target.splitCoins coin amounts out))
  | .mergeCoins destination sources => do
    let destination ← c.handle (Slot.of "destination") destination
    let sources ← c.spread "sources" .handle sources
    c.call (c.target.mergeCoins destination sources)
  | .transferObjects objects recipient => do
    let objects ← c.spread "objects" .handle objects
    let recipient ← c.argument (Slot.of "recipient") .address recipient
    c.call (c.target.transferObjects objects recipient)
  | .makeMoveVec elem elems out => do
    let elems ← c.spread "elements" (vectorElemKind elem) elems
    bind out (← c.call (c.target.makeMoveVec elem elems (some out)))
  | .moveCall package module function typeArgs args out => do
    let typeArgs ← c.typeNames 0 typeArgs
    let args ← c.arguments "arg" 0 args
    bindAll out (← c.call (c.target.moveCall ⟨package, module, function, typeArgs⟩ args out))
  | .publish modules dependencies out => do
    bind out (← c.call (c.target.publish modules dependencies out))
  | .upgrade modules dependencies package ticket out => do
    let ticket ← c.handle (Slot.of "ticket") ticket
    bind out (← c.call (c.target.upgrade modules dependencies package ticket out))

end Context

/-- The operations of a program, of which the first has number `i`. -/
def operations (target : Target σ η) (sender : Option String) (depth i : Nat) :
    List Operation → WalkM σ η Unit
  | [] => return
  | op :: rest => do
    modify fun w => { w with memo := [] }
    (Context.mk target ⟨i, op.kind⟩ sender depth).operation op
    operations target sender depth (i + 1) rest

/-- The names that variables bind. -/
def initialEnv (vars : List Binding) : Directory (Entry η) :=
  Directory.ofEntries (vars.map fun v => (v.name, .init v.init))

/-- Walks a program from a state of the target to the last one. -/
def run (target : Target σ η) (sender : Option String) (p : Program) (start : σ) :
    Except LowerError σ := do
  let walk : Walk σ η := ⟨start, initialEnv p.vars, []⟩
  let (_, walk) ← (operations target sender p.vars.length 0 p.ops).run walk
  return walk.target

end TxGraph.Lowering
