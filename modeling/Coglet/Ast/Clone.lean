import Coglet.Ast.Node
import Mathlib.Tactic.Tauto

namespace Coglet.Ast

-- The arena does not clear the memory of a new node. The fields that a clone leaves unwritten hold these values.
structure Residue where
  isCompileTime        : Bool
  compileTimeSelection : Int
  template             : String
  outputConstraint     : String
  isVolatile           : Bool
deriving DecidableEq, Repr

namespace Residue

def zero : Residue where
  isCompileTime        := false
  compileTimeSelection := 0
  template             := ""
  outputConstraint     := ""
  isVolatile           := false

end Residue

-- The memory for the clone of a tree, addressed by paths.
def Memory := List Nat → Residue

namespace Memory

def root (memory : Memory) : Residue :=
  memory []

def child (memory : Memory) (i : Nat) : Memory :=
  fun path => memory (i :: path)

def zero : Memory :=
  fun _ => .zero

end Memory

variable {τ : Type}

mutual

-- The payloads that end up in the default case are not cloned.
def Payload.clone : Memory → Payload τ → Option (Payload τ)
  | _, .number literal => some (.number literal)
  | _, .ident name => some (.ident name)
  | _, .string literal => some (.string literal)
  | _, .char literal => some (.char literal)
  | _, .bool value => some (.bool value)
  | m, .unary op operand => some (.unary op (operand.clone (m.child 0)))
  | m, .binary op left right => some (.binary op (left.clone (m.child 0)) (right.clone (m.child 1)))
  | m, .assign target value => some (.assign (target.clone (m.child 0)) (value.clone (m.child 1)))
  | m, .compoundAssign op target value =>
    some (.compoundAssign op (target.clone (m.child 0)) (value.clone (m.child 1)))
  | m, .cast kind targetType expression => some (.cast kind targetType (expression.clone (m.child 0)))
  -- Neither flag is written.
  | m, .if condition thenBranch elseBranch _ _ =>
    some (.if (condition.clone (m.child 0)) (thenBranch.clone (m.child 1)) (elseBranch.clone (m.child 2))
      m.root.isCompileTime m.root.compileTimeSelection)
  | m, .ifExpr condition thenValue elseValue =>
    some (.ifExpr (condition.clone (m.child 0)) (thenValue.clone (m.child 1)) (elseValue.clone (m.child 2)))
  | m, .exprStmt expr => some (.exprStmt (expr.clone (m.child 0)))
  -- Only the operands are written.
  | m, .asm _ _ output inputs _ =>
    some (.asm m.root.template m.root.outputConstraint (output.clone (m.child 0)) (cloneOperands (m.child 1) inputs)
      m.root.isVolatile)
  | m, .staticAssert condition message =>
    some (.staticAssert (condition.clone (m.child 0)) (message.clone (m.child 1)))
  | m, .block statements => some (.block (cloneList (m.child 0) statements))
  | m, .call callee typeArguments arguments =>
    some (.call (callee.clone (m.child 0)) typeArguments (cloneList (m.child 1) arguments))
  | m, .packExpansion operand => some (.packExpansion (operand.clone (m.child 0)))
  | m, .packFor itemName pack body => some (.packFor itemName (pack.clone (m.child 0)) (body.clone (m.child 1)))
  | m, .field object name dottedPath => some (.field (object.clone (m.child 0)) name dottedPath)
  | _, .typeRef sourceType => some (.typeRef sourceType)
  | m, .index object index => some (.index (object.clone (m.child 0)) (index.clone (m.child 1)))
  | m, .program statements => some (.program (cloneList (m.child 0) statements))
  | _, .moduleDecl name => some (.moduleDecl name)
  | _, .importDecl name qualifier => some (.importDecl name qualifier)
  | m, .varDecl varType name initializer => some (.varDecl varType name (initializer.clone (m.child 0)))
  | m, .varDeclGroup declarations => some (.varDeclGroup (cloneList (m.child 0) declarations))
  | _, .funcParamDecl varType name isPack => some (.funcParamDecl varType name isPack)
  | _, .structFieldDecl varType name => some (.structFieldDecl varType name)
  | m, .funcDecl header params body _ =>
    some (.funcDecl header (cloneList (m.child 0) params) (body.clone (m.child 1)) none)
  | m, .structDecl header fields methods _ =>
    some (.structDecl header (cloneList (m.child 0) fields) (cloneList (m.child 1) methods) none)
  | m, .structInit moduleName name typeArguments fields =>
    some (.structInit moduleName name typeArguments (cloneList (m.child 0) fields))
  | m, .fieldInit name value => some (.fieldInit name (value.clone (m.child 0)))
  | m, .enumDecl name backingType members isReprC _ =>
    some (.enumDecl name backingType (cloneList (m.child 0) members) isReprC none)
  | m, .enumMember name value _ => some (.enumMember name (value.clone (m.child 0)) ⟨0, false⟩)
  | m, .return value => some (.return (value.clone (m.child 0)))
  | m, .defer statement => some (.defer (statement.clone (m.child 0)))
  | m, .while condition body => some (.while (condition.clone (m.child 0)) (body.clone (m.child 1)))
  | m, .for condition post body =>
    some (.for (condition.clone (m.child 0)) (post.clone (m.child 1)) (body.clone (m.child 2)))
  | m, .switch expression cases _ _ =>
    some (.switch (expression.clone (m.child 0)) (cloneList (m.child 1) cases) none false)
  | m, .switchCase value body isDefault =>
    some (.switchCase (value.clone (m.child 0)) (body.clone (m.child 1)) isDefault)
  | m, .arrayLiteral elements isZeroInitializer =>
    some (.arrayLiteral (cloneList (m.child 0) elements) isZeroInitializer)
  | _, .null => some .null
  | _, .break => some .break
  | _, .continue => some .continue
  | _, .error token => some (.error token)
  | _, .incDec .. => none
  | _, .constDecl .. => none

def Node.clone : Memory → Node τ → Node τ
  | _, .null => .null
  | m, .mk isExported span payload =>
    match payload.clone m with
    | some clone => .mk isExported span clone
    | none       => .null

def cloneList : Memory → List (Node τ) → List (Node τ)
  | _, []            => []
  | m, node :: nodes => node.clone (m.child 0) :: cloneList (m.child 1) nodes

def cloneOperands : Memory → List (AsmOperand τ) → List (AsmOperand τ)
  | _, []                                  => []
  | m, .mk constraint expression :: inputs =>
    .mk constraint (expression.clone (m.child 0)) :: cloneOperands (m.child 1) inputs

end

-- The tree without the results of the semantic analysis. Two trees that agree here are equal in every syntactic field.
mutual

def Payload.syntactic : Payload τ → Payload τ
  | .number literal => .number literal
  | .ident name => .ident name
  | .string literal => .string literal
  | .char literal => .char literal
  | .bool value => .bool value
  | .null => .null
  | .cast kind targetType expression => .cast kind targetType expression.syntactic
  | .unary op operand => .unary op operand.syntactic
  | .binary op left right => .binary op left.syntactic right.syntactic
  | .incDec op target isPrefix => .incDec op target.syntactic isPrefix
  | .block statements => .block (syntacticList statements)
  | .assign target value => .assign target.syntactic value.syntactic
  | .compoundAssign op target value => .compoundAssign op target.syntactic value.syntactic
  | .exprStmt expr => .exprStmt expr.syntactic
  | .staticAssert condition message => .staticAssert condition.syntactic message.syntactic
  | .asm template outputConstraint output inputs isVolatile =>
    .asm template outputConstraint output.syntactic (syntacticOperands inputs) isVolatile
  | .packFor itemName pack body => .packFor itemName pack.syntactic body.syntactic
  | .call callee typeArguments arguments => .call callee.syntactic typeArguments (syntacticList arguments)
  | .packExpansion operand => .packExpansion operand.syntactic
  | .field object name dottedPath => .field object.syntactic name dottedPath
  | .index object index => .index object.syntactic index.syntactic
  | .typeRef sourceType => .typeRef sourceType
  | .program statements => .program (syntacticList statements)
  | .moduleDecl name => .moduleDecl name
  | .importDecl name qualifier => .importDecl name qualifier
  | .varDecl varType name initializer => .varDecl varType name initializer.syntactic
  | .varDeclGroup declarations => .varDeclGroup (syntacticList declarations)
  | .funcDecl header params body _ => .funcDecl header (syntacticList params) body.syntactic none
  | .funcParamDecl varType name isPack => .funcParamDecl varType name isPack
  | .structDecl header fields methods _ => .structDecl header (syntacticList fields) (syntacticList methods) none
  | .structFieldDecl varType name => .structFieldDecl varType name
  | .enumDecl name backingType members isReprC _ => .enumDecl name backingType (syntacticList members) isReprC none
  | .enumMember name value _ => .enumMember name value.syntactic ⟨0, false⟩
  | .structInit moduleName name typeArguments fields =>
    .structInit moduleName name typeArguments (syntacticList fields)
  | .fieldInit name value => .fieldInit name value.syntactic
  | .constDecl constType name value => .constDecl constType name value.syntactic
  | .arrayLiteral elements isZeroInitializer => .arrayLiteral (syntacticList elements) isZeroInitializer
  | .if condition thenBranch elseBranch isCompileTime _ =>
    .if condition.syntactic thenBranch.syntactic elseBranch.syntactic isCompileTime 0
  | .ifExpr condition thenValue elseValue =>
    .ifExpr condition.syntactic thenValue.syntactic elseValue.syntactic
  | .switch expression cases _ _ => .switch expression.syntactic (syntacticList cases) none false
  | .switchCase value body isDefault => .switchCase value.syntactic body.syntactic isDefault
  | .return value => .return value.syntactic
  | .defer statement => .defer statement.syntactic
  | .while condition body => .while condition.syntactic body.syntactic
  | .for condition post body => .for condition.syntactic post.syntactic body.syntactic
  | .break => .break
  | .continue => .continue
  | .error token => .error token

def Node.syntactic : Node τ → Node τ
  | .null                       => .null
  | .mk isExported span payload => .mk isExported span payload.syntactic

def syntacticList : List (Node τ) → List (Node τ)
  | []            => []
  | node :: nodes => node.syntactic :: syntacticList nodes

def syntacticOperands : List (AsmOperand τ) → List (AsmOperand τ)
  | []                                  => []
  | .mk constraint expression :: inputs => .mk constraint expression.syntactic :: syntacticOperands inputs

end

-- The trees that do not run into the default case, and for which the unwritten fields happen to hold what they should.
mutual

def Payload.Clonable : Memory → Payload τ → Prop
  | _, .incDec .. | _, .constDecl .. => False
  | m, .if condition thenBranch elseBranch isCompileTime _ =>
    m.root.isCompileTime = isCompileTime ∧ condition.Clonable (m.child 0) ∧ thenBranch.Clonable (m.child 1) ∧
      elseBranch.Clonable (m.child 2)
  | m, .asm template outputConstraint output inputs isVolatile =>
    (m.root.template = template ∧ m.root.outputConstraint = outputConstraint ∧ m.root.isVolatile = isVolatile) ∧
      output.Clonable (m.child 0) ∧ ClonableOperands (m.child 1) inputs
  | m, .cast _ _ operand | m, .unary _ operand | m, .exprStmt operand | m, .packExpansion operand
  | m, .field operand _ _ | m, .varDecl _ _ operand | m, .enumMember _ operand _ | m, .fieldInit _ operand
  | m, .return operand | m, .defer operand => operand.Clonable (m.child 0)
  | m, .binary _ left right | m, .assign left right | m, .compoundAssign _ left right | m, .staticAssert left right
  | m, .packFor _ left right | m, .index left right | m, .switchCase left right _ | m, .while left right =>
    left.Clonable (m.child 0) ∧ right.Clonable (m.child 1)
  | m, .ifExpr first second third | m, .for first second third =>
    first.Clonable (m.child 0) ∧ second.Clonable (m.child 1) ∧ third.Clonable (m.child 2)
  | m, .block nodes | m, .program nodes | m, .varDeclGroup nodes | m, .enumDecl _ _ nodes _ _
  | m, .structInit _ _ _ nodes | m, .arrayLiteral nodes _ => ClonableList (m.child 0) nodes
  | m, .call head _ nodes | m, .switch head nodes _ _ => head.Clonable (m.child 0) ∧ ClonableList (m.child 1) nodes
  | m, .funcDecl _ params body _ => ClonableList (m.child 0) params ∧ body.Clonable (m.child 1)
  | m, .structDecl _ fields methods _ => ClonableList (m.child 0) fields ∧ ClonableList (m.child 1) methods
  | _, .number _ | _, .ident _ | _, .string _ | _, .char _ | _, .bool _ | _, .null | _, .typeRef _ | _, .moduleDecl _
  | _, .importDecl _ _ | _, .funcParamDecl _ _ _ | _, .structFieldDecl _ _ | _, .break | _, .continue | _, .error _ =>
    True

def Node.Clonable : Memory → Node τ → Prop
  | _, .null           => True
  | m, .mk _ _ payload => payload.Clonable m

def ClonableList : Memory → List (Node τ) → Prop
  | _, []            => True
  | m, node :: nodes => node.Clonable (m.child 0) ∧ ClonableList (m.child 1) nodes

def ClonableOperands : Memory → List (AsmOperand τ) → Prop
  | _, []                         => True
  | m, .mk _ expression :: inputs => expression.Clonable (m.child 0) ∧ ClonableOperands (m.child 1) inputs

end

-- Each case compares the children of a node with their clones.
mutual

theorem Payload.clone_syntactic_iff : (m : Memory) → (payload : Payload τ) →
    ((payload.clone m).map Payload.syntactic = some payload.syntactic ↔ payload.Clonable m)
  | m, .incDec .. | m, .constDecl .. => by
    simp [Payload.clone, Payload.Clonable]
  | m, .if condition thenBranch elseBranch isCompileTime _ => by
    have hc := Node.clone_syntactic_iff (m.child 0) condition
    have ht := Node.clone_syntactic_iff (m.child 1) thenBranch
    have he := Node.clone_syntactic_iff (m.child 2) elseBranch
    simp only [Payload.clone, Payload.syntactic, Payload.Clonable, Option.map_some, Option.some.injEq,
      Payload.if.injEq, hc, ht, he]
    tauto
  | m, .asm _ _ output inputs _ => by
    have ho := Node.clone_syntactic_iff (m.child 0) output
    have hi := cloneOperands_syntactic_iff (m.child 1) inputs
    simp only [Payload.clone, Payload.syntactic, Payload.Clonable, Option.map_some, Option.some.injEq,
      Payload.asm.injEq, ho, hi]
    tauto
  | m, .cast _ _ operand | m, .unary _ operand | m, .exprStmt operand | m, .packExpansion operand
  | m, .field operand _ _ | m, .varDecl _ _ operand | m, .enumMember _ operand _ | m, .fieldInit _ operand
  | m, .return operand | m, .defer operand => by
    simp [Payload.clone, Payload.syntactic, Payload.Clonable, Node.clone_syntactic_iff (m.child 0) operand]
  | m, .binary _ left right | m, .assign left right | m, .compoundAssign _ left right | m, .staticAssert left right
  | m, .packFor _ left right | m, .index left right | m, .switchCase left right _ | m, .while left right => by
    simp [Payload.clone, Payload.syntactic, Payload.Clonable, Node.clone_syntactic_iff (m.child 0) left,
      Node.clone_syntactic_iff (m.child 1) right]
  | m, .ifExpr first second third | m, .for first second third => by
    simp [Payload.clone, Payload.syntactic, Payload.Clonable, Node.clone_syntactic_iff (m.child 0) first,
      Node.clone_syntactic_iff (m.child 1) second, Node.clone_syntactic_iff (m.child 2) third]
  | m, .block nodes | m, .program nodes | m, .varDeclGroup nodes | m, .enumDecl _ _ nodes _ _
  | m, .structInit _ _ _ nodes | m, .arrayLiteral nodes _ => by
    simp [Payload.clone, Payload.syntactic, Payload.Clonable, cloneList_syntactic_iff (m.child 0) nodes]
  | m, .call head _ nodes | m, .switch head nodes _ _ => by
    simp [Payload.clone, Payload.syntactic, Payload.Clonable, Node.clone_syntactic_iff (m.child 0) head,
      cloneList_syntactic_iff (m.child 1) nodes]
  | m, .funcDecl _ params body _ => by
    simp [Payload.clone, Payload.syntactic, Payload.Clonable, cloneList_syntactic_iff (m.child 0) params,
      Node.clone_syntactic_iff (m.child 1) body]
  | m, .structDecl _ fields methods _ => by
    simp [Payload.clone, Payload.syntactic, Payload.Clonable, cloneList_syntactic_iff (m.child 0) fields,
      cloneList_syntactic_iff (m.child 1) methods]
  | m, .number _ | m, .ident _ | m, .string _ | m, .char _ | m, .bool _ | m, .null | m, .typeRef _ | m, .moduleDecl _
  | m, .importDecl _ _ | m, .funcParamDecl _ _ _ | m, .structFieldDecl _ _ | m, .break | m, .continue | m, .error _ => by
    simp [Payload.clone, Payload.syntactic, Payload.Clonable]

theorem Node.clone_syntactic_iff : (m : Memory) → (node : Node τ) →
    ((node.clone m).syntactic = node.syntactic ↔ node.Clonable m)
  | _, .null => by
    simp [Node.clone, Node.Clonable]
  | m, .mk _ _ payload => by
    have hp := Payload.clone_syntactic_iff m payload
    cases hc : payload.clone m <;>
      simpa [Node.clone, Node.syntactic, Node.Clonable, hc] using hp

theorem cloneList_syntactic_iff : (m : Memory) → (nodes : List (Node τ)) →
    (syntacticList (cloneList m nodes) = syntacticList nodes ↔ ClonableList m nodes)
  | _, [] => by
    simp [cloneList, ClonableList]
  | m, node :: nodes => by
    simp [cloneList, syntacticList, ClonableList, Node.clone_syntactic_iff (m.child 0) node,
      cloneList_syntactic_iff (m.child 1) nodes]

theorem cloneOperands_syntactic_iff : (m : Memory) → (inputs : List (AsmOperand τ)) →
    (syntacticOperands (cloneOperands m inputs) = syntacticOperands inputs ↔ ClonableOperands m inputs)
  | _, [] => by
    simp [cloneOperands, ClonableOperands]
  | m, .mk _ expression :: inputs => by
    simp [cloneOperands, syntacticOperands, ClonableOperands, Node.clone_syntactic_iff (m.child 0) expression,
      cloneOperands_syntactic_iff (m.child 1) inputs]

end

theorem Node.ne_null_of_syntactic_eq {node node' : Node τ} (h : node.syntactic = node'.syntactic)
    (hn : node' ≠ .null) : node ≠ .null := by
  rintro rfl
  cases node'
  case null => exact hn rfl
  case mk   => simp [Node.syntactic] at h

-- The clone of a tree is a tree that agrees with it, up to the results of the semantic analysis.
def Node.ClonesFaithfully (memory : Memory) (node : Node τ) : Prop :=
  (node ≠ .null → node.clone memory ≠ .null) ∧ (node.clone memory).syntactic = node.syntactic

theorem Node.clonesFaithfully_iff (memory : Memory) (node : Node τ) :
    node.ClonesFaithfully memory ↔ node.Clonable memory := by
  rw [← Node.clone_syntactic_iff]
  exact ⟨And.right, fun h => ⟨Node.ne_null_of_syntactic_eq h, h⟩⟩

def Node.ofPayload (payload : Payload τ) : Node τ :=
  .mk false ⟨0, 0, 0, 1, 1⟩ payload

-- The body `{ count++; }` of a generic function. The statement of its clone has lost the expression.
def incrementBody : Node Unit :=
  .ofPayload (.block [.ofPayload (.exprStmt (.ofPayload (.incDec .plusPlus (.ofPayload (.ident "count")) false)))])

theorem incrementBody_not_clonesFaithfully : ¬incrementBody.ClonesFaithfully .zero := by
  intro h
  have hs := h.right
  simp [incrementBody, Node.ofPayload, Node.clone, Payload.clone, cloneList, Node.syntactic, Payload.syntactic,
    syntacticList] at hs

end Coglet.Ast
