import Coglet.Ownership.Flow

-- The flow state of a function has a slot for each of its variables. This module is about the lifetimes of slots
-- and symbols, which are managed independently of each other.

namespace Coglet.Slots

abbrev FlowOwnerId := Nat

structure Symbol where
  name        : Name
  flowOwnerId : FlowOwnerId
  variableId  : VariableId

structure Scope where
  symbols       : List Symbol
  flowCountMark : Nat

-- Whatever can be looked up at some point of a check.
structure Point where
  scopes  : List Scope
  ownerId : FlowOwnerId
  count   : Nat

structure Context extends Point where
  nextVariableId  : VariableId
  nextFlowOwnerId : FlowOwnerId
  -- All points that have been visited, the latest of which comes first.
  visited         : List Point

-- Expressions as far as they concern the lookup of symbols.
inductive Expr
  | name (name : Name)
  | operation (operands : List Expr)
  | logical (left right : Expr)
  | ifExpr (condition thenValue elseValue : Expr)

-- Statements in the form that is produced by the parser. Not every declaration is successful, and neither are the
-- subjects of all switches.
inductive Stmt
  | expr (e : Expr)
  | varDecl (name : Name) (initializer : Option Expr) (succeeds : Bool)
  | varDeclGroup (declarations : List (Name × Option Expr × Bool))
  | block (statements : List Stmt)
  | ifStmt (condition : Expr) (thenBranch : Stmt) (elseBranch : Option Stmt)
  -- A condition that is known at compile time selects at most one branch.
  | compileIf (condition : Expr) (selected : Option Stmt)
  | whileStmt (condition : Expr) (body : Stmt)
  | forStmt (condition : Option Expr) (body : Stmt) (post : Option Expr)
  | switchStmt (subject : Expr) (succeeds : Bool) (cases : List (Option Expr × Stmt))
  | deferStmt (statement : Stmt)
  | returnStmt (value : Option Expr)
  | breakStmt
  | continueStmt
  | function (parameters : List Name) (body : List Stmt)

def Point.lookup (point : Point) (name : Name) : Option Symbol :=
  point.scopes.findSome? fun scope => scope.symbols.find? (·.name = name)

-- Each symbol that is found by a lookup and belongs to the current function has a slot.
def Point.InBounds (point : Point) : Prop :=
  ∀ name symbol, point.lookup name = some symbol → symbol.flowOwnerId = point.ownerId →
    symbol.variableId < point.count

namespace Context

def visit (ctx : Context) : Context :=
  { ctx with visited := ctx.toPoint :: ctx.visited }

def scopePush (ctx : Context) : Context :=
  { ctx with scopes := { symbols := [], flowCountMark := ctx.count } :: ctx.scopes }

def scopePop (ctx : Context) : Context :=
  match ctx.scopes with
  | []            => ctx
  | scope :: rest => { ctx with scopes := rest, count := scope.flowCountMark }

def findLocal (ctx : Context) (name : Name) : Bool :=
  (ctx.scopes.head?.map fun scope => scope.symbols.any (·.name = name)).getD false

-- Defines a symbol in the innermost scope, and registers its slot.
def declare (ctx : Context) (name : Name) : Context :=
  match ctx.scopes with
  | []            => ctx
  | scope :: rest =>
    let symbol := { name, flowOwnerId := ctx.ownerId, variableId := ctx.nextVariableId : Symbol }
    { ctx with
      scopes         := { scope with symbols := symbol :: scope.symbols } :: rest
      nextVariableId := ctx.nextVariableId + 1
      count          := max ctx.count (ctx.nextVariableId + 1) }

-- The flow state at the start of a function.
def enter (ctx : Context) : Context :=
  { ctx with
    ownerId         := ctx.nextFlowOwnerId
    nextFlowOwnerId := ctx.nextFlowOwnerId + 1
    nextVariableId  := 0
    count           := 0 }

end Context

mutual

-- Paths are merged in such a way that only the slots remain that exist in front of them.
def checkExpression : Expr → Context → Context
  | .name _, ctx             => ctx.visit
  | .operation operands, ctx => checkOperands operands ctx
  | .logical left right, ctx =>
    let afterLeft := checkExpression left ctx
    { checkExpression right afterLeft with count := afterLeft.count }
  | .ifExpr condition thenValue elseValue, ctx =>
    let incoming := checkExpression condition ctx
    let afterThen := checkExpression thenValue incoming
    let afterElse := checkExpression elseValue { afterThen with count := incoming.count }
    { afterElse with count := incoming.count }

def checkOperands : List Expr → Context → Context
  | [],      ctx => ctx
  | e :: es, ctx => checkOperands es (checkExpression e ctx)

end

def checkOptional (e : Option Expr) (ctx : Context) : Context :=
  match e with
  | none   => ctx
  | some e => checkExpression e ctx

def checkVarDecl (name : Name) (initializer : Option Expr) (succeeds : Bool) (ctx : Context) : Context :=
  if ctx.findLocal name then ctx
  else
    let ctx := checkOptional initializer ctx
    if succeeds then ctx.declare name else ctx

mutual

def checkNode : Stmt → Context → Context
  | .expr e, ctx => checkExpression e ctx.visit
  | .varDecl name initializer succeeds, ctx => (checkVarDecl name initializer succeeds ctx.visit).visit
  | .varDeclGroup declarations, ctx =>
    (declarations.foldl (fun ctx (name, initializer, succeeds) => checkVarDecl name initializer succeeds ctx)
      ctx.visit).visit
  | .block statements, ctx => (checkBlock statements ctx.visit.scopePush).scopePop.visit
  | .ifStmt condition thenBranch elseBranch, ctx =>
    let incoming := checkExpression condition ctx.visit
    let afterThen := checkNode thenBranch incoming
    let elseStart := { afterThen with count := incoming.count }
    let afterElse :=
      match elseBranch with
      | none            => elseStart
      | some elseBranch => checkNode elseBranch elseStart
    { afterElse with count := incoming.count }.visit
  | .compileIf condition selected, ctx =>
    let ctx := checkExpression condition ctx.visit
    match selected with
    | none          => ctx
    | some selected => checkNode selected ctx
  | .whileStmt condition body, ctx =>
    let ctx := ctx.visit
    { checkNode body (checkExpression condition ctx) with count := ctx.count }.visit
  | .forStmt condition body post, ctx =>
    let ctx := ctx.visit
    let afterBody := checkNode body (checkOptional condition ctx)
    { checkOptional post { afterBody with count := ctx.count } with count := ctx.count }.visit
  | .switchStmt subject succeeds cases, ctx =>
    let incoming := checkExpression subject ctx.visit
    if succeeds then (checkCases cases incoming).visit else incoming
  -- The flow state after a deferred statement is the one in front of it.
  | .deferStmt statement, ctx =>
    let ctx := ctx.visit
    { checkNode statement ctx with count := ctx.count }.visit
  | .returnStmt value, ctx => checkOptional value ctx.visit
  | .breakStmt, ctx | .continueStmt, ctx => ctx.visit
  | .function parameters body, ctx =>
    let start := ctx.visit.enter.scopePush
    let start := (parameters.foldl (fun ctx name => checkVarDecl name none true ctx) start).visit
    let result := (checkBlock body start.scopePush).scopePop.scopePop
    { result with ownerId := ctx.ownerId, nextVariableId := ctx.nextVariableId, count := ctx.count }.visit

def checkBlock : List Stmt → Context → Context
  | [],      ctx => ctx
  | s :: ss, ctx => checkBlock ss (checkNode s ctx)

-- Each case starts from the same flow state, but not in a scope of its own.
def checkCases : List (Option Expr × Stmt) → Context → Context
  | [], ctx => ctx
  | (label, body) :: cases, ctx =>
    checkCases cases { checkNode body (checkOptional label ctx).visit with count := ctx.count }

end

namespace Stmt

def isDeclaration : Stmt → Bool
  | varDecl .. | varDeclGroup _ => true
  | _                           => false

mutual

-- Declarations have a scope of their own if they are the bodies of other statements. The parser makes sure of that by
-- turning bodies into blocks, except for those of cases.
def Scoped (inCases : Bool) : Stmt → Prop
  | block statements           => ScopedStatements inCases statements
  | ifStmt _ t none            => t.isDeclaration = false ∧ t.Scoped inCases
  | ifStmt _ t (some e)        =>
    (t.isDeclaration = false ∧ t.Scoped inCases) ∧ e.isDeclaration = false ∧ e.Scoped inCases
  | compileIf _ none           => True
  | compileIf _ (some s)       => s.isDeclaration = false ∧ s.Scoped inCases
  | whileStmt _ body           => body.isDeclaration = false ∧ body.Scoped inCases
  | forStmt _ body _           => body.isDeclaration = false ∧ body.Scoped inCases
  | switchStmt _ _ cases       => ScopedCases inCases cases
  | deferStmt s                => s.isDeclaration = false ∧ s.Scoped inCases
  | function _ body            => ScopedStatements inCases body
  | _                          => True

def ScopedStatements (inCases : Bool) : List Stmt → Prop
  | []      => True
  | s :: ss => s.Scoped inCases ∧ ScopedStatements inCases ss

def ScopedCases (inCases : Bool) : List (Option Expr × Stmt) → Prop
  | []             => True
  | (_, s) :: rest => (inCases = true → s.isDeclaration = false) ∧ s.Scoped inCases ∧ ScopedCases inCases rest

end

end Stmt

-- What holds at each point of a check.
structure Invariant (ctx : Context) : Prop where
  slots   : ∀ scope ∈ ctx.scopes, ∀ symbol ∈ scope.symbols, symbol.flowOwnerId = ctx.ownerId →
    symbol.variableId < ctx.count
  owners  : ∀ scope ∈ ctx.scopes, ∀ symbol ∈ scope.symbols, symbol.flowOwnerId < ctx.nextFlowOwnerId
  owner   : ctx.ownerId < ctx.nextFlowOwnerId
  visited : ∀ point ∈ ctx.visited, point.InBounds

-- The scopes are the same as before, except for the symbols of the innermost one.
structure Grows (ctx ctx' : Context) : Prop where
  rest  : ctx'.scopes.tail = ctx.scopes.tail
  mark  : ctx'.scopes.head?.map (·.flowCountMark) = ctx.scopes.head?.map (·.flowCountMark)
  owner : ctx'.ownerId = ctx.ownerId
  next  : ctx.nextFlowOwnerId ≤ ctx'.nextFlowOwnerId

-- Nothing has changed at all.
structure Keeps (ctx ctx' : Context) : Prop where
  scopes : ctx'.scopes = ctx.scopes
  count  : ctx'.count = ctx.count
  owner  : ctx'.ownerId = ctx.ownerId
  next   : ctx.nextFlowOwnerId ≤ ctx'.nextFlowOwnerId

namespace Keeps

theorem refl : Keeps ctx ctx :=
  ⟨rfl, rfl, rfl, Nat.le_refl _⟩

theorem trans (h : Keeps ctx ctx') (h' : Keeps ctx' ctx'') : Keeps ctx ctx'' :=
  ⟨h'.scopes.trans h.scopes, h'.count.trans h.count, h'.owner.trans h.owner, Nat.le_trans h.next h'.next⟩

theorem grows (h : Keeps ctx ctx') : Grows ctx ctx' :=
  ⟨by rw [h.scopes], by rw [h.scopes], h.owner, h.next⟩

-- Whatever happens to the number of slots, it is restored.
theorem restore (h : Keeps ctx ctx') : { ctx' with count := ctx.count } = ctx' := by
  rw [← h.count]

end Keeps

theorem Grows.trans (h : Grows ctx ctx') (h' : Grows ctx' ctx'') : Grows ctx ctx'' :=
  ⟨h'.rest.trans h.rest, h'.mark.trans h.mark, h'.owner.trans h.owner, Nat.le_trans h.next h'.next⟩

namespace Invariant

theorem inBounds (h : Invariant ctx) : ctx.toPoint.InBounds := by
  intro name symbol hl ho
  obtain ⟨scope, hs, hf⟩ := List.exists_of_findSome?_eq_some hl
  exact h.slots scope hs symbol (List.mem_of_find?_eq_some hf) ho

theorem visit (h : Invariant ctx) : Invariant ctx.visit :=
  { h with
    visited := by
      rintro point hp
      rcases List.mem_cons.mp hp with rfl | hp
      case inl => exact h.inBounds
      case inr => exact h.visited point hp }

-- A context in which nothing but the visited points has changed.
theorem of_keeps (h : Invariant ctx) (hk : Keeps ctx ctx') (hv : ∀ point ∈ ctx'.visited, point.InBounds) :
    Invariant ctx' where
  slots scope hs symbol hy ho := hk.count ▸ h.slots scope (hk.scopes ▸ hs) symbol hy (ho.trans hk.owner)
  owners scope hs symbol hy   := Nat.lt_of_lt_of_le (h.owners scope (hk.scopes ▸ hs) symbol hy) hk.next
  owner                       := hk.owner ▸ Nat.lt_of_lt_of_le h.owner hk.next
  visited                     := hv

theorem scopePush (h : Invariant ctx) : Invariant ctx.scopePush where
  slots scope hs symbol hy := by
    rcases List.mem_cons.mp hs with rfl | hs
    case inl => cases hy
    case inr => exact h.slots scope hs symbol hy
  owners scope hs symbol hy := by
    rcases List.mem_cons.mp hs with rfl | hs
    case inl => cases hy
    case inr => exact h.owners scope hs symbol hy
  owner   := h.owner
  visited := h.visited

theorem declare (h : Invariant ctx) : Invariant (ctx.declare name) := by
  unfold Context.declare
  split
  case h_1 => exact h
  case h_2 scope rest hr =>
    have hm s (hs : s ∈ scope :: rest) : s ∈ ctx.scopes := hr ▸ hs
    refine ⟨fun s hs symbol hy ho => ?_, fun s hs symbol hy => ?_, h.owner, h.visited⟩
    case refine_1 =>
      rcases List.mem_cons.mp hs with rfl | hs
      case inl =>
        rcases List.mem_cons.mp hy with rfl | hy
        case inl => exact Nat.lt_of_lt_of_le (Nat.lt_succ_self _) (Nat.le_max_right ..)
        case inr => exact Nat.lt_of_lt_of_le (h.slots scope (hm _ (List.mem_cons_self ..)) symbol hy ho) (Nat.le_max_left ..)
      case inr => exact Nat.lt_of_lt_of_le (h.slots s (hm s (List.mem_cons_of_mem _ hs)) symbol hy ho) (Nat.le_max_left ..)
    case refine_2 =>
      rcases List.mem_cons.mp hs with rfl | hs
      case inl =>
        rcases List.mem_cons.mp hy with rfl | hy
        case inl => exact h.owner
        case inr => exact h.owners scope (hm _ (List.mem_cons_self ..)) symbol hy
      case inr => exact h.owners s (hm s (List.mem_cons_of_mem _ hs)) symbol hy

end Invariant

theorem Keeps.visit : Keeps ctx ctx.visit :=
  ⟨rfl, rfl, rfl, Nat.le_refl _⟩

-- A scope that has been left does not leave anything behind.
theorem Grows.scopePop (h : Grows ctx.scopePush ctx') : Keeps ctx ctx'.scopePop := by
  have hr := h.rest
  have hm := h.mark
  cases hs : ctx'.scopes <;> rw [hs] at hr hm
  case nil => cases hm
  case cons scope rest =>
    simp only [Context.scopePush, List.head?_cons, Option.map_some, Option.some.injEq, List.tail_cons] at hr hm
    refine ⟨?_, ?_, ?_, ?_⟩ <;> simp only [Context.scopePop, hs]
    case refine_1 => exact hr
    case refine_2 => exact hm
    case refine_3 => exact h.owner
    case refine_4 => exact h.next

theorem visited_scopePop (ctx : Context) : ctx.scopePop.visited = ctx.visited := by
  unfold Context.scopePop
  split <;> rfl

theorem Grows.declare (name : Name) : Grows ctx (ctx.declare name) := by
  unfold Context.declare
  split
  case h_1 => exact ⟨rfl, rfl, rfl, Nat.le_refl _⟩
  case h_2 hr => exact ⟨by rw [hr]; rfl, by rw [hr]; rfl, rfl, Nat.le_refl _⟩

mutual

theorem checkExpression_keeps {ctx : Context} : (e : Expr) → Invariant ctx →
    Invariant (checkExpression e ctx) ∧ Keeps ctx (checkExpression e ctx)
  | .name _, h => ⟨h.visit, .visit⟩
  | .operation operands, h => checkOperands_keeps operands h
  | .logical left right, h => by
    obtain ⟨h₁, k₁⟩ := checkExpression_keeps left h
    obtain ⟨h₂, k₂⟩ := checkExpression_keeps right h₁
    simp only [checkExpression, k₂.restore]
    exact ⟨h₂, k₁.trans k₂⟩
  | .ifExpr condition thenValue elseValue, h => by
    obtain ⟨h₁, k₁⟩ := checkExpression_keeps condition h
    obtain ⟨h₂, k₂⟩ := checkExpression_keeps thenValue h₁
    obtain ⟨h₃, k₃⟩ := checkExpression_keeps elseValue h₂
    simp only [checkExpression, k₂.restore, (k₂.trans k₃).restore]
    exact ⟨h₃, k₁.trans (k₂.trans k₃)⟩

theorem checkOperands_keeps {ctx : Context} : (es : List Expr) → Invariant ctx →
    Invariant (checkOperands es ctx) ∧ Keeps ctx (checkOperands es ctx)
  | [], h => ⟨h, .refl⟩
  | e :: es, h => by
    obtain ⟨h₁, k₁⟩ := checkExpression_keeps e h
    obtain ⟨h₂, k₂⟩ := checkOperands_keeps es h₁
    exact ⟨h₂, k₁.trans k₂⟩

end

theorem checkOptional_keeps (e : Option Expr) (h : Invariant ctx) :
    Invariant (checkOptional e ctx) ∧ Keeps ctx (checkOptional e ctx) := by
  cases e
  case none   => exact ⟨h, .refl⟩
  case some e => exact checkExpression_keeps e h

theorem checkVarDecl_grows (name : Name) (initializer : Option Expr) (succeeds : Bool) (h : Invariant ctx) :
    Invariant (checkVarDecl name initializer succeeds ctx) ∧ Grows ctx (checkVarDecl name initializer succeeds ctx) := by
  unfold checkVarDecl
  split
  case isTrue => exact ⟨h, Keeps.refl.grows⟩
  case isFalse =>
    obtain ⟨h₁, k₁⟩ := checkOptional_keeps initializer h
    cases succeeds
    case true  => exact ⟨h₁.declare, k₁.grows.trans (.declare name)⟩
    case false => exact ⟨h₁, k₁.grows⟩

-- The check of several declarations, one after the other.
theorem foldl_grows {f : Context → α → Context} (hf : ∀ ctx a, Invariant ctx → Invariant (f ctx a) ∧ Grows ctx (f ctx a))
    (as : List α) (h : Invariant ctx) : Invariant (as.foldl f ctx) ∧ Grows ctx (as.foldl f ctx) := by
  induction as generalizing ctx
  case nil => exact ⟨h, Keeps.refl.grows⟩
  case cons a as hi =>
    obtain ⟨h₁, g₁⟩ := hf ctx a h
    obtain ⟨h₂, g₂⟩ := hi h₁
    exact ⟨h₂, g₁.trans g₂⟩

theorem Invariant.enter (h : Invariant ctx) : Invariant ctx.enter where
  slots scope hs symbol hy ho := absurd ho (Nat.ne_of_lt (h.owners scope hs symbol hy))
  owners scope hs symbol hy   := Nat.lt_succ_of_lt (h.owners scope hs symbol hy)
  owner                       := Nat.lt_succ_self _
  visited                     := h.visited

-- The end of a function that is nested in another one.
theorem Keeps.restoreOwner (h : Keeps ctx.visit.enter ctx') :
    Keeps ctx { ctx' with ownerId := ctx.ownerId, nextVariableId := ctx.nextVariableId, count := ctx.count } :=
  ⟨h.scopes, rfl, rfl, Nat.le_trans (Nat.le_succ _) h.next⟩

structure Checked (s : Stmt) (ctx ctx' : Context) : Prop where
  inv   : Invariant ctx'
  grows : Grows ctx ctx'
  keeps : s.isDeclaration = false → Keeps ctx ctx'

theorem Checked.of_keeps (h : Invariant ctx') (hk : Keeps ctx ctx') : Checked s ctx ctx' :=
  ⟨h, hk.grows, fun _ => hk⟩

mutual

theorem checkNode_checked {ctx : Context} : (s : Stmt) → Invariant ctx → s.Scoped true →
    Checked s ctx (checkNode s ctx)
  | .expr e, h, _ => by
    obtain ⟨h₁, k₁⟩ := checkExpression_keeps e h.visit
    exact .of_keeps h₁ (Keeps.visit.trans k₁)
  | .varDecl name initializer succeeds, h, _ => by
    obtain ⟨h₁, g₁⟩ := checkVarDecl_grows name initializer succeeds h.visit
    exact ⟨h₁.visit, Keeps.visit.grows.trans (g₁.trans Keeps.visit.grows), fun h => by cases h⟩
  | .varDeclGroup declarations, h, _ => by
    obtain ⟨h₁, g₁⟩ := foldl_grows (fun ctx a h => checkVarDecl_grows a.1 a.2.1 a.2.2 h) declarations h.visit
    exact ⟨h₁.visit, Keeps.visit.grows.trans (g₁.trans Keeps.visit.grows), fun h => by cases h⟩
  | .block statements, h, hs => by
    obtain ⟨h₁, g₁⟩ := checkBlock_grows statements h.visit.scopePush hs
    have k := Keeps.visit.trans g₁.scopePop
    have hv := h₁.visited
    rw [← visited_scopePop] at hv
    exact .of_keeps (h.of_keeps k hv).visit (k.trans .visit)
  | .ifStmt condition thenBranch none, h, hs => by
    obtain ⟨h₁, k₁⟩ := checkExpression_keeps condition h.visit
    have c₂ := checkNode_checked thenBranch h₁ hs.right
    have k₂ := c₂.keeps hs.left
    simp only [checkNode, k₂.restore]
    exact .of_keeps c₂.inv.visit ((Keeps.visit.trans k₁).trans (k₂.trans .visit))
  | .ifStmt condition thenBranch (some elseBranch), h, hs => by
    obtain ⟨h₁, k₁⟩ := checkExpression_keeps condition h.visit
    have c₂ := checkNode_checked thenBranch h₁ hs.left.right
    have k₂ := c₂.keeps hs.left.left
    have c₃ := checkNode_checked elseBranch c₂.inv hs.right.right
    have k₃ := c₃.keeps hs.right.left
    simp only [checkNode, k₂.restore, (k₂.trans k₃).restore]
    exact .of_keeps c₃.inv.visit ((Keeps.visit.trans k₁).trans ((k₂.trans k₃).trans .visit))
  | .compileIf condition none, h, _ => by
    obtain ⟨h₁, k₁⟩ := checkExpression_keeps condition h.visit
    exact .of_keeps h₁ (Keeps.visit.trans k₁)
  | .compileIf condition (some selected), h, hs => by
    obtain ⟨h₁, k₁⟩ := checkExpression_keeps condition h.visit
    have c₂ := checkNode_checked selected h₁ hs.right
    exact .of_keeps c₂.inv ((Keeps.visit.trans k₁).trans (c₂.keeps hs.left))
  | .whileStmt condition body, h, hs => by
    obtain ⟨h₁, k₁⟩ := checkExpression_keeps condition h.visit
    have c₂ := checkNode_checked body h₁ hs.right
    have k := k₁.trans (c₂.keeps hs.left)
    simp only [checkNode, k.restore]
    exact .of_keeps c₂.inv.visit (Keeps.visit.trans (k.trans .visit))
  | .forStmt condition body post, h, hs => by
    obtain ⟨h₁, k₁⟩ := checkOptional_keeps condition h.visit
    have c₂ := checkNode_checked body h₁ hs.right
    have k := k₁.trans (c₂.keeps hs.left)
    obtain ⟨h₃, k₃⟩ := checkOptional_keeps post c₂.inv
    simp only [checkNode, k.restore, (k.trans k₃).restore]
    exact .of_keeps h₃.visit (Keeps.visit.trans ((k.trans k₃).trans .visit))
  | .switchStmt subject succeeds cases, h, hs => by
    obtain ⟨h₁, k₁⟩ := checkExpression_keeps subject h.visit
    simp only [checkNode]
    split
    case isTrue =>
      obtain ⟨h₂, k₂⟩ := checkCases_keeps cases h₁ hs
      exact .of_keeps h₂.visit ((Keeps.visit.trans k₁).trans (k₂.trans .visit))
    case isFalse => exact .of_keeps h₁ (Keeps.visit.trans k₁)
  | .deferStmt statement, h, hs => by
    have c := checkNode_checked statement h.visit hs.right
    have k := c.keeps hs.left
    simp only [checkNode, k.restore]
    exact .of_keeps c.inv.visit (Keeps.visit.trans (k.trans .visit))
  | .returnStmt value, h, _ => by
    obtain ⟨h₁, k₁⟩ := checkOptional_keeps value h.visit
    exact .of_keeps h₁ (Keeps.visit.trans k₁)
  | .breakStmt, h, _ | .continueStmt, h, _ => .of_keeps h.visit .visit
  | .function parameters body, h, hs => by
    obtain ⟨h₁, g₁⟩ := foldl_grows (fun ctx name h => checkVarDecl_grows name none true h) parameters
      h.visit.enter.scopePush
    obtain ⟨h₂, g₂⟩ := checkBlock_grows body h₁.visit.scopePush hs
    have k := (g₁.trans (Keeps.visit.trans g₂.scopePop).grows).scopePop
    have hv := h₂.visited
    rw [← visited_scopePop, ← visited_scopePop] at hv
    simp only [checkNode]
    have k' := k.restoreOwner
    exact .of_keeps (h.of_keeps k' hv).visit (k'.trans .visit)

theorem checkBlock_grows {ctx : Context} : (ss : List Stmt) → Invariant ctx → Stmt.ScopedStatements true ss →
    Invariant (checkBlock ss ctx) ∧ Grows ctx (checkBlock ss ctx)
  | [], h, _ => ⟨h, Keeps.refl.grows⟩
  | s :: ss, h, hs => by
    have c := checkNode_checked s h hs.left
    obtain ⟨h₂, g₂⟩ := checkBlock_grows ss c.inv hs.right
    exact ⟨h₂, c.grows.trans g₂⟩

theorem checkCases_keeps {ctx : Context} : (cases : List (Option Expr × Stmt)) → Invariant ctx →
    Stmt.ScopedCases true cases → Invariant (checkCases cases ctx) ∧ Keeps ctx (checkCases cases ctx)
  | [], h, _ => ⟨h, .refl⟩
  | (label, body) :: cases, h, hs => by
    obtain ⟨h₁, k₁⟩ := checkOptional_keeps label h
    have c := checkNode_checked body h₁.visit hs.right.left
    have k := (k₁.trans .visit).trans (c.keeps (hs.left rfl))
    obtain ⟨h₂, k₂⟩ := checkCases_keeps cases c.inv hs.right.right
    simp only [checkCases, k.restore]
    exact ⟨h₂, k.trans k₂⟩

end

-- A function without any surrounding scopes.
def Context.init : Context where
  scopes          := []
  ownerId         := 0
  count           := 0
  nextVariableId  := 0
  nextFlowOwnerId := 1
  visited         := []

theorem Invariant.init : Invariant .init where
  slots   := fun _ h => by cases h
  owners  := fun _ h => by cases h
  owner   := Nat.zero_lt_one
  visited := fun _ h => by cases h

-- Each point of the check of a statement is in bounds.
def ChecksInBounds (s : Stmt) (ctx : Context) : Prop :=
  ∀ point ∈ (checkNode s ctx).visited, point.InBounds

-- Symbols have slots at each point of the check of a function, even if it is nested in others or checked on behalf of
-- them.
theorem visited_inBounds (hi : Invariant ctx) (h : (Stmt.function parameters body).Scoped true) :
    ChecksInBounds (.function parameters body) ctx :=
  (checkNode_checked (.function parameters body) hi h).inv.visited

-- A switch in a loop, the cases of which declare variables in blocks.
def scopedCases : Stmt :=
  .function ["k"] [.whileStmt (.name "k") (.block [
    .switchStmt (.name "k") true [(none, .block [.varDecl "y" none true, .expr (.name "y")])],
    .varDecl "z" (some (.name "k")) true])]

theorem scopedCases_inBounds : ChecksInBounds scopedCases .init :=
  visited_inBounds .init (by simp [Stmt.Scoped, Stmt.ScopedStatements, Stmt.ScopedCases, Stmt.isDeclaration])

-- The body of a case is a declaration.
def unscopedCase : Stmt :=
  .function ["k"] [.switchStmt (.name "k") true [(none, .varDecl "y" none true)], .expr (.name "y")]

theorem unscopedCase_not_inBounds :
    unscopedCase.Scoped false ∧ ¬ChecksInBounds unscopedCase .init := by
  refine ⟨by simp [unscopedCase, Stmt.Scoped, Stmt.ScopedStatements, Stmt.ScopedCases], fun h => ?_⟩
  have hp := h _ (List.mem_of_getElem? (show (checkNode unscopedCase .init).visited[1]? = some _ from rfl))
  exact absurd (hp "y" _ rfl rfl) (by decide)

end Coglet.Slots
