import Mathlib.Data.Nat.Notation

-- The syntax tree that is built by the parser and annotated by the semantic analysis.

namespace Coglet.Ast

structure SourceSpan where
  fileId      : Nat
  startOffset : Nat
  endOffset   : Nat
  line        : Nat
  column      : Nat
deriving DecidableEq, Repr

inductive TokenType
  | eof | error
  | numberInt | numberFloat | string | char | ident | true | false | null
  | if | else | while | for | return | defer | discard | staticAssert
  | void | struct | resource | union | break | continue | enum
  | switch | case | default | cast | truncate | in
  | reinterpret | move | readonly | volatile | opaquePointer | cfn
  | sizeOf | alignOf | asm
  | s8 | s16 | s32 | s64 | u8 | u16 | u32 | u64 | isize | usize | f32 | f64 | bool | intKw | uintKw
  | plus | minus | star | slash | percent
  | plusPlus | minusMinus
  | plusEqual | minusEqual | starEqual | slashEqual | percentEqual
  | equal | equalEqual | bang | bangEqual
  | less | lessEqual | greater | greaterEqual
  | shiftLeft | shiftRight | shiftLeftEqual | shiftRightEqual
  | andAnd | orOr
  | and | or | xor | tilde
  | andEqual | orEqual | xorEqual
  | lparen | rparen | lbrace | rbrace | lbracket | rbracket
  | semicolon | comma | dot | ellipsis | arrow | colon | colonColon | colonEqual | hash
deriving DecidableEq, Repr

structure Token where
  type : TokenType
  text : String
  span : SourceSpan
deriving DecidableEq, Repr

inductive FunctionLinkage
  | coglet | externC
deriving DecidableEq, Repr

inductive CastKind
  | checked | truncating | reinterpret
deriving DecidableEq, Repr

inductive CCallingConvention
  | default | cdecl | stdcall | sysv64 | win64
deriving DecidableEq, Repr

-- The bits of a floating-point literal are kept.
inductive NumberLiteral
  | integer (value : BitVec 64)
  | floating (bits : BitVec 64)
deriving DecidableEq, Repr

structure GenericTypeParameter where
  name       : String
  isPack     : Bool
  constraint : String
deriving DecidableEq, Repr

structure StructOperatorDecl where
  op         : TokenType
  isUnary    : Bool
  methodName : String
  span       : SourceSpan
deriving DecidableEq, Repr

-- The value of an enum member as it is recorded by the semantic analysis.
structure ResolvedValue where
  magnitude  : BitVec 64
  isNegative : Bool
deriving DecidableEq, Repr

-- The fields of declarations that are neither nodes nor semantic results. Pointers to types are shared between trees,
-- so what types are does not matter here.
structure FuncHeader (τ : Type) where
  name           : String
  typeParameters : List GenericTypeParameter
  returnType     : τ
  linkage        : FunctionLinkage
  isReprC        : Bool
  isDiscardable  : Bool
  cCallConv      : CCallingConvention
  isVariadic     : Bool
  externalName   : String
deriving DecidableEq, Repr

structure StructHeader where
  name           : String
  typeParameters : List GenericTypeParameter
  operators      : List StructOperatorDecl
  isReprC        : Bool
  isResource     : Bool
  reprCPacked    : Bool
  reprCAlign     : Nat
  isUnion        : Bool
  isIncomplete   : Bool
deriving DecidableEq, Repr

mutual

-- A pointer to a node.
inductive Node (τ : Type)
  | null
  | mk (isExported : Bool) (span : SourceSpan) (payload : Payload τ)

inductive Payload (τ : Type)
  | number (literal : NumberLiteral)
  | ident (name : String)
  | string (literal : String)
  | char (literal : String)
  | bool (value : Bool)
  | null
  | cast (kind : CastKind) (targetType : τ) (expression : Node τ)
  | unary (op : TokenType) (operand : Node τ)
  | binary (op : TokenType) (left right : Node τ)
  | incDec (op : TokenType) (target : Node τ) (isPrefix : Bool)
  | block (statements : List (Node τ))
  | assign (target value : Node τ)
  | compoundAssign (op : TokenType) (target value : Node τ)
  | exprStmt (expr : Node τ)
  | staticAssert (condition message : Node τ)
  | asm (template outputConstraint : String) (output : Node τ) (inputs : List (AsmOperand τ)) (isVolatile : Bool)
  | packFor (itemName : String) (pack body : Node τ)
  | call (callee : Node τ) (typeArguments : List τ) (arguments : List (Node τ))
  | packExpansion (operand : Node τ)
  | field (object : Node τ) (name dottedPath : String)
  | index (object index : Node τ)
  | typeRef (sourceType : τ)
  | program (statements : List (Node τ))
  | moduleDecl (name : String)
  | importDecl (name qualifier : String)
  | varDecl (varType : τ) (name : String) (initializer : Node τ)
  | varDeclGroup (declarations : List (Node τ))
  | funcDecl (header : FuncHeader τ) (params : List (Node τ)) (body : Node τ) (resolvedType : Option τ)
  | funcParamDecl (varType : τ) (name : String) (isPack : Bool)
  | structDecl (header : StructHeader) (fields methods : List (Node τ)) (resolvedType : Option τ)
  | structFieldDecl (varType : τ) (name : String)
  | enumDecl (name : String) (backingType : τ) (members : List (Node τ)) (isReprC : Bool) (resolvedType : Option τ)
  | enumMember (name : String) (value : Node τ) (resolvedValue : ResolvedValue)
  | structInit (moduleName name : String) (typeArguments : List τ) (fields : List (Node τ))
  | fieldInit (name : String) (value : Node τ)
  | constDecl (constType : τ) (name : String) (value : Node τ)
  | arrayLiteral (elements : List (Node τ)) (isZeroInitializer : Bool)
  | if (condition thenBranch elseBranch : Node τ) (isCompileTime : Bool) (compileTimeSelection : Int)
  | ifExpr (condition thenValue elseValue : Node τ)
  | switch (expression : Node τ) (cases : List (Node τ)) (resolvedType : Option τ) (isExhaustive : Bool)
  | switchCase (value body : Node τ) (isDefault : Bool)
  | return (value : Node τ)
  | defer (statement : Node τ)
  | while (condition body : Node τ)
  | for (condition post body : Node τ)
  | break
  | continue
  | error (token : Token)

inductive AsmOperand (τ : Type)
  | mk (constraint : String) (expression : Node τ)

end

end Coglet.Ast
