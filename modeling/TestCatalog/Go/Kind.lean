import TestCatalog.Go.Terminal

/-!
# Go/Kind — kinds of syntax nodes

Every category of the grammar and every kind of leaf has a name here.  Hidden categories group
others and make no node of their own.
-/

namespace TestCatalog.Go

/-- The kinds of syntax nodes, and the categories of the grammar. -/
inductive Kind where
  -- categories that make no node
  | declaration
  | simpleType
  | statement
  | simpleStatement
  | typeSwitchHeader
  | expression
  -- declarations
  | sourceFile
  | packageClause
  | importDeclaration
  | importSpec
  | importSpecList
  | dot
  | constDeclaration
  | constSpec
  | varDeclaration
  | varSpec
  | varSpecList
  | functionDeclaration
  | methodDeclaration
  | typeParameterList
  | typeParameterDeclaration
  | parameterList
  | parameterDeclaration
  | variadicParameterDeclaration
  | typeDeclaration
  | typeAlias
  | typeSpec
  -- types
  | parenthesizedType
  | genericType
  | typeArguments
  | pointerType
  | arrayType
  | implicitLengthArrayType
  | sliceType
  | structType
  | negatedType
  | fieldDeclarationList
  | fieldDeclaration
  | interfaceType
  | methodElem
  | typeElem
  | typeConstraint
  | mapType
  | channelType
  | functionType
  | qualifiedType
  -- statements
  | block
  | statementList
  | emptyStatement
  | expressionStatement
  | sendStatement
  | receiveStatement
  | incStatement
  | decStatement
  | assignmentStatement
  | shortVarDeclaration
  | labeledStatement
  | emptyLabeledStatement
  | fallthroughStatement
  | breakStatement
  | continueStatement
  | gotoStatement
  | returnStatement
  | goStatement
  | deferStatement
  | ifStatement
  | forStatement
  | forClause
  | rangeClause
  | expressionSwitchStatement
  | expressionCase
  | defaultCase
  | typeSwitchStatement
  | typeCase
  | selectStatement
  | communicationCase
  -- expressions
  | expressionList
  | parenthesizedExpression
  | callExpression
  | variadicArgument
  | specialArgumentList
  | argumentList
  | selectorExpression
  | indexExpression
  | sliceExpression
  | typeAssertionExpression
  | typeConversionExpression
  | typeInstantiationExpression
  | compositeLiteral
  | literalValue
  | literalElement
  | keyedElement
  | funcLiteral
  | unaryExpression
  | binaryExpression
  -- leaves
  | identifier
  | typeIdentifier
  | fieldIdentifier
  | packageIdentifier
  | labelName
  | blankIdentifier
  | numberLiteral
  | runeLiteral
  | rawStringLiteral
  | interpretedStringLiteral
  | constantName
  | comment
  | punctuation
deriving DecidableEq, Repr, Inhabited

namespace Kind

/-- The number of the category in the parser's tables. -/
def index (k : Kind) : Nat := k.ctorIdx

/-- The number of kinds. -/
def count : Nat := punctuation.index + 1

/-- Whether a category makes no node of its own. -/
def isHidden : Kind → Bool
  | declaration | simpleType | statement | simpleStatement | typeSwitchHeader | expression => true
  | _ => false

/-- Whether a node of the kind is one of the named children of its parent. -/
def isNamed (k : Kind) : Bool := k ≠ punctuation

end Kind

/-- The kind of leaf a terminal makes. -/
def Terminal.kind : Terminal → Kind
  | .identifier | .makerWord => .identifier
  | .blankWord => .blankIdentifier
  | .number => .numberLiteral
  | .rune => .runeLiteral
  | .rawText => .rawStringLiteral
  | .quotedText => .interpretedStringLiteral
  | .constantWord => .constantName
  | _ => .punctuation

/-- The parts a child can play in its parent. -/
inductive Role where
  | name
  | body
  | left
  | right
  | function
  | arguments
  | operand
  | field
  | key
  | value
deriving DecidableEq, Repr, Inhabited

end TestCatalog.Go
