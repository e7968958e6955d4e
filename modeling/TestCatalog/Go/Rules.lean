import TestCatalog.Go.Pattern

/-!
# Go/Rules — the rules of Go

A grammar of Go source files that also takes statements at the top level.  It says nothing of names
and types, so a text may have several readings: `a[b](c)` is a conversion, a call of an element, or
a call with a type argument.  The weights of the productions decide which of them is taken.
-/

namespace TestCatalog.Go

open Pattern (optional repeated separated)

namespace Rules

/-- A terminal. -/
def tok (t : Terminal) : Pattern := .token t {}

/-- A category. -/
def cat (k : Kind) : Pattern := .category k {}

/-- A terminal whose leaf has another kind here. -/
def tokAs (t : Terminal) (k : Kind) : Pattern := .token t { label := some k }

/-- A category whose node has another kind here. -/
def catAs (c k : Kind) : Pattern := .category c { label := some k }

/-- Patterns in a row. -/
def all : List Pattern → Pattern
  | [] => .empty
  | [p] => p
  | p :: ps => .seq p (all ps)

/-- One of some patterns. -/
def any : List Pattern → Pattern
  | [] => .empty
  | [p] => p
  | p :: ps => .alt p (any ps)

/-- A pattern once or more, with commas between. -/
def listed (p : Pattern) : Pattern := separated p (tok .comma)

/-- What ends a statement or a declaration. -/
def terminator : Pattern := any [tok .lineEnd, tok .semicolon]

/-- Patterns in a row on lines of their own, between braces. -/
def lines (p : Pattern) : Pattern :=
  all [tok .openBrace, optional (all [separated p terminator, optional terminator]),
    tok .closeBrace]

/-- The name of a type. -/
def typeName : Pattern := tokAs .identifier .typeIdentifier

/-- The name of a field or method. -/
def fieldName : Pattern := tokAs .identifier .fieldIdentifier

/-- The name of a package. -/
def packageName : Pattern := tokAs .identifier .packageIdentifier

/-- The name of a label. -/
def label : Pattern := tokAs .identifier .labelName

/-- A type. -/
def type : Pattern := any [cat .simpleType, cat .parenthesizedType]

/-- A text literal. -/
def text : Pattern := any [tok .rawText, tok .quotedText]

/-- What a function returns. -/
def result : Pattern := optional (any [cat .parameterList, cat .simpleType])

/-- A label without a statement. -/
def emptyLabeled : Pattern := catAs .emptyLabeledStatement .labeledStatement

/-- The declarations that a source file needs no line end behind. -/
def topLevel : Pattern :=
  any [cat .packageClause, cat .functionDeclaration, cat .methodDeclaration, cat .importDeclaration]

/-- The rules of declarations. -/
def declarations : List Rule :=
  [ { kind := .sourceFile
      pattern := all [
        repeated (any [all [cat .statement, terminator], all [topLevel, terminator]]),
        optional topLevel, tok .finish] },
    { kind := .packageClause, pattern := all [tok .packageWord, packageName] },
    { kind := .importDeclaration
      pattern := all [tok .importWord, any [cat .importSpec, cat .importSpecList]] },
    { kind := .importSpec
      pattern := all [optional (any [cat .dot, tok .blankWord, packageName]), text] },
    { kind := .dot, pattern := tok .dot },
    { kind := .importSpecList
      pattern := all [tok .openParen,
        optional (all [separated (cat .importSpec) terminator, optional terminator]),
        tok .closeParen] },
    { kind := .declaration
      pattern := any [cat .constDeclaration, cat .typeDeclaration, cat .varDeclaration] },
    { kind := .constDeclaration
      pattern := all [tok .constWord, any [cat .constSpec,
        all [tok .openParen, repeated (all [cat .constSpec, terminator]), tok .closeParen]]] },
    { kind := .constSpec, associativity := .left
      pattern := all [listed (tok .identifier),
        optional (all [optional type, tok .assign, cat .expressionList])] },
    { kind := .varDeclaration
      pattern := all [tok .varWord, any [cat .varSpec, cat .varSpecList]] },
    { kind := .varSpec
      pattern := all [listed (tok .identifier), any [
        all [type, optional (all [tok .assign, cat .expressionList])],
        all [tok .assign, cat .expressionList]]] },
    { kind := .varSpecList
      pattern := all [tok .openParen, repeated (all [cat .varSpec, terminator]), tok .closeParen] },
    { kind := .functionDeclaration, precedence := 1, associativity := .right
      pattern := all [tok .funcWord, (tok .identifier).playing .name,
        optional (cat .typeParameterList), cat .parameterList, result,
        optional ((cat .block).playing .body)] },
    { kind := .methodDeclaration, precedence := 1, associativity := .right
      pattern := all [tok .funcWord, cat .parameterList, fieldName, cat .parameterList, result,
        optional (cat .block)] },
    { kind := .typeParameterList
      pattern := all [tok .openBracket, listed (cat .typeParameterDeclaration),
        optional (tok .comma), tok .closeBracket] },
    { kind := .typeParameterDeclaration
      pattern := all [listed (tok .identifier), catAs .typeElem .typeConstraint] },
    { kind := .parameterList
      pattern := all [tok .openParen,
        optional (all [
          optional (listed (any [cat .parameterDeclaration, cat .variadicParameterDeclaration])),
          optional (tok .comma)]),
        tok .closeParen] },
    { kind := .parameterDeclaration
      pattern := all [optional (listed (tok .identifier)), type] },
    { kind := .variadicParameterDeclaration
      pattern := all [optional (tok .identifier), tok .ellipsis, type] },
    { kind := .typeAlias
      pattern := all [typeName, optional (cat .typeParameterList), tok .assign, type] },
    { kind := .typeDeclaration
      pattern := all [tok .typeWord, any [cat .typeSpec, cat .typeAlias,
        all [tok .openParen,
          optional (all [separated (any [cat .typeSpec, cat .typeAlias]) terminator,
            optional terminator]),
          tok .closeParen]]] },
    { kind := .typeSpec
      pattern := all [typeName, optional (cat .typeParameterList), type] } ]

/-- The rules of types. -/
def types : List Rule :=
  [ { kind := .parenthesizedType, pattern := all [tok .openParen, type, tok .closeParen] },
    { kind := .simpleType, weight := -100, pattern := typeName },
    { kind := .simpleType
      pattern := any [cat .genericType, cat .qualifiedType, cat .pointerType, cat .structType,
        cat .interfaceType, cat .arrayType, cat .sliceType, cat .channelType, cat .functionType,
        cat .negatedType] },
    { kind := .simpleType, weight := 300, pattern := cat .mapType },
    { kind := .genericType, weight := 100
      pattern := all [any [typeName, cat .qualifiedType, cat .negatedType], cat .typeArguments] },
    { kind := .typeArguments, weight := 200
      pattern := all [tok .openBracket, listed (cat .typeElem), optional (tok .comma),
        tok .closeBracket] },
    { kind := .pointerType, precedence := 6, pattern := all [tok .star, type] },
    { kind := .arrayType, associativity := .right
      pattern := all [tok .openBracket, cat .expression, tok .closeBracket, type] },
    { kind := .implicitLengthArrayType
      pattern := all [tok .openBracket, tok .ellipsis, tok .closeBracket, type] },
    { kind := .sliceType, associativity := .right
      pattern := all [tok .openBracket, tok .closeBracket, type] },
    { kind := .structType, pattern := all [tok .structWord, cat .fieldDeclarationList] },
    { kind := .negatedType, associativity := .left, pattern := all [tok .tilde, type] },
    { kind := .fieldDeclarationList, pattern := lines (cat .fieldDeclaration) },
    { kind := .fieldDeclaration
      pattern := all [
        any [all [listed fieldName, type],
          all [optional (tok .star), any [typeName, cat .qualifiedType, cat .genericType]]],
        optional text] },
    { kind := .interfaceType
      pattern := all [tok .interfaceWord, lines (any [cat .methodElem, cat .typeElem])] },
    { kind := .methodElem, pattern := all [fieldName, cat .parameterList, result] },
    { kind := .typeElem, pattern := separated type (tok .bar) },
    { kind := .mapType, associativity := .right
      pattern := all [tok .mapWord, tok .openBracket, type, tok .closeBracket, type] },
    { kind := .channelType, associativity := .left
      pattern := all [tok .chanWord, optional (tok .arrow), type] },
    { kind := .channelType, precedence := 6, associativity := .left
      pattern := all [tok .arrow, tok .chanWord, type] },
    { kind := .functionType, associativity := .right
      pattern := all [tok .funcWord, cat .parameterList, result] },
    { kind := .qualifiedType, pattern := all [packageName, tok .dot, typeName] } ]

/-- The rules of statements. -/
def statements : List Rule :=
  [ { kind := .block
      pattern := all [tok .openBrace, optional (cat .statementList), tok .closeBrace] },
    { kind := .statementList
      pattern := any [
        all [separated (cat .statement) terminator,
          optional (all [terminator, optional emptyLabeled])],
        emptyLabeled] },
    { kind := .statement
      pattern := any [cat .declaration, cat .simpleStatement, cat .returnStatement,
        cat .goStatement, cat .deferStatement, cat .ifStatement, cat .forStatement,
        cat .expressionSwitchStatement, cat .typeSwitchStatement, cat .selectStatement,
        cat .labeledStatement, cat .fallthroughStatement, cat .breakStatement,
        cat .continueStatement, cat .gotoStatement, cat .block, cat .emptyStatement] },
    { kind := .emptyStatement, pattern := tok .semicolon },
    { kind := .simpleStatement
      pattern := any [cat .expressionStatement, cat .sendStatement, cat .incStatement,
        cat .decStatement, cat .assignmentStatement, cat .shortVarDeclaration] },
    { kind := .expressionStatement, pattern := cat .expression },
    { kind := .sendStatement, pattern := all [cat .expression, tok .arrow, cat .expression] },
    { kind := .receiveStatement
      pattern := all [
        optional (all [cat .expressionList, any [tok .assign, tok .define]]), cat .expression] },
    { kind := .incStatement, pattern := all [cat .expression, tok .increment] },
    { kind := .decStatement, pattern := all [cat .expression, tok .decrement] },
    { kind := .assignmentStatement
      pattern := all [(cat .expressionList).playing .left, any [tok .updateSign, tok .assign],
        (cat .expressionList).playing .right] },
    { kind := .shortVarDeclaration
      pattern := all [(cat .expressionList).playing .left, tok .define,
        (cat .expressionList).playing .right] },
    { kind := .labeledStatement, pattern := all [label, tok .colon, cat .statement] },
    { kind := .emptyLabeledStatement, pattern := all [label, tok .colon] },
    { kind := .fallthroughStatement, associativity := .left, pattern := tok .fallthroughWord },
    { kind := .breakStatement, pattern := all [tok .breakWord, optional label] },
    { kind := .continueStatement, pattern := all [tok .continueWord, optional label] },
    { kind := .gotoStatement, pattern := all [tok .gotoWord, label] },
    { kind := .returnStatement, pattern := all [tok .returnWord, optional (cat .expressionList)] },
    { kind := .goStatement, pattern := all [tok .goWord, cat .expression] },
    { kind := .deferStatement, pattern := all [tok .deferWord, cat .expression] },
    { kind := .ifStatement
      pattern := all [tok .ifWord, optional (all [cat .simpleStatement, tok .semicolon]),
        cat .expression, cat .block,
        optional (all [tok .elseWord, any [cat .block, cat .ifStatement]])] },
    { kind := .forStatement
      pattern := all [tok .forWord,
        optional (any [cat .expression, cat .forClause, cat .rangeClause]),
        (cat .block).playing .body] },
    { kind := .forClause
      pattern := all [optional (cat .simpleStatement), tok .semicolon, optional (cat .expression),
        tok .semicolon, optional (cat .simpleStatement)] },
    { kind := .rangeClause
      pattern := all [
        optional (all [cat .expressionList, any [tok .assign, tok .define]]),
        tok .rangeWord, cat .expression] },
    { kind := .expressionSwitchStatement
      pattern := all [tok .switchWord, optional (all [cat .simpleStatement, tok .semicolon]),
        optional (cat .expression), tok .openBrace,
        repeated (any [cat .expressionCase, cat .defaultCase]), tok .closeBrace] },
    { kind := .expressionCase
      pattern := all [tok .caseWord, cat .expressionList, tok .colon,
        optional (cat .statementList)] },
    { kind := .defaultCase
      pattern := all [tok .defaultWord, tok .colon, optional (cat .statementList)] },
    { kind := .typeSwitchStatement
      pattern := all [tok .switchWord, cat .typeSwitchHeader, tok .openBrace,
        repeated (any [cat .typeCase, cat .defaultCase]), tok .closeBrace] },
    { kind := .typeSwitchHeader
      pattern := all [optional (all [cat .simpleStatement, tok .semicolon]),
        optional (all [cat .expressionList, tok .define]), cat .expression, tok .dot,
        tok .openParen, tok .typeWord, tok .closeParen] },
    { kind := .typeCase
      pattern := all [tok .caseWord, listed type, tok .colon, optional (cat .statementList)] },
    { kind := .selectStatement
      pattern := all [tok .selectWord, tok .openBrace,
        repeated (any [cat .communicationCase, cat .defaultCase]), tok .closeBrace] },
    { kind := .communicationCase
      pattern := all [tok .caseWord, any [cat .sendStatement, cat .receiveStatement], tok .colon,
        optional (cat .statementList)] } ]

/-- The operators between two operands, by precedence. -/
def operators : List (Int × List Terminal) :=
  [ (5, [.star, .factorSign, .ampersand]), (4, [.signSign, .bar]), (3, [.compareSign]),
    (2, [.bothSign]), (1, [.eitherSign]) ]

/-- The rules of expressions. -/
def expressions : List Rule :=
  [ { kind := .expressionList, pattern := listed (cat .expression) },
    { kind := .expression
      pattern := any [cat .unaryExpression, cat .binaryExpression, cat .selectorExpression,
        cat .indexExpression, cat .sliceExpression, cat .callExpression,
        cat .typeAssertionExpression, cat .typeConversionExpression,
        cat .typeInstantiationExpression, tok .identifier, tok .makerWord, cat .compositeLiteral,
        cat .funcLiteral, text, tok .number, tok .rune, tok .constantWord,
        cat .parenthesizedExpression] },
    { kind := .parenthesizedExpression
      pattern := all [tok .openParen, cat .expression, tok .closeParen] },
    { kind := .callExpression, precedence := 7
      pattern := any [
        all [(tok .makerWord).playing .function,
          (catAs .specialArgumentList .argumentList).playing .arguments],
        all [(cat .expression).playing .function, (cat .argumentList).playing .arguments]] },
    { kind := .callExpression, precedence := 7, weight := -2
      pattern := all [(cat .expression).playing .function, cat .typeArguments,
        (cat .argumentList).playing .arguments] },
    { kind := .variadicArgument, associativity := .right
      pattern := all [cat .expression, tok .ellipsis] },
    { kind := .specialArgumentList
      pattern := all [tok .openParen,
        optional (all [type, repeated (all [tok .comma, cat .expression]), optional (tok .comma)]),
        tok .closeParen] },
    { kind := .argumentList
      pattern := all [tok .openParen,
        optional (all [listed (any [cat .expression, cat .variadicArgument]),
          optional (tok .comma)]),
        tok .closeParen] },
    { kind := .selectorExpression, precedence := 7
      pattern := all [(cat .expression).playing .operand, tok .dot, fieldName.playing .field] },
    { kind := .indexExpression, precedence := 7, weight := 99
      pattern := all [cat .expression, tok .openBracket, cat .expression, tok .closeBracket] },
    { kind := .sliceExpression, precedence := 7
      pattern := all [cat .expression, tok .openBracket, optional (cat .expression), tok .colon,
        any [optional (cat .expression), all [cat .expression, tok .colon, cat .expression]],
        tok .closeBracket] },
    { kind := .typeAssertionExpression, precedence := 7
      pattern := all [cat .expression, tok .dot, tok .openParen, type, tok .closeParen] },
    { kind := .typeConversionExpression, weight := -100
      pattern := all [type, tok .openParen, cat .expression, optional (tok .comma),
        tok .closeParen] },
    { kind := .typeInstantiationExpression, weight := -100
      pattern := all [type, tok .openBracket, listed type, optional (tok .comma),
        tok .closeBracket] },
    { kind := .compositeLiteral, precedence := -1
      pattern := all [
        any [cat .mapType, cat .sliceType, cat .arrayType, cat .implicitLengthArrayType,
          cat .structType, typeName, cat .genericType, cat .qualifiedType],
        (cat .literalValue).playing .body] },
    { kind := .literalValue
      pattern := all [tok .openBrace,
        optional (all [optional (listed (any [cat .literalElement, cat .keyedElement])),
          optional (tok .comma)]),
        tok .closeBrace] },
    { kind := .literalElement, pattern := any [cat .expression, cat .literalValue] },
    { kind := .keyedElement
      pattern := all [(cat .literalElement).playing .key, tok .colon,
        (cat .literalElement).playing .value] },
    { kind := .funcLiteral
      pattern := all [tok .funcWord, cat .parameterList, result, cat .block] },
    { kind := .unaryExpression, precedence := 6
      pattern := all [
        any [tok .signSign, tok .bang, tok .star, tok .ampersand, tok .arrow], cat .expression] } ]
    ++ operators.map fun (level, signs) =>
      { kind := .binaryExpression, precedence := level, associativity := .left
        pattern := all [cat .expression, any (signs.map tok), cat .expression] }

end Rules

/-- The rules of the grammar. -/
def rules : List Rule :=
  Rules.declarations ++ Rules.types ++ Rules.statements ++ Rules.expressions

end TestCatalog.Go
