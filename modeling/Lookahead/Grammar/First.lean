import Lookahead.Production
import Lookahead.Token

/-!
# FIRST sets

The tokens that can begin each rule. The canonical sets are those of extensible
records and of formal parameters without `CONST`. The alternates add the `CASE`
of variant parts, the empty field list before a semicolon, and `CONST`.
-/

namespace Lookahead.Grammar.First

def canonical : Production → List Token
  | .definitionModule => [.DEFINITION]
  | .«import» => [.FROM, .IMPORT]
  | .qualifiedImport => [.IMPORT]
  | .unqualifiedImport => [.FROM]
  | .identList | .constDefinition | .typeDefinition | .qualident | .typeDeclaration
  | .variableDeclaration | .assignmentOrProcCall | .designator | .designatorOrFuncCall
  | .fieldListSequence | .fieldList => [.identifier]
  | .definition => [.CONST, .PROCEDURE, .TYPE, .VAR]
  | .constExpression | .expressionList | .«case» | .caseLabelList | .caseLabels | .expression
  | .simpleExpression | .element | .variant =>
    [.NOT, .identifier, .string, .integer, .real, .char, .plus, .minus, .tilde, .leftParen,
     .leftBrace]
  | .formalType => [.ARRAY, .identifier]
  | .procedureHeader | .procedureDeclaration | .procedureType => [.PROCEDURE]
  | .formalParameters | .actualParameters | .enumType => [.leftParen]
  | .implementationModule => [.IMPLEMENTATION]
  | .programModule | .moduleDeclaration => [.MODULE]
  | .modulePriority | .subrangeType => [.leftBracket]
  | .block => [.BEGIN, .CONST, .END, .MODULE, .PROCEDURE, .TYPE, .VAR]
  | .declaration => [.CONST, .MODULE, .PROCEDURE, .TYPE, .VAR]
  | .«export» => [.EXPORT]
  | .statementSequence =>
    [.CASE, .EXIT, .FOR, .IF, .LOOP, .REPEAT, .RETURN, .WHILE, .WITH, .identifier, .semicolon]
  | .statement => [.CASE, .EXIT, .FOR, .IF, .LOOP, .REPEAT, .RETURN, .WHILE, .WITH, .identifier]
  | .returnStatement => [.RETURN]
  | .withStatement => [.WITH]
  | .ifStatement => [.IF]
  | .caseStatement | .variantFieldList => [.CASE]
  | .loopStatement => [.LOOP]
  | .whileStatement => [.WHILE]
  | .repeatStatement => [.REPEAT]
  | .forStatement => [.FOR]
  | .selector => [.period, .deref, .leftBracket]
  | .term | .factor =>
    [.NOT, .identifier, .string, .integer, .real, .char, .tilde, .leftParen, .leftBrace]
  | .setValue => [.leftBrace]
  | .formalTypeList | .attributedFormalType => [.ARRAY, .VAR, .identifier]
  | .formalParamList | .formalParams => [.VAR, .identifier]
  | .type => [.ARRAY, .POINTER, .PROCEDURE, .RECORD, .SET, .identifier, .leftParen, .leftBracket]
  | .derivedOrSubrangeType => [.identifier, .leftBracket]
  | .setType => [.SET]
  | .countableType => [.identifier, .leftParen, .leftBracket]
  | .arrayType => [.ARRAY]
  | .recordType => [.RECORD]
  | .pointerType => [.POINTER]

def alternate : Production → List Token
  | .formalTypeList | .attributedFormalType => [.ARRAY, .CONST, .VAR, .identifier]
  | .formalParamList | .formalParams => [.CONST, .VAR, .identifier]
  | .fieldListSequence => [.CASE, .identifier, .semicolon]
  | .fieldList => [.CASE, .identifier]
  | p => canonical p

end Lookahead.Grammar.First
