import Lookahead.Production
import Lookahead.Token

/-!
# FOLLOW sets

The tokens that can stand right after each rule. The canonical sets are those of
variant records. Under the alternates records are extensible, and neither `|`
nor `ELSE` ends a field.
-/

namespace Lookahead.Grammar.Follow

def canonical : Production → List Token
  | .definitionModule | .implementationModule | .programModule => [.endOfFile]
  | .«import» | .qualifiedImport | .unqualifiedImport =>
    [.BEGIN, .CONST, .END, .EXPORT, .FROM, .IMPORT, .MODULE, .PROCEDURE, .TYPE, .VAR]
  | .identList => [.colon, .semicolon, .rightParen]
  | .definition => [.CONST, .END, .PROCEDURE, .TYPE, .VAR]
  | .constDefinition | .typeDefinition | .procedureHeader | .formalParameters | .modulePriority
  | .typeDeclaration | .variableDeclaration | .procedureDeclaration | .moduleDeclaration =>
    [.semicolon]
  | .constExpression => [.DO, .comma, .colon, .semicolon, .range, .rightBracket]
  | .qualident | .selector =>
    [.AND, .BY, .DIV, .DO, .ELSE, .ELSIF, .END, .IN, .MOD, .OF, .OR, .THEN, .TO, .UNTIL, .equal,
     .notEqual, .less, .lessEqual, .greater, .greaterEqual, .plus, .minus, .asterisk, .solidus,
     .ampersand, .assign, .comma, .period, .colon, .semicolon, .range, .deref, .bar, .leftParen,
     .rightParen, .leftBracket, .rightBracket, .leftBrace, .rightBrace]
  | .formalType => [.comma, .semicolon, .rightParen]
  | .block => [.identifier]
  | .declaration | .«export» => [.BEGIN, .CONST, .END, .MODULE, .PROCEDURE, .TYPE, .VAR]
  | .statementSequence => [.ELSE, .ELSIF, .END, .UNTIL, .bar]
  | .statement | .assignmentOrProcCall | .returnStatement | .withStatement | .ifStatement
  | .caseStatement | .loopStatement | .whileStatement | .repeatStatement | .forStatement =>
    [.ELSE, .ELSIF, .END, .UNTIL, .semicolon, .bar]
  | .actualParameters | .factor | .designatorOrFuncCall | .setValue =>
    [.AND, .BY, .DIV, .DO, .ELSE, .ELSIF, .END, .IN, .MOD, .OF, .OR, .THEN, .TO, .UNTIL, .equal,
     .notEqual, .less, .lessEqual, .greater, .greaterEqual, .plus, .minus, .asterisk, .solidus,
     .ampersand, .comma, .colon, .semicolon, .range, .bar, .rightParen, .rightBracket, .rightBrace]
  | .expressionList => [.rightParen, .rightBracket]
  | .«case» | .fieldListSequence | .variant => [.ELSE, .END, .bar]
  | .caseLabelList => [.colon]
  | .caseLabels => [.comma, .colon]
  | .designator =>
    [.AND, .BY, .DIV, .DO, .ELSE, .ELSIF, .END, .IN, .MOD, .OF, .OR, .THEN, .TO, .UNTIL, .equal,
     .notEqual, .less, .lessEqual, .greater, .greaterEqual, .plus, .minus, .asterisk, .solidus,
     .ampersand, .assign, .comma, .colon, .semicolon, .range, .bar, .leftParen, .rightParen,
     .rightBracket, .leftBrace, .rightBrace]
  | .expression =>
    [.BY, .DO, .ELSE, .ELSIF, .END, .OF, .THEN, .TO, .UNTIL, .comma, .colon, .semicolon, .range,
     .bar, .rightParen, .rightBracket, .rightBrace]
  | .simpleExpression =>
    [.BY, .DO, .ELSE, .ELSIF, .END, .IN, .OF, .THEN, .TO, .UNTIL, .equal, .notEqual, .less,
     .lessEqual, .greater, .greaterEqual, .comma, .colon, .semicolon, .range, .bar, .rightParen,
     .rightBracket, .rightBrace]
  | .term =>
    [.BY, .DO, .ELSE, .ELSIF, .END, .IN, .OF, .OR, .THEN, .TO, .UNTIL, .equal, .notEqual, .less,
     .lessEqual, .greater, .greaterEqual, .plus, .minus, .comma, .colon, .semicolon, .range, .bar,
     .rightParen, .rightBracket, .rightBrace]
  | .element => [.comma, .rightBrace]
  | .formalTypeList | .formalParamList => [.rightParen]
  | .attributedFormalType => [.comma, .rightParen]
  | .formalParams => [.semicolon, .rightParen]
  | .type | .derivedOrSubrangeType | .setType | .arrayType | .recordType | .pointerType
  | .procedureType | .fieldList | .variantFieldList => [.ELSE, .END, .semicolon, .bar]
  | .subrangeType | .enumType | .countableType => [.ELSE, .END, .OF, .comma, .semicolon, .bar]

def alternate : Production → List Token
  | .type | .derivedOrSubrangeType | .setType | .arrayType | .recordType | .pointerType
  | .procedureType | .fieldList => [.END, .semicolon]
  | .subrangeType | .enumType | .countableType => [.END, .OF, .comma, .semicolon]
  | .fieldListSequence => [.END]
  | .variantFieldList | .variant => []
  | p => canonical p

end Lookahead.Grammar.Follow
