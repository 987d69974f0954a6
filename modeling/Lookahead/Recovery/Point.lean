import Lookahead.TokenSet.Basic

/-!
# Recovery points

The places of the grammar where a parser picks up again after a syntax error,
and the tokens it skips to there.
-/

namespace Lookahead

inductive ResyncPoint where
  | importOrDefinitionOrEnd | definitionOrEnd | importOrBlock | declarationOrBody
  | identOrSemicolon | statementOrTerminator | elsifOrElseOrEnd | caseOrElseOrEnd
  | commaOrRightParen | semicolonOrRightParen | fieldListOrEnd
  deriving DecidableEq, Repr, Inhabited

namespace ResyncPoint

def all : List ResyncPoint :=
  [.importOrDefinitionOrEnd, .definitionOrEnd, .importOrBlock, .declarationOrBody,
   .identOrSemicolon, .statementOrTerminator, .elsifOrElseOrEnd, .caseOrElseOrEnd,
   .commaOrRightParen, .semicolonOrRightParen, .fieldListOrEnd]

abbrev count : Nat := 11

def ordinal (p : ResyncPoint) : Nat := p.ctorIdx

def ofOrdinal? (n : Nat) : Option ResyncPoint := all[n]?

theorem all_getElem?_ordinal (p : ResyncPoint) : all[p.ordinal]? = some p := by cases p <;> rfl

def name : ResyncPoint → String
  | .importOrDefinitionOrEnd => "importOrDefinitionOrEnd"
  | .definitionOrEnd => "definitionOrEnd"
  | .importOrBlock => "importOrBlock"
  | .declarationOrBody => "declarationOrBody"
  | .identOrSemicolon => "identOrSemicolon"
  | .statementOrTerminator => "statementOrTerminator"
  | .elsifOrElseOrEnd => "elsifOrElseOrEnd"
  | .caseOrElseOrEnd => "caseOrElseOrEnd"
  | .commaOrRightParen => "commaOrRightParen"
  | .semicolonOrRightParen => "semicolonOrRightParen"
  | .fieldListOrEnd => "fieldListOrEnd"

def label (p : ResyncPoint) : String := p.name.capitalize

def tokens : ResyncPoint → List Token
  | .importOrDefinitionOrEnd => [.CONST, .END, .FROM, .IMPORT, .PROCEDURE, .TYPE, .VAR]
  | .definitionOrEnd => [.CONST, .END, .PROCEDURE, .TYPE, .VAR]
  | .importOrBlock => [.BEGIN, .CONST, .END, .FROM, .IMPORT, .MODULE, .PROCEDURE, .TYPE, .VAR]
  | .declarationOrBody => [.BEGIN, .CONST, .END, .MODULE, .PROCEDURE, .TYPE, .VAR]
  | .identOrSemicolon => [.identifier, .semicolon]
  | .statementOrTerminator =>
    [.CASE, .ELSE, .ELSIF, .END, .EXIT, .FOR, .IF, .LOOP, .REPEAT, .RETURN, .UNTIL, .WHILE, .WITH,
     .identifier, .semicolon, .bar]
  | .elsifOrElseOrEnd => [.ELSE, .ELSIF, .END]
  | .caseOrElseOrEnd => [.ELSE, .END, .bar]
  | .commaOrRightParen => [.comma, .rightParen]
  | .semicolonOrRightParen => [.semicolon, .rightParen]
  | .fieldListOrEnd => [.CASE, .END, .identifier, .semicolon]

/-- The recovery set. It is the same in every dialect. -/
def resync (p : ResyncPoint) : TokenSet := .ofTokens p.tokens

end ResyncPoint

end Lookahead
