/-!
# The rules of the grammar

The non-terminals of Modula-2, in the order of the grammar tables. Rules whose
sets depend on a dialect option come last, those on `CONST` parameters before
those on variant records. Each of them has a second row in either table.
-/

namespace Lookahead

/-- The dialect option that the sets of a rule depend on. -/
inductive Dependency where
  | independent | constParameters | variantRecords
  deriving DecidableEq, Repr, Inhabited

namespace Dependency

def name : Dependency → String
  | .independent => "independent"
  | .constParameters => "const-parameters"
  | .variantRecords => "variant-records"

def label : Dependency → String
  | .independent => "Independent"
  | .constParameters => "ConstParameters"
  | .variantRecords => "VariantRecords"

end Dependency

inductive Production where
  | definitionModule | «import» | qualifiedImport | unqualifiedImport | identList | definition
  | constDefinition | constExpression | typeDefinition | qualident | formalType
  | procedureHeader | formalParameters | implementationModule | programModule | modulePriority
  | block | declaration | typeDeclaration | variableDeclaration | procedureDeclaration
  | moduleDeclaration | «export» | statementSequence | statement | assignmentOrProcCall
  | actualParameters | expressionList | returnStatement | withStatement | ifStatement
  | caseStatement | «case» | caseLabelList | caseLabels | loopStatement | whileStatement
  | repeatStatement | forStatement | designator | selector | expression | simpleExpression
  | term | factor | designatorOrFuncCall | setValue | element
  | formalTypeList | attributedFormalType | formalParamList | formalParams
  | type | derivedOrSubrangeType | subrangeType | enumType | setType | countableType
  | arrayType | recordType | pointerType | procedureType | fieldListSequence | fieldList
  | variantFieldList | variant
  deriving DecidableEq, Repr, Inhabited

namespace Production

/-- Every rule, in the order of the tables. -/
def all : List Production :=
  [.definitionModule, .«import», .qualifiedImport, .unqualifiedImport, .identList, .definition,
   .constDefinition, .constExpression, .typeDefinition, .qualident, .formalType, .procedureHeader,
   .formalParameters, .implementationModule, .programModule, .modulePriority, .block,
   .declaration, .typeDeclaration, .variableDeclaration, .procedureDeclaration,
   .moduleDeclaration, .«export», .statementSequence, .statement, .assignmentOrProcCall,
   .actualParameters, .expressionList, .returnStatement, .withStatement, .ifStatement,
   .caseStatement, .«case», .caseLabelList, .caseLabels, .loopStatement, .whileStatement,
   .repeatStatement, .forStatement, .designator, .selector, .expression, .simpleExpression, .term,
   .factor, .designatorOrFuncCall, .setValue, .element, .formalTypeList, .attributedFormalType,
   .formalParamList, .formalParams, .type, .derivedOrSubrangeType, .subrangeType, .enumType,
   .setType, .countableType, .arrayType, .recordType, .pointerType, .procedureType,
   .fieldListSequence, .fieldList, .variantFieldList, .variant]

abbrev count : Nat := 66

def ordinal (p : Production) : Nat := p.ctorIdx

def ofOrdinal? (n : Nat) : Option Production := all[n]?

theorem length_all : all.length = count := rfl

theorem all_getElem?_ordinal (p : Production) : all[p.ordinal]? = some p := by cases p <;> rfl

theorem mem_all (p : Production) : p ∈ all := List.mem_of_getElem? (all_getElem?_ordinal p)

theorem ordinal_lt_count (p : Production) : p.ordinal < count := by cases p <;> decide

/-- The distinct rules of a list, in the order of the tables. -/
def ascending (ps : List Production) : List Production := all.filter (ps.contains ·)

def dependency : Production → Dependency
  | .formalTypeList | .attributedFormalType | .formalParamList | .formalParams => .constParameters
  | .type | .derivedOrSubrangeType | .subrangeType | .enumType | .setType | .countableType
  | .arrayType | .recordType | .pointerType | .procedureType | .fieldListSequence | .fieldList
  | .variantFieldList | .variant => .variantRecords
  | _ => .independent

def isOptionDependent (p : Production) : Bool := p.dependency != .independent

def firstOptionDependent : Production := .formalTypeList
def lastOptionDependent : Production := .variant

/-- How many rules depend on an option. -/
def alternateOffset : Nat := lastOptionDependent.ordinal - firstOptionDependent.ordinal + 1

/-- The name of the rule in the grammar. -/
def name : Production → String
  | .definitionModule => "definitionModule"
  | .«import» => "import"
  | .qualifiedImport => "qualifiedImport"
  | .unqualifiedImport => "unqualifiedImport"
  | .identList => "identList"
  | .definition => "definition"
  | .constDefinition => "constDefinition"
  | .constExpression => "constExpression"
  | .typeDefinition => "typeDefinition"
  | .qualident => "qualident"
  | .formalType => "formalType"
  | .procedureHeader => "procedureHeader"
  | .formalParameters => "formalParameters"
  | .implementationModule => "implementationModule"
  | .programModule => "programModule"
  | .modulePriority => "modulePriority"
  | .block => "block"
  | .declaration => "declaration"
  | .typeDeclaration => "typeDeclaration"
  | .variableDeclaration => "variableDeclaration"
  | .procedureDeclaration => "procedureDeclaration"
  | .moduleDeclaration => "moduleDeclaration"
  | .«export» => "export"
  | .statementSequence => "statementSequence"
  | .statement => "statement"
  | .assignmentOrProcCall => "assignmentOrProcCall"
  | .actualParameters => "actualParameters"
  | .expressionList => "expressionList"
  | .returnStatement => "returnStatement"
  | .withStatement => "withStatement"
  | .ifStatement => "ifStatement"
  | .caseStatement => "caseStatement"
  | .«case» => "case"
  | .caseLabelList => "caseLabelList"
  | .caseLabels => "caseLabels"
  | .loopStatement => "loopStatement"
  | .whileStatement => "whileStatement"
  | .repeatStatement => "repeatStatement"
  | .forStatement => "forStatement"
  | .designator => "designator"
  | .selector => "selector"
  | .expression => "expression"
  | .simpleExpression => "simpleExpression"
  | .term => "term"
  | .factor => "factor"
  | .designatorOrFuncCall => "designatorOrFuncCall"
  | .setValue => "setValue"
  | .element => "element"
  | .formalTypeList => "formalTypeList"
  | .attributedFormalType => "attributedFormalType"
  | .formalParamList => "formalParamList"
  | .formalParams => "formalParams"
  | .type => "type"
  | .derivedOrSubrangeType => "derivedOrSubrangeType"
  | .subrangeType => "subrangeType"
  | .enumType => "enumType"
  | .setType => "setType"
  | .countableType => "countableType"
  | .arrayType => "arrayType"
  | .recordType => "recordType"
  | .pointerType => "pointerType"
  | .procedureType => "procedureType"
  | .fieldListSequence => "fieldListSequence"
  | .fieldList => "fieldList"
  | .variantFieldList => "variantFieldList"
  | .variant => "variant"

instance : ToString Production := ⟨name⟩

def ofName? (s : String) : Option Production := all.find? (·.name == s)

def label (p : Production) : String := p.name.capitalize

end Production

end Lookahead
