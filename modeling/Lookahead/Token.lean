/-!
# The terminal alphabet

The tokens a Modula-2 scanner hands to a parser. Reserved words are written
in capitals, as in program text. A token's place in the alphabet is part of
the literal format of token sets, so the order of the constructors is fixed:
the sentinel `unknown`, the reserved words, identifiers, literals, malformed
literals, pragmas, special symbols, and `endOfFile`.
-/

namespace Lookahead

inductive Token where
  | unknown
  | AND | ARRAY | BEGIN | BY | CASE | CONST | DEFINITION | DIV | DO | ELSE | ELSIF | END | EXIT
  | EXPORT | FOR | FROM | IF | IMPLEMENTATION | IMPORT | IN | LOOP | MOD | MODULE | NOT | OF
  | OR | POINTER | PROCEDURE | QUALIFIED | RECORD | REPEAT | RETURN | SET | THEN | TO | TYPE
  | UNTIL | VAR | WHILE | WITH
  | identifier
  | string | integer | real | char
  | malformedString | malformedInteger | malformedReal | malformedChar
  | pragma
  | equal | notEqual | less | lessEqual | greater | greaterEqual | plus | minus | asterisk
  | solidus | ampersand | tilde | assign | comma | period | colon | semicolon | range | deref
  | bar | leftParen | rightParen | leftBracket | rightBracket | leftBrace | rightBrace
  | endOfFile
  deriving DecidableEq, Repr, Inhabited

namespace Token

/-- Every token, in the order of the alphabet. -/
def all : List Token :=
  [.unknown, .AND, .ARRAY, .BEGIN, .BY, .CASE, .CONST, .DEFINITION, .DIV, .DO, .ELSE, .ELSIF,
   .END, .EXIT, .EXPORT, .FOR, .FROM, .IF, .IMPLEMENTATION, .IMPORT, .IN, .LOOP, .MOD, .MODULE,
   .NOT, .OF, .OR, .POINTER, .PROCEDURE, .QUALIFIED, .RECORD, .REPEAT, .RETURN, .SET, .THEN, .TO,
   .TYPE, .UNTIL, .VAR, .WHILE, .WITH, .identifier, .string, .integer, .real, .char,
   .malformedString, .malformedInteger, .malformedReal, .malformedChar, .pragma, .equal,
   .notEqual, .less, .lessEqual, .greater, .greaterEqual, .plus, .minus, .asterisk, .solidus,
   .ampersand, .tilde, .assign, .comma, .period, .colon, .semicolon, .range, .deref, .bar,
   .leftParen, .rightParen, .leftBracket, .rightBracket, .leftBrace, .rightBrace, .endOfFile]

abbrev count : Nat := 78

def ordinal (t : Token) : Nat := t.ctorIdx

def ofOrdinal? (n : Nat) : Option Token := all[n]?

theorem length_all : all.length = count := rfl

theorem all_getElem?_ordinal (t : Token) : all[t.ordinal]? = some t := by cases t <;> rfl

theorem ofOrdinal?_ordinal (t : Token) : ofOrdinal? t.ordinal = some t := all_getElem?_ordinal t

theorem mem_all (t : Token) : t ∈ all := List.mem_of_getElem? (all_getElem?_ordinal t)

theorem ordinal_lt_count (t : Token) : t.ordinal < count := by cases t <;> decide

theorem ordinal_injective {a b : Token} (h : a.ordinal = b.ordinal) : a = b :=
  Option.some.inj (by rw [← ofOrdinal?_ordinal a, h, ofOrdinal?_ordinal])

/-- The ordinals a token set may hold: all but that of `unknown`. -/
abbrev minElement : Nat := 1
abbrev maxOrdinal : Nat := 77

instance : LT Token := ⟨fun a b => a.ordinal < b.ordinal⟩
instance (a b : Token) : Decidable (a < b) := inferInstanceAs (Decidable (a.ordinal < b.ordinal))

/-- The distinct tokens of a list, in the order of the alphabet. -/
def ascending (ts : List Token) : List Token := all.filter (ts.contains ·)

def isBetween (low high t : Token) : Bool := low.ordinal ≤ t.ordinal && t.ordinal ≤ high.ordinal

def isReservedWord : Token → Bool := isBetween .AND .WITH
def isLiteral : Token → Bool := isBetween .string .char
def isMalformedLiteral : Token → Bool := isBetween .malformedString .malformedChar
def isSpecialSymbol : Token → Bool := isBetween .equal .rightBrace

/-- The spelling in program text, for the tokens that have only one. -/
def lexeme? : Token → Option String
  | .AND => some "AND"
  | .ARRAY => some "ARRAY"
  | .BEGIN => some "BEGIN"
  | .BY => some "BY"
  | .CASE => some "CASE"
  | .CONST => some "CONST"
  | .DEFINITION => some "DEFINITION"
  | .DIV => some "DIV"
  | .DO => some "DO"
  | .ELSE => some "ELSE"
  | .ELSIF => some "ELSIF"
  | .END => some "END"
  | .EXIT => some "EXIT"
  | .EXPORT => some "EXPORT"
  | .FOR => some "FOR"
  | .FROM => some "FROM"
  | .IF => some "IF"
  | .IMPLEMENTATION => some "IMPLEMENTATION"
  | .IMPORT => some "IMPORT"
  | .IN => some "IN"
  | .LOOP => some "LOOP"
  | .MOD => some "MOD"
  | .MODULE => some "MODULE"
  | .NOT => some "NOT"
  | .OF => some "OF"
  | .OR => some "OR"
  | .POINTER => some "POINTER"
  | .PROCEDURE => some "PROCEDURE"
  | .QUALIFIED => some "QUALIFIED"
  | .RECORD => some "RECORD"
  | .REPEAT => some "REPEAT"
  | .RETURN => some "RETURN"
  | .SET => some "SET"
  | .THEN => some "THEN"
  | .TO => some "TO"
  | .TYPE => some "TYPE"
  | .UNTIL => some "UNTIL"
  | .VAR => some "VAR"
  | .WHILE => some "WHILE"
  | .WITH => some "WITH"
  | .equal => some "="
  | .notEqual => some "#"
  | .less => some "<"
  | .lessEqual => some "<="
  | .greater => some ">"
  | .greaterEqual => some ">="
  | .plus => some "+"
  | .minus => some "-"
  | .asterisk => some "*"
  | .solidus => some "/"
  | .ampersand => some "&"
  | .tilde => some "~"
  | .assign => some ":="
  | .comma => some ","
  | .period => some "."
  | .colon => some ":"
  | .semicolon => some ";"
  | .range => some ".."
  | .deref => some "^"
  | .bar => some "|"
  | .leftParen => some "("
  | .rightParen => some ")"
  | .leftBracket => some "["
  | .rightBracket => some "]"
  | .leftBrace => some "\x7b"
  | .rightBrace => some "\x7d"
  | _ => none

/-- The spelling, or a phrase for the tokens whose spelling varies. -/
def name (t : Token) : String :=
  match t.lexeme? with
  | some lexeme => lexeme
  | none =>
    match t with
    | .identifier => "identifier"
    | .string => "string literal"
    | .integer => "integer literal"
    | .real => "real literal"
    | .char => "character literal"
    | .malformedString => "malformed string"
    | .malformedInteger => "malformed integer"
    | .malformedReal => "malformed real"
    | .malformedChar => "malformed character"
    | .pragma => "pragma"
    | .endOfFile => "end of file"
    | _ => "unknown"

instance : ToString Token := ⟨name⟩

/-- The token with this spelling. Case matters. -/
def ofLexeme? (s : String) : Option Token := all.find? (·.lexeme? == some s)

/-- The word that stands for the token in a listing of set members. -/
def label : Token → String
  | .unknown => "Unknown"
  | .AND => "And"
  | .ARRAY => "Array"
  | .BEGIN => "Begin"
  | .BY => "By"
  | .CASE => "Case"
  | .CONST => "Const"
  | .DEFINITION => "Definition"
  | .DIV => "Div"
  | .DO => "Do"
  | .ELSE => "Else"
  | .ELSIF => "Elsif"
  | .END => "End"
  | .EXIT => "Exit"
  | .EXPORT => "Export"
  | .FOR => "For"
  | .FROM => "From"
  | .IF => "If"
  | .IMPLEMENTATION => "Implementation"
  | .IMPORT => "Import"
  | .IN => "In"
  | .LOOP => "Loop"
  | .MOD => "Mod"
  | .MODULE => "Module"
  | .NOT => "Not"
  | .OF => "Of"
  | .OR => "Or"
  | .POINTER => "Pointer"
  | .PROCEDURE => "Procedure"
  | .QUALIFIED => "Qualified"
  | .RECORD => "Record"
  | .REPEAT => "Repeat"
  | .RETURN => "Return"
  | .SET => "Set"
  | .THEN => "Then"
  | .TO => "To"
  | .TYPE => "Type"
  | .UNTIL => "Until"
  | .VAR => "Var"
  | .WHILE => "While"
  | .WITH => "With"
  | .identifier => "Identifier"
  | .string => "String"
  | .integer => "Integer"
  | .real => "Real"
  | .char => "Char"
  | .malformedString => "MalformedString"
  | .malformedInteger => "MalformedInteger"
  | .malformedReal => "MalformedReal"
  | .malformedChar => "MalformedChar"
  | .pragma => "Pragma"
  | .equal => "Equal"
  | .notEqual => "NotEqual"
  | .less => "Less"
  | .lessEqual => "LessEqual"
  | .greater => "Greater"
  | .greaterEqual => "GreaterEqual"
  | .plus => "Plus"
  | .minus => "Minus"
  | .asterisk => "Asterisk"
  | .solidus => "Solidus"
  | .ampersand => "Ampersand"
  | .tilde => "Tilde"
  | .assign => "Assign"
  | .comma => "Comma"
  | .period => "Period"
  | .colon => "Colon"
  | .semicolon => "Semicolon"
  | .range => "Range"
  | .deref => "Deref"
  | .bar => "Bar"
  | .leftParen => "LeftParen"
  | .rightParen => "RightParen"
  | .leftBracket => "LeftBracket"
  | .rightBracket => "RightBracket"
  | .leftBrace => "LeftBrace"
  | .rightBrace => "RightBrace"
  | .endOfFile => "EndOfFile"

end Token

end Lookahead
