/-!
# Kind — the token kinds

A token kind stands at a fixed place in the grammar's symbol table.  The first fourteen kinds are tokens that the
text itself can hold; the last five are sentinels, which a parser sets to describe the state it is in and which no
token ever has.  `Kind.all` lists every kind at its own index (`ofIndex?_index`), and a kind is determined by its
index and by its name.
-/
namespace ContextScan

/-- **What a token is**, in the order of the symbol table. -/
inductive Kind where
  /-- The sigil of an expansion, alone or with its operator. -/
  | dollarExpansion
  | hatExpansion
  /-- The name in a binding written without blanks. -/
  | envVarName
  /-- The equals sign of a binding written without blanks. -/
  | envEqual
  /-- The name in a declaration written with blanks around the equals sign. -/
  | constDeclVar
  | comma
  | semicolon
  | closeParen
  | closeBrace
  | closeBracket
  | closingList
  | namedParamEq
  | byteStringMarker
  | newline
  /-- Any terminator may come next. -/
  | terminatorSentinel
  /-- The end of a statement may come next. -/
  | statementSentinel
  /-- The parser is inside a command that spans lines. -/
  | multilineCmdSentinel
  /-- A comma or what stands for it may come next. -/
  | commaSentinel
  /-- The parser is recovering from an error. -/
  | errorSentinel
  deriving DecidableEq

namespace Kind

/-- **The symbol table.** -/
def all : List Kind :=
  [dollarExpansion, hatExpansion, envVarName, envEqual, constDeclVar, comma, semicolon, closeParen, closeBrace,
    closeBracket, closingList, namedParamEq, byteStringMarker, newline, terminatorSentinel, statementSentinel,
    multilineCmdSentinel, commaSentinel, errorSentinel]

def count : Nat := 19

def index : Kind → Nat
  | dollarExpansion => 0
  | hatExpansion => 1
  | envVarName => 2
  | envEqual => 3
  | constDeclVar => 4
  | comma => 5
  | semicolon => 6
  | closeParen => 7
  | closeBrace => 8
  | closeBracket => 9
  | closingList => 10
  | namedParamEq => 11
  | byteStringMarker => 12
  | newline => 13
  | terminatorSentinel => 14
  | statementSentinel => 15
  | multilineCmdSentinel => 16
  | commaSentinel => 17
  | errorSentinel => 18

def ofIndex? (i : Nat) : Option Kind := all[i]?

/-- The name of a kind in logs and in stored values. -/
def name : Kind → String
  | dollarExpansion => "DollarExpansion"
  | hatExpansion => "HatExpansion"
  | envVarName => "EnvVarName"
  | envEqual => "EnvEqual"
  | constDeclVar => "ConstDeclVar"
  | comma => "Comma"
  | semicolon => "Semicolon"
  | closeParen => "CloseParen"
  | closeBrace => "CloseBrace"
  | closeBracket => "CloseBracket"
  | closingList => "ClosingList"
  | namedParamEq => "NamedParamEq"
  | byteStringMarker => "ByteStringMarker"
  | newline => "Newline"
  | terminatorSentinel => "TerminatorSentinel"
  | statementSentinel => "StatementSentinel"
  | multilineCmdSentinel => "MultilineCmdSentinel"
  | commaSentinel => "CommaSentinel"
  | errorSentinel => "ErrorSentinel"

def ofName? (s : String) : Option Kind := all.find? (fun k => k.name == s)

/-- The name of a kind in the grammar; a leading underscore marks a symbol that leaves no node in a syntax tree. -/
def grammarName : Kind → String
  | dollarExpansion => "dollar_expansion"
  | hatExpansion => "hat_expansion"
  | envVarName => "environment_variable_name"
  | envEqual => "environment_equals"
  | constDeclVar => "const_declaration_variable"
  | comma => "comma"
  | semicolon => "semicolon"
  | closeParen => "close_paren"
  | closeBrace => "close_brace"
  | closeBracket => "close_bracket"
  | closingList => "closing_list"
  | namedParamEq => "named_parameter_equals"
  | byteStringMarker => "byte_string_marker"
  | newline => "_newline"
  | terminatorSentinel => "_terminator_sentinel"
  | statementSentinel => "_statement_sentinel"
  | multilineCmdSentinel => "_multiline_command_sentinel"
  | commaSentinel => "_comma_sentinel"
  | errorSentinel => "error_sentinel"

instance : ToString Kind := ⟨grammarName⟩

/-- **Sentinels** describe the parser's state and are never emitted. -/
def isSentinel : Kind → Bool
  | terminatorSentinel | statementSentinel | multilineCmdSentinel | commaSentinel | errorSentinel => true
  | _ => false

instance : Ord Kind := ⟨fun a b => compare a.index b.index⟩

theorem mem_all (k : Kind) : k ∈ all := by cases k <;> decide

theorem length_all : all.length = count := rfl

theorem index_lt_count (k : Kind) : k.index < count := by cases k <;> decide

theorem ofIndex?_index (k : Kind) : ofIndex? k.index = some k := by cases k <;> rfl

theorem index_injective {a b : Kind} (h : a.index = b.index) : a = b := by
  have e := congrArg ofIndex? h
  rwa [ofIndex?_index, ofIndex?_index, Option.some.injEq] at e

theorem ofName?_name (k : Kind) : ofName? k.name = some k := by cases k <;> decide

theorem ofName?_eq_some_iff {s : String} {k : Kind} : ofName? s = some k ↔ s = k.name := by
  refine ⟨fun h => ?_, fun h => h ▸ ofName?_name k⟩
  have e := List.find?_some (p := fun k : Kind => k.name == s) h
  exact (beq_iff_eq.1 e).symm

end Kind
end ContextScan
