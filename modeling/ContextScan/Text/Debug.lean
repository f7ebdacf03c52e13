/-!
# Text.Debug — how structured values are written in a log

A record is its name and its fields in braces, a set its members in braces.  The bare forms of an empty record are
never needed; an empty set is two braces.
-/
namespace ContextScan

def debugRecord (name : String) (fields : List (String × String)) : String :=
  name ++ " \x7b " ++ ", ".intercalate (fields.map fun f => f.1 ++ ": " ++ f.2) ++ " \x7d"

def debugSet (members : List String) : String :=
  "\x7b" ++ ", ".intercalate members ++ "\x7d"

/-- A set with a line for each member, indented by four spaces and closed by a comma. -/
def debugSetLines (members : List String) : String :=
  if members.isEmpty then debugSet []
  else "\x7b\n" ++ String.join (members.map fun m => "    " ++ m ++ ",\n") ++ "\x7d"

end ContextScan
