import Scriptlet.Tree

/-!
# One-line outlines of statements
-/

namespace Scriptlet

/-- What a statement is, in a few words. -/
def Stmt.outline : Stmt → String
  | .declare name _ constant => (if constant then "const " else "var ") ++ name.text
  | .function decl =>
    "function " ++ decl.name.text ++ "(" ++ ", ".intercalate (decl.params.map (·.text)) ++ ")"
  | .classDecl decl =>
    let superclass := match decl.superclass with
      | some name => " : " ++ name.text
      | none => ""
    "class " ++ decl.name.text ++ superclass ++ " (" ++
      toString decl.fields.length ++ " fields, " ++
      toString decl.methods.length ++ " methods" ++
      (if decl.constructor.isSome then ", constructor)" else ")")
  | .ret .. => "return"
  | .expr _ => "expression"
  | .block body => "block (" ++ toString body.length ++ " statements)"
  | .branch _ _ no => if no.isSome then "if/else" else "if"
  | .loop .. => "while"

end Scriptlet
