import Treewalk.Expr

/-! Statements and their texts. -/

namespace Treewalk

inductive Stmt where
  | expression (expr : Expr)
  | print (keyword : Token) (expr : Expr)
  | var (name : Token) (initializer : Option Expr)
  | block (body : List Stmt)

/-- The name that a statement declares in the scope it stands in. -/
def Stmt.declares : Stmt → Option String
  | .var name _ => some name.lexeme
  | _ => none

mutual

/-- The statement with its keyword in front of its parts. -/
def Stmt.text : Stmt → String
  | .expression expr => "(; " ++ expr.text ++ ")"
  | .print _ expr => "(print " ++ expr.text ++ ")"
  | .var name none => "(var " ++ name.lexeme ++ ")"
  | .var name (some initializer) => "(var " ++ name.lexeme ++ " " ++ initializer.text ++ ")"
  | .block body => "(block" ++ Stmt.listText body ++ ")"

/-- The texts of statements, each behind a space. -/
def Stmt.listText : List Stmt → String
  | [] => ""
  | stmt :: rest => " " ++ stmt.text ++ Stmt.listText rest

end

end Treewalk
