import Covenant.Syntax.Tree
/-!
Syntax trees without the lines of their nodes, so that `a.bare = b.bare` says that two trees are the same up to
lines.
-/

namespace Covenant

mutual
def TypeExpr.bare : TypeExpr → TypeExpr
  | .named name _ => .named name 0
  | .array element => .array element.bare
  | .object fields => .object (TypeExpr.bareFields fields)

def TypeExpr.bareFields : List (String × TypeExpr) → List (String × TypeExpr)
  | [] => []
  | (name, t) :: rest => (name, t.bare) :: TypeExpr.bareFields rest
end

mutual
def Expr.bare : Expr → Expr
  | .number text _ => .number text 0
  | .string value _ => .string value 0
  | .boolean value _ => .boolean value 0
  | .array items _ => .array (Expr.bareAll items) 0
  | .name text _ => .name text 0
  | .this _ => .this 0
  | .member object text _ => .member object.bare text 0
  | .index object place _ => .index object.bare place.bare 0
  | .method object text arguments _ => .method object.bare text (Expr.bareAll arguments) 0
  | .call text arguments _ => .call text (Expr.bareAll arguments) 0
  | .unary op operand _ => .unary op operand.bare 0
  | .binary op left right _ => .binary op left.bare right.bare 0

def Expr.bareAll : List Expr → List Expr
  | [] => []
  | e :: rest => e.bare :: Expr.bareAll rest
end

mutual
def Stmt.bare : Stmt → Stmt
  | .block statements _ => .block (Stmt.bareAll statements) 0
  | .declare name type value _ => .declare name (type.map TypeExpr.bare) value.bare 0
  | .assign target op value _ => .assign target.bare op value.bare 0
  | .ifThen condition yes _ => .ifThen condition.bare yes.bare 0
  | .ifElse condition yes no _ => .ifElse condition.bare yes.bare no.bare 0
  | .loop condition body _ => .loop condition.bare body.bare 0
  | .leave value _ => .leave (value.map Expr.bare) 0
  | .evaluate value _ => .evaluate value.bare 0

def Stmt.bareAll : List Stmt → List Stmt
  | [] => []
  | s :: rest => s.bare :: Stmt.bareAll rest
end

def Directive.bare (d : Directive) : Directive := { d with line := 0 }

def Parameter.bare (p : Parameter) : Parameter := { p with type := p.type.bare, line := 0 }

def FieldDecl.bare (f : FieldDecl) : FieldDecl :=
  { f with type := f.type.bare, directives := f.directives.map Directive.bare, line := 0 }

def FunctionDecl.bare (f : FunctionDecl) : FunctionDecl :=
  { f with
    parameters := f.parameters.map Parameter.bare
    result := f.result.map TypeExpr.bare
    body := f.body.bare
    directives := f.directives.map Directive.bare
    line := 0 }

def RecordDecl.bare (r : RecordDecl) : RecordDecl :=
  { r with
    fields := r.fields.map FieldDecl.bare
    functions := r.functions.map FunctionDecl.bare
    directives := r.directives.map Directive.bare
    line := 0 }

def Program.bare (program : Program) : Program := program.map RecordDecl.bare

end Covenant
