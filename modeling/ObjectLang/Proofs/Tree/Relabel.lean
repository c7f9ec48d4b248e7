import ObjectLang.Tree.Basic

/-!
# Trees with other labels

A tree of the same form in which the tags, the places and the names are others, each found from the
one that was there. Without its labels, a tree is only its form and its names.
-/
namespace ObjectLang

/-- What tags, places and names become. -/
structure Relabel where
  tag : Tag → Tag := id
  span : Span → Span := id
  name : String → String := id

namespace Relabel

/-- Tags and places are forgotten. -/
def bare : Relabel where
  tag _ := default
  span _ := default

@[simp]
theorem bare_tag (tag : Tag) : bare.tag tag = default :=
  rfl

@[simp]
theorem bare_span (span : Span) : bare.span span = default :=
  rfl

/-- Names are changed and nothing else. -/
def rename (ρ : String → String) : Relabel where
  name := ρ

end Relabel

def Ident.relabel (r : Relabel) (x : Ident) : Ident :=
  ⟨r.name x.name, r.span x.span⟩

def TypeExpr.relabel (r : Relabel) : TypeExpr → TypeExpr
  | .int tag => .int (r.tag tag)
  | .bool tag => .bool (r.tag tag)
  | .named tag name => .named (r.tag tag) (name.relabel r)
  | .array tag component => .array (r.tag tag) (component.relabel r)

mutual

def Expr.relabel (r : Relabel) : Expr → Expr
  | .unary tag op operand => .unary (r.tag tag) op (operand.relabel r)
  | .binary tag op left right => .binary (r.tag tag) op (left.relabel r) (right.relabel r)
  | .number tag value => .number (r.tag tag) value
  | .bool tag value => .bool (r.tag tag) value
  | .null tag => .null (r.tag tag)
  | .this tag => .this (r.tag tag)
  | .read tag location => .read (r.tag tag) (location.relabel r)
  | .arrayLength tag array => .arrayLength (r.tag tag) (array.relabel r)
  | .newObject tag cls => .newObject (r.tag tag) (cls.relabel r)
  | .newArray tag element size => .newArray (r.tag tag) (element.relabel r) (size.relabel r)
  | .call tag name args => .call (r.tag tag) (name.relabel r) (relabelArguments r args)
  | .methodCall tag receiver method args =>
    .methodCall (r.tag tag) (receiver.relabel r) (method.relabel r) (relabelArguments r args)
termination_by structural e => e

def Location.relabel (r : Relabel) : Location → Location
  | .var tag name => .var (r.tag tag) (name.relabel r)
  | .field tag receiver name => .field (r.tag tag) (receiver.relabel r) (name.relabel r)
  | .index tag array index => .index (r.tag tag) (array.relabel r) (index.relabel r)
termination_by structural l => l

def relabelArguments (r : Relabel) : List Expr → List Expr
  | [] => []
  | e :: es => e.relabel r :: relabelArguments r es
termination_by structural es => es

end

def VarDecl.relabel (r : Relabel) (d : VarDecl) : VarDecl :=
  ⟨r.tag d.tag, d.type.relabel r, d.name.relabel r⟩

mutual

def Stmt.relabel (r : Relabel) : Stmt → Stmt
  | .declare decl => .declare (decl.relabel r)
  | .eval value => .eval (value.relabel r)
  | .assign span target value => .assign (r.span span) (target.relabel r) (value.relabel r)
  | .branch span condition onTrue none =>
    .branch (r.span span) (condition.relabel r) (onTrue.relabel r) none
  | .branch span condition onTrue (some onFalse) =>
    .branch (r.span span) (condition.relabel r) (onTrue.relabel r) (some (onFalse.relabel r))
  | .loop span condition body => .loop (r.span span) (condition.relabel r) (body.relabel r)
  | .return span value => .return (r.span span) (value.relabel r)
  | .block span body => .block (r.span span) (relabelBody r body)
termination_by structural s => s

def relabelBody (r : Relabel) : List Stmt → List Stmt
  | [] => []
  | s :: rest => s.relabel r :: relabelBody r rest
termination_by structural body => body

end

def FunctionDecl.relabel (r : Relabel) (f : FunctionDecl) : FunctionDecl where
  tag := r.tag f.tag
  returnType := f.returnType.relabel r
  name := f.name.relabel r
  params := f.params.map (·.relabel r)
  bodySpan := r.span f.bodySpan
  body := relabelBody r f.body

def ClassDecl.relabel (r : Relabel) (c : ClassDecl) : ClassDecl where
  tag := r.tag c.tag
  name := c.name.relabel r
  superclass := c.superclass.map (·.relabel r)
  fields := c.fields.map (·.relabel r)
  methods := c.methods.map (·.relabel r)

def Program.relabel (r : Relabel) (p : Program) : Program where
  classes := p.classes.map (·.relabel r)
  functions := p.functions.map (·.relabel r)
  nodeCount := p.nodeCount

end ObjectLang
