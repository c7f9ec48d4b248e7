import ObjectLang.Lowering.Statements

/-!
# Code for programs

The code of an accepted program: its functions, the methods of its classes, the function that the
program starts with, and a procedure for each type of arrays that the program makes.
-/
namespace ObjectLang

/-- The body of the procedure that makes arrays: it stops if the length is negative, takes memory,
and sets the length and every element. -/
def buildAllocator (b : IR.Builder) (size : IR.Operand) (layout : ArrayLayout)
    (elementSize : Nat) : IR.Builder :=
  let (negative, b) := b.binary .slt size (.int 0)
  let (fail, b) := b.newBlock "negative_size"
  let (good, b) := b.newBlock "good_size"
  let b := b.branch negative fail good
  let b := (b.switchTo fail).halt "Array Size must be positive"
  let b := b.switchTo good
  let (bytes, b) := b.binary .mul size (.int (Int32.ofNat elementSize))
  let (total, b) := b.binary .add bytes (.int 4)
  let (raw, b) := b.alloc total
  let (array, b) := b.bitcast raw layout.pointerType
  let (length, b) := b.elementPtr array [.int 0, .int 0] .int
  let b := b.store length size
  let (counter, b) := b.slot .int
  let b := b.store (.temp counter) (.int 0)
  let (check, b) := b.newBlock "loop_cond"
  let (again, b) := b.newBlock "loop_body"
  let (done, b) := b.newBlock "done"
  let b := b.jump check
  let b := b.switchTo check
  let (i, b) := b.load (.temp counter)
  let (more, b) := b.binary .slt i size
  let b := b.branch more again done
  let b := b.switchTo again
  let (i, b) := b.load (.temp counter)
  let (element, b) := b.elementPtr array [.int 0, .int 1, i] layout.element
  let b := b.store element layout.element.defaultValue
  let (next, b) := b.binary .add i (.int 1)
  let b := b.store (.temp counter) next
  let b := b.jump check
  (b.switchTo done).ret array

/-- A procedure gets the body that is built for it, which starts with a block of a name. -/
def fillProcedure (id : Nat) (entry : String) (build : Lower Unit) : Lower Unit := do
  let p ← known (← get).target.module.procedures[id]? (.procedure id)
  modify fun s => { s with builder := IR.Builder.start p entry }
  build
  modify fun s => { s with target := s.target.setProcedure id s.builder.procedure }

/-- Code for a function. -/
def lowerFunction (body : Body) (f : FunctionDecl) : Lower Unit := do
  let s ← known (body.layouts.function? f.name.name) (.signature f.name.name)
  fillProcedure s.procedure "entry" (lowerBody body false f)

/-- Code for a method of a class. -/
def lowerMethod (body : Body) (cls : ClassRef) (f : FunctionDecl) : Lower Unit := do
  let layout ← body.classLayout cls
  let s ← known (layout.method? f.name.name) (.signature f.name.name)
  fillProcedure s.procedure "entry" (lowerBody body true f)

/-- Code for the procedure that makes arrays with a component. -/
def lowerAllocator (body : Body) (component : ValueType) (id : Nat) : Lower Unit := do
  let layout ← onTarget (arrayLayout body.layouts.structs component)
  let elementSize := (← get).target.module.sizeOf layout.element
  let p ← known (← get).target.module.procedures[id]? (.procedure id)
  let size ← known p.params.head? (.procedure id)
  fillProcedure id "init" (perform fun b => buildAllocator b (.temp size) layout elementSize)

/-- Code for a whole program, in a module that has its layouts already. -/
def lowerProgram (body : Body) (p : Program) : Lower Unit := do
  let a := body.analysis
  (a.functions.functions.filter (·.name.name != mainName)).forM (lowerFunction body)
  a.classes.classes.forM fun cls =>
    ((a.members.of? cls).elim [] ClassMembers.methods).forM fun method =>
      lowerMethod body cls method.decl
  (p.function? mainName).toList.forM (lowerFunction body)
  (← get).allocators.forM fun (component, id) => lowerAllocator body component id

/-- The module of an analysed program. -/
def Program.lower (p : Program) (a : Analysis) (options : CompileOptions) :
    Except MissingFact IR.Module := do
  let (layouts, target) := (Layouts.build p a).run {}
  let ((), s) ← (lowerProgram { analysis := a, layouts, options } p).run { target }
  return s.target.module

end ObjectLang
