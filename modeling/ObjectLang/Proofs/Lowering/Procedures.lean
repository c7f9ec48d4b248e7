import ObjectLang.Lowering.Programs
import ObjectLang.Machine.Step
import ObjectLang.Proofs.Semantics.Store

/-!
# Procedures that take memory

Arrays are made by allocators and objects by constructors. The machine counts bytes with numbers of
32 bits, so these procedures do what they should only if what they make has at most `maxBytes`
bytes.
-/
namespace ObjectLang

open Machine IR

/-- The procedure that makes arrays with a component, as long as it has no body. -/
def allocatorSkeleton (component : ValueType) (returnType : Ty) : Procedure :=
  (({ name := allocatorName component, returnType } : Procedure).newParam "size" .int).2

/-- The procedure that makes arrays with a component. -/
def allocatorCode (component : ValueType) (returnType : Ty) (layout : ArrayLayout)
    (elementSize : Nat) : Procedure :=
  (buildAllocator (Builder.start (allocatorSkeleton component returnType) "init") (.temp 0) layout
    elementSize).procedure

/-- A procedure that makes arrays has been called for an array of more than `maxBytes` bytes. -/
def OversizedArray (m : Module) (s : State) : Prop :=
  ∃ component returnType layout n,
    s.frame.procedure = allocatorCode component returnType layout (m.sizeOf layout.element) ∧
      s.frame.temps[0]? = some (some (.int n)) ∧
      (maxBytes : Int) < 4 + n.toInt * m.sizeOf layout.element

/-- The procedure that makes the objects of a class has been called, and these have more than
`maxBytes` bytes. -/
def OversizedObject (m : Module) (s : State) : Prop :=
  ∃ cls struct, s.frame.procedure = constructorOf m cls struct ∧
    maxBytes < m.sizeOf (.struct struct)

/-- More memory is asked for than one object or array may have. -/
def Oversized (m : Module) : Huge → State → Prop
  | .array => OversizedArray m
  | .object => OversizedObject m

end ObjectLang
