import ObjectLang.Analysis.Basic
import ObjectLang.Proofs.Analysis.Progress
import ObjectLang.Proofs.Typing.StaticType

/-!
# What is noted of a checked tree

Once a tree was checked without complaint, each node has its type in the notes, each variable and
field what it refers to, and each call what it calls, all as the rules say. The notes stay true
while other trees are checked, because no two nodes have one identity.
-/
namespace ObjectLang

/-- What a location is noted to refer to is what it refers to. -/
def Variable.Matches (p : Program) : Variable → Binding → Prop
  | .slot d, .variable d' => d' = d
  | .field owner d, .field c d' => c.Faithful p ∧ c.name = owner ∧ d' = d
  | _, _ => False

/-- What a call is noted to call is what it calls. -/
def Callable.Matches (p : Program) : Callable → CallTarget → Prop
  | .print, .print => True
  | .function d, .function d' => d' = d
  | .method owner d, .method c d' => c.Faithful p ∧ c.name = owner ∧ d' = d
  | _, _ => False

section

variable (a : ArrayTypes) (n : Notes)

/-- The meaning of a written type is noted. -/
def TypeExpr.Recorded (p : Program) (t : TypeExpr) : Prop :=
  ∃ T, n.typeExpr? t.id = some T ∧ T.Denotes p a t.plain

variable (Γ : Context)

/-- A node has a type, and it is noted. -/
def TypeRecorded (id : Nat) (typed : PlainType → Prop) : Prop :=
  ∃ t, typed t ∧ ∃ T, n.type? id = some T ∧ T.Denotes Γ.program a t

def BindingRecorded (id : Nat) (v? : Option Variable) : Prop :=
  ∃ v, v? = some v ∧ ∃ b, n.binding? id = some b ∧ v.Matches Γ.program b

def CallRecorded (id : Nat) (c? : Option Callable) : Prop :=
  ∃ c, c? = some c ∧ ∃ target, n.call? id = some target ∧ c.Matches Γ.program target

mutual

/-- All nodes of an expression have notes that are true of them. -/
def Expr.Recorded : Expr → Prop
  | .unary tag op operand =>
    TypeRecorded a n Γ tag.id (HasType Γ (.unary tag op operand)) ∧ operand.Recorded
  | .binary tag op left right =>
    TypeRecorded a n Γ tag.id (HasType Γ (.binary tag op left right)) ∧ left.Recorded ∧
      right.Recorded
  | .number tag value => TypeRecorded a n Γ tag.id (HasType Γ (.number tag value))
  | .bool tag value => TypeRecorded a n Γ tag.id (HasType Γ (.bool tag value))
  | .null tag => TypeRecorded a n Γ tag.id (HasType Γ (.null tag))
  | .this tag => TypeRecorded a n Γ tag.id (HasType Γ (.this tag))
  | .read tag location =>
    TypeRecorded a n Γ tag.id (HasType Γ (.read tag location)) ∧ location.Recorded
  | .arrayLength tag array =>
    TypeRecorded a n Γ tag.id (HasType Γ (.arrayLength tag array)) ∧ array.Recorded
  | .newObject tag cls => TypeRecorded a n Γ tag.id (HasType Γ (.newObject tag cls))
  | .newArray tag element size =>
    TypeRecorded a n Γ tag.id (HasType Γ (.newArray tag element size)) ∧ size.Recorded
  | .call tag f args =>
    TypeRecorded a n Γ tag.id (HasType Γ (.call tag f args)) ∧
      CallRecorded n Γ tag.id (Γ.callable? f.name) ∧ ArgumentsRecorded args
  | .methodCall tag receiver f args =>
    TypeRecorded a n Γ tag.id (HasType Γ (.methodCall tag receiver f args)) ∧
      (∃ c, HasType Γ receiver (.object c) ∧ CallRecorded n Γ tag.id (Γ.method? c f.name)) ∧
        receiver.Recorded ∧ ArgumentsRecorded args
termination_by structural e => e

def Location.Recorded : Location → Prop
  | .var tag x =>
    TypeRecorded a n Γ tag.id (Location.HasType Γ (.var tag x)) ∧
      BindingRecorded n Γ tag.id (Γ.resolve? x.name)
  | .field tag receiver x =>
    TypeRecorded a n Γ tag.id (Location.HasType Γ (.field tag receiver x)) ∧
      (∃ c, HasType Γ receiver (.object c) ∧ BindingRecorded n Γ tag.id (Γ.field? c x.name)) ∧
        receiver.Recorded
  | .index tag array index =>
    TypeRecorded a n Γ tag.id (Location.HasType Γ (.index tag array index)) ∧ array.Recorded ∧
      index.Recorded
termination_by structural l => l

def ArgumentsRecorded : List Expr → Prop
  | [] => True
  | e :: es => e.Recorded ∧ ArgumentsRecorded es
termination_by structural es => es

end

end

theorem Expr.Recorded.typed {a : ArrayTypes} {n : Notes} {Γ : Context} {e : Expr}
    (h : e.Recorded a n Γ) : TypeRecorded a n Γ e.id (HasType Γ e) := by
  cases e with
  | number | bool | null | this | newObject => exact h
  | _ => exact h.1

theorem Location.Recorded.typed {a : ArrayTypes} {n : Notes} {Γ : Context} {l : Location}
    (h : l.Recorded a n Γ) : TypeRecorded a n Γ l.id (l.HasType Γ) := by
  cases l <;> exact h.1

section

variable (a : ArrayTypes) (n : Notes)

mutual

/-- All nodes of a statement have notes that are true of them. -/
def Stmt.Recorded (Γ : Context) : Stmt → Prop
  | .declare d => d.type.Recorded a n Γ.program
  | .eval e => e.Recorded a n Γ
  | .assign _ l e => l.Recorded a n Γ ∧ e.Recorded a n Γ
  | .branch _ c s none => c.Recorded a n Γ ∧ s.Recorded Γ
  | .branch _ c s (some s') => c.Recorded a n Γ ∧ s.Recorded Γ ∧ s'.Recorded Γ
  | .loop _ c s => c.Recorded a n Γ ∧ s.Recorded Γ
  | .return _ e => e.Recorded a n Γ
  | .block _ body => BodyRecorded Γ body
termination_by structural s => s

def BodyRecorded (Γ : Context) : List Stmt → Prop
  | [] => True
  | s :: rest => s.Recorded Γ ∧ BodyRecorded (s.after Γ) rest
termination_by structural body => body

end

/-- The signature and the body of a function have notes that are true of them. -/
structure FunctionDecl.Recorded (Γ : Context) (f : FunctionDecl) : Prop where
  returnType : f.returnType.Recorded a n Γ.program
  params : ∀ x ∈ f.params, x.type.Recorded a n Γ.program
  body : BodyRecorded a n { Γ with locals := f.params.reverse } f.body

end

section

variable {a b : ArrayTypes} {n m : Notes} {Γ : Context}

theorem TypeExpr.Recorded.mono {p : Program} {t : TypeExpr} (hab : a.Within b)
    (hnm : ∀ id T, n.typeExpr? id = some T → m.typeExpr? id = some T) (h : t.Recorded a n p) :
    t.Recorded b m p := by
  obtain ⟨T, hT, hd⟩ := h
  exact ⟨T, hnm _ _ hT, hd.mono hab⟩

theorem TypeRecorded.mono {id : Nat} {typed : PlainType → Prop} (hab : a.Within b)
    (hs : n.SameAt m id) (h : TypeRecorded a n Γ id typed) : TypeRecorded b m Γ id typed := by
  obtain ⟨t, ht, T, hT, hd⟩ := h
  exact ⟨t, ht, T, hs.type.trans hT, hd.mono hab⟩

theorem BindingRecorded.mono {id : Nat} {v? : Option Variable} (hs : n.SameAt m id)
    (h : BindingRecorded n Γ id v?) : BindingRecorded m Γ id v? := by
  obtain ⟨v, hv, b, hb, hm⟩ := h
  exact ⟨v, hv, b, hs.binding.trans hb, hm⟩

theorem CallRecorded.mono {id : Nat} {c? : Option Callable} (hs : n.SameAt m id)
    (h : CallRecorded n Γ id c?) : CallRecorded m Γ id c? := by
  obtain ⟨c, hc, target, ht, hm⟩ := h
  exact ⟨c, hc, target, hs.call.trans ht, hm⟩

mutual

theorem Expr.Recorded.mono (hab : a.Within b) : ∀ {e : Expr}, (∀ id ∈ e.ids, n.SameAt m id) →
    e.Recorded a n Γ →
    e.Recorded b m Γ
  | .unary tag op operand, hs, h => by
      simp only [Expr.ids, List.forall_mem_cons] at hs
      simp only [Expr.Recorded] at h ⊢
      exact ⟨h.1.mono hab hs.1, h.2.mono hab hs.2⟩
  | .binary tag op left right, hs, h => by
      simp only [Expr.ids, List.forall_mem_cons, List.forall_mem_append] at hs
      simp only [Expr.Recorded] at h ⊢
      exact ⟨h.1.mono hab hs.1, h.2.1.mono hab hs.2.1, h.2.2.mono hab hs.2.2⟩
  | .number tag value, hs, h => TypeRecorded.mono hab (hs tag.id (by simp [Expr.ids])) h
  | .bool tag value, hs, h => TypeRecorded.mono hab (hs tag.id (by simp [Expr.ids])) h
  | .null tag, hs, h => TypeRecorded.mono hab (hs tag.id (by simp [Expr.ids])) h
  | .this tag, hs, h => TypeRecorded.mono hab (hs tag.id (by simp [Expr.ids])) h
  | .newObject tag cls, hs, h => TypeRecorded.mono hab (hs tag.id (by simp [Expr.ids])) h
  | .read tag location, hs, h => by
      simp only [Expr.ids, List.forall_mem_cons] at hs
      simp only [Expr.Recorded] at h ⊢
      exact ⟨h.1.mono hab hs.1, Location.Recorded.mono hab hs.2 h.2⟩
  | .arrayLength tag array, hs, h => by
      simp only [Expr.ids, List.forall_mem_cons] at hs
      simp only [Expr.Recorded] at h ⊢
      exact ⟨h.1.mono hab hs.1, h.2.mono hab hs.2⟩
  | .newArray tag element size, hs, h => by
      simp only [Expr.ids, List.forall_mem_cons, List.forall_mem_append] at hs
      simp only [Expr.Recorded] at h ⊢
      exact ⟨h.1.mono hab hs.1, h.2.mono hab hs.2.2⟩
  | .call tag f args, hs, h => by
      simp only [Expr.ids, List.forall_mem_cons] at hs
      simp only [Expr.Recorded] at h ⊢
      exact ⟨h.1.mono hab hs.1, h.2.1.mono hs.1, ArgumentsRecorded.mono hab hs.2 h.2.2⟩
  | .methodCall tag receiver f args, hs, h => by
      simp only [Expr.ids, List.forall_mem_cons, List.forall_mem_append] at hs
      simp only [Expr.Recorded] at h ⊢
      obtain ⟨ht, ⟨c, hc, hcall⟩, hr, hargs⟩ := h
      exact ⟨ht.mono hab hs.1, ⟨c, hc, hcall.mono hs.1⟩, hr.mono hab hs.2.1,
        ArgumentsRecorded.mono hab hs.2.2 hargs⟩
termination_by structural e => e

theorem Location.Recorded.mono (hab : a.Within b) :
    ∀ {l : Location}, (∀ id ∈ l.ids, n.SameAt m id) →
    l.Recorded a n Γ → l.Recorded b m Γ
  | .var tag x, hs, h => by
      have hs := hs tag.id (by simp [Location.ids])
      simp only [Location.Recorded] at h ⊢
      exact ⟨h.1.mono hab hs, h.2.mono hs⟩
  | .field tag receiver x, hs, h => by
      simp only [Location.ids, List.forall_mem_cons] at hs
      simp only [Location.Recorded] at h ⊢
      obtain ⟨ht, ⟨c, hc, hbinding⟩, hr⟩ := h
      exact ⟨ht.mono hab hs.1, ⟨c, hc, hbinding.mono hs.1⟩, Expr.Recorded.mono hab hs.2 hr⟩
  | .index tag array index, hs, h => by
      simp only [Location.ids, List.forall_mem_cons, List.forall_mem_append] at hs
      simp only [Location.Recorded] at h ⊢
      exact ⟨h.1.mono hab hs.1, Expr.Recorded.mono hab hs.2.1 h.2.1,
        Expr.Recorded.mono hab hs.2.2 h.2.2⟩
termination_by structural l => l

theorem ArgumentsRecorded.mono (hab : a.Within b) :
    ∀ {es : List Expr}, (∀ id ∈ idsOfArguments es, n.SameAt m id) →
    ArgumentsRecorded a n Γ es → ArgumentsRecorded b m Γ es
  | [], _, _ => trivial
  | e :: es, hs, h => by
      simp only [idsOfArguments, List.forall_mem_append] at hs
      exact ⟨Expr.Recorded.mono hab hs.1 h.1, ArgumentsRecorded.mono hab hs.2 h.2⟩
termination_by structural es => es

end

mutual

theorem Stmt.Recorded.mono (hab : a.Within b)
    (hnm : ∀ id T, n.typeExpr? id = some T → m.typeExpr? id = some T) :
    ∀ {Γ : Context} {s : Stmt}, (∀ id ∈ s.ids, n.SameAt m id) →
    s.Recorded a n Γ → s.Recorded b m Γ
  | _, .declare d, _, h => TypeExpr.Recorded.mono hab hnm h
  | _, .eval e, hs, h => Expr.Recorded.mono hab hs h
  | _, .assign _ l e, hs, h => by
      simp only [Stmt.ids, List.forall_mem_append] at hs
      exact ⟨Location.Recorded.mono hab hs.1 h.1, Expr.Recorded.mono hab hs.2 h.2⟩
  | _, .branch _ c s none, hs, h => by
      simp only [Stmt.ids, List.forall_mem_append] at hs
      exact ⟨Expr.Recorded.mono hab hs.1 h.1, Stmt.Recorded.mono hab hnm hs.2 h.2⟩
  | _, .branch _ c s (some s'), hs, h => by
      simp only [Stmt.ids, List.forall_mem_append] at hs
      exact ⟨Expr.Recorded.mono hab hs.1 h.1, Stmt.Recorded.mono hab hnm hs.2.1 h.2.1,
        Stmt.Recorded.mono hab hnm hs.2.2 h.2.2⟩
  | _, .loop _ c s, hs, h => by
      simp only [Stmt.ids, List.forall_mem_append] at hs
      exact ⟨Expr.Recorded.mono hab hs.1 h.1, Stmt.Recorded.mono hab hnm hs.2 h.2⟩
  | _, .return _ e, hs, h => Expr.Recorded.mono hab hs h
  | _, .block _ body, hs, h => BodyRecorded.mono hab hnm hs h
termination_by structural _ s => s

theorem BodyRecorded.mono (hab : a.Within b)
    (hnm : ∀ id T, n.typeExpr? id = some T → m.typeExpr? id = some T) :
    ∀ {Γ : Context} {body : List Stmt},
    (∀ id ∈ idsOfBody body, n.SameAt m id) → BodyRecorded a n Γ body → BodyRecorded b m Γ body
  | _, [], _, _ => trivial
  | _, s :: rest, hs, h => by
      simp only [idsOfBody, List.forall_mem_append] at hs
      exact ⟨Stmt.Recorded.mono hab hnm hs.1 h.1, BodyRecorded.mono hab hnm hs.2 h.2⟩
termination_by structural _ body => body

end

end

end ObjectLang
