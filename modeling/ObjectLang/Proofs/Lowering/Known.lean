import ObjectLang.Proofs.Analysis.Reached
import ObjectLang.Proofs.Lowering.Programs

/-!
# Every fact that code needs is known

What the analysis of an accepted program notes of a node is what it found out when it came to the
node, and it fits the layouts: every variable, field and call has a meaning, a field has a slot, and
a function or method that is called has a signature with as many parameters as there are arguments.
So making code misses no fact.
-/
namespace ObjectLang

open Check

/-- Nothing in a type was left open. -/
def ValueType.Certain : ValueType → Prop
  | .any => False
  | .array _ component => component.Certain
  | .int | .bool | .null | .object _ => True

/-- The objects of a class have a slot for a field of a class above it. -/
def Layouts.HasSlot (L : Layouts) (cls owner : ClassRef) (d : VarDecl) : Prop :=
  ∃ l, L.class? cls.name = some l ∧ (l.fieldIndex? owner.name d.name.name).isSome

/-- What is called has a signature with some number of parameters. -/
def Layouts.Takes (L : Layouts) (count : Nat) : CallTarget → Prop
  | .print => count = 1
  | .function d => ∃ s, L.function? d.name.name = some s ∧ s.params.length = count
  | .method owner d => ∃ l s, L.class? owner.name = some l ∧ l.method? d.name.name = some s ∧
      s.params.length = count

/-- What a node of a function refers to and calls is noted, and is there: the variables are among
those of the function, the fields have slots, and what is called has a signature. -/
def Node.Bound (a : Analysis) (L : Layouts) (vars : List VarDecl) : Node → Prop
  | .location (.var tag _) =>
    (∃ d ∈ vars, a.notes.binding? tag.id = some (.variable d)) ∨
      ∃ owner d, a.notes.binding? tag.id = some (.field owner d) ∧ L.HasSlot owner owner d
  | .location (.field tag receiver _) =>
    ∃ cls owner d, a.notes.type? receiver.id = some (.object cls) ∧
      a.notes.binding? tag.id = some (.field owner d) ∧ L.HasSlot cls owner d
  | .expr (.call tag _ args) =>
    ∃ target, a.notes.call? tag.id = some target ∧ L.Takes args.length target
  | .expr (.methodCall tag _ _ args) =>
    ∃ owner d, a.notes.call? tag.id = some (.method owner d) ∧
      L.Takes args.length (.method owner d)
  | _ => True

/-- What is noted of the body of a function. -/
structure FunctionDecl.Noted (p : Program) (printName : String) (a : Analysis) (L : Layouts)
    (d : FunctionDecl) : Prop where
  /-- The analysis comes to the function. -/
  begins : ∃ env start, p.Begins printName env d start
  /-- Then it comes to every node of its body. -/
  comesTo : ∀ env start, p.Begins printName env d start → ∀ n ∈ nodesOfBody d.body,
    ∃ scope f, d.ComesTo env start scope n f
  /-- The type that the check of a node gives there is the one that is noted at the end. -/
  types : ∀ env start, p.Begins printName env d start → ∀ scope n f,
    d.ComesTo env start scope n f →
      a.notes.type? n.id = some ((n.check env scope).value f) ∧
        ((n.check env scope).value f).Certain
  bound : ∀ n ∈ nodesOfBody d.body, n.Bound a L (d.params ++ localsOf d.body)

/-- What is noted of an accepted program. -/
structure Program.Noted (p : Program) (printName : String) (a : Analysis) (L : Layouts) : Prop where
  methods : ∀ c ∈ p.classes, ∀ d ∈ c.methods, d.Noted p printName a L
  functions : ∀ d ∈ p.functions, d.Noted p printName a L
  /-- Every type that is written has a meaning. -/
  typeExprs : ∀ t ∈ p.classes.flatMap ClassDecl.written ++ p.functions.flatMap FunctionDecl.written,
    ∃ T, a.notes.typeExpr? t.id = some T ∧ T.Certain

theorem ValueType.Denotes.certain {p : Program} {a : ArrayTypes} {T : ValueType} {t : PlainType}
    (h : T.Denotes p a t) : T.Certain := by
  induction h with
  | array _ _ ih => exact ih
  | _ => trivial

section

variable {Φ f : Findings} {Γ : Context} {env : Surroundings} {scope : Scope}
  (hh : Γ.program.Hierarchy) (hp : Γ.program.ids.Nodup)
include hh hp

/-- What is noted of an expression at the end is the type that its check gives. -/
theorem Check.ExprFine.type? (hΦ : Φ.Sound Γ.program) {e : Expr} (h : ExprFine Φ Γ env scope f e) :
    Φ.notes.type? e.id = some ((checkExpr env scope e).value f) ∧
      ((checkExpr env scope e).value f).Certain := by
  obtain ⟨t, ht, hd⟩ :=
    ((decided_expr hh hp env scope h.ids h.written f h.ready).sound h.quiet.silent).type
  obtain ⟨u, hu, T, hT, hd'⟩ := h.recorded.typed
  obtain rfl := ht.unique hu
  rw [hT, hd'.injective hh hΦ.arrays (hd.mono h.quiet.kept.arrays)]
  exact ⟨rfl, hd.certain⟩

theorem Check.LocationFine.type? (hΦ : Φ.Sound Γ.program) {l : Location}
    (h : LocationFine Φ Γ env scope f l) :
    Φ.notes.type? l.id = some ((checkLocation env scope l).value f) ∧
      ((checkLocation env scope l).value f).Certain := by
  obtain ⟨t, ht, hd⟩ :=
    ((decided_location hh hp env scope h.ids h.written f h.ready).sound h.quiet.silent).type
  obtain ⟨u, hu, T, hT, hd'⟩ := h.recorded.typed
  obtain rfl := ht.unique hu
  rw [hT, hd'.injective hh hΦ.arrays (hd.mono h.quiet.kept.arrays)]
  exact ⟨rfl, hd.certain⟩

/-- The type of the elements of a new array has a meaning. -/
theorem Check.ExprFine.isSome_element {tag : Tag} {element : TypeExpr} {size : Expr}
    (h : ExprFine Φ Γ env scope f (.newArray tag element size)) :
    (Φ.notes.typeExpr? element.id).isSome := by
  obtain ⟨hr, hq, hids, hw, _⟩ := h
  obtain ⟨_, hsize, _⟩ := List.nodup_append'.1 (List.nodup_cons.1 hids).2
  rw [Expr.written, List.forall_mem_cons] at hw
  rw [checkExpr_newArray] at hq
  have hq := hq.unnoted
  have hready := ready_operandOf hh hp hr hsize hw.2 hq.first.silent
  have hq := hq.second.first
  have hnoted := ((checkType_spec hh hr.env.classes hp hw.1 hready.sound).1 hq.silent).noted
  exact hq.kept.typeExprs _ (by rw [hnoted]; rfl)

end

section

variable {a : Analysis} {L : Layouts} {T : Target} {Γ : Context} {printName : String}
  (ha : Γ.program.Accepted printName a) (hL : L.Stands Γ.program a.arrays T)
include ha hL

/-- The field of a name from a class upwards has a slot in the layout of the class. -/
theorem hasSlot_of_mem {cls owner : ClassRef} {d : VarDecl} (hcls : cls.Faithful Γ.program)
    (h : (owner.name, d) ∈ Γ.program.fieldsOf cls.name) : L.HasSlot cls owner d := by
  obtain ⟨l, hl, hstands⟩ := hL.classes cls hcls
  obtain ⟨k, hk, _⟩ := hstands.fieldIndex? h
    (ha.wellFormed.hierarchy.nodup_fieldsOf ha.wellFormed.fieldNames cls.name)
  exact ⟨l, hl, by rw [hk]; rfl⟩

omit ha in
/-- What is called takes as many arguments as it has parameters. -/
theorem takes_of_matches {c : Callable} {target : CallTarget} (hm : c.Matches Γ.program target)
    (hfunction : ∀ d, c = .function d → d ∈ Γ.program.functions)
    (hmethod : ∀ (owner : ClassRef) d, c = .method owner.name d → owner.Faithful Γ.program →
      d ∈ (Γ.program.classDecl owner).methods) : L.Takes c.params.length target := by
  cases c with
  | print =>
      cases target with
      | print => rfl
      | _ => exact hm.elim
  | function d =>
      cases target with
      | function d' =>
          obtain rfl : d' = d := hm
          obtain ⟨s, hs, hstands⟩ := hL.functions d' (hfunction d' rfl)
          refine ⟨s, hs, ?_⟩
          rw [← hstands.params.length_eq]
          exact List.length_map .. |>.symm
      | _ => exact hm.elim
  | method owner d =>
      cases target with
      | method cls d' =>
          obtain ⟨hc, rfl, rfl⟩ := hm
          obtain ⟨l, hl, hclass⟩ := hL.classes cls hc
          obtain ⟨s, hs, hstands⟩ := hclass.methods d' (hmethod cls d' rfl hc)
          refine ⟨l, s, hl, hs, ?_⟩
          rw [← hstands.params.length_eq]
          exact List.length_map .. |>.symm
      | _ => exact hm.elim

variable {vars : List VarDecl}

theorem bound_var {tag : Tag} {x : Ident} (hvars : Γ.locals ⊆ vars)
    (h : BindingRecorded a.notes Γ tag.id (Γ.resolve? x.name)) :
    Node.Bound a L vars (.location (.var tag x)) := by
  obtain ⟨v, hv, b, hb, hm⟩ := h
  cases v with
  | slot d =>
      obtain d' | _ := b
      · obtain rfl : d' = d := hm
        exact .inl ⟨d', hvars (Context.resolve?_slot hv), hb⟩
      · exact hm.elim
  | field owner d =>
      obtain _ | ⟨c, d'⟩ := b
      · exact hm.elim
      · obtain ⟨hc, rfl, rfl⟩ := hm
        obtain ⟨cls, _, hfield⟩ := Context.resolve?_field hv
        obtain ⟨_, _, hd⟩ := Context.field?_spec ha.wellFormed.hierarchy hc hfield
        exact .inr ⟨c, d', hb, hasSlot_of_mem ha hL hc
          (ha.wellFormed.hierarchy.mem_fieldsOf_self hc hd)⟩

theorem bound_field {tag : Tag} {e : Expr} {x : Ident}
    (h : Location.Recorded a.arrays a.notes Γ (.field tag e x)) :
    Node.Bound a L vars (.location (.field tag e x)) := by
  obtain ⟨_, ⟨cls, hcls, v, hv, b, hb, hm⟩, he⟩ := h
  obtain ⟨u, hu, V, hV, hd⟩ := he.typed
  obtain rfl := hcls.unique hu
  obtain ⟨c, rfl, hc, rfl⟩ := denotes_object hd
  cases v with
  | slot d =>
      rw [Context.field?, Option.map_eq_some_iff] at hv
      obtain ⟨_, _, heq⟩ := hv
      cases heq
  | field owner d =>
      obtain _ | ⟨o, d'⟩ := b
      · exact hm.elim
      · obtain ⟨ho, rfl, rfl⟩ := hm
        obtain ⟨_, hmem, _⟩ := Context.field?_spec ha.wellFormed.hierarchy ho hv
        exact ⟨c, o, d', hV, hb, hasSlot_of_mem ha hL hc hmem⟩

theorem bound_call {tag : Tag} {f : Ident} {args : List Expr}
    (h : Expr.Recorded a.arrays a.notes Γ (.call tag f args)) :
    Node.Bound a L vars (.expr (.call tag f args)) := by
  obtain ⟨⟨_, ht, _⟩, ⟨c, hc, target, hn, hm⟩, _⟩ := h
  cases ht with
  | call hc' hargs =>
      cases hc.symm.trans hc'
      refine ⟨target, hn, hargs.length ▸ takes_of_matches hL hm (fun d hd => ?_)
        fun owner d hd ho => ?_⟩
      · subst hd
        exact Context.callable?_function hc
      · subst hd
        obtain ⟨cls, _, hmethod⟩ := Context.callable?_method hc
        exact (Context.method?_spec ha.wellFormed.hierarchy ho hmethod).2

theorem bound_methodCall {tag : Tag} {e : Expr} {f : Ident} {args : List Expr}
    (h : Expr.Recorded a.arrays a.notes Γ (.methodCall tag e f args)) :
    Node.Bound a L vars (.expr (.methodCall tag e f args)) := by
  obtain ⟨⟨_, ht, _⟩, ⟨cls, hcls, c, hc, target, hn, hm⟩, _⟩ := h
  cases ht with
  | methodCall hcls' hc' hargs =>
      cases hcls.unique hcls'
      cases hc.symm.trans hc'
      obtain ⟨owner, d, rfl⟩ : ∃ owner d, c = .method owner d := by
        rw [Context.method?, Option.map_eq_some_iff] at hc
        obtain ⟨⟨owner, d⟩, _, heq⟩ := hc
        exact ⟨_, _, heq.symm⟩
      have htakes := takes_of_matches hL hm (fun _ h => by cases h) fun o d h ho => by
        cases h
        exact (Context.method?_spec ha.wellFormed.hierarchy ho hc).2
      cases target with
      | method o d' => exact ⟨o, d', hn, hargs.length ▸ htakes⟩
      | _ => exact hm.elim

theorem bound_expr {e : Expr} (h : e.Recorded a.arrays a.notes Γ) :
    Node.Bound a L vars (.expr e) := by
  cases e with
  | call => exact bound_call ha hL h
  | methodCall => exact bound_methodCall ha hL h
  | _ => trivial

theorem bound_location {l : Location} (hvars : Γ.locals ⊆ vars)
    (h : l.Recorded a.arrays a.notes Γ) : Node.Bound a L vars (.location l) := by
  cases l with
  | var => exact bound_var ha hL hvars h.2
  | field => exact bound_field ha hL h
  | index => trivial

end

section written

/-- A type is that of the elements of a new array. -/
def TypeExpr.IsMade (t : TypeExpr) (nodes : List Node) : Prop :=
  ∃ tag size, .expr (.newArray tag t size) ∈ nodes

/-- A type is that of a variable, or of the elements of a new array. -/
def TypeExpr.IsUsed (t : TypeExpr) (locals : List VarDecl) (nodes : List Node) : Prop :=
  (∃ d ∈ locals, d.type = t) ∨ t.IsMade nodes

theorem TypeExpr.IsMade.mono {t : TypeExpr} {nodes nodes' : List Node} (h : t.IsMade nodes)
    (hn : nodes ⊆ nodes') : t.IsMade nodes' :=
  h.imp fun _ h => h.imp fun _ h => hn h

theorem TypeExpr.IsUsed.mono {t : TypeExpr} {locals locals' : List VarDecl}
    {nodes nodes' : List Node} (h : t.IsUsed locals nodes) (hl : locals ⊆ locals')
    (hn : nodes ⊆ nodes') : t.IsUsed locals' nodes' :=
  h.imp (fun ⟨d, hd, ht⟩ => ⟨d, hl hd, ht⟩) fun h => h.mono hn

mutual

/-- A type that is written in an expression is that of the elements of a new array. -/
theorem Expr.isMade : ∀ {e : Expr} {t : TypeExpr}, t ∈ e.written → t.IsMade e.nodes
  | .unary _ _ operand, _, h => (Expr.isMade (e := operand) h).mono (List.subset_cons_self ..)
  | .arrayLength _ array, _, h => (Expr.isMade (e := array) h).mono (List.subset_cons_self ..)
  | .read _ location, _, h =>
      (Location.isMade (l := location) h).mono (List.subset_cons_self ..)
  | .call _ _ args, _, h => (isMade_arguments (l := args) h).mono (List.subset_cons_self ..)
  | .number _ _, _, h | .bool _ _, _, h | .null _, _, h | .this _, _, h | .newObject _ _, _, h =>
      (List.not_mem_nil h).elim
  | .newArray tag _ size, _, h => by
      rcases List.mem_cons.1 h with rfl | h
      · exact ⟨tag, size, List.mem_cons_self⟩
      · exact (Expr.isMade h).mono (List.subset_cons_self ..)
  | .binary _ _ _ _, _, h => by
      rcases List.mem_append.1 h with h | h
      · exact ((Expr.isMade h).mono (List.subset_append_left ..)).mono (List.subset_cons_self ..)
      · exact ((Expr.isMade h).mono (List.subset_append_right ..)).mono (List.subset_cons_self ..)
  | .methodCall _ _ _ _, _, h => by
      rcases List.mem_append.1 h with h | h
      · exact ((Expr.isMade h).mono (List.subset_append_left ..)).mono (List.subset_cons_self ..)
      · exact ((isMade_arguments h).mono (List.subset_append_right ..)).mono
          (List.subset_cons_self ..)
termination_by structural e => e

theorem Location.isMade : ∀ {l : Location} {t : TypeExpr}, t ∈ l.written → t.IsMade l.nodes
  | .var _ _, _, h => (List.not_mem_nil h).elim
  | .field _ receiver _, _, h => (Expr.isMade (e := receiver) h).mono (List.subset_cons_self ..)
  | .index _ _ _, _, h => by
      rcases List.mem_append.1 h with h | h
      · exact ((Expr.isMade h).mono (List.subset_append_left ..)).mono (List.subset_cons_self ..)
      · exact ((Expr.isMade h).mono (List.subset_append_right ..)).mono (List.subset_cons_self ..)
termination_by structural l => l

theorem isMade_arguments : ∀ {l : List Expr} {t : TypeExpr}, t ∈ writtenInArguments l →
    t.IsMade (nodesOfArguments l)
  | [], _, h => (List.not_mem_nil h).elim
  | _ :: _, _, h => by
      rcases List.mem_append.1 h with h | h
      · exact (Expr.isMade h).mono (List.subset_append_left ..)
      · exact (isMade_arguments h).mono (List.subset_append_right ..)
termination_by structural l => l

end

theorem Expr.isUsed {e : Expr} {t : TypeExpr} (h : t ∈ e.written) (locals : List VarDecl)
    {nodes : List Node} (hn : e.nodes ⊆ nodes) : t.IsUsed locals nodes :=
  .inr ((Expr.isMade h).mono hn)

mutual

/-- A type that is written in a statement is that of a variable or of the elements of a new
array. -/
theorem Stmt.isUsed : ∀ {s : Stmt} {t : TypeExpr}, t ∈ s.written → t.IsUsed s.locals s.nodes
  | .declare d, _, h => .inl ⟨d, List.mem_cons_self, (List.mem_singleton.1 h).symm⟩
  | .eval _, _, h => Expr.isUsed h _ (List.Subset.refl _)
  | .return _ _, _, h => Expr.isUsed h _ (List.Subset.refl _)
  | .assign _ _ _, _, h => by
      rcases List.mem_append.1 h with h | h
      · exact .inr ((Location.isMade h).mono (List.subset_append_left ..))
      · exact Expr.isUsed h _ (List.subset_append_right ..)
  | .branch _ _ _ none, _, h => by
      rcases List.mem_append.1 h with h | h
      · exact Expr.isUsed h _ (List.subset_append_left ..)
      · exact (Stmt.isUsed h).mono (List.Subset.refl _) (List.subset_append_right ..)
  | .branch _ _ _ (some _), _, h => by
      rcases List.mem_append.1 h with h | h
      · exact Expr.isUsed h _ (List.subset_append_left ..)
      rcases List.mem_append.1 h with h | h
      · exact ((Stmt.isUsed h).mono (List.subset_append_left ..)
          (List.subset_append_left ..)).mono (List.Subset.refl _) (List.subset_append_right ..)
      · exact ((Stmt.isUsed h).mono (List.subset_append_right ..)
          (List.subset_append_right ..)).mono (List.Subset.refl _) (List.subset_append_right ..)
  | .loop _ _ _, _, h => by
      rcases List.mem_append.1 h with h | h
      · exact Expr.isUsed h _ (List.subset_append_left ..)
      · exact (Stmt.isUsed h).mono (List.Subset.refl _) (List.subset_append_right ..)
  | .block _ body, _, h => isUsed_body (l := body) h
termination_by structural s => s

theorem isUsed_body : ∀ {l : List Stmt} {t : TypeExpr}, t ∈ writtenInBody l →
    t.IsUsed (localsOf l) (nodesOfBody l)
  | [], _, h => (List.not_mem_nil h).elim
  | _ :: _, _, h => by
      rcases List.mem_append.1 h with h | h
      · exact (Stmt.isUsed h).mono (List.subset_append_left ..) (List.subset_append_left ..)
      · exact (isUsed_body h).mono (List.subset_append_right ..) (List.subset_append_right ..)
termination_by structural l => l

end

end written

section program

variable {p : Program} {printName : String} {env : Surroundings} {d : FunctionDecl}
  {start : Findings} {L : Layouts} {T : Target}

/-- All that the check of a function comes to is settled, and it comes to all nodes. -/
theorem Program.Begins.settled (hp : p.ids.Nodup) (hw : p.WellFormed printName)
    (h : p.Begins printName env d start) : ∃ current,
      (∀ scope n f, d.ComesTo env start scope n f → Task.Settled (p.known printName) env
        (p.place printName current) (d.params ++ localsOf d.body) (.node scope n, f)) ∧
      ∀ n ∈ nodesOfBody d.body, ∃ scope f, d.ComesTo env start scope n f := by
  obtain ⟨current, hfine⟩ := h.fine hp hw.hierarchy (hw.ended hp)
  refine ⟨current, fun scope n f hn => Task.ComesTo.settled (Γ := p.place printName current)
    hw.hierarchy hp hn ?_, reaches_of_body hw.hierarchy hp hfine⟩
  exact ⟨⟨d.params.reverse, fun x hx => List.mem_append_left _ (List.mem_reverse.1 hx), hfine⟩,
    List.subset_append_right ..⟩

section

variable (ha : p.Accepted printName (p.analyze printName))
include ha

theorem FunctionDecl.noted (hL : L.Stands p (p.analyze printName).arrays T)
    (hd : ∃ env start, p.Begins printName env d start) :
    d.Noted p printName (p.analyze printName) L := by
  have he := ha.wellFormed.ended ha.ids
  refine ⟨hd, fun env start h => ?_, fun env start h scope n f hn => ?_, fun n hn => ?_⟩
  · obtain ⟨_, _, hreach⟩ := h.settled ha.ids ha.wellFormed
    exact hreach
  · obtain ⟨current, hsettled, _⟩ := h.settled ha.ids ha.wellFormed
    obtain ⟨⟨locals, _, hfine⟩, _⟩ := hsettled scope n f hn
    rw [he.notes]
    cases n with
    | expr e =>
        exact ExprFine.type? (Γ := ⟨p, printName, current, locals⟩) ha.wellFormed.hierarchy ha.ids
          he.soundKnown hfine
    | location l =>
        exact LocationFine.type? (Γ := ⟨p, printName, current, locals⟩) ha.wellFormed.hierarchy
          ha.ids he.soundKnown hfine
  · obtain ⟨env, start, h⟩ := hd
    obtain ⟨current, hsettled, hreach⟩ := h.settled ha.ids ha.wellFormed
    obtain ⟨scope, f, hcomes⟩ := hreach n hn
    obtain ⟨⟨locals, hlocals, hfine⟩, _⟩ := hsettled scope n f hcomes
    cases n with
    | expr e =>
        refine bound_expr (Γ := ⟨p, printName, current, locals⟩) ha hL ?_
        rw [he.arrays, he.notes]
        exact hfine.recorded
    | location l =>
        refine bound_location (Γ := ⟨p, printName, current, locals⟩) ha hL hlocals ?_
        rw [he.arrays, he.notes]
        exact hfine.recorded

/-- The types that are written in a function have meanings. -/
theorem FunctionDecl.certain_written {Γ : Context}
    (hd : ∃ env start, p.Begins printName env d start)
    (hrec : d.Recorded (p.analyze printName).arrays (p.analyze printName).notes Γ)
    (hw : ∀ t ∈ d.written, t ∈ p.typeExprs) : ∀ t ∈ d.written,
      ∃ T, (p.analyze printName).notes.typeExpr? t.id = some T ∧ T.Certain := by
  have he := ha.wellFormed.ended ha.ids
  intro t ht
  rcases List.mem_cons.1 ht with rfl | hrest
  · obtain ⟨T, hT, hd⟩ := hrec.returnType
    exact ⟨T, hT, hd.certain⟩
  rcases List.mem_append.1 hrest with hparam | hbody
  · obtain ⟨x, hx, rfl⟩ := List.mem_map.1 hparam
    obtain ⟨T, hT, hd⟩ := hrec.params x hx
    exact ⟨T, hT, hd.certain⟩
  rcases isUsed_body hbody with ⟨x, hx, rfl⟩ | ⟨tag, size, hn⟩
  · obtain ⟨T, hT, hd⟩ := hrec.body.locals x hx
    exact ⟨T, hT, hd.certain⟩
  · obtain ⟨env, start, h⟩ := hd
    obtain ⟨current, hsettled, hreach⟩ := h.settled ha.ids ha.wellFormed
    obtain ⟨scope, f, hcomes⟩ := hreach _ hn
    obtain ⟨⟨locals, _, hfine⟩, _⟩ := hsettled scope _ f hcomes
    obtain ⟨T, hT⟩ := Option.isSome_iff_exists.1 (ExprFine.isSome_element
      (Γ := ⟨p, printName, current, locals⟩) ha.wellFormed.hierarchy ha.ids hfine)
    rw [he.notes]
    exact ⟨T, hT, (he.soundKnown.typeExprs t (hw t ht) T hT).certain⟩

theorem Program.noted (hL : L.Stands p (p.analyze printName).arrays T) :
    p.Noted printName (p.analyze printName) L := by
  have hh := ha.wellFormed.hierarchy
  refine ⟨fun c hc d hd => FunctionDecl.noted ha hL (p.exists_begins_of_method hh hc hd),
    fun d hd => FunctionDecl.noted ha hL (p.exists_begins_of_function hd), fun t ht => ?_⟩
  rcases List.mem_append.1 ht with ht | ht
  · obtain ⟨c, hc, ht⟩ := List.mem_flatMap.1 ht
    rcases List.mem_append.1 ht with ht | ht
    · obtain ⟨x, hx, rfl⟩ := List.mem_map.1 ht
      obtain ⟨T, hT, hd⟩ := ha.recorded.fields c hc x hx
      exact ⟨T, hT, hd.certain⟩
    · obtain ⟨d, hd, ht⟩ := List.mem_flatMap.1 ht
      refine FunctionDecl.certain_written ha (p.exists_begins_of_method hh hc hd)
        (ha.recorded.methods c hc d hd) (fun u hu => ?_) t ht
      exact Program.mem_typeExprs_of_class hc
        (List.mem_append_right _ (List.mem_flatMap.2 ⟨d, hd, hu⟩))
  · obtain ⟨d, hd, ht⟩ := List.mem_flatMap.1 ht
    exact FunctionDecl.certain_written ha (p.exists_begins_of_function hd)
      (ha.recorded.functions d hd) (fun u hu => Program.mem_typeExprs_of_function hd hu) t ht

end

/-- The notes on an accepted program that was read are complete and fit its layouts, and making code
for it misses no fact. -/
theorem Program.ofText_noted {source : String} (h : Program.ofText source = .ok p)
    (options : CompileOptions)
    (ha : (p.analyze options.printFunction).isAccepted = true) :
    p.Noted options.printFunction (p.analyze options.printFunction)
        ((Layouts.build p (p.analyze options.printFunction)).run {}).1 ∧
      ∃ m, p.lower (p.analyze options.printFunction) options = .ok m := by
  have ha := Program.accepted h ha
  obtain ⟨_, hbuilt⟩ := builds_layouts ha
  have hm : ∃ m, p.lower (p.analyze options.printFunction) options = .ok m := by
    obtain ⟨_, _, _, _, _, _, hlower⟩ := ha.lower
    exact ⟨_, hlower⟩
  exact ⟨Program.noted ha (hbuilt.stands ha), hm⟩

/-- A program with a field, a local variable, an array and a call. -/
def callingText : String :=
  "class A { int x; int f() { return x; } } int main() { A[] a; a = new A[2]; return a[0].f(); }"

theorem Program.ofText_noted_call : ∃ p, Program.ofText callingText = .ok p ∧
    (p.analyze "printInt").isAccepted = true ∧
      p.Noted "printInt" (p.analyze "printInt")
        ((Layouts.build p (p.analyze "printInt")).run {}).1 ∧
      ∃ m, p.lower (p.analyze "printInt") {} = .ok m := by
  obtain ⟨p, hp, ha⟩ := exists_ok_of_any (r := Program.ofText callingText)
    (f := fun p => (p.analyze "printInt").isAccepted) (by decide +kernel)
  exact ⟨p, hp, ha, Program.ofText_noted hp {} ha⟩

end program

end ObjectLang
