import ObjectLang.Proofs.Parsing.Beside

/-!
# Two programs read side by side

Streams with the same words at other places give the same statements and declarations, up to their
places, or fail with the same error. So do two texts that are read without faulty tokens, from
whatever their readers start with.
-/
namespace ObjectLang.Parsing

variable {R : Span → Span → Prop}

section statements

abbrev SameDecl (d d' : VarDecl) : Prop :=
  d.relabel .unplaced = d'.relabel .unplaced

abbrev SameStmt (x x' : Stmt) : Prop :=
  x.relabel .unplaced = x'.relabel .unplaced

abbrev SameBody (xs xs' : List Stmt) : Prop :=
  relabelBody .unplaced xs = relabelBody .unplaced xs'

section leaves

variable {s s' : Stream}

theorem nameBehindBrackets_beside {ts ts' : List Token}
    (h : List.Forall₂ (Token.Beside R) ts ts') :
    nameBehindBrackets ts = nameBehindBrackets ts' := by
  fun_induction nameBehindBrackets ts generalizing ts' with
  | case1 t u tokens hbrackets ih =>
      obtain _ | ⟨ht, _ | ⟨hu, hrest⟩⟩ := h
      rw [nameBehindBrackets, ← ht.kind, ← hu.kind, if_pos hbrackets, ih hrest]
  | case2 t u tokens hbrackets =>
      obtain _ | ⟨ht, _ | ⟨hu, hrest⟩⟩ := h
      rw [nameBehindBrackets, ← ht.kind, ← hu.kind, if_neg hbrackets]
  | case3 t =>
      obtain _ | ⟨ht, _ | _⟩ := h
      rw [nameBehindBrackets, ht.kind]
  | case4 =>
      cases h
      rfl

theorem startsDeclaration_beside (hs : s.Beside R s') :
    startsDeclaration s.tokens = startsDeclaration s'.tokens := by
  have htokens := hs.tokens
  generalize s.tokens = ts, s'.tokens = ts' at htokens
  cases htokens with
  | nil => rfl
  | cons ht hrest => rw [startsDeclaration, startsDeclaration, ht.kind,
    nameBehindBrackets_beside hrest]

theorem declaration_beside (hs : s.Beside R s') :
    Agree R SameDecl (declaration s) (declaration s') := by
  refine .bind (typeExpr_beside hs) fun type type' htype => ?_
  refine .bind (andThen_beside htype ident_beside) fun name name' hname => ?_
  refine .bind (andThen_beside hname (symbol_beside · _)) fun close close' hclose => ?_
  refine .ok ⟨?_, hclose.rest.bump⟩
  simp only [SameDecl, VarDecl.relabel, htype.value, hname.value,
    hclose.rest.tag _ (type'.value.span.merge close'.value.span)]

theorem condition_beside (hs : s.Beside R s') :
    Agree R SameExpr (condition s) (condition s') := by
  refine .bind (symbol_beside hs _) fun start start' hstart => ?_
  refine .bind (andThen_beside hstart (expression_beside 0)) fun e e' he => ?_
  refine .bind (andThen_beside he (symbol_beside · _)) fun close close' hclose => ?_
  exact .ok ⟨he.value, hclose.rest⟩

/-- What reads a location still does so after its places are forgotten. -/
theorem exists_read {e : Expr} {tag : Tag} {location : Location}
    (h : e.relabel .unplaced = .read tag location) :
    ∃ tag' location', e = .read tag' location' ∧ location'.relabel .unplaced = location := by
  cases e with
  | read tag' location' => exact ⟨tag', location', rfl, (Expr.read.inj h).2⟩
  | _ => cases h

theorem evaluation_beside (hs : s.Beside R s') :
    Agree R SameStmt (evaluation s) (evaluation s') := by
  refine .bind (expression_beside 0 hs) ?_
  rintro _ _ @⟨e, e', s₁, s₁', h₁, h₁', he, hs₁⟩
  have hsign := take?_beside hs₁ (.symbol .equal)
  simp only
  generalize take? s₁ (.symbol .equal) = o, take? s₁' (.symbol .equal) = o' at hsign
  obtain ⟨⟨hequal, hs₂⟩⟩ | _ := hsign
  · simp only
    split
    · next tag target =>
      obtain ⟨tag', target', rfl, htarget⟩ := exists_read (Eq.symm he)
      refine .bind (andThen_beside ⟨hequal, hs₂⟩ (expression_beside 0))
        fun value value' hvalue => ?_
      refine .bind (andThen_beside hvalue (symbol_beside · _)) fun close close' hclose => ?_
      refine .ok ⟨?_, hclose.rest⟩
      exact congrArg₂ (Stmt.assign default) htarget.symm hvalue.value
    · next hne =>
      split
      · obtain ⟨tag, target, rfl, -⟩ := exists_read he
        exact (hne tag target rfl).elim
      · exact .error ⟨rfl, rfl, hequal.span⟩
  · refine .bind (andThen_beside ⟨he, hs₁⟩ (symbol_beside · _)) fun close close' hclose => ?_
    exact .ok ⟨congrArg Stmt.eval he, hclose.rest⟩

end leaves

mutual

theorem statement_beside {s s' : Stream} (hs : s.Beside R s') :
    Agree R SameStmt (statement s) (statement s') := by
  have hif := take?_beside hs (.keyword .ifStmt)
  have hwhile := take?_beside hs (.keyword .whileStmt)
  have hreturn := take?_beside hs (.keyword .returnStmt)
  rw [statement.eq_def s, statement.eq_def s']
  generalize take? s (.keyword .ifStmt) = o, take? s' (.keyword .ifStmt) = o' at hif
  obtain @⟨_, _, @⟨start, start', s₁, s₁', h₁, h₁', -, hs₁⟩⟩ | _ := hif
  · refine .bind (condition_beside hs₁) ?_
    rintro _ _ @⟨test, test', s₂, s₂', h₂, h₂', htest, hs₂⟩
    refine .bind (statement_beside hs₂) ?_
    rintro _ _ @⟨onTrue, onTrue', s₃, s₃', h₃, h₃', htrue, hs₃⟩
    have helse := take?_beside hs₃ (.keyword .elseStmt)
    simp only
    generalize take? s₃ (.keyword .elseStmt) = o, take? s₃' (.keyword .elseStmt) = o' at helse
    obtain @⟨_, _, @⟨_, _, s₄, s₄', h₄, h₄', -, hs₄⟩⟩ | _ := helse
    · refine .bind (statement_beside hs₄) ?_
      rintro _ _ @⟨onFalse, onFalse', s₅, s₅', h₅, h₅', hfalse, hs₅⟩
      refine .ok ⟨?_, hs₅⟩
      simp only [SameStmt, Stmt.relabel, Relabel.unplaced_span, htest, htrue, hfalse]
    · refine .ok ⟨?_, hs₃⟩
      simp only [SameStmt, Stmt.relabel, Relabel.unplaced_span, htest, htrue]
  simp only
  generalize take? s (.keyword .whileStmt) = o, take? s' (.keyword .whileStmt) = o' at hwhile
  obtain @⟨_, _, @⟨start, start', s₁, s₁', h₁, h₁', -, hs₁⟩⟩ | _ := hwhile
  · refine .bind (condition_beside hs₁) ?_
    rintro _ _ @⟨test, test', s₂, s₂', h₂, h₂', htest, hs₂⟩
    refine .bind (statement_beside hs₂) ?_
    rintro _ _ @⟨body, body', s₃, s₃', h₃, h₃', hbody, hs₃⟩
    exact .ok ⟨congrArg₂ (Stmt.loop default) htest hbody, hs₃⟩
  simp only
  generalize take? s (.keyword .returnStmt) = o, take? s' (.keyword .returnStmt) = o' at hreturn
  obtain @⟨_, _, @⟨start, start', s₁, s₁', h₁, h₁', -, hs₁⟩⟩ | _ := hreturn
  · refine .bind (expression_beside 0 hs₁) ?_
    rintro _ _ @⟨value, value', s₂, s₂', h₂, h₂', hvalue, hs₂⟩
    refine .bind (symbol_beside hs₂ _) ?_
    rintro _ _ @⟨close, close', s₃, s₃', h₃, h₃', -, hs₃⟩
    exact .ok ⟨congrArg (Stmt.return default) hvalue, hs₃⟩
  simp only [hs.sees]
  split
  · refine .bind (block_beside hs) ?_
    rintro _ _ @⟨⟨span, body⟩, ⟨span', body'⟩, s₁, s₁', h₁, h₁', hbody, hs₁⟩
    exact .ok ⟨congrArg (Stmt.block default) hbody, hs₁⟩
  · exact evaluation_beside hs
termination_by (s.size, 1)

theorem block_beside {s s' : Stream} (hs : s.Beside R s') :
    Agree R (fun b b' => SameBody b.2 b'.2) (block s) (block s') := by
  rw [block.eq_def s, block.eq_def s']
  refine .bind (symbol_beside hs _) ?_
  rintro _ _ @⟨start, start', s₁, s₁', h₁, h₁', -, hs₁⟩
  refine .bind (blockItems_beside hs₁) ?_
  rintro _ _ @⟨body, body', s₂, s₂', h₂, h₂', hbody, hs₂⟩
  refine .bind (symbol_beside hs₂ _) ?_
  rintro _ _ @⟨close, close', s₃, s₃', h₃, h₃', -, hs₃⟩
  exact .ok ⟨hbody, hs₃⟩
termination_by (s.size, 0)

theorem blockItems_beside {s s' : Stream} (hs : s.Beside R s') :
    Agree R SameBody (blockItems s) (blockItems s') := by
  rw [blockItems.eq_def s, blockItems.eq_def s', hs.isEmpty, hs.sees]
  split
  · exact .ok ⟨rfl, hs⟩
  · refine .bind (blockItem_beside hs) ?_
    rintro _ _ @⟨item, item', s₁, s₁', h₁, h₁', hitem, hs₁⟩
    refine .bind (blockItems_beside hs₁) ?_
    rintro _ _ @⟨items, items', s₂, s₂', h₂, h₂', hitems, hs₂⟩
    exact .ok ⟨congrArg₂ List.cons hitem hitems, hs₂⟩
termination_by (s.size, 3)

theorem blockItem_beside {s s' : Stream} (hs : s.Beside R s') :
    Agree R SameStmt (blockItem s) (blockItem s') := by
  rw [blockItem.eq_def s, blockItem.eq_def s', startsDeclaration_beside hs]
  split
  · refine .bind (declaration_beside hs) ?_
    rintro _ _ @⟨decl, decl', s₁, s₁', h₁, h₁', hdecl, hs₁⟩
    exact .ok ⟨congrArg Stmt.declare hdecl, hs₁⟩
  · exact statement_beside hs
termination_by (s.size, 2)

end

end statements

section declarations

abbrev SameDecls (ds ds' : List VarDecl) : Prop :=
  ds.map (·.relabel .unplaced) = ds'.map (·.relabel .unplaced)

abbrev SameFunction (f f' : FunctionDecl) : Prop :=
  f.relabel .unplaced = f'.relabel .unplaced

abbrev SameClass (c c' : ClassDecl) : Prop :=
  c.relabel .unplaced = c'.relabel .unplaced

variable {s s' : Stream}

theorem parameter_beside (hs : s.Beside R s') :
    Agree R SameDecl (parameter s) (parameter s') := by
  refine .bind (typeExpr_beside hs) fun type type' htype => ?_
  refine .bind (andThen_beside htype ident_beside) fun name name' hname => ?_
  refine .ok ⟨?_, hname.rest.bump⟩
  simp only [SameDecl, VarDecl.relabel, htype.value, hname.value,
    hname.rest.tag _ (type'.value.span.merge name'.value.span)]

theorem parameters_beside {s s' : Stream} (hs : s.Beside R s') :
    Agree R SameDecls (parameters s) (parameters s') := by
  rw [parameters.eq_def s, parameters.eq_def s']
  refine .bind (parameter_beside hs) ?_
  rintro _ _ @⟨p, p', s₁, s₁', h₁, h₁', hp, hs₁⟩
  have hcomma := take?_beside hs₁ (.symbol .comma)
  simp only
  generalize take? s₁ (.symbol .comma) = o, take? s₁' (.symbol .comma) = o' at hcomma
  obtain @⟨_, _, @⟨_, _, s₂, s₂', h₂, h₂', -, hs₂⟩⟩ | _ := hcomma
  · refine .bind (parameters_beside hs₂) fun ps ps' hps => ?_
    exact .ok ⟨congrArg₂ List.cons hp hps.value, hps.rest⟩
  · exact .ok ⟨congrArg (fun d : VarDecl => [d]) hp, hs₁⟩
termination_by s.size

theorem parameterList_beside (hs : s.Beside R s') :
    Agree R SameDecls (parameterList s) (parameterList s') := by
  refine .bind (symbol_beside hs _) fun start start' hstart => ?_
  have hclose := take?_beside hstart.rest (.symbol .rightParen)
  generalize take? start.rest (.symbol .rightParen) = o,
    take? start'.rest (.symbol .rightParen) = o' at hclose
  obtain hclose | _ := hclose
  · exact .ok ⟨rfl, hclose.rest⟩
  · refine .bind (andThen_beside hstart parameters_beside) fun params params' hparams => ?_
    refine .bind (andThen_beside hparams (symbol_beside · _)) fun close close' hclose => ?_
    exact .ok ⟨hparams.value, hclose.rest⟩

theorem functionBehind_beside {type type' : TypeExpr} (htype : SameType type type')
    {name name' : Ident} (hname : SameIdent name name') (hs : s.Beside R s') :
    Agree R SameFunction (functionBehind type name s) (functionBehind type' name' s') := by
  refine .bind (parameterList_beside hs.bump) ?_
  rintro _ _ @⟨params, params', s₁, s₁', h₁, h₁', hparams, hs₁⟩
  refine .bind (block_beside hs₁) ?_
  rintro _ _ @⟨⟨span, body⟩, ⟨span', body'⟩, s₂, s₂', h₂, h₂', hbody, hs₂⟩
  refine .ok ⟨?_, hs₂⟩
  simp only [SameFunction, FunctionDecl.relabel, hs.tag _ (type'.span.merge span'), htype, hname,
    hparams, hbody, Relabel.unplaced_span]

/-- Two members of one sort that are the same up to their places. -/
inductive SameMember : Member → Member → Prop
  | field {d d' : VarDecl} : SameDecl d d' → SameMember (.field d) (.field d')
  | method {f f' : FunctionDecl} : SameFunction f f' → SameMember (.method f) (.method f')

theorem member_beside (hs : s.Beside R s') : Agree R SameMember (member s) (member s') := by
  refine .bind (typeExpr_beside hs) fun type type' htype => ?_
  refine .bind (andThen_beside htype ident_beside) fun name name' hname => ?_
  simp only [hname.rest.sees]
  split
  · refine .bind (andThen_beside hname (functionBehind_beside htype.value hname.value)) ?_
    exact fun decl decl' hdecl => .ok ⟨.method hdecl.value, hdecl.rest⟩
  · refine .bind (andThen_beside hname (symbol_beside · _)) fun close close' hclose => ?_
    refine .ok ⟨.field ?_, hclose.rest.bump⟩
    simp only [SameDecl, VarDecl.relabel, htype.value, hname.value,
      hclose.rest.tag _ (s'.peek.span.merge close'.value.span)]

theorem members_beside {s s' : Stream} (hs : s.Beside R s') :
    Agree R (List.Forall₂ SameMember) (members s) (members s') := by
  rw [members.eq_def s, members.eq_def s', hs.sees]
  split
  · exact .ok ⟨.nil, hs⟩
  · refine .bind (member_beside hs) ?_
    rintro _ _ @⟨m, m', s₁, s₁', h₁, h₁', hm, hs₁⟩
    refine .bind (members_beside hs₁) fun ms ms' hms => ?_
    exact .ok ⟨.cons hm hms.value, hms.rest⟩
termination_by s.size

theorem extending_beside (hs : s.Beside R s') :
    Agree R (fun x x' => x.map (Ident.relabel .unplaced) = x'.map (Ident.relabel .unplaced))
      (extending s) (extending s') := by
  have hstart := take?_beside hs (.keyword .extending)
  unfold extending
  generalize take? s (.keyword .extending) = o, take? s' (.keyword .extending) = o' at hstart
  obtain hstart | _ := hstart
  · refine .bind (andThen_beside hstart ident_beside) fun name name' hname => ?_
    exact .ok ⟨congrArg some hname.value, hname.rest⟩
  · exact .ok ⟨rfl, hs⟩

/-- The fields of the same members are the same, and so are the methods. -/
theorem sameMembers {ms ms' : List Member} (h : List.Forall₂ SameMember ms ms') :
    (ms.filterMap Member.field?).map (·.relabel .unplaced) =
        (ms'.filterMap Member.field?).map (·.relabel .unplaced) ∧
      (ms.filterMap Member.method?).map (·.relabel .unplaced) =
        (ms'.filterMap Member.method?).map (·.relabel .unplaced) := by
  induction h with
  | nil => exact ⟨rfl, rfl⟩
  | cons hm _ ih =>
      cases hm with
      | field hd => exact ⟨congrArg₂ List.cons hd ih.1, ih.2⟩
      | method hf => exact ⟨ih.1, congrArg₂ List.cons hf ih.2⟩

theorem classDecl_beside (hs : s.Beside R s') :
    Agree R SameClass (classDecl s) (classDecl s') := by
  refine .bind (expect_beside hs _) fun start start' hstart => ?_
  refine .bind (andThen_beside ⟨hstart.value, hstart.rest.bump⟩ ident_beside)
    fun name name' hname => ?_
  refine .bind (andThen_beside hname extending_beside) fun superclass superclass' hsuper => ?_
  refine .bind (andThen_beside hsuper (symbol_beside · _)) fun opened opened' hopened => ?_
  refine .bind (andThen_beside hopened members_beside) fun ms ms' hms => ?_
  refine .bind (andThen_beside hms (symbol_beside · _)) fun close close' hclose => ?_
  refine .ok ⟨?_, hclose.rest⟩
  obtain ⟨hfields, hmethods⟩ := sameMembers hms.value
  simp only [SameClass, ClassDecl.relabel, hname.value, hsuper.value, hfields, hmethods,
    hstart.rest.tag _ (start'.value.span.merge close'.value.span)]

theorem functionDecl_beside (hs : s.Beside R s') :
    Agree R SameFunction (functionDecl s) (functionDecl s') := by
  refine .bind (typeExpr_beside hs) fun type type' htype => ?_
  refine .bind (andThen_beside htype ident_beside) fun name name' hname => ?_
  exact andThen_beside hname (functionBehind_beside htype.value hname.value)

theorem declarations_beside {s s' : Stream} (hs : s.Beside R s') :
    Agree R (fun d d' => d.1.map (·.relabel .unplaced) = d'.1.map (·.relabel .unplaced) ∧
      d.2.map (·.relabel .unplaced) = d'.2.map (·.relabel .unplaced))
      (declarations s) (declarations s') := by
  rw [declarations.eq_def s, declarations.eq_def s', hs.isEmpty, hs.sees]
  split
  · exact .ok ⟨⟨rfl, rfl⟩, hs⟩
  · split
    · refine .bind (classDecl_beside hs) ?_
      rintro _ _ @⟨c, c', s₁, s₁', h₁, h₁', hc, hs₁⟩
      refine .bind (declarations_beside hs₁) fun more more' hmore => ?_
      exact .ok ⟨⟨congrArg₂ List.cons hc hmore.value.1, hmore.value.2⟩, hmore.rest⟩
    · refine .bind (functionDecl_beside hs) ?_
      rintro _ _ @⟨f, f', s₁, s₁', h₁, h₁', hf, hs₁⟩
      refine .bind (declarations_beside hs₁) fun more more' hmore => ?_
      exact .ok ⟨⟨hmore.value.1, congrArg₂ List.cons hf hmore.value.2⟩, hmore.rest⟩
termination_by s.size

end declarations

section whole

variable {s s' : Stream}

abbrev SameProgram (p p' : Program) : Prop :=
  p.relabel .unplaced = p'.relabel .unplaced

theorem program_beside (hs : s.Beside R s') :
    Beside R SameProgram
      (do let ⟨(classes, functions), rest, _⟩ ← declarations s
          return ⟨classes, functions, rest.fresh⟩)
      (do let ⟨(classes, functions), rest, _⟩ ← declarations s'
          return ⟨classes, functions, rest.fresh⟩) := by
  refine .bind (declarations_beside hs) ?_
  rintro _ _ @⟨⟨cs, fs⟩, ⟨cs', fs'⟩, rest, rest', used, used', hdecls, hrest⟩
  refine .ok ?_
  simp only [SameProgram, Program.relabel, hdecls.1, hdecls.2, hrest.fresh]

/-- A text that is one phrase and nothing else. -/
theorem whole_beside {α : Type} {Same : α → α → Prop}
    {x : Reading (Parsed s 1 α)} {x' : Reading (Parsed s' 1 α)} (h : Agree R Same x x') :
    Beside R Same (do let ⟨a, rest, _⟩ ← x; atEnd rest; return a)
      (do let ⟨a, rest, _⟩ ← x'; atEnd rest; return a) := by
  refine .bind h ?_
  rintro _ _ @⟨a, a', rest, rest', used, used', ha, hrest⟩
  exact .bind (atEnd_beside hrest) fun _ _ _ => .ok ha

end whole

end ObjectLang.Parsing
