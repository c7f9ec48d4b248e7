import Mathlib.Tactic
import ObjectLang.Proofs.Lowering.Anywhere
import ObjectLang.Proofs.Lowering.Courses

/-!
# Open blocks

Code for any statement and any expression of an accepted program can be made in any state, if the
block that is open there, if there is one, has no terminator. What is done to the builder is then
disciplined: blocks are opened once and closed once, all that were made have a terminator in the
end, unless they are open, and blocks that were there before do not change. Behind an expression a
block is open if one was open before.
-/
namespace ObjectLang

open IR

section entering

/-- The parameters and variables of a function get their places. Gives what the code of its
statements is made from. -/
def enterBody (body : Body) (isMethod : Bool) (f : FunctionDecl) : Lower Body := do
  let temps := (← get).builder.procedure.params
  let params ← ((if isMethod then temps.tail else temps).zip f.params).mapM
    fun (temp, decl) => lowerParameter temp decl
  let locals ← (localsOf f.body).mapM (lowerLocal body)
  return { body with this := if isMethod then temps.head? else none, slots := params ++ locals }

theorem lowerBody_eq_enterBody (body : Body) (isMethod : Bool) (f : FunctionDecl) :
    lowerBody body isMethod f = (do
      let env ← enterBody body isMethod f
      lowerStmts env f.body) := by
  rw [lowerBody_eq, enterBody]
  simp only [bind_assoc, pure_bind]

/-- What is made for all of some things was made for each of them. -/
theorem Lower.of_mapM {α β : Type} {f : α → Lower β} {l : List α} {s s' : LowerState}
    {bs : List β} (h : l.mapM f s = .ok (bs, s')) {b : β} (hb : b ∈ bs) :
    ∃ a ∈ l, ∃ t t', f a t = .ok (b, t') := by
  induction l generalizing s bs with
  | nil =>
      cases h
      cases hb
  | cons a l ih =>
      rw [List.mapM_cons] at h
      obtain ⟨c, s₁, hc, h⟩ := Lower.of_bind h
      obtain ⟨cs, s₂, hcs, h⟩ := Lower.of_bind h
      cases h
      rcases List.mem_cons.1 hb with rfl | hb
      · exact ⟨a, List.mem_cons_self, s, s₁, hc⟩
      · obtain ⟨a', ha', hrun⟩ := ih hcs hb
        exact ⟨a', List.mem_cons_of_mem _ ha', hrun⟩

variable {body env : Body} {isMethod : Bool} {f : FunctionDecl} {s s' : LowerState}

/-- Only parameters and variables of a function have places, and only methods have a receiver. -/
theorem enterBody_spec (h : enterBody body isMethod f s = .ok (env, s')) :
    env.analysis = body.analysis ∧ env.layouts = body.layouts ∧
      (env.this.isSome → isMethod = true) ∧
      ∀ x ∈ env.slots, ∃ d ∈ f.params ++ localsOf f.body, d.id = x.1 := by
  obtain ⟨_, _, ⟨⟩, h⟩ := Lower.of_bind h
  obtain ⟨params, s₁, hparams, h⟩ := Lower.of_bind h
  obtain ⟨locals, s₂, hlocals, h⟩ := Lower.of_bind h
  cases h
  refine ⟨rfl, rfl, fun hthis => ?_, fun x hx => ?_⟩
  · cases isMethod with
    | true => rfl
    | false => cases hthis
  rcases List.mem_append.1 hx with hx | hx
  · obtain ⟨⟨temp, d⟩, hd, t, t', hrun⟩ := Lower.of_mapM hparams hx
    obtain ⟨_, _, ⟨⟩, hrun⟩ := Lower.of_bind hrun
    cases hrun
    exact ⟨d, List.mem_append_left _ (List.of_mem_zip hd).2, rfl⟩
  · obtain ⟨d, hd, t, t', hrun⟩ := Lower.of_mapM hlocals hx
    obtain ⟨_, _, _, hrun⟩ := Lower.of_bind hrun
    cases hrun
    exact ⟨d, List.mem_append_right _ hd, rfl⟩

end entering

/-- A node is an expression. -/
def Node.isExpr : Node → Bool
  | .expr _ => true
  | .location _ => false

/-- Code for the statements of a function or a method can be made from what analysis and layout have
found out, a receiver if it is a method, and a place for each of its variables. -/
structure Body.Suits (env : Body) (p : Program) (printName : String) (r : Routine) : Prop where
  analysis : env.analysis = p.analyze printName
  layouts : env.layouts = (Layouts.build p (p.analyze printName) {}).1
  this : r.owner.isSome → env.this.isSome
  slots : ∀ d ∈ r.decl.params ++ localsOf r.decl.body, ∃ x ∈ env.slots, x.1 = d.id

section programs

variable {p : Program} {body env : Body} {routines : List (Routine × Signature)}
  {s s₁ s₂ : LowerState} {r : Routine} {options : CompileOptions} {source : String}

theorem Program.Accepted.exists_compiled {a : Analysis} (options : CompileOptions)
    (ha : p.Accepted options.printFunction a) : ∃ body routines s, body.analysis = a ∧
      body.layouts = (Layouts.build p a {}).1 ∧ body.options = options ∧
        p.Compiled body routines s ∧ p.lower a options = .ok s.target.module := by
  obtain ⟨body, routines, s, hanalysis, hoptions, hcompiled, hlowered, -⟩ :=
    Program.Accepted.lowered ha
  refine ⟨body, routines, s, hanalysis, ?_, hoptions, hcompiled, ?_⟩
  · let run := (lowerProgram { analysis := a, layouts := (Layouts.build p a {}).1, options } p).run
      { target := (Layouts.build p a {}).2 }
    have hrun : p.lowered a options = (do
        let r ← run
        return ((Layouts.build p a {}).1, r.2)) := rfl
    rw [hrun] at hlowered
    cases hr : run with
    | error e =>
        rw [hr] at hlowered
        cases hlowered
    | ok r =>
        rw [hr] at hlowered
        exact (congrArg Prod.fst (Except.ok.inj hlowered)).symm
  · rw [p.lower_eq, hlowered]
    rfl

/-- Code for a body was made from something that serves whatever suits the function. -/
theorem Routine.Made.exists_serves (h : r.Made p body s₁ s₂)
    (hanalysis : body.analysis = p.analyze options.printFunction)
    (hlayouts : body.layouts = (Layouts.build p (p.analyze options.printFunction) {}).1)
    (hsuits : env.Suits p options.printFunction r) : ∃ made start s',
      made.Serves env ∧ made.analysis = body.analysis ∧ made.layouts = body.layouts ∧
        lowerStmts made r.decl.body start = .ok ((), s') := by
  have hran := h.ran
  rw [lowerBody_eq_enterBody] at hran
  obtain ⟨made, start, henter, hstmts⟩ := Lower.of_bind hran
  obtain ⟨hsame, hsame', hthis, hslots⟩ := enterBody_spec henter
  refine ⟨made, start, s₂, ⟨?_, ?_, fun hmade => hsuits.this (hthis hmade), fun id hid => ?_⟩,
    hsame, hsame', hstmts⟩
  · rw [hsuits.analysis, hsame, hanalysis]
  · rw [hsuits.layouts, hsame', hlayouts]
  · obtain ⟨x, hx⟩ := Option.isSome_iff_exists.1 hid
    obtain ⟨d, hd, hdx⟩ := hslots x (List.mem_of_find?_eq_some hx)
    obtain ⟨y, hy, hyd⟩ := hsuits.slots d hd
    have hxid := List.find?_some hx
    rw [List.find?_isSome]
    exact ⟨y, hy, by rw [hyd, hdx]; exact hxid⟩

/-- Code is made, and the moves that are put on record by this are disciplined and are all that is
done to the builder. -/
structure Advances {α : Type} (x : Lower α) (s : LowerState) (a : α) (s' : LowerState) : Prop where
  run : x s = .ok (a, s')
  moves : ∃ ms, s'.builder.moves.toList = s.builder.moves.toList ++ ms ∧
    s'.builder = s.builder.makeAll ms ∧ s.builder.Disciplined ms

/-- What is done to the builder is disciplined if a course may begin in the state. -/
theorem Steers.exists_advances {α : Type} {x : Lower α} (before : Option Bool)
    {behind : Option Bool} (h : Steers ⟨[], [], before⟩ x fun _ => ⟨[], [], behind⟩)
    (hx : Does x s fun _ _ => True)
    (hs : ∀ n, s.builder.current = some n → s.builder.Unterminated n)
    (hopen : ∀ b ∈ before, s.builder.isOpen = b) :
    ∃ a s', Advances x s a s' ∧ ∀ b ∈ behind, s'.builder.isOpen = b := by
  obtain ⟨a, s', hrun, -⟩ := hx
  have hstart : s.builder.Course [] [] [] ⟨[], [], before⟩ :=
    .start hs List.nodup_nil (by simp) (by simp) hopen
  obtain ⟨ms, hmade, hcourse⟩ := h _ _ _ _ s a s' hstart rfl hrun
  have hrecord : s'.builder.moves.toList = s.builder.moves.toList ++ ms := by
    rw [hmade, Builder.moves_makeAll]
  refine ⟨a, s', ⟨hrun, ms, hrecord, hmade, hcourse.disciplined rfl⟩, ?_⟩
  rw [hmade]
  exact hcourse.isOpen

variable (options) (hp : Program.ofText source = .ok p)
  (ha : (p.analyze options.printFunction).isAccepted = true) (hr : r.Belongs p)
  (hsuits : env.Suits p options.printFunction r)
include hp ha hr hsuits

/-- Code can be made anywhere for the statements that stand in an accepted program, and for its
expressions. -/
theorem Program.does_parts (s : LowerState) :
    (∀ items, Stands items r.decl.body → Does (lowerStmts env items) s fun _ _ => True) ∧
      ∀ n ∈ nodesOfBody r.decl.body, Does (n.code env) s fun _ _ => True := by
  have ha := Program.accepted hp ha
  obtain ⟨body, routines, s₀, hanalysis, hlayouts, -, hcompiled, -⟩ :=
    ha.exists_compiled options
  obtain ⟨sg, -, s₁, s₂, hmade, -⟩ := hcompiled.exists_coded hr
  obtain ⟨made, start, s', hserves, hsame, hsame', hran⟩ :=
    hmade.exists_serves hanalysis hlayouts hsuits
  refine ⟨fun items hitems => allows_stands hserves hitems _ _ _ hran s, fun n hn => ?_⟩
  have hnoted : r.decl.Noted p options.printFunction (p.analyze options.printFunction)
      (Layouts.build p (p.analyze options.printFunction) {}).1 := by
    obtain ⟨_, hbuilt⟩ := builds_layouts ha
    have hnoted := Program.noted ha (hbuilt.stands ha)
    obtain ⟨owner, decl⟩ := r
    cases owner with
    | none => exact hnoted.functions decl hr
    | some c => exact hnoted.methods _ hr.1.mem decl hr.2
  have hbound := hnoted.bound
  rw [← hlayouts, ← hanalysis, ← hsame, ← hsame'] at hbound
  exact allows_node_stmts hserves _ hbound hn _ _ _ hran s

/-- Wherever the open block, if there is one, has no terminator, code can be made for every
statement and every expression of an accepted program, and all that it does to the builder is
disciplined. Behind an expression a block is open if one was open before. -/
theorem Program.ofText_disciplined
    (hs : ∀ n, s.builder.current = some n → s.builder.Unterminated n) :
    (∀ x rest, Stands (x :: rest) r.decl.body → ∃ s', Advances (lowerStmt env x) s () s') ∧
      ∀ e, .expr e ∈ nodesOfBody r.decl.body → ∃ v s', Advances (lowerExpr env e) s v s' ∧
        (s.builder.isOpen = true → s'.builder.isOpen = true) := by
  obtain ⟨hstmts, hnodes⟩ := Program.does_parts options hp ha hr hsuits s
  refine ⟨fun x rest hx => ?_, fun e he => ?_⟩
  · obtain ⟨a, s', hrun, -⟩ := hstmts _ hx
    obtain ⟨_, s₁, hfirst, -⟩ := Lower.of_bind hrun
    obtain ⟨_, s', hadvances, -⟩ := Steers.exists_advances none (steers_stmt x)
      ⟨_, _, hfirst, trivial⟩ hs fun _ h => by cases h
    exact ⟨s', hadvances⟩
  -- What is known of the open block before the expression is known behind it.
  cases hopen : s.builder.isOpen with
  | false =>
      obtain ⟨v, s', hadvances, -⟩ := Steers.exists_advances none
        (steers_expr e (.inl rfl)) (hnodes _ he) hs fun _ h => by cases h
      exact ⟨v, s', hadvances, nofun⟩
  | true =>
      obtain ⟨v, s', hadvances, hbehind⟩ := Steers.exists_advances (some true)
        (steers_expr e (.inr rfl)) (hnodes _ he) hs fun _ h => by cases h; exact hopen
      exact ⟨v, s', hadvances, fun _ => hbehind _ rfl⟩

end programs

/-- A loop with a conditional statement, a division and statements that are not reached. -/
def loopingText : String :=
  "int main() \x7b while (1 < 2) { if (true && false) return 4 / 2; else { } return 0; { } } " ++
    "return 1; \x7d"

/-- The loop is made at the start of a procedure. -/
theorem Program.ofText_disciplined_loop : ∃ p d env x rest e, Program.ofText loopingText = .ok p ∧
      (p.analyze "printInt").isAccepted = true ∧ Routine.Belongs p ⟨none, d⟩ ∧
      Body.Suits env p "printInt" ⟨none, d⟩ ∧ Stands (x :: rest) d.body ∧
      .expr e ∈ nodesOfBody d.body ∧
      (∀ n, (Builder.start default "entry").current = some n →
        (Builder.start default "entry").Unterminated n) ∧
      (∃ s', Advances (lowerStmt env x) { builder := Builder.start default "entry" } () s') ∧
      ∃ v s', Advances (lowerExpr env e) { builder := Builder.start default "entry" } v s' ∧
        ((Builder.start default "entry").isOpen = true → s'.builder.isOpen = true) := by
  obtain ⟨p, d, hp, ha, hr, hread⟩ := exists_function_of_any loopingText
    (fun d => d.body.length == 2 && (nodesOfBody d.body).any Node.isExpr) (by decide +kernel)
  obtain ⟨hlength, hnodes⟩ := Bool.and_eq_true_iff.1 hread
  obtain ⟨x, y, hbody⟩ := List.length_eq_two.1 (eq_of_beq hlength)
  obtain ⟨n, hn, hexpr⟩ := List.any_eq_true.1 hnodes
  cases n with
  | location l => cases hexpr
  | expr e =>
      let env : Body :=
        { analysis := p.analyze "printInt"
          layouts := (Layouts.build p (p.analyze "printInt") {}).1
          options := {}
          slots := (d.params ++ localsOf d.body).map fun v => (v.id, 0) }
      have hsuits : env.Suits p "printInt" ⟨none, d⟩ :=
        ⟨rfl, rfl, nofun, fun v hv => ⟨_, List.mem_map_of_mem hv, rfl⟩⟩
      have hs : ∀ n, (Builder.start default "entry").current = some n →
          (Builder.start default "entry").Unterminated n := by
        rintro _ ⟨⟩
        exact ⟨_, rfl, rfl⟩
      have hx : Stands [x, y] d.body := hbody ▸ .here
      obtain ⟨hstmts, hexprs⟩ :=
        Program.ofText_disciplined {} hp ha hr hsuits (s := ⟨{}, [], _⟩) hs
      exact ⟨p, d, env, x, [y], e, hp, ha, hr, hsuits, hx, hn, hs, hstmts x [y] hx, hexprs e hn⟩

end ObjectLang
