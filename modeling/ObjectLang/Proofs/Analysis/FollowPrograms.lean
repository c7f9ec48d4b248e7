import Mathlib.Tactic
import ObjectLang.Proofs.Analysis.Acceptance
import ObjectLang.Proofs.Analysis.FollowBodies

/-!
# The analysis of programs follows their verdicts

What analysis says about any program, accepted or not: behind what is wrong with its classes, its
functions and its returns, just what the verdict on all members and bodies amounts to.
-/
namespace ObjectLang

section firsts

variable {α : Type} (name : α → String)

theorem find?_foldl_firsts (n : String) (l found : List α) :
    (l.foldl (fun found x => if found.any (name · == name x) then found else found ++ [x])
      found).find? (name · == n) = (found ++ l).find? (name · == n) := by
  induction l generalizing found with
  | nil => rw [List.foldl_nil, List.append_nil]
  | cons x l ih =>
      rw [List.foldl_cons, ih, List.find?_append, List.find?_append, List.find?_cons]
      split_ifs with htaken
      · cases hx : name x == n with
        | false => rfl
        | true =>
            obtain ⟨y, hy, hname⟩ := List.any_eq_true.1 htaken
            have hsome : (found.find? (name · == n)).isSome := by
              refine List.find?_isSome.2 ⟨y, hy, ?_⟩
              rw [beq_iff_eq] at hname hx ⊢
              rw [hname, hx]
            obtain ⟨z, hz⟩ := Option.isSome_iff_exists.1 hsome
            rw [hz]
            rfl
      · rw [List.find?_append, List.find?_cons]
        cases name x == n <;> cases found.find? (name · == n) <;> rfl

/-- The first member of a name is among the first ones. -/
theorem find?_firsts (n : String) (l : List α) :
    (firsts name l).find? (name · == n) = l.find? (name · == n) :=
  find?_foldl_firsts name n l []

theorem nodup_foldl_firsts (l found : List α) (h : (found.map name).Nodup) :
    ((l.foldl (fun found x => if found.any (name · == name x) then found else found ++ [x])
      found).map name).Nodup := by
  induction l generalizing found with
  | nil => exact h
  | cons x l ih =>
      rw [List.foldl_cons]
      split_ifs with htaken
      · exact ih found h
      · refine ih _ ?_
        rw [List.map_append, List.nodup_append']
        refine ⟨h, List.nodup_singleton _, fun n hn hx => htaken ?_⟩
        obtain ⟨y, hy, rfl⟩ := List.mem_map.1 hn
        exact List.any_eq_true.2 ⟨y, hy, by simpa using hx⟩

theorem foldl_firsts_sublist (l found : List α) :
    (l.foldl (fun found x => if found.any (name · == name x) then found else found ++ [x])
      found).Sublist (found ++ l) := by
  induction l generalizing found with
  | nil => simp
  | cons x l ih =>
      rw [List.foldl_cons]
      split_ifs
      · exact (ih found).trans ((List.sublist_cons_self x l).append_left found)
      · simpa using ih (found ++ [x])

theorem firsts_sublist (l : List α) : (firsts name l).Sublist l :=
  foldl_firsts_sublist name l []

theorem firsts_subset (l : List α) : firsts name l ⊆ l :=
  (firsts_sublist name l).subset

/-- No two of the first members have one name. -/
theorem nodup_firsts (l : List α) : ((firsts name l).map name).Nodup :=
  nodup_foldl_firsts name l [] List.nodup_nil

end firsts

namespace Option.Fits

variable {α β : Type} {R : α → β → Prop}

theorem findSome? {ι : Type} {l : List ι} {f : ι → Option α} {g : ι → Option β}
    (h : ∀ i ∈ l, Option.Fits R (f i) (g i)) :
    Option.Fits R (l.findSome? f) (l.findSome? g) := by
  induction l with
  | nil => trivial
  | cons i l ih =>
      have hi := h i (List.mem_cons_self ..)
      rw [List.findSome?_cons, List.findSome?_cons]
      cases hf : f i <;> cases hg : g i <;> rw [hf, hg] at hi
      · exact ih fun j hj => h j (List.mem_cons_of_mem _ hj)
      · exact hi.elim
      · exact hi.elim
      · exact hi

theorem map_right {γ : Type} {R : α → γ → Prop} {f : β → γ} {x : Option α} {y : Option β}
    (h : Option.Fits (fun a b => R a (f b)) x y) : Option.Fits R x (y.map f) := by
  cases x <;> cases y <;> exact h

theorem map_left {γ : Type} {R : γ → β → Prop} {f : α → γ} {x : Option α} {y : Option β}
    (h : Option.Fits (fun a b => R (f a) b) x y) : Option.Fits R (x.map f) y := by
  cases x <;> cases y <;> exact h

theorem isSome_eq {x : Option α} {y : Option β} (h : Option.Fits R x y) : x.isSome = y.isSome := by
  cases x <;> cases y <;> first | rfl | exact h.elim

theorem find? {l : List α} {l' : List β} {f : α → Bool} {g : β → Bool}
    (h : List.Forall₂ (fun x y => f x = g y ∧ R x y) l l') :
    Option.Fits R (l.find? f) (l'.find? g) := by
  induction h with
  | nil => trivial
  | @cons x y _ _ hxy _ ih =>
      rw [List.find?_cons, List.find?_cons, hxy.1]
      cases g y with
      | true => exact hxy.2
      | false => exact ih

end Option.Fits

namespace Program

variable {p : Program} {printName : String}

/-- An accepted class is the first of its name. -/
theorem class?_classDecl {c : ClassRef} (hc : c ∈ p.classTable.classes) :
    p.class? c.name = some (p.classDecl c) := by
  obtain ⟨d, i, hd, hchain⟩ := ClassTable.mem_build.1 hc
  obtain ⟨hget, hfirst⟩ := ClassTable.mem_accepted.1 hd
  have hname : c.name = d.name.name := by
    rw [hchain.name, hget]
    rfl
  rw [class?, hname, List.find?_eq_bind_findIdx?_getElem?]
  rw [ClassTable.firstOf?] at hfirst
  rw [hfirst, classDecl, hchain.decl, Option.bind_some, hget]
  rfl

theorem acceptedClasses_eq_accepted :
    p.acceptedClasses = (ClassTable.accepted p.classes).map Prod.fst := by
  rw [acceptedClasses, classTable, ClassTable.classes_build, List.map_map]
  refine List.map_congr_left fun ⟨d, i⟩ hd => ?_
  rw [Function.comp_apply, classDecl, (ClassTable.chain_left hd).decl,
    (ClassTable.mem_accepted.1 hd).1]
  rfl

/-- The accepted classes come in the order of their declarations. -/
theorem acceptedClasses_sublist : p.acceptedClasses.Sublist p.classes := by
  have hfilter : (ClassTable.accepted p.classes).Sublist p.classes.zipIdx := List.filter_sublist
  have hmap := hfilter.map Prod.fst
  rwa [List.zipIdx_map_fst, ← acceptedClasses_eq_accepted] at hmap

theorem find?_classTable {c : ClassRef} (hc : c ∈ p.classTable.classes) :
    p.classTable.find? c.name = some c :=
  ClassTable.closed_build.find?_eq hc

theorem mem_classTable_of_mem_ancestors {c d : ClassRef} (hc : c ∈ p.classTable.classes)
    (hd : d ∈ c.ancestors) : d ∈ p.classTable.classes :=
  ClassTable.closed_build.ancestors c hc d hd

theorem ancestors?_eq {c : ClassRef} (hc : c ∈ p.classTable.classes) :
    p.ancestors? c.name = some (c.ancestors.map ClassRef.name) := by
  rw [ancestors?, find?_classTable hc]
  rfl

/-- What the nearest class upwards has from an accepted class on. -/
theorem upwards?_eq {α : Type} {c : ClassRef} (hc : c ∈ p.classTable.classes)
    (own? : ClassDecl → Option α) :
    p.upwards? c.name own? = c.ancestors.findSome? fun owner => own? (p.classDecl owner) := by
  have howners : ∀ l : List ClassRef, l ⊆ p.classTable.classes →
      l.findSome? (fun owner => (p.class? owner.name).bind own?) =
        l.findSome? fun owner => own? (p.classDecl owner) := by
    intro l hl
    induction l with
    | nil => rfl
    | cons owner l ih =>
        rw [List.cons_subset] at hl
        rw [List.findSome?_cons, List.findSome?_cons, class?_classDecl hl.1, Option.bind_some,
          ih hl.2]
  rw [upwards?, ancestors?_eq hc, Option.getD_some, List.findSome?_map]
  exact howners _ fun _ => mem_classTable_of_mem_ancestors hc

end Program

variable {p : Program} {S : Setting} {current : Option String} {a b : ArrayTypes}
  {env : Surroundings}

/-- The members that a class declares, with the outlines of their types. -/
structure ClassMembers.Fits (p : Program) (S : Setting) (a : ArrayTypes) (c : ClassRef)
    (m : ClassMembers) : Prop where
  cls : m.cls = c
  fields : List.Forall₂ (fun x d => x.decl = d ∧ x.type.Matches p.classTable a (S.outline d.type))
    m.fields (firsts (·.name.name) (p.classDecl c).fields)
  methods : List.Forall₂ (fun x f => x.decl = f ∧
    MethodOutline.Fits p.classTable a x.params x.returnType (f.outline S.declares))
    m.methods (firsts (·.name.name) (p.classDecl c).methods)

namespace ClassMembers.Fits

variable {c : ClassRef} {m : ClassMembers}

theorem mono (h : m.Fits p S a c) (hab : a.Within b) : m.Fits p S b c :=
  ⟨h.cls, h.fields.imp fun _ _ h => ⟨h.1, h.2.mono hab⟩,
    h.methods.imp fun _ _ h => ⟨h.1, h.2.mono hab⟩⟩

theorem field? (h : m.Fits p S a c) (name : String) :
    Option.Fits (fun x o => x.type.Matches p.classTable a o) (m.field? name)
      (((p.classDecl c).field? name).map fun d => S.outline d.type) := by
  have hfind := find?_firsts (fun d : VarDecl => d.name.name) name (p.classDecl c).fields
  rw [ClassDecl.field?, ← hfind]
  exact (Option.Fits.find? (h.fields.imp fun x d hx => ⟨by rw [hx.1], hx.2⟩)).map_right

theorem method? (h : m.Fits p S a c) (name : String) :
    Option.Fits (fun x o => MethodOutline.Fits p.classTable a x.params x.returnType o)
      (m.method? name) (((p.classDecl c).method? name).map (FunctionDecl.outline S.declares)) := by
  have hfind := find?_firsts (fun f : FunctionDecl => f.name.name) name (p.classDecl c).methods
  rw [ClassDecl.method?, ← hfind]
  exact (Option.Fits.find? (h.methods.imp fun x f hx => ⟨by rw [hx.1], hx.2⟩)).map_right

end ClassMembers.Fits

namespace MemberTable

variable {members : List ClassMembers} {c : ClassRef}

theorem of?_fits (h : List.Forall₂ (fun c m => m.Fits p S a c) p.classTable.classes members)
    (hc : c ∈ p.classTable.classes) :
    ∃ m, MemberTable.of? ⟨members⟩ c = some m ∧ m.Fits p S a c := by
  have hfind := p.find?_classTable hc
  have hfits := Option.Fits.find? (R := fun d m => m.Fits p S a d)
    (f := fun d => d.name == c.name) (g := fun m => m.cls.same c)
    (h.imp fun d m hm => ⟨by rw [hm.cls]; rfl, hm⟩)
  rw [ClassTable.find?] at hfind
  rw [hfind] at hfits
  rw [MemberTable.of?]
  cases hm : members.find? fun m => m.cls.same c with
  | none =>
      rw [hm] at hfits
      exact hfits.elim
  | some m =>
      rw [hm] at hfits
      exact ⟨m, rfl, hfits⟩

theorem field?_fits (h : List.Forall₂ (fun c m => m.Fits p S a c) p.classTable.classes members)
    (hc : c ∈ p.classTable.classes) (name : String) :
    Option.Fits (fun x o => x.2.type.Matches p.classTable a o)
      (MemberTable.field? ⟨members⟩ c name)
      (p.upwards? c.name fun c => (c.field? name).map fun d => S.outline d.type) := by
  rw [p.upwards?_eq hc]
  refine Option.Fits.findSome? fun owner howner => ?_
  obtain ⟨m, hm, hfits⟩ := of?_fits h (p.mem_classTable_of_mem_ancestors hc howner)
  rw [hm]
  exact Option.Fits.map_left (R := fun (x : ClassRef × TypedVar) o =>
    x.2.type.Matches p.classTable a o) (f := fun field => (owner, field)) (hfits.field? name)

theorem method?_fits (h : List.Forall₂ (fun c m => m.Fits p S a c) p.classTable.classes members)
    (hc : c ∈ p.classTable.classes) (name : String) :
    Option.Fits (fun x o => MethodOutline.Fits p.classTable a x.2.params x.2.returnType o)
      (MemberTable.method? ⟨members⟩ c name)
      (p.upwards? c.name fun c => (c.method? name).map (FunctionDecl.outline S.declares)) := by
  rw [p.upwards?_eq hc]
  refine Option.Fits.findSome? fun owner howner => ?_
  obtain ⟨m, hm, hfits⟩ := of?_fits h (p.mem_classTable_of_mem_ancestors hc howner)
  rw [hm]
  exact Option.Fits.map_left (R := fun (x : ClassRef × TypedMethod) o =>
    MethodOutline.Fits p.classTable a x.2.params x.2.returnType o)
    (f := fun method => (owner, method)) (hfits.method? name)

end MemberTable

namespace Check

/-- The value of a verdict is what is followed. -/
theorem Follows.value {α β : Type} {R : ArrayTypes → α → β → Prop} {m : Check α} {v : Verdict β}
    (h : Follows p S a m v R) : Follows p S a m v fun b x y => y = v.value ∧ R b x y := by
  intro known f hf ha
  obtain ⟨hg, hx⟩ := h known f hf ha
  exact ⟨hg, rfl, hx⟩

theorem follows_mapM_forM {ι κ α : Type} {R : ArrayTypes → ι → α → Prop} {k : ι → Check α}
    {k' : κ → Verdict PUnit} {l : List ι} {l' : List κ}
    (hR : ∀ b c i x, b.Within c → R b i x → R c i x)
    (h : List.Forall₂ (fun i j => ∀ b, a.Within b →
      Follows p S b (k i) (k' j) fun b x _ => R b i x) l l') :
    Follows p S a (l.mapM k) (l'.forM k') fun b xs _ => List.Forall₂ (R b) l xs := by
  suffices hsuf : ∀ b, a.Within b →
      Follows p S b (l.mapM k) (l'.forM k') fun b xs _ => List.Forall₂ (R b) l xs from hsuf a .rfl
  induction h with
  | nil =>
      intro b _
      rw [List.mapM_nil]
      exact follows_pure fun _ _ _ => .nil
  | @cons i j l l' hx _ ih =>
      intro b hb
      rw [List.mapM_cons]
      refine (hx b hb).bind (w := fun _ => l'.forM k') fun c x _ hc _ hxy => ?_
      have hrest := (ih c (hb.trans hc)).bind (k := fun xs => pure (x :: xs)) (w := pure)
        (Q := fun d xs _ => List.Forall₂ (R d) (i :: l) xs) fun d xs _ hd _ hxs =>
          follows_pure fun e he _ => .cons (hR _ _ _ _ (hd.trans he) hxy)
            (hxs.imp fun _ _ => hR _ _ _ _ he)
      rwa [bind_pure] at hrest

section members

variable {c : ClassRef}

/-- One more member, unless its name is taken. -/
theorem follows_addMember {α β γ : Type} {Q : ArrayTypes → γ → List β → Prop}
    {f : α → String} {g : β → String} {members : List α} {members' : List β}
    (h : List.Forall₂ (fun x y => f x = g y) members members') {y : β} {m n : γ}
    (taken : β → Diagnostic) {k : Check γ}
    (hk : k = if (members.find? (f · == g y)).isSome then (do report (taken y); return m)
      else return n)
    (hsame : ∀ b, a.Within b → Q b m members') (hnew : ∀ b, a.Within b → Q b n (members' ++ [y])) :
    Follows p S a k (Setting.addMember g taken members' y) Q := by
  have htaken : (members.find? (f · == g y)).isSome = members'.any (g · == g y) := by
    rw [← List.isSome_find?]
    exact (Option.Fits.find? (R := fun _ _ => True)
      (h.imp fun _ _ hx => ⟨by rw [hx], trivial⟩)).isSome_eq
  rw [hk, htaken, Setting.addMember]
  split_ifs
  · exact (follows_report _).bind fun b _ _ hb _ _ =>
      follows_pure fun c hc _ => hsame c (hb.trans hc)
  · exact follows_pure fun b hb _ => hnew b hb

variable (hS : S.ancestors? = p.ancestors?) (hp : p.ids.Nodup)
include hS hp

/-- The fields of a class with one more. -/
theorem follows_declareField {m : ClassMembers} {fields : List VarDecl} (hc : m.cls = c)
    (hm : List.Forall₂ (fun x d => x.decl = d ∧ x.type.Matches p.classTable a (S.outline d.type))
      m.fields fields) {d : VarDecl} (ht : d.type ∈ p.typeExprs) :
    Follows p S a (declareField p.classTable m d) (S.declareField c.name fields d)
      fun b m' fields' => m'.cls = c ∧ m'.methods = m.methods ∧
        List.Forall₂ (fun x d => x.decl = d ∧ x.type.Matches p.classTable b (S.outline d.type))
          m'.fields fields' := by
  rw [declareField, Setting.declareField]
  refine ((follows_checkType hS hp ht).value).bind fun b V type hb _ hV => ?_
  obtain ⟨rfl, hV⟩ := hV
  have hmono : ∀ c, b.Within c → List.Forall₂ (fun x d =>
      x.decl = d ∧ x.type.Matches p.classTable c (S.outline d.type)) m.fields fields :=
    fun c hbc => hm.imp fun _ _ h => ⟨h.1, (h.2.mono hb).mono hbc⟩
  subst hc
  refine follows_addMember (f := fun x => x.decl.name.name) (m := m)
    (n := ({ m with fields := m.fields ++ [⟨d, V⟩] } : ClassMembers))
    (hm.imp fun x d hx => by rw [hx.1]) _ ?_ ?_ ?_
  · rw [ClassMembers.addField?, ClassMembers.field?]
    split_ifs <;> rfl
  · exact fun c hbc => ⟨rfl, rfl, hmono c hbc⟩
  · exact fun c hbc =>
      ⟨rfl, rfl, List.rel_append (hmono c hbc) (.cons ⟨rfl, hV.mono hbc⟩ .nil)⟩

/-- The methods of a class with one more. -/
theorem follows_declareMethod {m : ClassMembers} {methods : List FunctionDecl} (hc : m.cls = c)
    (hm : List.Forall₂ (fun x f => x.decl = f ∧ MethodOutline.Fits p.classTable a x.params
      x.returnType (f.outline S.declares)) m.methods methods) {f : FunctionDecl}
    (ht : f.written ⊆ p.typeExprs) :
    Follows p S a (declareMethod p.classTable m f) (S.declareMethod c.name methods f)
      fun b m' methods' => m'.cls = c ∧ m'.fields = m.fields ∧
        List.Forall₂ (fun x f => x.decl = f ∧ MethodOutline.Fits p.classTable b x.params
          x.returnType (f.outline S.declares)) m'.methods methods' := by
  rw [FunctionDecl.written, List.cons_subset] at ht
  rw [declareMethod, Setting.declareMethod]
  refine (follows_mapM (fun _ _ _ _ hb h => h.mono hb) (List.forall₂_same.2 fun d hd b _ =>
    follows_checkType hS hp (ht.2 (List.mem_append_left _ (List.mem_map_of_mem hd))))).value.bind
    fun b params params' hb _ hparams => ?_
  refine ((follows_checkType hS hp ht.1).value).bind fun e V type he _ hV => ?_
  obtain ⟨hvalue, hparams⟩ := hparams
  obtain ⟨rfl, hV⟩ := hV
  have houtline : params' = f.params.map fun d => S.outline d.type := by
    rw [hvalue]
    exact Verdict.value_mapM _ _
  subst houtline hc
  have hmono : ∀ d, e.Within d → List.Forall₂ (fun x f => x.decl = f ∧
      MethodOutline.Fits p.classTable d x.params x.returnType (f.outline S.declares))
      m.methods methods :=
    fun d hed => hm.imp fun _ _ h => ⟨h.1, ((h.2.mono hb).mono he).mono hed⟩
  refine follows_addMember (f := fun x => x.decl.name.name) (m := m)
    (n := ({ m with methods := m.methods ++ [⟨f, params, V⟩] } : ClassMembers))
    (hm.imp fun x f hx => by rw [hx.1]) _ ?_ ?_ ?_
  · rw [ClassMembers.addMethod?, ClassMembers.method?]
    split_ifs <;> rfl
  · exact fun d hed => ⟨rfl, rfl, hmono d hed⟩
  · refine fun d hed => ⟨rfl, rfl, List.rel_append (hmono d hed) (.cons ⟨rfl, ?_, ?_⟩ .nil)⟩
    · exact hparams.imp fun _ _ h => (h.mono he).mono hed
    · exact hV.mono hed

/-- The members of a class. -/
theorem follows_declareMembers (hc : c ∈ p.classTable.classes) :
    Follows p S a (declareMembers p.classTable c (p.classDecl c)) (S.members (p.classDecl c))
      fun b m _ => m.Fits p S b c := by
  have hname : (p.classDecl c).name.name = c.name := (ClassTable.classDecl_build hc).2
  obtain ⟨hmem, _⟩ := ClassTable.classDecl_build hc
  have hwritten : (p.classDecl c).written ⊆ p.typeExprs := fun t ht =>
    Program.mem_typeExprs_of_class (List.mem_of_getElem? hmem) ht
  rw [ClassDecl.written, List.append_subset] at hwritten
  rw [declareMembers, Setting.members, hname]
  refine (follows_foldlM (R := fun b (m : ClassMembers) fields => m.cls = c ∧ m.methods = [] ∧
    List.Forall₂ (fun x d => x.decl = d ∧ x.type.Matches p.classTable b (S.outline d.type))
      m.fields fields) (x := { cls := c }) (y := [])
    (List.forall₂_same.2 fun d hd b m fields _ hm =>
      (follows_declareField hS hp hm.1 hm.2.2 (hwritten.1 (List.mem_map_of_mem hd))).mono
        fun _ _ _ _ _ h => ⟨h.1, h.2.1.trans hm.2.1, h.2.2⟩)
    (fun b e m fields hbe hm => ⟨hm.1, hm.2.1, hm.2.2.imp fun _ _ h =>
      ⟨h.1, h.2.mono hbe⟩⟩) ⟨rfl, rfl, .nil⟩).value.bind fun b m fields _ _ hm => ?_
  obtain ⟨hvalue, hcls, hnone, hm⟩ := hm
  rw [S.value_declareFields] at hvalue
  have hmethods := (follows_foldlM (a := b) (R := fun e (n : ClassMembers) methods => n.cls = c ∧
    n.fields = m.fields ∧ List.Forall₂ (fun x f => x.decl = f ∧
      MethodOutline.Fits p.classTable e x.params x.returnType (f.outline S.declares))
      n.methods methods) (x := m) (y := [])
    (List.forall₂_same.2 fun f hf e n methods _ hn =>
      (follows_declareMethod hS hp hn.1 hn.2.2 fun t ht => hwritten.2
        (List.mem_flatMap.2 ⟨f, hf, ht⟩)).mono
          fun _ _ _ _ _ h => ⟨h.1, h.2.1.trans hn.2.1, h.2.2⟩)
    (fun e g n methods heg hn => ⟨hn.1, hn.2.1, hn.2.2.imp fun _ _ h =>
      ⟨h.1, h.2.mono heg⟩⟩) ⟨hcls, rfl, hnone ▸ .nil⟩).value
  have hlast := hmethods.bind (k := pure) (w := fun _ => pure ())
    (Q := fun e n (_ : Unit) => n.Fits p S e c) fun e n methods he _ hn => ?_
  · rwa [bind_pure] at hlast
  obtain ⟨hvalue', hcls, hsame, hn⟩ := hn
  rw [S.value_declareMethods] at hvalue'
  refine follows_pure fun g hg _ => ⟨hcls, ?_, ?_⟩
  · rw [hsame, ← hvalue]
    exact hm.imp fun _ _ h => ⟨h.1, (h.2.mono he).mono hg⟩
  · rw [← hvalue']
    exact hn.imp fun _ _ h => ⟨h.1, h.2.mono hg⟩

end members

section overrides

variable (hS : S.ancestors? = p.ancestors?)
include hS

/-- The parameters whose types are not those of the overridden method. -/
theorem changed_eq (ha : a.Regular p.classTable) (name : String) {ds : List VarDecl}
    {Vs Ws : List ValueType} {os : List Outline}
    (hV : List.Forall₂ (fun V d => V.Matches p.classTable a (S.outline d.type)) Vs ds)
    (hW : List.Forall₂ (ValueType.Matches p.classTable a) Ws os) :
    (((ds.zip (Vs.zip Ws)).filter fun (_, type, expected) => !type.isEquivalent expected).map
      fun (param, _) => Diagnostic.overrideParameterType name param.span) =
    ((ds.zip os).filter fun (d, expected) =>
      !(S.isSubtype (S.outline d.type) expected && S.isSubtype expected (S.outline d.type))).map
        fun (d, _) => .overrideParameterType name d.span := by
  induction hV generalizing Ws os with
  | nil => rfl
  | @cons V d Vs ds hVd _ ih =>
      cases hW with
      | nil => rfl
      | @cons W o Ws os hWo hW =>
          simp only [List.zip_cons_cons, List.filter_cons, ValueType.isEquivalent,
            isSubtype_eq hS ha hVd hWo, isSubtype_eq hS ha hWo hVd]
          split_ifs
          · rw [List.map_cons, List.map_cons, ← ih hW]
            rfl
          · exact ih hW

theorem overrideDiagnostics_eq (ha : a.Regular p.classTable) {x y : TypedMethod}
    {f : FunctionDecl} {o : MethodOutline} (hx : x.decl = f)
    (hf : MethodOutline.Fits p.classTable a x.params x.returnType (f.outline S.declares))
    (ho : MethodOutline.Fits p.classTable a y.params y.returnType o) :
    overrideDiagnostics x y = S.overrides f o := by
  have hlength := hf.params.length_eq
  rw [FunctionDecl.outline, List.length_map] at hlength
  have hchanged := changed_eq hS ha f.name.name (List.forall₂_map_right_iff.1 hf.params) ho.params
  simp only [overrideDiagnostics, Setting.overrides, hx, hlength, ho.params.length_eq, hchanged,
    isSubtype_eq hS ha hf.returnType ho.returnType]
  rfl

/-- What the methods of a class have wrong that override others. -/
theorem classOverrides_eq (ha : a.Regular p.classTable) {members : List ClassMembers}
    (h : List.Forall₂ (fun c m => m.Fits p S a c) p.classTable.classes members)
    (hmethod : ∀ c ∈ p.classTable.classes, ∀ name, S.method? c.name name =
      p.upwards? c.name fun c => (c.method? name).map (FunctionDecl.outline S.declares))
    {c : ClassRef} (hc : c ∈ p.classTable.classes) :
    classOverrides ⟨members⟩ c = S.classOverrides (p.classDecl c) := by
  obtain ⟨m, hm, hfits⟩ := MemberTable.of?_fits h hc
  have hname : (p.classDecl c).name.name = c.name := (ClassTable.classDecl_build hc).2
  rw [classOverrides, hm, Setting.classOverrides, hname, hS, p.ancestors?_eq hc, Option.bind_some]
  cases c with
  | root name decl => rfl
  | derived name decl superclass =>
      have hsuper : superclass ∈ p.classTable.classes := by
        refine p.mem_classTable_of_mem_ancestors hc (List.mem_cons_of_mem _ ?_)
        cases superclass <;> exact List.mem_cons_self ..
      have hsecond : ((ClassRef.derived name decl superclass).ancestors.map ClassRef.name)[1]? =
          some superclass.name := by
        cases superclass <;> rfl
      rw [hsecond]
      simp only [ClassRef.superclass?, Option.elim_some]
      obtain ⟨-, -, hmethods⟩ := hfits
      clear hm
      generalize firsts (fun f : FunctionDecl => f.name.name) _ = fs at hmethods
      generalize m.methods = xs at hmethods ⊢
      induction hmethods with
      | nil => rfl
      | @cons x f _ _ hx _ ih =>
          rw [List.flatMap_cons, List.flatMap_cons, ih, hx.1]
          congr 1
          have hfind := MemberTable.method?_fits h hsuper f.name.name
          rw [← hmethod _ hsuper] at hfind
          cases hy : MemberTable.method? ⟨members⟩ superclass f.name.name <;>
            cases ho : S.method? superclass.name f.name.name <;> rw [hy, ho] at hfind
          · rfl
          · exact hfind.elim
          · exact hfind.elim
          · exact overrideDiagnostics_eq hS ha hx.1 hx.2 hfind

end overrides

end Check

namespace FunctionTable

theorem functions_addAll_subset (decls : List FunctionDecl) (t : FunctionTable × List Diagnostic)
    {f : FunctionDecl} (hf : f ∈ (addAll t decls).1.functions) : f ∈ t.1.functions ∨ f ∈ decls := by
  induction decls generalizing t with
  | nil => exact .inl hf
  | cons d decls ih =>
      rcases ih _ hf with h | h
      · simp only [add] at h
        split_ifs at h
        · exact .inl h
        · rcases List.mem_append.1 h with h | h
          · exact .inl h
          · rw [List.mem_singleton.1 h]
            exact .inr (List.mem_cons_self ..)
      · exact .inr (List.mem_cons_of_mem _ h)

/-- What a name calls is a function of the program. -/
theorem mem_of_find?_build {printName name : String} {decls : List FunctionDecl} {f : FunctionDecl}
    (h : (build printName decls).1.find? name = some (.declared f)) : f ∈ decls := by
  rw [FunctionTable.find?] at h
  split_ifs at h
  · cases h
  · obtain ⟨g, hg, heq⟩ := Option.map_eq_some_iff.1 h
    cases heq
    rcases functions_addAll_subset decls (⟨printName, []⟩, []) (List.mem_of_find?_eq_some hg)
      with h | h
    · cases h
    · exact h

end FunctionTable

namespace Check

variable {printName : String}

/-- The accepted classes with their declarations. -/
theorem forall₂_acceptedClasses {R : ClassRef → ClassDecl → Prop}
    (h : ∀ c ∈ p.classTable.classes, R c (p.classDecl c)) :
    List.Forall₂ R p.classTable.classes p.acceptedClasses :=
  List.forall₂_map_right_iff.2 (List.forall₂_same.2 h)

theorem written_classDecl {c : ClassRef} (hc : c ∈ p.classTable.classes) :
    (p.classDecl c).written ⊆ p.typeExprs := fun _ ht =>
  Program.mem_typeExprs_of_class (List.mem_of_getElem? (ClassTable.classDecl_build hc).1) ht

theorem follows_declareAll (hp : p.ids.Nodup) (hS : S.ancestors? = p.ancestors?) :
    Follows p S a (declareAll p p.classTable) (p.acceptedClasses.forM S.members)
      fun b members _ => List.Forall₂ (fun c m => m.Fits p S b c) p.classTable.classes members :=
  follows_mapM_forM (fun _ _ _ _ hbc h => h.mono hbc)
    (forall₂_acceptedClasses fun _ hc _ _ => follows_declareMembers hS hp hc)

section bodies

variable {members : List ClassMembers}
  (hmembers : List.Forall₂ (fun c m => m.Fits p (p.setting printName) a c) p.classTable.classes
    members)
include hmembers

/-- What the bodies of a program are checked against. -/
theorem fits_bodySurroundings (hp : p.ids.Nodup) {cls : Option ClassRef} {name : Option String}
    (hcls : Option.Fits (IsClass p) cls name) :
    Surroundings.Fits p (p.setting printName) name a
      { bodySurroundings p.classTable (FunctionTable.build printName p.functions).1 members with
        current := cls } where
  ids := hp
  ancestors := rfl
  classes := rfl
  functions := rfl
  declared _ _ h := FunctionTable.mem_of_find?_build h
  fields _ hc name := MemberTable.field?_fits hmembers hc name
  methods _ hc name := MemberTable.method?_fits hmembers hc name
  current := hcls

theorem follows_reportOverrides : FollowsEvents p (p.setting printName) a
    (reportOverrides p.classTable members)
    (p.acceptedClasses.forM fun c =>
      ((p.setting printName).classOverrides c).forM Verdict.report) := by
  refine follows_forM (forall₂_acceptedClasses fun c hc b hb => ?_)
  intro known f hf hbf
  rw [classOverrides_eq (S := p.setting printName) rfl hf.arrays
    (hmembers.imp fun _ _ h => h.mono (hb.trans hbf)) (fun _ _ _ => rfl) hc]
  exact follows_forM (List.forall₂_same.2 fun d _ _ _ => follows_report d) known f hf hbf

theorem follows_checkBodies (hp : p.ids.Nodup) : FollowsEvents p (p.setting printName) a
    (checkBodies p
      (bodySurroundings p.classTable (FunctionTable.build printName p.functions).1 members))
    (do
      p.acceptedClasses.forM fun c =>
        c.methods.forM ((p.setting printName).function (some c.name.name))
      p.functions.forM ((p.setting printName).function none)) := by
  rw [checkBodies]
  refine (follows_forM (forall₂_acceptedClasses fun c hc b hb => ?_)).bind fun b _ _ hb _ _ => ?_
  · refine follows_forM (List.forall₂_same.2 fun f hf e he => ?_)
    rw [(ClassTable.classDecl_build hc).2]
    refine follows_checkFunction (((fits_bodySurroundings hmembers hp ?_).mono hb).mono he)
      fun t ht => written_classDecl hc (List.mem_append_right _ (List.mem_flatMap.2 ⟨f, hf, ht⟩))
    exact ⟨hc, rfl⟩
  · refine follows_forM (List.forall₂_same.2 fun f hf e he => ?_)
    have hnone : Option.Fits (IsClass p) none none := trivial
    exact follows_checkFunction (((fits_bodySurroundings hmembers hp hnone).mono hb).mono he)
      fun t ht => Program.mem_typeExprs_of_function hf ht

end bodies

/-- All members and bodies of a program are checked as their verdict says. -/
theorem follows_late (hp : p.ids.Nodup) :
    Follows p (p.setting printName) a (p.late printName)
      ((p.setting printName).program p.acceptedClasses p.functions)
      fun b members _ => List.Forall₂ (fun c m => m.Fits p (p.setting printName) b c)
        p.classTable.classes members.members := by
  rw [Program.late, checkAll_eq, Setting.program]
  refine (follows_declareAll hp rfl).bind fun b members _ hb _ hmembers => ?_
  refine (follows_reportOverrides hmembers).bind fun c _ _ hc _ _ => ?_
  have hbodies := (follows_checkBodies (hmembers.imp fun _ _ h => h.mono hc) hp).bind
    (k := fun _ => pure (⟨members⟩ : MemberTable)) (w := pure)
    (Q := fun b members _ => List.Forall₂ (fun c m => m.Fits p (p.setting printName) b c)
      p.classTable.classes members.members) fun d _ _ hd _ _ => follows_pure fun e he _ =>
        hmembers.imp fun _ _ h => ((h.mono hc).mono hd).mono he
  rwa [bind_pure] at hbodies

end Check

namespace Program

variable {printName : String}

/-- All that happens in the analysis of the members and the bodies of a program. -/
def events (p : Program) (printName : String) : List Event :=
  ((p.setting printName).program p.acceptedClasses p.functions).events

/-- The written types that the analysis of a program comes to. -/
def resolved (p : Program) (printName : String) : List TypeExpr :=
  Event.known [] (p.events printName)

/-- The analysis comes to the types of all fields of accepted classes. -/
theorem mem_resolved_of_field {c : ClassRef} (hc : c ∈ p.classTable.classes) {d : VarDecl}
    (hd : d ∈ (p.classDecl c).fields) : d.type ∈ p.resolved printName := by
  refine Event.mem_known.2 (.inr ?_)
  rw [events, Setting.program, Verdict.events_bind, Verdict.events_forM]
  refine List.mem_append_left _ (List.mem_flatMap.2 ⟨_, List.mem_map_of_mem hc, ?_⟩)
  rw [Setting.members, Verdict.events_bind]
  exact List.mem_append_left _ (Verdict.mem_events_foldlM hd (fun _ => List.mem_cons_self ..) _)

theorem knows_empty (diagnostics : Array Diagnostic) :
    Findings.Knows p S [] { diagnostics } := by
  refine ⟨ArrayTypes.regular_empty _, fun t _ V hV => ?_, fun t ht => ?_⟩
  · simp [Notes.typeExpr?] at hV
  · cases ht

/-- What the analysis of any program has found out. -/
structure Judged (p : Program) (printName : String) (a : Analysis) : Prop where
  classes : a.classes = p.classTable
  functions : a.functions = (FunctionTable.build printName p.functions).1
  arrays : a.arrays.Regular p.classTable
  meanings : ∀ t ∈ p.typeExprs, ∀ V, a.notes.typeExpr? t.id = some V →
    V.Matches p.classTable a.arrays ((p.setting printName).outline t)
  resolved : ∀ t ∈ p.resolved printName, (a.notes.typeExpr? t.id).isSome
  members : List.Forall₂ (fun c m => m.Fits p (p.setting printName) a.arrays c)
    p.classTable.classes a.members.members
  diagnostics : a.diagnostics =
    p.early printName ++ (p.setting printName).reports [] (p.events printName)

/-- The analysis of any program whose nodes have different identities. -/
theorem judged (hp : p.ids.Nodup) (printName : String) :
    p.Judged printName (p.analyze printName) := by
  obtain ⟨hf, hmembers⟩ :=
    (Check.follows_late hp : Check.Follows p (p.setting printName) {} _ _ _) []
    { diagnostics := (p.early printName).toArray } (knows_empty _) fun _ _ h => by simp at h
  exact ⟨rfl, rfl, hf.knows.arrays, fun t ht V hV => (hf.knows.meanings t ht V hV).1,
    fun t ht => (hf.knows.known t ht).1, hmembers, hf.diagnostics⟩

end Program

end ObjectLang
