import Mathlib.Data.List.Forall2
import TestCatalog.Proofs.Listing.Insertion

/-!
# Proofs/Listing/Overlooked — what the entries of a function do not depend on

The listing looks at few things in a body: calls `x.Run(…)` and their first arguments, the field
that a loop takes names from, and the rows of tables.  `SameStmt` says that two statements agree in
these, whatever else they differ in, and `Agree` that two bodies do so statement by statement, up to
idle statements, which may stand anywhere in either.

* `SameStmt.indistinct` — statements that agree start subtests alike, assign the same cases, and
  bring the same children.
* `childrenAfter_eq_of_agree` — so do bodies that agree, after statements with the same cases.
* `entries_eq_of_agree` — functions of one name whose bodies agree have the same entries.
-/

namespace TestCatalog.Listing

open Source

/-! ## Agreement -/

/-- **Expressions that differ at most in where literals and composite literals stand.** -/
inductive SameText : Expr → Expr → Prop where
  | call {callee callee' : Expr} {arguments arguments' : List Expr} {offset : Nat}
      (hcallee : SameText callee callee')
      (harguments : List.Forall₂ SameText arguments arguments') :
      SameText (.call callee arguments offset) (.call callee' arguments' offset)
  | selector {operand operand' : Expr} {field : Ident} (hoperand : SameText operand operand') :
      SameText (.selector operand field) (.selector operand' field)
  | composite {es es' : List Expr} {place place' : Nat} (hes : List.Forall₂ SameText es es') :
      SameText (.composite es place) (.composite es' place')
  | keyed {key key' value value' : Expr} (hkey : SameText key key')
      (hvalue : SameText value value') : SameText (.keyed key value) (.keyed key' value')
  | literal {text : String} {place place' : Nat} :
      SameText (.literal text place) (.literal text place')
  | ident {x : Ident} : SameText (.ident x) (.ident x)
  | other : SameText .other .other

/-- **First arguments in a loop that name alike**: they have the same text, or are `x.f` and `y.f`,
wherever the two parts stand. -/
inductive SameName : Expr → Expr → Prop where
  | text {e e' : Expr} (h : SameText e e') : SameName e e'
  | field {x x' field field' : Ident} (h : field.name = field'.name) :
      SameName (.selector (.ident x) field) (.selector (.ident x') field')

/-- **Two calls `x.Run(…)` at one offset**, both without arguments or with first arguments that are
related.  Who the receiver is, where the method name stands and what the further arguments are does
not matter. -/
inductive SameRun (First : Expr → Expr → Prop) (s s' : Stmt) : Prop where
  | bare {offset : Nat} (hs : RunsAt s [] offset) (hs' : RunsAt s' [] offset)
  | first {e e' : Expr} {rest rest' : List Expr} {offset : Nat}
      (hs : RunsAt s (e :: rest) offset) (hs' : RunsAt s' (e' :: rest') offset) (h : First e e')

/-- **Lists that agree element by element, up to idle elements**, which may stand anywhere in either
list. -/
inductive Agree {α : Type} (Idle : α → Prop) (Same : α → α → Prop) : List α → List α → Prop where
  | nil : Agree Idle Same [] []
  | both {a a' : α} {as as' : List α} (h : Same a a') (hrest : Agree Idle Same as as') :
      Agree Idle Same (a :: as) (a' :: as')
  | left {a : α} {as as' : List α} (h : Idle a) (hrest : Agree Idle Same as as') :
      Agree Idle Same (a :: as) as'
  | right {a' : α} {as as' : List α} (h : Idle a') (hrest : Agree Idle Same as as') :
      Agree Idle Same as (a' :: as')

/-- A statement of a loop that is no call `x.Run(…)`, whatever is nested in it. -/
def IdleInLoop (s : Stmt) : Prop := ∀ arguments offset, ¬ RunsAt s arguments offset

/-- The values that a statement assigns. -/
def valuesOf : Stmt → List Expr
  | .assign _ right => right
  | _ => []

/-- **A statement of a body that means nothing for the listing**: it starts no subtests, and assigns
no composite literal. -/
def Idle (s : Stmt) : Prop :=
  ¬ StartsSubtests s ∧ ∀ es place, Expr.composite es place ∉ valuesOf s

/-- **Statements of a body that agree in what the listing looks at.** -/
inductive SameStmt : Stmt → Stmt → Prop where
  | run {s s' : Stmt} (h : SameRun SameText s s') : SameStmt s s'
  | loop {body body' : List Stmt} (h : Agree IdleInLoop (SameRun SameName) body body') :
      SameStmt (.range body) (.range body')
  | assign {left left' right right' : List Expr} (h : List.Forall₂ SameText right right') :
      SameStmt (.assign left right) (.assign left' right')

instance (s : Stmt) : Decidable (IdleInLoop s) :=
  decidable_of_iff (isRun s = false) <| by
    rw [Bool.eq_false_iff, ne_eq, isRun_iff]
    simp only [IdleInLoop, not_exists]

/-- Whether an expression is a composite literal. -/
def isComposite : Expr → Bool
  | .composite _ _ => true
  | _ => false

theorem isComposite_iff {e : Expr} :
    isComposite e = true ↔ ∃ es place, e = .composite es place := by
  cases e <;> simp [isComposite]

instance (s : Stmt) : Decidable (Idle s) :=
  decidable_of_iff (startsChildren s = false ∧ (valuesOf s).any isComposite = false) <| by
    refine and_congr ?_ ?_
    · rw [← startsChildren_iff, Bool.not_eq_true]
    · rw [Bool.eq_false_iff, ne_eq, List.any_eq_true]
      simp only [isComposite_iff]
      constructor
      · exact fun h es place hmem => h ⟨_, hmem, es, place, rfl⟩
      · rintro h ⟨_, hmem, es, place, rfl⟩
        exact h es place hmem

/-! ## Every body agrees with itself -/

theorem SameText.refl : (e : Expr) → SameText e e
  | .call callee _ _ => .call (refl callee) (List.forall₂_same.mpr fun e _ => refl e)
  | .selector operand _ => .selector (refl operand)
  | .composite _ _ => .composite (List.forall₂_same.mpr fun e _ => refl e)
  | .keyed key value => .keyed (refl key) (refl value)
  | .literal _ _ => .literal
  | .ident _ => .ident
  | .other => .other

theorem SameRun.refl {First : Expr → Expr → Prop} (hfirst : ∀ e, First e e) {s : Stmt}
    {arguments : List Expr} {offset : Nat} (h : RunsAt s arguments offset) : SameRun First s s := by
  cases arguments with
  | nil => exact .bare h h
  | cons e rest => exact .first h h (hfirst e)

theorem Agree.refl {α : Type} {Idle : α → Prop} {Same : α → α → Prop}
    (h : ∀ a, Idle a ∨ Same a a) (as : List α) : Agree Idle Same as as := by
  induction as with
  | nil => exact .nil
  | cons a as ih =>
    rcases h a with hidle | hsame
    · exact .left hidle (.right hidle ih)
    · exact .both hsame ih

theorem idleInLoop_or_sameRun (s : Stmt) : IdleInLoop s ∨ SameRun SameName s s := by
  by_cases h : ∃ arguments offset, RunsAt s arguments offset
  · obtain ⟨arguments, offset, hrun⟩ := h
    exact .inr (.refl (fun e => .text (.refl e)) hrun)
  · exact .inl fun arguments offset hrun => h ⟨arguments, offset, hrun⟩

/-- A statement is idle, or agrees with itself. -/
theorem idle_or_sameStmt (s : Stmt) : Idle s ∨ SameStmt s s := by
  by_cases h : ∃ arguments offset, RunsAt s arguments offset
  · obtain ⟨arguments, offset, hrun⟩ := h
    exact .inr (.run (.refl .refl hrun))
  · have hidle : (∀ loop, s ≠ .range loop) → valuesOf s = [] → Idle s := by
      refine fun hloop hvalues => ⟨?_, fun es place => by rw [hvalues]; exact List.not_mem_nil⟩
      rintro (hrun | ⟨loop, heq, -⟩)
      · exact h hrun
      · exact hloop loop heq
    cases s with
    | range body => exact .inr (.loop (.refl idleInLoop_or_sameRun body))
    | assign left right => exact .inr (.assign (List.forall₂_same.mpr fun e _ => .refl e))
    | expr e => exact .inl (hidle (fun _ heq => by cases heq) rfl)
    | other => exact .inl (hidle (fun _ heq => by cases heq) rfl)

/-! ## Tables -/

/-- Expressions of the same text have elements of the same text. -/
theorem SameText.elements {e e' : Expr} (h : SameText e e') :
    List.Forall₂ SameText (elements e) (elements e') := by
  cases h with
  | composite hes => exact hes
  | _ => exact .nil

/-- …and name the same case, because a case is reported at its key. -/
theorem SameText.rowChild?_eq {e e' : Expr} (h : SameText e e') (field : String) :
    rowChild? field e = rowChild? field e' := by
  cases h with
  | keyed hkey hvalue =>
    cases hkey with
    | ident => cases hvalue <;> rfl
    | _ => rfl
  | _ => rfl

theorem filterMap_eq_of_forall₂ {field : String} {es es' : List Expr}
    (h : List.Forall₂ SameText es es') :
    es.filterMap (rowChild? field) = es'.filterMap (rowChild? field) := by
  induction h with
  | nil => rfl
  | cons hhead _ ih => rw [List.filterMap_cons, List.filterMap_cons, hhead.rowChild?_eq, ih]

/-- **Values of the same text hold the same cases.** -/
theorem rowsOf_assign_eq {left left' right right' : List Expr}
    (h : List.Forall₂ SameText right right') (field : String) :
    rowsOf field (.assign left right) = rowsOf field (.assign left' right') := by
  have hdeeper : ∀ {es es' : List Expr}, List.Forall₂ SameText es es' →
      List.Forall₂ SameText (es.flatMap Listing.elements) (es'.flatMap Listing.elements) :=
    fun hes => List.rel_flatMap hes fun _ _ he => he.elements
  exact filterMap_eq_of_forall₂ (hdeeper (hdeeper h))

/-! ## Calls -/

/-- Calls that agree stand at one offset, and have no arguments or related first ones. -/
theorem SameRun.calls {First : Expr → Expr → Prop} {s s' : Stmt} (h : SameRun First s s') :
    ∃ call call', runCall? s = some call ∧ runCall? s' = some call' ∧ call.offset = call'.offset
      ∧ (call.arguments = [] ∧ call'.arguments = []
        ∨ ∃ e e' rest rest', call.arguments = e :: rest ∧ call'.arguments = e' :: rest'
          ∧ First e e') := by
  cases h with
  | bare hs hs' =>
    exact ⟨⟨[], _⟩, ⟨[], _⟩, runCall?_eq_some_iff.mpr hs, runCall?_eq_some_iff.mpr hs', rfl,
      .inl ⟨rfl, rfl⟩⟩
  | first hs hs' h =>
    exact ⟨⟨_, _⟩, ⟨_, _⟩, runCall?_eq_some_iff.mpr hs, runCall?_eq_some_iff.mpr hs', rfl,
      .inr ⟨_, _, _, _, rfl, rfl, h⟩⟩

/-- **Calls with first arguments of the same text name the same child.** -/
theorem SameRun.child?_eq {s s' : Stmt} (h : SameRun SameText s s') :
    ∃ call call', runCall? s = some call ∧ runCall? s' = some call'
      ∧ call.child? = call'.child? := by
  obtain ⟨⟨_, _⟩, ⟨_, _⟩, hs, hs', rfl, ⟨rfl, rfl⟩ | ⟨_, _, _, _, rfl, rfl, hfirst⟩⟩ := h.calls
  · exact ⟨_, _, hs, hs', rfl⟩
  · exact ⟨_, _, hs, hs', by cases hfirst <;> rfl⟩

theorem SameName.field?_eq {e e' : Expr} (h : SameName e e') (rest rest' : List Expr)
    (offset offset' : Nat) :
    RunCall.field? ⟨e :: rest, offset⟩ = RunCall.field? ⟨e' :: rest', offset'⟩ := by
  cases h with
  | text h =>
    cases h with
    | selector hoperand => cases hoperand <;> rfl
    | _ => rfl
  | field h => exact congrArg some h

/-- **Calls with first arguments that name alike take names from the same field.** -/
theorem SameRun.field?_eq {s s' : Stmt} (h : SameRun SameName s s') :
    ∃ call call', runCall? s = some call ∧ runCall? s' = some call'
      ∧ call.field? = call'.field? := by
  obtain ⟨⟨_, _⟩, ⟨_, _⟩, hs, hs', rfl, ⟨rfl, rfl⟩ | ⟨_, _, _, _, rfl, rfl, hfirst⟩⟩ := h.calls
  · exact ⟨_, _, hs, hs', rfl⟩
  · exact ⟨_, _, hs, hs', hfirst.field?_eq _ _ _ _⟩

/-! ## Loops -/

theorem IdleInLoop.runCall?_eq_none {s : Stmt} (h : IdleInLoop s) : runCall? s = none := by
  rw [Option.eq_none_iff_forall_ne_some]
  exact fun call hcall => h _ _ (runCall?_eq_some_iff.mp hcall)

/-- **Loops that agree take names from the same field**, and both have calls that start subtests or
neither has. -/
theorem loop_eq_of_agree {body body' : List Stmt}
    (h : Agree IdleInLoop (SameRun SameName) body body') :
    loopField? body = loopField? body' ∧ body.any isRun = body'.any isRun := by
  have hidle : ∀ {s : Stmt}, IdleInLoop s → isRun s = false := fun hs => by
    rw [isRun, hs.runCall?_eq_none]
    rfl
  unfold loopField?
  induction h with
  | nil => exact ⟨rfl, rfl⟩
  | both hsame _ ih =>
    obtain ⟨call, call', hs, hs', hfield⟩ := hsame.field?_eq
    constructor
    · rw [List.filterMap_cons_some hs, List.filterMap_cons_some hs', List.findSome?_cons,
        List.findSome?_cons, hfield, ih.1]
    · rw [List.any_cons, List.any_cons, isRun, isRun, hs, hs', ih.2]
      rfl
  | left hs _ ih =>
    rw [List.filterMap_cons_none hs.runCall?_eq_none, List.any_cons, hidle hs, Bool.false_or]
    exact ih
  | right hs _ ih =>
    rw [List.filterMap_cons_none hs.runCall?_eq_none, List.any_cons, hidle hs, Bool.false_or]
    exact ih

/-! ## Statements -/

theorem startsChildren_range (loop : List Stmt) :
    startsChildren (.range loop) = loop.any isRun := by
  have hshape : shape (.range loop) = if loop.any isRun then .loop loop else .plain := rfl
  rw [startsChildren, hshape]
  cases loop.any isRun <;> rfl

/-- A loop brings the cases of the field that it takes names from, if it takes them from one. -/
theorem childrenOf_range (nearest loop : List Stmt) :
    childrenOf nearest (.range loop) = (loopField? loop).elim [] (rowsAlong · nearest) := by
  cases hfield : loopField? loop with
  | none =>
    unfold childrenOf
    split
    · rfl
    · next call hshape => cases shape_eq_run_iff.mp hshape
    · next body hshape =>
      obtain ⟨heq, -⟩ := shape_eq_loop_iff.mp hshape
      rw [← Stmt.range.inj heq, hfield]
      rfl
  | some field =>
    have hany := (loopField?_eq_some_iff.mp hfield).any_isRun
    rw [childrenOf, shape_eq_loop_iff.mpr ⟨rfl, hany⟩]
    dsimp only
    rw [hfield]
    rfl

/-- Statements that hold the same cases for every field. -/
def SameRows (nearest nearest' : List Stmt) : Prop :=
  ∀ field, rowsAlong field nearest = rowsAlong field nearest'

/-- **Two statements that nothing in the listing tells apart.** -/
structure Indistinct (s s' : Stmt) : Prop where
  /-- Both start subtests, or neither does. -/
  starts : startsChildren s = startsChildren s'
  /-- They assign the same cases. -/
  rows : ∀ field, rowsOf field s = rowsOf field s'
  /-- They bring the same children after statements that hold the same cases. -/
  children : ∀ {nearest nearest'}, SameRows nearest nearest' →
    childrenOf nearest s = childrenOf nearest' s'

/-- A call assigns nothing. -/
theorem rowsOf_of_runCall? {s : Stmt} {call : RunCall} (h : runCall? s = some call)
    (field : String) : rowsOf field s = [] := by
  obtain ⟨receiver, method, rfl, -⟩ := runCall?_eq_some_iff.mp h
  rfl

/-- **Statements that agree are told apart by nothing**, one kind of statement after another. -/
theorem SameStmt.indistinct {s s' : Stmt} (h : SameStmt s s') : Indistinct s s' := by
  cases h with
  | run h =>
    obtain ⟨call, call', hs, hs', hchild⟩ := h.child?_eq
    have hshape := shape_eq_run_iff.mpr hs
    have hshape' := shape_eq_run_iff.mpr hs'
    refine ⟨?_, fun field => ?_, fun _ => ?_⟩
    · rw [startsChildren, startsChildren, hshape, hshape']
    · rw [rowsOf_of_runCall? hs, rowsOf_of_runCall? hs']
    · rw [childrenOf, childrenOf, hshape, hshape']
      exact congrArg Option.toList hchild
  | @loop body body' h =>
    obtain ⟨hfield, hany⟩ := loop_eq_of_agree h
    refine ⟨?_, fun _ => rfl, fun hrows => ?_⟩
    · rw [startsChildren_range, startsChildren_range, hany]
    · rw [childrenOf_range, childrenOf_range, hfield]
      cases loopField? body' with
      | none => rfl
      | some field => exact hrows field
  | assign h => exact ⟨rfl, rowsOf_assign_eq h, fun _ => rfl⟩

theorem Idle.startsChildren_eq_false {s : Stmt} (h : Idle s) : startsChildren s = false :=
  Bool.eq_false_iff.mpr fun hstarts => h.1 (startsChildren_iff.mp hstarts)

/-- An idle statement assigns no tables. -/
theorem Idle.rowsOf_eq_nil {s : Stmt} (h : Idle s) (field : String) : rowsOf field s = [] := by
  cases s with
  | assign left right =>
    have helements : right.flatMap elements = [] := by
      refine List.flatMap_eq_nil_iff.mpr fun e he => ?_
      cases e with
      | composite es place => exact absurd he (h.2 es place)
      | _ => rfl
    rw [rowsOf, helements]
    rfl
  | _ => rfl

/-- Nothing changes when an idle statement has been gone through. -/
theorem Idle.sameRows_cons {s : Stmt} (h : Idle s) (nearest : List Stmt) :
    SameRows (s :: nearest) nearest := fun field => by
  rw [rowsAlong, List.flatMap_cons, h.rowsOf_eq_nil, List.nil_append, rowsAlong]

theorem Idle.childrenAfter_cons {s : Stmt} (h : Idle s) (nearest rest : List Stmt) :
    childrenAfter nearest (s :: rest) = childrenAfter (s :: nearest) rest := by
  rw [childrenAfter, childrenOf_eq_nil h.startsChildren_eq_false, List.nil_append]

theorem Idle.any_cons {s : Stmt} (h : Idle s) (rest : List Stmt) :
    (s :: rest).any startsChildren = rest.any startsChildren := by
  rw [List.any_cons, h.startsChildren_eq_false, Bool.false_or]

/-! ## Bodies -/

/-- **Bodies that agree bring the same children** after statements that hold the same cases, and
start subtests alike. -/
theorem childrenAfter_eq_of_agree {nearest nearest' body body' : List Stmt}
    (h : Agree Idle SameStmt body body') (hrows : SameRows nearest nearest') :
    childrenAfter nearest body = childrenAfter nearest' body'
      ∧ body.any startsChildren = body'.any startsChildren := by
  -- Loops further on look back at what has been gone through, so that has to keep the same cases.
  induction h generalizing nearest nearest' with
  | nil => exact ⟨rfl, rfl⟩
  | @both s s' body body' hsame _ ih =>
    have hs := hsame.indistinct
    have hnext : SameRows (s :: nearest) (s' :: nearest') := fun field => by
      rw [rowsAlong, rowsAlong, List.flatMap_cons, List.flatMap_cons, hs.rows field]
      exact congrArg _ (hrows field)
    obtain ⟨hchildren, hany⟩ := ih hnext
    constructor
    · rw [childrenAfter, childrenAfter, hs.children hrows, hchildren]
    · rw [List.any_cons, List.any_cons, hs.starts, hany]
  | left hidle _ ih =>
    rw [hidle.childrenAfter_cons, hidle.any_cons]
    exact ih fun field => (hidle.sameRows_cons nearest field).trans (hrows field)
  | right hidle _ ih =>
    rw [hidle.childrenAfter_cons, hidle.any_cons]
    exact ih fun field => (hrows field).trans (hidle.sameRows_cons nearest' field).symm

/-- **The entries of a function depend only on what the listing is meant to look at**: functions of
one name whose bodies agree have the same entries. -/
theorem entries_eq_of_agree {f g : Function} (hname : f.name = g.name)
    (hbody : Agree Idle SameStmt f.body g.body) : entries f = entries g := by
  obtain ⟨hchildren, hany⟩ := childrenAfter_eq_of_agree hbody (fun _ => rfl : SameRows [] [])
  rw [entries, entries, children, children, hchildren, hany, hname]

/-! ## A function, and a revision of it -/

/-- The statement `x.Run(arguments)` at an offset, with its method name at another. -/
def runStmt (receiver : Ident) (methodOffset : Nat) (arguments : List Expr) (offset : Nat) : Stmt :=
  .expr (.call (.selector (.ident receiver) ⟨"Run", methodOffset⟩) arguments offset)

/-- The assignment of a table with one case, `name: "a"`, whose key stands at offset `40`. -/
def tableStmt (left : List Expr) (tableOffset rowOffset literalOffset : Nat) : Stmt :=
  .assign left [.composite [.composite
    [.keyed (.ident ⟨"name", 40⟩) (.literal "\"a\"" literalOffset)] rowOffset] tableOffset]

/-- A function with a table, a loop over it, and two subtests. -/
def drafted : Function where
  name := ⟨"TestTable", 5⟩
  body := [tableStmt [.ident ⟨"tests", 20⟩] 30 39 46,
    .other,
    runStmt ⟨"t", 60⟩ 62 [.literal "\"b\"" 66, .other] 60,
    .range [.other, runStmt ⟨"t", 90⟩ 92 [.selector (.ident ⟨"tt", 96⟩) ⟨"name", 99⟩, .other] 90],
    runStmt ⟨"t", 120⟩ 122 [.literal "\"c\"" 126] 120]

/-- The same function in other words: another variable for the table, another receiver, a loop
inside the loop, and other statements that are idle. -/
def revised : Function where
  name := ⟨"TestTable", 5⟩
  body := [.assign [] [.other],
    tableStmt [] 0 0 0,
    runStmt ⟨"tb", 1⟩ 2 [.literal "\"b\"" 3] 60,
    .range [],
    .range [.range [runStmt ⟨"t", 4⟩ 5 [.literal "\"d\"" 6] 4],
      runStmt ⟨"tb", 7⟩ 8 [.selector (.ident ⟨"row", 9⟩) ⟨"name", 10⟩] 90, .expr .other],
    runStmt ⟨"t", 120⟩ 122 [.literal "\"c\"" 126] 120]

/-- **The revision has the same entries**: a subtest, the case of the table, the other subtest. -/
theorem drafted_eq_revised :
    Agree Idle SameStmt drafted.body revised.body ∧ entries drafted = entries revised
      ∧ (entries revised).map Entry.child
        = [some ⟨"\"b\"", 60⟩, some ⟨"\"a\"", 40⟩, some ⟨"\"c\"", 120⟩] := by
  have htable : ∀ left left' table table' row row' place place',
      SameStmt (tableStmt left table row place) (tableStmt left' table' row' place') := by
    intros
    refine .assign (.cons (.composite (.cons (.composite ?_) .nil)) .nil)
    exact .cons (.keyed .ident .literal) .nil
  have hruns : ∀ receiver method arguments offset,
      RunsAt (runStmt receiver method arguments offset) arguments offset :=
    fun receiver method _ _ => ⟨receiver, ⟨"Run", method⟩, rfl, rfl⟩
  have hbody : Agree Idle SameStmt drafted.body revised.body := by
    refine .right (by decide) (.both (htable ..) (.left (by decide) (.both (.run ?_)
      (.right (by decide) (.both (.loop ?_) (.refl idle_or_sameStmt _))))))
    · exact .first (hruns ..) (hruns ..) .literal
    · exact .left (by decide) (.right (by decide) (.both
        (.first (hruns ..) (hruns ..) (.field rfl)) (.right (by decide) .nil)))
  exact ⟨hbody, entries_eq_of_agree rfl hbody, rfl⟩

end TestCatalog.Listing
