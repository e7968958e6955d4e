import TestCatalog.Listing.Entry
import TestCatalog.Proofs.Listing.Enumeration

/-!
# Proofs/Listing/Site — the entries of a function, site by site

A body lists a child at a *site*: a statement `x.Run("literal", …)`, or the element
`f: "literal"` of a row of a table that stands before a loop whose subtests take their names from
the field `f`.  `Lists` says which child a site lists, by the places of the syntax tree alone, and
`Site.Before` in which order sites are gone through.

* `enumerates_children` — the children of a body are what its sites list, in that order.
* `entries_listed` — the entries of a function are its children, or the function itself if nothing
  in its body starts a subtest.
-/

namespace TestCatalog.Listing

open Source

/-! ## What a body says -/

/-- The statement `x.Run(arguments)` with an identifier `x`, at an offset. -/
def RunsAt (s : Stmt) (arguments : List Expr) (offset : Nat) : Prop :=
  ∃ receiver method, s = .expr (.call (.selector (.ident receiver) method) arguments offset)
    ∧ method.name = "Run"

/-- A statement that starts subtests: such a call, or a range loop with one directly in its body. -/
def StartsSubtests (s : Stmt) : Prop :=
  (∃ arguments offset, RunsAt s arguments offset)
    ∨ ∃ loop, s = .range loop ∧ ∃ t ∈ loop, ∃ arguments offset, RunsAt t arguments offset

/-- The statement `x.Run(y.f, …)`, which takes the name of its subtest from the field `f`. -/
def TakesName (s : Stmt) (field : String) : Prop :=
  ∃ operand name rest offset, RunsAt s (.selector (.ident operand) name :: rest) offset
    ∧ name.name = field

/-- The field that the first statement of a loop which takes a name takes it from. -/
def NamesField (loop : List Stmt) (field : String) : Prop :=
  ∃ before s after, loop = before ++ s :: after ∧ TakesName s field
    ∧ ∀ t ∈ before, ∀ other, ¬ TakesName t other

/-- **A place at which a body lists a child**: a statement, or an element of a row, with the
statement of the loop, that of the assignment, and the places of the table among the assigned
values, of the row in the table, and of the element in the row. -/
inductive Site where
  | run (statement : Nat)
  | row (statement assignment value row element : Nat)
deriving DecidableEq, Repr

/-- The statement that lists the child. -/
def Site.statement : Site → Nat
  | .run i => i
  | .row i _ _ _ _ => i

/-- **The order of sites**: by statement; then from the nearest assignment to the farthest; then
from left to right. -/
inductive Site.Before : Site → Site → Prop where
  | statement {a b : Site} (h : a.statement < b.statement) : Before a b
  | assignment {i j j' k k' l l' m m' : Nat} (h : j' < j) :
      Before (.row i j k l m) (.row i j' k' l' m')
  | value {i j k k' l l' m m' : Nat} (h : k < k') : Before (.row i j k l m) (.row i j k' l' m')
  | row {i j k l l' m m' : Nat} (h : l < l') : Before (.row i j k l m) (.row i j k l' m')
  | element {i j k l m m' : Nat} (h : m < m') : Before (.row i j k l m) (.row i j k l m')

/-- No site comes before itself. -/
theorem Site.Before.ne {a b : Site} (h : a.Before b) : a ≠ b := by
  rintro rfl
  cases h <;> exact Nat.lt_irrefl _ ‹_›

/-- **The child that a body lists at a site**: a literal first argument, at the offset of its call;
or, for a loop that takes names from a field, a literal under that field in a row of a table that is
assigned before the loop, at the offset of its key. -/
inductive Lists (body : List Stmt) : Site → Child → Prop where
  | run {i : Nat} {s : Stmt} {text : String} {place offset : Nat} {rest : List Expr}
      (hs : body[i]? = some s) (hrun : RunsAt s (.literal text place :: rest) offset) :
      Lists body (.run i) ⟨text, offset⟩
  | row {i j k l m : Nat} {loop : List Stmt} {field : String} {left right table row : List Expr}
      {tablePlace rowPlace place : Nat} {key : Ident} {text : String}
      (hloop : body[i]? = some (.range loop)) (hfield : NamesField loop field) (hearlier : j < i)
      (hassign : body[j]? = some (.assign left right))
      (htable : right[k]? = some (.composite table tablePlace))
      (hrow : table[l]? = some (.composite row rowPlace))
      (helement : row[m]? = some (.keyed (.ident key) (.literal text place)))
      (hkey : key.name = field) : Lists body (.row i j k l m) ⟨text, key.offset⟩

/-! ## Calls -/

theorem runCall?_eq_some_iff {s : Stmt} {call : RunCall} :
    runCall? s = some call ↔ RunsAt s call.arguments call.offset := by
  obtain ⟨arguments, offset⟩ := call
  constructor
  · intro h
    unfold runCall? at h
    split at h
    · next receiver method arguments' offset' =>
      split at h
      · next hmethod =>
        obtain ⟨rfl, rfl⟩ := RunCall.mk.inj (Option.some.inj h)
        exact ⟨receiver, method, rfl, hmethod⟩
      · cases h
    · cases h
  · rintro ⟨receiver, method, rfl, hmethod⟩
    exact if_pos hmethod

theorem isRun_iff {s : Stmt} : isRun s = true ↔ ∃ arguments offset, RunsAt s arguments offset := by
  rw [isRun, Option.isSome_iff_exists]
  constructor
  · rintro ⟨call, hcall⟩
    exact ⟨call.arguments, call.offset, runCall?_eq_some_iff.mp hcall⟩
  · rintro ⟨arguments, offset, h⟩
    exact ⟨⟨arguments, offset⟩, runCall?_eq_some_iff.mpr h⟩

theorem child?_eq_some_iff {call : RunCall} {child : Child} :
    call.child? = some child ↔ ∃ text place rest, call.arguments = .literal text place :: rest
      ∧ child = ⟨text, call.offset⟩ := by
  rw [RunCall.child?]
  constructor
  · intro h
    split at h
    · next text place rest harguments =>
      exact ⟨text, place, rest, harguments, (Option.some.inj h).symm⟩
    · cases h
  · rintro ⟨text, place, rest, harguments, rfl⟩
    rw [harguments]

/-! ## Statements -/

theorem shape_eq_run_iff {s : Stmt} {call : RunCall} :
    shape s = .run call ↔ runCall? s = some call := by
  constructor
  · intro h
    unfold shape at h
    split at h
    · next other hcall =>
      obtain rfl := Shape.run.inj h
      exact hcall
    · split at h
      · split at h <;> cases h
      · cases h
  · intro h
    unfold shape
    rw [h]

theorem shape_eq_loop_iff {s : Stmt} {loop : List Stmt} :
    shape s = .loop loop ↔ s = .range loop ∧ loop.any isRun = true := by
  constructor
  · intro h
    unfold shape at h
    split at h
    · cases h
    · split at h
      · next loop' =>
        split at h
        · next hany =>
          obtain rfl := Shape.loop.inj h
          exact ⟨rfl, hany⟩
        · cases h
      · cases h
  · rintro ⟨rfl, hany⟩
    exact if_pos hany

theorem startsChildren_iff_shape {s : Stmt} :
    startsChildren s = true ↔ (∃ call, shape s = .run call) ∨ ∃ loop, shape s = .loop loop := by
  rw [startsChildren]
  cases shape s <;> simp

theorem startsChildren_iff {s : Stmt} : startsChildren s = true ↔ StartsSubtests s := by
  rw [startsChildren_iff_shape]
  refine or_congr ?_ (exists_congr fun loop => ?_)
  · rw [← isRun_iff, isRun, Option.isSome_iff_exists]
    exact exists_congr fun call => shape_eq_run_iff
  · rw [shape_eq_loop_iff, List.any_eq_true]
    exact and_congr_right fun _ => exists_congr fun t => and_congr_right fun _ => isRun_iff

/-! ## Name fields -/

theorem takesName_iff {s : Stmt} {field : String} :
    (runCall? s).bind RunCall.field? = some field ↔ TakesName s field := by
  rw [Option.bind_eq_some_iff]
  constructor
  · rintro ⟨call, hcall, hfield⟩
    rw [RunCall.field?] at hfield
    split at hfield
    · next operand name rest harguments =>
      have hrun := runCall?_eq_some_iff.mp hcall
      rw [harguments] at hrun
      exact ⟨operand, name, rest, call.offset, hrun, Option.some.inj hfield⟩
    · cases hfield
  · rintro ⟨operand, name, rest, offset, hrun, rfl⟩
    exact ⟨⟨_, offset⟩, runCall?_eq_some_iff.mpr hrun, rfl⟩

/-- **The name field of a loop** is the one its first naming statement takes. -/
theorem loopField?_eq_some_iff {loop : List Stmt} {field : String} :
    loopField? loop = some field ↔ NamesField loop field := by
  rw [loopField?, ← List.head?_filterMap, List.filterMap_filterMap, List.head?_filterMap,
    List.findSome?_eq_some_iff]
  refine exists_congr fun before => exists_congr fun s => exists_congr fun after => ?_
  refine and_congr_right fun _ => and_congr takesName_iff ?_
  refine forall_congr' fun t => imp_congr_right fun _ => ?_
  rw [Option.eq_none_iff_forall_ne_some]
  exact forall_congr' fun other => not_congr takesName_iff

/-- A loop that takes names starts subtests. -/
theorem NamesField.any_isRun {loop : List Stmt} {field : String} (h : NamesField loop field) :
    loop.any isRun = true := by
  obtain ⟨before, s, after, rfl, ⟨operand, name, rest, offset, hrun, -⟩, -⟩ := h
  rw [List.any_eq_true]
  exact ⟨s, List.mem_append_right _ List.mem_cons_self, isRun_iff.mpr ⟨_, _, hrun⟩⟩

/-! ## Rows of tables -/

theorem getElem?_elements {e element : Expr} {i : Nat} :
    (elements e)[i]? = some element
      ↔ ∃ es place, e = .composite es place ∧ es[i]? = some element := by
  constructor
  · intro h
    unfold elements at h
    split at h
    · next es place => exact ⟨es, place, rfl, h⟩
    · cases h
  · rintro ⟨es, place, rfl, h⟩
    exact h

theorem rowChild?_eq_some_iff {field : String} {e : Expr} {child : Child} :
    rowChild? field e = some child ↔ ∃ key text place, e = .keyed (.ident key) (.literal text place)
      ∧ key.name = field ∧ child = ⟨text, key.offset⟩ := by
  constructor
  · intro h
    unfold rowChild? at h
    split at h
    · next key text place =>
      split at h
      · next hkey => exact ⟨key, text, place, rfl, hkey, (Option.some.inj h).symm⟩
      · cases h
    · cases h
  · rintro ⟨key, text, place, rfl, hkey, rfl⟩
    exact if_pos hkey

/-- A case of a field in a table that a statement assigns, by its places. -/
def RowAt (field : String) (s : Stmt) (k l m : Nat) (child : Child) : Prop :=
  ∃ left right value, s = .assign left right ∧ right[k]? = some value
    ∧ ∃ row, (elements value)[l]? = some row
    ∧ ∃ element, (elements row)[m]? = some element ∧ rowChild? field element = some child

/-- The cases in one row are gone through from left to right. -/
theorem enumerates_row (field : String) (row : Expr) (i j k l : Nat) :
    Enumerates (fun site child => ∃ m, site = .row i j k l m
        ∧ ∃ element, (elements row)[m]? = some element ∧ rowChild? field element = some child)
      Site.Before ((elements row).filterMap (rowChild? field)) :=
  ((Enumerates.getElem? (elements row)).filterMap (rowChild? field)).reindex
    (fun m => Site.row i j k l m) fun _ _ => Site.Before.element

/-- …and those in one table row by row. -/
theorem enumerates_table (field : String) (value : Expr) (i j k : Nat) :
    Enumerates (fun site child => ∃ l row, (elements value)[l]? = some row
        ∧ ∃ m, site = .row i j k l m
        ∧ ∃ element, (elements row)[m]? = some element ∧ rowChild? field element = some child)
      Site.Before ((elements value).flatMap fun row =>
        (elements row).filterMap (rowChild? field)) := by
  refine (Enumerates.getElem? (elements value)).flatMap ?_ fun l row _ =>
    enumerates_row field row i j k l
  rintro l l' _ _ _ _ _ _ hl ⟨m, rfl, -⟩ ⟨m', rfl, -⟩
  exact .row hl

/-- **The cases in the tables that a statement assigns** are gone through from left to right. -/
theorem enumerates_rowsOf (field : String) (s : Stmt) (i j : Nat) :
    Enumerates (fun site child => ∃ k l m, site = .row i j k l m ∧ RowAt field s k l m child)
      Site.Before (rowsOf field s) := by
  cases s with
  | assign left right =>
    have hrows : rowsOf field (.assign left right) = right.flatMap fun value =>
        (elements value).flatMap fun row => (elements row).filterMap (rowChild? field) := by
      rw [rowsOf, List.flatMap_assoc, List.filterMap_flatMap]
      exact List.flatMap_congr fun value _ => List.filterMap_flatMap
    rw [hrows]
    refine ((Enumerates.getElem? right).flatMap ?_ fun k value _ =>
      enumerates_table field value i j k).congr fun site child => ?_
    · rintro k k' _ _ _ _ _ _ hk ⟨l, _, -, m, rfl, -⟩ ⟨l', _, -, m', rfl, -⟩
      exact .value hk
    · constructor
      · rintro ⟨k, value, hvalue, l, row, hrow, m, rfl, helement⟩
        exact ⟨k, l, m, rfl, left, right, value, rfl, hvalue, row, hrow, helement⟩
      · rintro ⟨k, l, m, rfl, _, _, value, hs, hvalue, row, hrow, helement⟩
        obtain ⟨rfl, rfl⟩ := Stmt.assign.inj hs
        exact ⟨k, value, hvalue, l, row, hrow, m, rfl, helement⟩
  | expr e => exact .nil fun site child => by rintro ⟨k, l, m, -, _, _, _, hs, -⟩; cases hs
  | range body => exact .nil fun site child => by rintro ⟨k, l, m, -, _, _, _, hs, -⟩; cases hs
  | other => exact .nil fun site child => by rintro ⟨k, l, m, -, _, _, _, hs, -⟩; cases hs

/-- **The cases before a statement**, from the nearest assignment to the farthest. -/
theorem enumerates_rows (field : String) (body : List Stmt) (i : Nat) :
    Enumerates (fun site child => ∃ j s, (body.take i)[j]? = some s
        ∧ ∃ k l m, site = .row i j k l m ∧ RowAt field s k l m child)
      Site.Before (rowsAlong field (body.take i).reverse) := by
  refine (Enumerates.getElem? (body.take i)).reverse.flatMap ?_ fun j s _ =>
    enumerates_rowsOf field s i j
  rintro j j' _ _ _ _ _ _ hj ⟨k, l, m, rfl, -⟩ ⟨k', l', m', rfl, -⟩
  exact .assignment hj

/-! ## Children -/

/-- A row site is a case before a loop that takes names from its field. -/
theorem lists_row_iff {body loop : List Stmt} {field : String} {i j k l m : Nat} {child : Child}
    (hloop : body[i]? = some (.range loop)) (hfield : NamesField loop field) :
    Lists body (.row i j k l m) child
      ↔ ∃ s, (body.take i)[j]? = some s ∧ RowAt field s k l m child := by
  constructor
  · rintro (_ | ⟨hloop', hfield', hearlier, hassign, htable, hrow, helement, hkey⟩)
    obtain rfl := Stmt.range.inj (Option.some.inj (hloop'.symm.trans hloop))
    have hsame := (loopField?_eq_some_iff.mpr hfield').symm.trans
      (loopField?_eq_some_iff.mpr hfield)
    obtain rfl := Option.some.inj hsame
    refine ⟨_, (List.getElem?_take_of_lt hearlier).trans hassign, _, _, _, rfl, htable, _,
      getElem?_elements.mpr ⟨_, _, rfl, hrow⟩, _, getElem?_elements.mpr ⟨_, _, rfl, helement⟩, ?_⟩
    exact rowChild?_eq_some_iff.mpr ⟨_, _, _, rfl, hkey, rfl⟩
  · rintro ⟨s, hs, left, right, value, rfl, hvalue, row, hrow, element, helement, hchild⟩
    obtain ⟨es, place, rfl, hrow⟩ := getElem?_elements.mp hrow
    obtain ⟨es', place', rfl, helement⟩ := getElem?_elements.mp helement
    obtain ⟨key, text, place, rfl, hkey, rfl⟩ := rowChild?_eq_some_iff.mp hchild
    rw [List.getElem?_take] at hs
    split at hs
    · next hearlier => exact .row hloop hfield hearlier hs hvalue hrow helement hkey
    · cases hs

/-- **A site of a statement** is the statement itself, with a literal argument, or a row of a loop
that takes names. -/
theorem Lists.of_statement {body : List Stmt} {i : Nat} {s : Stmt} (hs : body[i]? = some s)
    {site : Site} {child : Child} (h : Lists body site child) (hi : site.statement = i) :
    (∃ call, runCall? s = some call ∧ site = .run i ∧ call.child? = some child)
      ∨ ∃ loop field j k l m, s = .range loop ∧ NamesField loop field ∧ site = .row i j k l m := by
  subst hi
  rcases h with ⟨hs', hrun⟩ | ⟨hloop, hfield, -⟩
  · obtain rfl := Option.some.inj (hs.symm.trans hs')
    exact .inl ⟨⟨_, _⟩, runCall?_eq_some_iff.mpr hrun, rfl,
      child?_eq_some_iff.mpr ⟨_, _, _, rfl, rfl⟩⟩
  · exact .inr ⟨_, _, _, _, _, _, Option.some.inj (hs.symm.trans hloop), hfield, rfl⟩

/-- A call lists the child that its literal names. -/
theorem lists_run_iff {body : List Stmt} {i : Nat} {s : Stmt} (hs : body[i]? = some s)
    {call : RunCall} (hcall : runCall? s = some call) {site : Site} {child : Child} :
    site.statement = i ∧ Lists body site child ↔ site = .run i ∧ call.child? = some child := by
  constructor
  · rintro ⟨hi, h⟩
    rcases h.of_statement hs hi with ⟨call', hcall', hsite, hchild⟩ | ⟨_, _, _, _, _, _, rfl, -⟩
    · obtain rfl := Option.some.inj (hcall.symm.trans hcall')
      exact ⟨hsite, hchild⟩
    · cases hcall
  · rintro ⟨rfl, hchild⟩
    obtain ⟨text, place, rest, harguments, rfl⟩ := child?_eq_some_iff.mp hchild
    have hrun := runCall?_eq_some_iff.mp hcall
    exact ⟨rfl, .run hs (harguments ▸ hrun)⟩

/-- A loop lists the cases before it under the field that it takes names from. -/
theorem lists_loop_iff {body loop : List Stmt} {i : Nat} (hs : body[i]? = some (.range loop))
    {field : String} (hfield : NamesField loop field) {site : Site} {child : Child} :
    site.statement = i ∧ Lists body site child
      ↔ ∃ j s, (body.take i)[j]? = some s
        ∧ ∃ k l m, site = .row i j k l m ∧ RowAt field s k l m child := by
  constructor
  · rintro ⟨hi, h⟩
    rcases h.of_statement hs hi with ⟨_, hcall, -⟩ | ⟨_, _, j, k, l, m, -, -, rfl⟩
    · cases hcall
    · obtain ⟨s, hj, hrow⟩ := (lists_row_iff hs hfield).mp h
      exact ⟨j, s, hj, k, l, m, rfl, hrow⟩
  · rintro ⟨j, s, hj, k, l, m, rfl, hrow⟩
    exact ⟨rfl, (lists_row_iff hs hfield).mpr ⟨s, hj, hrow⟩⟩

/-- **The children that a statement brings are what its sites list.** -/
theorem enumerates_childrenOf {body : List Stmt} {i : Nat} {s : Stmt} (hs : body[i]? = some s) :
    Enumerates (fun site child => site.statement = i ∧ Lists body site child) Site.Before
      (childrenOf (body.take i).reverse s) := by
  unfold childrenOf
  cases hshape : shape s with
  | plain =>
    refine .nil fun site child => ?_
    rintro ⟨hi, h⟩
    rcases h.of_statement hs hi with ⟨call, hcall, -⟩ | ⟨loop, field, _, _, _, _, rfl, hfield, -⟩
    · cases hshape.symm.trans (shape_eq_run_iff.mpr hcall)
    · cases hshape.symm.trans (shape_eq_loop_iff.mpr ⟨rfl, hfield.any_isRun⟩)
  | run call =>
    have hlists : ∀ site child, site.statement = i ∧ Lists body site child
        ↔ site = .run i ∧ call.child? = some child :=
      fun _ _ => lists_run_iff hs (shape_eq_run_iff.mp hshape)
    dsimp only
    cases hchild : call.child? with
    | none =>
      refine .nil fun site child h => ?_
      cases hchild.symm.trans ((hlists site child).mp h).2
    | some only =>
      refine .singleton (i := .run i) fun site child => (hlists site child).trans ?_
      rw [hchild, Option.some.injEq, eq_comm (a := only)]
  | loop loop =>
    obtain ⟨rfl, -⟩ := shape_eq_loop_iff.mp hshape
    dsimp only
    cases hfield : loopField? loop with
    | none =>
      refine .nil fun site child => ?_
      rintro ⟨hi, h⟩
      rcases h.of_statement hs hi with ⟨_, hcall, -⟩ | ⟨_, field, _, _, _, _, heq, hnames, -⟩
      · cases hcall
      · obtain rfl := Stmt.range.inj heq
        cases hfield.symm.trans (loopField?_eq_some_iff.mpr hnames)
    | some field =>
      have hnames := loopField?_eq_some_iff.mp hfield
      exact (enumerates_rows field body i).congr fun site child => (lists_loop_iff hs hnames).symm

/-- The children of a body, statement by statement with what stands before each. -/
theorem childrenAfter_eq (before rest : List Stmt) :
    childrenAfter before.reverse rest = (rest.zipIdx before.length).flatMap fun p =>
      childrenOf ((before ++ rest).take p.2).reverse p.1 := by
  induction rest generalizing before with
  | nil => rfl
  | cons s rest ih =>
    have hnext := ih (before ++ [s])
    rw [List.reverse_append, List.reverse_singleton, List.singleton_append, List.append_assoc,
      List.singleton_append, List.length_append, List.length_singleton] at hnext
    rw [childrenAfter, hnext, List.zipIdx_cons, List.flatMap_cons, List.take_left]

/-- **The children in a body are what its sites list, in the order of the sites.** -/
theorem enumerates_children (f : Function) :
    Enumerates (Lists f.body) Site.Before (children f) := by
  have hchildren : children f = f.body.zipIdx.flatMap fun p =>
      childrenOf (f.body.take p.2).reverse p.1 := childrenAfter_eq [] f.body
  have hplace : ∀ {i : Nat} {p : Stmt × Nat}, f.body.zipIdx[i]? = some p →
      f.body[i]? = some p.1 ∧ p.2 = i := by
    intro i p h
    rw [List.getElem?_zipIdx, Option.map_eq_some_iff] at h
    obtain ⟨s, hs, rfl⟩ := h
    exact ⟨hs, Nat.zero_add i⟩
  have hgathered : Enumerates (fun site child => ∃ (i : Nat) (p : Stmt × Nat),
      f.body.zipIdx[i]? = some p ∧ site.statement = i ∧ Lists f.body site child)
      Site.Before (children f) := by
    rw [hchildren]
    refine (Enumerates.getElem? f.body.zipIdx).flatMap ?_ ?_
    · rintro i j _ _ _ _ _ _ hij ⟨rfl, -⟩ ⟨rfl, -⟩
      exact .statement hij
    · intro i p hp
      obtain ⟨hs, rfl⟩ := hplace hp
      exact enumerates_childrenOf hs
  refine hgathered.congr fun site child => ⟨fun ⟨_, _, _, _, h⟩ => h, fun h => ?_⟩
  obtain ⟨s, hs⟩ : ∃ s, f.body[site.statement]? = some s := by
    cases h with
    | run hs => exact ⟨_, hs⟩
    | row hloop => exact ⟨_, hloop⟩
  refine ⟨site.statement, (s, site.statement), ?_, rfl, h⟩
  rw [List.getElem?_zipIdx, hs, Nat.zero_add]
  rfl

/-! ## Entries -/

/-- **The entries of a function**: the function itself, if nothing in its body starts subtests;
otherwise what the sites of its body list, each site once, in the order of the sites, and nothing
else. -/
theorem entries_listed (f : Function) :
    ((∀ s ∈ f.body, ¬ StartsSubtests s) → entries f = [⟨f.name, none⟩])
    ∧ ((∃ s ∈ f.body, StartsSubtests s) →
        ∃ listed : List (Site × Child),
          entries f = listed.map (fun p => ⟨f.name, some p.2⟩)
          ∧ listed.Pairwise (fun p q => p.1.Before q.1) ∧ (listed.map Prod.fst).Nodup
          ∧ ∀ site child, (site, child) ∈ listed ↔ Lists f.body site child) := by
  have hany : f.body.any startsChildren = true ↔ ∃ s ∈ f.body, StartsSubtests s := by
    rw [List.any_eq_true]
    exact exists_congr fun s => and_congr_right fun _ => startsChildren_iff
  constructor
  · intro h
    refine if_neg fun hstarts => ?_
    obtain ⟨s, hs, hsub⟩ := hany.mp hstarts
    exact h s hs hsub
  · intro h
    obtain ⟨listed, hlisted, horder, hmem⟩ := enumerates_children f
    have hnodup : (listed.map Prod.fst).Nodup :=
      List.pairwise_map.mpr (horder.imp Site.Before.ne)
    refine ⟨listed, ?_, horder, hnodup, hmem⟩
    rw [entries, if_pos (hany.mpr h), ← hlisted, List.map_map]
    rfl

end TestCatalog.Listing
