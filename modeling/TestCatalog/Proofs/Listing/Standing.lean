import TestCatalog.Proofs.Listing.Site
import TestCatalog.Proofs.Source.Placed

/-!
# Proofs/Listing/Standing — where the children of a body stand

In a body that is placed in a text, a child stands at the word it is reported by, the receiver of a
call or the key of a row, and its literal follows (`Named`).

* `Lists.run_named`, `Lists.row_named` — what stands at the offset of a child.
* `Lists.site_eq` — no two sites list children at one offset, if the body has one loop over a table.
* `entriesOf_offsets_nodup` — so no two entries of a file stand at one offset.
-/

namespace TestCatalog.Listing

open Go (IsLiteral)
open Source
open Text (InOrder Inside StandsAt index_eq_of_pairwise)

variable {source : List Char} {lo hi : Nat}

/-- **A word stands at an offset in a stretch of the text, and a literal behind it.** -/
structure Named (source : List Char) (word literal : String) (offset lo hi : Nat) : Prop where
  /-- The word stands behind the start of the stretch… -/
  le : lo ≤ offset
  /-- …and before its end. -/
  lt : offset < hi
  /-- It is a word. -/
  ne_empty : word ≠ ""
  /-- It stands at the offset. -/
  stands : StandsAt source offset word
  /-- The literal is one. -/
  isLiteral : IsLiteral literal
  /-- It stands behind the word. -/
  follows : ∃ place, offset < place ∧ StandsAt source place literal

/-! ## Parts of placed trees -/

/-- A call stands at its receiver, and its first argument follows. -/
theorem call_named {receiver method : Ident} {text : String} {place offset : Nat} {rest : List Expr}
    (h : (Expr.call (.selector (.ident receiver) method) (.literal text place :: rest) offset).Lies
      source lo hi) : Named source receiver.name text offset lo hi := by
  obtain ⟨hlo, hstart, mid, stop, hstop, hhi, hcallee, next, hargument, -⟩ := h
  obtain rfl : receiver.offset = offset := hstart _ rfl
  obtain ⟨start, behind, -, -, ⟨hne, -, hbefore, hstands⟩, hfield⟩ := hcallee
  obtain ⟨hplace, -, hliteral, hshape⟩ := hargument
  have hfieldLe := (stretches_ident source).le hfield
  exact ⟨hlo, by omega, hne, hstands, hshape, place, by omega, hliteral⟩

/-- An element of a row stands at its key, and the value follows. -/
theorem keyed_named {key : Ident} {text : String} {place : Nat}
    (h : (Expr.keyed (.ident key) (.literal text place)).Lies source lo hi) :
    Named source key.name text key.offset lo hi := by
  obtain ⟨start, mid, stop, hlo, hstop, hhi, ⟨hne, hstart, hmid, hstands⟩, hvalue⟩ := h
  obtain ⟨hplace, hend, hliteral, hshape⟩ := hvalue
  exact ⟨by omega, by omega, hne, hstands, hshape, place, by omega, hliteral⟩

/-- The elements of a composite literal lie in it. -/
theorem elements_lie {e : Expr} (h : e.Lies source lo hi) :
    InOrder (Expr.Lies source) (elements e) lo hi := by
  unfold elements
  split
  · obtain ⟨hlo, stop, -, hhi, hes⟩ := h
    exact (exprsLie_iff.mp hes).mono (stretches_expr source) hlo hhi
  · exact (stretches_expr source).le h

/-- The values of an assignment lie in it. -/
theorem values_lie {left right : List Expr} (h : (Stmt.assign left right).Lies source lo hi) :
    InOrder (Expr.Lies source) right lo hi := by
  obtain ⟨mid, hleft, hright⟩ := h
  exact hright.mono (stretches_expr source) (hleft.le (stretches_expr source)) (Nat.le_refl hi)

/-! ## Statements -/

theorem RunsAt.named {s : Stmt} {text : String} {place offset : Nat} {rest : List Expr}
    (h : RunsAt s (.literal text place :: rest) offset) (hs : s.Lies source lo hi) :
    ∃ receiver method, s = .expr (.call (.selector (.ident receiver) method)
        (.literal text place :: rest) offset)
      ∧ Named source receiver.name text offset lo hi := by
  obtain ⟨receiver, method, rfl, -⟩ := h
  exact ⟨receiver, method, rfl, call_named hs⟩

theorem RunsAt.inside {s : Stmt} {text : String} {place offset : Nat} {rest : List Expr}
    (h : RunsAt s (.literal text place :: rest) offset) : Inside (Stmt.Lies source) s offset := by
  intro lo hi hs
  obtain ⟨receiver, method, -, hnamed⟩ := h.named hs
  exact ⟨hnamed.le, hnamed.lt⟩

section

variable {field : String}

/-- The key of an element stands at the offset of its case. -/
theorem rowChild_named {e : Expr} {child : Child} (h : rowChild? field e = some child)
    (he : e.Lies source lo hi) : Named source field child.literal child.offset lo hi := by
  obtain ⟨key, text, place, rfl, rfl, rfl⟩ := rowChild?_eq_some_iff.mp h
  exact keyed_named he

theorem inside_rowChild {e : Expr} {child : Child} (h : rowChild? field e = some child) :
    Inside (Expr.Lies source) e child.offset := by
  intro lo hi he
  exact ⟨(rowChild_named h he).le, (rowChild_named h he).lt⟩

theorem inside_elements {e element : Expr} {offset : Nat} (helement : element ∈ elements e)
    (h : Inside (Expr.Lies source) element offset) : Inside (Expr.Lies source) e offset := by
  intro lo hi he
  exact h lo hi ((elements_lie he).of_mem (stretches_expr source) helement)

variable {s : Stmt} {k l m : Nat} {child : Child}

theorem RowAt.named (h : RowAt field s k l m child) (hs : s.Lies source lo hi) :
    Named source field child.literal child.offset lo hi := by
  obtain ⟨left, right, value, rfl, hvalue, row, hrow, element, helement, hchild⟩ := h
  have hvalue := (values_lie hs).of_mem (stretches_expr source) (List.mem_of_getElem? hvalue)
  have hrow := (elements_lie hvalue).of_mem (stretches_expr source) (List.mem_of_getElem? hrow)
  exact rowChild_named hchild
    ((elements_lie hrow).of_mem (stretches_expr source) (List.mem_of_getElem? helement))

theorem RowAt.inside (h : RowAt field s k l m child) :
    Inside (Stmt.Lies source) s child.offset := by
  intro lo hi hs
  exact ⟨(h.named hs).le, (h.named hs).lt⟩

/-- **The offset of a case gives its places in the statement.** -/
theorem RowAt.places_eq {field' : String} {k' l' m' : Nat} {child' : Child}
    (hs : s.Lies source lo hi) (h : RowAt field s k l m child) (h' : RowAt field' s k' l' m' child')
    (hoffset : child.offset = child'.offset) : k = k' ∧ l = l' ∧ m = m' := by
  obtain ⟨left, right, value, rfl, hvalue, row, hrow, element, helement, hchild⟩ := h
  obtain ⟨_, _, value', heq, hvalue', row', hrow', element', helement', hchild'⟩ := h'
  obtain ⟨rfl, rfl⟩ := Stmt.assign.inj heq
  have hinside : Inside (Expr.Lies source) element child.offset := inside_rowChild hchild
  have hinside' : Inside (Expr.Lies source) element' child.offset :=
    hoffset ▸ inside_rowChild hchild'
  have hrowIn := inside_elements (List.mem_of_getElem? helement) hinside
  have hrowIn' := inside_elements (List.mem_of_getElem? helement') hinside'
  have hvalues := values_lie hs
  obtain rfl := hvalues.index_eq (stretches_expr source) hvalue hvalue'
    (inside_elements (List.mem_of_getElem? hrow) hrowIn)
    (inside_elements (List.mem_of_getElem? hrow') hrowIn')
  obtain rfl := Option.some.inj (hvalue.symm.trans hvalue')
  have hrows := elements_lie (hvalues.of_mem (stretches_expr source) (List.mem_of_getElem? hvalue))
  obtain rfl := hrows.index_eq (stretches_expr source) hrow hrow' hrowIn hrowIn'
  obtain rfl := Option.some.inj (hrow.symm.trans hrow')
  have hcells := elements_lie (hrows.of_mem (stretches_expr source) (List.mem_of_getElem? hrow))
  obtain rfl := hcells.index_eq (stretches_expr source) helement helement' hinside hinside'
  exact ⟨rfl, rfl, rfl⟩

end

/-! ## Children -/

/-- A statement that is a loop over a table: its subtests take their names from a field. -/
def LoopsOverTable (s : Stmt) : Prop := ∃ loop field, s = .range loop ∧ NamesField loop field

/-- At most one statement of a body is a loop over a table. -/
def OneTable (body : List Stmt) : Prop :=
  body.Pairwise fun s t => ¬ (LoopsOverTable s ∧ LoopsOverTable t)

instance (s : Stmt) : Decidable (LoopsOverTable s) :=
  match s with
  | .range loop => decidable_of_iff (∃ field ∈ loopField? loop, True) <| by
      simp [LoopsOverTable, ← loopField?_eq_some_iff]
  | .expr _ | .assign _ _ | .other => isFalse <| by rintro ⟨loop, field, heq, -⟩; cases heq

instance (body : List Stmt) : Decidable (OneTable body) :=
  inferInstanceAs (Decidable (body.Pairwise fun s t => ¬ (LoopsOverTable s ∧ LoopsOverTable t)))

theorem OneTable.index_eq {body : List Stmt} (h : OneTable body) {i j : Nat} {s t : Stmt}
    (hi : body[i]? = some s) (hj : body[j]? = some t) (hs : LoopsOverTable s)
    (ht : LoopsOverTable t) : i = j :=
  index_eq_of_pairwise h hi hj (fun hapart => hapart ⟨hs, ht⟩) fun hapart => hapart ⟨ht, hs⟩

variable {body : List Stmt}

/-- A site of a call: its statement. -/
theorem Lists.run_inv {i : Nat} {child : Child} (h : Lists body (.run i) child) :
    ∃ s place rest, body[i]? = some s
      ∧ RunsAt s (.literal child.literal place :: rest) child.offset := by
  obtain ⟨hs, hrun⟩ := h
  exact ⟨_, _, _, hs, hrun⟩

/-- A row site: its loop, and the case in its assignment. -/
theorem Lists.row_inv {i j k l m : Nat} {child : Child} (h : Lists body (.row i j k l m) child) :
    ∃ loop field s, body[i]? = some (.range loop) ∧ NamesField loop field ∧ body[j]? = some s
      ∧ RowAt field s k l m child := by
  obtain ⟨loop, field, hloop, hfield⟩ : ∃ loop field, body[i]? = some (.range loop)
      ∧ NamesField loop field := by
    cases h with
    | row hloop hfield => exact ⟨_, _, hloop, hfield⟩
  obtain ⟨s, hs, hrow⟩ := (lists_row_iff hloop hfield).mp h
  have hs : body[j]? = some s := by
    rw [List.getElem?_take] at hs
    exact (Option.ite_none_right_eq_some.mp hs).2
  exact ⟨loop, field, s, hloop, hfield, hs, hrow⟩

/-- **What stands at the offset of a child that a call names**: the receiver of the call. -/
theorem Lists.run_named (hbody : InOrder (Stmt.Lies source) body lo hi) {i : Nat} {child : Child}
    (h : Lists body (.run i) child) :
    ∃ receiver method arguments, body[i]? = some
        (.expr (.call (.selector (.ident receiver) method) arguments child.offset))
      ∧ Named source receiver.name child.literal child.offset lo hi := by
  obtain ⟨s, place, rest, hs, hrun⟩ := h.run_inv
  have hlies := hbody.of_mem (stretches_stmt source) (List.mem_of_getElem? hs)
  obtain ⟨receiver, method, rfl, hnamed⟩ := hrun.named hlies
  exact ⟨receiver, method, _, hs, hnamed⟩

/-- **What stands at the offset of a case of a table**: the field that its loop takes names from. -/
theorem Lists.row_named (hbody : InOrder (Stmt.Lies source) body lo hi) {i j k l m : Nat}
    {child : Child} (h : Lists body (.row i j k l m) child) :
    ∃ loop field, body[i]? = some (.range loop) ∧ NamesField loop field
      ∧ Named source field child.literal child.offset lo hi := by
  obtain ⟨loop, field, s, hloop, hfield, hs, hrow⟩ := h.row_inv
  have hlies := hbody.of_mem (stretches_stmt source) (List.mem_of_getElem? hs)
  exact ⟨loop, field, hloop, hfield, hrow.named hlies⟩

/-- A child stands inside the body that lists it. -/
theorem Lists.bounds (hbody : InOrder (Stmt.Lies source) body lo hi) {site : Site} {child : Child}
    (h : Lists body site child) : lo ≤ child.offset ∧ child.offset < hi := by
  cases site with
  | run i =>
    obtain ⟨receiver, method, arguments, -, hnamed⟩ := h.run_named hbody
    exact ⟨hnamed.le, hnamed.lt⟩
  | row i j k l m =>
    obtain ⟨loop, field, -, -, hnamed⟩ := h.row_named hbody
    exact ⟨hnamed.le, hnamed.lt⟩

/-- No statement both names a child and assigns a table. -/
theorem RunsAt.not_rowAt {s : Stmt} {arguments : List Expr} {offset k l m : Nat} {field : String}
    {child : Child} (h : RunsAt s arguments offset) : ¬ RowAt field s k l m child := by
  rintro ⟨left, right, value, rfl, -⟩
  obtain ⟨receiver, method, heq, -⟩ := h
  cases heq

/-- A child that a call names and a case of a table stand at different offsets. -/
theorem Lists.run_ne_row (hbody : InOrder (Stmt.Lies source) body lo hi) {i i' j k l m : Nat}
    {child child' : Child} (h : Lists body (.run i) child) (h' : Lists body (.row i' j k l m) child') :
    child.offset ≠ child'.offset := by
  intro hoffset
  obtain ⟨s, place, rest, hs, hrun⟩ := h.run_inv
  obtain ⟨loop, field, t, -, -, ht, hrow⟩ := h'.row_inv
  have hinside : Inside (Stmt.Lies source) t child.offset := hoffset ▸ hrow.inside
  obtain rfl := hbody.index_eq (stretches_stmt source) hs ht hrun.inside hinside
  obtain rfl := Option.some.inj (hs.symm.trans ht)
  exact hrun.not_rowAt hrow

/-- **No two sites list children at one offset**, if at most one statement is a loop over a table. -/
theorem Lists.site_eq (hbody : InOrder (Stmt.Lies source) body lo hi) (hone : OneTable body)
    {a b : Site} {child child' : Child} (h : Lists body a child) (h' : Lists body b child')
    (hoffset : child.offset = child'.offset) : a = b := by
  cases a with
  | run i =>
    cases b with
    | run i' =>
      obtain ⟨s, place, rest, hs, hrun⟩ := h.run_inv
      obtain ⟨s', place', rest', hs', hrun'⟩ := h'.run_inv
      have hinside : Inside (Stmt.Lies source) s' child.offset := hoffset ▸ hrun'.inside
      obtain rfl := hbody.index_eq (stretches_stmt source) hs hs' hrun.inside hinside
      rfl
    | row i' j k l m => exact absurd hoffset (h.run_ne_row hbody h')
  | row i j k l m =>
    cases b with
    | run i' => exact absurd hoffset.symm (h'.run_ne_row hbody h)
    | row i' j' k' l' m' =>
      obtain ⟨loop, field, s, hloop, hfield, hs, hrow⟩ := h.row_inv
      obtain ⟨loop', field', s', hloop', hfield', hs', hrow'⟩ := h'.row_inv
      obtain rfl := hone.index_eq hloop hloop' ⟨loop, field, rfl, hfield⟩
        ⟨loop', field', rfl, hfield'⟩
      have hinside : Inside (Stmt.Lies source) s' child.offset := hoffset ▸ hrow'.inside
      obtain rfl := hbody.index_eq (stretches_stmt source) hs hs' hrow.inside hinside
      obtain rfl := Option.some.inj (hs.symm.trans hs')
      have hstmt := hbody.of_mem (stretches_stmt source) (List.mem_of_getElem? hs)
      obtain ⟨rfl, rfl, rfl⟩ := RowAt.places_eq hstmt hrow hrow' hoffset
      rfl

/-! ## Entries -/

/-- An entry of a function is the function, or a child at a site of its body. -/
theorem exists_site_of_mem_entries {f : Function} {entry : Entry} (h : entry ∈ entries f) :
    entry = ⟨f.name, none⟩
      ∨ ∃ site child, entry = ⟨f.name, some child⟩ ∧ Lists f.body site child := by
  rw [entries] at h
  split_ifs at h
  · obtain ⟨child, hchild, rfl⟩ := List.mem_map.mp h
    obtain ⟨listed, hlisted, -, hmem⟩ := enumerates_children f
    rw [← hlisted] at hchild
    obtain ⟨⟨site, _⟩, hsite, rfl⟩ := List.mem_map.mp hchild
    exact .inr ⟨site, _, rfl, (hmem _ _).mp hsite⟩
  · exact .inl (List.mem_singleton.mp h)

/-- An entry stands inside its function. -/
theorem inside_entry {f : Function} {entry : Entry} (h : entry ∈ entries f) :
    Inside (Function.Lies source) f entry.offset := by
  rintro lo hi ⟨mid, hname, hbody⟩
  have hnameLe := (stretches_ident source).le hname
  have hbodyLe := hbody.le (stretches_stmt source)
  obtain ⟨hlo, hmid, -⟩ := hname
  rcases exists_site_of_mem_entries h with rfl | ⟨site, child, rfl, hlists⟩
  · exact ⟨hlo, Nat.lt_of_lt_of_le hmid hbodyLe⟩
  · have hbounds := hlists.bounds hbody
    exact ⟨Nat.le_trans hnameLe hbounds.1, hbounds.2⟩

/-- **The entries of a function stand at offsets of their own.** -/
theorem entries_offsets_nodup {f : Function} (hf : f.Lies source lo hi) (hone : OneTable f.body) :
    ((entries f).map Entry.offset).Nodup := by
  obtain ⟨mid, -, hbody⟩ := hf
  rw [entries]
  split_ifs
  · obtain ⟨listed, hlisted, horder, hmem⟩ := enumerates_children f
    rw [← hlisted, List.map_map, List.map_map]
    refine List.pairwise_map.mpr (horder.imp_of_mem fun {a b} ha hb hbefore hoffset => ?_)
    exact hbefore.ne (((hmem _ _).mp ha).site_eq hbody hone ((hmem _ _).mp hb) hoffset)
  · exact List.pairwise_singleton _ _

/-- **The entries of a file stand at offsets of their own**, if none of its test functions has a
second loop over a table. -/
theorem entriesOf_offsets_nodup {tree : Tree} {text : String} (htree : tree.Lies text)
    (hone : ∀ f ∈ testFunctions tree, OneTable f.body) :
    ((entriesOf tree).map Entry.offset).Nodup := by
  have hlies := stretches_function text.toList
  have htests : InOrder (Function.Lies text.toList) (testFunctions tree) 0 _ :=
    htree.functions.sublist hlies List.filter_sublist
  rw [entriesOf, List.map_flatMap]
  refine List.pairwise_flatMap.mpr ⟨fun f hf => ?_, (htests.pairwise hlies).imp ?_⟩
  · exact entries_offsets_nodup (htests.of_mem hlies hf) (hone f hf)
  · rintro f g ⟨mid, hf, hg⟩ n hn m hm
    obtain ⟨entry, hentry, rfl⟩ := List.mem_map.mp hn
    obtain ⟨entry', hentry', rfl⟩ := List.mem_map.mp hm
    exact (inside_entry hentry).ne (inside_entry hentry') hf hg

end TestCatalog.Listing
