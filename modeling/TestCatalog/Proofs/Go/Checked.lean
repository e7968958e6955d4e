import TestCatalog.Proofs.Go.Outline

/-!
# Proofs/Go/Checked — placed nodes can be told by computation

`Node.reach?` goes through a node and gives the end of the shortest stretch in which it lies behind
an offset, if all that is asked of the node is found.  What it accepts is placed
(`placed_of_check`).
-/

namespace TestCatalog.Go

open Text (GoesOnAt StandsAt byteLength_cons)

/-- Whether a piece of text stands at an offset. -/
def standsAt (text : List Char) : List Char → Nat → Bool
  | source, 0 => text.isPrefixOf source
  | [], _ + 1 => false
  | c :: source, n + 1 => c.utf8Size ≤ n + 1 && standsAt text source (n + 1 - c.utf8Size)

/-- Whether a text is one of the literals. -/
def isLiteral (text : String) : Bool :=
  Terminal.shapes.any fun shape => shape.2.longest text.toList == some text.toList.length

/-- Whether the children are as asked of a node. -/
def shaped (kind : Kind) (start : Nat) (children : List Node) : Bool :=
  decide ((children.filterMap Node.role).Pairwise (·.ctorIdx ≤ ·.ctorIdx))
    && (kind ∉ leadingKinds || (children.find? (!·.isTrivia)).any fun n =>
      n.start = start && n.counts && n.role = leadRole kind)
    && (kind ≠ .keyedElement || children.any (·.role = some .value))

mutual

/-- The end of the shortest stretch behind an offset in which a node lies. -/
def Node.reach? (source : List Char) : Node → Nat → Option Nat
  | .leaf _ k s t, lo =>
    if lo ≤ s && t ≠ "" && standsAt t.toList source s && (k ∉ literalKinds || isLiteral t) then
      some (s + 1)
    else none
  | .branch _ k s cs, lo =>
    if lo ≤ s && standsAt [] source s && shaped k s cs then
      (reachAll? source cs s).map (max (s + 1))
    else none

/-- The end of the shortest stretch behind an offset in which nodes lie one after another. -/
def reachAll? (source : List Char) : List Node → Nat → Option Nat
  | [], lo => some lo
  | n :: ns, lo =>
    if n.isTrivia then reachAll? source ns lo
    else (n.reach? source lo).bind (reachAll? source ns)

end

/-- Whether nodes are placed in a text. -/
def checkPlaced (text : String) (nodes : List Node) : Bool :=
  (reachAll? text.toList nodes 0).any (· ≤ byteLength text.toList)

variable {source : List Char} {lo hi : Nat}

/-! ## What is accepted -/

theorem goesOnAt_of_standsAt {text rest : List Char} {offset start : Nat}
    (h : standsAt text rest offset = true) (hrest : GoesOnAt source start rest) :
    ∃ after, GoesOnAt source (start + offset) (text ++ after) := by
  have hhere : ∀ {rest start}, text.isPrefixOf rest = true → GoesOnAt source start rest →
      ∃ after, GoesOnAt source start (text ++ after) := by
    intro rest start hprefix hrest
    obtain ⟨after, rfl⟩ := List.isPrefixOf_iff_prefix.mp hprefix
    exact ⟨after, hrest⟩
  fun_induction standsAt text rest offset generalizing start with
  | case1 rest => exact hhere h hrest
  | case2 n => cases h
  | case3 c rest n ih =>
    obtain ⟨hsize, hlater⟩ := Bool.and_eq_true_iff.mp h
    have hsize : c.utf8Size ≤ n + 1 := of_decide_eq_true hsize
    have hnext := ih hlater hrest.tail
    rwa [show start + c.utf8Size + (n + 1 - c.utf8Size) = start + (n + 1) by omega] at hnext

theorem standsAt_sound {text : String} {offset : Nat}
    (h : standsAt text.toList source offset = true) : StandsAt source offset text := by
  have hat := goesOnAt_of_standsAt h (GoesOnAt.start source)
  rwa [Nat.zero_add] at hat

theorem isLiteral_sound {text : String} (h : isLiteral text = true) : IsLiteral text := by
  obtain ⟨shape, hshape, hlongest⟩ := List.any_eq_true.mp h
  have hmatch := Text.Regex.take_mem_language (beq_iff_eq.mp hlongest)
  rw [List.take_length] at hmatch
  exact ⟨shape, hshape, hmatch⟩

theorem shaped_sound {kind : Kind} {start : Nat} {children : List Node}
    (h : shaped kind start children = true) : Shaped kind start children := by
  simp only [shaped, Bool.and_eq_true, Bool.or_eq_true, decide_eq_true_eq] at h
  obtain ⟨⟨hordered, hlead⟩, hpair⟩ := h
  refine ⟨hordered, fun hkind => ?_, fun hkind => ?_⟩
  · obtain ⟨n, hn, hchecks⟩ :=
      (Option.any_eq_true _ _).mp (hlead.resolve_left (not_not_intro hkind))
    simp only [Bool.and_eq_true, decide_eq_true_eq] at hchecks
    obtain ⟨⟨hstart, hcounts⟩, hrole⟩ := hchecks
    exact ⟨n, hn, hstart, hcounts, hrole⟩
  · have hvalue := List.any_eq_true.mp (hpair.resolve_left (not_not_intro hkind))
    simpa using hvalue

/-- Nodes lie where the check finds them, if each of them does. -/
theorem nodesLie_of_reach {ns : List Node}
    (hns : ∀ n ∈ ns, ∀ {lo hi}, n.reach? source lo = some hi → n.Lies source lo hi)
    (h : reachAll? source ns lo = some hi) : NodesLie source ns lo hi := by
  induction ns generalizing lo with
  | nil => exact Nat.le_of_eq (Option.some.inj h)
  | cons n ns ih =>
    obtain ⟨hn, hns⟩ := List.forall_mem_cons.mp hns
    rw [reachAll?] at h
    rw [NodesLie]
    split_ifs at h ⊢
    · exact ih hns h
    · obtain ⟨mid, hmid, hrest⟩ := Option.bind_eq_some_iff.mp h
      exact ⟨mid, hn hmid, ih hns hrest⟩

/-- **A node lies where the check finds it.** -/
theorem lies_of_reach (n : Node) :
    ∀ {lo hi}, n.reach? source lo = some hi → n.Lies source lo hi := by
  induction n using Node.ind with
  | leaf r k s t =>
    intro lo hi h
    obtain ⟨hchecks, hhi⟩ := Option.ite_none_right_eq_some.mp h
    obtain rfl := Option.some.inj hhi
    simp only [Bool.and_eq_true, Bool.or_eq_true, decide_eq_true_eq] at hchecks
    obtain ⟨⟨⟨hlo, hne⟩, hstands⟩, hliteral⟩ := hchecks
    exact ⟨hlo, Nat.lt_succ_self s, hne, standsAt_sound hstands,
      fun hk => isLiteral_sound (hliteral.resolve_left (not_not_intro hk))⟩
  | branch r k s cs ih =>
    intro lo hi h
    obtain ⟨hchecks, hhi⟩ := Option.ite_none_right_eq_some.mp h
    obtain ⟨stop, hstop, rfl⟩ := Option.map_eq_some_iff.mp hhi
    simp only [Bool.and_eq_true, decide_eq_true_eq] at hchecks
    obtain ⟨⟨hlo, hstands⟩, hshaped⟩ := hchecks
    refine ⟨hlo, standsAt_sound hstands, shaped_sound hshaped, max (s + 1) stop, by omega,
      Nat.le_refl _, (nodesLie_of_reach ih hstop).mono (Nat.le_refl s) (Nat.le_max_right _ _)⟩

/-- **Nodes that pass the check are placed.** -/
theorem placed_of_check {text : String} {nodes : List Node} (h : checkPlaced text nodes = true) :
    Placed text nodes := by
  obtain ⟨stop, hstop, hle⟩ := (Option.any_eq_true _ _).mp h
  have hlie := nodesLie_of_reach (fun n _ => lies_of_reach n) hstop
  exact hlie.mono (Nat.le_refl 0) (of_decide_eq_true hle)

/-! ## A sample -/

/-- A text with a table, a loop over it, a subtest of its own, a second function, a comment, a
literal that goes over a line, and characters of two bytes. -/
def sampleText : String :=
  "package p // é\n\nfunc TestA(t *testing.T) \x7b\n\tts := []c\x7b\x7bname: `é\n`\x7d, \x7bname: \"b\"\x7d\x7d\n"
    ++ "\tfor _, c := range ts \x7b\n\t\tt.Run(c.name, f)\n\t\x7d\n\tt.Run(\"ü\", f)\n\x7d\n\n"
    ++ "func TestB() \x7b\x7d\n"

/-- A row of the table. -/
def sampleCase (start : Nat) (kind : Kind) (text : String) : Node :=
  .branch none .literalElement start [.branch none .literalValue start
    [.branch none .keyedElement (start + 1)
      [.branch (some .key) .literalElement (start + 1) [.leaf none .identifier (start + 1) "name"],
        .branch (some .value) .literalElement (start + 7) [.leaf none kind (start + 7) text]]]]

/-- A call that starts a subtest. -/
def sampleRun (start : Nat) (arguments : List Node) : Node :=
  .branch none .expressionStatement start [.branch none .callExpression start
    [.branch (some .function) .selectorExpression start
      [.leaf (some .operand) .identifier start "t",
        .leaf (some .field) .fieldIdentifier (start + 2) "Run"],
      .branch (some .arguments) .argumentList (start + 5) arguments]]

/-- Its statements. -/
def sampleBody : List Node :=
  [.branch none .shortVarDeclaration 45
    [.branch (some .left) .expressionList 45 [.leaf none .identifier 45 "ts"],
      .branch (some .right) .expressionList 51 [.branch none .compositeLiteral 51
        [.branch (some .body) .literalValue 54
          [sampleCase 55 .rawStringLiteral "`é\n`",
            sampleCase 70 .interpretedStringLiteral "\"b\""]]]],
    .branch none .forStatement 84
      [.branch none .rangeClause 88 [.leaf none .identifier 102 "ts"],
        .branch (some .body) .block 105 [.branch none .statementList 109
          [sampleRun 109
            [.branch none .selectorExpression 115
              [.leaf (some .operand) .identifier 115 "c",
                .leaf (some .field) .fieldIdentifier 117 "name"],
              .leaf none .identifier 123 "f"]]]],
    sampleRun 130 [.leaf none .interpretedStringLiteral 136 "\"ü\"", .leaf none .identifier 142 "f"]]

/-- Its nodes, signs and types left out. -/
def sampleNodes : List Node :=
  [.leaf none .comment 10 "// é",
    .branch none .functionDeclaration 17
      [.leaf (some .name) .identifier 22 "TestA",
        .branch (some .body) .block 42 [.branch none .statementList 45 sampleBody]],
    .branch none .functionDeclaration 148
      [.leaf (some .name) .identifier 153 "TestB", .branch (some .body) .block 161 []]]

theorem sample_outlines : Outlines sampleText (outline sampleNodes) :=
  ⟨sampleNodes, placed_of_check (by decide +kernel), rfl⟩

end TestCatalog.Go
