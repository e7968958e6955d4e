import TestCatalog.Proofs.Parsing.Reading
import TestCatalog.Proofs.Text.Regex
import TestCatalog.Proofs.Text.Standing

/-!
# Proofs/Go/Token — tokens stand in the text they are taken from

The tokenizer passes over blanks and comments, and takes a token where neither is.  `TokenStands`
says what the parser may rely on: the token is a piece of the text, at the offset it says, behind
what was read before, empty only at the end of the text, and a literal if its terminal is one.

* `nextToken_sound` — every token that is taken stands in the text.
-/

namespace TestCatalog.Go

open Text (GoesOnAt StandsAt Regex isIdentifierStart isIdentifierPart byteLength_cons)
open Parsing (Lexed Piece TerminalSet Token)

/-- The terminals of literals. -/
def literalTerminals : List Nat := Terminal.shapes.map (·.1.index)

/-- **The literals of Go**: numbers, characters, and texts between either kind of quotes. -/
def IsLiteral (text : String) : Prop := ∃ p ∈ Terminal.shapes, text.toList ∈ p.2.language

/-- No literal is empty. -/
theorem IsLiteral.ne_empty {text : String} (h : IsLiteral text) : text ≠ "" := by
  rintro rfl
  obtain ⟨shape, hshape, hnil⟩ := h
  have hnullable : ∀ shape ∈ Terminal.shapes, shape.2.nullable = false := by decide
  have hempty := (Regex.nullable_iff shape.2).mpr hnil
  rw [hnullable shape hshape] at hempty
  cases hempty

/-- **A token stands in the text between two offsets.** -/
structure TokenStands (source : List Char) (a b : Nat) (t : Token) : Prop where
  /-- It comes behind the first offset. -/
  le_start : a ≤ t.piece.start
  /-- It is a piece of the text. -/
  stands : StandsAt source t.piece.start t.piece.text
  /-- It goes up to the second offset. -/
  stop_eq : t.piece.start + byteLength t.piece.text.toList = b
  /-- Only the end of the text has no characters. -/
  ne_empty : t.terminal ≠ Terminal.finish.index → t.piece.text ≠ ""
  /-- A literal has the shape of one. -/
  literal : t.terminal ∈ literalTerminals → IsLiteral t.piece.text

theorem TokenStands.weaken {source : List Char} {a a' b : Nat} {t : Token}
    (h : TokenStands source a b t) (ha : a' ≤ a) : TokenStands source a' b t :=
  { h with le_start := ha.trans h.le_start }

/-! ## Words and signs -/

theorem isIdentifierPart_of_start {c : Char} (h : isIdentifierStart c = true) :
    isIdentifierPart c = true := by
  unfold isIdentifierStart at h
  unfold isIdentifierPart
  split_ifs at h ⊢
  · rcases Bool.or_eq_true _ _ ▸ h with h | h
    · simp [Char.isAlphanum, h]
    · simp [h]
  · simp [h]

theorem mem_of_lookup_word {words : List (String × Terminal)} {word : String} {t : Terminal}
    (h : words.lookup word = some t) : (word, t) ∈ words := by
  obtain ⟨before, after, rfl, -⟩ := List.lookup_eq_some_iff.mp h
  exact List.mem_append_right before List.mem_cons_self

/-- No word is a literal. -/
theorem not_mem_of_wordTerminal {expected : TerminalSet} {word : String} {t : Nat}
    (h : wordTerminal expected word = some t) : t ∉ literalTerminals := by
  have hreserved : ∀ p ∈ Terminal.reservedWords, p.2.index ∉ literalTerminals := by decide
  have hsoft : ∀ p ∈ Terminal.softWords, p.2.index ∉ literalTerminals := by decide
  have hidentifier : ∀ {t}, wordTerminal.identifier expected = some t → t ∉ literalTerminals := by
    intro t h
    unfold wordTerminal.identifier at h
    split_ifs at h
    obtain rfl := Option.some.inj h
    decide
  unfold wordTerminal at h
  split at h
  · next u hu =>
    split_ifs at h
    obtain rfl := Option.some.inj h
    exact hreserved _ (mem_of_lookup_word hu)
  · split at h
    · next u hu =>
      split_ifs at h
      · obtain rfl := Option.some.inj h
        exact hsoft _ (mem_of_lookup_word hu)
      · exact hidentifier h
    · exact hidentifier h

theorem mem_of_longestSign {expected : TerminalSet} {text : List Char} {t n : Nat}
    (h : longestSign expected text = some (t, n)) :
    ∃ lexeme, (t, lexeme) ∈ lexemes ∧ lexeme.longest text = some n := by
  revert t n
  rw [longestSign]
  refine List.foldlRecOn (motive := fun best : Option (Nat × Nat) => ∀ {t n : Nat},
    best = some (t, n) → ∃ lexeme, (t, lexeme) ∈ lexemes ∧ lexeme.longest text = some n) _ _
    (by simp) ?_
  rintro best hbest ⟨u, lexeme⟩ hmem t n h
  dsimp only at h
  have hnew : ∀ {m}, lexeme.longest text = some m → some (u, m) = some (t, n) →
      ∃ lexeme, (t, lexeme) ∈ lexemes ∧ lexeme.longest text = some n := by
    intro m hm heq
    obtain ⟨rfl, rfl⟩ := Prod.mk.inj (Option.some.inj heq)
    exact ⟨lexeme, hmem, hm⟩
  split_ifs at h
  · split at h
    · exact hbest h
    · next m hm => exact hnew hm h
    · next m _ _ hm =>
      split_ifs at h
      · exact hnew hm h
      · exact hbest h
  · exact hbest h

/-- **A lexeme that is found has characters**, and is a literal if its terminal is one. -/
theorem take_of_lexeme {text : List Char} {t n : Nat} {lexeme : Lexeme}
    (hmem : (t, lexeme) ∈ lexemes) (h : lexeme.longest text = some n) :
    0 < n ∧ (t ∈ literalTerminals → IsLiteral (String.ofList (text.take n))) := by
  have hsigns : ∀ p ∈ Terminal.signs, (∀ s ∈ p.2, s.toList ≠ []) ∧ p.1.index ∉ literalTerminals := by
    decide +kernel
  have hshapes : ∀ p ∈ Terminal.shapes, p.2.nullable = false := by decide +kernel
  rcases List.mem_append.mp hmem with hmem | hmem
  · obtain ⟨p, hp, heq⟩ := List.mem_map.mp hmem
    obtain ⟨rfl, rfl⟩ := Prod.mk.inj heq
    refine ⟨?_, fun hliteral => absurd hliteral (hsigns p hp).2⟩
    obtain ⟨s, hs, rfl⟩ := List.mem_map.mp (List.max?_mem h)
    obtain ⟨sign, hsign, rfl⟩ := List.mem_map.mp (List.mem_filter.mp hs).1
    exact List.length_pos_iff.mpr ((hsigns p hp).1 sign hsign)
  · obtain ⟨p, hp, heq⟩ := List.mem_map.mp hmem
    obtain ⟨rfl, rfl⟩ := Prod.mk.inj heq
    have hdescribed := Regex.take_mem_language h
    constructor
    · rcases Nat.eq_zero_or_pos n with rfl | hpos
      · have hnull := (Regex.nullable_iff p.2).mpr hdescribed
        rw [hshapes p hp] at hnull
        cases hnull
      · exact hpos
    · intro _
      exact ⟨p, hp, by rwa [String.toList_ofList]⟩

/-- **A terminal that is found has characters**, and is a literal if it is one of those. -/
theorem take_of_terminalAt {expected : TerminalSet} {text : List Char} {t n : Nat}
    (h : terminalAt expected text = some (t, n)) :
    text.take n ≠ [] ∧ (t ∈ literalTerminals → IsLiteral (String.ofList (text.take n))) := by
  cases text with
  | nil => cases h
  | cons c cs =>
    rw [terminalAt] at h
    split_ifs at h with hstart
    · obtain ⟨u, hu, heq⟩ := Option.map_eq_some_iff.mp h
      obtain ⟨rfl, rfl⟩ := Prod.mk.inj heq
      refine ⟨?_, fun hliteral => absurd hliteral (not_mem_of_wordTerminal hu)⟩
      rw [List.takeWhile_cons_of_pos (isIdentifierPart_of_start hstart), List.length_cons,
        List.take_succ_cons]
      exact List.cons_ne_nil _ _
    · obtain ⟨lexeme, hmem, hlexeme⟩ := mem_of_longestSign h
      obtain ⟨hpos, hliteral⟩ := take_of_lexeme hmem hlexeme
      obtain ⟨m, rfl⟩ := Nat.exists_eq_add_of_lt hpos
      refine ⟨?_, hliteral⟩
      rw [Nat.zero_add, List.take_succ_cons]
      exact List.cons_ne_nil _ _

/-! ## The next token -/

/-- The token at the front of the text. -/
theorem tokenStands_pieceAt {source text : List Char} {offset t n : Nat} {expected : TerminalSet}
    {comments : List Piece} (hat : GoesOnAt source offset text)
    (h : terminalAt expected text = some (t, n)) :
    TokenStands source offset (offset + byteLength (text.take n))
      ⟨t, pieceAt offset n text, comments⟩ := by
  obtain ⟨hne, hliteral⟩ := take_of_terminalAt h
  refine ⟨Nat.le_refl _, ⟨text.drop n, ?_⟩, ?_, fun _ hempty => hne ?_, hliteral⟩
  · rwa [pieceAt, String.toList_ofList, List.take_append_drop]
  · rw [pieceAt, String.toList_ofList]
  · have hchars := congrArg String.toList hempty
    rwa [pieceAt, String.toList_ofList] at hchars

theorem nextTokenFrom_sound {source : List Char} {expected : TerminalSet} {skip offset : Nat}
    {comments : List Piece} {text : List Char} {lexed : Lexed} (hat : GoesOnAt source offset text)
    (h : nextTokenFrom expected skip comments offset text = .ok lexed) :
    TokenStands source offset lexed.stop lexed.token ∧ GoesOnAt source lexed.stop lexed.rest := by
  -- a token behind further characters also comes behind this offset
  have hback : ∀ {offset n : Nat},
      TokenStands source (offset + n) lexed.stop lexed.token ∧ GoesOnAt source lexed.stop lexed.rest →
      TokenStands source offset lexed.stop lexed.token ∧ GoesOnAt source lexed.stop lexed.rest :=
    fun h => ⟨h.1.weaken (Nat.le_add_right _ _), h.2⟩
  fun_induction nextTokenFrom expected skip comments offset text with
  | case1 skip comments offset hfinish =>
    obtain rfl := Except.ok.inj h
    have hsign : Terminal.finish.index ∉ literalTerminals := by decide
    refine ⟨⟨Nat.le_refl _, ⟨[], ?_⟩, rfl, fun hne => absurd rfl hne, ?_⟩, hat⟩
    · simpa using hat
    · exact fun hliteral => absurd hliteral hsign
  | case2 => cases h
  | case3 comments offset c cs skip ih => exact hback (ih hat.tail h)
  | case4 comments offset c cs n hcomment ih => exact hback (ih hat.tail h)
  | case5 comments offset c cs hcomment t n hterminal =>
    obtain rfl := Except.ok.inj h
    refine ⟨tokenStands_pieceAt hat hterminal, ?_⟩
    rw [← List.take_append_drop n (c :: cs)] at hat
    exact hat.drop
  | case6 comments offset c cs hcomment hterminal hblank ih => exact hback (ih hat.tail h)
  | case7 => cases h

/-- **Every token stands in the text it is taken from.** -/
theorem nextToken_sound (source : List Char) :
    Parsing.Tokenizer.Sound (TokenStands source) (GoesOnAt source) nextToken :=
  fun _ _ _ _ hat h => nextTokenFrom_sound hat h

end TestCatalog.Go
