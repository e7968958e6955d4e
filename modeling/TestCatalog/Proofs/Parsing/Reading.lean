import Mathlib.Data.List.Basic
import TestCatalog.Parsing.Parse

/-!
# Proofs/Parsing/Reading — what a derivation says of the text

A derivation *reads* a stretch of the text when its tokens stand there one after another and every
node has parts that spell its production (`Derivation.Reads`).  The parser keeps many derivations in
stacks that share their lower parts; the invariant is that every edge reads from where the stack
below it stops to where its own stack stops (`Stack.Sound`).  Each operation on stacks keeps it, so
the invariant holds of whatever the parser puts together, and whatever its tables say.

* `Language.parse_reads` — a text that is parsed is read by the derivation from its first offset on.
-/

namespace TestCatalog.Parsing

/-- A stretch of the text in which a token stands. -/
abbrev Standing := Nat → Nat → Token → Prop

mutual

/-- **A derivation reads the text from one offset to another.** -/
def Derivation.Reads (productions : Array Production) (Stands : Standing) :
    Derivation → Nat → Nat → Prop
  | .leaf t, a, b => Stands a b t
  | .node p parts, a, b => parts ≠ []
      ∧ parts.map (·.symbol productions) = (productions.getD p default).parts
      ∧ ReadsAll productions Stands parts a b

/-- Derivations read the text one after another. -/
def ReadsAll (productions : Array Production) (Stands : Standing) :
    List Derivation → Nat → Nat → Prop
  | [], a, b => a = b
  | d :: ds, a, b => ∃ c, d.Reads productions Stands a c ∧ ReadsAll productions Stands ds c b

end

/-- What holds of tokens, and of a node if it holds of all its parts, holds of every derivation. -/
theorem Derivation.ind {motive : Derivation → Prop} (leaf : ∀ t, motive (.leaf t))
    (node : ∀ p parts, (∀ d ∈ parts, motive d) → motive (.node p parts)) (d : Derivation) :
    motive d :=
  @Derivation.rec motive (fun ds => ∀ d ∈ ds, motive d) leaf node nofun
    (fun _ _ hd hds => List.forall_mem_cons.mpr ⟨hd, hds⟩) d

variable {productions : Array Production} {Stands : Standing} {origin : Nat}

theorem readsAll_cons {d : Derivation} {ds : List Derivation} {a b : Nat} :
    ReadsAll productions Stands (d :: ds) a b
      ↔ ∃ c, d.Reads productions Stands a c ∧ ReadsAll productions Stands ds c b := Iff.rfl

/-! ## Stacks -/

/-- **Every part of a stack reads the stretch of text between the stack below it and its own**, and
only a stack at the start of the text has nothing below it. -/
inductive Stack.Sound (productions : Array Production) (Stands : Standing) (origin : Nat) :
    Stack → Prop
  | node {state : State} {stop : Nat} {edges : List (Edge Stack)}
      (hbottom : edges = [] → stop = origin)
      (htree : ∀ e ∈ edges, e.tree.Reads productions Stands e.below.stop stop)
      (hbelow : ∀ e ∈ edges, e.below.Sound productions Stands origin) :
      Sound productions Stands origin (.node state stop edges)

/-- An edge that ends at an offset. -/
def Edge.Sound (productions : Array Production) (Stands : Standing) (origin stop : Nat)
    (e : Edge Stack) : Prop :=
  e.tree.Reads productions Stands e.below.stop stop ∧ e.below.Sound productions Stands origin

/-- Stacks that have come to an offset. -/
def FrontierSound (productions : Array Production) (Stands : Standing) (origin stop : Nat)
    (frontier : List Stack) : Prop :=
  ∀ s ∈ frontier, s.stop = stop ∧ s.Sound productions Stands origin

/-- A path along a stack that has come to an offset. -/
structure Stack.Path.Sound (productions : Array Production) (Stands : Standing) (origin stop : Nat)
    (path : Stack.Path) : Prop where
  /-- It has a part. -/
  ne_nil : path.parts ≠ []
  /-- Its parts read the text up to the offset. -/
  reads : ReadsAll productions Stands path.parts path.base.stop stop
  /-- What lies below it is sound. -/
  base : path.base.Sound productions Stands origin

theorem Stack.sound_node {state : State} {stop : Nat} {edges : List (Edge Stack)}
    (hne : edges ≠ []) (h : ∀ e ∈ edges, e.Sound productions Stands origin stop) :
    (Stack.node state stop edges).Sound productions Stands origin :=
  .node (fun hnil => absurd hnil hne) (fun e he => (h e he).1) fun e he => (h e he).2

theorem Stack.Sound.edge {s : Stack} (h : s.Sound productions Stands origin) {e : Edge Stack}
    (he : e ∈ s.edges) : e.Sound productions Stands origin s.stop := by
  cases h with
  | node _ htree hbelow => exact ⟨htree e he, hbelow e he⟩

theorem Stack.Sound.stop_of_edges_eq_nil {s : Stack} (h : s.Sound productions Stands origin)
    (hnil : s.edges = []) : s.stop = origin := by
  cases h with
  | node hbottom _ _ => exact hbottom hnil

theorem Edge.Sound.path {e : Edge Stack} {stop : Nat}
    (h : e.Sound productions Stands origin stop) :
    Stack.Path.Sound productions Stands origin stop ⟨[e.tree], e.weight, e.below⟩ :=
  ⟨by simp, readsAll_cons.mpr ⟨stop, h.1, rfl⟩, h.2⟩

/-- A path that goes further down reads the text from further up. -/
theorem Stack.Path.Sound.extend {stop n : Nat} {path path' : Stack.Path}
    (h : path.Sound productions Stands origin stop) (hmem : path' ∈ Stack.extend n path) :
    path'.Sound productions Stands origin stop := by
  induction n generalizing path with
  | zero =>
    obtain rfl := List.mem_singleton.mp hmem
    exact h
  | succ n ih =>
    obtain ⟨e, he, hmem⟩ := List.mem_flatMap.mp hmem
    have hedge := h.base.edge he
    exact ih ⟨by simp, readsAll_cons.mpr ⟨path.base.stop, hedge.1, h.reads⟩, hedge.2⟩ hmem

/-! ## The frontier -/

theorem Edge.mem_add {e f : Edge Stack} {edges : List (Edge Stack)} (h : f ∈ (e.add edges).1) :
    f = e ∨ f ∈ edges := by
  induction edges with
  | nil => simpa [Edge.add] using h
  | cons g rest ih =>
    rw [Edge.add] at h
    split_ifs at h
    · rcases List.mem_cons.mp h with rfl | h
      · exact .inl rfl
      · exact .inr (List.mem_cons_of_mem _ h)
    · exact .inr h
    · rcases List.mem_cons.mp h with rfl | h
      · exact .inr List.mem_cons_self
      · exact (ih h).imp_right (List.mem_cons_of_mem _)

theorem Edge.add_ne_nil (e : Edge Stack) (edges : List (Edge Stack)) : (e.add edges).1 ≠ [] := by
  cases edges with
  | nil => simp [Edge.add]
  | cons g rest =>
    rw [Edge.add]
    split_ifs <;> simp

section Frontier

variable {stop : Nat} {state : State} {e : Edge Stack} {frontier : List Stack}

theorem FrontierSound.addEdge (h : FrontierSound productions Stands origin stop frontier)
    (he : e.Sound productions Stands origin stop) :
    FrontierSound productions Stands origin stop (addEdge stop state e frontier).1 := by
  induction frontier with
  | nil =>
    intro s hs
    obtain rfl := List.mem_singleton.mp hs
    exact ⟨rfl, Stack.sound_node (by simp) (by simpa using he)⟩
  | cons t rest ih =>
    obtain ⟨⟨hstop, ht⟩, hrest⟩ := List.forall_mem_cons.mp h
    rw [Parsing.addEdge]
    split_ifs
    · refine List.forall_mem_cons.mpr ⟨⟨rfl, ?_⟩, hrest⟩
      refine Stack.sound_node (Edge.add_ne_nil _ _) fun f hf => ?_
      rcases Edge.mem_add hf with rfl | hf
      · exact he
      · exact hstop ▸ ht.edge hf
    · exact List.forall_mem_cons.mpr ⟨⟨hstop, ht⟩, ih hrest⟩

theorem mem_allEdges (h : FrontierSound productions Stands origin stop frontier)
    (hmem : (state, e) ∈ Tables.allEdges frontier) : e.Sound productions Stands origin stop := by
  obtain ⟨s, hs, hmem⟩ := List.mem_flatMap.mp hmem
  obtain ⟨f, hf, heq⟩ := List.mem_map.mp hmem
  obtain ⟨rfl, rfl⟩ := Prod.mk.inj heq
  obtain ⟨rfl, hsound⟩ := h s hs
  exact hsound.edge hf

end Frontier

namespace Tables

variable {tables : Tables} {stop terminal : Nat} {state : State} {e : Edge Stack}

/-- **A completed production reads what its parts read.** -/
theorem sound_of_complete? {production : Nat} {path : Stack.Path}
    (hpath : path.Sound tables.productions Stands origin stop)
    (h : tables.complete? production path = some (state, e)) :
    e.Sound tables.productions Stands origin stop := by
  rw [complete?] at h
  split_ifs at h with hparts
  obtain ⟨-, rfl⟩ := Prod.mk.inj (Option.some.inj h)
  exact ⟨⟨hpath.ne_nil, hparts, hpath.reads⟩, hpath.base⟩

theorem sound_of_mem_completions {from' : State} {f : Edge Stack}
    (hf : f.Sound tables.productions Stands origin stop)
    (h : (state, e) ∈ tables.completions terminal from' f) :
    e.Sound tables.productions Stands origin stop := by
  obtain ⟨p, -, h⟩ := List.mem_flatMap.mp h
  obtain ⟨path, hpath, h⟩ := List.mem_filterMap.mp h
  exact sound_of_complete? (hf.path.extend hpath) h

/-- **Completing productions keeps all stacks sound.** -/
theorem frontierSound_saturate {fuel : Nat} {todo : List (State × Edge Stack)}
    {frontier : List Stack} (h : FrontierSound tables.productions Stands origin stop frontier)
    (htodo : ∀ p ∈ todo, p.2.Sound tables.productions Stands origin stop) :
    FrontierSound tables.productions Stands origin stop
      (tables.saturate terminal stop fuel todo frontier) := by
  induction fuel generalizing todo frontier with
  | zero => exact h
  | succ fuel ih =>
    cases todo with
    | nil => exact h
    | cons p todo =>
      obtain ⟨hp, htodo⟩ := List.forall_mem_cons.mp htodo
      rw [saturate]
      generalize hr : List.foldl _ (todo, frontier) _ = r
      -- one round: all that is put on the list or into the frontier ends at the same offset
      have hround : (∀ q ∈ r.1, q.2.Sound tables.productions Stands origin stop)
          ∧ FrontierSound tables.productions Stands origin stop r.2 := by
        rw [← hr]
        refine List.foldlRecOn (motive := fun r : List (State × Edge Stack) × List Stack =>
          (∀ q ∈ r.1, q.2.Sound tables.productions Stands origin stop)
            ∧ FrontierSound tables.productions Stands origin stop r.2) _ _ ⟨htodo, h⟩ ?_
        rintro ⟨todo, frontier⟩ ⟨htodo, hfrontier⟩ q hq
        have hedge := sound_of_mem_completions hp hq
        refine ⟨?_, hfrontier.addEdge hedge⟩
        dsimp only
        split_ifs
        · exact List.forall_mem_cons.mpr ⟨hedge, htodo⟩
        · exact htodo
      exact ih hround.2 hround.1

/-- **A token is read behind the stacks that have come to it.** -/
theorem sound_of_mem_read {token : Token} {stop' : Nat} {frontier : List Stack}
    (h : FrontierSound tables.productions Stands origin stop frontier)
    (htoken : Stands stop stop' token) (hmem : (state, e) ∈ tables.read token stop frontier) :
    e.Sound tables.productions Stands origin stop' := by
  obtain ⟨s, hs, hshift⟩ := List.mem_filterMap.mp hmem
  obtain ⟨rfl, hsound⟩ := frontierSound_saturate h (fun p hp => mem_allEdges h hp) s hs
  rw [shift?] at hshift
  split_ifs at hshift
  obtain ⟨-, rfl⟩ := Prod.mk.inj (Option.some.inj hshift)
  exact ⟨htoken, hsound⟩

end Tables

/-! ## Places -/

section Places

variable {At : Nat → List Char → Prop} {tables : Tables} {next : Tokenizer}

/-- The tokenizer takes the next token from where it is. -/
def Tokenizer.Sound (Stands : Standing) (At : Nat → List Char → Prop) (next : Tokenizer) : Prop :=
  ∀ expected offset rest lexed, At offset rest → next expected offset rest = .ok lexed →
    Stands offset lexed.stop lexed.token ∧ At lexed.stop lexed.rest

/-- A place in the text with the stacks that have come to it. -/
def Front.Sound (productions : Array Production) (Stands : Standing) (At : Nat → List Char → Prop)
    (origin : Nat) (front : Front) : Prop :=
  At front.stop front.rest ∧ FrontierSound productions Stands origin front.stop front.tops

/-- Stacks go together by the token that one of them takes. -/
theorem Front.sound_byToken {front : Front} (hnext : next.Sound Stands At)
    (h : front.Sound tables.productions Stands At origin) :
    ∀ group ∈ front.byToken tables next,
      Stands front.stop group.1.stop group.1.token ∧ At group.1.stop group.1.rest
        ∧ FrontierSound tables.productions Stands origin front.stop group.2 := by
  rw [Front.byToken]
  refine List.foldlRecOn (motive := fun groups : List (Lexed × List Stack) => ∀ group ∈ groups,
    Stands front.stop group.1.stop group.1.token ∧ At group.1.stop group.1.rest
      ∧ FrontierSound tables.productions Stands origin front.stop group.2) _ _ (by simp) ?_
  intro groups hgroups s hs
  have hone : FrontierSound tables.productions Stands origin front.stop [s] :=
    List.forall_mem_singleton.mpr (h.2 s hs)
  split
  · exact hgroups
  · next lexed hlexed =>
    have htoken := hnext _ _ _ _ h.1 hlexed
    split_ifs
    · intro group hgroup
      obtain ⟨old, hold, rfl⟩ := List.mem_map.mp hgroup
      obtain ⟨hstands, hat, htops⟩ := hgroups old hold
      split_ifs
      · exact ⟨hstands, hat, List.forall_mem_append.mpr ⟨htops, hone⟩⟩
      · exact ⟨hstands, hat, htops⟩
    · refine List.forall_mem_append.mpr ⟨hgroups, List.forall_mem_singleton.mpr ?_⟩
      exact ⟨htoken.1, htoken.2, hone⟩

theorem Front.sound_insert {lexed : Lexed} {state : State} {e : Edge Stack} {fronts : List Front}
    (h : ∀ f ∈ fronts, f.Sound productions Stands At origin) (hat : At lexed.stop lexed.rest)
    (he : e.Sound productions Stands origin lexed.stop) :
    ∀ f ∈ Front.insert lexed state e fronts, f.Sound productions Stands At origin := by
  have hnew : Front.Sound productions Stands At origin
      ⟨lexed.stop, lexed.rest, [.node state lexed.stop [e]]⟩ :=
    ⟨hat, List.forall_mem_singleton.mpr ⟨rfl, Stack.sound_node (by simp) (by simpa using he)⟩⟩
  induction fronts with
  | nil => exact List.forall_mem_singleton.mpr hnew
  | cons f fronts ih =>
    obtain ⟨hf, hfronts⟩ := List.forall_mem_cons.mp h
    rw [Front.insert]
    split_ifs with hlt heq
    · exact List.forall_mem_cons.mpr ⟨hnew, h⟩
    · exact List.forall_mem_cons.mpr ⟨⟨hf.1, hf.2.addEdge (heq ▸ he)⟩, hfronts⟩
    · exact List.forall_mem_cons.mpr ⟨hf, ih hfronts⟩

end Places

namespace Language

variable {language : Language} {At : Nat → List Char → Prop}

theorem mem_of_best {readings : List (Derivation × Int)} {tree : Derivation}
    (h : best readings = some tree) : ∃ weight, (tree, weight) ∈ readings := by
  cases readings with
  | nil => cases h
  | cons r rest =>
    obtain rfl := Option.some.inj h
    refine ⟨_, List.foldlRecOn (motive := (· ∈ r :: rest)) rest _ List.mem_cons_self ?_⟩
    intro b hb c hc
    split_ifs
    · exact List.mem_cons_of_mem _ hc
    · exact hb

/-- **What the parser takes for the whole text** is a production of the whole text, which reads it
from the start on. -/
theorem reads_of_mem_wholes {e : Edge Stack} {stop : Nat} {tree : Derivation} {weight : Int}
    (he : e.Sound language.tables.productions Stands origin stop)
    (h : (tree, weight) ∈ language.wholes e) :
    ∃ p ∈ language.starts, ∃ parts, tree = .node p parts
      ∧ tree.Reads language.tables.productions Stands origin stop := by
  obtain ⟨p, hp, h⟩ := List.mem_flatMap.mp h
  obtain ⟨path, hpath, h⟩ := List.mem_filterMap.mp h
  have hsound := he.path.extend hpath
  split_ifs at h with hwhole
  obtain ⟨rfl, -⟩ := Prod.mk.inj (Option.some.inj h)
  rw [Bool.and_eq_true, decide_eq_true_eq, List.isEmpty_iff] at hwhole
  obtain ⟨hbottom, hparts⟩ := hwhole
  refine ⟨p, hp, path.parts, rfl, hsound.ne_nil, hparts, ?_⟩
  exact hsound.base.stop_of_edges_eq_nil hbottom ▸ hsound.reads

/-- **Reading on keeps all places sound**, so a reading of the whole text reads it. -/
theorem run_reads (hnext : language.next.Sound Stands At) {fuel : Nat} {front : Front}
    {later : List Front} {tree : Derivation}
    (hfront : front.Sound language.tables.productions Stands At origin)
    (hlater : ∀ f ∈ later, f.Sound language.tables.productions Stands At origin)
    (h : language.run fuel front later = .ok tree) :
    ∃ p ∈ language.starts, ∃ parts stop, tree = .node p parts
      ∧ tree.Reads language.tables.productions Stands origin stop := by
  induction fuel generalizing front later with
  | zero => cases h
  | succ fuel ih =>
    rw [run] at h
    generalize hnew : List.flatMap _ (front.byToken language.tables language.next) = new at h
    have hsound : ∀ q ∈ new, At q.1.stop q.1.rest
        ∧ q.2.2.Sound language.tables.productions Stands origin q.1.stop := by
      rw [← hnew]
      intro q hq
      obtain ⟨group, hgroup, hq⟩ := List.mem_flatMap.mp hq
      obtain ⟨read, hread, rfl⟩ := List.mem_map.mp hq
      obtain ⟨hstands, hat, htops⟩ := Front.sound_byToken hnext hfront group hgroup
      exact ⟨hat, Tables.sound_of_mem_read htops hstands hread⟩
    split at h
    · next best hbest =>
      obtain rfl := Except.ok.inj h
      obtain ⟨weight, hmem⟩ := mem_of_best hbest
      obtain ⟨q, hq, hmem⟩ := List.mem_flatMap.mp hmem
      dsimp only at hmem
      split_ifs at hmem
      · obtain ⟨p, hp, parts, htree, hreads⟩ := reads_of_mem_wholes (hsound q hq).2 hmem
        exact ⟨p, hp, parts, _, htree, hreads⟩
      · cases hmem
    · generalize hfronts : List.foldl _ later _ = fronts at h
      have hplaces : ∀ f ∈ fronts, f.Sound language.tables.productions Stands At origin := by
        rw [← hfronts]
        refine List.foldlRecOn (motive := fun fronts : List Front =>
          ∀ f ∈ fronts, f.Sound language.tables.productions Stands At origin) _ _ hlater ?_
        intro fronts hfronts q hq
        exact Front.sound_insert hfronts (hsound q hq).1 (hsound q hq).2
      cases fronts with
      | nil => cases h
      | cons front later =>
        obtain ⟨hfront, hlater⟩ := List.forall_mem_cons.mp hplaces
        exact ih hfront hlater h

/-- **A text that is parsed is read by the derivation**, from its first offset on, as a production of
the whole text. -/
theorem parse_reads (hnext : language.next.Sound Stands At) {text : List Char} {tree : Derivation}
    (hat : At origin text) (h : language.parse origin text = .ok tree) :
    ∃ p ∈ language.starts, ∃ parts stop, tree = .node p parts
      ∧ tree.Reads language.tables.productions Stands origin stop := by
  have hbottom : Stack.Sound language.tables.productions Stands origin
      (.node (language.tables.initial language.starts) origin []) :=
    .node (fun _ => rfl) (by simp) (by simp)
  have hfront : Front.Sound language.tables.productions Stands At origin
      ⟨origin, text, [.node (language.tables.initial language.starts) origin []]⟩ :=
    ⟨hat, List.forall_mem_singleton.mpr ⟨rfl, hbottom⟩⟩
  exact run_reads hnext hfront (by simp) h

end Language

end TestCatalog.Parsing
