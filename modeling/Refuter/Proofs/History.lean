import Refuter.Proofs.Entailment
import Refuter.Proofs.Queries
import Refuter.Proofs.Rendering

/-! # Queries do not depend on earlier ones

An engine keeps its base. Its builder changes with every query, also with one that is
refused, so the same query gets other names the second time.

- The builder of a new engine knows all terms of the base, and it stays so
  (`Engine.Clear`): what it hands out is never mistaken for a term of the base.
- Two negated queries that differ in new terms only are renamings of one another, and the
  renaming leaves the base alone. Names do not matter to a search.

**Key result.** After any history a query is decided as by a new engine, in the same passes
and by the same steps; the clauses derived differ in the names made for the query only
(`queries_independent`).
-/

namespace Refuter

open Sentence

/-! ### Names in the text of a clause -/

theorem isWordName_numbered (n : Nat) : IsWordName (numberedName "Sk" n) := by
  rw [IsWordName, numberedName, String.toList_append]
  refine ⟨by simp, fun c hc => ?_⟩
  rcases List.mem_append.1 hc with hc | hc
  · simp at hc
    rcases hc with rfl | rfl <;> decide
  · rw [String.toList_ofList] at hc
    have hdigit : c.isDigit = true :=
      Nat.isDigit_of_mem_toDigits (b := 10) (by decide) (by decide) hc
    simp [isWord, Char.isAlphanum, hdigit]

/-- An argument that is a word is written in the text of its literal. -/
theorem Literal.written_text {l : Literal} {t : Term} (ht : t ∈ l.args) (hname : IsWordName t.name) :
    Written l.text.toList t.name := by
  have hargs : l.args.isEmpty = false := by
    rw [Bool.eq_false_iff, ne_eq, List.isEmpty_iff]
    exact List.ne_nil_of_mem ht
  obtain ⟨front, behind, heq, hfront, hbehind⟩ := intercalate_decompose [',', ' ']
    (List.mem_map_of_mem (f := fun t : Term => t.name.toList) ht)
  -- the characters next to the name
  obtain ⟨start, a, ha, hstart⟩ : ∃ start a, isWord a = false ∧ '(' :: front = start ++ [a] := by
    rcases hfront with rfl | ⟨start, rfl⟩
    · exact ⟨[], '(', by decide, rfl⟩
    · exact ⟨'(' :: start ++ [','], ' ', by decide, by simp⟩
  obtain ⟨b, rest, hb, hrest⟩ : ∃ b rest, isWord b = false ∧ behind ++ [')'] = b :: rest := by
    rcases hbehind with rfl | ⟨rest, rfl⟩
    · exact ⟨')', [], by decide, rfl⟩
    · exact ⟨',', ' ' :: rest ++ [')'], by decide, by simp⟩
  have hspell : Sentence.spellArgs l.args = start ++ (a :: (t.name.toList ++ [b])) ++ rest := by
    calc Sentence.spellArgs l.args
        = '(' :: (front ++ t.name.toList ++ behind ++ [')']) := by
          rw [Sentence.spellArgs, hargs, if_neg Bool.false_ne_true, heq]
      _ = ('(' :: front) ++ t.name.toList ++ (behind ++ [')']) := by simp
      _ = start ++ (a :: (t.name.toList ++ [b])) ++ rest := by rw [hstart, hrest]; simp
  refine ⟨hname, a, b, ha, hb, ?_⟩
  rw [Sentence.toList_text, hspell]
  have hin : a :: (t.name.toList ++ [b]) <:+: start ++ (a :: (t.name.toList ++ [b])) ++ rest :=
    ⟨start, rest, rfl⟩
  exact hin.trans ((List.suffix_append _ _).trans (List.suffix_append _ _)).isInfix

theorem Clause.written_text {c : Clause} {t : Term} (ht : t ∈ c.terms) (hname : IsWordName t.name) :
    Written c.text.toList t.name := by
  obtain ⟨l, hl, htl⟩ := mem_terms.1 ht
  refine (Literal.written_text htl hname).within ?_
  have hne : c.literals.isEmpty = false := by
    rw [Bool.eq_false_iff, ne_eq, List.isEmpty_iff]
    exact List.ne_nil_of_mem hl
  rw [text, hne, if_neg Bool.false_ne_true, String.toList_intercalate]
  obtain ⟨front, behind, heq, _⟩ := intercalate_decompose " ∨ ".toList
    (List.mem_map_of_mem (f := String.toList) (List.mem_map_of_mem (f := Literal.text) hl))
  exact ⟨front, behind, heq.symm⟩

/-! ### Builders that know the base -/

namespace Engine

/-- The clauses of the base carry different numbers, and the builder hands out none of
    their terms. -/
structure Clear (engine : Engine) : Prop where
  /-- Different clauses, different numbers. -/
  distinct : (engine.base.map (·.id)).Nodup
  /-- The terms of the base are known. -/
  known : ∀ c ∈ engine.base, ∀ t ∈ c.toClause.terms, engine.builder.Knows t

/-- One clause after the other is noted, and none is forgotten. -/
theorem foldl_noted (clauses : List NumberedClause) : ∀ b : Builder,
    let b' := clauses.foldl (fun builder c =>
      { builder with supply := builder.supply.reserve c.toClause.vars }.noteSymbols
        c.toClause.text.toList) b
    (b.supply.reserved ⊆ b'.supply.reserved ∧ b.symbols ⊆ b'.symbols) ∧
      ∀ c ∈ clauses, c.toClause.vars ⊆ b'.supply.reserved ∧
        words c.toClause.text.toList ⊆ b'.symbols := by
  induction clauses with
  | nil => exact fun b => ⟨⟨List.Subset.refl _, List.Subset.refl _⟩, by simp⟩
  | cons c rest ih =>
    intro b
    obtain ⟨⟨hreserved, hsymbols⟩, hrest⟩ := ih
      ({ b with supply := b.supply.reserve c.toClause.vars }.noteSymbols c.toClause.text.toList)
    have hnoted : ∀ name, name ∈ b.supply.reserved ∨ name ∈ c.toClause.vars →
        name ∈ ({ b with supply := b.supply.reserve c.toClause.vars }.noteSymbols
          c.toClause.text.toList).supply.reserved := fun name h => Finite.mem_insertAll.2 h
    have hnamed : ∀ name, name ∈ b.symbols ∨ name ∈ words c.toClause.text.toList →
        name ∈ ({ b with supply := b.supply.reserve c.toClause.vars }.noteSymbols
          c.toClause.text.toList).symbols := fun name h => Builder.mem_noteSymbols.2 h
    refine ⟨⟨fun name h => hreserved (hnoted name (.inl h)),
      fun name h => hsymbols (hnamed name (.inl h))⟩, List.forall_mem_cons.2 ⟨⟨?_, ?_⟩, hrest⟩⟩
    · exact fun name h => hreserved (hnoted name (.inr h))
    · exact fun name h => hsymbols (hnamed name (.inr h))

/-- **An engine of clauses** knows their terms. -/
theorem clear_ofClauses {clauses : List LabelledClause} {loop : Loop}
    (h : ((number clauses).map (·.id)).Nodup) : (ofClauses clauses loop none).Clear := by
  refine ⟨h, fun c hc t ht => ?_⟩
  obtain ⟨_, hall⟩ := foldl_noted (number clauses) {}
  obtain ⟨hvars, hwords⟩ := hall c hc
  cases t with
  | var x => exact .inl (hvars (Clause.mem_vars_iff.2 ht))
  | const k =>
    by_cases hk : ∃ n, k = numberedName "Sk" n
    · obtain ⟨n, rfl⟩ := hk
      have hwritten : Written c.toClause.text.toList (Term.const (numberedName "Sk" n)).name :=
        Clause.written_text ht (isWordName_numbered n)
      exact .inl (hwords (mem_words_of_written hwritten))
    · exact .inr fun n hn => hk ⟨n, hn⟩

end Engine

namespace Build

/-- Computations in a row only add to what the builder knows, and what each has made sure
    of holds at the end. -/
theorem mapM_grows {α β : Type} {f : α → Build β} {P : Builder → β → Prop}
    (hkeep : ∀ {b b' x}, b.Grows b' → P b x → P b' x)
    (hstep : ∀ {a b b' x}, f a b = (.ok x, b') → b.Grows b' ∧ P b' x) (l : List α) :
    ∀ {b b' xs}, l.mapM f b = (.ok xs, b') → b.Grows b' ∧ ∀ x ∈ xs, P b' x := by
  induction l with
  | nil =>
    intro b b' xs h
    rw [List.mapM_nil] at h
    obtain ⟨rfl, rfl⟩ := pure_eq_ok h
    exact ⟨.refl _, by simp⟩
  | cons a rest ih =>
    intro b b' xs h
    rw [List.mapM_cons] at h
    obtain ⟨x, b₁, hx, h⟩ := bind_ok_iff.1 h
    obtain ⟨xs', hxs, rfl⟩ := bind_pure_ok_iff.1 h
    obtain ⟨hgrows, hP⟩ := hstep hx
    obtain ⟨hgrows', hall⟩ := ih hxs
    exact ⟨hgrows.trans hgrows', List.forall_mem_cons.2 ⟨hkeep hgrows' hP, hall⟩⟩

/-- **Each constant of a sentence** is spelled by its text or was made for it. -/
theorem sentence_constants {s : String} {b b' : Builder} {cs : List Clause}
    (h : sentence s b = (.ok cs, b')) :
    ∃ text, Sentence.normalize s = .ok text ∧ (b.noteSymbols text).Grows b' ∧
      ∀ c ∈ cs, ∀ k, Term.const k ∈ c.terms →
        HasArgument text (.const k) ∨ k ∉ (b.noteSymbols text).symbols ∧ k ∈ b'.symbols := by
  obtain ⟨text, F, hnorm, ⟨hparse, _⟩, rfl, rfl⟩ := sentence_ok_iff.1 h
  refine ⟨text, hnorm, Builder.grows_bindAll (F.skolems .existential)
    { builder := b.noteSymbols text }, fun c hc k hk => ?_⟩
  obtain ⟨ls, hls, rfl⟩ := List.mem_map.1 hc
  refine (Scope.const_mem_skolemized hk).imp_left fun hmem => ?_
  -- a constant of the formula stands in one of its literals
  obtain ⟨l, hl, hkl⟩ := Clause.mem_terms.1 hmem
  obtain ⟨l', hl', hargs⟩ := Formula.args_of_mem_clauses hls hl
  exact parse_hasArgument hparse l' hl' (.const k) (hargs ▸ hkl)

/-- The constants of a sentence are known when it is converted. -/
theorem sentence_known {s : String} {b b' : Builder} {cs : List Clause}
    (h : sentence s b = (.ok cs, b')) :
    b.Grows b' ∧ ∀ c ∈ cs, ∀ k, Term.const k ∈ c.terms → k ∈ b'.symbols := by
  obtain ⟨text, _, hgrows, hconsts⟩ := sentence_constants h
  refine ⟨(b.grows_noteSymbols text).trans hgrows, fun c hc k hk => ?_⟩
  rcases hconsts c hc k hk with hargument | ⟨_, hmade⟩
  · exact hgrows.symbols (Builder.mem_noteSymbols.2 (.inr (mem_words_of_written hargument.written)))
  · exact hmade

/-- **Sentences are known when they are converted,** and their clauses carry different
    numbers. -/
theorem sentences_known {texts : List String} {clauses : List NumberedClause} {b b' : Builder}
    (h : sentences texts b = (.ok clauses, b')) :
    (clauses.map (·.id)).Nodup ∧ ∀ c ∈ clauses, ∀ t ∈ c.toClause.terms, b'.Knows t := by
  rw [sentences] at h
  obtain ⟨_, b₁, _, h⟩ := bind_ok_iff.1 h
  obtain ⟨lists, b₂, hlists, h⟩ := bind_ok_iff.1 h
  obtain ⟨renamed, hrenamed, rfl⟩ := bind_pure_ok_iff.1 h
  obtain ⟨_, hconsts⟩ := mapM_grows
    (P := fun b cs => ∀ c ∈ cs, ∀ k, Term.const k ∈ c.terms → k ∈ b.symbols)
    (fun hgrows hall c hc k hk => hgrows.symbols (hall c hc k hk)) sentence_known texts hlists
  obtain ⟨renamed', supply, hrun, hall, hgrows, hvars⟩ := mapM_standardize lists.flatten b₂
  obtain ⟨rfl, rfl⟩ : renamed' = renamed ∧ { b₂ with supply } = b' := by
    have := hrun.symm.trans hrenamed
    exact ⟨Except.ok.inj (Prod.mk.inj this).1, (Prod.mk.inj this).2⟩
  refine ⟨nodup_numberedFromOne _, (forall_numberedFromOne
    (P := fun c => ∀ t ∈ c.terms, Builder.Knows { b₂ with supply } t)).2 fun c hc t ht => ?_⟩
  cases t with
  | var x =>
    obtain ⟨n, hn, hx⟩ := hvars c hc x (Clause.mem_vars_iff.2 ht)
    exact .inr ⟨n, hn, hx.trans (congrArg (numberedName · n) hgrows.stem.symm)⟩
  | const k =>
    obtain ⟨c', hc', hvariant⟩ := forall₂_mem_right hall hc
    obtain ⟨cs, hcs, hmem⟩ := List.mem_flatten.1 hc'
    exact .inl (hconsts cs hcs c' hmem k ((hvariant.const_mem_iff k).2 ht))

end Build

namespace Engine

/-- **An engine of sentences** knows what it has converted. -/
theorem clear_ofSentences {texts : List String} {clauses : List NumberedClause} {loop : Loop}
    {builder : Builder} (h : Build.sentences texts {} = (.ok clauses, builder)) :
    (ofSentences clauses loop builder).Clear := by
  obtain ⟨hdistinct, hknown⟩ := Build.sentences_known h
  refine ⟨by rwa [base_ofSentences], fun c hc => ?_⟩
  rw [base_ofSentences] at hc
  exact hknown c hc

/-- An engine as it is made: of clauses with different numbers and without a builder, or of
    sentences with the builder that converts them. -/
inductive Made : Engine → Prop where
  /-- From clauses. -/
  | ofClauses {clauses : List LabelledClause} {loop : Loop}
      (distinct : ((number clauses).map (·.id)).Nodup) : Made (ofClauses clauses loop none)
  /-- From sentences. -/
  | ofSentences {texts : List String} {clauses : List NumberedClause} {loop : Loop}
      {builder : Builder} (converted : Build.sentences texts {} = (.ok clauses, builder)) :
      Made (ofSentences clauses loop builder)

theorem Made.clear {engine : Engine} (h : engine.Made) : engine.Clear := by
  cases h with
  | ofClauses distinct => exact clear_ofClauses distinct
  | ofSentences converted => exact clear_ofSentences converted

/-! ### Histories -/

/-- Decides a value that should be a query. An undecided search is an error. -/
def resolveValue (engine : Engine) (query : Json) : Engine × Except Error Bool :=
  let answer := engine.proveValue query
  (answer.engine, answer.result.bind (verdict engine.loop))

/-- A call on an engine. -/
inductive Call where
  /-- Prove a query. -/
  | prove (query : Json)
  /-- Decide a query. -/
  | resolve (query : Json)

/-- The engine after one call, whether it succeeds or fails. -/
def call (engine : Engine) : Call → Engine
  | .prove query => (engine.proveValue query).engine
  | .resolve query => (engine.resolveValue query).1

/-- The engine after calls, one after the other. -/
def after (engine : Engine) (history : List Call) : Engine :=
  history.foldl call engine

/-- An engine with the base and the loop of another, whose builder has learned since. -/
structure Keeps (engine engine' : Engine) : Prop where
  /-- The base is the same. -/
  base : engine'.base = engine.base
  /-- The loop is the same. -/
  loop : engine'.loop = engine.loop
  /-- Nothing is forgotten. -/
  builder : engine.builder.Grows engine'.builder

theorem Keeps.trans {e e' e'' : Engine} (h : e.Keeps e') (h' : e'.Keeps e'') : e.Keeps e'' :=
  ⟨h'.base.trans h.base, h'.loop.trans h.loop, h.builder.trans h'.builder⟩

theorem Keeps.clear {e e' : Engine} (h : e.Keeps e') (hclear : e.Clear) : e'.Clear :=
  ⟨h.base ▸ hclear.distinct, fun c hc t ht => h.builder.knows (hclear.known c (h.base ▸ hc) t ht)⟩

theorem keeps_prove (engine : Engine) (query : String) (trace : List Record := []) :
    engine.Keeps (engine.prove query trace).engine := by
  have hgrows := Build.negate_grows query engine.builder
  rw [prove]
  split
  · rename_i hneg
    exact ⟨rfl, rfl, by rwa [hneg] at hgrows⟩
  · rename_i negated builder hneg
    rw [hneg] at hgrows
    rw [search]
    -- however the search ends, only the status is entered
    split
    · exact ⟨rfl, rfl, hgrows⟩
    · dsimp only
      split
      · exact ⟨rfl, rfl, hgrows⟩
      · exact ⟨rfl, rfl, hgrows⟩

theorem keeps_proveValue (engine : Engine) (query : Json) (trace : List Record := []) :
    engine.Keeps (engine.proveValue query trace).engine := by
  unfold proveValue
  split
  · exact engine.keeps_prove _ trace
  · exact ⟨rfl, rfl, .refl _⟩

/-- **One call** keeps base and loop. -/
theorem keeps_call (engine : Engine) (c : Call) : engine.Keeps (engine.call c) := by
  cases c with
  | prove query => exact engine.keeps_proveValue query
  | resolve query => exact engine.keeps_proveValue query

/-- **A history** keeps base and loop. -/
theorem keeps_after (history : List Call) : ∀ engine : Engine, engine.Keeps (engine.after history) := by
  induction history with
  | nil => exact fun engine => ⟨rfl, rfl, .refl _⟩
  | cons c rest ih => exact fun engine => (engine.keeps_call c).trans (ih (engine.call c))

end Engine

/-! ### Two negations of one query -/

theorem Clause.termsIn_iff {T : Set Term} {c : Clause} : c.TermsIn T ↔ ∀ t ∈ c.terms, t ∈ T := by
  simp only [TermsIn, mem_terms]
  exact ⟨fun h t ⟨l, hl, ht⟩ => h l hl t ht, fun h l hl t ht => h t ⟨l, hl, ht⟩⟩

/-- A renaming that keeps the terms of a clause keeps the clause. -/
theorem Renaming.numbered_eq_self {ρ : Renaming} {c : NumberedClause}
    (h : ∀ t ∈ c.toClause.terms, ρ.term t = t) : ρ.numbered c = c := by
  have hclause : ρ.clause c.toClause = c.toClause :=
    (Clause.mapTerms_eq_iff.2 h).trans (Clause.mapTerms_id c.toClause)
  rw [numbered, hclause]
  rfl

/-- **Different terms put in two ways:** new names lead from one way to the other and leave
    all other terms alone. -/
theorem exists_renaming_between {names : List String} {θ θ' : String → Term}
    (hinj : Set.InjOn θ {x | x ∈ names}) (hinj' : Set.InjOn θ' {x | x ∈ names})
    (hkind : ∀ x ∈ names, (θ' x).isVar = (θ x).isVar) :
    ∃ ρ : Renaming, (∀ x ∈ names, ρ.term (θ x) = θ' x) ∧
      ∀ t, (∀ x ∈ names, θ x ≠ t) → ρ.term t = t := by
  have hequal : ∀ x ∈ names, ∀ y ∈ names, θ x = θ y ↔ θ' x = θ' y := fun x hx y hy =>
    (hinj.eq_iff hx hy).trans (hinj'.eq_iff hx hy).symm
  -- variables and constants have names of their own
  have hone : ∀ kind : Bool, ∃ κ : String → String,
      (∀ x ∈ names, ∀ k, θ x = .ofKind kind k → θ' x = .ofKind kind (κ k)) ∧
      ∀ k, (∀ x ∈ names, θ x ≠ .ofKind kind k) → κ k = k := by
    intro kind
    have hofKind : ∀ k, (Term.ofKind kind k).isVar = kind := by cases kind <;> exact fun _ => rfl
    obtain ⟨κ, hκ, _, hother⟩ := exists_renaming {x | x ∈ names ∧ (θ x).isVar = kind} kind
      (fun x ⟨hx, hk⟩ => ⟨hk, (hkind x hx).trans hk⟩) fun x ⟨hx, _⟩ y ⟨hy, _⟩ => hequal x hx y hy
    exact ⟨κ, fun x hx k hk => hκ x ⟨hx, hk ▸ hofKind k⟩ k hk,
      fun k hk => hother k fun x ⟨hx, _⟩ => hk x hx⟩
  obtain ⟨g, hg, hgother⟩ := hone true
  obtain ⟨κ, hκ, hκother⟩ := hone false
  refine ⟨⟨g, κ⟩, fun x hx => ?_, fun t ht => ?_⟩
  · cases hθ : θ x with
    | var y => exact (hg x hx y hθ).symm
    | const k => exact (hκ x hx k hθ).symm
  · cases t with
    | var y => exact congrArg Term.var (hgother y ht)
    | const k => exact congrArg Term.const (hκother k ht)

/-- The terms that a builder makes to negate a query: they stand in the negated query, and
    neither does the builder know them nor are they written. -/
def Builder.Makes (b : Builder) (query : String) (negated : Clause) (t : Term) : Prop :=
  t ∈ negated.terms ∧ ∃ text, Sentence.normalize query = .ok text ∧ ¬ (b.noteSymbols text).Knows t

namespace Engine

/-- **Two engines with the same base** negate a query alike: the terms made for it have
    other names, and no other term has. -/
theorem Clear.exists_renaming {engine engine' : Engine} (hclear : engine.Clear)
    (hclear' : engine'.Clear) (hbase : engine'.base = engine.base) {query : String}
    {negated : Clause} {builder : Builder}
    (hneg : Build.negate query engine.builder = (.ok negated, builder)) :
    ∃ ρ : Renaming, (Build.negate query engine'.builder).1 = .ok (ρ.clause negated) ∧
      (∀ t, ρ.term t ≠ t → engine.builder.Makes query negated t) ∧
      (∀ c ∈ engine.base, ∀ t ∈ c.toClause.terms, ρ.term t = t) ∧
      Set.InjOn ρ.term {t | (∃ c ∈ engine.base, t ∈ c.toClause.terms) ∨ t ∈ negated.terms} := by
  obtain ⟨text, c, names, htext, hwritten, hall⟩ := Build.exists_negate hneg
  obtain ⟨θ, hrun, hinj, hnew⟩ := hall engine.builder
  obtain ⟨θ', hrun', hinj', hnew'⟩ := hall engine'.builder
  obtain rfl : c.mapTerms (Term.instantiate θ) = negated := by
    rw [hneg] at hrun
    exact (Except.ok.inj hrun).symm
  obtain ⟨ρ, hρ, hother⟩ := exists_renaming_between hinj hinj' fun x hx =>
    (hnew' x hx).2.trans (hnew x hx).2.symm
  -- what both builders know is not made by either
  have hfixed : ∀ t, (engine.builder.noteSymbols text).Knows t → ρ.term t = t :=
    fun t ht => hother t fun x hx hxt => (hnew x hx).1 (hxt ▸ ht)
  have hconst : ∀ b : Builder, ∀ k, Term.const k ∈ c.terms → (b.noteSymbols text).Knows (.const k) :=
    fun b k hk => .inl (Builder.mem_noteSymbols.2 (.inr (hwritten k hk)))
  have hbaseKnown : ∀ d ∈ engine.base, ∀ t ∈ d.toClause.terms,
      (engine.builder.noteSymbols text).Knows t ∧ (engine'.builder.noteSymbols text).Knows t := by
    intro d hd t ht
    exact ⟨(engine.builder.grows_noteSymbols text).knows (hclear.known d hd t ht),
      (engine'.builder.grows_noteSymbols text).knows (hclear'.known d (hbase ▸ hd) t ht)⟩
  have hterms : ∀ t, t ∈ (c.mapTerms (Term.instantiate θ)).terms ↔
      ∃ u ∈ c.terms, u.instantiate θ = t := fun t => by
    rw [Clause.terms_mapTerms, List.mem_map]
  refine ⟨ρ, ?_, fun t ht => ?_, fun d hd t ht => hfixed t (hbaseKnown d hd t ht).1, ?_⟩
  · have hclause : c.mapTerms (Term.instantiate θ') = ρ.clause (c.mapTerms (Term.instantiate θ)) := by
      refine (Clause.mapTerms_eq_iff.2 fun t ht => ?_).trans (Clause.mapTerms_mapTerms _ _ c).symm
      cases t with
      | var x => exact (hρ x (Clause.mem_vars_iff.2 ht)).symm
      | const k => exact (hfixed _ (hconst _ k ht)).symm
    rw [hrun', hclause]
  · obtain ⟨x, hx, rfl⟩ : ∃ x ∈ c.vars, θ x = t := by
      by_contra hnone
      exact ht (hother t fun x hx hxt => hnone ⟨x, hx, hxt⟩)
    exact ⟨(hterms _).2 ⟨.var x, Clause.mem_vars_iff.1 hx, rfl⟩, text, htext, (hnew x hx).1⟩
  · -- a term of either kind: known to both builders, or made by both
    have hcases : ∀ t, ((∃ d ∈ engine.base, t ∈ d.toClause.terms) ∨
        t ∈ (c.mapTerms (Term.instantiate θ)).terms) →
          (ρ.term t = t ∧ (engine'.builder.noteSymbols text).Knows t) ∨ ∃ x ∈ c.vars, θ x = t := by
      rintro t (⟨d, hd, ht⟩ | ht)
      · exact .inl ⟨hfixed t (hbaseKnown d hd t ht).1, (hbaseKnown d hd t ht).2⟩
      · obtain ⟨u, hu, rfl⟩ := (hterms t).1 ht
        cases u with
        | var x => exact .inr ⟨x, Clause.mem_vars_iff.2 hu, rfl⟩
        | const k => exact .inl ⟨hfixed _ (hconst _ k hu), hconst _ k hu⟩
    intro t ht u hu htu
    rcases hcases t ht with ⟨hft, hkt⟩ | ⟨x, hx, rfl⟩ <;>
      rcases hcases u hu with ⟨hfu, hku⟩ | ⟨y, hy, rfl⟩
    · rw [← hft, htu, hfu]
    · rw [hft, hρ y hy] at htu
      exact absurd (htu ▸ hkt) (hnew' y hy).1
    · rw [hfu, hρ x hx] at htu
      exact absurd (htu ▸ hku) (hnew' x hx).1
    · rw [hρ x hx, hρ y hy] at htu
      rw [hinj' hx hy htu]

/-! ### A query after a history -/

/-- Base and negated query under new names, if the base keeps its own. -/
theorem opening_renamed {ρ : Renaming} {T : Set Term} (hρ : Set.InjOn ρ.term T)
    {base : List NumberedClause} (hbase : ∀ c ∈ base, c.toClause.TermsIn T)
    (hfixed : ∀ c ∈ base, ρ.numbered c = c) {negated : Clause} (hneg : negated.TermsIn T)
    (query : String) :
    (opening base query negated).Renamed ρ (opening base query (ρ.clause negated)) := by
  have hinitial : ρ.workingSet (.initial base) = .initial base := by
    have hmap : base.map ρ.numbered = base :=
      (List.map_congr_left hfixed).trans base.map_id
    simp only [Renaming.workingSet, WorkingSet.initial, hmap]
  have hcontains : (WorkingSet.initial base).contains (ρ.clause negated)
      = (WorkingSet.initial base).contains negated := by
    have hrenamed : (ρ.workingSet (.initial base)).contains (ρ.clause negated)
        = (WorkingSet.initial base).contains negated := contains_rename hρ hbase hneg
    rwa [hinitial] at hrenamed
  refine ⟨?_, rfl, rfl, rfl⟩
  show start base (ρ.clause negated) = ρ.workingSet (start base negated)
  cases hcon : (WorkingSet.initial base).contains negated with
  | true =>
    rw [start_of_contains hcon, start_of_contains (hcontains.trans hcon), hinitial]
  | false =>
    rw [start_of_not_contains hcon, start_of_not_contains (hcontains.trans hcon),
      ← join_rename, hinitial]

/-- An accepted query has a derivation, that of its search. -/
theorem prove_eq_ok {engine : Engine} (hclear : engine.Clear) {query : String} {negated : Clause}
    (hneg : (Build.negate query engine.builder).1 = .ok negated) :
    (engine.prove query).result
      = .ok (engine.loop.run (opening engine.base query negated)).derivation := by
  have hrun : Build.negate query engine.builder
      = (.ok negated, (Build.negate query engine.builder).2) := Prod.ext hneg rfl
  rw [result_prove engine hclear.distinct hrun]
  rcases engine.loop.run_cases (d := opening engine.base query negated) rfl with
    ⟨_, hrun⟩ | ⟨_, _, _, _, _, _, _, _, hrun⟩
  · rw [hrun]
    rfl
  · rw [hrun]
    rfl

end Engine

/-- The numbers of the clauses of a step: left, right and derived. -/
def Step.ids (s : Step) : Int × Int × Int :=
  (s.left.id, s.right.id, s.resolvent.id)

/-- **Queries are independent of history.** Calls leave the base alone. A query that is
    accepted at first is accepted after them and decided alike, by as many passes and by
    steps between the same clauses. The clauses at the end are the same up to a one-to-one
    renaming of the terms that are made to negate the query. -/
theorem queries_independent {engine : Engine} (hmade : engine.Made) (history : List Engine.Call) :
    (engine.after history).base = engine.base ∧
    ∀ query negated builder, Build.negate query engine.builder = (.ok negated, builder) →
      ∃ (ρ : Renaming) (d d' : Derivation),
        (engine.prove query).result = .ok d ∧
        ((engine.after history).prove query).result = .ok d' ∧
        (Build.negate query (engine.after history).builder).1 = .ok (ρ.clause negated) ∧
        d'.outcome = d.outcome ∧ d'.passes = d.passes ∧ d'.length = d.length ∧
        d'.steps.map Step.ids = d.steps.map Step.ids ∧
        d'.working.clauses = d.working.clauses.map ρ.numbered ∧
        Set.InjOn ρ.term {t | ∃ c ∈ d.working.clauses, t ∈ c.toClause.terms} ∧
        ∀ t, ρ.term t ≠ t → engine.builder.Makes query negated t := by
  have hkeeps := Engine.keeps_after history engine
  have hclear := hmade.clear
  have hclear' := hkeeps.clear hclear
  refine ⟨hkeeps.base, fun query negated builder hneg => ?_⟩
  obtain ⟨ρ, hneg', hmakes, hfixed, hinj⟩ := hclear.exists_renaming hclear' hkeeps.base hneg
  let T : Set Term := {t | (∃ c ∈ engine.base, t ∈ c.toClause.terms) ∨ t ∈ negated.terms}
  have hbaseT : ∀ c ∈ engine.base, c.toClause.TermsIn T := fun c hc =>
    Clause.termsIn_iff.2 fun t ht => .inl ⟨c, hc, ht⟩
  have hnegT : negated.TermsIn T := Clause.termsIn_iff.2 fun t ht => .inr ht
  have hopen := Engine.opening_renamed hinj hbaseT
    (fun c hc => Renaming.numbered_eq_self (hfixed c hc)) hnegT query
  have hws : ∀ c ∈ (Engine.opening engine.base query negated).working.clauses,
      c.toClause.TermsIn T := by
    refine Engine.forall_start fun c hc => ?_
    rcases List.mem_append.1 hc with hc | hc
    · obtain ⟨n, hn, rfl⟩ := List.mem_map.1 hc
      exact hbaseT n hn
    · exact List.mem_singleton.1 hc ▸ hnegT
  obtain ⟨_, hrenamed⟩ := Loop.run_renamed hinj engine.loop hopen hws rfl
  have hend := engine.loop.forall_run (P := Clause.TermsIn T)
    (fun hl hr hres => hl.resolvent hr hres) rfl hws
  refine ⟨ρ, _, _, Engine.prove_eq_ok hclear (congrArg Prod.fst hneg),
    Engine.prove_eq_ok hclear' hneg', hneg', ?_⟩
  rw [hkeeps.loop, hkeeps.base]
  refine ⟨hrenamed.outcome, hrenamed.passes, hrenamed.length, ?_, ?_, ?_, hmakes⟩
  · rw [hrenamed.steps, List.map_map]
    rfl
  · rw [hrenamed.working]
    rfl
  · refine hinj.mono ?_
    rintro t ⟨c, hc, ht⟩
    exact Clause.termsIn_iff.1 (hend c hc) t ht

/-- The builder that knows the names of a fact and a rule. -/
def afterRule : Builder :=
  { symbols := ["P", "Q"] }

/-- The engine of a fact and a rule that derives one clause a query. -/
def hasty : Engine :=
  .ofSentences [{ literals := [{ name := "P", args := [] }], id := 1 },
    { literals := [{ name := "P", args := [], negated := true }, { name := "Q", args := [] }],
      id := 2 }] ⟨.incremental, some 1⟩ afterRule

/-- A query that runs into the limit, one that cannot be converted, and none at all. -/
def failing : List Json :=
  [.str "∀z R(z)", .str "∀z (R(z) ∨ Q)", .null]

theorem queries_independent_failing :
    (∀ query ∈ failing, (hasty.resolveValue query).2.toOption = none) ∧
    ∃ (ρ : Renaming) (d d' : Derivation),
      (hasty.prove "∀z R(z)").result = .ok d ∧
      ((hasty.after (failing.map .resolve)).prove "∀z R(z)").result = .ok d' ∧
      d'.steps.map Step.ids = d.steps.map Step.ids ∧
      d'.working.clauses = d.working.clauses.map ρ.numbered ∧
      ρ.term (.const "Sk1") = .const "Sk3" := by
  have hbuild : Build.sentences ["P", "P ⇒ Q"] {} = (.ok hasty.base, afterRule) :=
    eq_ok_of_toOption (by decide +kernel)
  have hnegate : Build.negate "∀z R(z)" hasty.builder
      = (.ok ⟨[{ name := "R", args := [.const "Sk1"], negated := true }]⟩,
        { afterRule with skolems := 1, symbols := afterRule.symbols ++ ["z", "R", "Sk1"] }) :=
    eq_ok_of_toOption (by decide +kernel)
  have hmade : hasty.Made := .ofSentences hbuild
  obtain ⟨_, hall⟩ := queries_independent hmade (failing.map .resolve)
  obtain ⟨ρ, d, d', hd, hd', hneg', _, _, _, hids, hclauses, _⟩ := hall _ _ _ hnegate
  have hlater : (Build.negate "∀z R(z)" (hasty.after (failing.map .resolve)).builder).1.toOption
      = some ⟨[{ name := "R", args := [.const "Sk3"], negated := true }]⟩ := by decide +kernel
  refine ⟨by decide +kernel, ρ, d, d', hd, hd', hids, hclauses, ?_⟩
  rw [show (Build.negate "∀z R(z)" (hasty.after (failing.map .resolve)).builder).1 = _ from hneg']
    at hlater
  simpa [Except.toOption, Renaming.clause, Renaming.literal, Literal.mapArgs] using hlater

end Refuter
