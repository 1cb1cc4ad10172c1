import Refuter.Proofs.Variants
import Refuter.Proofs.Words

/-! # Negating a query

A builder remembers, and what it remembers decides which names a query gets. It decides
nothing else.

- What a conversion does with a query does not depend on the state: it reads the same
  literals or fails with the same fault, and binds the same names in the same order
  (`Conversion.Oblivious`).
- The names that are handed out are new to everything the builder knows, and the builder
  only ever learns (`Builder.Grows`).

**Key result.** Whatever the builder, the negated query is one and the same clause with new
terms put for its variables (`Build.exists_negate`).
-/

namespace Refuter

open Sentence

/-! ### Conversions that do not look at the state -/

/-- A computation that gives the same result in every state and binds the same names. -/
def Conversion.Oblivious {α : Type} (x : Conversion α) : Prop :=
  ∃ result names, ∀ scope : Scope, x scope = (result, scope.bindAll names)

namespace Conversion.Oblivious

variable {α β : Type}

theorem of_pure (a : α) : Oblivious (pure a : Conversion α) :=
  ⟨.ok a, [], fun _ => rfl⟩

theorem of_throw (fault : Fault) : Oblivious (throw fault : Conversion α) :=
  ⟨.error fault, [], fun _ => rfl⟩

theorem bind {x : Conversion α} {f : α → Conversion β} (hx : Oblivious x)
    (hf : ∀ a, Oblivious (f a)) : Oblivious (x >>= f) := by
  obtain ⟨result, names, hx⟩ := hx
  have hrun : ∀ scope, (x >>= f) scope = ExceptT.bindCont f result (scope.bindAll names) := by
    intro scope
    show (match x scope with | (r, t) => ExceptT.bindCont f r t) = _
    rw [hx]
  cases result with
  | error fault => exact ⟨.error fault, names, hrun⟩
  | ok a =>
    obtain ⟨result', names', hfa⟩ := hf a
    refine ⟨result', names ++ names', fun scope => ?_⟩
    rw [hrun, Scope.bindAll_append]
    exact hfa _

theorem mapM {f : α → Conversion β} (hf : ∀ a, Oblivious (f a)) (l : List α) :
    Oblivious (l.mapM f) := by
  induction l with
  | nil =>
    rw [List.mapM_nil]
    exact of_pure _
  | cons a rest ih =>
    rw [List.mapM_cons]
    exact (hf a).bind fun b => ih.bind fun bs => of_pure _

theorem of_literal (negated : Bool) (text : List Char) : Oblivious (literal negated text) := by
  rw [literal]
  cases readLiteral negated text with
  | ok l => exact of_pure l
  | error fault => exact of_throw fault

theorem of_enter (m : Marker) (blocks : List Block) : ∀ inScope,
    Oblivious (enter m inScope blocks) := by
  induction blocks with
  | nil => exact fun inScope => of_pure inScope
  | cons block rest ih =>
    intro inScope
    rw [enter]
    split
    · split
      · exact of_throw _
      · exact bind ⟨.ok (), block.names, forM_bindSkolem block.names⟩ fun _ => ih inScope
    · exact ih true

theorem of_queryLiterals (text : List Char) : Oblivious (Build.queryLiterals text) := by
  rw [Build.queryLiterals]
  refine (of_enter _ _ _).bind fun _ => ?_
  have hread : Oblivious ((splitTop '∧' (leading text).2).mapM (literal true)) :=
    mapM (of_literal true) _
  split
  · exact (of_throw _).bind fun _ => hread
  · exact hread

end Conversion.Oblivious

/-! ### The negated query -/

/-- The terms that a builder never hands out. -/
def Builder.Knows (b : Builder) : Term → Prop
  | .var x => x ∈ b.supply.reserved ∨ ∃ n ≤ b.supply.counter, x = numberedName b.supply.stem n
  | .const k => k ∈ b.symbols ∨ ∀ n, k ≠ numberedName "Sk" n

theorem Builder.Grows.knows {b b' : Builder} (h : b.Grows b') {t : Term} (ht : b.Knows t) :
    b'.Knows t := by
  cases t with
  | var x =>
    rcases ht with hx | ⟨n, hn, rfl⟩
    · exact .inl (h.reserved ▸ hx)
    · exact .inr ⟨n, Nat.le_trans hn h.counter, by rw [h.stem]⟩
  | const k => exact ht.imp_left fun hk => h.symbols hk

/-- A constant of a clause in which names are Skolemized was there before, or is new. -/
theorem Scope.const_mem_skolemized {b : Builder} {names : List String} {c : Clause} {k : String}
    (hk : Term.const k ∈
      (Substitution.apply ⟨(Scope.bindAll { builder := b } names).skolems⟩ c).terms) :
    Term.const k ∈ c.terms ∨
      k ∉ b.symbols ∧ k ∈ (Scope.bindAll { builder := b } names).builder.symbols := by
  obtain ⟨constant, _, hnew, hresolve⟩ := Scope.exists_skolems b names
  have hskolemized : Substitution.apply ⟨(Scope.bindAll { builder := b } names).skolems⟩ c
      = c.mapTerms (Term.skolemize names constant) := by
    rw [← hresolve]
    rfl
  rw [hskolemized, Clause.terms_mapTerms] at hk
  obtain ⟨t, ht, htk⟩ := List.mem_map.1 hk
  cases t with
  | const j =>
    obtain rfl : j = k := Term.const.inj htk
    exact .inl ht
  | var x =>
    rw [Term.skolemize] at htk
    split at htk
    · rename_i hx
      obtain rfl : constant x = k := Term.const.inj htk
      exact .inr ⟨(hnew x hx).1, (hnew x hx).2.2⟩
    · cases htk

/-- **New terms for variables:** Skolem constants for some and fresh names for the others,
    all different and none of them known. -/
theorem Scope.exists_newTerms (b : Builder) (names : List String) (c : Clause) :
    ∃ θ : String → Term,
      ((Scope.bindAll { builder := b } names).builder.supply.standardize
        (Substitution.apply ⟨(Scope.bindAll { builder := b } names).skolems⟩ c)).1
          = c.mapTerms (Term.instantiate θ) ∧
      Set.InjOn θ {x | x ∈ c.vars} ∧
      ∀ x ∈ c.vars, ¬ b.Knows (θ x) ∧ (θ x).isVar = !decide (x ∈ names) := by
  obtain ⟨constant, hinj, hnew, hresolve⟩ := Scope.exists_skolems b names
  have hskolemized : Substitution.apply ⟨(Scope.bindAll { builder := b } names).skolems⟩ c
      = c.mapTerms (Term.skolemize names constant) := by
    rw [← hresolve]
    rfl
  rw [hskolemized, Scope.supply_bindAll]
  obtain ⟨fresh, hfresh, hdistinct, hnumbered⟩ :=
    b.supply.standardize_spec (c.mapTerms (Term.skolemize names constant))
  let θ : String → Term := fun x => if x ∈ names then .const (constant x) else .var (fresh x)
  -- the variables that are left after Skolemizing
  have hvars : ∀ x ∈ c.vars, x ∉ names → x ∈ (c.mapTerms (Term.skolemize names constant)).vars := by
    intro x hx hnot
    rw [Clause.mem_vars_iff, Clause.terms_mapTerms]
    exact List.mem_map.2 ⟨_, Clause.mem_vars_iff.1 hx, by rw [Term.skolemize, if_neg hnot]⟩
  refine ⟨θ, ?_, fun x hx y hy hxy => ?_, fun x hx => ?_⟩
  · rw [hfresh, Clause.mapTerms_mapTerms]
    refine Clause.mapTerms_eq_iff.2 fun t _ => ?_
    cases t with
    | const k => rfl
    | var x =>
      simp only [Function.comp_apply, Term.skolemize, Term.instantiate, θ]
      split <;> rfl
  · by_cases hxn : x ∈ names <;> by_cases hyn : y ∈ names
    · simp only [θ, if_pos hxn, if_pos hyn, Term.const.injEq] at hxy
      exact hinj hxn hyn hxy
    · simp [θ, hxn, hyn] at hxy
    · simp [θ, hxn, hyn] at hxy
    · simp only [θ, if_neg hxn, if_neg hyn, Term.var.injEq] at hxy
      exact hdistinct (hvars x hx hxn) (hvars y hy hyn) hxy
  · by_cases hxn : x ∈ names
    · simp only [θ, if_pos hxn]
      obtain ⟨hunknown, ⟨n, hn⟩, _⟩ := hnew x hxn
      refine ⟨fun hknows => ?_, by simp [Term.isVar, hxn]⟩
      rcases hknows with hknows | hknows
      · exact hunknown hknows
      · exact hknows n hn
    · simp only [θ, if_neg hxn]
      obtain ⟨hfree, n, hn, hlt, _⟩ := hnumbered x (hvars x hx hxn)
      refine ⟨fun hknows => ?_, by simp [Term.isVar, hxn]⟩
      rcases hknows with hknows | ⟨m, hm, heq⟩
      · exact hfree hknows
      · have := numberedName_inj (hn.symm.trans heq)
        omega

namespace Build

/-- The terms of a query are spelled by it. -/
theorem queryLiterals_hasArgument {text : List Char} {scope scope' : Scope} {ls : List Literal}
    (h : queryLiterals text scope = (.ok ls, scope')) :
    ∀ l ∈ ls, ∀ t ∈ l.args, HasArgument text t := by
  rw [queryLiterals] at h
  obtain ⟨_, _, _, h⟩ := bind_ok_iff.1 h
  obtain ⟨_, h⟩ := guard_ok_iff.1 h
  intro l hl t ht
  obtain ⟨_, hall⟩ := mapM_eq_ok (I := fun _ => True)
    (R := fun part l => readLiteral true part = .ok l)
    (fun part _ _ _ _ _ hread => ⟨trivial, (Conversion.literal_ok_iff.1 hread).1⟩) trivial h
  obtain ⟨part, hpart, hread⟩ := forall₂_mem_right hall hl
  exact ⟨part, true, l, (isInfix_of_mem_splitTop hpart).trans (leading_isInfix text), hread, ht⟩

/-- The constants of a query are written in it. -/
theorem queryLiterals_written {text : List Char} {scope scope' : Scope} {ls : List Literal}
    (h : queryLiterals text scope = (.ok ls, scope')) :
    ∀ l ∈ ls, ∀ t ∈ l.args, Written text t.name :=
  fun l hl t ht => (queryLiterals_hasArgument h l hl t ht).written

/-- **Each constant of a query** is spelled by its text or was made for it. -/
theorem queryLiterals_constants {text : List Char} {b : Builder} {scope : Scope}
    {ls : List Literal} (h : queryLiterals text { builder := b } = (.ok ls, scope)) {k : String}
    (hk : Term.const k ∈ (Substitution.apply ⟨scope.skolems⟩ ⟨ls⟩).terms) :
    HasArgument text (.const k) ∨ k ∉ b.symbols ∧ k ∈ scope.builder.symbols := by
  obtain ⟨result, names, hrun⟩ := Conversion.Oblivious.of_queryLiterals text
  obtain rfl : Scope.bindAll { builder := b } names = scope :=
    congrArg Prod.snd ((hrun { builder := b }).symm.trans h)
  refine (Scope.const_mem_skolemized hk).imp_left fun hmem => ?_
  obtain ⟨l, hl, hkl⟩ := Clause.mem_terms.1 hmem
  exact queryLiterals_hasArgument h l hl _ hkl

/-- **Negating a query,** case by case. -/
theorem negate_eq (query : String) (b : Builder) : negate query b =
    match Sentence.normalize query with
    | .error fault => (.error (.malformed query fault), b)
    | .ok text =>
      match queryLiterals text { builder := b.noteSymbols text } with
      | (.error fault, scope) => (.error (.malformed query fault), scope.builder)
      | (.ok ls, scope) =>
        (.ok (scope.builder.supply.standardize (Substitution.apply ⟨scope.skolems⟩ ⟨ls⟩)).1,
          { scope.builder with
            supply := (scope.builder.supply.standardize
              (Substitution.apply ⟨scope.skolems⟩ ⟨ls⟩)).2 }) := by
  have hbind : ∀ {α β : Type} (x : Build α) (f : α → Build β) (b : Builder),
      (x >>= f) b = match x b with | (r, b') => ExceptT.bindCont f r b' := fun _ _ _ => rfl
  rw [negate, hbind]
  cases hnorm : Sentence.normalize query with
  | error fault =>
    have hfail : normalize query b = (.error (.malformed query fault), b) := by
      rw [normalize, hnorm]
      rfl
    rw [hfail]
    rfl
  | ok text =>
    rw [normalize_ok_iff.2 ⟨hnorm, rfl⟩]
    show (convert query (queryLiterals text) >>= _) (b.noteSymbols text) = _
    rw [hbind, convert]
    dsimp only
    rcases queryLiterals text { builder := b.noteSymbols text } with ⟨fault | ls, scope⟩
    · rfl
    · rfl

/-- A query only adds to what the builder knows, also when it is refused. -/
theorem negate_grows (query : String) (b : Builder) : b.Grows (negate query b).2 := by
  rw [negate_eq]
  cases Sentence.normalize query with
  | error fault => exact .refl b
  | ok text =>
    obtain ⟨result, names, hrun⟩ := Conversion.Oblivious.of_queryLiterals text
    have hscope : b.Grows (Scope.bindAll { builder := b.noteSymbols text } names).builder :=
      (b.grows_noteSymbols text).trans (Builder.grows_bindAll names { builder := b.noteSymbols text })
    dsimp only
    rw [hrun]
    cases result with
    | error fault => exact hscope
    | ok ls => exact hscope.trans (Builder.grows_standardize _ _)

/-- **The negated query of any builder:** the same clause, with new terms put for its
    variables. Which of them are constants does not depend on the builder. -/
theorem exists_negate {query : String} {b₀ b₁ : Builder} {negated : Clause}
    (h : negate query b₀ = (.ok negated, b₁)) :
    ∃ (text : List Char) (c : Clause) (names : List String),
      Sentence.normalize query = .ok text ∧ (∀ k, Term.const k ∈ c.terms → k ∈ words text) ∧
      ∀ b, ∃ θ, (negate query b).1 = .ok (c.mapTerms (Term.instantiate θ)) ∧
        Set.InjOn θ {x | x ∈ c.vars} ∧
        ∀ x ∈ c.vars, ¬ (b.noteSymbols text).Knows (θ x) ∧ (θ x).isVar = !decide (x ∈ names) := by
  rw [negate_eq] at h
  cases hnorm : Sentence.normalize query with
  | error fault =>
    rw [hnorm] at h
    cases h
  | ok text =>
    obtain ⟨result, names, hrun⟩ := Conversion.Oblivious.of_queryLiterals text
    rw [hnorm] at h
    dsimp only at h
    rw [hrun] at h
    cases result with
    | error fault => cases h
    | ok ls =>
      have hwritten := queryLiterals_written (hrun { builder := b₀ })
      refine ⟨text, ⟨ls⟩, names, rfl, fun k hk => ?_, fun b => ?_⟩
      · obtain ⟨l, hl, hkl⟩ := Clause.mem_terms.1 hk
        exact mem_words_of_written (hwritten l hl _ hkl)
      · obtain ⟨θ, hθ, hinj, hnew⟩ := Scope.exists_newTerms (b.noteSymbols text) names ⟨ls⟩
        refine ⟨θ, ?_, hinj, hnew⟩
        rw [negate_eq, hnorm]
        dsimp only
        rw [hrun]
        dsimp only
        rw [hθ]

end Build

end Refuter
