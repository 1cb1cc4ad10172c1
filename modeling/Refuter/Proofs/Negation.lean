import Refuter.Proofs.Witnesses

/-! # What a negated query says

A query is put to the test by its negation. Under a negation the quantifiers swap: for the
names that `∀` binds constants are made, and all other variables range over the domain.

- **Shape.** A query is accepted exactly when it spells a literal or a conjunction of
  literals, behind quantifiers of which no `∀` follows an `∃`
  (`Build.queryLiterals_iff`). The rest is refused at the first such `∀`
  (`Conversion.enter_refused`).
- **Meaning.** A query is false in a structure exactly when values for the names bound by
  `∀` make its conjunction false whatever the other variables are
  (`Formula.Query.false_iff`). One way these values are chosen from the outside in, the
  other way they are put for the names.
- **Clause.** The values are those of the constants (`Structure.expandsTo_skolemized_iff`).

**Key result.** The negation of a query is exact (`negate_exact`).
-/

namespace Refuter

universe u

open Sentence Formula

/-! ### Queries that can be negated -/

namespace Formula

/-- A literal or a conjunction of literals, behind quantifiers whose negation needs no
    Skolem function. -/
structure Query (F : Formula) : Prop where
  /-- No `∀` stands in the scope of an `∃`. -/
  enter : ∃ b, scopeBehind .universal false F.lead = some b
  /-- Behind the quantifiers are literals. -/
  premise : F.body.Premise

theorem Query.skolems_eq {F : Formula} (h : F.Query) :
    F.skolems .universal = namesBy .universal F.lead := by
  rw [Formula.skolems_eq, Conversion.skolems_of_premise h.premise, List.append_nil]

end Formula

namespace Conversion

/-- There is one reason to refuse quantifiers. -/
theorem fault_of_enter {m : Marker} {blocks : List Block} {fault : Fault} {t : Scope} :
    ∀ {inScope : Bool} {s : Scope}, enter m inScope blocks s = (.error fault, t) →
      fault = .skolemFunction := by
  induction blocks with
  | nil =>
    intro inScope s h
    cases h
  | cons block rest ih =>
    intro inScope s h
    rw [enter] at h
    split at h
    · split at h
      · cases h
        rfl
      · rcases bind_eq_error h with hnames | ⟨_, _, _, hrest⟩
        · rw [forM_bindSkolem] at hnames
          cases hnames
        · exact ih hrest
    · exact ih h

/-- **A quantifier in the scope of the other kind** is refused, because it would need a
    Skolem function. -/
theorem enter_refused {m : Marker} {blocks : List Block} (hnames : ∀ b ∈ blocks, b.names ≠ [])
    (h : scopeBehind m false (quantifiersOf blocks) = none) (s : Scope) :
    ∃ t, enter m false blocks s = (.error .skolemFunction, t) := by
  rcases henter : enter m false blocks s with ⟨fault | b, t⟩
  · exact ⟨t, by rw [fault_of_enter henter]⟩
  · have hscope := ((enter_iff hnames).1 henter).1
    rw [h] at hscope
    cases hscope

end Conversion

namespace Formula

/-- In the scope of the other kind no quantifier by `m` is entered. -/
theorem scopeBehind_true_of_mem {m : Marker} {x : String} : ∀ {qs : List (Marker × String)},
    (m, x) ∈ qs → scopeBehind m true qs = none := by
  intro qs
  induction qs with
  | nil =>
    intro h
    cases h
  | cons q rest ih =>
    intro h
    rw [scopeBehind]
    by_cases hq : q.1 = m
    · rw [if_pos hq]
      rfl
    · rw [if_neg hq]
      rcases List.mem_cons.1 h with rfl | h
      · exact absurd rfl hq
      · exact ih h

/-- A name bound by `m` that follows one bound otherwise cannot be entered. -/
theorem scopeBehind_of_after {m k : Marker} (hk : k ≠ m) {x y : String}
    {before after : List (Marker × String)} (hy : (m, y) ∈ after) (inScope : Bool) :
    scopeBehind m inScope (before ++ (k, x) :: after) = none := by
  rw [scopeBehind_append]
  cases scopeBehind m inScope before with
  | none => rfl
  | some b =>
    show scopeBehind m b ((k, x) :: after) = none
    rw [scopeBehind, if_neg hk]
    exact scopeBehind_true_of_mem hy

/-- A literal, or literals that are joined: what the parts of a query make up. -/
def Conjoins (Fs : List Formula) (G : Formula) : Prop :=
  G.IsLiteral ∧ Fs = [G] ∨ G = .joined .and Fs ∧ ∀ F ∈ Fs, F.IsLiteral

theorem premise_iff_conjoins {G : Formula} : G.Premise ↔ ∃ Fs, Conjoins Fs G := by
  constructor
  · intro h
    rcases h with hliteral | ⟨Fs, hjoined⟩
    · exact ⟨[G], .inl ⟨hliteral, rfl⟩⟩
    · exact ⟨Fs, .inr hjoined⟩
  · intro h
    obtain ⟨Fs, ⟨hliteral, _⟩ | hjoined⟩ := h
    · exact .inl hliteral
    · exact .inr ⟨Fs, hjoined⟩

theorem Conjoins.map_negate {Fs : List Formula} {G : Formula} (h : Conjoins Fs G) :
    Fs.map (fun F => F.firstLiteral.negate) = G.literals.map Literal.negate := by
  rcases h with ⟨⟨l, rfl⟩, rfl⟩ | ⟨rfl, hparts⟩
  · simp [literals]
  · rw [literals, Conversion.flatMap_literals_of_isLiteral hparts, List.map_map]
    rfl

end Formula

namespace Build

variable {s t : Scope}

/-- The parts of a query, all of them literals. -/
theorem conjuncts_iff {text : List Char} {Fs : List Formula}
    (hplain : (splitTop '⇒' (leading text).2).length ≤ 1) :
    List.Forall₂ (fun part F => parse .or part = some F ∧ F.IsLiteral)
        (splitTop '∧' (leading text).2) Fs ↔
      ∃ G, parse .and (leading text).2 = some G ∧ Conjoins Fs G := by
  -- a literal is read alike everywhere
  have hread : ∀ part F, (parse .or part = some F ∧ F.IsLiteral) ↔
      (parse .and part = some F ∧ F.IsLiteral) := by
    intro part F
    refine and_congr_left ?_
    intro hliteral
    obtain ⟨l, rfl⟩ := hliteral
    rw [parse_eq_literal_iff, parse_eq_literal_iff]
  simp only [hread]
  refine parts_iff (P := IsLiteral) (j := .and) (leading_leading text) (trim_leading text)
    (fun _ _ => ⟨hplain, .inl rfl⟩) ?_
  intro G hparse hliteral
  unfold Splits
  rw [splitTop_of_operatorFree (by decide) (operatorFree_of_isLiteral hliteral hparse)]
  simp

/-- **Queries that are accepted:** they give their literals, negated, and bind the names of
    their universal quantifiers. -/
theorem queryLiterals_iff {text : List Char} {ls : List Literal} :
    queryLiterals text s = (.ok ls, t) ↔
      ∃ F, (parse .and text = some F ∧ F.Query) ∧ ls = F.literals.map Literal.negate ∧
        t = s.bindAll (F.skolems .universal) := by
  have hnone : ∀ Fs : List Formula, (Fs.flatMap fun _ => ([] : List String)) = [] := by simp
  rw [queryLiterals]
  simp only [bind_ok_iff, guard_ok_iff, Conversion.enter_iff (names_ne_nil_of_mem_leading _),
    Conversion.negatedLiterals_iff, hnone]
  constructor
  · rintro ⟨b, _, ⟨henter, rfl⟩, hguard, Fs, hFs, rfl, rfl⟩
    rw [not_or, Nat.not_lt, Nat.not_lt] at hguard
    obtain ⟨G, hG, hparts⟩ := (conjuncts_iff hguard.1).1 hFs
    obtain ⟨F, hparse, hlead, rfl⟩ := exists_parse_body hG
    have hquery : F.Query :=
      ⟨⟨b, by rw [hlead]; exact henter⟩, premise_iff_conjoins.2 ⟨Fs, hparts⟩⟩
    refine ⟨F, ⟨hparse, hquery⟩, ?_, ?_⟩
    · rw [hparts.map_negate, literals_body]
    · rw [hquery.skolems_eq, hlead]
      rfl
  · rintro ⟨F, ⟨hparse, hquery⟩, rfl, rfl⟩
    obtain ⟨hlead, hbody⟩ := parse_body_iff.1 hparse
    obtain ⟨b, henter⟩ := hquery.enter
    obtain ⟨Fs, hparts⟩ := premise_iff_conjoins.1 hquery.premise
    have hplain := Conversion.plain_of_parse hparse
      (Conversion.body_ne_implies_of_antecedent ⟨b, henter, .inl hquery.premise⟩)
    have hFs := (conjuncts_iff hplain).2 ⟨F.body, hbody, hparts⟩
    -- literals that are joined by conjunctions leave no place for a disjunction
    have hor : (splitTop '∨' (leading text).2).length ≤ 1 := by
      rw [splitTop_of_not_mem (Conversion.not_mem_of_literalParts hFs (by decide) (by decide))]
      exact Nat.le_refl 1
    rw [hlead] at henter
    refine ⟨b, _, ⟨henter, rfl⟩, ?_, Fs, hFs, ?_, ?_⟩
    · rw [not_or, Nat.not_lt, Nat.not_lt]
      exact ⟨hplain, hor⟩
    · rw [hparts.map_negate, literals_body]
    · rw [hquery.skolems_eq, hlead]
      rfl

end Build

/-! ### Queries that are false -/

namespace Formula

variable {M : Structure.{u}} {F : Formula}

theorem Premise.unquantified (h : F.Premise) : F.Unquantified := by
  rcases h with ⟨l, rfl⟩ | ⟨parts, rfl, hparts⟩
  · rw [Unquantified]
    trivial
  · rw [Unquantified]
    intro G hG
    obtain ⟨l, rfl⟩ := hparts G hG
    rw [Unquantified]
    trivial

/-- The names that the quantifiers in front bind. -/
def bound (F : Formula) : List String :=
  F.lead.map Prod.snd

theorem bound_quantified (m : Marker) (x : String) (G : Formula) :
    (Formula.quantified m x G).bound = x :: G.bound := rfl

theorem mem_free_iff {x : String} : x ∈ F.free ↔ x ∈ F.body.free ∧ x ∉ F.bound := by
  induction F with
  | literal | joined | implies => simp [bound, lead, body]
  | quantified m y G ih =>
    have hbody : (Formula.quantified m y G).body = G.body := rfl
    rw [free, List.mem_filter, ih, bound_quantified, hbody, List.mem_cons, not_or,
      decide_eq_true_eq]
    exact ⟨fun h => ⟨h.1.1, h.2, h.1.2⟩, fun h => ⟨⟨h.1, h.2.2⟩, h.2.1⟩⟩

theorem namesBy_sublist (m : Marker) (qs : List (Marker × String)) :
    (namesBy m qs).Sublist (qs.map Prod.snd) := by
  induction qs with
  | nil => exact .slnil
  | cons q rest ih =>
    rw [namesBy, List.filterMap_cons, List.map_cons]
    by_cases hq : q.1 = m
    · simp only [hq, if_true]
      exact ih.cons_cons q.2
    · simp only [hq, if_false]
      exact ih.cons q.2

/-- Where no `∀` follows an `∃`, each `∀` has free variables of those around it only. -/
theorem grounded_of_lead (hpremise : F.body.Premise) {b : Bool} :
    ∀ {inScope : Bool} {outer : List String}, scopeBehind .universal inScope F.lead = some b →
      (inScope = true ∨ ∀ y ∈ F.free, y ∈ outer) → F.Grounded .universal outer := by
  induction F with
  | literal | joined | implies =>
    intro inScope outer _ _
    exact hpremise.unquantified.grounded _ _
  | quantified m x G ih =>
    intro inScope outer henter houter
    rw [lead, scopeBehind] at henter
    rw [Grounded]
    by_cases hm : m = .universal
    · rw [if_pos hm] at henter ⊢
      cases inScope with
      | true => cases henter
      | false =>
        have hfree := houter.resolve_left Bool.false_ne_true
        refine ⟨hfree, ih hpremise henter (.inr ?_)⟩
        intro y hy
        by_cases hyx : y = x
        · rw [hyx]
          exact List.mem_cons_self ..
        · refine List.mem_cons_of_mem _ (hfree y ?_)
          rw [free]
          exact List.mem_filter.2 ⟨hy, decide_eq_true hyx⟩
    · rw [if_neg hm] at henter ⊢
      exact ih hpremise henter (.inl rfl)

/-- **Putting values for the names bound by `∀`:** what is true of all is true of them. The
    names bound by `∃` get the values that there are. -/
theorem exists_holds_body (e : String → M.Domain) (hnodup : F.bound.Nodup) :
    ∀ {v : String → M.Domain}, F.Holds M v → ∃ w : String → M.Domain,
      (∀ x ∈ namesBy .universal F.lead, w x = e x) ∧ (∀ y, y ∉ F.bound → w y = v y) ∧
      F.body.Holds M w := by
  induction F with
  | literal | joined | implies =>
    intro v h
    exact ⟨v, by simp [namesBy, lead], fun _ _ => rfl, h⟩
  | quantified m x G ih =>
    intro v h
    rw [bound_quantified, List.nodup_cons] at hnodup
    -- the value of the name is chosen first and kept by what follows
    have hchosen : ∃ a, G.Holds M (Function.update v x a) ∧ (m = .universal → a = e x) := by
      cases m with
      | universal =>
        rw [Holds] at h
        exact ⟨e x, h (e x), fun _ => rfl⟩
      | existential =>
        rw [Holds] at h
        obtain ⟨a, ha⟩ := h
        exact ⟨a, ha, fun hm => by cases hm⟩
    obtain ⟨a, ha, hvalue⟩ := hchosen
    obtain ⟨w, huniversal, hother, hbody⟩ := ih hnodup.2 ha
    have hwx : w x = a := by
      rw [hother x hnodup.1, Function.update_self]
    refine ⟨w, ?_, ?_, hbody⟩
    · intro y hy
      rw [lead, namesBy, List.filterMap_cons] at hy
      by_cases hm : m = .universal
      · simp only [hm, if_true] at hy
        rcases List.mem_cons.1 hy with rfl | hy
        · rw [hwx, hvalue hm]
        · exact huniversal y hy
      · simp only [hm, if_false] at hy
        exact huniversal y hy
    · intro y hy
      rw [bound_quantified, List.mem_cons, not_or] at hy
      rw [hother y hy.2, Function.update_of_ne hy.1]

/-- **When a query is false:** values for the names bound by `∀` make its literals false
    together, whatever the other variables are. -/
theorem Query.false_iff (h : F.Query) (hnodup : F.bound.Nodup)
    (hclosed : F.lead = [] ∨ ∀ x ∈ F.body.free, x ∈ F.bound) :
    (∀ v, ¬ F.Holds M v) ↔ ∃ e : String → M.Domain,
      ∀ v, (∀ x ∈ F.skolems .universal, v x = e x) → ¬ F.Matrix (M.atoms v) := by
  obtain ⟨b, henter⟩ := h.enter
  rw [h.skolems_eq]
  constructor
  · intro hfalse
    have hground : F.Grounded .universal [] := by
      rcases hclosed with hlead | hfree
      · have hself : F.body = F := by
          conv_rhs => rw [← close_lead_body F, hlead]
          rfl
        rw [← hself]
        exact h.premise.unquantified.grounded _ _
      · refine grounded_of_lead h.premise henter (.inr ?_)
        intro y hy
        obtain ⟨hbody, hnot⟩ := mem_free_iff.1 hy
        exact absurd (hfree y hbody) hnot
    have hnames : (F.skolems .universal).Nodup := by
      rw [h.skolems_eq]
      exact hnodup.sublist (namesBy_sublist _ _)
    obtain ⟨a⟩ := M.nonempty
    obtain ⟨e, _, hfits⟩ := exists_fits (fun _ => a) hground hnames (by simp)
    refine ⟨e, ?_⟩
    intro v hv hmatrix
    rw [← h.skolems_eq] at hv
    exact hfalse v (hfits v (by simp) hv hmatrix)
  · intro hvalues v hholds
    obtain ⟨e, he⟩ := hvalues
    obtain ⟨w, hw, _, hbody⟩ := exists_holds_body e hnodup hholds
    apply he w hw
    rw [← matrix_body]
    exact h.premise.unquantified.holds_iff.1 hbody

/-! ### The clause of a negation -/

/-- The disjunction that denies a conjunction of literals. -/
def denial (F : Formula) : Formula :=
  .joined .or (F.literals.map fun l => .literal l.negate)

theorem literals_denial (F : Formula) : F.denial.literals = F.literals.map Literal.negate := by
  rw [denial, literals, List.flatMap_map, ← List.flatMap_singleton' (F.literals.map Literal.negate),
    List.flatMap_map]
  exact List.flatMap_congr fun l _ => by rw [literals]

theorem disjunction_denial (F : Formula) (b : Bool) : F.denial.Disjunction b := by
  refine ⟨b, rfl, .inr ⟨_, rfl, ?_⟩⟩
  intro G hG
  obtain ⟨l, _, rfl⟩ := List.mem_map.1 hG
  exact IsLiteral.disjunct ⟨_, rfl⟩

theorem clauses_denial (F : Formula) : F.denial.clauses = [F.literals.map Literal.negate] := by
  rw [(F.disjunction_denial false).clauses_eq, literals_denial]

theorem Query.matrix_denial (h : F.Query) (τ : Assignment) : F.denial.Matrix τ ↔ ¬ F.Matrix τ := by
  rw [(F.disjunction_denial false).matrix_iff, literals_denial, ← matrix_body,
    h.premise.matrix_iff, literals_body]
  simp only [Clause.TrueIn, List.mem_map, exists_exists_and_eq_and, Literal.trueIn_negate,
    not_forall, exists_prop]

end Formula

namespace Structure

variable {M : Structure.{u}}

/-- **Constants in place of names:** individuals for the constants are values for the
    names, and a formula has neither of them among its own constants. -/
theorem expandsTo_skolemized_iff {names : List String} {constant : String → String}
    {σ : Substitution} (hσ : σ.resolve = Term.skolemize names constant)
    (hinj : Set.InjOn constant {x | x ∈ names}) {introduced : String → Prop}
    (hnew : ∀ x ∈ names, introduced (constant x)) {b : Bool} {F : Formula} (hF : F.Fact b)
    (hold : ∀ l ∈ F.literals, ∀ k, Term.const k ∈ l.args → ¬ introduced k) :
    M.ExpandsTo introduced (F.clauses.map fun ls => σ.apply ⟨ls⟩) ↔
      ∃ e : String → M.Domain, ∀ v, (∀ x ∈ names, v x = e x) → F.Matrix (M.atoms v) := by
  constructor
  · intro hexpands
    obtain ⟨κ, hκ, hsat⟩ := hexpands
    refine ⟨fun x => κ (constant x), (satisfies_skolemized_iff hσ hF ?_).1 hsat⟩
    intro l hl k hk
    exact hκ k (hold l hl k hk)
  · intro hvalues
    obtain ⟨e, he⟩ := hvalues
    obtain ⟨κ, hvalue, hother⟩ := exists_individuals hinj e M.const
    have hkeep : ∀ k, ¬ introduced k → κ k = M.const k := by
      intro k hk
      apply hother k
      intro x hx hxk
      rw [← hxk] at hk
      exact hk (hnew x hx)
    refine ⟨κ, hkeep, (satisfies_skolemized_iff hσ hF ?_).2 ?_⟩
    · intro l hl k hk
      exact hkeep k (hold l hl k hk)
    · intro v hv
      apply he v
      intro x hx
      rw [hv x hx, hvalue x hx]

theorem expandsTo_standardize {introduced : String → Prop} (supply : Supply) (c : Clause) :
    M.ExpandsTo introduced [(supply.standardize c).1] ↔ M.ExpandsTo introduced [c] := by
  unfold ExpandsTo
  simp only [List.forall_mem_singleton, Supply.satisfies_standardize]

end Structure

/-- A constant that a builder has learned since an earlier state, and not from a text. -/
def Builder.IntroducesSince (b b' : Builder) (text : List Char) (k : String) : Prop :=
  b'.Introduces text k ∧ k ∉ b.symbols

namespace Build

/-- **What a negated query is made of:** the literals of the formula that it spells. -/
theorem reads_of_negate {query : String} {b b' : Builder} {negated : Clause}
    (h : negate query b = (.ok negated, b')) :
    ∃ text F supply, Reads query text F ∧ F.Query ∧
      negated = (Supply.standardize supply (Substitution.apply
        ⟨(Scope.bindAll { builder := b.noteSymbols text } (F.skolems .universal)).skolems⟩
        ⟨F.literals.map Literal.negate⟩)).1 ∧
      b'.symbols
        = (Scope.bindAll { builder := b.noteSymbols text } (F.skolems .universal)).builder.symbols := by
  rw [negate_eq] at h
  cases hnorm : Sentence.normalize query with
  | error fault =>
    rw [hnorm] at h
    cases h
  | ok text =>
    rw [hnorm] at h
    dsimp only at h
    rcases hlits : queryLiterals text { builder := b.noteSymbols text } with ⟨fault | ls, scope⟩
    · rw [hlits] at h
      cases h
    · rw [hlits] at h
      obtain ⟨F, ⟨hparse, hquery⟩, rfl, rfl⟩ := queryLiterals_iff.1 hlits
      cases h
      exact ⟨text, F, _, ⟨hnorm, hparse⟩, hquery, rfl, rfl⟩

/-- **The negation of a query, in an expansion of a structure.** -/
theorem negate_expandsTo_iff {query : String} {b b' : Builder} {negated : Clause}
    (h : negate query b = (.ok negated, b')) :
    ∃ text F, Reads query text F ∧ F.Query ∧ ∀ M : Structure.{u},
      M.ExpandsTo (b.IntroducesSince b' text) [negated] ↔ ∃ e : String → M.Domain,
        ∀ v, (∀ x ∈ F.skolems .universal, v x = e x) → ¬ F.Matrix (M.atoms v) := by
  obtain ⟨text, F, supply, hreads, hquery, rfl, hsymbols⟩ := reads_of_negate h
  refine ⟨text, F, hreads, hquery, ?_⟩
  intro M
  obtain ⟨constant, hinj, hnew, hresolve⟩ :=
    Scope.exists_skolems (b.noteSymbols text) (F.skolems .universal)
  have hintroduced : ∀ x ∈ F.skolems .universal, b.IntroducesSince b' text (constant x) := by
    intro x hx
    obtain ⟨hfresh, _, hmem⟩ := hnew x hx
    rw [Builder.mem_noteSymbols, not_or] at hfresh
    refine ⟨⟨?_, hfresh.2⟩, hfresh.1⟩
    rw [hsymbols]
    exact hmem
  -- the constants of the query are written, so they are not introduced
  have hwritten : ∀ l ∈ F.denial.literals, ∀ k, Term.const k ∈ l.args →
      ¬ b.IntroducesSince b' text k := by
    intro l hl k hk hintroduces
    rw [literals_denial] at hl
    obtain ⟨l', hl', rfl⟩ := List.mem_map.1 hl
    exact hintroduces.1.2 (mem_words_of_written (parse_written hreads.2 l' hl' _ hk))
  have hexpands := Structure.expandsTo_skolemized_iff (M := M) hresolve hinj hintroduced
    (.disjunction (F.disjunction_denial false)) hwritten
  rw [clauses_denial, List.map_singleton] at hexpands
  rw [Structure.expandsTo_standardize, hexpands]
  simp only [hquery.matrix_denial]

/-- A query in which an `∀` follows an `∃` is refused, whatever else it says. -/
theorem negate_refused {query : String} {text : List Char}
    (hnorm : Sentence.normalize query = .ok text) {before after : List (Marker × String)}
    {x y : String}
    (hlead : quantifiersOf (leading text).1 = before ++ (.existential, x) :: after)
    (hy : (.universal, y) ∈ after) (b : Builder) :
    ∃ b', negate query b = (.error (.malformed query .skolemFunction), b') := by
  have hscope : scopeBehind .universal false (quantifiersOf (leading text).1) = none := by
    rw [hlead]
    exact scopeBehind_of_after (by decide) hy false
  obtain ⟨t, henter⟩ := Conversion.enter_refused (names_ne_nil_of_mem_leading text) hscope
    { builder := b.noteSymbols text }
  have hquery : queryLiterals text { builder := b.noteSymbols text }
      = (.error .skolemFunction, t) := by
    rw [queryLiterals]
    exact bind_of_error henter
  refine ⟨t.builder, ?_⟩
  rw [negate_eq, hnorm]
  dsimp only
  rw [hquery]

end Build

/-! ### The main result -/

/-- **The negation of a query is exact.** Let a query be accepted, by whatever builder. It
    spells a literal or a conjunction of literals behind quantifiers. If these bind different
    names, and are none or bind all variables, then for every structure the query is false
    (for all values of its free variables, if it has any) exactly when the constants that
    were introduced can be given individuals so that the universal closure of the negated
    query is true. A query in which some `∀` follows an `∃` is always refused as malformed. -/
theorem negate_exact (query : String) (b : Builder) :
    (∀ negated b', Build.negate query b = (.ok negated, b') →
      ∃ text F, Reads query text F ∧ F.body.Premise ∧
        (F.bound.Nodup → (F.lead = [] ∨ ∀ x ∈ F.body.free, x ∈ F.bound) →
          ∀ M : Structure.{u}, (∀ v, ¬ F.Holds M v) ↔
            M.ExpandsTo (b.IntroducesSince b' text) [negated])) ∧
    (∀ text before x after y, Sentence.normalize query = .ok text →
      quantifiersOf (leading text).1 = before ++ (.existential, x) :: after →
      (.universal, y) ∈ after →
        ∃ b', Build.negate query b = (.error (.malformed query .skolemFunction), b')) := by
  constructor
  · intro negated b' h
    obtain ⟨text, F, hreads, hquery, hexpands⟩ := Build.negate_expandsTo_iff h
    refine ⟨text, F, hreads, hquery.premise, ?_⟩
    intro hnodup hclosed M
    rw [hexpands, hquery.false_iff hnodup hclosed]
  · intro text before x after y hnorm hlead hy
    exact Build.negate_refused hnorm hlead hy b

/-- `∀x (∃y (R(x, y) ∧ P(y)))`. -/
def everyoneInP : Formula :=
  .quantified .universal "x" (.quantified .existential "y"
    (.joined .and [.literal { name := "R", args := [.var "x", .var "y"] },
      .literal { name := "P", args := [.var "y"] }]))

theorem reads_everyoneInP : Reads "∀x (∃y (R(x, y) ∧ P(y)))"
    "∀x (∃y (R(x, y) ∧ P(y)))".toList everyoneInP := by
  have hlegal : everyoneInP.Legal := by
    simp [everyoneInP, Formula.Legal, Literal.Legal, Term.Legal, IsBoundName]
    decide
  have htext : everyoneInP.render = "∀x (∃y (R(x, y) ∧ P(y)))".toList := by
    simp [everyoneInP, render, wrap, Marker.symbol, Junctor.symbol]
    decide
  have := hlegal.reads
  rwa [htext] at this

theorem holds_everyoneInP {M : Structure.{u}} {v : String → M.Domain} :
    everyoneInP.Holds M v ↔ ∀ a, ∃ b, M.holds "R" [a, b] ∧ M.holds "P" [b] := by
  simp only [everyoneInP, Formula.Holds, Junctor.Combine, List.forall_mem_map,
    List.forall_mem_cons]
  simp [Literal.TrueIn, Structure.atoms, Structure.eval]

/-- The query is false, because there is an individual outside `P`. It is not that of any
    constant, but the constant made for `x` can be given it. -/
theorem negate_exact_everyoneInP :
    (∃ negated b', Build.negate "∀x (∃y (R(x, y) ∧ P(y)))" {} = (.ok negated, b') ∧
      (∀ v, ¬ everyoneInP.Holds twoIndividuals v) ∧
      twoIndividuals.ExpandsTo
        (Builder.IntroducesSince {} b' "∀x (∃y (R(x, y) ∧ P(y)))".toList) [negated]) ∧
    ∃ b', Build.negate "∃x (∀y R(x, y))" {}
      = (.error (.malformed "∃x (∀y R(x, y))" .skolemFunction), b') := by
  constructor
  · have hrun : Build.negate "∀x (∃y (R(x, y) ∧ P(y)))" {} = (.ok
        ⟨[{ name := "R", args := [.const "Sk1", .var "v1"], negated := true },
          { name := "P", args := [.var "v1"], negated := true }]⟩,
        (Build.negate "∀x (∃y (R(x, y) ∧ P(y)))" {}).2) :=
      eq_ok_of_toOption (by decide +kernel)
    have hfalse : ∀ v, ¬ everyoneInP.Holds twoIndividuals v := by
      intro v hholds
      obtain ⟨a, hequal, hin⟩ := holds_everyoneInP.1 hholds false
      exact Bool.false_ne_true (hequal.trans hin)
    refine ⟨_, _, hrun, hfalse, ?_⟩
    obtain ⟨text, F, ⟨hnorm, hparse⟩, _, hexact⟩ := (negate_exact.{0} _ {}).1 _ _ hrun
    obtain rfl := Except.ok.inj (reads_everyoneInP.1.symm.trans hnorm)
    obtain rfl := Option.some.inj (reads_everyoneInP.2.symm.trans hparse)
    refine (hexact ?_ (.inr ?_) twoIndividuals).1 hfalse
    · simp [everyoneInP, bound, lead]
    · simp [everyoneInP, bound, lead, body, free, Literal.vars, Term.vars]
  · have hnorm : Sentence.normalize "∃x (∀y R(x, y))" = .ok "∃x (∀y R(x, y))".toList :=
      ok_of_toOption (by decide +kernel)
    have hlead : quantifiersOf (leading "∃x (∀y R(x, y))".toList).1
        = [] ++ (.existential, "x") :: [(.universal, "y")] := by decide +kernel
    exact (negate_exact.{0} _ {}).2 _ _ _ _ _ hnorm hlead (List.mem_singleton_self _)

end Refuter
