import Refuter.Proofs.Equivariance
import Refuter.Proofs.Freshness

/-! # Clauses that differ in names only

Two clauses are *variants* when one becomes the other by new names for its variables,
different ones for different variables, and given new names for its constants. Lists of
clauses are *alike* when their clauses are variants one by one, the constants renamed in
the same way everywhere.

**Key fact.** Clauses that come from the same clauses by putting in terms are alike exactly
when the same places hold equal terms (`alike_iff_matching`): inside one clause for
variables, across all clauses for constants.
-/

namespace Refuter

/-! ### The terms of a clause -/

/-- The terms of a clause, in order and with repetitions. -/
def Clause.terms (c : Clause) : List Term :=
  c.literals.flatMap (·.args)

namespace Clause

theorem mem_terms {c : Clause} {t : Term} : t ∈ c.terms ↔ ∃ l ∈ c.literals, t ∈ l.args :=
  List.mem_flatMap

theorem mem_vars_iff {c : Clause} {x : String} : x ∈ c.vars ↔ Term.var x ∈ c.terms :=
  mem_vars.trans mem_terms.symm

theorem terms_mapTerms (f : Term → Term) (c : Clause) : (c.mapTerms f).terms = c.terms.map f := by
  simp [terms, mapTerms, Literal.mapArgs, List.map_flatMap, List.flatMap_map]

theorem mapTerms_id (c : Clause) : c.mapTerms id = c := by
  have hliteral : Literal.mapArgs id = id := funext fun l => by simp [Literal.mapArgs]
  rw [mapTerms, hliteral, List.map_id]

theorem mapTerms_mapTerms (f g : Term → Term) (c : Clause) :
    (c.mapTerms f).mapTerms g = c.mapTerms (g ∘ f) := by
  simp [mapTerms, Literal.mapArgs]

theorem mapTerms_eq_iff {f g : Term → Term} {c : Clause} :
    c.mapTerms f = c.mapTerms g ↔ ∀ t ∈ c.terms, f t = g t := by
  simp only [mapTerms, Clause.mk.injEq, List.map_inj_left, Literal.mapArgs, Literal.mk.injEq,
    true_and, and_true, mem_terms]
  constructor
  · rintro h t ⟨l, hl, ht⟩
    exact h l hl t ht
  · intro h l hl t ht
    exact h t ⟨l, hl, ht⟩

/-! ### Variants -/

/-- Does a clause become another by new names for its variables, different ones for
    different variables, and by `κ` for its constants? -/
def Variant (κ : String → String) (c c' : Clause) : Prop :=
  ∃ g : String → String, Set.InjOn g {x | x ∈ c.vars} ∧ c' = (Renaming.mk g κ).clause c

theorem Variant.trans {κ κ' : String → String} {c d e : Clause} (hcd : c.Variant κ d)
    (hde : d.Variant κ' e) : c.Variant (κ' ∘ κ) e := by
  obtain ⟨g, hg, rfl⟩ := hcd
  obtain ⟨g', hg', rfl⟩ := hde
  have hvars : ∀ x ∈ c.vars, g x ∈ ((Renaming.mk g κ).clause c).vars := by
    intro x hx
    rw [mem_vars_iff] at hx ⊢
    exact terms_mapTerms (Renaming.term ⟨g, κ⟩) c ▸ List.mem_map.2 ⟨_, hx, rfl⟩
  refine ⟨g' ∘ g, fun x hx y hy hxy => hg hx hy (hg' (hvars x hx) (hvars y hy) hxy), ?_⟩
  refine (mapTerms_mapTerms _ _ c).trans (mapTerms_eq_iff.2 fun t _ => ?_)
  cases t <;> rfl

/-- New names for variables only can be taken back. -/
theorem Variant.symm {c d : Clause} (h : c.Variant id d) : d.Variant id c := by
  obtain ⟨g, hg, rfl⟩ := h
  have hback : Set.LeftInvOn (Function.invFunOn g {x | x ∈ c.vars}) g {x | x ∈ c.vars} :=
    hg.leftInvOn_invFunOn
  refine ⟨Function.invFunOn g {x | x ∈ c.vars}, fun x hx y hy hxy => ?_, ?_⟩
  · -- every new name comes from an old one
    have hold : ∀ z ∈ ((Renaming.mk g id).clause c).vars, ∃ w ∈ c.vars, g w = z := by
      intro z hz
      rw [mem_vars_iff] at hz
      obtain ⟨t, ht, htz⟩ := List.mem_map.1 (terms_mapTerms (Renaming.term ⟨g, id⟩) c ▸ hz)
      cases t with
      | var w => exact ⟨w, mem_vars_iff.2 ht, Term.var.inj htz⟩
      | const k => cases htz
    obtain ⟨v, hv, rfl⟩ := hold x hx
    obtain ⟨w, hw, rfl⟩ := hold y hy
    rw [hback hv, hback hw] at hxy
    rw [hxy]
  · refine ((mapTerms_id c).symm.trans (mapTerms_eq_iff.2 fun t ht => ?_)).trans
      (mapTerms_mapTerms _ _ c).symm
    cases t with
    | var x => exact congrArg Term.var (hback (mem_vars_iff.2 ht)).symm
    | const k => rfl

end Clause

/-- **Standardizing a clause** gives its variables different new names. -/
theorem Supply.standardize_spec (supply : Supply) (c : Clause) : ∃ fresh : String → String,
    (supply.standardize c).1 = c.mapTerms (Renaming.mk fresh id).term ∧
    Set.InjOn fresh {x | x ∈ c.vars} ∧
    ∀ x ∈ c.vars, fresh x ∉ supply.reserved ∧ ∃ n, fresh x = numberedName supply.stem n ∧
      supply.counter < n ∧ n ≤ (supply.standardize c).2.counter := by
  obtain ⟨number, hnumber, hinj⟩ := freshFor_spec (Finite.distinct c.vars) supply
  obtain ⟨_, hall⟩ := freshFor_fresh (Finite.distinct c.vars) supply
  refine ⟨fun x => numberedName supply.stem (number x), Clause.mapTerms_eq_iff.2 fun t ht => ?_,
    fun x hx y hy hxy => ?_, fun x hx => ?_⟩
  · cases t with
    | var x =>
      have hx := Finite.mem_distinct.2 (Clause.mem_vars_iff.2 ht)
      rw [renameTerm, (hnumber x hx).2, Option.getD_some]
      rfl
    | const k => rfl
  · exact hinj x (Finite.mem_distinct.2 hx) y (Finite.mem_distinct.2 hy) (numberedName_inj hxy)
  · obtain ⟨n, hn, hlt, hle, hnot⟩ :=
      hall _ (Substitution.mem_of_get? (hnumber x (Finite.mem_distinct.2 hx)).2)
    have hname : numberedName supply.stem (number x) = numberedName supply.stem n := Term.var.inj hn
    exact ⟨fun hmem => hnot (hname ▸ hmem), n, hname, hlt, hle⟩

/-- **Standardizing apart** makes a variant. -/
theorem Clause.variant_standardize (supply : Supply) (c : Clause) :
    c.Variant id (supply.standardize c).1 := by
  obtain ⟨fresh, heq, hinj, _⟩ := supply.standardize_spec c
  exact ⟨fresh, hinj, heq⟩

/-! ### Lists of clauses -/

theorem const_mem_constantsOf {clauses : List Clause} {k : String} :
    Term.const k ∈ constantsOf clauses ↔ ∃ c ∈ clauses, Term.const k ∈ c.terms := by
  simp [constantsOf, Finite.mem_distinct, Clause.terms, Term.isVar]

/-- Are clauses the same one by one, up to new names for the variables of each and for the
    introduced constants of all? Different constants get different names, and those that
    are not introduced keep theirs. -/
def Alike (introduced introduced' : String → Prop) (clauses clauses' : List Clause) : Prop :=
  ∃ κ : String → String, Set.InjOn κ {k | Term.const k ∈ constantsOf clauses} ∧
    (∀ k, Term.const k ∈ constantsOf clauses →
      (introduced k → introduced' (κ k)) ∧ (¬ introduced k → κ k = k)) ∧
    List.Forall₂ (Clause.Variant κ) clauses clauses'

theorem Clause.Variant.const_mem_iff {c d : Clause} (h : c.Variant id d) (k : String) :
    Term.const k ∈ c.terms ↔ Term.const k ∈ d.terms := by
  obtain ⟨g, _, rfl⟩ := h
  rw [show ((Renaming.mk g id).clause c).terms = c.terms.map (Renaming.mk g id).term from
    Clause.terms_mapTerms _ c]
  constructor
  · exact fun hk => List.mem_map.2 ⟨_, hk, rfl⟩
  · intro hk
    obtain ⟨t, ht, htk⟩ := List.mem_map.1 hk
    cases t with
    | var x => cases htk
    | const j => exact Term.const.inj htk ▸ ht

/-- Lists related member by member to the members in between. -/
theorem forall₂_trans {α β γ : Type} {R : α → β → Prop} {S : β → γ → Prop} {Q : α → γ → Prop}
    (hRS : ∀ {a b c}, R a b → S b c → Q a c) {as : List α} {bs : List β} (h : List.Forall₂ R as bs) :
    ∀ {cs : List γ}, List.Forall₂ S bs cs → List.Forall₂ Q as cs := by
  induction h with
  | nil =>
    intro cs h'
    cases h'
    exact .nil
  | cons hab _ ih =>
    intro cs h'
    cases h' with
    | cons hbc hrest => exact .cons (hRS hab hbc) (ih hrest)

theorem forall₂_variant_symm {cs ds : List Clause} (h : List.Forall₂ (Clause.Variant id) cs ds) :
    List.Forall₂ (Clause.Variant id) ds cs :=
  List.Forall₂.flip (h.imp fun _ _ => Clause.Variant.symm)

theorem Alike.of_variants {introduced introduced' : String → Prop} {cs ds cs' ds' : List Clause}
    (halike : Alike introduced introduced' cs cs') (h : List.Forall₂ (Clause.Variant id) cs ds)
    (h' : List.Forall₂ (Clause.Variant id) cs' ds') : Alike introduced introduced' ds ds' := by
  obtain ⟨κ, hinj, hallowed, hall⟩ := halike
  have hsame : ∀ k, Term.const k ∈ constantsOf ds → Term.const k ∈ constantsOf cs := by
    intro k hk
    obtain ⟨d, hd, hkd⟩ := const_mem_constantsOf.1 hk
    obtain ⟨c, hc, hvariant⟩ := Sentence.forall₂_mem_right h hd
    exact const_mem_constantsOf.2 ⟨c, hc, (hvariant.const_mem_iff k).2 hkd⟩
  refine ⟨κ, fun j hj k hk => hinj (hsame j hj) (hsame k hk),
    fun k hk => hallowed k (hsame k hk), ?_⟩
  have hleft : List.Forall₂ (Clause.Variant κ) ds cs' :=
    forall₂_trans (fun hdc hcc => hdc.trans hcc) (forall₂_variant_symm h) hall
  exact forall₂_trans (fun hdc hcc => hdc.trans hcc) hleft h'

/-- New names for variables on either side change nothing. -/
theorem alike_congr {introduced introduced' : String → Prop} {cs ds cs' ds' : List Clause}
    (h : List.Forall₂ (Clause.Variant id) cs ds) (h' : List.Forall₂ (Clause.Variant id) cs' ds') :
    Alike introduced introduced' cs cs' ↔ Alike introduced introduced' ds ds' :=
  ⟨fun halike => halike.of_variants h h',
    fun halike => halike.of_variants (forall₂_variant_symm h) (forall₂_variant_symm h')⟩

/-- A map of names that takes one family of names to another, and all other names to
    themselves. -/
theorem exists_extension {α : Type} {A : Set α} {a b : α → String}
    (h : ∀ s ∈ A, ∀ t ∈ A, a s = a t ↔ b s = b t) :
    ∃ κ : String → String, (∀ s ∈ A, κ (a s) = b s) ∧ Set.InjOn κ (a '' A) ∧
      ∀ z, (∀ s ∈ A, a s ≠ z) → κ z = z := by
  let κ : String → String := Function.extend (fun s : A => a s) (fun s : A => b s) id
  have hfactors : Function.FactorsThrough (fun s : A => b s) (fun s : A => a s) :=
    fun s t hst => (h s s.2 t t.2).1 hst
  have hκ : ∀ s ∈ A, κ (a s) = b s := fun s hs => hfactors.extend_apply id ⟨s, hs⟩
  refine ⟨κ, hκ, ?_, fun z hz => Function.extend_apply' _ _ _ fun ⟨s, hs⟩ => hz s s.2 hs⟩
  rintro _ ⟨s, hs, rfl⟩ _ ⟨t, ht, rfl⟩ hst
  rw [hκ s hs, hκ t ht] at hst
  exact (h s hs t ht).2 hst

/-- Terms of one kind that are put in two ways: if the same ones are equal, new names lead
    from one way to the other. All other names are kept. -/
theorem exists_renaming {α : Type} (A : Set α) {S S' : α → Term} (kind : Bool)
    (hkind : ∀ s ∈ A, (S s).isVar = kind ∧ (S' s).isVar = kind)
    (h : ∀ s ∈ A, ∀ t ∈ A, S s = S t ↔ S' s = S' t) :
    ∃ κ : String → String,
      (∀ s ∈ A, ∀ k, S s = .ofKind kind k → S' s = .ofKind kind (κ k)) ∧
      Set.InjOn κ {k | ∃ s ∈ A, S s = .ofKind kind k} ∧
      ∀ k, (∀ s ∈ A, S s ≠ .ofKind kind k) → κ k = k := by
  -- among terms of one kind the names tell them apart
  have hname : ∀ {t : Term}, t.isVar = kind → t = .ofKind kind t.name := by
    rintro (x | k) rfl <;> rfl
  have heq : ∀ {t u : Term}, t.isVar = kind → u.isVar = kind → (t = u ↔ t.name = u.name) := by
    intro t u ht hu
    refine ⟨congrArg Term.name, fun htu => ?_⟩
    rw [hname ht, hname hu, htu]
  obtain ⟨κ, hκ, hinj, hother⟩ := exists_extension (A := A) (a := fun s => (S s).name)
    (b := fun s => (S' s).name) fun s hs t ht => by
      rw [← heq (hkind s hs).1 (hkind t ht).1, ← heq (hkind s hs).2 (hkind t ht).2]
      exact h s hs t ht
  have hofKind : ∀ k, (Term.ofKind kind k).name = k := by
    cases kind <;> exact fun _ => rfl
  have hplace : ∀ s ∈ A, ∀ k, S s = .ofKind kind k → (S s).name = k :=
    fun s _ k hk => by rw [hk, hofKind]
  refine ⟨κ, fun s hs k hk => ?_, ?_, fun k hk => hother k fun s hs hsk => ?_⟩
  · rw [hname (hkind s hs).2, ← hplace s hs k hk, hκ s hs]
  · rintro j ⟨s, hs, hj⟩ k ⟨t, ht, hk⟩ hjk
    exact hinj ⟨s, hs, hplace s hs j hj⟩ ⟨t, ht, hplace t ht k hk⟩ hjk
  · exact hk s hs (hsk ▸ hname (hkind s hs).1)

/-- Two ways of putting terms into clauses, the same in all that names do not decide. -/
structure Matching (introduced introduced' : String → Prop) (cs : List Clause)
    (S S' : Term → Term) : Prop where
  /-- The same places hold variables, and constants that are introduced or kept. -/
  places : ∀ c ∈ cs, ∀ t ∈ c.terms, (S t).isVar = (S' t).isVar ∧ ∀ k k', S t = .const k →
    S' t = .const k' → (introduced k → introduced' k') ∧ (¬ introduced k → k' = k)
  /-- The same places of a clause hold equal terms. -/
  within : ∀ c ∈ cs, ∀ t ∈ c.terms, ∀ u ∈ c.terms, S t = S u ↔ S' t = S' u
  /-- The same places of all clauses hold equal constants. -/
  across : ∀ c ∈ cs, ∀ t ∈ c.terms, (S t).isVar = false → ∀ d ∈ cs, ∀ u ∈ d.terms,
    S t = S u ↔ S' t = S' u

section Matching

variable {introduced introduced' : String → Prop} {cs : List Clause} {S S' : Term → Term}

theorem const_mem_constantsOf_map {k : String} :
    Term.const k ∈ constantsOf (cs.map (·.mapTerms S)) ↔ ∃ c ∈ cs, ∃ t ∈ c.terms, S t = .const k := by
  simp [const_mem_constantsOf, Clause.terms_mapTerms]

theorem mapTerms_eq_clause_iff {g κ : String → String} {c : Clause} :
    c.mapTerms S' = (Renaming.mk g κ).clause (c.mapTerms S) ↔
      ∀ t ∈ c.terms, S' t = (Renaming.mk g κ).term (S t) :=
  Iff.trans (Eq.congr_right (Clause.mapTerms_mapTerms S (Renaming.mk g κ).term c))
    Clause.mapTerms_eq_iff

/-- Clauses that are alike hold the same in the same places. -/
theorem Alike.matching (h : Alike introduced introduced' (cs.map (·.mapTerms S))
    (cs.map (·.mapTerms S'))) : Matching introduced introduced' cs S S' := by
  obtain ⟨κ, hinj, hallowed, hall⟩ := h
  have hclause : ∀ c ∈ cs, ∃ g : String → String, Set.InjOn g {x | x ∈ (c.mapTerms S).vars} ∧
      ∀ t ∈ c.terms, S' t = (Renaming.mk g κ).term (S t) := by
    rw [List.forall₂_map_left_iff, List.forall₂_map_right_iff, List.forall₂_same] at hall
    intro c hc
    obtain ⟨g, hg, heq⟩ := hall c hc
    exact ⟨g, hg, mapTerms_eq_clause_iff.1 heq⟩
  -- a place of one clause against a place of another, when the first holds a constant
  have hacross : ∀ c ∈ cs, ∀ t ∈ c.terms, (S t).isVar = false → ∀ d ∈ cs, ∀ u ∈ d.terms,
      S t = S u ↔ S' t = S' u := by
    intro c hc t ht hkind d hd u hu
    obtain ⟨g, _, hg⟩ := hclause c hc
    obtain ⟨g', _, hg'⟩ := hclause d hd
    rw [hg t ht, hg' u hu]
    cases ht' : S t with
    | var x => rw [ht'] at hkind; cases hkind
    | const j =>
      cases hu' : S u with
      | var x => simp [Renaming.term]
      | const k =>
        simp only [Renaming.term, Term.const.injEq]
        exact ⟨congrArg κ, fun hjk => hinj (const_mem_constantsOf_map.2 ⟨c, hc, t, ht, ht'⟩)
          (const_mem_constantsOf_map.2 ⟨d, hd, u, hu, hu'⟩) hjk⟩
  refine ⟨fun c hc t ht => ⟨?_, fun k k' hk hk' => ?_⟩, fun c hc t ht u hu => ?_, hacross⟩
  · obtain ⟨g, _, hg⟩ := hclause c hc
    rw [hg t ht]
    cases S t <;> rfl
  · obtain ⟨g, _, hg⟩ := hclause c hc
    have hκ : k' = κ k := by
      have := hg t ht
      rw [hk, hk'] at this
      exact Term.const.inj this
    rw [hκ]
    exact hallowed k (const_mem_constantsOf_map.2 ⟨c, hc, t, ht, hk⟩)
  · obtain ⟨g, hinjg, hg⟩ := hclause c hc
    by_cases hkind : (S t).isVar = false
    · exact hacross c hc t ht hkind c hc u hu
    · rw [hg t ht, hg u hu]
      cases ht' : S t with
      | const j => rw [ht'] at hkind; exact absurd rfl hkind
      | var x =>
        cases hu' : S u with
        | const k => simp [Renaming.term]
        | var y =>
          have hvars : ∀ w ∈ c.terms, ∀ z, S w = .var z → z ∈ (c.mapTerms S).vars := by
            intro w hw z hz
            rw [Clause.mem_vars_iff, Clause.terms_mapTerms]
            exact List.mem_map.2 ⟨w, hw, hz⟩
          simp only [Renaming.term, Term.var.injEq]
          exact ⟨congrArg g, fun hxy => hinjg (hvars t ht x ht') (hvars u hu y hu') hxy⟩

/-- New names for constants are found from the places of all clauses, and for the variables
    of a clause from its own. -/
theorem Matching.alike (h : Matching introduced introduced' cs S S') :
    Alike introduced introduced' (cs.map (·.mapTerms S)) (cs.map (·.mapTerms S')) := by
  obtain ⟨κ, hκ, hinj, _⟩ := exists_renaming
    {t | ∃ c ∈ cs, t ∈ c.terms ∧ (S t).isVar = false} false
    (fun t ⟨c, hc, ht, hkt⟩ => ⟨hkt, (h.places c hc t ht).1.symm.trans hkt⟩)
    fun t ⟨c, hc, ht, hkt⟩ u ⟨d, hd, hu, _⟩ => h.across c hc t ht hkt d hd u hu
  have hplace : ∀ {k}, Term.const k ∈ constantsOf (cs.map (·.mapTerms S)) →
      ∃ c ∈ cs, ∃ t ∈ c.terms, (S t).isVar = false ∧ S t = .const k := by
    intro k hk
    obtain ⟨c, hc, t, ht, htk⟩ := const_mem_constantsOf_map.1 hk
    exact ⟨c, hc, t, ht, by rw [htk]; rfl, htk⟩
  refine ⟨κ, fun j hj k hk hjk => ?_, fun k hk => ?_, ?_⟩
  · obtain ⟨c, hc, t, ht, hkt, htj⟩ := hplace hj
    obtain ⟨d, hd, u, hu, hku, huk⟩ := hplace hk
    exact hinj ⟨t, ⟨c, hc, ht, hkt⟩, htj⟩ ⟨u, ⟨d, hd, hu, hku⟩, huk⟩ hjk
  · obtain ⟨c, hc, t, ht, hkt, htk⟩ := hplace hk
    exact (h.places c hc t ht).2 k (κ k) htk (hκ t ⟨c, hc, ht, hkt⟩ k htk)
  · rw [List.forall₂_map_left_iff, List.forall₂_map_right_iff, List.forall₂_same]
    intro c hc
    obtain ⟨g, hg, hinjg, _⟩ := exists_renaming {t | t ∈ c.terms ∧ (S t).isVar = true} true
      (fun t ⟨ht, hkt⟩ => ⟨hkt, (h.places c hc t ht).1.symm.trans hkt⟩)
      fun t ⟨ht, _⟩ u ⟨hu, _⟩ => h.within c hc t ht u hu
    refine ⟨g, fun x hx y hy hxy => ?_, mapTerms_eq_clause_iff.2 fun t ht => ?_⟩
    · have hvar : ∀ z ∈ (c.mapTerms S).vars,
          ∃ t ∈ {t | t ∈ c.terms ∧ (S t).isVar = true}, S t = .var z := by
        intro z hz
        rw [Clause.mem_vars_iff, Clause.terms_mapTerms] at hz
        obtain ⟨t, ht, htz⟩ := List.mem_map.1 hz
        exact ⟨t, ⟨ht, by rw [htz]; rfl⟩, htz⟩
      exact hinjg (hvar x hx) (hvar y hy) hxy
    · cases hst : S t with
      | const k => exact hκ t ⟨c, hc, ht, by rw [hst]; rfl⟩ k hst
      | var x => exact hg t ⟨ht, by rw [hst]; rfl⟩ x hst

/-- **Alike up to names is alike in what is equal.** -/
theorem alike_iff_matching : Alike introduced introduced' (cs.map (·.mapTerms S))
    (cs.map (·.mapTerms S')) ↔ Matching introduced introduced' cs S S' :=
  ⟨Alike.matching, Matching.alike⟩

end Matching

/-! ### Clauses renamed apart in a row -/

/-- **Standardizing apart** succeeds: it makes variants whose variables have been handed out,
    and uses up names. -/
theorem Build.mapM_standardize (cs : List Clause) : ∀ b : Builder, ∃ renamed supply,
    cs.mapM standardize b = (.ok renamed, { b with supply }) ∧
      List.Forall₂ (Clause.Variant id) cs renamed ∧ b.Grows { b with supply } ∧
      ∀ c ∈ renamed, ∀ x ∈ c.vars, ∃ n ≤ supply.counter, x = numberedName b.supply.stem n := by
  induction cs with
  | nil => exact fun b => ⟨[], b.supply, rfl, .nil, .refl b, by simp⟩
  | cons c rest ih =>
    intro b
    have hgrows := b.grows_standardize c
    obtain ⟨fresh, heq, _, hfresh⟩ := b.supply.standardize_spec c
    obtain ⟨renamed, supply, hrun, hall, hgrows', hvars⟩ :=
      ih { b with supply := (b.supply.standardize c).2 }
    refine ⟨(b.supply.standardize c).1 :: renamed, supply, ?_,
      .cons (c.variant_standardize _) hall, hgrows.trans hgrows',
      List.forall_mem_cons.2 ⟨fun x hx => ?_, fun d hd x hx => ?_⟩⟩
    · rw [List.mapM_cons]
      exact bind_ok_iff.2 ⟨_, _, rfl, bind_pure_ok_iff.2 ⟨renamed, hrun, rfl⟩⟩
    · rw [heq, Clause.mem_vars_iff, Clause.terms_mapTerms] at hx
      obtain ⟨t, ht, htx⟩ := List.mem_map.1 hx
      cases t with
      | const k => cases htx
      | var y =>
        obtain ⟨_, n, hn, _, hle⟩ := hfresh y (Clause.mem_vars_iff.2 ht)
        exact ⟨n, Nat.le_trans hle hgrows'.counter, (Term.var.inj htx).symm.trans hn⟩
    · obtain ⟨n, hn, hx⟩ := hvars d hd x hx
      exact ⟨n, hn, hx.trans (congrArg (numberedName · n) hgrows.stem)⟩

end Refuter
