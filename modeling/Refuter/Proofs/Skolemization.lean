import Refuter.Proofs.Freshness
import Refuter.Proofs.Rendering
import Refuter.Proofs.Words

/-! # What Skolem constants make true

A conversion leaves the quantifiers out and puts constants in place of the names that
an `∃` binds (an `∀`, in front of an arrow). Its clauses are true in some expansion of a
structure exactly when values for these names make the matrix true, whatever the other
variables are.

- Such values are there when each quantifier that is Skolemized has a name of its own and
  all free variables in its scope belong to Skolemized quantifiers around it
  (`Formula.Separate`).
- Neither is checked. A constant belongs to a name and not to a quantifier, and variables
  that no quantifier binds are not counted as universal.

**Which way the implication goes.** In front of an arrow both the markers and the
direction swap, so the argument is one induction over formulas for both markers.
-/

namespace Refuter

universe u

open Sentence Formula

/-! ### Two directions -/

/-- What Skolemizing the names bound by a marker has to give: for `∃` the matrix follows
    from the meaning, for `∀` the meaning from the matrix. -/
def Sentence.Marker.Carries : Marker → Prop → Prop → Prop
  | .existential, p, q => p → q
  | .universal, p, q => q → p

namespace Sentence.Marker

theorem eq_dual_of_ne {k m : Marker} (h : k ≠ m) : k = m.dual := by
  cases k <;> cases m <;> first | rfl | exact absurd rfl h

theorem Carries.of_iff {m : Marker} {p q : Prop} (h : p ↔ q) : m.Carries p q := by
  cases m with
  | universal => exact h.2
  | existential => exact h.1

theorem Carries.trans {m : Marker} {p q r : Prop} (hpq : m.Carries p q) (hqr : m.Carries q r) :
    m.Carries p r := by
  cases m with
  | universal => exact hpq ∘ hqr
  | existential => exact hqr ∘ hpq

theorem Carries.imp {m : Marker} {p p' q q' : Prop} (hp : m.dual.Carries p p')
    (hq : m.Carries q q') : m.Carries (p → q) (p' → q') := by
  cases m with
  | universal => exact fun h hpp => hq (h (hp hpp))
  | existential => exact fun h hpp => hq (h (hp hpp))

theorem Carries.combine {m : Marker} (j : Junctor) {α : Type} {p q : α → Prop} {xs : List α}
    (h : ∀ x ∈ xs, m.Carries (p x) (q x)) :
    m.Carries (j.Combine (xs.map p)) (j.Combine (xs.map q)) := by
  cases j with
  | and =>
    simp only [Junctor.Combine, List.forall_mem_map]
    cases m with
    | universal => exact fun hq x hx => h x hx (hq x hx)
    | existential => exact fun hp x hx => h x hx (hp x hx)
  | or =>
    simp only [Junctor.Combine, List.mem_map, exists_exists_and_eq_and]
    cases m with
    | universal =>
      rintro ⟨x, hx, hq⟩
      exact ⟨x, hx, h x hx hq⟩
    | existential =>
      rintro ⟨x, hx, hp⟩
      exact ⟨x, hx, h x hx hp⟩

end Sentence.Marker

namespace Formula

/-! ### Formulas whose Skolem constants are enough -/

/-- The free variables of each formula bound by `m` are among `outer` and those bound by
    `m` around it. In front of an arrow it is the other marker. -/
def Grounded (m : Marker) (outer : List String) : Formula → Prop
  | .literal _ => True
  | .joined _ parts => ∀ F ∈ parts, F.Grounded m outer
  | .implies A C => A.Grounded m.dual outer ∧ C.Grounded m outer
  | .quantified k x G =>
    if k = m then (∀ y ∈ (Formula.quantified k x G).free, y ∈ outer) ∧ G.Grounded m (x :: outer)
    else G.Grounded m outer

/-- No two Skolemized quantifiers share a name, and none of them has variables in its
    scope that range over the domain. -/
def Separate (F : Formula) : Prop :=
  (F.skolems .existential).Nodup ∧ F.Grounded .existential []

/-- No quantifier that is Skolemized is written in the scope of one that is not. -/
def Skolemizable (m : Marker) (inScope : Bool) : Formula → Prop
  | .literal _ => True
  | .joined _ parts => ∀ F ∈ parts, F.Skolemizable m inScope
  | .implies A C => A.Skolemizable m.dual inScope ∧ C.Skolemizable m inScope
  | .quantified k _ G =>
    if k = m then inScope = false ∧ G.Skolemizable m inScope else G.Skolemizable m true

/-! ### Values for the Skolemized names -/

section Values

variable {M : Structure.{u}}

/-- Do values for the Skolemized names, given those of the names around, carry the meaning
    of a formula over to its matrix? All other variables may have any value. -/
def Fits (M : Structure.{u}) (m : Marker) (outer : List String) (e : String → M.Domain)
    (F : Formula) : Prop :=
  ∀ v : String → M.Domain, (∀ y ∈ outer, v y = e y) → (∀ y ∈ F.skolems m, v y = e y) →
    m.Carries (F.Holds M v) (F.Matrix (M.atoms v))

/-- A quantifier that is Skolemized has a value that stands for all others. -/
theorem exists_carries (m : Marker) (x : String) (G : Formula) (v : String → M.Domain) :
    ∃ a, m.Carries ((Formula.quantified m x G).Holds M v) (G.Holds M (Function.update v x a)) := by
  obtain ⟨a₀⟩ := M.nonempty
  cases m with
  | existential =>
    by_cases h : ∃ a, G.Holds M (Function.update v x a)
    · obtain ⟨a, ha⟩ := h
      exact ⟨a, fun _ => ha⟩
    · exact ⟨a₀, fun hholds => absurd (by rwa [Holds] at hholds) h⟩
  | universal =>
    by_cases h : ∀ a, G.Holds M (Function.update v x a)
    · exact ⟨a₀, fun _ => by rw [Holds]; exact h⟩
    · obtain ⟨a, ha⟩ := not_forall.1 h
      exact ⟨a, fun hholds => absurd hholds ha⟩

/-- A quantifier that is not Skolemized can be dropped. -/
theorem carries_drop (m : Marker) (x : String) (G : Formula) (v : String → M.Domain) :
    m.Carries ((Formula.quantified m.dual x G).Holds M v) (G.Holds M v) := by
  have hself : Function.update v x (v x) = v := Function.update_eq_self x v
  cases m with
  | existential =>
    intro h
    rw [Marker.dual, Holds] at h
    have := h (v x)
    rwa [hself] at this
  | universal =>
    intro h
    rw [Marker.dual, Holds]
    exact ⟨v x, by rwa [hself]⟩

/-- A choice for the names of one list and then for those of another. What the first has
    given stays when it does not depend on the names of the second. -/
theorem exists_choices {α : Type u} {names names' : List String} {P Q : (String → α) → Prop}
    (hP : ∀ e₀ : String → α, ∃ e, (∀ y, y ∉ names → e y = e₀ y) ∧ P e)
    (hQ : ∀ e₀ : String → α, ∃ e, (∀ y, y ∉ names' → e y = e₀ y) ∧ Q e)
    (hkeep : ∀ e e' : String → α, (∀ y, y ∉ names' → e' y = e y) → P e → P e')
    (e₀ : String → α) :
    ∃ e, (∀ y, y ∉ names ++ names' → e y = e₀ y) ∧ P e ∧ Q e := by
  obtain ⟨e₁, he₁, hPe₁⟩ := hP e₀
  obtain ⟨e, he, hQe⟩ := hQ e₁
  refine ⟨e, ?_, hkeep e₁ e he hPe₁, hQe⟩
  intro y hy
  rw [List.mem_append, not_or] at hy
  rw [he y hy.2, he₁ y hy.1]

/-- Values for other names do not matter. -/
theorem Fits.keep {m : Marker} {outer names : List String} {e e' : String → M.Domain} {F : Formula}
    (h : F.Fits M m outer e) (houter : ∀ y ∈ names, y ∉ outer)
    (hdisjoint : ∀ y ∈ F.skolems m, y ∉ names) (he : ∀ y, y ∉ names → e' y = e y) :
    F.Fits M m outer e' := by
  intro v hv hskolems
  apply h v
  · intro y hy
    rw [hv y hy, he y fun hmem => houter y hmem hy]
  · intro y hy
    rw [hskolems y hy, he y (hdisjoint y hy)]

/-- **Several formulas** whose names differ: their values are chosen one after the other. -/
theorem exists_fits_list {m : Marker} {outer : List String} {parts : List Formula}
    (hone : ∀ F ∈ parts, ∀ e₀ : String → M.Domain, ∃ e, (∀ y, y ∉ F.skolems m → e y = e₀ y) ∧
      F.Fits M m outer e)
    (hnodup : (parts.flatMap (skolems m)).Nodup)
    (houter : ∀ y ∈ parts.flatMap (skolems m), y ∉ outer) (e₀ : String → M.Domain) :
    ∃ e, (∀ y, y ∉ parts.flatMap (skolems m) → e y = e₀ y) ∧
      ∀ F ∈ parts, F.Fits M m outer e := by
  induction parts generalizing e₀ with
  | nil => exact ⟨e₀, fun _ _ => rfl, by simp⟩
  | cons F rest ih =>
    simp only [List.flatMap_cons] at hnodup houter ⊢
    obtain ⟨_, hrest, hdisjoint⟩ := List.nodup_append.1 hnodup
    have hrestOuter : ∀ y ∈ rest.flatMap (skolems m), y ∉ outer :=
      fun y hy => houter y (List.mem_append_right _ hy)
    have htail := ih (fun G hG => hone G (List.mem_cons_of_mem _ hG)) hrest hrestOuter
    obtain ⟨e, he, hF, hall⟩ := exists_choices (hone F (List.mem_cons_self ..)) htail
      (fun _ _ he hF => hF.keep hrestOuter (fun y hy hmem => hdisjoint y hy y hmem rfl) he) e₀
    exact ⟨e, he, List.forall_mem_cons.2 ⟨hF, hall⟩⟩

theorem Fits.joined {m : Marker} {outer : List String} {e : String → M.Domain} {j : Junctor}
    {parts : List Formula} (h : ∀ F ∈ parts, F.Fits M m outer e) :
    (Formula.joined j parts).Fits M m outer e := by
  intro v hv hskolems
  rw [skolems] at hskolems
  rw [Holds, Matrix]
  refine .combine j fun F hF => h F hF v hv ?_
  intro y hy
  exact hskolems y (List.mem_flatMap.2 ⟨F, hF, hy⟩)

theorem Fits.implies {m : Marker} {outer : List String} {e : String → M.Domain} {A C : Formula}
    (hA : A.Fits M m.dual outer e) (hC : C.Fits M m outer e) :
    (Formula.implies A C).Fits M m outer e := by
  intro v hv hskolems
  rw [skolems] at hskolems
  rw [Holds, Matrix]
  apply Marker.Carries.imp
  · exact hA v hv fun y hy => hskolems y (List.mem_append_left _ hy)
  · exact hC v hv fun y hy => hskolems y (List.mem_append_right _ hy)

/-- A Skolemized quantifier: the value of its name has been chosen for those of the names
    around, so its free variables must be among these. -/
theorem Fits.skolemized {m : Marker} {outer : List String} {e₀ e : String → M.Domain} {x : String}
    {G : Formula}
    (hcarries : m.Carries ((Formula.quantified m x G).Holds M e₀)
      (G.Holds M (Function.update e₀ x (e x))))
    (hfree : ∀ y ∈ (Formula.quantified m x G).free, y ∈ outer)
    (hkeep : ∀ y ∈ outer, e y = e₀ y) (hG : G.Fits M m (x :: outer) e) :
    (Formula.quantified m x G).Fits M m outer e := by
  intro v hv hskolems
  rw [skolems, if_pos rfl] at hskolems
  have hvx : v x = e x := hskolems x (List.mem_cons_self ..)
  have hwhole : ∀ y ∈ (Formula.quantified m x G).free, v y = e₀ y := by
    intro y hy
    rw [hv y (hfree y hy), hkeep y (hfree y hy)]
  have hbody : ∀ y ∈ G.free, Function.update e₀ x (e x) y = v y := by
    intro y hy
    by_cases hyx : y = x
    · rw [hyx, Function.update_self, hvx]
    · rw [Function.update_of_ne hyx, hwhole y]
      rw [free]
      exact List.mem_filter.2 ⟨hy, by simpa using hyx⟩
  rw [Matrix]
  -- `v` may be changed to `e₀` in front of the quantifier and back behind it
  refine Marker.Carries.trans (.of_iff (holds_congr hwhole)) (.trans hcarries (.trans
    (.of_iff (holds_congr hbody)) (hG v (List.forall_mem_cons.2 ⟨hvx, hv⟩) ?_)))
  intro y hy
  exact hskolems y (List.mem_cons_of_mem _ hy)

theorem Fits.dropped {k m : Marker} {outer : List String} {e : String → M.Domain} {x : String}
    {G : Formula} (hk : k ≠ m) (hG : G.Fits M m outer e) :
    (Formula.quantified k x G).Fits M m outer e := by
  intro v hv hskolems
  rw [skolems, if_neg hk] at hskolems
  rw [Matrix]
  obtain rfl := Marker.eq_dual_of_ne hk
  exact (carries_drop m x G v).trans (hG v hv hskolems)

/-- **Values for the Skolemized names.** The formulas around have chosen first, and what
    they chose is kept. -/
theorem exists_fits {F : Formula} : ∀ {m : Marker} {outer : List String} (e₀ : String → M.Domain),
    F.Grounded m outer → (F.skolems m).Nodup → (∀ y ∈ F.skolems m, y ∉ outer) →
    ∃ e, (∀ y, y ∉ F.skolems m → e y = e₀ y) ∧ F.Fits M m outer e := by
  induction F with
  | literal l =>
    refine fun e₀ _ _ _ => ⟨e₀, fun _ _ => rfl, fun v _ _ => .of_iff ?_⟩
    rw [Holds, Matrix]
  | joined j parts ih =>
    intro m outer e₀ hground hnodup houter
    rw [Grounded] at hground
    rw [skolems] at hnodup houter ⊢
    have hone : ∀ F ∈ parts, ∀ e₀ : String → M.Domain, ∃ e, (∀ y, y ∉ F.skolems m → e y = e₀ y) ∧
        F.Fits M m outer e := by
      refine fun F hF e₀ => ih F hF e₀ (hground F hF) ?_ fun y hy => ?_
      · exact (List.nodup_flatMap.1 hnodup).1 F hF
      · exact houter y (List.mem_flatMap.2 ⟨F, hF, hy⟩)
    obtain ⟨e, he, hfits⟩ := exists_fits_list hone hnodup houter e₀
    exact ⟨e, he, .joined hfits⟩
  | implies A C ihA ihC =>
    intro m outer e₀ hground hnodup houter
    rw [Grounded] at hground
    rw [skolems] at hnodup houter ⊢
    obtain ⟨hnodupA, hnodupC, hdisjoint⟩ := List.nodup_append.1 hnodup
    have houterA : ∀ y ∈ A.skolems m.dual, y ∉ outer :=
      fun y hy => houter y (List.mem_append_left _ hy)
    have houterC : ∀ y ∈ C.skolems m, y ∉ outer :=
      fun y hy => houter y (List.mem_append_right _ hy)
    obtain ⟨e, he, hA, hC⟩ := exists_choices (fun e₀ => ihA e₀ hground.1 hnodupA houterA)
      (fun e₀ => ihC e₀ hground.2 hnodupC houterC)
      (fun _ _ he hA => hA.keep houterC (fun y hy hmem => hdisjoint y hy y hmem rfl) he) e₀
    exact ⟨e, he, hA.implies hC⟩
  | quantified k x G ih =>
    intro m outer e₀ hground hnodup houter
    by_cases hk : k = m
    · subst hk
      rw [Grounded, if_pos rfl] at hground
      rw [skolems, if_pos rfl] at hnodup houter ⊢
      obtain ⟨hx, hnodupG⟩ := List.nodup_cons.1 hnodup
      obtain ⟨hxouter, houterG⟩ := List.forall_mem_cons.1 houter
      -- the value of `x` depends on the names around only
      obtain ⟨a, ha⟩ := exists_carries k x G e₀
      obtain ⟨e, he, hG⟩ := ih (Function.update e₀ x a) hground.2 hnodupG fun y hy => by
        rw [List.mem_cons, not_or]
        exact ⟨fun hyx => hx (hyx ▸ hy), houterG y hy⟩
      have hex : e x = a := by rw [he x hx, Function.update_self]
      have heouter : ∀ y ∈ outer, e y = e₀ y := by
        intro y hy
        have hne : y ≠ x := fun hyx => hxouter (hyx ▸ hy)
        rw [he y fun hmem => houterG y hmem hy, Function.update_of_ne hne]
      refine ⟨e, ?_, .skolemized (hex ▸ ha) hground.1 heouter hG⟩
      intro y hy
      rw [List.mem_cons, not_or] at hy
      rw [he y hy.2, Function.update_of_ne hy.1]
    · rw [Grounded, if_neg hk] at hground
      rw [skolems, if_neg hk] at hnodup houter ⊢
      obtain ⟨e, he, hG⟩ := ih e₀ hground hnodup houter
      exact ⟨e, he, hG.dropped hk⟩

/-- **A separate formula that is true** has values for its Skolemized names that make its
    matrix true. -/
theorem Separate.exists_values {F : Formula} (h : F.Separate) (htrue : ∀ v, F.Holds M v) :
    ∃ e : String → M.Domain, ∀ v, (∀ x ∈ F.skolems .existential, v x = e x) →
      F.Matrix (M.atoms v) := by
  obtain ⟨a⟩ := M.nonempty
  obtain ⟨e, _, hfits⟩ := exists_fits (fun _ => a) h.2 h.1 (by simp)
  exact ⟨e, fun v hv => hfits v (by simp) hv (htrue v)⟩

end Values

/-! ### Facts are Skolemizable -/

theorem skolemizable_of_body {m : Marker} {b : Bool} {F : Formula} : ∀ {inScope : Bool},
    scopeBehind m inScope F.lead = some b → F.body.Skolemizable m b →
      F.Skolemizable m inScope := by
  induction F with
  | literal | joined | implies =>
    intro inScope henter hbody
    obtain rfl := Option.some.inj henter
    exact hbody
  | quantified k x G ih =>
    intro inScope henter hbody
    rw [lead, scopeBehind] at henter
    rw [Skolemizable]
    split
    · rename_i hk
      rw [if_pos hk] at henter
      cases inScope with
      | true => cases henter
      | false => exact ⟨rfl, ih henter hbody⟩
    · rename_i hk
      rw [if_neg hk] at henter
      exact ih henter hbody

theorem IsLiteral.skolemizable {m : Marker} {b : Bool} {F : Formula} (h : F.IsLiteral) :
    F.Skolemizable m b := by
  obtain ⟨l, rfl⟩ := h
  rw [Skolemizable]
  trivial

theorem Disjunction.skolemizable {b : Bool} {F : Formula} (h : F.Disjunction b) :
    F.Skolemizable .existential b := by
  obtain ⟨b', henter, hl | ⟨parts, hbody, hparts⟩⟩ := h
  · exact skolemizable_of_body henter hl.skolemizable
  · refine skolemizable_of_body henter ?_
    rw [hbody, Skolemizable]
    intro G hG
    obtain ⟨_, henterG, hl⟩ := hparts G hG
    exact skolemizable_of_body henterG hl.skolemizable

theorem Premise.skolemizable {m : Marker} {b : Bool} {F : Formula} (h : F.Premise) :
    F.Skolemizable m b := by
  obtain hl | ⟨parts, rfl, hparts⟩ := h
  · exact hl.skolemizable
  · rw [Skolemizable]
    exact fun G hG => (hparts G hG).skolemizable

theorem Antecedent.skolemizable {b : Bool} {F : Formula} (h : F.Antecedent b) :
    F.Skolemizable .universal b := by
  obtain ⟨b', henter, hpremise | ⟨parts, hbody, hparts⟩⟩ := h
  · exact skolemizable_of_body henter hpremise.skolemizable
  · refine skolemizable_of_body henter ?_
    rw [hbody, Skolemizable]
    exact fun G hG => (hparts G hG).skolemizable

theorem Consequent.skolemizable {b : Bool} {F : Formula} (h : F.Consequent b) :
    F.Skolemizable .existential b := by
  obtain ⟨b', henter, hone | ⟨parts, hbody, hparts⟩⟩ := h
  · exact skolemizable_of_body henter hone.skolemizable
  · refine skolemizable_of_body henter ?_
    rw [hbody, Skolemizable]
    exact fun G hG => (hparts G hG).skolemizable

/-- **No Skolem function is asked of a fact** by a quantifier that is written. -/
theorem Fact.skolemizable {b : Bool} {F : Formula} (h : F.Fact b) :
    F.Skolemizable .existential b := by
  induction h with
  | implication enter shape antecedent consequent =>
    refine skolemizable_of_body enter ?_
    rw [shape, Skolemizable]
    exact ⟨antecedent.skolemizable, consequent.skolemizable⟩
  | conjunction enter shape facts ih =>
    refine skolemizable_of_body enter ?_
    rw [shape, Skolemizable]
    exact ih
  | disjunction shape => exact shape.skolemizable

/-- Only the truth of its literals matters for a matrix. -/
theorem matrix_congr {τ τ' : Assignment} {F : Formula}
    (h : ∀ l ∈ F.literals, l.TrueIn τ ↔ l.TrueIn τ') : F.Matrix τ ↔ F.Matrix τ' := by
  induction F with
  | literal l =>
    rw [Matrix, Matrix]
    exact h l (by simp [literals])
  | joined j parts ih =>
    have hparts : parts.map (Matrix τ) = parts.map (Matrix τ') := by
      refine List.map_congr_left fun F hF => propext (ih F hF fun l hl => h l ?_)
      rw [literals]
      exact List.mem_flatMap.2 ⟨F, hF, hl⟩
    rw [Matrix, Matrix, hparts]
  | implies A C ihA ihC =>
    rw [literals] at h
    rw [Matrix, Matrix, ihA fun l hl => h l (List.mem_append_left _ hl),
      ihC fun l hl => h l (List.mem_append_right _ hl)]
  | quantified m x G ih =>
    rw [literals] at h
    rw [Matrix, Matrix]
    exact ih h

end Formula

/-! ### Expansions -/

namespace Structure

/-- Can other individuals be given to the introduced constants so that clauses are
    satisfied? -/
def ExpandsTo (M : Structure.{u}) (introduced : String → Prop) (clauses : List Clause) : Prop :=
  ∃ κ : String → M.Domain, (∀ k, ¬ introduced k → κ k = M.const k) ∧
    ∀ c ∈ clauses, Structure.Satisfies { M with const := κ } c

variable {M : Structure.{u}}

/-- **A matrix with constants in place of names** is satisfied when the matrix is true for
    all values that give the names the individuals of their constants. -/
theorem satisfies_skolemized_iff {κ : String → M.Domain} {names : List String}
    {constant : String → String} {σ : Substitution}
    (hσ : σ.resolve = Term.skolemize names constant) {b : Bool} {F : Formula} (hF : F.Fact b)
    (hκ : ∀ l ∈ F.literals, ∀ k, Term.const k ∈ l.args → κ k = M.const k) :
    (∀ c ∈ F.clauses.map (fun ls => σ.apply ⟨ls⟩), Structure.Satisfies { M with const := κ } c) ↔
      ∀ v : String → M.Domain, (∀ x ∈ names, v x = κ (constant x)) → F.Matrix (M.atoms v) := by
  let N : Structure.{u} := { M with const := κ }
  -- the values that a clause gives to the variables of the formula
  let values (v : String → M.Domain) : String → M.Domain := fun x => N.eval v (σ.resolve (.var x))
  have hvalues : ∀ v x, values v x = if x ∈ names then κ (constant x) else v x := by
    intro v x
    show N.eval v (σ.resolve (.var x)) = _
    rw [hσ, Term.skolemize]
    split <;> rfl
  have hconst : ∀ c, σ.resolve (.const c) = .const c := fun c => Substitution.resolve_const σ c
  have hclause : ∀ v ls, (σ.apply ⟨ls⟩).TrueIn (N.atoms v) ↔
      Clause.TrueIn (N.atoms (values v)) ⟨ls⟩ := by
    intro v ls
    simp only [Clause.TrueIn, Substitution.apply, List.mem_map, exists_exists_and_eq_and]
    exact exists_congr fun l => and_congr_right fun _ => trueIn_mapArgs hconst v l
  -- the constants of the formula are those of `M`
  have hmatrix : ∀ v, F.Matrix (N.atoms v) ↔ F.Matrix (M.atoms v) := by
    intro v
    refine matrix_congr fun l hl => ?_
    have hargs : l.args.map (N.eval v) = l.args.map (M.eval v) := by
      refine List.map_congr_left fun t ht => ?_
      cases t with
      | var x => rfl
      | const k => exact hκ l hl k ht
    show (N.holds l.name (l.args.map (N.eval v)) ↔ _) ↔ (M.holds l.name (l.args.map (M.eval v)) ↔ _)
    rw [hargs]
  have hall : (∀ c ∈ F.clauses.map (fun ls => σ.apply ⟨ls⟩), N.Satisfies c) ↔
      ∀ v, F.Matrix (M.atoms (values v)) := by
    simp only [List.forall_mem_map, Satisfies]
    constructor
    · intro h v
      rw [← hmatrix, hF.matrix_iff]
      exact fun ls hls => (hclause v ls).1 (h ls hls v)
    · intro h ls hls v
      exact (hclause v ls).2 (hF.matrix_iff.1 ((hmatrix _).2 (h v)) ls hls)
  refine hall.trans ⟨fun h v hv => ?_, fun h v => h _ fun x hx => ?_⟩
  · have hsame : values v = v := by
      funext x
      rw [hvalues]
      split
      · rename_i hx
        exact (hv x hx).symm
      · rfl
    rw [← hsame]
    exact h v
  · rw [hvalues, if_pos hx]

end Structure

/-- **The clauses of a sentence, in an expansion of a structure.** -/
theorem Build.expandsTo_iff {F : Formula} (hlegal : F.Legal) {clauses : List Clause}
    {builder : Builder}
    (h : Build.sentence (String.ofList F.render) {} = (.ok clauses, builder))
    (M : Structure.{u}) :
    F.Fact false ∧ (M.ExpandsTo (builder.Introduces F.render) clauses ↔
      ∃ e : String → M.Domain, ∀ v, (∀ x ∈ F.skolems .existential, v x = e x) →
        F.Matrix (M.atoms v)) := by
  obtain ⟨text, F', hnorm, ⟨hparse, hfact⟩, rfl, rfl⟩ := Build.sentence_ok_iff.1 h
  obtain rfl : F.render = text := by
    have := (normalize_render hlegal).symm.trans hnorm
    exact Except.ok.inj this
  obtain rfl : F = F' := Option.some.inj ((parse_render hlegal .and).symm.trans hparse)
  refine ⟨hfact, ?_⟩
  let known := Builder.noteSymbols {} F.render
  have hknown : ∀ k, k ∈ known.symbols ↔ k ∈ words F.render := fun k => by
    simp [known, Builder.mem_noteSymbols]
  obtain ⟨constant, hinj, hnew, hresolve⟩ := Scope.exists_skolems known (F.skolems .existential)
  -- the constants of the formula are written, so they are not introduced
  have hwritten : ∀ l ∈ F.literals, ∀ k, Term.const k ∈ l.args → k ∈ words F.render :=
    fun l hl k hk => mem_words_of_written (parse_written hparse l hl _ hk)
  constructor
  · rintro ⟨κ, hκ, hsat⟩
    refine ⟨fun x => κ (constant x), (Structure.satisfies_skolemized_iff hresolve hfact ?_).1 hsat⟩
    exact fun l hl k hk => hκ k fun hintro => hintro.2 (hwritten l hl k hk)
  · rintro ⟨e, he⟩
    -- each constant gets the value of its name
    let assigned : {x // x ∈ F.skolems .existential} → String := fun x => constant x
    have hassigned : Function.Injective assigned := fun x y hxy => Subtype.ext (hinj x.2 y.2 hxy)
    let κ : String → M.Domain := Function.extend assigned (fun x => e x) M.const
    have hvalue : ∀ x ∈ F.skolems .existential, κ (constant x) = e x :=
      fun x hx => hassigned.extend_apply _ _ ⟨x, hx⟩
    have hother : ∀ k, (∀ x ∈ F.skolems .existential, constant x ≠ k) → κ k = M.const k :=
      fun k hk => Function.extend_apply' _ _ _ fun ⟨x, hx⟩ => hk x x.2 hx
    refine ⟨κ, fun k hk => hother k fun x hx hxk => hk ?_,
      (Structure.satisfies_skolemized_iff hresolve hfact ?_).2 fun v hv => he v fun x hx => ?_⟩
    · obtain ⟨hfresh, _, hmem⟩ := hnew x hx
      subst hxk
      exact ⟨hmem, fun hwords => hfresh ((hknown _).2 hwords)⟩
    · refine fun l hl k hk => hother k fun x hx hxk => (hnew x hx).1 ?_
      rw [hxk]
      exact (hknown k).2 (hwritten l hl k hk)
    · rw [hv x hx, hvalue x hx]

/-- **What the clauses of a sentence say.** A sentence that would need a Skolem function
    because of the quantifiers written in it is refused. The clauses of an accepted one are
    true in an expansion of a structure exactly when values for the Skolemized names make
    its matrix true whatever the other variables are; so it is whenever the sentence is
    true there and separate. -/
theorem sentence_expandsTo {F : Formula} (hlegal : F.Legal) :
    (¬ F.Skolemizable .existential false → ∃ fault builder,
      Build.sentence (String.ofList F.render) {}
        = (.error (.malformed (String.ofList F.render) fault), builder)) ∧
    ∀ clauses builder, Build.sentence (String.ofList F.render) {} = (.ok clauses, builder) →
      ∀ M : Structure.{u},
        (M.ExpandsTo (builder.Introduces F.render) clauses ↔
          ∃ e : String → M.Domain, ∀ v, (∀ x ∈ F.skolems .existential, v x = e x) →
            F.Matrix (M.atoms v)) ∧
        (F.Separate → (∀ v, F.Holds M v) →
          M.ExpandsTo (builder.Introduces F.render) clauses) := by
  constructor
  · intro hneeds
    rcases hrun : Build.sentence (String.ofList F.render) {} with ⟨e | clauses, builder⟩
    · obtain ⟨fault, rfl⟩ := Build.sentence_error hrun
      exact ⟨fault, builder, rfl⟩
    · obtain ⟨_, F', hnorm, ⟨hparse, hfact⟩, _⟩ := Build.sentence_ok_iff.1 hrun
      rw [normalize_render hlegal] at hnorm
      obtain rfl := Except.ok.inj hnorm
      rw [parse_render hlegal] at hparse
      obtain rfl := Option.some.inj hparse
      exact absurd hfact.skolemizable hneeds
  · intro clauses builder h M
    obtain ⟨_, hiff⟩ := Build.expandsTo_iff hlegal h M
    exact ⟨hiff, fun hsep htrue => hiff.2 (hsep.exists_values htrue)⟩

/-- `(∀x P(x)) ⇒ (∃y Q(y))`: a name is Skolemized in front of the arrow and one behind. -/
def ruleOfWitnesses : Formula :=
  .implies (.quantified .universal "x" (.literal { name := "P", args := [.var "x"] }))
    (.quantified .existential "y" (.literal { name := "Q", args := [.var "y"] }))

theorem holds_ruleOfWitnesses {M : Structure.{u}} {v : String → M.Domain} :
    ruleOfWitnesses.Holds M v ↔ ((∀ a, M.holds "P" [a]) → ∃ a, M.holds "Q" [a]) := by
  simp [ruleOfWitnesses, Formula.Holds, Literal.TrueIn, Structure.atoms, Structure.eval]

/-- `∀x (∃y R(x, y))`: a Skolem function is needed. -/
def everyHasSome : Formula :=
  .quantified .universal "x" (.quantified .existential "y"
    (.literal { name := "R", args := [.var "x", .var "y"] }))

/-- The individuals are two, `P` is true of one of them, and `R` is equality. -/
def twoIndividuals : Structure.{0} where
  Domain := Bool
  nonempty := ⟨true⟩
  const := fun _ => true
  holds := fun name args =>
    match name, args with
    | "P", [a] => a = true
    | "R", [a, b] => a = b
    | _, _ => False

theorem sentence_expandsTo_ruleOfWitnesses :
    (∃ fault builder, Build.sentence "∀x (∃y R(x, y))" {}
      = (.error (.malformed "∀x (∃y R(x, y))" fault), builder)) ∧
    ∃ clauses builder, Build.sentence "(∀x P(x)) ⇒ (∃y Q(y))" {} = (.ok clauses, builder) ∧
      ruleOfWitnesses.Separate ∧ (∀ v, ruleOfWitnesses.Holds twoIndividuals v) ∧
      twoIndividuals.ExpandsTo (builder.Introduces "(∀x P(x)) ⇒ (∃y Q(y))".toList) clauses := by
  constructor
  · have hlegal : everyHasSome.Legal := by
      simp [everyHasSome, Formula.Legal, Literal.Legal, Term.Legal, IsBoundName]
      decide
    have htext : everyHasSome.render = "∀x (∃y R(x, y))".toList := by
      simp [everyHasSome, render, wrap, Marker.symbol]
      decide
    have hneeds : ¬ everyHasSome.Skolemizable .existential false := by
      simp [everyHasSome, Skolemizable]
    have := (sentence_expandsTo.{0} hlegal).1 hneeds
    rwa [htext] at this
  · have hlegal : ruleOfWitnesses.Legal := by
      simp [ruleOfWitnesses, Formula.Legal, Literal.Legal, Term.Legal, IsBoundName]
      decide
    have htext : ruleOfWitnesses.render = "(∀x P(x)) ⇒ (∃y Q(y))".toList := by
      simp [ruleOfWitnesses, render, wrap, Marker.symbol]
      decide
    have hsep : ruleOfWitnesses.Separate := by
      simp [ruleOfWitnesses, Separate, skolems, Grounded, free, Literal.vars, Term.vars,
        Marker.dual]
    have htrue : ∀ v, ruleOfWitnesses.Holds twoIndividuals v := by
      intro v
      -- not all individuals are in `P`
      exact holds_ruleOfWitnesses.2 fun hall => absurd (hall false) Bool.false_ne_true
    have hrun : Build.sentence "(∀x P(x)) ⇒ (∃y Q(y))" {} = (.ok
        [⟨[{ name := "P", args := [.const "Sk1"], negated := true },
          { name := "Q", args := [.const "Sk2"] }]⟩],
        { skolems := 2, symbols := ["x", "P", "y", "Q", "Sk1", "Sk2"] }) :=
      eq_ok_of_toOption (by decide +kernel)
    refine ⟨_, _, hrun, hsep, htrue, ?_⟩
    have := ((sentence_expandsTo hlegal).2 _ _ (by rw [htext]; exact hrun) twoIndividuals).2 hsep htrue
    rwa [htext] at this

/-! ### Sentences whose clauses say too much -/

/-- A sentence is accepted, and a structure in which it is true has no expansion in which
    its clauses are. -/
def SaysTooMuch (F : Formula) (M : Structure.{u}) : Prop :=
  F.Legal ∧ (∀ v, F.Holds M v) ∧ ∃ clauses builder,
    Build.sentence (String.ofList F.render) {} = (.ok clauses, builder) ∧
    ¬ M.ExpandsTo (builder.Introduces F.render) clauses

/-- `(∃x P(x)) ∧ (∃x ¬P(x))`: two quantifiers share a name. -/
def sharedName : Formula :=
  .joined .and [.quantified .existential "x" (.literal { name := "P", args := [.var "x"] }),
    .quantified .existential "x" (.literal { name := "P", args := [.var "x"], negated := true })]

/-- `∃y R(x, y)`: the variable that no quantifier binds ranges over the domain. -/
def implicitScope : Formula :=
  .quantified .existential "y" (.literal { name := "R", args := [.var "x", .var "y"] })

theorem holds_sharedName {M : Structure.{u}} {v : String → M.Domain} :
    sharedName.Holds M v ↔ (∃ a, M.holds "P" [a]) ∧ ∃ a, ¬ M.holds "P" [a] := by
  rw [sharedName, Formula.Holds, Junctor.Combine, List.forall_mem_map]
  simp [Formula.Holds, Literal.TrueIn, Structure.atoms, Structure.eval]

theorem matrix_sharedName {M : Structure.{u}} {v : String → M.Domain} :
    sharedName.Matrix (M.atoms v) ↔ M.holds "P" [v "x"] ∧ ¬ M.holds "P" [v "x"] := by
  rw [sharedName, matrix_and]
  simp [Formula.Matrix, Literal.TrueIn, Structure.atoms, Structure.eval]

theorem holds_implicitScope {M : Structure.{u}} {v : String → M.Domain} :
    implicitScope.Holds M v ↔ ∃ a, M.holds "R" [v "x", a] := by
  simp [implicitScope, Formula.Holds, Literal.TrueIn, Structure.atoms, Structure.eval]

theorem matrix_implicitScope {M : Structure.{u}} {v : String → M.Domain} :
    implicitScope.Matrix (M.atoms v) ↔ M.holds "R" [v "x", v "y"] := by
  simp [implicitScope, Formula.Matrix, Literal.TrueIn, Structure.atoms, Structure.eval]

/-- **Neither condition can be dropped:** quantifiers that share a name share a constant,
    and one below a variable that is implicitly universal is not refused. -/
theorem saysTooMuch_sharedName_and_implicitScope :
    SaysTooMuch sharedName twoIndividuals ∧ SaysTooMuch implicitScope twoIndividuals := by
  constructor
  · have hlegal : sharedName.Legal := by
      simp [sharedName, Formula.Legal, Literal.Legal, Term.Legal, IsBoundName]
      decide
    have htext : sharedName.render = "(∃x P(x)) ∧ (∃x ¬P(x))".toList := by
      simp [sharedName, render, wrap, Marker.symbol, Junctor.symbol]
      decide
    have hrun : Build.sentence "(∃x P(x)) ∧ (∃x ¬P(x))" {} = (.ok
        [⟨[{ name := "P", args := [.const "Sk2"] }]⟩,
         ⟨[{ name := "P", args := [.const "Sk2"], negated := true }]⟩],
        { skolems := 2, symbols := ["x", "P", "Sk1", "Sk2"] }) :=
      eq_ok_of_toOption (by decide +kernel)
    have htrue : ∀ v, sharedName.Holds twoIndividuals v :=
      fun v => holds_sharedName.2 ⟨⟨true, rfl⟩, false, Bool.false_ne_true⟩
    refine ⟨hlegal, htrue, _, _, by rw [htext]; exact hrun, ?_⟩
    rw [(Build.expandsTo_iff hlegal (by rw [htext]; exact hrun) _).2]
    rintro ⟨e, he⟩
    -- the matrix wants one individual both in `P` and outside
    obtain ⟨hin, hout⟩ := matrix_sharedName.1 (he e fun _ _ => rfl)
    exact hout hin
  · have hlegal : implicitScope.Legal := by
      simp [implicitScope, Formula.Legal, Literal.Legal, Term.Legal, IsBoundName]
      decide
    have htext : implicitScope.render = "∃y R(x, y)".toList := by
      simp [implicitScope, render, wrap, Marker.symbol]
      decide
    have hrun : Build.sentence "∃y R(x, y)" {} = (.ok
        [⟨[{ name := "R", args := [.var "x", .const "Sk1"] }]⟩],
        { skolems := 1, symbols := ["y", "R", "x", "Sk1"] }) :=
      eq_ok_of_toOption (by decide +kernel)
    have htrue : ∀ v, implicitScope.Holds twoIndividuals v :=
      fun v => holds_implicitScope.2 ⟨v "x", rfl⟩
    refine ⟨hlegal, htrue, _, _, by rw [htext]; exact hrun, ?_⟩
    rw [(Build.expandsTo_iff hlegal (by rw [htext]; exact hrun) _).2]
    rintro ⟨e, he⟩
    -- no individual equals both
    have hequal : ∀ a : Bool, a = e "y" := by
      intro a
      have h := matrix_implicitScope.1 (he (fun x => if x = "x" then a else e x) ?_)
      · exact h
      · simp [implicitScope, skolems]
    exact Bool.false_ne_true ((hequal false).trans (hequal true).symm)

end Refuter
