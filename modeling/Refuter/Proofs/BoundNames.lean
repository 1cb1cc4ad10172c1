import Refuter.Proofs.Rendering
import Refuter.Proofs.Variants
import Refuter.Proofs.Words

/-! # The names of bound variables

What a sentence says does not depend on how its bound variables are called. Its clauses
may: a name stands for one variable or one constant in the whole sentence, whichever
quantifier binds it.

- Renaming one quantifier to a new name is undone by *merging* the new name with the old
  one (`Rebound.mapVars_eq`). The shape of a formula, its clauses and its Skolemized names
  are found without looking at names, so they commute with merging; a sentence whose
  quantifier is renamed is accepted when the sentence is.
- Merging after Skolemizing leaves the clauses alike exactly when it identifies nothing
  that they tell apart (`Merging.alike_iff`).

The clauses of a renamed sentence are therefore alike when the two names are *apart*. They
are if the old name is used nowhere else, and need not be otherwise.
-/

namespace Refuter

open Sentence Formula

/-- Takes `x` for `y`, and all other names for themselves. -/
def merge (x y z : String) : String :=
  if z = y then x else z

@[simp] theorem merge_self (x y : String) : merge x y y = x :=
  if_pos rfl

theorem merge_of_ne {x y z : String} (h : z ≠ y) : merge x y z = z :=
  if_neg h

theorem Term.mapVar_mapVar (f g : String → String) (t : Term) :
    (t.mapVar f).mapVar g = t.mapVar (g ∘ f) := by
  cases t <;> rfl

/-- Only the names of its variables matter to a literal. -/
theorem Literal.mapArgs_mapVar_eq_self {f : String → String} {l : Literal}
    (h : ∀ z ∈ l.vars, f z = z) : l.mapArgs (Term.mapVar f) = l := by
  have hargs : l.args.map (Term.mapVar f) = l.args := by
    refine (List.map_congr_left fun t ht => ?_).trans (List.map_id' _)
    cases t with
    | var z => exact congrArg Term.var (h z (List.mem_filterMap.2 ⟨_, ht, rfl⟩))
    | const k => rfl
  rw [Literal.mapArgs, hargs]

namespace Formula

/-! ### Conversion does not look at names -/

section Names

variable (f : String → String)

theorem lead_mapVars (F : Formula) :
    (F.mapVars f).lead = F.lead.map fun q => (q.1, f q.2) := by
  induction F with
  | literal | joined | implies => rw [mapVars]; rfl
  | quantified m x G ih => rw [mapVars, lead, lead, ih, List.map_cons]

theorem body_mapVars (F : Formula) : (F.mapVars f).body = F.body.mapVars f := by
  induction F with
  | literal | joined | implies => simp only [mapVars, body]
  | quantified m x G ih => rw [mapVars, body, body, ih]

theorem literals_mapVars (F : Formula) :
    (F.mapVars f).literals = F.literals.map (Literal.mapArgs (Term.mapVar f)) := by
  induction F with
  | literal l => rw [mapVars, literals, literals, List.map_singleton]
  | joined j parts ih =>
    rw [mapVars, literals, literals, List.flatMap_map, List.map_flatMap]
    exact List.flatMap_congr ih
  | implies A C ihA ihC => rw [mapVars, literals, literals, ihA, ihC, List.map_append]
  | quantified m x G ih => rw [mapVars, literals, literals, ih]

theorem alternatives_mapVars (F : Formula) :
    (F.mapVars f).alternatives = F.alternatives.map (List.map (Literal.mapArgs (Term.mapVar f))) := by
  induction F with
  | literal l => simp [mapVars, alternatives, literals]
  | joined j parts =>
    cases j with
    | or =>
      rw [mapVars, alternatives, alternatives, List.map_map, List.map_map]
      exact List.map_congr_left fun F _ => literals_mapVars f F
    | and =>
      have h := literals_mapVars f (.joined .and parts)
      rw [mapVars] at h ⊢
      simp [alternatives, h]
  | implies A C =>
    have h := literals_mapVars f (.implies A C)
    rw [mapVars] at h ⊢
    simp [alternatives, h]
  | quantified m x G ih => rw [mapVars, alternatives, alternatives, ih]

theorem clauses_mapVars (F : Formula) :
    (F.mapVars f).clauses = F.clauses.map (List.map (Literal.mapArgs (Term.mapVar f))) := by
  induction F with
  | literal l => simp [mapVars, clauses, literals]
  | joined j parts ih =>
    cases j with
    | and =>
      rw [mapVars, clauses, clauses, List.flatMap_map, List.map_flatMap]
      exact List.flatMap_congr ih
    | or =>
      have h := literals_mapVars f (.joined .or parts)
      rw [mapVars] at h ⊢
      simp [clauses, h]
  | implies A C _ ihC =>
    rw [mapVars, clauses, clauses, alternatives_mapVars, ihC, List.flatMap_map, List.map_flatMap]
    refine List.flatMap_congr fun p _ => ?_
    simp [Literal.negate, Literal.mapArgs, Function.comp_def]
  | quantified m x G ih => rw [mapVars, clauses, clauses, ih]

theorem skolems_mapVars (F : Formula) : ∀ m, (F.mapVars f).skolems m = (F.skolems m).map f := by
  induction F with
  | literal l => intro m; rw [mapVars, skolems, skolems, List.map_nil]
  | joined j parts ih =>
    intro m
    rw [mapVars, skolems, skolems, List.flatMap_map, List.map_flatMap]
    exact List.flatMap_congr fun F hF => ih F hF m
  | implies A C ihA ihC =>
    intro m
    rw [mapVars, skolems, skolems, ihA, ihC, List.map_append]
  | quantified k x G ih =>
    intro m
    rw [mapVars, skolems, skolems, ih]
    split <;> rfl

theorem scopeBehind_mapVars (m : Marker) (F : Formula) : ∀ inScope,
    scopeBehind m inScope (F.mapVars f).lead = scopeBehind m inScope F.lead := by
  rw [lead_mapVars]
  induction F.lead with
  | nil => exact fun _ => rfl
  | cons q rest ih =>
    intro inScope
    rw [List.map_cons, scopeBehind, scopeBehind, ih, ih]

variable {f}

theorem IsLiteral.of_mapVars {F : Formula} (h : (F.mapVars f).IsLiteral) : F.IsLiteral := by
  obtain ⟨l, hl⟩ := h
  cases F with
  | literal l' => exact ⟨l', rfl⟩
  | joined | implies | quantified => rw [mapVars] at hl; cases hl

theorem exists_joined_of_mapVars {F : Formula} {j : Junctor} {parts : List Formula}
    (h : F.mapVars f = .joined j parts) :
    ∃ parts', F = .joined j parts' ∧ parts = parts'.map (mapVars f) := by
  cases F with
  | joined j' parts' =>
    rw [mapVars] at h
    cases h
    exact ⟨parts', rfl, rfl⟩
  | literal | implies | quantified => rw [mapVars] at h; cases h

theorem exists_implies_of_mapVars {F A C : Formula} (h : F.mapVars f = .implies A C) :
    ∃ A' C', F = .implies A' C' ∧ A = A'.mapVars f ∧ C = C'.mapVars f := by
  cases F with
  | implies A' C' =>
    rw [mapVars] at h
    cases h
    exact ⟨A', C', rfl, rfl, rfl⟩
  | literal | joined | quantified => rw [mapVars] at h; cases h

/-- One formula, or parts that are joined: names do not matter to them together if they do not
    to each. -/
theorem joined_of_mapVars {P Q : Formula → Prop}
    (hP : ∀ {G : Formula}, P (G.mapVars f) → P G) (hQ : ∀ {G : Formula}, Q (G.mapVars f) → Q G)
    {j : Junctor} {F : Formula}
    (h : P (F.mapVars f) ∨ ∃ parts, F.mapVars f = .joined j parts ∧ ∀ G ∈ parts, Q G) :
    P F ∨ ∃ parts, F = .joined j parts ∧ ∀ G ∈ parts, Q G := by
  refine h.imp hP ?_
  rintro ⟨parts, hjoined, hparts⟩
  obtain ⟨parts', hF, rfl⟩ := exists_joined_of_mapVars hjoined
  exact ⟨parts', hF, fun G hG => hQ (hparts _ (List.mem_map_of_mem hG))⟩

/-- Nor do they behind quantifiers. -/
theorem scoped_of_mapVars (P Q : Bool → Formula → Prop)
    (hP : ∀ {b : Bool} {G : Formula}, P b (G.mapVars f) → P b G)
    (hQ : ∀ {b : Bool} {G : Formula}, Q b (G.mapVars f) → Q b G) {m : Marker} {j : Junctor}
    {inScope : Bool} {F : Formula}
    (h : ∃ b, scopeBehind m inScope (F.mapVars f).lead = some b ∧
      (P b (F.mapVars f).body ∨
        ∃ parts, (F.mapVars f).body = .joined j parts ∧ ∀ G ∈ parts, Q b G)) :
    ∃ b, scopeBehind m inScope F.lead = some b ∧
      (P b F.body ∨ ∃ parts, F.body = .joined j parts ∧ ∀ G ∈ parts, Q b G) := by
  obtain ⟨b, henter, hbody⟩ := h
  rw [scopeBehind_mapVars] at henter
  rw [body_mapVars] at hbody
  exact ⟨b, henter, joined_of_mapVars hP hQ hbody⟩

theorem Disjunct.of_mapVars {b : Bool} {F : Formula} (h : (F.mapVars f).Disjunct b) :
    F.Disjunct b := by
  obtain ⟨b', henter, hbody⟩ := h
  rw [scopeBehind_mapVars] at henter
  rw [body_mapVars] at hbody
  exact ⟨b', henter, hbody.of_mapVars⟩

theorem Disjunction.of_mapVars {b : Bool} {F : Formula} (h : (F.mapVars f).Disjunction b) :
    F.Disjunction b :=
  scoped_of_mapVars (fun _ => IsLiteral) Disjunct IsLiteral.of_mapVars Disjunct.of_mapVars h

theorem Premise.of_mapVars {F : Formula} (h : (F.mapVars f).Premise) : F.Premise :=
  joined_of_mapVars IsLiteral.of_mapVars IsLiteral.of_mapVars h

theorem Antecedent.of_mapVars {b : Bool} {F : Formula} (h : (F.mapVars f).Antecedent b) :
    F.Antecedent b :=
  scoped_of_mapVars (fun _ => Premise) (fun _ => Premise) Premise.of_mapVars Premise.of_mapVars h

theorem Consequent.of_mapVars {b : Bool} {F : Formula} (h : (F.mapVars f).Consequent b) :
    F.Consequent b :=
  scoped_of_mapVars Disjunction Disjunction Disjunction.of_mapVars Disjunction.of_mapVars h

/-- **Whether a formula is a fact** does not depend on its names. -/
theorem Fact.of_mapVars {b : Bool} {F : Formula} (h : (F.mapVars f).Fact b) : F.Fact b := by
  generalize hF : F.mapVars f = F' at h
  induction h generalizing F with
  | implication enter shape antecedent consequent =>
    subst hF
    rw [scopeBehind_mapVars] at enter
    rw [body_mapVars] at shape
    obtain ⟨A', C', hbody, rfl, rfl⟩ := exists_implies_of_mapVars shape
    exact .implication enter hbody antecedent.of_mapVars consequent.of_mapVars
  | conjunction enter shape _ ih =>
    subst hF
    rw [scopeBehind_mapVars] at enter
    rw [body_mapVars] at shape
    obtain ⟨parts', hbody, rfl⟩ := exists_joined_of_mapVars shape
    exact .conjunction enter hbody fun G hG => ih _ (List.mem_map_of_mem hG) rfl
  | disjunction shape =>
    subst hF
    exact .disjunction shape.of_mapVars

end Names

/-! ### One quantifier renamed -/

/-- Renames the free occurrences of a variable. -/
def rename (x y : String) : Formula → Formula
  | .literal l => .literal (l.mapArgs (Term.mapVar (merge y x)))
  | .joined j parts => .joined j (parts.map (rename x y))
  | .implies A C => .implies (A.rename x y) (C.rename x y)
  | .quantified m z G => .quantified m z (if z = x then G else G.rename x y)

/-- A name that can be bound can be written as a variable. -/
theorem legal_var_of_isBoundName {y : String} (hy : IsBoundName y) : (Term.var y).Legal := by
  refine ⟨fun c hc => ?_, ?_⟩
  · have hbound := hy.1 c hc
    simp only [isBoundChar, Bool.or_eq_true, decide_eq_true_eq] at hbound
    simp only [isWord, Char.isAlphanum, Char.isAlpha, Bool.or_eq_true, decide_eq_true_eq]
    rcases hbound with (hc | hc) | hc
    · exact .inl (.inl (.inr hc))
    · exact .inl (.inr hc)
    · exact .inr hc
  · simpa [Term.isVar, Term.name] using hy.2

/-- **One quantifier renamed:** a quantifier for `x` becomes one for `y`, with exactly the
    occurrences that it binds. -/
inductive Rebound (x y : String) : Formula → Formula → Prop where
  /-- It is the quantifier in front. -/
  | here {m : Marker} {G : Formula} :
      Rebound x y (.quantified m x G) (.quantified m y (G.rename x y))
  /-- It is in a part of a conjunction or disjunction. -/
  | joined {j : Junctor} {before behind : List Formula} {F F' : Formula}
      (inside : Rebound x y F F') :
      Rebound x y (.joined j (before ++ F :: behind)) (.joined j (before ++ F' :: behind))
  /-- It is in front of an arrow. -/
  | antecedent {A A' C : Formula} (inside : Rebound x y A A') :
      Rebound x y (.implies A C) (.implies A' C)
  /-- It is behind an arrow. -/
  | consequent {A C C' : Formula} (inside : Rebound x y C C') :
      Rebound x y (.implies A C) (.implies A C')
  /-- It is in the scope of another quantifier. -/
  | scope {m : Marker} {z : String} {G G' : Formula} (inside : Rebound x y G G') :
      Rebound x y (.quantified m z G) (.quantified m z G')

section Rebound

variable {x y : String}

/-- Taking `y` for `x` changes nothing where there is no `y`. -/
theorem mapVars_of_not_mem {F : Formula} (h : y ∉ F.vars) :
    F.mapVars (merge x y) = F := by
  induction F with
  | literal l =>
    rw [vars] at h
    rw [mapVars, Literal.mapArgs_mapVar_eq_self]
    exact fun z hz => merge_of_ne fun hzy => h (hzy ▸ hz)
  | joined j parts ih =>
    rw [vars] at h
    rw [mapVars]
    congr 1
    refine (List.map_congr_left fun F hF => ih F hF ?_).trans (List.map_id' parts)
    exact fun hy => h (List.mem_flatMap.2 ⟨F, hF, hy⟩)
  | implies A C ihA ihC =>
    rw [vars, List.mem_append, not_or] at h
    rw [mapVars, ihA h.1, ihC h.2]
  | quantified m z G ih =>
    rw [vars, List.mem_cons, not_or] at h
    rw [mapVars, ih h.2, merge_of_ne (Ne.symm h.1)]

/-- Renaming a variable can be taken back when the new name is new. -/
theorem mapVars_rename {F : Formula} (h : y ∉ F.vars) :
    (F.rename x y).mapVars (merge x y) = F := by
  induction F with
  | literal l =>
    rw [vars] at h
    rw [rename, mapVars]
    have htwice : (l.mapArgs (Term.mapVar (merge y x))).mapArgs
        (Term.mapVar (merge x y))
          = l.mapArgs (Term.mapVar (merge x y ∘ merge y x)) := by
      simp [Literal.mapArgs, Function.comp_def, Term.mapVar_mapVar]
    rw [htwice, Literal.mapArgs_mapVar_eq_self]
    intro z hz
    have hzy : z ≠ y := fun hzy => h (hzy ▸ hz)
    by_cases hzx : z = x
    · rw [Function.comp_apply, hzx, merge_self, merge_self]
    · rw [Function.comp_apply, merge_of_ne hzx, merge_of_ne hzy]
  | joined j parts ih =>
    rw [vars] at h
    rw [rename, mapVars, List.map_map]
    congr 1
    refine (List.map_congr_left fun F hF => ih F hF ?_).trans (List.map_id' parts)
    exact fun hy => h (List.mem_flatMap.2 ⟨F, hF, hy⟩)
  | implies A C ihA ihC =>
    rw [vars, List.mem_append, not_or] at h
    rw [rename, mapVars, ihA h.1, ihC h.2]
  | quantified m z G ih =>
    rw [vars, List.mem_cons, not_or] at h
    rw [rename, mapVars, merge_of_ne (Ne.symm h.1)]
    split
    · rw [mapVars_of_not_mem h.2]
    · rw [ih h.2]

/-- **A renamed quantifier** is merged again with the others of its old name. -/
theorem Rebound.mapVars_eq {F F' : Formula} (h : Rebound x y F F') (hy : y ∉ F.vars) :
    F'.mapVars (merge x y) = F := by
  induction h with
  | here =>
    rw [vars, List.mem_cons, not_or] at hy
    rw [mapVars, mapVars_rename hy.2, merge_self]
  | @joined j before behind F F' _ ih =>
    simp only [vars, List.flatMap_append, List.flatMap_cons, List.mem_append, not_or,
      List.mem_flatMap, not_exists, not_and] at hy
    rw [mapVars, List.map_append, List.map_cons, ih hy.2.1]
    have hother : ∀ parts : List Formula, (∀ G ∈ parts, y ∉ G.vars) →
        parts.map (mapVars (merge x y)) = parts := fun parts hparts =>
      (List.map_congr_left fun G hG => mapVars_of_not_mem (hparts G hG)).trans (List.map_id' parts)
    rw [hother before hy.1, hother behind hy.2.2]
  | antecedent _ ih =>
    rw [vars, List.mem_append, not_or] at hy
    rw [mapVars, ih hy.1, mapVars_of_not_mem hy.2]
  | consequent _ ih =>
    rw [vars, List.mem_append, not_or] at hy
    rw [mapVars, ih hy.2, mapVars_of_not_mem hy.1]
  | scope _ ih =>
    rw [vars, List.mem_cons, not_or] at hy
    rw [mapVars, ih hy.2, merge_of_ne (Ne.symm hy.1)]

theorem legal_rename (hy : IsBoundName y) {F : Formula} (h : F.Legal) : (F.rename x y).Legal := by
  induction F with
  | literal l =>
    rw [Legal] at h
    rw [rename, Legal]
    refine ⟨h.1, fun t ht => ?_⟩
    obtain ⟨u, hu, rfl⟩ := List.mem_map.1 ht
    cases u with
    | const k => exact h.2 _ hu
    | var z =>
      rw [Term.mapVar, merge]
      split
      · exact legal_var_of_isBoundName hy
      · exact h.2 _ hu
  | joined j parts ih =>
    rw [Legal] at h
    rw [rename, Legal, List.length_map, List.forall_mem_map]
    exact ⟨h.1, fun F hF => ih F hF (h.2 F hF)⟩
  | implies A C ihA ihC =>
    rw [Legal] at h
    rw [rename, Legal]
    exact ⟨ihA h.1, ihC h.2⟩
  | quantified m z G ih =>
    rw [Legal] at h
    rw [rename, Legal]
    split
    · exact h
    · exact ⟨h.1, ih h.2⟩

theorem Rebound.legal {F F' : Formula} (h : Rebound x y F F') (hy : IsBoundName y)
    (hF : F.Legal) : F'.Legal := by
  induction h with
  | here =>
    rw [Legal] at hF ⊢
    exact ⟨hy, legal_rename hy hF.2⟩
  | joined _ ih =>
    simp only [Legal, List.mem_append, List.mem_cons, List.length_append, List.length_cons] at hF ⊢
    refine ⟨hF.1, ?_⟩
    rintro G (hG | rfl | hG)
    · exact hF.2 G (.inl hG)
    · exact ih (hF.2 _ (.inr (.inl rfl)))
    · exact hF.2 G (.inr (.inr hG))
  | antecedent _ ih =>
    rw [Legal] at hF ⊢
    exact ⟨ih hF.1, hF.2⟩
  | consequent _ ih =>
    rw [Legal] at hF ⊢
    exact ⟨hF.1, ih hF.2⟩
  | scope _ ih =>
    rw [Legal] at hF ⊢
    exact ⟨hF.1, ih hF.2⟩

theorem Rebound.mem_vars {F F' : Formula} (h : Rebound x y F F') : x ∈ F.vars := by
  induction h with
  | here => rw [vars]; exact List.mem_cons_self ..
  | joined _ ih => rw [vars]; exact List.mem_flatMap.2 ⟨_, by simp, ih⟩
  | antecedent _ ih => rw [vars]; exact List.mem_append_left _ ih
  | consequent _ ih => rw [vars]; exact List.mem_append_right _ ih
  | scope _ ih => rw [vars]; exact List.mem_cons_of_mem _ ih

end Rebound

/-! ### Names that stay apart -/

theorem vars_of_mem_literals {F : Formula} {l : Literal} (hl : l ∈ F.literals) :
    ∀ z ∈ l.vars, z ∈ F.vars := by
  induction F with
  | literal l' =>
    rw [literals, List.mem_singleton] at hl
    rw [vars, hl]
    exact fun z hz => hz
  | joined j parts ih =>
    rw [literals] at hl
    obtain ⟨G, hG, hl⟩ := List.mem_flatMap.1 hl
    rw [vars]
    exact fun z hz => List.mem_flatMap.2 ⟨G, hG, ih G hG hl z hz⟩
  | implies A C ihA ihC =>
    rw [literals] at hl
    rw [vars]
    rcases List.mem_append.1 hl with hl | hl
    · exact fun z hz => List.mem_append_left _ (ihA hl z hz)
    · exact fun z hz => List.mem_append_right _ (ihC hl z hz)
  | quantified m x G ih =>
    rw [literals] at hl
    rw [vars]
    exact fun z hz => List.mem_cons_of_mem _ (ih hl z hz)

theorem skolems_subset_vars {F : Formula} : ∀ {m : Marker}, ∀ z ∈ F.skolems m, z ∈ F.vars := by
  induction F with
  | literal l => simp [skolems]
  | joined j parts ih =>
    intro m z hz
    rw [skolems] at hz
    obtain ⟨G, hG, hz⟩ := List.mem_flatMap.1 hz
    rw [vars]
    exact List.mem_flatMap.2 ⟨G, hG, ih G hG z hz⟩
  | implies A C ihA ihC =>
    intro m z hz
    rw [skolems] at hz
    rw [vars]
    exact List.mem_append.2 ((List.mem_append.1 hz).imp (ihA z) (ihC z))
  | quantified k x G ih =>
    intro m z hz
    rw [skolems] at hz
    rw [vars]
    split at hz
    · rcases List.mem_cons.1 hz with rfl | hz
      · exact List.mem_cons_self ..
      · exact List.mem_cons_of_mem _ (ih z hz)
    · exact List.mem_cons_of_mem _ (ih z hz)

end Formula

/-- Does a variable occur in some clause? -/
def OccursIn (clauses : List Clause) (x : String) : Prop :=
  ∃ c ∈ clauses, x ∈ c.vars

/-- Can two names be merged without identifying what clauses tell apart, if constants stand
    for `names`? When neither is among them, no clause may have both. When one is, all that
    occurs of the two must be, and only one of them may occur. -/
def NamesApart (clauses : List Clause) (names : List String) (x y : String) : Prop :=
  if x ∈ names ∨ y ∈ names then
    (OccursIn clauses x → x ∈ names) ∧ (OccursIn clauses y → y ∈ names) ∧
      ¬ (OccursIn clauses x ∧ OccursIn clauses y)
  else ∀ c ∈ clauses, ¬ (x ∈ c.vars ∧ y ∈ c.vars)

/-- Can two names of a formula be merged and the clauses stay alike? -/
def Formula.Apart (x y : String) (F : Formula) : Prop :=
  NamesApart (F.clauses.map Clause.mk) (F.skolems .existential) x y

/-- **A name that is used no more** is apart from the new one. -/
theorem Formula.apart_of_not_mem {x y : String} {F : Formula} (h : x ∉ F.vars) : F.Apart x y := by
  have hclauses : ∀ c ∈ F.clauses.map Clause.mk, x ∉ c.vars := by
    intro c hc hx
    obtain ⟨ls, hls, rfl⟩ := List.mem_map.1 hc
    obtain ⟨l, hl, hxl⟩ := Clause.mem_vars.1 hx
    obtain ⟨k, hk, hargs⟩ := args_of_mem_clauses hls hl
    exact h (vars_of_mem_literals hk x (List.mem_filterMap.2 ⟨_, hargs ▸ hxl, rfl⟩))
  have hoccurs : ¬ OccursIn (F.clauses.map Clause.mk) x := fun ⟨c, hc, hx⟩ => hclauses c hc hx
  rw [Apart, NamesApart]
  split
  · rename_i hskolems
    have hy := hskolems.resolve_left fun hx => h (skolems_subset_vars x hx)
    exact ⟨fun hx => absurd hx hoccurs, fun _ => hy, fun hboth => hoccurs hboth.1⟩
  · exact fun c hc hboth => hclauses c hc hboth.1

/-! ### Merging after Skolemizing -/

/-- Different names have different constants, and all of them are introduced. -/
structure SkolemNames (introduced : String → Prop) (names : List String)
    (constant : String → String) : Prop where
  /-- Different names, different constants. -/
  distinct : Set.InjOn constant {z | z ∈ names}
  /-- None is a constant of the sentence. -/
  new : ∀ z ∈ names, introduced (constant z)

section Skolemized

variable {introduced : String → Prop} {names : List String} {constant : String → String}

/-- A term that is not one of the introduced constants. -/
def Term.Old (introduced : String → Prop) (t : Term) : Prop :=
  ∀ k, t = .const k → ¬ introduced k

theorem SkolemNames.skolemize_eq_iff (h : SkolemNames introduced names constant) {t u : Term}
    (ht : t.Old introduced) (hu : u.Old introduced) :
    t.skolemize names constant = u.skolemize names constant ↔ t = u := by
  refine ⟨fun heq => ?_, fun heq => heq ▸ rfl⟩
  cases t with
  | const j =>
    cases u with
    | const k => exact heq
    | var z =>
      rw [Term.skolemize, Term.skolemize] at heq
      split at heq
      · rename_i hz
        exact absurd (Term.const.inj heq ▸ h.new z hz) (ht j rfl)
      · cases heq
  | var w =>
    cases u with
    | const k =>
      rw [Term.skolemize, Term.skolemize] at heq
      split at heq
      · rename_i hw
        exact absurd (Term.const.inj heq ▸ h.new w hw) (hu k rfl)
      · cases heq
    | var z =>
      rw [Term.skolemize, Term.skolemize] at heq
      split at heq <;> split at heq
      · rename_i hw hz
        rw [h.distinct hw hz (Term.const.inj heq)]
      · cases heq
      · cases heq
      · exact heq

theorem Term.isVar_skolemize {t : Term} :
    (t.skolemize names constant).isVar = true ↔ ∃ z, t = .var z ∧ z ∉ names := by
  cases t with
  | const k => simp [Term.skolemize, Term.isVar]
  | var z =>
    rw [Term.skolemize]
    split <;> simp_all [Term.isVar]

/-- What is merged with what when `y` becomes `x`. -/
theorem Term.mapVar_merge_eq_iff {x y : String} {t u : Term} :
    t.mapVar (merge x y) = u.mapVar (merge x y) ↔
      t = u ∨ (t = .var x ∧ u = .var y) ∨ (t = .var y ∧ u = .var x) := by
  cases t with
  | const j => cases u <;> simp [Term.mapVar]
  | var w =>
    cases u with
    | const k => simp [Term.mapVar]
    | var z =>
      simp only [Term.mapVar, Term.var.injEq, merge]
      split <;> split <;> grind

/-- Which names are among the merged ones. -/
theorem merge_mem_map_iff {x y z : String} :
    merge x y z ∈ names.map (merge x y) ↔
      if z = x ∨ z = y then x ∈ names ∨ y ∈ names else z ∈ names := by
  simp only [List.mem_map, merge]
  grind

/-- The term that stands for `t` when `y` has become `x`. -/
def Term.mergeSkolemize (x y : String) (names : List String) (constant : String → String)
    (t : Term) : Term :=
  (t.mapVar (merge x y)).skolemize (names.map (merge x y)) constant

theorem SkolemNames.mergeSkolemize_eq_iff {x y : String}
    (h : SkolemNames introduced (names.map (merge x y)) constant) {t u : Term}
    (ht : t.Old introduced) (hu : u.Old introduced) :
    t.mergeSkolemize x y names constant = u.mergeSkolemize x y names constant ↔
      t = u ∨ (t = .var x ∧ u = .var y) ∨ (t = .var y ∧ u = .var x) := by
  have hmap : ∀ {t : Term}, t.Old introduced → (t.mapVar (merge x y)).Old introduced := by
    intro t ht k hk
    cases t with
    | var z => cases hk
    | const j => exact ht k hk
  rw [Term.mergeSkolemize, Term.mergeSkolemize, h.skolemize_eq_iff (hmap ht) (hmap hu),
    Term.mapVar_merge_eq_iff]

theorem Term.isVar_mergeSkolemize {x y z : String} :
    ((Term.var z).mergeSkolemize x y names constant).isVar = true ↔
      ¬ if z = x ∨ z = y then x ∈ names ∨ y ∈ names else z ∈ names := by
  rw [mergeSkolemize, isVar_skolemize, ← merge_mem_map_iff]
  simp [Term.mapVar]

/-- Clauses Skolemized in two ways: with `y` taken for `x`, and as they are. -/
structure Merging (introduced introduced' : String → Prop) (names : List String)
    (constant constant' : String → String) (x y : String) (cs : List Clause) : Prop where
  /-- There is something to merge. -/
  ne : x ≠ y
  /-- The constants after merging. -/
  merged : SkolemNames introduced (names.map (merge x y)) constant
  /-- The constants without merging. -/
  plain : SkolemNames introduced' names constant'
  /-- The constants of the clauses are not among them. -/
  old : ∀ c ∈ cs, ∀ t ∈ c.terms, t.Old introduced ∧ t.Old introduced'

namespace Merging

variable {introduced' : String → Prop} {constant' : String → String} {x y : String}
  {cs : List Clause} (h : Merging introduced introduced' names constant constant' x y cs)
include h

theorem merged_eq_iff {c d : Clause} (hc : c ∈ cs) (hd : d ∈ cs) {t u : Term}
    (ht : t ∈ c.terms) (hu : u ∈ d.terms) :
    t.mergeSkolemize x y names constant = u.mergeSkolemize x y names constant ↔
      t = u ∨ (t = .var x ∧ u = .var y) ∨ (t = .var y ∧ u = .var x) :=
  h.merged.mergeSkolemize_eq_iff (h.old c hc t ht).1 (h.old d hd u hu).1

theorem plain_eq_iff {c d : Clause} (hc : c ∈ cs) (hd : d ∈ cs) {t u : Term}
    (ht : t ∈ c.terms) (hu : u ∈ d.terms) :
    t.skolemize names constant' = u.skolemize names constant' ↔ t = u :=
  h.plain.skolemize_eq_iff (h.old c hc t ht).2 (h.old d hd u hu).2

/-- The two names are merged, so clauses that have both are not alike. -/
theorem not_eq_iff {c d : Clause} (hc : c ∈ cs) (hd : d ∈ cs) (hx : x ∈ c.vars) (hy : y ∈ d.vars) :
    ¬ ((Term.var x).mergeSkolemize x y names constant
        = (Term.var y).mergeSkolemize x y names constant ↔
      (Term.var x).skolemize names constant' = (Term.var y).skolemize names constant') := by
  rw [Clause.mem_vars_iff] at hx hy
  rw [h.merged_eq_iff hc hd hx hy, h.plain_eq_iff hc hd hx hy]
  have hne := h.ne
  simp [hne]

/-- **Clauses that are alike after merging** keep the two names apart. -/
theorem namesApart (halike : Alike introduced introduced'
      (cs.map (·.mapTerms (Term.mergeSkolemize x y names constant)))
      (cs.map (·.mapTerms (Term.skolemize names constant')))) : NamesApart cs names x y := by
  obtain ⟨hkind, hwithin, hacross⟩ := alike_iff_matching.1 halike
  rw [NamesApart]
  split
  · rename_i hskolem
    -- what is a constant after merging is one before
    have hmem : ∀ z, z = x ∨ z = y → OccursIn cs z → z ∈ names := by
      rintro z hz ⟨c, hc, hzc⟩
      by_contra hnot
      have hvar := (hkind c hc _ (Clause.mem_vars_iff.1 hzc)).1.trans
        (Term.isVar_skolemize.2 ⟨z, rfl, hnot⟩)
      rw [Term.isVar_mergeSkolemize, if_pos hz] at hvar
      exact hvar hskolem
    have hconst : ((Term.var x).mergeSkolemize x y names constant).isVar = false := by
      rw [Bool.eq_false_iff, ne_eq, Term.isVar_mergeSkolemize, if_pos (.inl rfl), not_not]
      exact hskolem
    refine ⟨hmem x (.inl rfl), hmem y (.inr rfl), fun ⟨⟨c, hc, hx⟩, ⟨d, hd, hy⟩⟩ => ?_⟩
    exact h.not_eq_iff hc hd hx hy (hacross c hc _ (Clause.mem_vars_iff.1 hx) hconst d hd _
      (Clause.mem_vars_iff.1 hy))
  · intro c hc ⟨hx, hy⟩
    exact h.not_eq_iff hc hc hx hy (hwithin c hc _ (Clause.mem_vars_iff.1 hx) _
      (Clause.mem_vars_iff.1 hy))

/-- Names that are apart are merged with nothing, neither in one clause nor as constants. -/
theorem eq_iff_of_namesApart (hapart : NamesApart cs names x y) {c d : Clause} (hc : c ∈ cs)
    (hd : d ∈ cs) {t u : Term} (ht : t ∈ c.terms) (hu : u ∈ d.terms)
    (hmeet : c = d ∨ (t.mergeSkolemize x y names constant).isVar = false) :
    t.mergeSkolemize x y names constant = u.mergeSkolemize x y names constant ↔
      t.skolemize names constant' = u.skolemize names constant' := by
  rw [h.merged_eq_iff hc hd ht hu, h.plain_eq_iff hc hd ht hu]
  have hclash : ∀ {c d}, c ∈ cs → d ∈ cs → Term.var x ∈ c.terms → Term.var y ∈ d.terms →
      ¬ (c = d ∨ x ∈ names ∨ y ∈ names) := by
    intro c d hc hd hx hy hmeet
    rw [← Clause.mem_vars_iff] at hx hy
    rw [NamesApart] at hapart
    split at hapart
    · exact hapart.2.2 ⟨⟨c, hc, hx⟩, ⟨d, hd, hy⟩⟩
    · rename_i hskolem
      obtain rfl := hmeet.resolve_right hskolem
      exact hapart c hc ⟨hx, hy⟩
  have hskolem : ∀ z, z = x ∨ z = y →
      ((Term.var z).mergeSkolemize x y names constant).isVar = false → x ∈ names ∨ y ∈ names := by
    intro z hz hconst
    rw [Bool.eq_false_iff, ne_eq, Term.isVar_mergeSkolemize, if_pos hz, not_not] at hconst
    exact hconst
  refine (or_iff_left ?_)
  rintro (⟨rfl, rfl⟩ | ⟨rfl, rfl⟩)
  · exact hclash hc hd ht hu (hmeet.imp_right (hskolem x (.inl rfl)))
  · exact hclash hd hc hu ht (hmeet.imp Eq.symm (hskolem y (.inr rfl)))

omit h in
/-- Names that are apart are Skolemized after merging when they are before. -/
theorem isVar_eq_of_namesApart (hapart : NamesApart cs names x y) {z : String}
    (hz : OccursIn cs z) :
    ((Term.var z).mergeSkolemize x y names constant).isVar
      = ((Term.var z).skolemize names constant').isVar := by
  have hmem : (if z = x ∨ z = y then x ∈ names ∨ y ∈ names else z ∈ names) ↔ z ∈ names := by
    rw [NamesApart] at hapart
    split
    · rename_i hzxy
      split at hapart
      · rename_i hskolem
        refine ⟨fun _ => ?_, fun _ => hskolem⟩
        rcases hzxy with rfl | rfl
        · exact hapart.1 hz
        · exact hapart.2.1 hz
      · rename_i hskolem
        refine ⟨fun hmem => absurd hmem hskolem, fun hmem => ?_⟩
        rcases hzxy with rfl | rfl
        · exact .inl hmem
        · exact .inr hmem
    · rfl
  rw [Bool.eq_iff_iff, Term.isVar_mergeSkolemize, Term.isVar_skolemize, hmem]
  simp

/-- Only introduced constants change their names. -/
theorem names_allowed {c : Clause} (hc : c ∈ cs) {t : Term} (ht : t ∈ c.terms) {k k' : String}
    (hk : t.mergeSkolemize x y names constant = .const k)
    (hk' : t.skolemize names constant' = .const k') :
    (introduced k → introduced' k') ∧ (¬ introduced k → k' = k) := by
  cases t with
  | const j =>
    obtain rfl : j = k := Term.const.inj hk
    obtain rfl : j = k' := Term.const.inj hk'
    exact ⟨fun hj => absurd hj ((h.old c hc _ ht).1 j rfl), fun _ => rfl⟩
  | var z =>
    have hintroduced : introduced k := by
      rw [Term.mergeSkolemize, Term.mapVar, Term.skolemize] at hk
      split at hk
      · rename_i hz
        exact Term.const.inj hk ▸ h.merged.new _ hz
      · cases hk
    have hintroduced' : introduced' k' := by
      rw [Term.skolemize] at hk'
      split at hk'
      · rename_i hz
        exact Term.const.inj hk' ▸ h.plain.new _ hz
      · cases hk'
    exact ⟨fun _ => hintroduced', fun hnot => absurd hintroduced hnot⟩

/-- **Merging a name with another** leaves clauses alike exactly when the two are apart. -/
theorem alike_iff :
    Alike introduced introduced' (cs.map (·.mapTerms (Term.mergeSkolemize x y names constant)))
      (cs.map (·.mapTerms (Term.skolemize names constant'))) ↔ NamesApart cs names x y := by
  refine ⟨h.namesApart, fun hapart => alike_iff_matching.2 ⟨fun c hc t ht => ⟨?_, ?_⟩, ?_, ?_⟩⟩
  · cases t with
    | const j => rfl
    | var z => exact isVar_eq_of_namesApart hapart ⟨c, hc, Clause.mem_vars_iff.2 ht⟩
  · exact fun k k' hk hk' => h.names_allowed hc ht hk hk'
  · exact fun c hc t ht u hu => h.eq_iff_of_namesApart hapart hc hc ht hu (.inl rfl)
  · exact fun c hc t ht hconst d hd u hu =>
      h.eq_iff_of_namesApart hapart hc hd ht hu (.inr hconst)

end Merging

end Skolemized

/-! ### Conversion of one sentence -/

namespace Build

variable {b b' : Builder}

/-- **The clauses of one sentence,** numbered and renamed apart. -/
theorem sentences_singleton_ok_iff {s : String} {clauses : List NumberedClause} :
    sentences [s] b = (.ok clauses, b') ↔ ∃ text cs b₁ renamed,
      Sentence.normalize s = .ok text ∧ sentence s (b.noteSymbols text) = (.ok cs, b₁) ∧
      cs.mapM standardize b₁ = (.ok renamed, b') ∧ clauses = numberedFromOne renamed := by
  have hnote : ∀ {u : Unit} {b₁ : Builder},
      [s].forM (fun s => discard (normalize s)) b = (.ok u, b₁) ↔
        ∃ text, normalize s b = (.ok text, b₁) := by
    intro u b₁
    show (discard (normalize s) >>= fun _ => pure ()) b = _ ↔ _
    rw [bind_ok_iff]
    constructor
    · rintro ⟨_, b₂, hdiscard, hpure⟩
      obtain ⟨_, rfl⟩ := pure_ok_iff.1 hpure
      obtain ⟨text, hnorm, _⟩ := bind_pure_ok_iff.1 hdiscard
      exact ⟨text, hnorm⟩
    · rintro ⟨text, hnorm⟩
      exact ⟨(), b₁, bind_pure_ok_iff.2 ⟨text, hnorm, rfl⟩, rfl⟩
  have hone : ∀ {lists : List (List Clause)} {b₁ b₂ : Builder},
      [s].mapM sentence b₁ = (.ok lists, b₂) ↔ ∃ cs, sentence s b₁ = (.ok cs, b₂) ∧ [cs] = lists := by
    intro lists b₁ b₂
    rw [List.mapM_cons, List.mapM_nil]
    simp only [pure_bind]
    exact bind_pure_ok_iff
  rw [sentences, bind_ok_iff]
  constructor
  · rintro ⟨_, b₁, hfirst, hrest⟩
    obtain ⟨text, hnorm⟩ := hnote.1 hfirst
    obtain ⟨htext, rfl⟩ := normalize_ok_iff.1 hnorm
    obtain ⟨lists, b₂, hlists, hrest⟩ := bind_ok_iff.1 hrest
    obtain ⟨cs, hcs, rfl⟩ := hone.1 hlists
    obtain ⟨renamed, hrenamed, rfl⟩ := bind_pure_ok_iff.1 hrest
    rw [List.flatten_singleton] at hrenamed
    exact ⟨text, cs, b₂, renamed, htext, hcs, hrenamed, rfl⟩
  · rintro ⟨text, cs, b₁, renamed, htext, hcs, hrenamed, rfl⟩
    refine ⟨(), _, hnote.2 ⟨text, normalize_ok_iff.2 ⟨htext, rfl⟩⟩, ?_⟩
    refine bind_ok_iff.2 ⟨[cs], b₁, hone.2 ⟨cs, hcs, rfl⟩, bind_pure_ok_iff.2 ⟨renamed, ?_, rfl⟩⟩
    rwa [List.flatten_singleton]

end Build

/-- A sentence, its normal form and the formula that it spells. -/
def Sentence.Reads (s : String) (text : List Char) (F : Formula) : Prop :=
  Sentence.normalize s = .ok text ∧ parse .and text = some F

/-- A formula that can be written is spelled by some sentence. -/
theorem Formula.Legal.reads {F : Formula} (h : F.Legal) :
    Reads (String.ofList F.render) F.render F :=
  ⟨normalize_render h, parse_render h .and⟩

/-- **Conversion of one fact,** up to the names of variables. -/
theorem Build.sentences_of_fact {s : String} {text : List Char} {F : Formula} (hs : Reads s text F)
    (hfact : F.Fact false) : ∃ clauses builder constant renamed,
      Build.sentences [s] {} = (.ok clauses, builder) ∧
      SkolemNames (builder.Introduces text) (F.skolems .existential) constant ∧
      (∀ c ∈ F.clauses.map Clause.mk, ∀ t ∈ c.terms, t.Old (builder.Introduces text)) ∧
      clauses = numberedFromOne renamed ∧
      List.Forall₂ (Clause.Variant id) ((F.clauses.map Clause.mk).map
        (·.mapTerms (Term.skolemize (F.skolems .existential) constant))) renamed := by
  obtain ⟨hnorm, hparse⟩ := hs
  let known := (Builder.noteSymbols {} text).noteSymbols text
  have hknown : ∀ k, k ∈ known.symbols ↔ k ∈ words text := fun k => by
    simp [known, Builder.mem_noteSymbols]
  obtain ⟨constant, hinj, hnew, hresolve⟩ := Scope.exists_skolems known (F.skolems .existential)
  have hsentence := sentence_ok_iff (b := Builder.noteSymbols {} text).2
    ⟨text, F, hnorm, ⟨hparse, hfact⟩, rfl, rfl⟩
  have hclauses : F.clauses.map (fun ls => Substitution.apply
      ⟨(Scope.bindAll { builder := known } (F.skolems .existential)).skolems⟩ ⟨ls⟩)
        = (F.clauses.map Clause.mk).map
          (·.mapTerms (Term.skolemize (F.skolems .existential) constant)) := by
    rw [List.map_map, ← hresolve]
    rfl
  rw [hclauses] at hsentence
  obtain ⟨renamed, supply, hrun, hall, _⟩ := mapM_standardize ((F.clauses.map Clause.mk).map
    (·.mapTerms (Term.skolemize (F.skolems .existential) constant)))
    (Scope.bindAll { builder := known } (F.skolems .existential)).builder
  refine ⟨_, _, constant, renamed, sentences_singleton_ok_iff.2
    ⟨text, _, _, renamed, hnorm, hsentence, hrun, rfl⟩, ⟨hinj, fun z hz => ?_⟩, ?_, rfl, hall⟩
  · obtain ⟨hfresh, _, hmem⟩ := hnew z hz
    exact ⟨hmem, fun hwords => hfresh ((hknown _).2 hwords)⟩
  · -- the constants of the formula are written
    intro c hc t ht k hk hintroduced
    obtain ⟨ls, hls, rfl⟩ := List.mem_map.1 hc
    obtain ⟨l, hl, htl⟩ := Clause.mem_terms.1 ht
    obtain ⟨l', hl', hargs⟩ := args_of_mem_clauses hls hl
    have hwritten := parse_written hparse l' hl' t (hargs ▸ htl)
    rw [hk] at hwritten
    exact hintroduced.2 (mem_words_of_written hwritten)

/-- The numbers of clauses only depend on how many there are. -/
theorem ids_numberedFromOne {cs ds : List Clause} (h : cs.length = ds.length) :
    (numberedFromOne cs).map (·.id) = (numberedFromOne ds).map (·.id) := by
  have hids : ∀ cs : List Clause, (numberedFromOne cs).map (·.id)
      = (List.range' 0 cs.length).map fun i : Nat => (i : Int) + 1 := by
    intro cs
    rw [← List.zipIdx_map_snd 0 cs, List.map_map, numberedFromOne, List.map_map]
    rfl
  rw [hids, hids, h]

/-- **Renaming a bound variable.** The renamed sentence is accepted as well. Its clauses are
    alike exactly when the two names are apart in it, which they are when no other
    quantifier and no free variable has the old name. -/
theorem sentences_rebound {s : String} {clauses : List NumberedClause} {builder : Builder}
    (h : Build.sentences [s] {} = (.ok clauses, builder)) :
    ∃ text F, Reads s text F ∧ ∀ x y F', Rebound x y F F' → IsBoundName y → y ∉ F.vars →
      (∃ s' text', Reads s' text' F') ∧ (x ∉ F'.vars → F'.Apart x y) ∧
      ∀ s' text', Reads s' text' F' → ∃ clauses' builder',
        Build.sentences [s'] {} = (.ok clauses', builder') ∧
        clauses'.map (·.id) = clauses.map (·.id) ∧
        (Alike (builder.Introduces text) (builder'.Introduces text')
          (clauses.map (·.toClause)) (clauses'.map (·.toClause)) ↔ F'.Apart x y) := by
  obtain ⟨text, _, _, _, hnorm, hsentence, _⟩ := Build.sentences_singleton_ok_iff.1 h
  obtain ⟨text', F, hnorm', ⟨hparse, hfact⟩, _⟩ := Build.sentence_ok_iff.1 hsentence
  obtain rfl : text = text' := Except.ok.inj (hnorm.symm.trans hnorm')
  refine ⟨text, F, ⟨hnorm, hparse⟩, fun x y F' hrebound hy hfresh =>
    ⟨⟨_, _, (hrebound.legal hy (legal_of_parse hparse)).reads⟩, apart_of_not_mem, ?_⟩⟩
  intro s' text' hreads
  have hmerge := hrebound.mapVars_eq hfresh
  have hne : x ≠ y := fun hxy => hfresh (hxy ▸ hrebound.mem_vars)
  have hfact' : F'.Fact false := Fact.of_mapVars (hmerge ▸ hfact)
  obtain ⟨clauses₁, builder₁, constant, renamed, hrun, hnames, hold, rfl, hall⟩ :=
    Build.sentences_of_fact ⟨hnorm, hparse⟩ hfact
  obtain ⟨clauses', builder', constant', renamed', hrun', hnames', hold', rfl, hall'⟩ :=
    Build.sentences_of_fact hreads hfact'
  obtain ⟨rfl, rfl⟩ : numberedFromOne renamed = clauses ∧ builder₁ = builder := by
    have := hrun.symm.trans h
    exact ⟨Except.ok.inj (Prod.mk.inj this).1, (Prod.mk.inj this).2⟩
  subst hmerge
  have hmapped : (F'.mapVars (merge x y)).clauses.map Clause.mk
      = (F'.clauses.map Clause.mk).map (·.mapTerms (Term.mapVar (merge x y))) := by
    rw [clauses_mapVars, List.map_map, List.map_map]
    rfl
  have hlength : renamed'.length = renamed.length := by
    rw [← hall.length_eq, ← hall'.length_eq, hmapped]
    simp only [List.length_map]
  refine ⟨_, _, hrun', ids_numberedFromOne hlength, ?_⟩
  rw [toClause_numberedFromOne, toClause_numberedFromOne, ← alike_congr hall hall', hmapped,
    List.map_map, skolems_mapVars]
  have hmerging : Merging (builder₁.Introduces text) (builder'.Introduces text')
      (F'.skolems .existential) constant constant' x y (F'.clauses.map Clause.mk) := by
    refine ⟨hne, skolems_mapVars (merge x y) F' _ ▸ hnames, hnames', fun c hc t ht => ⟨?_, ?_⟩⟩
    · -- a constant stays when names are merged
      rintro k rfl
      refine hold (c.mapTerms (Term.mapVar (merge x y))) ?_ _ ?_ k rfl
      · rw [hmapped]
        exact List.mem_map.2 ⟨c, hc, rfl⟩
      · rw [Clause.terms_mapTerms]
        exact List.mem_map.2 ⟨_, ht, rfl⟩
    · exact hold' c hc t ht
  rw [Apart, ← hmerging.alike_iff]
  have hcompose : ∀ c : Clause, (c.mapTerms (Term.mapVar (merge x y))).mapTerms
      (Term.skolemize ((F'.skolems .existential).map (merge x y)) constant)
        = c.mapTerms (Term.mergeSkolemize x y (F'.skolems .existential) constant) :=
    fun c => Clause.mapTerms_mapTerms _ _ c
  simp only [Function.comp_def, hcompose]

/-- `(∀x P(x)) ⇒ (∃y Q(y, A))` with any name for the first variable. -/
def guardedWitness (x : String) : Formula :=
  .implies (.quantified .universal x (.literal { name := "P", args := [.var x] }))
    (.quantified .existential "y" (.literal { name := "Q", args := [.var "y", .const "A"] }))

theorem rebound_guardedWitness {x y : String} :
    Rebound x y (guardedWitness x) (guardedWitness y) := by
  refine .antecedent ?_
  have hrename : Formula.rename x y (.literal { name := "P", args := [.var x] })
      = .literal { name := "P", args := [.var y] } := by
    simp [rename, Literal.mapArgs, Term.mapVar]
  exact hrename ▸ .here

theorem sentences_rebound_guardedWitness :
    ∃ clauses builder clauses' builder',
      Build.sentences ["(∀x P(x)) ⇒ (∃y Q(y, A))"] {} = (.ok clauses, builder) ∧
      Rebound "x" "z" (guardedWitness "x") (guardedWitness "z") ∧
      Build.sentences ["(∀z P(z)) ⇒ (∃y Q(y, A))"] {} = (.ok clauses', builder') ∧
      Alike (builder.Introduces "(∀x P(x)) ⇒ (∃y Q(y, A))".toList)
        (builder'.Introduces "(∀z P(z)) ⇒ (∃y Q(y, A))".toList)
        (clauses.map (·.toClause)) (clauses'.map (·.toClause)) := by
  have hreads : Reads "(∀x P(x)) ⇒ (∃y Q(y, A))" "(∀x P(x)) ⇒ (∃y Q(y, A))".toList
      (guardedWitness "x") := by
    have hlegal : (guardedWitness "x").Legal := by
      simp [guardedWitness, Formula.Legal, Literal.Legal, Term.Legal, IsBoundName]
      decide
    have htext : (guardedWitness "x").render = "(∀x P(x)) ⇒ (∃y Q(y, A))".toList := by
      simp [guardedWitness, render, wrap, Marker.symbol]
      decide
    have := hlegal.reads
    rwa [htext] at this
  have hreads' : Reads "(∀z P(z)) ⇒ (∃y Q(y, A))" "(∀z P(z)) ⇒ (∃y Q(y, A))".toList
      (guardedWitness "z") := by
    have hlegal : (guardedWitness "z").Legal := by
      simp [guardedWitness, Formula.Legal, Literal.Legal, Term.Legal, IsBoundName]
      decide
    have htext : (guardedWitness "z").render = "(∀z P(z)) ⇒ (∃y Q(y, A))".toList := by
      simp [guardedWitness, render, wrap, Marker.symbol]
      decide
    have := hlegal.reads
    rwa [htext] at this
  have hrun : Build.sentences ["(∀x P(x)) ⇒ (∃y Q(y, A))"] {} = (.ok
      [{ literals := [{ name := "P", args := [.const "Sk1"], negated := true },
          { name := "Q", args := [.const "Sk2", .const "A"] }], id := 1 }],
      { skolems := 2, symbols := ["x", "P", "y", "Q", "A", "Sk1", "Sk2"] }) :=
    eq_ok_of_toOption (by decide +kernel)
  obtain ⟨text, F, ⟨hnorm, hparse⟩, hall⟩ := sentences_rebound hrun
  obtain rfl := Except.ok.inj (hreads.1.symm.trans hnorm)
  obtain rfl := Option.some.inj (hreads.2.symm.trans hparse)
  have hfresh : "z" ∉ (guardedWitness "x").vars := by
    simp [guardedWitness, vars, Literal.vars, Term.vars]
  have hunused : "x" ∉ (guardedWitness "z").vars := by
    simp [guardedWitness, vars, Literal.vars, Term.vars]
  obtain ⟨_, hapart, hconvert⟩ := hall "x" "z" _ rebound_guardedWitness (by decide) hfresh
  obtain ⟨clauses', builder', hrun', _, halike⟩ := hconvert _ _ hreads'
  exact ⟨_, _, clauses', builder', hrun, rebound_guardedWitness, hrun',
    halike.2 (hapart hunused)⟩

/-! ### Names that are used twice -/

/-- A quantifier is renamed as it should be, and the clauses tell the difference. -/
def TellsApart (x y : String) (F F' : Formula) : Prop :=
  F.Legal ∧ Rebound x y F F' ∧ IsBoundName y ∧ y ∉ F.vars ∧ ∃ clauses builder clauses' builder',
    Build.sentences [String.ofList F.render] {} = (.ok clauses, builder) ∧
    Build.sentences [String.ofList F'.render] {} = (.ok clauses', builder') ∧
    ¬ Alike (builder.Introduces F.render) (builder'.Introduces F'.render)
      (clauses.map (·.toClause)) (clauses'.map (·.toClause))

/-- Two quantified literals, each with a name for its variable. -/
def quantifiedPair (j : Junctor) (m : Marker) (x y : String) : Formula :=
  .joined j [.quantified m x (.literal { name := "P", args := [.var x] }),
    .quantified m y (.literal { name := "Q", args := [.var y] })]

theorem legal_quantifiedPair (j : Junctor) (m : Marker) :
    (quantifiedPair j m "x" "x").Legal := by
  simp [quantifiedPair, Formula.Legal, Literal.Legal, Term.Legal, IsBoundName]
  decide

theorem rebound_quantifiedPair {j : Junctor} {m : Marker} {x y : String} :
    Rebound x y (quantifiedPair j m x x) (quantifiedPair j m x y) := by
  have hrename : Formula.rename x y (.literal { name := "Q", args := [.var x] })
      = .literal { name := "Q", args := [.var y] } := by
    simp [rename, Literal.mapArgs, Term.mapVar]
  exact @Rebound.joined x y j [.quantified m x (.literal { name := "P", args := [.var x] })] [] _ _
    (hrename ▸ .here)

/-- **Neither half of being apart can be dropped:** two quantifiers with one name share a
    constant, and two in a disjunction share a variable. -/
theorem tellsApart_sharedConstant_and_sharedVariable :
    TellsApart "x" "y" (quantifiedPair .and .existential "x" "x")
      (quantifiedPair .and .existential "x" "y") ∧
    TellsApart "x" "y" (quantifiedPair .or .universal "x" "x")
      (quantifiedPair .or .universal "x" "y") := by
  have hfresh : ∀ j m, "y" ∉ (quantifiedPair j m "x" "x").vars := by
    intro j m
    simp [quantifiedPair, vars, Literal.vars, Term.vars]
  constructor
  · have hrun : Build.sentences ["(∃x P(x)) ∧ (∃x Q(x))"] {} = (.ok
        [{ literals := [{ name := "P", args := [.const "Sk2"] }], id := 1 },
         { literals := [{ name := "Q", args := [.const "Sk2"] }], id := 2 }],
        { skolems := 2, symbols := ["x", "P", "Q", "Sk1", "Sk2"] }) :=
      eq_ok_of_toOption (by decide +kernel)
    have hrun' : Build.sentences ["(∃x P(x)) ∧ (∃y Q(y))"] {} = (.ok
        [{ literals := [{ name := "P", args := [.const "Sk1"] }], id := 1 },
         { literals := [{ name := "Q", args := [.const "Sk2"] }], id := 2 }],
        { skolems := 2, symbols := ["x", "P", "y", "Q", "Sk1", "Sk2"] }) :=
      eq_ok_of_toOption (by decide +kernel)
    have htext : (quantifiedPair .and .existential "x" "x").render
        = "(∃x P(x)) ∧ (∃x Q(x))".toList := by
      simp [quantifiedPair, render, wrap, Marker.symbol, Junctor.symbol]
      decide
    have htext' : (quantifiedPair .and .existential "x" "y").render
        = "(∃x P(x)) ∧ (∃y Q(y))".toList := by
      simp [quantifiedPair, render, wrap, Marker.symbol, Junctor.symbol]
      decide
    refine ⟨legal_quantifiedPair _ _, rebound_quantifiedPair, by decide, hfresh _ _, _, _, _, _,
      by rw [htext]; exact hrun, by rw [htext']; exact hrun', ?_⟩
    -- one constant would need two names
    rintro ⟨κ, _, _, hall⟩
    obtain ⟨⟨_, _, hP⟩, ⟨⟨_, _, hQ⟩, _⟩⟩ := by
      simpa only [List.map_cons, List.map_nil, List.forall₂_cons] using hall
    have hfirst : "Sk1" = κ "Sk2" := by
      simpa [Renaming.clause, Renaming.literal, Literal.mapArgs, Renaming.term] using hP
    have hsecond : "Sk2" = κ "Sk2" := by
      simpa [Renaming.clause, Renaming.literal, Literal.mapArgs, Renaming.term] using hQ
    exact absurd (hfirst.trans hsecond.symm) (by decide)
  · have hrun : Build.sentences ["(∀x P(x)) ∨ (∀x Q(x))"] {} = (.ok
        [{ literals := [{ name := "P", args := [.var "v1"] }, { name := "Q", args := [.var "v1"] }],
           id := 1 }],
        { supply := { counter := 1 }, symbols := ["x", "P", "Q"] }) :=
      eq_ok_of_toOption (by decide +kernel)
    have hrun' : Build.sentences ["(∀x P(x)) ∨ (∀y Q(y))"] {} = (.ok
        [{ literals := [{ name := "P", args := [.var "v1"] }, { name := "Q", args := [.var "v2"] }],
           id := 1 }],
        { supply := { counter := 2 }, symbols := ["x", "P", "y", "Q"] }) :=
      eq_ok_of_toOption (by decide +kernel)
    have htext : (quantifiedPair .or .universal "x" "x").render
        = "(∀x P(x)) ∨ (∀x Q(x))".toList := by
      simp [quantifiedPair, render, wrap, Marker.symbol, Junctor.symbol]
      decide
    have htext' : (quantifiedPair .or .universal "x" "y").render
        = "(∀x P(x)) ∨ (∀y Q(y))".toList := by
      simp [quantifiedPair, render, wrap, Marker.symbol, Junctor.symbol]
      decide
    refine ⟨legal_quantifiedPair _ _, rebound_quantifiedPair, by decide, hfresh _ _, _, _, _, _,
      by rw [htext]; exact hrun, by rw [htext']; exact hrun', ?_⟩
    -- one variable would need two names
    rintro ⟨κ, _, _, hall⟩
    obtain ⟨⟨g, _, hclause⟩, _⟩ := by
      simpa only [List.map_cons, List.map_nil, List.forall₂_cons] using hall
    obtain ⟨hfirst, hsecond⟩ : "v1" = g "v1" ∧ "v2" = g "v1" := by
      simpa [Renaming.clause, Renaming.literal, Literal.mapArgs, Renaming.term] using hclause
    exact absurd (hfirst.trans hsecond.symm) (by decide)

end Refuter
