import Mathlib
import Refuter.Proofs.Structure
import Refuter.Sentence.Quantifier

/-! # Formulas

Sentences as trees, with their meaning in a structure.

- `Formula.Holds` is the meaning: quantifiers range over the domain.
- `Formula.Matrix` ignores the quantifiers, so every variable keeps the value it
  has outside.
- The *shapes* (`Fact`, `Antecedent`, …) are those formulas that can be converted,
  and `Formula.clauses` are the literals of their clauses.

**Key fact.** The clauses of a fact say its matrix (`Fact.matrix_iff`). All that
Skolem constants have to make up for is the difference between matrix and meaning.
-/

namespace Refuter

universe u

open Sentence (Marker)

/-- The other marker. -/
def Sentence.Marker.dual : Marker → Marker
  | .universal => .existential
  | .existential => .universal

/-- The connectives that join any number of formulas. -/
inductive Junctor where
  /-- All of them are true. -/
  | and
  /-- Some of them is true. -/
  | or
  deriving Repr, DecidableEq

/-- Truth of what is joined from the truth of its parts. -/
def Junctor.Combine : Junctor → List Prop → Prop
  | .and, parts => ∀ p ∈ parts, p
  | .or, parts => ∃ p ∈ parts, p

/-- A formula of first-order logic, negated at its atoms only. -/
inductive Formula where
  /-- A literal. -/
  | literal (l : Literal)
  /-- A conjunction or a disjunction. -/
  | joined (j : Junctor) (parts : List Formula)
  /-- An implication. -/
  | implies (antecedent consequent : Formula)
  /-- A quantifier in front of its scope. -/
  | quantified (m : Marker) (x : String) (scope : Formula)

/-- A variable under a new name. -/
def Term.mapVar (f : String → String) : Term → Term
  | .var x => .var (f x)
  | .const c => .const c

namespace Formula

/-- Induction over formulas: what holds of all parts holds of what they make up. -/
@[elab_as_elim, induction_eliminator]
theorem induct {motive : Formula → Prop} (literal : ∀ l, motive (.literal l))
    (joined : ∀ j parts, (∀ F ∈ parts, motive F) → motive (.joined j parts))
    (implies : ∀ A C, motive A → motive C → motive (.implies A C))
    (quantified : ∀ m x G, motive G → motive (.quantified m x G)) : ∀ F, motive F
  | .literal l => literal l
  | .joined j parts =>
    joined j parts fun F _ => induct literal joined implies quantified F
  | .implies A C =>
    implies A C (induct literal joined implies quantified A)
      (induct literal joined implies quantified C)
  | .quantified m x G => quantified m x G (induct literal joined implies quantified G)

/-! ### Meaning -/

/-- Is a formula true, given values for its free variables? -/
def Holds (M : Structure.{u}) (v : String → M.Domain) : Formula → Prop
  | .literal l => l.TrueIn (M.atoms v)
  | .joined j parts => j.Combine (parts.map (Holds M v))
  | .implies A C => Holds M v A → Holds M v C
  | .quantified .universal x G => ∀ a, Holds M (Function.update v x a) G
  | .quantified .existential x G => ∃ a, Holds M (Function.update v x a) G

/-- Is a formula true when its quantifiers are left out? -/
def Matrix (τ : Assignment) : Formula → Prop
  | .literal l => l.TrueIn τ
  | .joined j parts => j.Combine (parts.map (Matrix τ))
  | .implies A C => A.Matrix τ → C.Matrix τ
  | .quantified _ _ G => G.Matrix τ

/-! ### Names -/

/-- The variables that occur free, in order and with repetitions. -/
def free : Formula → List String
  | .literal l => l.vars
  | .joined _ parts => parts.flatMap free
  | .implies A C => A.free ++ C.free
  | .quantified _ x G => G.free.filter (· ≠ x)

/-- The variables that occur free or bound or behind a marker. -/
def vars : Formula → List String
  | .literal l => l.vars
  | .joined _ parts => parts.flatMap vars
  | .implies A C => A.vars ++ C.vars
  | .quantified _ x G => x :: G.vars

/-- The variables for which Skolem constants are made, in the order of reading:
    those bound by `m`, and in front of an arrow those bound by the other marker. -/
def skolems (m : Marker) : Formula → List String
  | .literal _ => []
  | .joined _ parts => parts.flatMap (skolems m)
  | .implies A C => A.skolems m.dual ++ C.skolems m
  | .quantified k x G => if k = m then x :: G.skolems m else G.skolems m

/-- Gives variables new names, bound ones included. -/
def mapVars (f : String → String) : Formula → Formula
  | .literal l => .literal (l.mapArgs (Term.mapVar f))
  | .joined j parts => .joined j (parts.map (mapVars f))
  | .implies A C => .implies (A.mapVars f) (C.mapVars f)
  | .quantified m x G => .quantified m (f x) (G.mapVars f)

/-- Only the values of the free variables matter. -/
theorem holds_congr {M : Structure.{u}} {F : Formula} : ∀ {v w : String → M.Domain},
    (∀ x ∈ F.free, v x = w x) → (F.Holds M v ↔ F.Holds M w) := by
  induction F with
  | literal l =>
    intro v w h
    have hargs : l.args.map (M.eval v) = l.args.map (M.eval w) := by
      refine List.map_congr_left fun t ht => ?_
      cases t with
      | var x => exact h x (by rw [free]; exact List.mem_filterMap.2 ⟨_, ht, rfl⟩)
      | const k => rfl
    rw [Holds, Holds, Literal.TrueIn, Literal.TrueIn, Structure.atoms, Structure.atoms, hargs]
  | joined j parts ih =>
    intro v w h
    have hparts : parts.map (Holds M v) = parts.map (Holds M w) := by
      refine List.map_congr_left fun F hF => propext (ih F hF fun x hx => h x ?_)
      rw [free]
      exact List.mem_flatMap.2 ⟨F, hF, hx⟩
    rw [Holds, Holds, hparts]
  | implies A C ihA ihC =>
    intro v w h
    rw [free] at h
    rw [Holds, Holds, ihA fun x hx => h x (List.mem_append_left _ hx),
      ihC fun x hx => h x (List.mem_append_right _ hx)]
  | quantified m x G ih =>
    intro v w h
    -- the bound variable gets the same value on both sides
    have hbody : ∀ a, G.Holds M (Function.update v x a) ↔ G.Holds M (Function.update w x a) := by
      refine fun a => ih fun y hy => ?_
      by_cases hyx : y = x
      · rw [hyx, Function.update_self, Function.update_self]
      · rw [Function.update_of_ne hyx, Function.update_of_ne hyx]
        refine h y ?_
        rw [free]
        exact List.mem_filter.2 ⟨hy, by simpa using hyx⟩
    cases m with
    | universal => rw [Holds, Holds]; exact forall_congr' hbody
    | existential => rw [Holds, Holds]; exact exists_congr hbody

/-! ### Quantifiers in front -/

/-- The quantifiers in front of a formula. -/
def lead : Formula → List (Marker × String)
  | .quantified m x G => (m, x) :: G.lead
  | _ => []

/-- A formula without the quantifiers in front. -/
def body : Formula → Formula
  | .quantified _ _ G => G.body
  | F => F

/-- Puts quantifiers in front of a formula. -/
def close (quantifiers : List (Marker × String)) (F : Formula) : Formula :=
  quantifiers.foldr (fun q G => .quantified q.1 q.2 G) F

theorem close_lead_body (F : Formula) : close F.lead F.body = F := by
  induction F with
  | literal | joined | implies => rfl
  | quantified m x G ih => exact congrArg (Formula.quantified m x) ih

theorem lead_close (quantifiers : List (Marker × String)) (F : Formula) :
    (close quantifiers F).lead = quantifiers ++ F.lead := by
  induction quantifiers with
  | nil => rfl
  | cons q rest ih => exact congrArg (q :: ·) ih

theorem body_close (quantifiers : List (Marker × String)) (F : Formula) :
    (close quantifiers F).body = F.body := by
  induction quantifiers with
  | nil => rfl
  | cons q rest ih => exact ih

theorem lead_body (F : Formula) : F.body.lead = [] := by
  induction F with
  | literal | joined | implies => rfl
  | quantified m x G ih => exact ih

theorem body_body (F : Formula) : F.body.body = F.body := by
  induction F with
  | literal | joined | implies => rfl
  | quantified m x G ih => exact ih

theorem matrix_body (τ : Assignment) (F : Formula) : F.body.Matrix τ ↔ F.Matrix τ := by
  induction F with
  | literal | joined | implies => rfl
  | quantified m x G ih => rw [Matrix]; exact ih

/-- The names bound by a marker among quantifiers. -/
def namesBy (m : Marker) (quantifiers : List (Marker × String)) : List String :=
  quantifiers.filterMap fun q => if q.1 = m then some q.2 else none

theorem skolems_eq (m : Marker) (F : Formula) :
    F.skolems m = namesBy m F.lead ++ F.body.skolems m := by
  induction F with
  | literal | joined | implies => rfl
  | quantified k x G ih =>
    rw [skolems, ih]
    by_cases hk : k = m
    · simp [lead, body, namesBy, hk]
    · simp [lead, body, namesBy, hk]

/-- Whether the formula behind quantifiers stands in the scope of one that is not
    by `m`. Quantifiers by `m` are refused in there. -/
def scopeBehind (m : Marker) (inScope : Bool) : List (Marker × String) → Option Bool
  | [] => some inScope
  | q :: rest =>
    if q.1 = m then if inScope then none else scopeBehind m inScope rest
    else scopeBehind m true rest

theorem scopeBehind_append (m : Marker) (qs rs : List (Marker × String)) : ∀ inScope,
    scopeBehind m inScope (qs ++ rs) = (scopeBehind m inScope qs).bind (scopeBehind m · rs) := by
  induction qs with
  | nil => exact fun _ => rfl
  | cons q rest ih =>
    intro inScope
    rw [List.cons_append, scopeBehind, scopeBehind]
    split
    · split
      · rfl
      · exact ih inScope
    · exact ih true

/-! ### Clauses of a formula -/

/-- The literals of a formula, in order. -/
def literals : Formula → List Literal
  | .literal l => [l]
  | .joined _ parts => parts.flatMap literals
  | .implies A C => A.literals ++ C.literals
  | .quantified _ _ G => G.literals

/-- The alternatives of an antecedent, each with its literals. -/
def alternatives : Formula → List (List Literal)
  | .joined .or parts => parts.map literals
  | .quantified _ _ G => G.alternatives
  | F => [F.literals]

/-- The literals of each clause of a formula. -/
def clauses : Formula → List (List Literal)
  | .joined .and parts => parts.flatMap clauses
  | .implies A C =>
    A.alternatives.flatMap fun p => C.clauses.map (p.map Literal.negate ++ ·)
  | .quantified _ _ G => G.clauses
  | F => [F.literals]

theorem literals_body (F : Formula) : F.body.literals = F.literals := by
  induction F with
  | literal | joined | implies => rfl
  | quantified m x G ih => rw [literals]; exact ih

theorem alternatives_body (F : Formula) : F.body.alternatives = F.alternatives := by
  induction F with
  | literal | joined | implies => rfl
  | quantified m x G ih => rw [alternatives]; exact ih

theorem clauses_body (F : Formula) : F.body.clauses = F.clauses := by
  induction F with
  | literal | joined | implies => rfl
  | quantified m x G ih => rw [clauses]; exact ih

/-! ### The shapes that can be converted -/

/-- A single literal. -/
def IsLiteral (F : Formula) : Prop :=
  ∃ l, F = .literal l

/-- A literal behind quantifiers. -/
def Disjunct (inScope : Bool) (F : Formula) : Prop :=
  ∃ b, scopeBehind .existential inScope F.lead = some b ∧ F.body.IsLiteral

theorem IsLiteral.disjunct {inScope : Bool} {F : Formula} (h : F.IsLiteral) :
    F.Disjunct inScope := by
  obtain ⟨l, rfl⟩ := h
  exact ⟨inScope, rfl, l, rfl⟩

/-- The first literal of a formula. -/
def firstLiteral (F : Formula) : Literal :=
  F.literals.headD default

theorem firstLiteral_of_body {F : Formula} {l : Literal} (h : F.body = .literal l) :
    F.firstLiteral = l := by
  rw [firstLiteral, ← literals_body, h, literals]
  rfl

@[simp] theorem firstLiteral_literal (l : Literal) : (Formula.literal l).firstLiteral = l :=
  firstLiteral_of_body rfl

theorem Disjunct.literals_eq {inScope : Bool} {F : Formula} (h : F.Disjunct inScope) :
    F.literals = [F.firstLiteral] := by
  obtain ⟨_, _, l, hl⟩ := h
  rw [firstLiteral_of_body hl, ← literals_body, hl, literals]

theorem Disjunct.skolems_eq {inScope : Bool} {F : Formula} (h : F.Disjunct inScope) :
    F.skolems .existential = namesBy .existential F.lead := by
  obtain ⟨_, _, l, hl⟩ := h
  rw [Formula.skolems_eq, hl, skolems, List.append_nil]

/-- A literal or a disjunction of disjuncts, behind quantifiers. -/
def Disjunction (inScope : Bool) (F : Formula) : Prop :=
  ∃ b, scopeBehind .existential inScope F.lead = some b ∧
    (F.body.IsLiteral ∨ ∃ parts, F.body = .joined .or parts ∧ ∀ G ∈ parts, G.Disjunct b)

/-- Quantifiers in front of a disjunction can be entered first. -/
theorem disjunction_body_iff {inScope : Bool} {F : Formula} :
    F.Disjunction inScope ↔
      ∃ b, scopeBehind .existential inScope F.lead = some b ∧ F.body.Disjunction b := by
  refine exists_congr fun b => and_congr_right fun _ => ?_
  simp [Disjunction, lead_body, body_body, scopeBehind]

/-- A literal or a conjunction of literals. -/
def Premise (F : Formula) : Prop :=
  F.IsLiteral ∨ ∃ parts, F = .joined .and parts ∧ ∀ G ∈ parts, G.IsLiteral

/-- What may stand in front of an arrow. -/
def Antecedent (inScope : Bool) (F : Formula) : Prop :=
  ∃ b, scopeBehind .universal inScope F.lead = some b ∧
    (F.body.Premise ∨ ∃ parts, F.body = .joined .or parts ∧ ∀ G ∈ parts, G.Premise)

/-- What may stand behind an arrow. -/
def Consequent (inScope : Bool) (F : Formula) : Prop :=
  ∃ b, scopeBehind .existential inScope F.lead = some b ∧
    (F.body.Disjunction b ∨
      ∃ parts, F.body = .joined .and parts ∧ ∀ G ∈ parts, G.Disjunction b)

/-- A sentence that can be converted, given whether it stands in the scope of a
    universal quantifier. -/
inductive Fact : Bool → Formula → Prop where
  /-- An implication. -/
  | implication {inScope b : Bool} {F A C : Formula}
      (enter : scopeBehind .existential inScope F.lead = some b) (shape : F.body = .implies A C)
      (antecedent : A.Antecedent b) (consequent : C.Consequent b) : Fact inScope F
  /-- A conjunction of facts. -/
  | conjunction {inScope b : Bool} {F : Formula} {parts : List Formula}
      (enter : scopeBehind .existential inScope F.lead = some b)
      (shape : F.body = .joined .and parts) (facts : ∀ G ∈ parts, Fact b G) : Fact inScope F
  /-- A disjunction. -/
  | disjunction {inScope : Bool} {F : Formula} (shape : F.Disjunction inScope) : Fact inScope F

/-! ### The clauses say the matrix -/

theorem matrix_and {τ : Assignment} {parts : List Formula} :
    Matrix τ (.joined .and parts) ↔ ∀ F ∈ parts, F.Matrix τ := by
  rw [Matrix, Junctor.Combine, List.forall_mem_map]

theorem matrix_or {τ : Assignment} {parts : List Formula} :
    Matrix τ (.joined .or parts) ↔ ∃ F ∈ parts, F.Matrix τ := by
  simp only [Matrix, Junctor.Combine, List.mem_map, exists_exists_and_eq_and]

theorem IsLiteral.matrix_iff {τ : Assignment} {F : Formula} (h : F.IsLiteral) :
    (F.Matrix τ ↔ ∃ l ∈ F.literals, l.TrueIn τ) ∧ (F.Matrix τ ↔ ∀ l ∈ F.literals, l.TrueIn τ) := by
  obtain ⟨l, rfl⟩ := h
  simp [Matrix, literals]

theorem Disjunct.matrix_iff {τ : Assignment} {inScope : Bool} {F : Formula}
    (h : F.Disjunct inScope) : F.Matrix τ ↔ ∃ l ∈ F.literals, l.TrueIn τ := by
  obtain ⟨_, _, hl⟩ := h
  rw [← matrix_body, ← literals_body]
  exact hl.matrix_iff.1

theorem Disjunction.matrix_iff {τ : Assignment} {inScope : Bool} {F : Formula}
    (h : F.Disjunction inScope) : F.Matrix τ ↔ Clause.TrueIn τ ⟨F.literals⟩ := by
  obtain ⟨b, _, hl | ⟨parts, hbody, hparts⟩⟩ := h
  · rw [← matrix_body, ← literals_body]
    exact hl.matrix_iff.1
  · have hany : (∃ G ∈ parts, G.Matrix τ) ↔ ∃ G ∈ parts, ∃ l ∈ G.literals, l.TrueIn τ :=
      exists_congr fun G => and_congr_right fun hG => (hparts G hG).matrix_iff
    rw [← matrix_body, ← literals_body, hbody, matrix_or, hany, literals]
    simp only [Clause.TrueIn, List.mem_flatMap]
    exact ⟨fun ⟨G, hG, l, hl, ht⟩ => ⟨l, ⟨G, hG, hl⟩, ht⟩,
      fun ⟨l, ⟨G, hG, hl⟩, ht⟩ => ⟨G, hG, l, hl, ht⟩⟩

theorem Disjunction.clauses_eq {inScope : Bool} {F : Formula} (h : F.Disjunction inScope) :
    F.clauses = [F.literals] := by
  obtain ⟨b, _, ⟨l, hl⟩ | ⟨parts, hbody, _⟩⟩ := h
  · rw [← clauses_body, ← literals_body, hl]
    simp [clauses]
  · rw [← clauses_body, ← literals_body, hbody]
    simp [clauses]

theorem Premise.matrix_iff {τ : Assignment} {F : Formula} (h : F.Premise) :
    F.Matrix τ ↔ ∀ l ∈ F.literals, l.TrueIn τ := by
  obtain hl | ⟨parts, rfl, hparts⟩ := h
  · exact hl.matrix_iff.2
  · have hall : (∀ G ∈ parts, G.Matrix τ) ↔ ∀ G ∈ parts, ∀ l ∈ G.literals, l.TrueIn τ :=
      forall₂_congr fun G hG => (hparts G hG).matrix_iff.2
    rw [matrix_and, hall, literals]
    simp only [List.mem_flatMap]
    exact ⟨fun h l ⟨G, hG, hl⟩ => h G hG l hl, fun h G hG l hl => h l ⟨G, hG, hl⟩⟩

theorem Premise.alternatives_eq {F : Formula} (h : F.Premise) :
    F.alternatives = [F.literals] := by
  obtain ⟨l, rfl⟩ | ⟨parts, rfl, _⟩ := h
  · rfl
  · simp [alternatives]

theorem Antecedent.matrix_iff {τ : Assignment} {inScope : Bool} {F : Formula}
    (h : F.Antecedent inScope) :
    F.Matrix τ ↔ ∃ p ∈ F.alternatives, ∀ l ∈ p, l.TrueIn τ := by
  obtain ⟨b, _, hpremise | ⟨parts, hbody, hparts⟩⟩ := h
  · rw [← matrix_body, ← alternatives_body, hpremise.alternatives_eq, hpremise.matrix_iff]
    simp
  · have hany : (∃ G ∈ parts, G.Matrix τ) ↔ ∃ G ∈ parts, ∀ l ∈ G.literals, l.TrueIn τ :=
      exists_congr fun G => and_congr_right fun hG => (hparts G hG).matrix_iff
    rw [← matrix_body, ← alternatives_body, hbody, matrix_or, hany, alternatives]
    simp

theorem Consequent.matrix_iff {τ : Assignment} {inScope : Bool} {F : Formula}
    (h : F.Consequent inScope) : F.Matrix τ ↔ ∀ ls ∈ F.clauses, Clause.TrueIn τ ⟨ls⟩ := by
  obtain ⟨b, _, hone | ⟨parts, hbody, hparts⟩⟩ := h
  · rw [← matrix_body, ← clauses_body, hone.clauses_eq, hone.matrix_iff]
    simp
  · have hall : (∀ G ∈ parts, G.Matrix τ) ↔ ∀ G ∈ parts, Clause.TrueIn τ ⟨G.literals⟩ :=
      forall₂_congr fun G hG => (hparts G hG).matrix_iff
    rw [← matrix_body, ← clauses_body, hbody, matrix_and, hall, clauses]
    simp only [List.mem_flatMap]
    constructor
    · rintro h ls ⟨G, hG, hls⟩
      rw [(hparts G hG).clauses_eq, List.mem_singleton] at hls
      exact hls ▸ h G hG
    · refine fun h G hG => h _ ⟨G, hG, ?_⟩
      rw [(hparts G hG).clauses_eq]
      exact List.mem_singleton_self _

/-- A clause made of a negated alternative and a conjunct. -/
theorem trueIn_negated_append {τ : Assignment} (p c : List Literal) :
    Clause.TrueIn τ ⟨p.map Literal.negate ++ c⟩ ↔
      ((∀ l ∈ p, l.TrueIn τ) → Clause.TrueIn τ ⟨c⟩) := by
  simp only [Clause.TrueIn, List.mem_append, List.mem_map]
  constructor
  · rintro ⟨l, ⟨k, hk, rfl⟩ | hl, htrue⟩ hall
    · exact absurd (hall k hk) (Literal.trueIn_negate.1 htrue)
    · exact ⟨l, hl, htrue⟩
  · intro himp
    by_cases hall : ∀ l ∈ p, l.TrueIn τ
    · obtain ⟨l, hl, htrue⟩ := himp hall
      exact ⟨l, .inr hl, htrue⟩
    · simp only [not_forall] at hall
      obtain ⟨l, hl, hfalse⟩ := hall
      exact ⟨l.negate, .inl ⟨l, hl, rfl⟩, Literal.trueIn_negate.2 hfalse⟩

/-- **The clauses of a fact say its matrix,** under every assignment. -/
theorem Fact.matrix_iff {τ : Assignment} {inScope : Bool} {F : Formula} (h : F.Fact inScope) :
    F.Matrix τ ↔ ∀ ls ∈ F.clauses, Clause.TrueIn τ ⟨ls⟩ := by
  induction h with
  | implication enter shape antecedent consequent =>
    rw [← matrix_body, ← clauses_body, shape, Matrix, antecedent.matrix_iff,
      consequent.matrix_iff, clauses]
    simp only [List.mem_flatMap, List.mem_map]
    constructor
    · rintro himp _ ⟨p, hp, c, hc, rfl⟩
      exact (trueIn_negated_append p c).2 fun hall => himp ⟨p, hp, hall⟩ c hc
    · rintro h ⟨p, hp, hall⟩ c hc
      exact (trueIn_negated_append p c).1 (h _ ⟨p, hp, c, hc, rfl⟩) hall
  | conjunction enter shape facts ih =>
    rw [← matrix_body, ← clauses_body, shape, matrix_and, clauses, forall₂_congr ih]
    simp only [List.mem_flatMap]
    exact ⟨fun h ls ⟨G, hG, hls⟩ => h G hG ls hls, fun h G hG ls hls => h ls ⟨G, hG, hls⟩⟩
  | disjunction shape =>
    rw [shape.clauses_eq, shape.matrix_iff]
    simp

/-! ### The literals of the clauses -/

theorem mem_literals_of_mem_alternatives {F : Formula} {ls : List Literal} (hls : ls ∈ F.alternatives)
    {l : Literal} (hl : l ∈ ls) : l ∈ F.literals := by
  induction F with
  | literal l' =>
    simp only [alternatives, List.mem_singleton] at hls
    exact hls ▸ hl
  | joined j parts =>
    cases j with
    | or =>
      rw [alternatives] at hls
      obtain ⟨G, hG, rfl⟩ := List.mem_map.1 hls
      rw [literals]
      exact List.mem_flatMap.2 ⟨G, hG, hl⟩
    | and =>
      simp only [alternatives, List.mem_singleton] at hls
      exact hls ▸ hl
  | implies A C =>
    simp only [alternatives, List.mem_singleton] at hls
    exact hls ▸ hl
  | quantified m x G ih =>
    rw [alternatives] at hls
    rw [literals]
    exact ih hls

/-- **The literals in the clauses of a formula** are its literals; some are negated, because
    they stand in front of an arrow. -/
theorem mem_literals_of_mem_clauses {F : Formula} : ∀ {ls : List Literal}, ls ∈ F.clauses →
    ∀ {l : Literal}, l ∈ ls → ∃ k ∈ F.literals, l = k ∨ l = k.negate := by
  induction F with
  | literal l' =>
    intro ls hls l hl
    simp only [clauses, List.mem_singleton] at hls
    exact ⟨l, hls ▸ hl, .inl rfl⟩
  | joined j parts ih =>
    intro ls hls l hl
    cases j with
    | and =>
      rw [clauses] at hls
      obtain ⟨G, hG, hls⟩ := List.mem_flatMap.1 hls
      obtain ⟨k, hk, hsign⟩ := ih G hG hls hl
      rw [literals]
      exact ⟨k, List.mem_flatMap.2 ⟨G, hG, hk⟩, hsign⟩
    | or =>
      simp only [clauses, List.mem_singleton] at hls
      exact ⟨l, hls ▸ hl, .inl rfl⟩
  | implies A C _ ihC =>
    intro ls hls l hl
    rw [clauses] at hls
    obtain ⟨p, hp, hls⟩ := List.mem_flatMap.1 hls
    obtain ⟨c, hc, rfl⟩ := List.mem_map.1 hls
    rw [literals]
    rcases List.mem_append.1 hl with hl | hl
    · obtain ⟨k, hk, rfl⟩ := List.mem_map.1 hl
      exact ⟨k, List.mem_append_left _ (mem_literals_of_mem_alternatives hp hk), .inr rfl⟩
    · obtain ⟨k, hk, hsign⟩ := ihC hc hl
      exact ⟨k, List.mem_append_right _ hk, hsign⟩
  | quantified m x G ih =>
    intro ls hls l hl
    rw [clauses] at hls
    rw [literals]
    exact ih hls hl

/-- The arguments in the clauses of a formula are arguments of its literals. -/
theorem args_of_mem_clauses {F : Formula} {ls : List Literal} (hls : ls ∈ F.clauses)
    {l : Literal} (hl : l ∈ ls) : ∃ k ∈ F.literals, k.args = l.args := by
  obtain ⟨k, hk, rfl | rfl⟩ := mem_literals_of_mem_clauses hls hl
  · exact ⟨_, hk, rfl⟩
  · exact ⟨k, hk, rfl⟩

end Formula

end Refuter
