import Mathlib.Data.List.InsertIdx
import Mathlib.Data.Set.Function
import Refuter.Proofs.Search

/-! # Names do not matter to a search

A *renaming* gives variables and constants new names. On the terms that occur it
must be one-to-one; elsewhere it may do as it likes, and since resolution makes no
new terms (`mem_resolvent`) the search never gets elsewhere.

**Key result.** Everything a search does commutes with such a renaming: walks,
unifiers, resolvents, the test whether a clause is present, attempts, passes and
runs. Two searches whose clauses are renamings of one another derive the same
clauses from the same parents in the same order (`Loop.run_renamed`).
-/

namespace Refuter

/-- New names for variables and for constants. -/
structure Renaming where
  /-- The new name of a variable. -/
  vars : String → String
  /-- The new name of a constant. -/
  consts : String → String

namespace Renaming

variable (ρ : Renaming)

/-- A term under its new name. -/
def term : Term → Term
  | .var x => .var (ρ.vars x)
  | .const c => .const (ρ.consts c)

/-- A literal with its terms renamed. -/
def literal (l : Literal) : Literal :=
  l.mapArgs ρ.term

/-- A clause with its terms renamed. -/
def clause (c : Clause) : Clause :=
  ⟨c.literals.map ρ.literal⟩

/-- A numbered clause keeps its number. -/
def numbered (c : NumberedClause) : NumberedClause :=
  (ρ.clause c.toClause).withId c.id

/-- A substitution with bound names and terms renamed. -/
def substitution (σ : Substitution) : Substitution :=
  ⟨σ.bindings.map fun b => (ρ.vars b.1, ρ.term b.2)⟩

/-- A resolvent keeps its positions. -/
def resolvent (r : Resolvent) : Resolvent :=
  { r with unifier := ρ.substitution r.unifier, clause := ρ.clause r.clause }

/-- A working set keeps its numbers, its attempted pairs and its frontier. -/
def workingSet (ws : WorkingSet) : WorkingSet :=
  { ws with clauses := ws.clauses.map ρ.numbered }

/-- A step keeps its number and those of its clauses. -/
def step (s : Step) : Step :=
  { number := s.number
    left := ρ.numbered s.left
    right := ρ.numbered s.right
    resolvent := ρ.numbered s.resolvent
    unifier := ρ.substitution s.unifier }

end Renaming

/-! ### The terms that occur -/

/-- All terms of a clause lie in a set. -/
def Clause.TermsIn (T : Set Term) (c : Clause) : Prop :=
  ∀ l ∈ c.literals, ∀ t ∈ l.args, t ∈ T

/-- All bound variables and their terms lie in a set. -/
def Substitution.Inside (T : Set Term) (σ : Substitution) : Prop :=
  ∀ b ∈ σ.bindings, Term.var b.1 ∈ T ∧ b.2 ∈ T

/-- Resolution stays among the terms of its parents. -/
theorem Clause.TermsIn.resolvent {T : Set Term} {c d : Clause} {r : Resolvent}
    (hc : c.TermsIn T) (hd : d.TermsIn T) (h : resolve c d = some r) : r.clause.TermsIn T := by
  intro k hk
  have hparents : ∀ l, l ∈ c.literals ∨ l ∈ d.literals → ∀ t ∈ l.args, t ∈ T :=
    fun l hl => hl.elim (hc l) (hd l)
  obtain ⟨_, _, _, _, _, hargs⟩ := mem_resolvent h hparents hk
  exact hargs

theorem Substitution.Inside.resolve_mem {T : Set Term} {σ : Substitution} (hσ : σ.Inside T)
    {t : Term} (ht : t ∈ T) : σ.resolve t ∈ T :=
  Substitution.resolve_closed (P := (· ∈ T)) (fun b hb => (hσ b hb).2) ht

/-! ### Unification -/

section Unification

open Substitution

variable {ρ : Renaming} {T : Set Term} (hρ : Set.InjOn ρ.term T)
include hρ

theorem Renaming.vars_injOn {x y : String} (hx : Term.var x ∈ T) (hy : Term.var y ∈ T)
    (h : ρ.vars x = ρ.vars y) : x = y := by
  have hterm : ρ.term (.var x) = ρ.term (.var y) := by rw [term, term, h]
  exact Term.var.inj (hρ hx hy hterm)

theorem get?_substitution {σ : Substitution} (hσ : σ.Inside T) {x : String}
    (hx : Term.var x ∈ T) :
    Members.get? (ρ.substitution σ).bindings (ρ.vars x) = (σ.bindings.get? x).map ρ.term := by
  obtain ⟨bindings⟩ := σ
  induction bindings with
  | nil => rfl
  | cons b rest ih =>
    obtain ⟨y, t⟩ := b
    have hy : Term.var y ∈ T := (hσ _ (List.mem_cons_self ..)).1
    have hrest := ih fun b hb => hσ b (List.mem_cons_of_mem _ hb)
    simp only [Renaming.substitution, Members.get?, List.map_cons, List.lookup_cons] at hrest ⊢
    by_cases hxy : x = y
    · simp [hxy]
    · have hne : ρ.vars x ≠ ρ.vars y := fun e => hxy (Renaming.vars_injOn hρ hx hy e)
      rw [beq_false_of_ne hxy, beq_false_of_ne hne]
      exact hrest

theorem substitution_set {σ : Substitution} (hσ : σ.Inside T) {x : String}
    (hx : Term.var x ∈ T) (u : Term) :
    ρ.substitution ⟨σ.bindings.set x u⟩
      = ⟨Members.set (ρ.substitution σ).bindings (ρ.vars x) (ρ.term u)⟩ := by
  obtain ⟨bindings⟩ := σ
  simp only [Renaming.substitution, Substitution.mk.injEq]
  induction bindings with
  | nil => rfl
  | cons b rest ih =>
    obtain ⟨y, t⟩ := b
    have hy : Term.var y ∈ T := (hσ _ (List.mem_cons_self ..)).1
    have hrest := ih fun b hb => hσ b (List.mem_cons_of_mem _ hb)
    by_cases hyx : y = x
    · simp [Members.set, hyx]
    · have hne : ρ.vars y ≠ ρ.vars x := fun e => hyx (Renaming.vars_injOn hρ hy hx e)
      simp only [Members.set, hyx, hne, if_false, List.map_cons, hrest]

theorem follow_rename {σ : Substitution} (hσ : σ.Inside T) (fuel : Nat) {t : Term} (ht : t ∈ T) :
    (ρ.substitution σ).follow fuel (ρ.term t) = ρ.term (σ.follow fuel t) := by
  induction fuel generalizing t with
  | zero => rfl
  | succ fuel ih =>
    cases t with
    | const c => rfl
    | var x =>
      simp only [Renaming.term, follow, get?_substitution hρ hσ ht]
      cases hget : σ.bindings.get? x with
      | none => rfl
      | some u => exact ih (hσ _ (mem_of_get? hget)).2

/-- **Walks** are renamed step by step. -/
theorem resolve_rename {σ : Substitution} (hσ : σ.Inside T) {t : Term} (ht : t ∈ T) :
    (ρ.substitution σ).resolve (ρ.term t) = ρ.term (σ.resolve t) := by
  have hsize : (ρ.substitution σ).size = σ.size := List.length_map ..
  rw [Substitution.resolve, hsize]
  exact follow_rename hρ hσ _ ht

theorem occurs_rename {σ : Substitution} (hσ : σ.Inside T) {x : String} (hx : Term.var x ∈ T)
    {t : Term} (ht : t ∈ T) :
    (ρ.substitution σ).occurs (ρ.vars x) (ρ.term t) = σ.occurs x t := by
  have hiff : ρ.term (σ.resolve t) = .var (ρ.vars x) ↔ σ.resolve t = .var x :=
    ⟨fun h => hρ (hσ.resolve_mem ht) hx h, fun h => by rw [h]; rfl⟩
  simp only [occurs, occursIn, resolve_rename hρ hσ ht, hiff]

omit hρ in
/-- A binding that is made is entered. -/
theorem toOption_bind (σ : Substitution) (x : String) (t : Term) :
    (σ.bind x t).toOption = if σ.occurs x t then none else some ⟨σ.bindings.set x t⟩ := by
  unfold Substitution.bind
  split <;> rfl

/-- Binding a variable commutes with renaming. -/
theorem bind_rename {σ : Substitution} (hσ : σ.Inside T) {x : String} (hx : Term.var x ∈ T)
    {t : Term} (ht : t ∈ T) :
    ((ρ.substitution σ).bind (ρ.vars x) (ρ.term t)).toOption
      = (σ.bind x t).toOption.map ρ.substitution := by
  rw [toOption_bind, toOption_bind, occurs_rename hρ hσ hx ht]
  split
  · rfl
  · rw [Option.map_some, substitution_set hρ hσ hx]

/-- **One pair of terms.** -/
theorem unifyTerms_rename {σ : Substitution} (hσ : σ.Inside T) {t u : Term} (ht : t ∈ T)
    (hu : u ∈ T) :
    unifyTerms (ρ.substitution σ) (ρ.term t) (ρ.term u)
      = (unifyTerms σ t u).map ρ.substitution := by
  have ht' := hσ.resolve_mem ht
  have hu' := hσ.resolve_mem hu
  simp only [unifyTerms, resolve_rename hρ hσ ht, resolve_rename hρ hσ hu]
  generalize σ.resolve t = t' at ht' ⊢
  generalize σ.resolve u = u' at hu' ⊢
  by_cases heq : t' = u'
  · rw [if_pos heq, if_pos (congrArg ρ.term heq), Option.map_some]
  · have hne : ρ.term t' ≠ ρ.term u' := fun e => heq (hρ ht' hu' e)
    rw [if_neg heq, if_neg hne]
    cases t' with
    | var x =>
      show (if (ρ.substitution σ).occurs (ρ.vars x) (ρ.term u') then none
        else ((ρ.substitution σ).bind (ρ.vars x) (ρ.term u')).toOption) = Option.map ρ.substitution
          (if σ.occurs x u' then none else (σ.bind x u').toOption)
      rw [occurs_rename hρ hσ ht' hu', bind_rename hρ hσ ht' hu']
      split <;> rfl
    | const a =>
      cases u' with
      | var y =>
        show (if (ρ.substitution σ).occurs (ρ.vars y) (ρ.term (.const a)) then none
          else ((ρ.substitution σ).bind (ρ.vars y) (ρ.term (.const a))).toOption)
            = Option.map ρ.substitution
              (if σ.occurs y (.const a) then none else (σ.bind y (.const a)).toOption)
        rw [occurs_rename hρ hσ hu' ht', bind_rename hρ hσ hu' ht']
        split <;> rfl
      | const b => rfl

omit hρ in
theorem Substitution.Inside.bind {σ τ : Substitution} (hσ : σ.Inside T) {x : String} {t : Term}
    (hx : Term.var x ∈ T) (ht : t ∈ T) (h : (σ.bind x t).toOption = some τ) : τ.Inside T := by
  rw [toOption_bind] at h
  split at h
  · cases h
  · obtain rfl := Option.some.inj h
    -- a key of the extended list is the new one or was there
    have hset : ∀ (bindings : Members Term), (∀ b ∈ bindings, Term.var b.1 ∈ T ∧ b.2 ∈ T) →
        ∀ b ∈ bindings.set x t, Term.var b.1 ∈ T ∧ b.2 ∈ T := by
      intro bindings
      induction bindings with
      | nil =>
        intro _ b hb
        obtain rfl := List.mem_singleton.1 hb
        exact ⟨hx, ht⟩
      | cons c rest ih =>
        obtain ⟨y, u⟩ := c
        intro hall b hb
        obtain ⟨hy, hrest⟩ := List.forall_mem_cons.1 hall
        simp only [Members.set] at hb
        split at hb
        · rcases List.mem_cons.1 hb with rfl | hb
          · exact ⟨hy.1, ht⟩
          · exact hrest b hb
        · rcases List.mem_cons.1 hb with rfl | hb
          · exact hy
          · exact ih hrest b hb
    exact hset _ hσ

omit hρ in
theorem Substitution.Inside.unifyTerms {σ τ : Substitution} (hσ : σ.Inside T) {t u : Term}
    (ht : t ∈ T) (hu : u ∈ T) (h : unifyTerms σ t u = some τ) : τ.Inside T := by
  have ht' := hσ.resolve_mem ht
  have hu' := hσ.resolve_mem hu
  unfold Refuter.unifyTerms at h
  dsimp only at h
  generalize σ.resolve t = t' at ht' h
  generalize σ.resolve u = u' at hu' h
  split at h
  · obtain rfl := Option.some.inj h
    exact hσ
  · split at h
    · split at h
      · cases h
      · exact hσ.bind ht' hu' h
    · split at h
      · cases h
      · exact hσ.bind hu' ht' h
    · cases h

theorem unifyArgs_rename (ts us : List Term) :
    ∀ {σ : Substitution}, σ.Inside T → (∀ t ∈ ts, t ∈ T) → (∀ u ∈ us, u ∈ T) →
      unifyArgs (ρ.substitution σ) (ts.map ρ.term) (us.map ρ.term)
        = (unifyArgs σ ts us).map ρ.substitution ∧
      ∀ τ, unifyArgs σ ts us = some τ → τ.Inside T := by
  induction ts generalizing us with
  | nil =>
    intro σ hσ _ _
    simp only [List.map_nil, unifyArgs, Option.map_some, Option.some.injEq]
    exact ⟨trivial, fun τ h => h ▸ hσ⟩
  | cons t ts ih =>
    cases us with
    | nil =>
      intro σ hσ _ _
      simp only [List.map_cons, List.map_nil, unifyArgs, Option.map_some, Option.some.injEq]
      exact ⟨trivial, fun τ h => h ▸ hσ⟩
    | cons u us =>
      intro σ hσ hts hus
      obtain ⟨ht, hts⟩ := List.forall_mem_cons.1 hts
      obtain ⟨hu, hus⟩ := List.forall_mem_cons.1 hus
      simp only [List.map_cons, unifyArgs, unifyTerms_rename hρ hσ ht hu]
      cases hone : unifyTerms σ t u with
      | none => exact ⟨rfl, fun τ h => by cases h⟩
      | some τ => exact ih us (hσ.unifyTerms ht hu hone) hts hus

/-- **Unifiers** of renamed literals are renamed unifiers. -/
theorem unify_rename {l m : Literal} (hl : ∀ t ∈ l.args, t ∈ T) (hm : ∀ t ∈ m.args, t ∈ T) :
    unify (ρ.literal l) (ρ.literal m) = (unify l m).map ρ.substitution ∧
      ∀ τ, unify l m = some τ → τ.Inside T := by
  have hempty : Inside T {} := fun _ hb => nomatch hb
  have hargs := unifyArgs_rename hρ l.args m.args hempty hl hm
  have harity : ∀ k : Literal, (ρ.literal k).arity = k.arity := fun k => List.length_map ..
  by_cases hshape : l.name = m.name ∧ l.arity = m.arity
  · have hshape' : (ρ.literal l).name = (ρ.literal m).name ∧
        (ρ.literal l).arity = (ρ.literal m).arity := by
      rw [harity, harity]
      exact hshape
    rw [unify, unify, if_pos hshape, if_pos hshape']
    exact hargs
  · have hshape' : ¬ ((ρ.literal l).name = (ρ.literal m).name ∧
        (ρ.literal l).arity = (ρ.literal m).arity) := by
      rw [harity, harity]
      exact hshape
    rw [unify, unify, if_neg hshape, if_neg hshape']
    exact ⟨rfl, fun τ h => by cases h⟩

theorem clash?_rename {l m : Literal} (hl : ∀ t ∈ l.args, t ∈ T) (hm : ∀ t ∈ m.args, t ∈ T) :
    clash? (ρ.literal l) (ρ.literal m) = (clash? l m).map ρ.substitution ∧
      ∀ τ, clash? l m = some τ → τ.Inside T := by
  have hsign : (ρ.literal l).isComplementary (ρ.literal m) = l.isComplementary m := rfl
  simp only [clash?, hsign]
  cases l.isComplementary m with
  | true => exact unify_rename hρ hl hm
  | false => exact ⟨rfl, fun τ h => by cases h⟩

/-! ### The rule -/

/-- Literals whose terms occur are told apart by their new names. -/
theorem literal_injOn : Set.InjOn ρ.literal {l | ∀ t ∈ l.args, t ∈ T} := by
  intro l hl m hm h
  obtain ⟨name, args, negated⟩ := l
  obtain ⟨name', args', negated'⟩ := m
  simp only [Renaming.literal, Literal.mapArgs, Literal.mk.injEq] at h ⊢
  refine ⟨h.1, ?_, h.2.2⟩
  -- argument by argument
  have hmap := h.2.1
  clear h
  induction args generalizing args' with
  | nil =>
    cases args' with
    | nil => rfl
    | cons _ _ => cases hmap
  | cons t ts ih =>
    cases args' with
    | nil => cases hmap
    | cons u us =>
      obtain ⟨ht, hts⟩ := List.forall_mem_cons.1 hl
      obtain ⟨hu, hus⟩ := List.forall_mem_cons.1 hm
      rw [List.map_cons, List.map_cons, List.cons.injEq] at hmap
      rw [hρ ht hu hmap.1, ih hts us hus hmap.2]

omit hρ in
theorem applyLiteral_rename {σ : Substitution} {l : Literal}
    (h : ∀ t ∈ l.args, (ρ.substitution σ).resolve (ρ.term t) = ρ.term (σ.resolve t)) :
    (ρ.substitution σ).applyLiteral (ρ.literal l) = ρ.literal (σ.applyLiteral l) := by
  simp only [applyLiteral, Renaming.literal, Literal.mapArgs, List.map_map, Literal.mk.injEq,
    true_and, and_true]
  exact List.map_congr_left h

/-- Dropping repetitions commutes with a map that tells the entries apart. -/
theorem distinct_map_literal {ls : List Literal} (h : ∀ l ∈ ls, ∀ t ∈ l.args, t ∈ T) :
    Finite.distinct (ls.map ρ.literal) = (Finite.distinct ls).map ρ.literal := by
  induction ls with
  | nil => rfl
  | cons l rest ih =>
    obtain ⟨hl, hrest⟩ := List.forall_mem_cons.1 h
    rw [List.map_cons, Finite.distinct, Finite.distinct, List.map_cons, ih hrest, List.filter_map]
    congr 2
    refine List.filter_congr fun k hk => ?_
    have hk' : ∀ t ∈ k.args, t ∈ T := hrest k (Finite.mem_distinct.1 hk)
    have hiff : ρ.literal k = ρ.literal l ↔ k = l :=
      ⟨fun e => literal_injOn hρ hk' hl e, congrArg ρ.literal⟩
    simp only [Function.comp_apply, ne_eq, hiff]

theorem remaining_rename {c d : Clause} (hc : c.TermsIn T) (hd : d.TermsIn T) (i j : Nat)
    {σ : Substitution} (hσ : σ.Inside T) :
    remaining (ρ.clause c) (ρ.clause d) i j (ρ.substitution σ)
      = ρ.clause (remaining c d i j σ) := by
  have hterms : ∀ l ∈ c.literals.eraseIdx i ++ d.literals.eraseIdx j, ∀ t ∈ l.args, t ∈ T := by
    intro l hl
    rcases List.mem_append.1 hl with hl | hl
    · exact hc l (List.mem_of_mem_eraseIdx hl)
    · exact hd l (List.mem_of_mem_eraseIdx hl)
  simp only [remaining, Renaming.clause, List.eraseIdx_map, ← List.map_append, Clause.mk.injEq]
  rw [← distinct_map_literal hρ, List.map_map, List.map_map]
  · congr 1
    refine List.map_congr_left fun l hl => ?_
    exact applyLiteral_rename fun t ht => resolve_rename hρ hσ (hterms l hl t ht)
  · intro l hl t ht
    obtain ⟨k, hk, rfl⟩ := List.mem_map.1 hl
    simp only [applyLiteral, Literal.mapArgs, List.mem_map] at ht
    obtain ⟨u, hu, rfl⟩ := ht
    exact hσ.resolve_mem (hterms k hk u hu)

omit hρ in
/-- The positions are those of the clauses before. -/
theorem positions_rename (c d : Clause) :
    positions (ρ.clause c) (ρ.clause d) = (positions c d).map
      fun p => ((ρ.literal p.1.1, p.1.2), (ρ.literal p.2.1, p.2.2)) := by
  simp only [positions, Renaming.clause, List.zipIdx_map, List.flatMap_map, List.map_flatMap,
    List.map_map]
  rfl

omit hρ in
theorem findSome?_congr_mem {α β : Type} {f g : α → Option β} {l : List α}
    (h : ∀ a ∈ l, f a = g a) : l.findSome? f = l.findSome? g := by
  induction l with
  | nil => rfl
  | cons a rest ih =>
    obtain ⟨ha, hrest⟩ := List.forall_mem_cons.1 h
    simp only [List.findSome?_cons, ha, ih hrest]

/-- **The rule** commutes with renaming: the same positions are resolved on. -/
theorem resolvent_rename {c d : Clause} (hc : c.TermsIn T) (hd : d.TermsIn T) :
    Refuter.resolve (ρ.clause c) (ρ.clause d) = (Refuter.resolve c d).map ρ.resolvent := by
  rw [Refuter.resolve, positions_rename, List.findSome?_map, Refuter.resolve, List.map_findSome?]
  refine findSome?_congr_mem fun p hp => ?_
  obtain ⟨⟨l, i⟩, ⟨m, j⟩⟩ := p
  simp only [positions, List.mem_flatMap, List.mem_map, Prod.mk.injEq] at hp
  obtain ⟨_, hl, _, hm, rfl, rfl⟩ := hp
  obtain ⟨hclash, hinside⟩ := clash?_rename hρ (hc l (List.fst_mem_of_mem_zipIdx hl))
    (hd m (List.fst_mem_of_mem_zipIdx hm))
  simp only [Function.comp_apply, hclash, Option.map_map]
  cases hcl : clash? l m with
  | none => rfl
  | some σ =>
    simp only [Option.map_some, Function.comp_apply, remaining_rename hρ hc hd i j (hinside σ hcl)]
    rfl

theorem same_rename {c d : Clause} (hc : c.TermsIn T) (hd : d.TermsIn T) :
    (ρ.clause c).same (ρ.clause d) = c.same d := by
  have hmem : ∀ {e : Clause}, e.TermsIn T → ∀ l, (∀ t ∈ l.args, t ∈ T) →
      (ρ.literal l ∈ (ρ.clause e).literals ↔ l ∈ e.literals) := by
    intro e he l hl
    constructor
    · intro h
      obtain ⟨k, hk, heq⟩ := List.mem_map.1 h
      rw [← literal_injOn hρ (he k hk) hl heq]
      exact hk
    · exact List.mem_map_of_mem
  rw [Bool.eq_iff_iff, Clause.same, Clause.same]
  simp only [Bool.and_eq_true, List.all_eq_true, List.contains_iff_mem]
  constructor
  · rintro ⟨h₁, h₂⟩
    exact ⟨fun l hl => (hmem hd l (hc l hl)).1 (h₁ _ (List.mem_map_of_mem hl)),
      fun l hl => (hmem hc l (hd l hl)).1 (h₂ _ (List.mem_map_of_mem hl))⟩
  · rintro ⟨h₁, h₂⟩
    constructor
    · intro k hk
      obtain ⟨l, hl, rfl⟩ := List.mem_map.1 hk
      exact List.mem_map_of_mem (h₁ l hl)
    · intro k hk
      obtain ⟨l, hl, rfl⟩ := List.mem_map.1 hk
      exact List.mem_map_of_mem (h₂ l hl)

end Unification

/-! ### Working sets -/

section Search

variable {ρ : Renaming} {T : Set Term}

theorem markAttempted_rename (ws : WorkingSet) (a b : Int) :
    (ρ.workingSet ws).markAttempted a b = ρ.workingSet (ws.markAttempted a b) := by
  have hatt : (ρ.workingSet ws).isAttempted a b = ws.isAttempted a b := rfl
  unfold WorkingSet.markAttempted
  rw [hatt]
  split <;> rfl

theorem join_rename (ws : WorkingSet) (c : Clause) :
    (ρ.workingSet ws).join (ρ.clause c) = ρ.workingSet (ws.join c) := by
  simp only [WorkingSet.join, Renaming.workingSet, List.map_append]
  rfl

theorem hasEmpty_rename (ws : WorkingSet) : (ρ.workingSet ws).hasEmpty = ws.hasEmpty := by
  have hempty : ∀ c : NumberedClause, (ρ.numbered c).toClause.isEmpty = c.toClause.isEmpty :=
    fun c => List.isEmpty_map
  simp only [WorkingSet.hasEmpty, Renaming.workingSet, List.any_map, Function.comp_def, hempty]

theorem pairs_rename (strategy : Strategy) (ws : WorkingSet) :
    strategy.pairs (ρ.workingSet ws)
      = (strategy.pairs ws).map fun pair => (ρ.numbered pair.1, ρ.numbered pair.2) := by
  have hpairs : ∀ frontier, pairsFrom frontier (ws.clauses.map ρ.numbered)
      = (pairsFrom frontier ws.clauses).map fun pair =>
        (ρ.numbered pair.1, ρ.numbered pair.2) := by
    intro frontier
    simp only [pairsFrom, List.zipIdx_map, List.flatMap_map, List.map_flatMap, ← List.map_drop,
      List.map_map]
    rfl
  cases strategy with
  | incremental => exact hpairs _
  | exhaustive => exact hpairs _

/-- A derivation and one that differs from it in names only. -/
structure Derivation.Renamed (ρ : Renaming) (d d' : Derivation) : Prop where
  /-- The clauses are renamed; the books are the same. -/
  working : d'.working = ρ.workingSet d.working
  /-- The steps are renamed. -/
  steps : d'.steps = d.steps.map ρ.step
  /-- The outcome is the same. -/
  outcome : d'.outcome = d.outcome
  /-- The number of passes is the same. -/
  passes : d'.passes = d.passes

theorem Derivation.Renamed.length {d d' : Derivation} (h : d.Renamed ρ d') :
    d'.length = d.length := by
  rw [Derivation.length, h.steps, List.length_map, Derivation.length]

/-- A pass and one that differs from it in names only. -/
structure Pass.Renamed (ρ : Renaming) (p p' : Pass) : Prop where
  /-- The derivation is renamed. -/
  derivation : p.derivation.Renamed ρ p'.derivation
  /-- As many pairs were attempted. -/
  attempted : p'.attempted = p.attempted
  /-- As many clauses were added. -/
  added : p'.added = p.added
  /-- The verdict is the same. -/
  verdict : p'.verdict = p.verdict

/-! ### Attempts -/

variable (hρ : Set.InjOn ρ.term T)
include hρ

theorem contains_rename {ws : WorkingSet} (hws : ∀ c ∈ ws.clauses, c.toClause.TermsIn T)
    {c : Clause} (hc : c.TermsIn T) :
    (ρ.workingSet ws).contains (ρ.clause c) = ws.contains c := by
  simp only [WorkingSet.contains, Renaming.workingSet, List.any_map]
  rw [Bool.eq_iff_iff, List.any_eq_true, List.any_eq_true]
  have hsame : ∀ d ∈ ws.clauses, ((ρ.numbered d).toClause.same (ρ.clause c)
      = d.toClause.same c) := fun d hd => same_rename hρ (hws d hd) hc
  constructor
  · rintro ⟨d, hd, h⟩
    exact ⟨d, hd, (hsame d hd).symm.trans h⟩
  · rintro ⟨d, hd, h⟩
    exact ⟨d, hd, (hsame d hd).trans h⟩

/-- **An attempt** of a renamed pair does the same under the new names. -/
theorem Pass.Renamed.attempt (loop : Loop) {p p' : Pass} (h : p.Renamed ρ p')
    (hws : ∀ c ∈ p.derivation.working.clauses, c.toClause.TermsIn T)
    {left right : NumberedClause} (hl : left.toClause.TermsIn T) (hr : right.toClause.TermsIn T) :
    (p.attempt loop left right).Renamed ρ
      (p'.attempt loop (ρ.numbered left) (ρ.numbered right)) := by
  obtain ⟨hder, hattempted, hadded, hverdict⟩ := h
  have hatt : p'.derivation.working.isAttempted (ρ.numbered left).id (ρ.numbered right).id
      = p.derivation.working.isAttempted left.id right.id := by rw [hder.working]; rfl
  have hres : resolve (ρ.numbered left).toClause (ρ.numbered right).toClause
      = (resolve left.toClause right.toClause).map ρ.resolvent := resolvent_rename hρ hl hr
  have hcon : ∀ r, resolve left.toClause right.toClause = some r →
      p'.derivation.working.contains (ρ.clause r.clause)
        = p.derivation.working.contains r.clause := by
    intro r hsome
    rw [hder.working]
    exact contains_rename hρ hws (hl.resolvent hr hsome)
  have hmark : p'.derivation.working.markAttempted (ρ.numbered left).id (ρ.numbered right).id
      = ρ.workingSet (p.derivation.working.markAttempted left.id right.id) := by
    rw [hder.working]
    exact markAttempted_rename _ _ _
  rcases attempt_cases loop p left right with ⟨hskip, hp⟩ | ⟨hnot, hans, hp⟩ |
    ⟨hnot, r, hsome, hnew, hp⟩
  · rw [hp, attempt_of_attempted (hatt.trans hskip)]
    exact ⟨hder, hattempted, hadded, hverdict⟩
  · -- no resolvent, or one that is present: under the new names as well
    rw [hp, attempt_of_idle (hatt.trans hnot)]
    · exact ⟨⟨hmark, hder.steps, hder.outcome, hder.passes⟩, congrArg (· + 1) hattempted, hadded,
        hverdict⟩
    · intro r' hr'
      rw [hres, Option.map_eq_some_iff] at hr'
      obtain ⟨r, hsome, rfl⟩ := hr'
      exact (hcon r hsome).trans (hans r hsome)
  · -- the resolvent joins under the same number, and the verdict looks at no name
    have hsome' : resolve (ρ.numbered left).toClause (ρ.numbered right).toClause
        = some (ρ.resolvent r) := by rw [hres, hsome]; rfl
    have hnext : p'.derivation.working.nextId = p.derivation.working.nextId := by
      rw [hder.working]; rfl
    rw [hp, attempt_of_gain (hatt.trans hnot) hsome' ((hcon r hsome).trans hnew)]
    have hgained : (p.gainedDerivation left right r).Renamed ρ
        (p'.gainedDerivation (ρ.numbered left) (ρ.numbered right) (ρ.resolvent r)) := by
      refine ⟨?_, ?_, hder.outcome, hder.passes⟩
      · show (p'.derivation.working.markAttempted _ _).join _ = ρ.workingSet (p.gainedSet left right r)
        rw [hmark]
        exact join_rename _ _
      · simp only [gainedDerivation, Derivation.addStep, hder.steps, List.map_append, hnext,
          List.map_cons, List.map_nil, Renaming.step, Derivation.length, List.length_map]
        rfl
    refine ⟨hgained, congrArg (· + 1) hattempted, congrArg (· + 1) hadded, ?_⟩
    have hempty : (ρ.resolvent r).clause.isEmpty = r.clause.isEmpty := List.isEmpty_map
    simp only [gain, hempty, hgained.length]

/-! ### Passes and runs -/

theorem Pass.Renamed.attemptAll (loop : Loop) (pairs : List (NumberedClause × NumberedClause))
    (hpairs : ∀ pair ∈ pairs, pair.1.toClause.TermsIn T ∧ pair.2.toClause.TermsIn T) :
    ∀ {p p' : Pass}, p.Renamed ρ p' →
      (∀ c ∈ p.derivation.working.clauses, c.toClause.TermsIn T) →
      (p.attemptAll loop pairs).Renamed ρ
        (p'.attemptAll loop (pairs.map fun pair => (ρ.numbered pair.1, ρ.numbered pair.2))) := by
  induction pairs with
  | nil => exact fun h _ => h
  | cons pair rest ih =>
    intro p p' h hws
    obtain ⟨left, right⟩ := pair
    obtain ⟨⟨hl, hr⟩, hrest⟩ := List.forall_mem_cons.1 hpairs
    have hnext := h.attempt hρ loop hws hl hr
    have hws' := Pass.forall_attempt (P := Clause.TermsIn T)
      (fun hl hr hres => hl.resolvent hr hres) loop hws hl hr
    simp only [List.map_cons, Pass.attemptAll, hnext.verdict]
    cases (p.attempt loop left right).verdict with
    | some o => exact hnext
    | none => exact ih hrest hnext hws'

/-- **A pass** over renamed clauses is the renamed pass. -/
theorem Pass.Renamed.run (loop : Loop) {d d' : Derivation} (h : d.Renamed ρ d')
    (hws : ∀ c ∈ d.working.clauses, c.toClause.TermsIn T) :
    (Pass.run loop d).Renamed ρ (Pass.run loop d') := by
  have hpairs : ∀ pair ∈ loop.strategy.pairs d.working,
      pair.1.toClause.TermsIn T ∧ pair.2.toClause.TermsIn T := by
    intro pair hpair
    obtain ⟨hl, hr⟩ := mem_pairs hpair
    exact ⟨hws _ hl, hws _ hr⟩
  have begin : Pass.Renamed ρ { derivation := d } { derivation := d' } := ⟨h, rfl, rfl, rfl⟩
  have hall := begin.attemptAll hρ loop _ hpairs hws
  rw [← pairs_rename, ← h.working] at hall
  have hsize : d'.working.size = d.working.size := by
    rw [h.working]
    exact List.length_map ..
  unfold Pass.run
  rw [hsize]
  -- a pass that is completed moves the frontier and counts itself, whatever the names
  generalize Pass.attemptAll loop { derivation := d } (loop.strategy.pairs d.working) = q at hall ⊢
  generalize Pass.attemptAll loop { derivation := d' } (loop.strategy.pairs d'.working) = q' at hall ⊢
  unfold Pass.complete
  rw [hall.verdict]
  cases q.verdict with
  | some o => exact hall
  | none =>
    refine ⟨⟨?_, hall.derivation.steps, hall.derivation.outcome,
      congrArg (· + 1) hall.derivation.passes⟩, hall.attempted, hall.added, ?_⟩
    · simp only [hall.derivation.working]
      rfl
    · simp only [hall.added]

theorem Decides.renamed {loop : Loop} {d : Derivation} {n : Nat} {p : Pass}
    (h : Decides loop d n p) : ∀ {d' : Derivation}, d.Renamed ρ d' →
      (∀ c ∈ d.working.clauses, c.toClause.TermsIn T) →
      ∃ p', Decides loop d' n p' ∧ p.Renamed ρ p' := by
  induction h with
  | @last d o hv =>
    intro d' hd hws
    have hrun := Pass.Renamed.run hρ loop hd hws
    exact ⟨_, .last (hrun.verdict.trans hv), hrun⟩
  | @next d n p hv _ ih =>
    intro d' hd hws
    have hrun := Pass.Renamed.run hρ loop hd hws
    have hws' := Pass.forall_run (P := Clause.TermsIn T)
      (fun hl hr hres => hl.resolvent hr hres) loop hws
    obtain ⟨p', hdec, hp⟩ := ih hrun.derivation hws'
    exact ⟨p', .next (hrun.verdict.trans hv) hdec, hp⟩

/-- **A run** over renamed clauses ends alike, after the same passes and steps,
    with the renamed clauses. -/
theorem Loop.run_renamed (loop : Loop) {d d' : Derivation} (h : d.Renamed ρ d')
    (hws : ∀ c ∈ d.working.clauses, c.toClause.TermsIn T) (hd : d.outcome = none) :
    (loop.run d').result = (loop.run d).result ∧
      (loop.run d).derivation.Renamed ρ (loop.run d').derivation := by
  have hempty : d'.working.hasEmpty = d.working.hasEmpty := by
    rw [h.working]
    exact hasEmpty_rename _
  have hd' : d'.outcome = none := h.outcome.trans hd
  have close : ∀ {e e' : Derivation} (o : Outcome), e.Renamed ρ e' →
      (e.close o).Renamed ρ (e'.close o) := fun _ he => ⟨he.working, he.steps, rfl, he.passes⟩
  rcases loop.run_cases hd with ⟨hyes, hrun⟩ | ⟨hno, n, p, o, _, hdec, hv, _, hrun⟩
  · rcases loop.run_cases hd' with ⟨_, hrun'⟩ | ⟨hno', _⟩
    · rw [hrun, hrun']
      exact ⟨rfl, close _ h⟩
    · exact absurd (hempty.symm.trans hno') (by rw [hyes]; exact Bool.noConfusion)
  · rcases loop.run_cases hd' with ⟨hyes', _⟩ | ⟨_, m, q, o', _, hdec', hv', _, hrun'⟩
    · exact absurd (hempty.symm.trans hyes') (by rw [hno]; exact Bool.noConfusion)
    · obtain ⟨p', hp', hren⟩ := hdec.renamed hρ h hws
      obtain rfl := hp'.unique hdec'
      obtain rfl : o = o' := Option.some.inj (hv.symm.trans (hren.verdict.symm.trans hv'))
      rw [hrun, hrun']
      exact ⟨rfl, close _ hren.derivation⟩

end Search

end Refuter
