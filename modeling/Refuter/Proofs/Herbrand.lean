import Mathlib.Data.List.Nodup
import Refuter.Builder.Supply
import Refuter.Proofs.Ground

/-! # Ground instances

Without function symbols a problem has finitely many ground instances: every
variable takes every constant of the problem as its value. They are made here
as a list of numbered clauses, each literal once, so that a loop can be run on
them.

**Herbrand's theorem.** Some structure satisfies the clauses exactly when some
assignment satisfies their ground instances. Ground clauses are decided by
every loop without a cap, hence so is the satisfiability of clauses
(`Loop.saturated_instances_iff`).
-/

namespace Refuter

/-! ### Numbering -/

/-- Clauses numbered from one. -/
def numberedFromOne (clauses : List Clause) : List NumberedClause :=
  clauses.zipIdx.map fun (clause, i) => clause.withId (i + 1)

theorem toClause_numberedFromOne (clauses : List Clause) :
    (numberedFromOne clauses).map (·.toClause) = clauses := by
  rw [numberedFromOne, List.map_map]
  exact List.zipIdx_map_fst 0 clauses

theorem nodup_numberedFromOne (clauses : List Clause) :
    ((numberedFromOne clauses).map (·.id)).Nodup := by
  have hids : (numberedFromOne clauses).map (·.id)
      = (List.range' 0 clauses.length).map fun i : Nat => (i : Int) + 1 := by
    rw [← List.zipIdx_map_snd 0 clauses, List.map_map, numberedFromOne, List.map_map]
    rfl
  rw [hids]
  refine List.Nodup.map (fun i j h => ?_) List.nodup_range'
  have h : (i : Int) + 1 = j + 1 := h
  omega

/-- What holds of all numbered clauses is said of the clauses. -/
theorem forall_numberedFromOne {P : Clause → Prop} {clauses : List Clause} :
    (∀ c ∈ numberedFromOne clauses, P c.toClause) ↔ ∀ c ∈ clauses, P c := by
  conv_rhs => rw [← toClause_numberedFromOne clauses]
  rw [List.forall_mem_map]

/-! ### Instances -/

/-- A term with values put for the variables. -/
def Term.instantiate (v : String → Term) : Term → Term
  | .var x => v x
  | .const c => .const c

/-- A clause with values put for the variables, each literal once. -/
def Clause.instantiate (v : String → Term) (c : Clause) : Clause :=
  ⟨Finite.distinct (c.mapTerms (Term.instantiate v)).literals⟩

/-- The instances of a clause over a list of values. -/
def Clause.instances (values : List Term) (c : Clause) : List Clause :=
  let names := Finite.distinct c.vars
  (Finite.tuples values names.length).map fun tuple =>
    ⟨Finite.distinct (c.mapTerms (Supply.renameTerm (names.zip tuple))).literals⟩

/-- The constants of a list of clauses. -/
def constantsOf (base : List Clause) : List Term :=
  Finite.distinct
    ((base.flatMap fun c => c.literals.flatMap Literal.args).filter fun t => !t.isVar)

/-- The constants of a list of clauses, or a constant if there are none. -/
def individuals (base : List Clause) : List Term :=
  match constantsOf base with
  | [] => [.const "A"]
  | k :: ks => k :: ks

/-- The ground instances of a list of clauses. -/
def groundInstances (base : List Clause) : List Clause :=
  base.flatMap (Clause.instances (individuals base))

theorem Clause.mem_vars {c : Clause} {x : String} :
    x ∈ c.vars ↔ ∃ l ∈ c.literals, Term.var x ∈ l.args := by
  simp only [vars, List.mem_flatMap, Literal.vars, Term.vars, List.mem_filterMap]
  constructor
  · rintro ⟨l, hl, t, ht, htx⟩
    cases t with
    | var y =>
      obtain rfl : y = x := by simpa using htx
      exact ⟨l, hl, ht⟩
    | const k => cases htx
  · rintro ⟨l, hl, hx⟩
    exact ⟨l, hl, .var x, hx, rfl⟩

/-- Maps that agree on the variables of a clause, and leave constants alone,
    agree on the clause. -/
theorem Clause.mapTerms_congr {f g : Term → Term} {c : Clause}
    (hconst : ∀ k, f (.const k) = g (.const k)) (h : ∀ x ∈ c.vars, f (.var x) = g (.var x)) :
    c.mapTerms f = c.mapTerms g := by
  rw [mapTerms, mapTerms]
  congr 1
  refine List.map_congr_left fun l hl => ?_
  rw [Literal.mapArgs, Literal.mapArgs]
  congr 1
  refine List.map_congr_left fun t ht => ?_
  cases t with
  | var x => exact h x (mem_vars.2 ⟨l, hl, ht⟩)
  | const k => exact hconst k

theorem get?_zip_map {names : List String} (v : String → Term) {x : String} (hx : x ∈ names) :
    Members.get? (names.zip (names.map v)) x = some (v x) := by
  induction names with
  | nil => cases hx
  | cons n rest ih =>
    rw [List.map_cons, List.zip_cons_cons, Members.get?, List.lookup_cons]
    by_cases hn : x = n
    · simp [hn]
    · rw [beq_false_of_ne hn]
      exact ih ((List.mem_cons.1 hx).resolve_left hn)

theorem exists_get?_zip {names : List String} {tuple : List Term}
    (hlen : tuple.length = names.length) {x : String} (hx : x ∈ names) :
    ∃ t ∈ tuple, Members.get? (names.zip tuple) x = some t := by
  induction names generalizing tuple with
  | nil => cases hx
  | cons n rest ih =>
    cases tuple with
    | nil => cases hlen
    | cons t ts =>
      rw [List.zip_cons_cons, Members.get?, List.lookup_cons]
      by_cases hn : x = n
      · exact ⟨t, List.mem_cons_self .., by simp [hn]⟩
      · rw [beq_false_of_ne hn]
        obtain ⟨u, hu, hget⟩ := ih (Nat.succ_inj.1 hlen) ((List.mem_cons.1 hx).resolve_left hn)
        exact ⟨u, List.mem_cons_of_mem _ hu, hget⟩

/-- **The list of instances** has exactly the clauses under values from the list. -/
theorem Clause.mem_instances {values : List Term} {c d : Clause} :
    d ∈ c.instances values ↔
      ∃ v : String → Term, (∀ x ∈ c.vars, v x ∈ values) ∧ d = c.instantiate v := by
  simp only [instances, List.mem_map, Finite.mem_tuples]
  constructor
  · -- a tuple gives each variable the value at its place
    rintro ⟨tuple, ⟨hlen, hmem⟩, rfl⟩
    let names := Finite.distinct c.vars
    refine ⟨fun x => Supply.renameTerm (names.zip tuple) (.var x), fun x hx => ?_, ?_⟩
    · obtain ⟨t, ht, hget⟩ := exists_get?_zip hlen (Finite.mem_distinct.2 hx)
      have hvalue : Supply.renameTerm (names.zip tuple) (.var x) = t := by
        rw [Supply.renameTerm, hget, Option.getD_some]
      show Supply.renameTerm (names.zip tuple) (.var x) ∈ values
      rw [hvalue]
      exact hmem t ht
    · have hmap : c.mapTerms (Supply.renameTerm (names.zip tuple)) = c.mapTerms
          (Term.instantiate fun x => Supply.renameTerm (names.zip tuple) (.var x)) :=
        mapTerms_congr (fun _ => rfl) fun _ _ => rfl
      rw [instantiate, ← hmap]
  · rintro ⟨v, hv, rfl⟩
    refine ⟨(Finite.distinct c.vars).map v, ⟨List.length_map _, ?_⟩, ?_⟩
    · intro t ht
      obtain ⟨x, hx, rfl⟩ := List.mem_map.1 ht
      exact hv x (Finite.mem_distinct.1 hx)
    · let names := Finite.distinct c.vars
      have hmap : c.mapTerms (Supply.renameTerm (names.zip (names.map v)))
          = c.mapTerms (Term.instantiate v) := by
        refine mapTerms_congr (fun _ => rfl) fun x hx => ?_
        rw [Supply.renameTerm, get?_zip_map v (Finite.mem_distinct.2 hx)]
        rfl
      rw [instantiate, ← hmap]

/-- There is always an individual, and all of them are constants. -/
theorem individuals_spec (base : List Clause) :
    (∃ k, Term.const k ∈ individuals base) ∧ (∀ t ∈ individuals base, ∃ k, t = .const k) ∧
      ∀ c ∈ base, ∀ l ∈ c.literals, ∀ k, Term.const k ∈ l.args →
        Term.const k ∈ individuals base := by
  have hconst : ∀ t ∈ constantsOf base, ∃ k, t = .const k := by
    intro t ht
    cases t with
    | var x => simp [constantsOf, Term.isVar] at ht
    | const k => exact ⟨k, rfl⟩
  have hocc : ∀ c ∈ base, ∀ l ∈ c.literals, ∀ k, Term.const k ∈ l.args →
      Term.const k ∈ constantsOf base := by
    intro c hc l hl k hk
    refine Finite.mem_distinct.2 (List.mem_filter.2 ⟨?_, rfl⟩)
    exact List.mem_flatMap.2 ⟨c, hc, List.mem_flatMap.2 ⟨l, hl, hk⟩⟩
  rw [individuals]
  split
  · -- no constant occurs, and the made-up one is the only individual
    rename_i hnone
    rw [hnone] at hocc
    exact ⟨⟨"A", List.mem_singleton_self _⟩, fun t ht => ⟨"A", List.mem_singleton.1 ht⟩,
      fun c hc l hl k hk => absurd (hocc c hc l hl k hk) List.not_mem_nil⟩
  · rename_i t ts hsome
    rw [hsome] at hconst hocc
    obtain ⟨k, rfl⟩ := hconst t (List.mem_cons_self ..)
    exact ⟨⟨k, List.mem_cons_self ..⟩, hconst, hocc⟩

/-- Ground instances are ground and repeat no literal. -/
theorem groundInstances_plain {base : List Clause} {d : Clause} (hd : d ∈ groundInstances base) :
    d.IsGround ∧ d.literals.Nodup := by
  obtain ⟨c, _, hd⟩ := List.mem_flatMap.1 hd
  obtain ⟨v, hv, rfl⟩ := Clause.mem_instances.1 hd
  refine ⟨fun l hl t ht => ?_, Finite.nodup_distinct _⟩
  obtain ⟨k, hk, rfl⟩ := List.mem_map.1 (Finite.mem_distinct.1 hl)
  obtain ⟨u, hu, rfl⟩ := List.mem_map.1 ht
  cases u with
  | var x => exact (individuals_spec base).2.1 _ (hv x (Clause.mem_vars.2 ⟨k, hk, hu⟩))
  | const k => exact ⟨k, rfl⟩

/-! ### Herbrand's theorem -/

/-- Truth of an instance, literal by literal. -/
theorem Clause.trueIn_instantiate {τ : Assignment} {c : Clause} {v : String → Term} :
    (c.instantiate v).TrueIn τ ↔
      ∃ l ∈ c.literals, (l.mapArgs (Term.instantiate v)).TrueIn τ := by
  simp only [TrueIn, instantiate, Finite.mem_distinct, mapTerms, List.mem_map]
  constructor
  · rintro ⟨_, ⟨l, hl, rfl⟩, htrue⟩
    exact ⟨l, hl, htrue⟩
  · rintro ⟨l, hl, htrue⟩
    exact ⟨_, ⟨l, hl, rfl⟩, htrue⟩

/-- A structure that satisfies a clause satisfies its instances. -/
theorem Structure.Satisfies.instantiate {M : Structure} {c : Clause} (h : M.Satisfies c)
    (v : String → Term) : M.Satisfies (c.instantiate v) := by
  intro w
  obtain ⟨l, hl, htrue⟩ := h fun x => M.eval w (v x)
  exact Clause.trueIn_instantiate.2 ⟨l, hl, (trueIn_mapArgs (fun _ => rfl) w l).2 htrue⟩

/-- The structure of an assignment in which every term that is not listed counts
    as the given one. -/
def Assignment.collapse (τ : Assignment) (terms : List Term) (other : Term) : Structure :=
  Assignment.toStructure fun name args => τ name (args.map fun t => if t ∈ terms then t else other)

/-- **Herbrand structures:** if all constants of a clause are listed, its truth
    in the collapsed structure is the truth of an instance over the list. -/
theorem Assignment.satisfies_collapse {τ : Assignment} {terms : List Term} {other : Term}
    (hother : other ∈ terms) {c : Clause}
    (hconst : ∀ l ∈ c.literals, ∀ k, Term.const k ∈ l.args → Term.const k ∈ terms)
    (h : ∀ v : String → Term, (∀ x, v x ∈ terms) → (c.instantiate v).TrueIn τ) :
    (τ.collapse terms other).Satisfies c := by
  intro v
  let shut : Term → Term := fun t => if t ∈ terms then t else other
  have hshut : ∀ t, shut t ∈ terms := by
    intro t
    by_cases ht : t ∈ terms
    · rw [show shut t = t from if_pos ht]
      exact ht
    · rw [show shut t = other from if_neg ht]
      exact hother
  -- the clause is true for these values because its instance for the shut ones is
  have hinst := h (fun x => shut (v x)) fun x => hshut (v x)
  obtain ⟨l, hl, htrue⟩ := Clause.trueIn_instantiate.1 hinst
  refine ⟨l, hl, ?_⟩
  have hargs : (l.args.map (Term.instantiate v)).map shut
      = l.args.map (Term.instantiate fun x => shut (v x)) := by
    rw [List.map_map]
    refine List.map_congr_left fun t ht => ?_
    cases t with
    | var x => rfl
    | const k =>
      -- listed, so it stands for itself
      exact if_pos (hconst l hl k ht)
  have hatom : (τ.collapse terms other).atoms v l.name l.args
      = τ l.name (l.args.map (Term.instantiate fun x => shut (v x))) := congrArg (τ l.name) hargs
  rw [Literal.TrueIn, hatom]
  exact htrue

/-- **Herbrand's theorem** for clauses without function symbols. -/
theorem exists_structure_iff_assignment {base : List Clause} :
    (∃ M : Structure.{0}, ∀ c ∈ base, M.Satisfies c) ↔
      ∃ τ : Assignment, ∀ c ∈ groundInstances base, c.TrueIn τ := by
  constructor
  · rintro ⟨M, hM⟩
    -- instances have no variables, so any values for them will do
    obtain ⟨a⟩ := M.nonempty
    refine ⟨M.atoms fun _ => a, fun d hd => ?_⟩
    obtain ⟨c, hc, hd⟩ := List.mem_flatMap.1 hd
    obtain ⟨v, _, rfl⟩ := Clause.mem_instances.1 hd
    exact (hM c hc).instantiate v _
  · rintro ⟨τ, hτ⟩
    obtain ⟨⟨k, hk⟩, _, hconst⟩ := individuals_spec base
    refine ⟨τ.collapse (individuals base) (.const k), fun c hc => ?_⟩
    refine Assignment.satisfies_collapse hk (hconst c hc) fun v hv => hτ _ ?_
    exact List.mem_flatMap.2 ⟨c, hc, Clause.mem_instances.2 ⟨v, fun x _ => hv x, rfl⟩⟩

/-- **Deciding by instances:** a loop without a cap finds the ground instances
    saturated exactly when some structure satisfies the clauses. -/
theorem Loop.saturated_instances_iff {loop : Loop} (hcap : loop.cap = none) (base : List Clause) :
    (loop.run { working := .initial (numberedFromOne (groundInstances base)) }).result
        = .ok .saturated ↔
      ∃ M : Structure.{0}, ∀ c ∈ base, M.Satisfies c := by
  have hplain := forall_numberedFromOne (P := fun d => d.IsGround ∧ d.literals.Nodup).2
    fun d (hd : d ∈ groundInstances base) => groundInstances_plain hd
  rw [Loop.saturated_iff_exists_assignment hcap (nodup_numberedFromOne _) hplain,
    exists_structure_iff_assignment]
  refine exists_congr fun τ => ?_
  exact forall_numberedFromOne (P := fun d => d.TrueIn τ)

end Refuter
