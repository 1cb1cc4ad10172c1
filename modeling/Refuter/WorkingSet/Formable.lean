import Refuter.Finite.Distinct
import Refuter.Finite.Subsets
import Refuter.Resolution
import Refuter.WorkingSet.Basic

/-! # What a search can reach

Resolution makes no new symbols. Every literal of a derived clause is
*formable*: its name, arity and sign are those of an initial literal and its
terms occur in the initial clauses. There are finitely many formable literals,
hence finitely many clauses up to sameness; `unseen` counts those that have
not been found yet.

**Progress.** Whenever a clause of formable literals joins a working set,
`unseen` drops.
-/

namespace Refuter

/-- The terms of a list of clauses. -/
def termsOf (base : List NumberedClause) : List Term :=
  base.flatMap fun c => c.literals.flatMap Literal.args

/-- The literals that can be formed from the names, arities, signs and terms of
    a list of clauses, each once. -/
def formable (base : List NumberedClause) : List Literal :=
  Finite.distinct <| base.flatMap fun c => c.literals.flatMap fun l =>
    (Finite.tuples (termsOf base) l.arity).map fun args => { l with args }

theorem mem_formable {base : List NumberedClause} {k : Literal} :
    k ∈ formable base ↔ ∃ c ∈ base, ∃ l ∈ c.literals, k.name = l.name ∧ k.arity = l.arity ∧
      k.negated = l.negated ∧ ∀ t ∈ k.args, t ∈ termsOf base := by
  simp only [formable, Finite.mem_distinct, List.mem_flatMap, List.mem_map, Finite.mem_tuples]
  constructor
  · rintro ⟨c, hc, l, hl, args, ⟨hlen, hargs⟩, rfl⟩
    exact ⟨c, hc, l, hl, rfl, hlen, rfl, hargs⟩
  · rintro ⟨c, hc, l, hl, hname, harity, hneg, hargs⟩
    refine ⟨c, hc, l, hl, k.args, ⟨harity, hargs⟩, ?_⟩
    cases k; simp_all

/-- Every literal of the initial clauses is formable. -/
theorem mem_formable_of_mem {base : List NumberedClause} {c : NumberedClause} {l : Literal}
    (hc : c ∈ base) (hl : l ∈ c.literals) : l ∈ formable base :=
  mem_formable.2 ⟨c, hc, l, hl, rfl, rfl, rfl, fun _ ht =>
    List.mem_flatMap.2 ⟨c, hc, List.mem_flatMap.2 ⟨l, hl, ht⟩⟩⟩

/-- Are all literals of a clause formable? -/
def Clause.Within (base : List NumberedClause) (c : Clause) : Prop :=
  ∀ l ∈ c.literals, l ∈ formable base

/-- **Closure:** resolving clauses of formable literals gives formable literals. -/
theorem within_resolvent {base : List NumberedClause} {left right : Clause} {r : Resolvent}
    (hl : left.Within base) (hr : right.Within base) (h : resolve left right = some r) :
    r.clause.Within base := by
  have hparent : ∀ l, l ∈ left.literals ∨ l ∈ right.literals → l ∈ formable base :=
    fun l hmem => hmem.elim (hl l) (hr l)
  have hterms : ∀ l, l ∈ left.literals ∨ l ∈ right.literals → ∀ t ∈ l.args, t ∈ termsOf base := by
    intro l hmem
    obtain ⟨_, _, _, _, _, _, _, hargs⟩ := mem_formable.1 (hparent l hmem)
    exact hargs
  intro k hk
  obtain ⟨l, hmem, hname, harity, hneg, hargs⟩ := mem_resolvent h hterms hk
  obtain ⟨c, hc, m, hm, hn, ha, hs, _⟩ := mem_formable.1 (hparent l hmem)
  exact mem_formable.2 ⟨c, hc, m, hm, hname.trans hn, harity.trans ha, hneg.trans hs, hargs⟩

namespace WorkingSet

/-- Do all clauses consist of formable literals? -/
def Within (base : List NumberedClause) (ws : WorkingSet) : Prop :=
  ∀ c ∈ ws.clauses, c.toClause.Within base

/-- The number of sets of formable literals that are no clause of the set yet. -/
def unseen (base : List NumberedClause) (ws : WorkingSet) : Nat :=
  ((Finite.subsets (formable base)).filter fun ls => !ws.contains ⟨ls⟩).length

/-- A clause of formable literals is the same as one of the listed subsets. -/
theorem exists_subset_same {base : List NumberedClause} {c : Clause} (h : c.Within base) :
    ∃ ls ∈ Finite.subsets (formable base), Clause.same ⟨ls⟩ c = true := by
  refine ⟨(formable base).filter (· ∈ c.literals), Finite.filter_mem_subsets _ _, ?_⟩
  refine Clause.same_iff.2 fun l => ?_
  simp only [List.mem_filter, decide_eq_true_eq]
  exact ⟨fun hl => hl.2, fun hl => ⟨h l hl, hl⟩⟩

/-- **Progress:** if a working set keeps its clauses and gains one of formable
    literals, fewer clauses are left unseen. -/
theorem unseen_lt {base : List NumberedClause} {ws ws' : WorkingSet} {c : Clause}
    (hkeep : ∀ d, ws.contains d = true → ws'.contains d = true)
    (hc : c.Within base) (hnew : ws.contains c = false) (hin : ws'.contains c = true) :
    ws'.unseen base < ws.unseen base := by
  obtain ⟨ls, hls, hsame⟩ := exists_subset_same hc
  refine Finite.length_filter_lt (fun s hs => ?_) hls ?_ ?_
  · cases h : ws.contains ⟨s⟩ with
    | false => rfl
    | true => rw [hkeep _ h] at hs; cases hs
  · rw [contains_congr hsame, hnew]; rfl
  · rw [contains_congr hsame, hin]; rfl

end WorkingSet

end Refuter
