import Refuter.Saturation.Loop
import Refuter.WorkingSet.Formable

/-! # Passes

A pass attempts every candidate pair once. A resolvent joins the working set
right away, so later resolvents of the pass are compared with it, but it is
paired from the next pass on. A pass ends early on the contradiction or at the
cap; a pass that adds nothing means that the set is saturated.

**Progress.** A pass without a verdict has added a clause that was not there
before, and all literals stay formable from the initial clauses; so the number
of clauses still unseen drops with every such pass.
-/

namespace Refuter

/-- A pass so far. -/
structure Pass where
  /-- The derivation. -/
  derivation : Derivation
  /-- The number of pairs attempted. -/
  attempted : Nat := 0
  /-- The number of clauses added. -/
  added : Nat := 0
  /-- The outcome, if the pass decided the search. -/
  verdict : Option Outcome := none
  deriving Repr, DecidableEq

namespace Pass

/-- Attempts one pair, unless it was attempted before. -/
def attempt (loop : Loop) (p : Pass) (left right : NumberedClause) : Pass :=
  let d := p.derivation
  if d.working.isAttempted left.id right.id then p
  else
    let ws := d.working.markAttempted left.id right.id
    match resolve left.toClause right.toClause with
    | none => { p with derivation := { d with working := ws }, attempted := p.attempted + 1 }
    | some r =>
      match ws.add r.clause with
      | (none, ws) =>
        { p with derivation := { d with working := ws }, attempted := p.attempted + 1 }
      | (some resolvent, ws) =>
        let d := { d with working := ws }.addStep left right resolvent r.unifier
        { derivation := d
          attempted := p.attempted + 1
          added := p.added + 1
          verdict :=
            if resolvent.toClause.isEmpty then some .proved
            else if loop.capReached d.length then some .inconclusive
            else none }

/-- Attempts pairs in order until one decides the search. -/
def attemptAll (loop : Loop) : Pass → List (NumberedClause × NumberedClause) → Pass
  | p, [] => p
  | p, (left, right) :: rest =>
    let p := p.attempt loop left right
    match p.verdict with
    | some _ => p
    | none => attemptAll loop p rest

/-- Completes a pass that was not cut short: the frontier moves behind the
    clauses with which the pass began. -/
def complete (size : Nat) (p : Pass) : Pass :=
  match p.verdict with
  | some _ => p
  | none =>
    let d := p.derivation
    { p with
      derivation :=
        { d with working := { d.working with frontier := size }, passes := d.passes + 1 }
      verdict := if p.added = 0 then some .saturated else none }

/-- One whole pass. -/
def run (loop : Loop) (d : Derivation) : Pass :=
  (attemptAll loop { derivation := d } (loop.strategy.pairs d.working)).complete d.working.size

/-! ### What a pass keeps and gains -/

/-- A pass that began with `start` has kept its clauses and all formable
    literals, and has gained a clause if it counts one as added. -/
structure Progress (base : List NumberedClause) (start : WorkingSet) (p : Pass) : Prop where
  /-- All literals are formable. -/
  within : p.derivation.working.Within base
  /-- No clause was lost. -/
  keeps : ∀ c, start.contains c = true → p.derivation.working.contains c = true
  /-- A clause counted as added is new. -/
  gains : p.added ≠ 0 → ∃ c : Clause, c.Within base ∧ start.contains c = false ∧
    p.derivation.working.contains c = true

theorem contains_of_clauses_eq {ws ws' : WorkingSet} (h : ws'.clauses = ws.clauses) (c : Clause) :
    ws'.contains c = ws.contains c := by
  simp [WorkingSet.contains, h]

theorem within_of_clauses_eq {base : List NumberedClause} {ws ws' : WorkingSet}
    (h : ws'.clauses = ws.clauses) (hw : ws.Within base) : ws'.Within base := by
  intro c hc
  exact hw c (h ▸ hc)

/-- One attempt keeps the progress. -/
theorem Progress.attempt {base : List NumberedClause} {start : WorkingSet} {p : Pass}
    (h : Progress base start p) (loop : Loop) {left right : NumberedClause}
    (hl : left.toClause.Within base) (hr : right.toClause.Within base) :
    Progress base start (p.attempt loop left right) := by
  -- marking a pair, or turning a clause away, leaves the clauses as they are
  have unchanged : ∀ q : Pass, q.derivation.working.clauses = p.derivation.working.clauses →
      q.added = p.added → Progress base start q := by
    intro q hc ha
    refine ⟨within_of_clauses_eq hc h.within, fun c hs => ?_, fun hadd => ?_⟩
    · rw [contains_of_clauses_eq hc]; exact h.keeps c hs
    · obtain ⟨c, hw, hn, hin⟩ := h.gains (ha ▸ hadd)
      exact ⟨c, hw, hn, by rw [contains_of_clauses_eq hc]; exact hin⟩
  unfold Pass.attempt
  dsimp only
  split
  · exact h
  · split
    · exact unchanged _ (by simp) rfl
    · rename_i r hres
      split
      · rename_i ws hadd
        obtain ⟨_, rfl⟩ := WorkingSet.add_eq_none hadd
        exact unchanged _ (by simp) rfl
      · -- the resolvent joins: it is formable, was not there, and is there now
        rename_i resolvent ws hadd
        obtain ⟨hnew, rfl, hclauses⟩ := WorkingSet.add_eq_some hadd
        have hwithin : r.clause.Within base := within_resolvent hl hr hres
        rw [WorkingSet.clauses_markAttempted] at hclauses
        have hkeep : ∀ c, p.derivation.working.contains c = true → ws.contains c = true := by
          intro c hc
          obtain ⟨d, hd, hs⟩ := WorkingSet.contains_iff.1 hc
          exact WorkingSet.contains_iff.2 ⟨d, by rw [hclauses]; exact List.mem_append_left _ hd, hs⟩
        have hjoined : ws.contains r.clause = true := by
          rw [WorkingSet.contains_iff, hclauses]
          exact ⟨_, List.mem_append_right _ (List.mem_singleton_self _), Clause.same_refl r.clause⟩
        refine ⟨?_, fun c hs => hkeep c (h.keeps c hs), fun _ => ?_⟩
        · intro c hc
          have hc : c ∈ ws.clauses := hc
          rw [hclauses, List.mem_append, List.mem_singleton] at hc
          rcases hc with hc | rfl
          · exact h.within c hc
          · exact hwithin
        · refine ⟨r.clause, hwithin, ?_, hjoined⟩
          cases hs : start.contains r.clause with
          | false => rfl
          | true =>
            rw [contains_of_clauses_eq (WorkingSet.clauses_markAttempted ..)] at hnew
            rw [h.keeps _ hs] at hnew
            cases hnew

theorem Progress.attemptAll {base : List NumberedClause} {start : WorkingSet} (loop : Loop)
    (pairs : List (NumberedClause × NumberedClause)) :
    ∀ {p : Pass}, Progress base start p →
      (∀ pair ∈ pairs, pair.1.toClause.Within base ∧ pair.2.toClause.Within base) →
      Progress base start (p.attemptAll loop pairs) := by
  induction pairs with
  | nil => exact fun h _ => h
  | cons pair rest ih =>
    intro p h hpairs
    obtain ⟨left, right⟩ := pair
    obtain ⟨hl, hr⟩ := hpairs _ (List.mem_cons_self ..)
    have h' := h.attempt loop hl hr
    simp only [Pass.attemptAll]
    split
    · exact h'
    · exact ih h' fun pair hp => hpairs pair (List.mem_cons_of_mem _ hp)

theorem Progress.complete {base : List NumberedClause} {start : WorkingSet} {p : Pass}
    (h : Progress base start p) (size : Nat) : Progress base start (p.complete size) := by
  unfold Pass.complete
  split
  · exact h
  · exact ⟨within_of_clauses_eq rfl h.within,
      fun c hs => (contains_of_clauses_eq rfl c).trans (h.keeps c hs),
      fun hadd => (h.gains hadd).imp fun c ⟨hw, hn, hin⟩ =>
        ⟨hw, hn, (contains_of_clauses_eq rfl c).trans hin⟩⟩

/-- A whole pass makes progress. -/
theorem progress_run {base : List NumberedClause} (loop : Loop) {d : Derivation}
    (h : d.working.Within base) : Progress base d.working (run loop d) := by
  have begin : Progress base d.working { derivation := d } :=
    ⟨h, fun _ hc => hc, fun h0 => absurd rfl h0⟩
  refine (Progress.attemptAll loop _ begin fun pair hp => ?_).complete _
  obtain ⟨hl, hr⟩ := mem_pairs hp
  exact ⟨h _ hl, h _ hr⟩

/-- A completed pass without a verdict has added something. -/
theorem added_of_verdict_none {p : Pass} {size : Nat} (h : (p.complete size).verdict = none) :
    (p.complete size).added ≠ 0 := by
  unfold complete at h ⊢
  split at h
  · rename_i o ho
    rw [ho] at h
    cases h
  · split at h
    · cases h
    · assumption

/-- **Every pass without a verdict brings the end nearer.** -/
theorem unseen_run_lt {base : List NumberedClause} (loop : Loop) {d : Derivation}
    (h : d.working.Within base) (hv : (run loop d).verdict = none) :
    (run loop d).derivation.working.unseen base < d.working.unseen base := by
  have hp := progress_run loop h
  obtain ⟨c, hw, hn, hin⟩ := hp.gains (added_of_verdict_none hv)
  exact WorkingSet.unseen_lt hp.keeps hw hn hin

end Pass

end Refuter
