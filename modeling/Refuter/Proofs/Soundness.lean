import Refuter.Proofs.Search
import Refuter.Proofs.Structure

/-! # Soundness of the search

A structure that satisfies the given clauses satisfies every clause the search
ever holds. One attempt keeps this by the soundness of the rule; passes and
runs keep what attempts keep. The contradiction is satisfied nowhere, so a
search that finds it has shown that the given clauses have no structure.
-/

namespace Refuter

universe u

/-! ### The contradiction -/

/-- **A pass decides by the contradiction:** if it was not given, a pass ends with
    `proved` exactly when it is there in the end. -/
theorem Pass.proved_iff_hasEmpty (loop : Loop) {d : Derivation}
    (hd : d.working.hasEmpty = false) :
    (Pass.run loop d).verdict = some .proved ↔
      (Pass.run loop d).derivation.working.hasEmpty = true := by
  have hiff : (attempts loop d).verdict = some .proved ↔
      (attempts loop d).derivation.working.hasEmpty = true := by
    refine attempts_keep (I := fun p => p.verdict = some .proved ↔
      p.derivation.working.hasEmpty = true) ?_ (by simp [hd])
    intro p hiff hv pair _
    rw [hv] at hiff
    rcases attempt_cases loop p pair.1 pair.2 with ⟨_, hp⟩ | ⟨_, _, hp⟩ | ⟨_, r, _, _, hp⟩
    · rw [hp, hv]
      exact hiff
    · rw [hp]
      simpa [WorkingSet.hasEmpty, idle, hv] using hiff
    · -- it was not there before, so it is the clause that joined or none
      rw [hp, verdict_gain_eq_proved]
      simp only [reduceCtorEq, false_iff, Bool.not_eq_true, WorkingSet.hasEmpty] at hiff
      simp [WorkingSet.hasEmpty, List.any_append, hiff, Clause.withId]
  rcases run_cases loop d with ⟨_, hrun⟩ | ⟨hv, hrun⟩
  · rw [hrun]
    exact hiff
  · -- a completed pass says `saturated` or nothing
    rw [hv] at hiff
    rw [hrun]
    simp only [reduceCtorEq, false_iff] at hiff
    have hnot : (if (attempts loop d).added = 0 then some Outcome.saturated else none)
        ≠ some .proved := by
      split <;> simp
    exact ⟨fun h => absurd h hnot, fun h => absurd h hiff⟩

/-- **A run ends with `proved` exactly when it holds the contradiction.** -/
theorem Loop.proved_iff_hasEmpty (loop : Loop) {d : Derivation} (hd : d.outcome = none) :
    (loop.run d).result = .ok .proved ↔
      (loop.run d).derivation.working.hasEmpty = true := by
  rcases loop.run_cases hd with ⟨hempty, hrun⟩ | ⟨hempty, n, p, o, events, hdec, hv, _, hrun⟩
  · rw [hrun]
    exact ⟨fun _ => hempty, fun _ => rfl⟩
  · rw [hrun]
    obtain ⟨d', _, hd', rfl, _⟩ := hdec.exists_last (I := fun d => d.working.hasEmpty = false)
      (fun d hd hnone => by
        have hiff := Pass.proved_iff_hasEmpty loop hd
        rw [hnone] at hiff
        simpa using hiff) hempty
    have hiff := Pass.proved_iff_hasEmpty loop hd'
    rw [hv] at hiff
    simpa [Derivation.close] using hiff

/-- A saturated set has no contradiction. -/
theorem Loop.not_hasEmpty_of_saturated (loop : Loop) {d : Derivation} (hd : d.outcome = none)
    (hsat : (loop.run d).result = .ok .saturated) :
    (loop.run d).derivation.working.hasEmpty = false := by
  have hiff := loop.proved_iff_hasEmpty hd
  rw [hsat] at hiff
  simpa using hiff

/-- **What a structure satisfies, the search never contradicts:** it satisfies
    every clause that a run ends with. -/
theorem Loop.satisfied_run (loop : Loop) {M : Structure.{u}} {d : Derivation}
    (hd : d.outcome = none) (h : ∀ c ∈ d.working.clauses, M.Satisfies c.toClause) :
    ∀ c ∈ (loop.run d).derivation.working.clauses, M.Satisfies c.toClause :=
  loop.forall_run (fun hl hr hres => hl.resolvent hr hres) hd h

/-- **No structure survives a refutation.** -/
theorem Loop.not_proved_of_satisfied (loop : Loop) {M : Structure.{u}} {d : Derivation}
    (hd : d.outcome = none) (h : ∀ c ∈ d.working.clauses, M.Satisfies c.toClause) :
    (loop.run d).result ≠ .ok .proved := by
  intro hproved
  obtain ⟨c, hc, hempty⟩ := List.any_eq_true.1 ((loop.proved_iff_hasEmpty hd).1 hproved)
  exact Structure.not_satisfies_of_isEmpty hempty (loop.satisfied_run hd h c hc)

/-! ### The main result -/

/-- **Soundness.** From clauses with different numbers every loop, with any cap,
    comes to an outcome; every clause it then holds is satisfied by every
    structure that satisfies the given clauses, and if the outcome is `proved`
    there is no such structure. -/
theorem run_sound (loop : Loop) {clauses : List NumberedClause}
    (hids : (clauses.map (·.id)).Nodup) :
    ∃ ws outcome, WorkingSet.ofClauses (clauses.map NumberedClause.labelled) = .ok ws ∧
      (loop.run { working := ws }).result = .ok outcome ∧
      (∀ M : Structure.{u}, (∀ c ∈ clauses, M.Satisfies c.toClause) →
        ∀ c ∈ (loop.run { working := ws }).derivation.working.clauses, M.Satisfies c.toClause) ∧
      (outcome = .proved → ¬ ∃ M : Structure.{u}, ∀ c ∈ clauses, M.Satisfies c.toClause) := by
  let d : Derivation := { working := .initial clauses }
  have hout : ∃ o, (loop.run d).result = .ok o := by
    rcases loop.run_cases (d := d) rfl with ⟨_, hrun⟩ | ⟨_, _, _, o, _, _, _, _, hrun⟩
    · exact ⟨.proved, by rw [hrun]⟩
    · exact ⟨o, by rw [hrun]⟩
  obtain ⟨o, ho⟩ := hout
  refine ⟨.initial clauses, o, ofClauses_labelled hids, ho, ?_, ?_⟩
  · intro M hM
    exact loop.satisfied_run (d := d) rfl hM
  · rintro rfl ⟨M, hM⟩
    exact loop.not_proved_of_satisfied (d := d) rfl hM ho

/-- Two clauses that share a variable, numbered against their order. -/
def sharedVariable : List NumberedClause :=
  [{ literals := [{ name := "P", args := [.var "x", .const "A"] }], id := 7 },
   { literals := [{ name := "P", args := [.const "B", .var "x"], negated := true },
      { name := "P", args := [.var "x", .var "x"] }], id := -2 }]

theorem run_sound_sharedVariable :
    (sharedVariable.map (·.id)).Nodup ∧
    ∃ ws outcome, WorkingSet.ofClauses (sharedVariable.map NumberedClause.labelled) = .ok ws ∧
      (Loop.run ⟨.exhaustive, some 2⟩ { working := ws }).result = .ok outcome ∧
      (∀ M : Structure.{0}, (∀ c ∈ sharedVariable, M.Satisfies c.toClause) →
        ∀ c ∈ (Loop.run ⟨.exhaustive, some 2⟩ { working := ws }).derivation.working.clauses,
          M.Satisfies c.toClause) ∧
      (outcome = .proved →
        ¬ ∃ M : Structure.{0}, ∀ c ∈ sharedVariable, M.Satisfies c.toClause) :=
  ⟨by decide, run_sound ⟨.exhaustive, some 2⟩ (by decide)⟩

end Refuter
