import Refuter.Proofs.Soundness
import Refuter.Proofs.Truncation

/-! # Running a finished derivation

An outcome is entered once. A second one is refused, but only where it would be entered,
at the end of a run; the passes before do not ask whether there is an outcome.

- **An attempt, a pass, a search** carry an outcome along and never look at it
  (`Pass.attempt_entered`, `Pass.run_entered`, `Decides.entered`).
- **Every pass leaves a mark.** It is counted when it is completed, and it is cut short only
  by a clause that it derived (`Pass.labour_run`).

**Key result.** A run of a finished derivation is refused, and it leaves the derivation as it
was exactly when the contradiction is among the clauses, so that there is no pass to make
(`finished_run`).
-/

namespace Refuter

/-! ### Outcomes are carried along -/

/-- The derivation with another outcome, or none. -/
def Derivation.entered (d : Derivation) (outcome : Option Outcome) : Derivation :=
  { d with outcome }

namespace Pass

/-- The pass of a derivation with another outcome, or none. -/
def entered (p : Pass) (outcome : Option Outcome) : Pass :=
  { p with derivation := p.derivation.entered outcome }

variable (loop : Loop) (outcome : Option Outcome)

/-- **An attempt** looks at the working set and at nothing else. -/
theorem attempt_entered (p : Pass) (left right : NumberedClause) :
    (p.entered outcome).attempt loop left right
      = (p.attempt loop left right).entered outcome := by
  rcases attempt_cases loop p left right with
    ⟨hatt, hp⟩ | ⟨hatt, hans, hp⟩ | ⟨hatt, r, hres, hnew, hp⟩
  · rw [hp]
    exact attempt_of_attempted hatt
  · rw [hp]
    exact attempt_of_idle (p := p.entered outcome) hatt hans
  · rw [hp]
    exact attempt_of_gain (p := p.entered outcome) hatt hres hnew

theorem attemptAll_entered (p : Pass) (pairs : List (NumberedClause × NumberedClause)) :
    (p.entered outcome).attemptAll loop pairs = (p.attemptAll loop pairs).entered outcome := by
  induction pairs generalizing p with
  | nil => rfl
  | cons pair rest ih =>
    obtain ⟨left, right⟩ := pair
    have hverdict : ((p.attempt loop left right).entered outcome).verdict
        = (p.attempt loop left right).verdict := rfl
    simp only [attemptAll, attempt_entered, hverdict]
    cases (p.attempt loop left right).verdict with
    | some o => rfl
    | none => exact ih (p.attempt loop left right)

theorem complete_entered (size : Nat) (p : Pass) :
    (p.entered outcome).complete size = (p.complete size).entered outcome := by
  have hverdict : (p.entered outcome).verdict = p.verdict := rfl
  unfold complete
  rw [hverdict]
  cases p.verdict with
  | some o => rfl
  | none => rfl

/-- **A pass** goes the same way with any outcome. -/
theorem run_entered (d : Derivation) :
    run loop (d.entered outcome) = (run loop d).entered outcome := by
  have hattempts := attemptAll_entered loop outcome { derivation := d }
    (loop.strategy.pairs d.working)
  unfold run
  rw [← complete_entered, ← hattempts]
  rfl

end Pass

/-- **A search** goes the same way with any outcome. -/
theorem Decides.entered {loop : Loop} {d : Derivation} {n : Nat} {p : Pass}
    (h : Decides loop d n p) (outcome : Option Outcome) :
    Decides loop (d.entered outcome) n (p.entered outcome) := by
  induction h with
  | @last d o hv =>
    rw [← Pass.run_entered]
    apply Decides.last (o := o)
    rw [Pass.run_entered]
    exact hv
  | @next d n p hnone _ ih =>
    have hrun := Pass.run_entered loop outcome d
    apply Decides.next
    · rw [hrun]
      exact hnone
    · rw [hrun]
      exact ih

/-! ### Passes leave a mark -/

/-- The passes completed and the clauses derived. -/
def Derivation.labour (d : Derivation) : Int :=
  d.passes + d.length

namespace Pass

/-- Attempts complete no pass, and they are cut short by a derived clause only. -/
theorem labour_attempts (loop : Loop) (d : Derivation) :
    d.labour ≤ (attempts loop d).derivation.labour ∧
      ((attempts loop d).verdict ≠ none → d.labour < (attempts loop d).derivation.labour) := by
  refine attempts_keep (I := fun p => d.labour ≤ p.derivation.labour ∧
    (p.verdict ≠ none → d.labour < p.derivation.labour)) ?_ ⟨Int.le_refl _, fun h => absurd rfl h⟩
  intro p hp _ pair _
  rcases attempt_cases loop p pair.1 pair.2 with ⟨_, h⟩ | ⟨_, _, h⟩ | ⟨_, r, _, _, h⟩
  · rw [h]
    exact hp
  · rw [h]
    exact hp
  · have hlength : (p.gainedDerivation pair.1 pair.2 r).length = p.derivation.length + 1 :=
      List.length_append
    have hgain : p.derivation.labour < (p.gainedDerivation pair.1 pair.2 r).labour := by
      show p.derivation.passes + (p.derivation.length : Int)
        < p.derivation.passes + ((p.gainedDerivation pair.1 pair.2 r).length : Int)
      omega
    rw [h]
    exact ⟨Int.le_of_lt (Int.lt_of_le_of_lt hp.1 hgain), fun _ => Int.lt_of_le_of_lt hp.1 hgain⟩

/-- **A pass is completed or has derived a clause.** -/
theorem labour_run (loop : Loop) (d : Derivation) :
    d.labour < (run loop d).derivation.labour := by
  obtain ⟨hle, hlt⟩ := labour_attempts loop d
  rcases run_cases loop d with ⟨⟨o, ho⟩, hrun⟩ | ⟨_, hrun⟩
  · rw [hrun]
    apply hlt
    rw [ho]
    exact Option.some_ne_none o
  · rw [hrun]
    show d.labour < (attempts loop d).derivation.passes + 1
      + ((attempts loop d).derivation.length : Int)
    have hsum : (attempts loop d).derivation.labour = (attempts loop d).derivation.passes
      + ((attempts loop d).derivation.length : Int) := rfl
    omega

end Pass

theorem Decides.labour_lt {loop : Loop} {d : Derivation} {n : Nat} {p : Pass}
    (h : Decides loop d n p) : d.labour < p.derivation.labour := by
  induction h with
  | @last d _ _ => exact Pass.labour_run loop d
  | @next d _ _ _ _ ih => exact Int.lt_trans (Pass.labour_run loop d) ih

/-! ### Runs -/

theorem Run.ending_of_finished {d : Derivation} {outcome : Outcome} (h : d.outcome = some outcome)
    (o : Outcome) (events : List PassEvent) :
    Run.ending d o events = ⟨d, .error .alreadyFinished, events⟩ := by
  simp [Run.ending, Derivation.finish, h]

/-- **What a run of a finished derivation can be:** refused at once, because the
    contradiction is given, or refused when some pass has decided the search. -/
theorem Loop.run_cases_finished (loop : Loop) {d : Derivation} {outcome : Outcome}
    (hd : d.outcome = some outcome) :
    (d.working.hasEmpty = true ∧ loop.run d = ⟨d, .error .alreadyFinished, []⟩) ∨
    (d.working.hasEmpty = false ∧ ∃ n p o events, Decides loop d n p ∧ p.verdict = some o ∧
      p.derivation.outcome = some outcome ∧
      loop.run d = ⟨p.derivation, .error .alreadyFinished, events⟩) := by
  cases hempty : d.working.hasEmpty with
  | true => exact .inl ⟨rfl, by rw [run, if_pos hempty, Run.ending_of_finished hd]⟩
  | false =>
    obtain ⟨p, hdec, hv, hder⟩ := saturate_decides loop d
    -- the outcome is still there when the last pass is over
    have hfinished : p.derivation.outcome = some outcome := hdec.outcome_eq.trans hd
    refine .inr ⟨rfl, _, p, (saturate loop d).outcome, (saturate loop d).events, hdec, hv,
      hfinished, ?_⟩
    rw [run, if_neg (by rw [hempty]; exact Bool.false_ne_true)]
    simp only [hder, Run.ending_of_finished hfinished]

/-- The first outcome stays. -/
theorem Loop.outcome_run_finished (loop : Loop) {d : Derivation} {outcome : Outcome}
    (hd : d.outcome = some outcome) : (loop.run d).derivation.outcome = some outcome := by
  rcases loop.run_cases_finished hd with ⟨_, hrun⟩ | ⟨_, _, _, _, _, _, _, hfinished, hrun⟩
  · rw [hrun]
    exact hd
  · rw [hrun]
    exact hfinished

/-- **Nothing changes** exactly when there is no pass to make. -/
theorem Loop.run_unchanged_iff (loop : Loop) {d : Derivation} {outcome : Outcome}
    (hd : d.outcome = some outcome) :
    (loop.run d).derivation = d ↔ d.working.hasEmpty = true := by
  rcases loop.run_cases_finished hd with ⟨hempty, hrun⟩ | ⟨hempty, _, p, _, _, hdec, _, _, hrun⟩
  · rw [hrun]
    exact ⟨fun _ => hempty, fun _ => rfl⟩
  · rw [hrun, hempty]
    refine ⟨fun hsame => ?_, fun h => absurd h Bool.false_ne_true⟩
    -- a pass was made, and it left its mark
    have hlt := hdec.labour_lt
    rw [show p.derivation = d from hsame] at hlt
    exact absurd hlt (Int.lt_irrefl _)

/-- **Without the outcome** the same pass decides, and its verdict is entered. -/
theorem Loop.run_reopened (loop : Loop) {d : Derivation} {outcome : Outcome}
    (hd : d.outcome = some outcome) (hempty : d.working.hasEmpty = false) :
    ∃ o, (loop.run (d.entered none)).result = .ok o ∧
      (loop.run (d.entered none)).derivation = ((loop.run d).derivation.entered none).close o := by
  have hopen : (d.entered none).outcome = none := rfl
  rcases loop.run_cases_finished hd with ⟨hnot, _⟩ | ⟨_, _, p, _, _, hdec, _, _, hrun⟩
  · exact absurd (hempty.symm.trans hnot) Bool.false_ne_true
  rcases loop.run_cases hopen with ⟨hnot, _⟩ | ⟨_, _, q, o, _, hdec', _, _, hrun'⟩
  · exact absurd (hempty.symm.trans hnot) Bool.false_ne_true
  obtain rfl := (hdec.entered none).unique hdec'
  refine ⟨o, ?_, ?_⟩
  · rw [hrun']
  · rw [hrun, hrun']
    rfl

/-! ### The main result -/

/-- **What becomes of a finished derivation that is run again,** by any loop with any cap.
    The run is refused, and the outcome stays. The derivation is left exactly as it was if and
    only if the contradiction is among the clauses; what an earlier run left behind is left as
    it was if and only if that run had proved the query. Otherwise the passes are made, and
    stay made, that a run of the same derivation without an outcome makes; only the end is not
    entered and not reported. -/
theorem finished_run (loop : Loop) {d : Derivation} {outcome : Outcome}
    (hd : d.outcome = some outcome) :
    (loop.run d).result = .error .alreadyFinished ∧
    (loop.run d).derivation.outcome = some outcome ∧
    ((loop.run d).derivation = d ↔ d.working.hasEmpty = true) ∧
    (∀ (first : Loop) (start : Derivation), start.outcome = none →
      d = (first.run start).derivation → ((loop.run d).derivation = d ↔ outcome = .proved)) ∧
    (d.working.hasEmpty = false → ∃ o,
      (loop.run (d.entered none)).result = .ok o ∧
      (loop.run (d.entered none)).derivation
        = ((loop.run d).derivation.entered none).close o) := by
  refine ⟨?_, loop.outcome_run_finished hd, loop.run_unchanged_iff hd, ?_, loop.run_reopened hd⟩
  · rcases loop.run_cases_finished hd with ⟨_, hrun⟩ | ⟨_, _, _, _, _, _, _, _, hrun⟩
    · rw [hrun]
    · rw [hrun]
  · intro first start hopen hleft
    obtain ⟨o, hresult, hentered⟩ := first.exists_outcome hopen
    rw [← hleft, hd] at hentered
    obtain rfl := Option.some.inj hentered
    have hproved := first.proved_iff_hasEmpty hopen
    rw [hresult, ← hleft, Except.ok.injEq] at hproved
    rw [loop.run_unchanged_iff hd, hproved]

/-- A query that is proved stays as it is, also when it is run again with another strategy
    and a cap below its steps. -/
theorem finished_run_proved :
    let d := (Loop.run ⟨.incremental, none⟩ { working := .initial chainedClauses }).derivation
    d.outcome = some .proved ∧ d.length = 3 ∧
    (Loop.run ⟨.exhaustive, some 1⟩ d).result = .error .alreadyFinished ∧
    (Loop.run ⟨.exhaustive, some 1⟩ d).derivation = d := by
  intro d
  have houtcome : d.outcome = some .proved := by decide +kernel
  obtain ⟨hrefused, _, _, hleft, _⟩ := finished_run ⟨.exhaustive, some 1⟩ houtcome
  refine ⟨houtcome, by decide +kernel, hrefused, ?_⟩
  exact (hleft ⟨.incremental, none⟩ { working := .initial chainedClauses } rfl rfl).2 rfl

/-- A search for the contradiction that gave up after one step. -/
def gaveUp : Derivation :=
  (Loop.run ⟨.incremental, some 1⟩ { working := .initial chainedClauses }).derivation

/-- A search that found nothing to derive. -/
def nothingToDerive : Derivation :=
  (Loop.run ⟨.incremental, none⟩
    { working := .initial [{ literals := [{ name := "P" }], id := 1 }] }).derivation

/-- **A search that gave up goes on, and one that was saturated makes one more pass.** Both
    are finished, and both second runs are refused; the first derives two more clauses and
    reports them behind the end. -/
theorem finished_derivations_change :
    (gaveUp.outcome = some .inconclusive ∧ gaveUp.length = 1 ∧ gaveUp.trace.length = 2 ∧
      (Loop.run ⟨.incremental, none⟩ gaveUp).result.toOption = none ∧
      (Loop.run ⟨.incremental, none⟩ gaveUp).derivation.length = 3 ∧
      (Loop.run ⟨.incremental, none⟩ gaveUp).derivation.trace.length = 4) ∧
    (nothingToDerive.outcome = some .saturated ∧ nothingToDerive.passes = 1 ∧
      (Loop.run ⟨.incremental, none⟩ nothingToDerive).result.toOption = none ∧
      (Loop.run ⟨.incremental, none⟩ nothingToDerive).derivation.passes = 2) := by
  decide +kernel

end Refuter
