import Refuter.Proofs.Replay

/-! # What a cap cuts off

A cap ends a search, but it does not steer it: up to the last clause that it allows, the
search with a cap and the one without make the same attempts.

- **An attempt** under the cap `k` is the attempt without it, or it is the one that derives
  the `k`-th clause and gives up (`Pass.cut_attempt`).
- **A pass** stops at the first attempt of the second kind, and until then there is no
  difference (`Pass.cut_run`).
- **A search** is passes in a row, so it is the same search or it has given up in one of its
  passes (`Decides.cut`).

**Key result.** A run under a cap derives the first clauses of the run without it, and the
outcome depends on their number alone (`cap_truncates`). The contradiction is looked for
before the cap, so it may be the last clause allowed; that nothing is left to derive shows
only when one more would have been.
-/

namespace Refuter

/-! ### Outcomes under a cap -/

/-- What a search that ends with an outcome after `n` clauses comes to under the cap `k`. -/
def Outcome.cutAt (k n : Nat) : Outcome → Outcome
  | .proved => if n ≤ k then .proved else .inconclusive
  | .saturated => if n < k then .saturated else .inconclusive
  | .inconclusive => .inconclusive

/-- An outcome that is not lost under a cap is not lost under any other that is as high. -/
theorem Outcome.cutAt_of_le {k k' n : Nat} {o : Outcome} (hle : k ≤ k')
    (h : o.cutAt k n ≠ .inconclusive) :
    n ≤ k ∧ o.cutAt k n = o ∧ o.cutAt k' n = o := by
  cases o with
  | proved =>
    by_cases hn : n ≤ k
    · exact ⟨hn, if_pos hn, if_pos (by omega)⟩
    · exact absurd (if_neg hn) h
  | saturated =>
    by_cases hn : n < k
    · exact ⟨by omega, if_pos hn, if_pos (by omega)⟩
    · exact absurd (if_neg hn) h
  | inconclusive => exact absurd rfl h

/-- What ends within the cap is not cut off; only the contradiction may be the last clause. -/
theorem Outcome.cutAt_of_within {k n : Nat} {o : Outcome} (hle : n ≤ k)
    (hlt : o ≠ .proved → n < k) : o.cutAt k n = o := by
  cases o with
  | proved => exact if_pos hle
  | saturated => exact if_pos (hlt (by decide))
  | inconclusive => rfl

/-- What goes on to the cap is cut off, unless the contradiction is the last clause allowed. -/
theorem Outcome.cutAt_of_beyond {k n : Nat} {o : Outcome} (hle : k ≤ n)
    (hlt : o = .proved → k < n) : o.cutAt k n = .inconclusive := by
  cases o with
  | proved => exact if_neg (Nat.not_le.2 (hlt rfl))
  | saturated => exact if_neg (Nat.not_lt.2 hle)
  | inconclusive => rfl

/-! ### Steps are never taken back -/

namespace Pass

theorem steps_attempt_mono (loop : Loop) (p : Pass) (left right : NumberedClause) :
    p.derivation.steps <+: (p.attempt loop left right).derivation.steps := by
  rcases attempt_cases loop p left right with ⟨_, h⟩ | ⟨_, _, h⟩ | ⟨_, r, _, _, h⟩
  · exact h.symm ▸ List.prefix_refl _
  · rw [h]
    exact List.prefix_refl p.derivation.steps
  · rw [h]
    exact List.prefix_append _ _

theorem steps_attemptAll_mono (loop : Loop) {p : Pass} (hv : p.verdict = none)
    (pairs : List (NumberedClause × NumberedClause)) :
    p.derivation.steps <+: (p.attemptAll loop pairs).derivation.steps := by
  refine attemptAll_keeps (I := fun q => p.derivation.steps <+: q.derivation.steps) ?_
    (List.prefix_refl _) hv
  intro q hq _ pair _
  exact hq.trans (steps_attempt_mono loop q pair.1 pair.2)

@[simp] theorem steps_complete (size : Nat) (p : Pass) :
    (p.complete size).derivation.steps = p.derivation.steps := by
  unfold complete
  split <;> rfl

theorem steps_run_mono (loop : Loop) (d : Derivation) :
    d.steps <+: (run loop d).derivation.steps := by
  unfold run
  rw [steps_complete]
  exact steps_attemptAll_mono loop (p := { derivation := d }) rfl _

theorem complete_of_verdict {p : Pass} {o : Outcome} (h : p.verdict = some o) (size : Nat) :
    p.complete size = p := by
  unfold complete
  rw [h]

/-- Completing a pass does not prove anything. -/
theorem verdict_complete_ne_proved {p : Pass} {size : Nat}
    (h : (p.complete size).verdict ≠ some .proved) : p.verdict ≠ some .proved := by
  intro hproved
  rw [complete_of_verdict hproved] at h
  exact h hproved

end Pass

/-- What a search has derived stays. -/
theorem Decides.steps_mono {loop : Loop} {d : Derivation} {n : Nat} {p : Pass}
    (h : Decides loop d n p) : d.steps <+: p.derivation.steps :=
  h.keeps (I := fun e => d.steps <+: e.steps)
    (fun e he => he.trans (Pass.steps_run_mono loop e)) (List.prefix_refl _)

/-! ### Side by side -/

namespace Pass

/-- How a pass under the cap `k` goes along with the pass without it: to the end, which
    comes before the cap is reached or with the contradiction; or up to the `k`-th clause. -/
def Cut (k : Nat) (capped full : Pass) : Prop :=
  (capped = full ∧ full.derivation.length ≤ k ∧
    (full.verdict ≠ some .proved → full.derivation.length < k)) ∨
  (capped.verdict = some .inconclusive ∧ capped.derivation.length = k ∧
    capped.derivation.steps <+: full.derivation.steps)

variable {k : Nat} (strategy : Strategy) {p : Pass}

/-- **An attempt.** Both see the same working set, so only the verdict on a gain can
    differ. -/
theorem cut_attempt (hlt : p.derivation.length < k) (left right : NumberedClause) :
    Cut k (p.attempt ⟨strategy, some k⟩ left right) (p.attempt ⟨strategy, none⟩ left right) := by
  rcases attempt_cases ⟨strategy, none⟩ p left right with
    ⟨hatt, hp⟩ | ⟨hatt, hans, hp⟩ | ⟨hatt, r, hres, hnew, hp⟩
  · rw [hp, attempt_of_attempted hatt]
    exact .inl ⟨rfl, Nat.le_of_lt hlt, fun _ => hlt⟩
  · rw [hp, attempt_of_idle hatt hans]
    exact .inl ⟨rfl, Nat.le_of_lt hlt, fun _ => hlt⟩
  · rw [hp, attempt_of_gain hatt hres hnew]
    have hlength : (p.gainedDerivation left right r).length = p.derivation.length + 1 :=
      List.length_append
    by_cases hempty : r.clause.isEmpty = true
    · -- the contradiction comes first, whatever the cap
      refine .inl ⟨?_, ?_, fun hnot => absurd (verdict_gain_eq_proved.2 hempty) hnot⟩
      · unfold gain
        rw [if_pos hempty, if_pos hempty]
      · show (p.gainedDerivation left right r).length ≤ k
        omega
    · by_cases hreached : k ≤ (p.gainedDerivation left right r).length
      · refine .inr ⟨?_, ?_, List.prefix_refl _⟩
        · unfold gain
          rw [if_neg hempty]
          exact if_pos (decide_eq_true hreached)
        · show (p.gainedDerivation left right r).length = k
          omega
      · refine .inl ⟨?_, ?_, fun _ => Nat.lt_of_not_le hreached⟩
        · unfold gain
          rw [if_neg hempty, if_neg hempty]
          have hnot : ¬ Loop.capReached ⟨strategy, some k⟩
              (p.gainedDerivation left right r).length = true :=
            fun h => hreached (of_decide_eq_true h)
          rw [if_neg hnot]
          rfl
        · show (p.gainedDerivation left right r).length ≤ k
          omega

/-- **Attempts in a row.** -/
theorem cut_attemptAll (hlt : p.derivation.length < k) (hv : p.verdict = none)
    (pairs : List (NumberedClause × NumberedClause)) :
    Cut k (p.attemptAll ⟨strategy, some k⟩ pairs) (p.attemptAll ⟨strategy, none⟩ pairs) := by
  induction pairs generalizing p with
  | nil => exact .inl ⟨rfl, Nat.le_of_lt hlt, fun _ => hlt⟩
  | cons pair rest ih =>
    obtain ⟨left, right⟩ := pair
    simp only [attemptAll]
    rcases cut_attempt strategy hlt left right with ⟨hsame, hle, hopen⟩ | ⟨hstop, hlength, hpre⟩
    · rw [hsame]
      cases hverdict : (p.attempt ⟨strategy, none⟩ left right).verdict with
      | some o => exact .inl ⟨rfl, hle, hopen⟩
      | none =>
        have hless : (p.attempt ⟨strategy, none⟩ left right).derivation.length < k := by
          apply hopen
          rw [hverdict]
          exact (Option.some_ne_none _).symm
        exact ih hless hverdict
    · -- the one with the cap stops here, and the other adds to what both have
      rw [hstop]
      refine .inr ⟨hstop, hlength, hpre.trans ?_⟩
      cases hverdict : (p.attempt ⟨strategy, none⟩ left right).verdict with
      | some o => exact List.prefix_refl _
      | none => exact steps_attemptAll_mono _ hverdict rest

/-- **A pass.** -/
theorem cut_run {d : Derivation} (hlt : d.length < k) :
    Cut k (run ⟨strategy, some k⟩ d) (run ⟨strategy, none⟩ d) := by
  unfold run
  rcases cut_attemptAll strategy (p := { derivation := d }) hlt rfl (strategy.pairs d.working) with
    ⟨hsame, hle, hopen⟩ | ⟨hstop, hlength, hpre⟩
  · have hsteps := congrArg List.length (steps_complete d.working.size
      (attemptAll ⟨strategy, none⟩ { derivation := d } (strategy.pairs d.working)))
    unfold Derivation.length at hle hopen
    refine .inl ⟨by rw [hsame], ?_, ?_⟩
    · unfold Derivation.length
      rw [hsteps]
      exact hle
    · intro hnot
      unfold Derivation.length
      rw [hsteps]
      exact hopen (verdict_complete_ne_proved hnot)
  · refine .inr ?_
    rw [complete_of_verdict hstop, steps_complete]
    exact ⟨hstop, hlength, hpre⟩

end Pass

/-- **A search.** The passes are the same until one is cut short; then the clauses of the
    later ones are those that the cap cuts off. -/
theorem Decides.cut {strategy : Strategy} {k : Nat} {d : Derivation} {n : Nat} {full : Pass}
    (h : Decides ⟨strategy, none⟩ d n full) (hlt : d.length < k) :
    ∃ m capped, Decides ⟨strategy, some k⟩ d m capped ∧ Pass.Cut k capped full := by
  induction h with
  | @last d o hv =>
    have hcut := Pass.cut_run strategy hlt
    refine ⟨1, Pass.run ⟨strategy, some k⟩ d, ?_, hcut⟩
    rcases hcut with ⟨hsame, _⟩ | ⟨hstop, _⟩
    · rw [← hsame] at hv
      exact .last hv
    · exact .last hstop
  | @next d n full hnone rest ih =>
    rcases Pass.cut_run strategy hlt with ⟨hsame, _, hopen⟩ | ⟨hstop, hlength, hpre⟩
    · have hless : (Pass.run ⟨strategy, none⟩ d).derivation.length < k := by
        apply hopen
        rw [hnone]
        exact (Option.some_ne_none _).symm
      obtain ⟨m, capped, hdec, hcut⟩ := ih hless
      rw [← hsame] at hdec hnone
      exact ⟨m + 1, capped, .next hnone hdec, hcut⟩
    · exact ⟨1, _, .last hstop, .inr ⟨hstop, hlength, hpre.trans rest.steps_mono⟩⟩

/-! ### Runs -/

/-- Whether the search proves the query can be seen from the last step. -/
theorem Loop.last_iff_proved (loop : Loop) {start : Derivation} (hopen : start.outcome = none)
    (hsteps : start.steps = []) (hempty : start.working.hasEmpty = false) :
    (∃ s, (loop.run start).derivation.steps.getLast? = some s ∧
      s.resolvent.toClause.isEmpty = true) ↔ (loop.run start).result = .ok .proved := by
  obtain ⟨d, outcome, events, hrun, _, hend⟩ := loop.replays hopen hsteps
  rw [hrun]
  show (∃ s, d.steps.getLast? = some s ∧ _) ↔ Except.ok outcome = .ok .proved
  rw [hend.last_iff, Except.ok.injEq]
  exact and_iff_left hempty

/-- Two runs that derive the same clauses prove the query both or neither. -/
theorem Loop.proved_iff_of_steps_eq {loop loop' : Loop} {start : Derivation}
    (hopen : start.outcome = none) (hsteps : start.steps = [])
    (hempty : start.working.hasEmpty = false)
    (hsame : (loop.run start).derivation.steps = (loop'.run start).derivation.steps) :
    (loop.run start).result = .ok .proved ↔ (loop'.run start).result = .ok .proved := by
  rw [← loop.last_iff_proved hopen hsteps hempty, ← loop'.last_iff_proved hopen hsteps hempty,
    hsame]

theorem Loop.ne_inconclusive_of_uncapped {strategy : Strategy} {start : Derivation}
    (hopen : start.outcome = none) {o : Outcome}
    (h : (Loop.run ⟨strategy, none⟩ start).result = .ok o) : o ≠ .inconclusive := by
  rintro rfl
  rcases Loop.result_of_uncapped (d := start) (show (Loop.mk strategy none).cap = none from rfl)
    hopen with hresult | hresult
  · rw [h] at hresult
    cases hresult
  · rw [h] at hresult
    cases hresult

/-- The steps and the outcome of a fresh run under a cap, from those of the run without. -/
theorem Loop.run_capped (strategy : Strategy) {k : Nat} (hk : 1 ≤ k) {start : Derivation}
    (hopen : start.outcome = none) (hsteps : start.steps = []) :
    ∃ o, (Loop.run ⟨strategy, none⟩ start).result = .ok o ∧ o ≠ .inconclusive ∧
      (Loop.run ⟨strategy, some k⟩ start).derivation.steps
        = (Loop.run ⟨strategy, none⟩ start).derivation.steps.take k ∧
      (Loop.run ⟨strategy, some k⟩ start).result
        = .ok (o.cutAt k (Loop.run ⟨strategy, none⟩ start).derivation.length) := by
  have hlt : start.length < k := by
    unfold Derivation.length
    rw [hsteps]
    exact hk
  rcases Loop.run_cases ⟨strategy, none⟩ hopen with
    ⟨hempty, hrun⟩ | ⟨hempty, n, full, o, events, hdec, hv, _, hrun⟩
  · -- the contradiction is given: neither run derives anything
    have hcapped : Loop.run ⟨strategy, some k⟩ start = ⟨start.close .proved, .ok .proved, []⟩ := by
      rw [Loop.run, if_pos hempty, Run.ending_of_open hopen]
    rw [hrun, hcapped]
    refine ⟨.proved, rfl, by decide, ?_, ?_⟩
    · show start.steps = start.steps.take k
      rw [hsteps, List.take_nil]
    · exact congrArg Except.ok (Outcome.cutAt_of_within (Nat.le_of_lt hlt) fun _ => hlt).symm
  · have hresult : (Loop.run ⟨strategy, none⟩ start).result = .ok o := by rw [hrun]
    refine ⟨o, hresult, Loop.ne_inconclusive_of_uncapped hopen hresult, ?_⟩
    obtain ⟨m, capped, hcapped, hcut⟩ := hdec.cut hlt
    rcases Loop.run_cases ⟨strategy, some k⟩ hopen with
      ⟨hnot, _⟩ | ⟨_, m', p, o', events', hdec', hv', _, hrun'⟩
    · rw [hempty] at hnot
      cases hnot
    obtain rfl := hcapped.unique hdec'
    rcases hcut with ⟨hsame, hle, hless⟩ | ⟨hstop, hlength, hpre⟩
    · -- the search is over before the cap cuts it
      subst hsame
      obtain rfl : o = o' := Option.some.inj (hv.symm.trans hv')
      rw [hrun, hrun']
      refine ⟨(List.take_of_length_le hle).symm, ?_⟩
      refine congrArg Except.ok (Outcome.cutAt_of_within hle fun hne => hless ?_).symm
      rw [hv]
      exact fun hproved => hne (Option.some.inj hproved)
    · obtain rfl : o' = .inconclusive := Option.some.inj (hv'.symm.trans hstop)
      have hreached : k ≤ full.derivation.length := by
        rw [← hlength]
        exact hpre.length_le
      have htake : capped.derivation.steps = full.derivation.steps.take k := by
        rw [← hlength]
        exact List.prefix_iff_eq_take.1 hpre
      have hbeyond : o = .proved → k < full.derivation.length := by
        rintro rfl
        apply Nat.lt_of_not_le
        intro hle
        -- otherwise both have the same steps, and both would have proved the query
        have hsame : (Loop.run ⟨strategy, none⟩ start).derivation.steps
            = (Loop.run ⟨strategy, some k⟩ start).derivation.steps := by
          rw [hrun, hrun']
          exact (htake.trans (List.take_of_length_le hle)).symm
        have hproved := (Loop.proved_iff_of_steps_eq hopen hsteps hempty hsame).1 hresult
        rw [hrun'] at hproved
        cases hproved
      rw [hrun, hrun']
      exact ⟨htake, congrArg Except.ok (Outcome.cutAt_of_beyond hreached hbeyond).symm⟩

/-! ### The main result -/

/-- **A cap only truncates.** Take a fresh derivation, from any clauses, any strategy and a
    cap `k` of at least one. Without the cap the run ends proved or saturated. With it, the
    run derives the first `k` clauses of that run, or all if there are fewer, by the same
    steps; it ends in the same way if that happens within the cap, and inconclusive
    otherwise. So what it concludes is concluded, by the same steps, under every higher cap
    and without one. -/
theorem cap_truncates (strategy : Strategy) {k : Nat} (hk : 1 ≤ k) {start : Derivation}
    (hopen : start.outcome = none) (hsteps : start.steps = []) :
    let full := Loop.run ⟨strategy, none⟩ start
    let capped := fun k => Loop.run ⟨strategy, some k⟩ start
    ∃ o, full.result = .ok o ∧ o ≠ .inconclusive ∧
      (capped k).derivation.steps = full.derivation.steps.take k ∧
      (capped k).result = .ok (o.cutAt k full.derivation.length) ∧
      ∀ o', (capped k).result = .ok o' → o' ≠ .inconclusive →
        full.result = .ok o' ∧ (capped k).derivation.steps = full.derivation.steps ∧
        ∀ k', k ≤ k' → (capped k').result = .ok o' ∧
          (capped k').derivation.steps = full.derivation.steps := by
  intro full capped
  obtain ⟨o, hfull, hne, htake, hresult⟩ := Loop.run_capped strategy hk hopen hsteps
  refine ⟨o, hfull, hne, htake, hresult, ?_⟩
  intro o' ho' hconclusive
  obtain rfl : o.cutAt k full.derivation.length = o' := Except.ok.inj (hresult.symm.trans ho')
  have hkept := fun k' (hle : k ≤ k') => Outcome.cutAt_of_le hle hconclusive
  obtain ⟨hn, hsame, _⟩ := hkept k (Nat.le_refl k)
  refine ⟨?_, ?_, ?_⟩
  · rw [hsame]
    exact hfull
  · exact htake.trans (List.take_of_length_le hn)
  · intro k' hle
    obtain ⟨o₂, hfull₂, _, htake₂, hresult₂⟩ :=
      Loop.run_capped strategy (Nat.le_trans hk hle) hopen hsteps
    obtain rfl : o = o₂ := Except.ok.inj (hfull.symm.trans hfull₂)
    refine ⟨?_, htake₂.trans (List.take_of_length_le (Nat.le_trans hn hle))⟩
    rw [hsame]
    exact hresult₂.trans (congrArg Except.ok (hkept k' hle).2.2)

/-- A fact, a rule and the negation of what follows: three steps lead to the
    contradiction. -/
def chainedClauses : List NumberedClause :=
  [{ literals := [{ name := "P" }], id := 1 },
   { literals := [{ name := "P", negated := true }, { name := "Q" }], id := 2 },
   { literals := [{ name := "Q", negated := true }], id := 3 }]

/-- The cap may be reached by the contradiction, but not before it. -/
theorem cap_truncates_chainedClauses :
    let start : Derivation := { working := .initial chainedClauses }
    let full := Loop.run ⟨.incremental, none⟩ start
    full.derivation.length = 3 ∧ full.result = .ok .proved ∧
    (Loop.run ⟨.incremental, some 3⟩ start).result = .ok .proved ∧
    (Loop.run ⟨.incremental, some 3⟩ start).derivation.steps = full.derivation.steps ∧
    (Loop.run ⟨.incremental, some 2⟩ start).result = .ok .inconclusive ∧
    (Loop.run ⟨.incremental, some 2⟩ start).derivation.steps = full.derivation.steps.take 2 := by
  intro start full
  have hlength : full.derivation.length = 3 := by decide +kernel
  have hproved : full.result = .ok .proved := ok_of_toOption (by decide +kernel)
  have hopen : start.outcome = none := rfl
  obtain ⟨o, hfull, _, htake, hresult, _⟩ := cap_truncates .incremental (show 1 ≤ 3 by decide) hopen rfl
  obtain ⟨o₂, hfull₂, _, htake₂, hresult₂, _⟩ :=
    cap_truncates .incremental (show 1 ≤ 2 by decide) hopen rfl
  obtain rfl : o = .proved := Except.ok.inj (hfull.symm.trans hproved)
  obtain rfl : o₂ = .proved := Except.ok.inj (hfull₂.symm.trans hproved)
  refine ⟨hlength, hproved, ?_, ?_, ?_, htake₂⟩
  · rw [hresult]
    show Except.ok (if full.derivation.length ≤ 3 then Outcome.proved else .inconclusive) = _
    rw [hlength, if_pos (by decide)]
  · exact htake.trans (List.take_of_length_le (Nat.le_of_eq hlength))
  · rw [hresult₂]
    show Except.ok (if full.derivation.length ≤ 2 then Outcome.proved else .inconclusive) = _
    rw [hlength, if_neg (by decide)]

end Refuter
