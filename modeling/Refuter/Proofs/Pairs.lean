import Mathlib.Algebra.BigOperators.Intervals
import Mathlib.Data.List.Nodup
import Refuter.Proofs.Strategies

/-! # Every pair, once

A search may be interrupted: a pass is cut short at the cap, the cap is lifted,
clauses come in from outside. The books survive all of it (`Session.kept_after`),
so a pass that comes back with `saturated` can still be taken at its word.

- **Nothing was left out.** Two clauses of a closed set have met, whichever of
  them came first (`Closed.isAttempted_of_ne`).
- **Nothing was done twice.** Each key stands in the list once and belongs to a
  pair of clauses, so the keys are counted like the pairs: `n (n - 1) / 2` of them
  for `n` clauses (`Closed.length_attempted`).
- **Nothing is missing.** Every resolvent is there, as a clause with the same
  literals (`Closed.resolvent_mem`).
-/

namespace Refuter

/-! ### Counting the pairs of a list -/

/-- Row `i` of the pairs has as many entries as there are clauses behind it. -/
theorem length_pairsFrom_zero (clauses : List NumberedClause) :
    (pairsFrom 0 clauses).length = clauses.length * (clauses.length - 1) / 2 := by
  have hrows : (pairsFrom 0 clauses).length
      = ((List.range clauses.length).map fun i => clauses.length - 1 - i).sum := by
    have hpositions : List.range clauses.length = clauses.zipIdx.map Prod.snd := by
      rw [List.zipIdx_map_snd, List.range_eq_range']
    simp only [pairsFrom, List.length_flatMap, List.length_map, List.length_drop, Nat.max_zero]
    rw [hpositions, List.map_map]
    refine congrArg List.sum (List.map_congr_left ?_)
    intro row _
    show clauses.length - (row.2 + 1) = clauses.length - 1 - row.2
    omega
  calc (pairsFrom 0 clauses).length
      = ∑ i ∈ Finset.range clauses.length, (clauses.length - 1 - i) := by rw [hrows]; rfl
    _ = ∑ i ∈ Finset.range clauses.length, i := Finset.sum_range_reflect (fun i => i) _
    _ = clauses.length * (clauses.length - 1) / 2 := Finset.sum_range_id _

/-- No pair is listed twice. -/
theorem nodup_pairsFrom_zero {clauses : List NumberedClause} (h : clauses.Nodup) :
    (pairsFrom 0 clauses).Nodup := by
  refine List.nodup_flatMap.2 ⟨?_, ?_⟩
  · intro row _
    have hrow : (clauses.drop (max (row.2 + 1) 0)).Nodup := h.sublist (List.drop_sublist _ _)
    refine hrow.map ?_
    intro c d hcd
    exact (Prod.mk.inj hcd).2
  · -- the pairs of a row have its clause on the left, and rows have different clauses
    have hlefts : (clauses.zipIdx.map Prod.fst).Nodup := by
      rw [List.zipIdx_map_fst]
      exact h
    refine (List.pairwise_map.1 hlefts).imp ?_
    intro row row' hne pair hpair hpair'
    obtain ⟨_, _, rfl⟩ := List.mem_map.1 hpair
    obtain ⟨_, _, heq⟩ := List.mem_map.1 hpair'
    exact hne (Prod.mk.inj heq).1.symm

/-- The keys of all pairs of a list. -/
def pairKeys (clauses : List NumberedClause) : List (Int × Int) :=
  (pairsFrom 0 clauses).map fun pair => WorkingSet.pairKey pair.1.id pair.2.id

theorem mem_pairKeys {clauses : List NumberedClause} {key : Int × Int} :
    key ∈ pairKeys clauses ↔
      ∃ c d, Before clauses c d ∧ key = WorkingSet.pairKey c.id d.id := by
  unfold pairKeys
  rw [List.mem_map]
  constructor
  · intro h
    obtain ⟨⟨c, d⟩, hmem, rfl⟩ := h
    obtain ⟨i, j, hij, _, hc, hd⟩ := mem_pairsFrom_iff.1 hmem
    exact ⟨c, d, ⟨i, j, hij, hc, hd⟩, rfl⟩
  · intro h
    obtain ⟨c, d, ⟨i, j, hij, hc, hd⟩, rfl⟩ := h
    exact ⟨(c, d), mem_pairsFrom_iff.2 ⟨i, j, hij, Nat.zero_le _, hc, hd⟩, rfl⟩

/-- Different numbers give different keys. -/
theorem nodup_pairKeys {clauses : List NumberedClause} (h : (clauses.map (·.id)).Nodup) :
    (pairKeys clauses).Nodup := by
  refine List.Nodup.map_on ?_ (nodup_pairsFrom_zero (List.Nodup.of_map _ h))
  intro pair hpair pair' hpair' hkey
  have hbefore : ∀ {p : NumberedClause × NumberedClause}, p ∈ pairsFrom 0 clauses →
      Before clauses p.1 p.2 := by
    intro p hp
    obtain ⟨i, j, hij, _, hc, hd⟩ := mem_pairsFrom_iff.1 hp
    exact ⟨i, j, hij, hc, hd⟩
  obtain ⟨hleft, hright⟩ := (hbefore hpair).eq_of_pairKey_eq h (hbefore hpair') hkey
  exact Prod.ext hleft hright

/-! ### Closed sets -/

namespace WorkingSet

variable {ws : WorkingSet}

/-- Two clauses of a closed set have met, in whatever order they stand. -/
theorem Closed.isAttempted_of_ne (hclosed : ws.Closed) {c d : NumberedClause}
    (hc : c ∈ ws.clauses) (hd : d ∈ ws.clauses) (hne : c ≠ d) :
    ws.isAttempted c.id d.id = true := by
  rcases Before.of_mem_of_ne hc hd hne with h | h
  · exact (hclosed c d h).1
  · -- a key does not tell the order of its pair
    have hkey : pairKey c.id d.id = pairKey d.id c.id := pairKey_eq_iff.2 (.inr ⟨rfl, rfl⟩)
    rw [isAttempted_iff, hkey]
    exact isAttempted_iff.1 (hclosed d c h).1

/-- **The keys noted are the keys of the pairs.** -/
theorem Closed.mem_attempted_iff (hclosed : ws.Closed) (hkept : ws.Kept) {key : Int × Int} :
    key ∈ ws.attempted ↔ ∃ c d, Before ws.clauses c d ∧ key = pairKey c.id d.id := by
  constructor
  · exact hkept.known key
  · intro h
    obtain ⟨c, d, hbefore, rfl⟩ := h
    exact isAttempted_iff.1 (hclosed c d hbefore).1

/-- **As many keys as pairs.** -/
theorem Closed.length_attempted (hclosed : ws.Closed) (hkept : ws.Kept) :
    ws.attempted.length = ws.size * (ws.size - 1) / 2 := by
  have hperm : ws.attempted.Perm (pairKeys ws.clauses) := by
    refine (List.perm_ext_iff_of_nodup hkept.once (nodup_pairKeys hkept.distinct)).2 ?_
    intro key
    rw [hclosed.mem_attempted_iff hkept, mem_pairKeys]
  calc ws.attempted.length
      = (pairKeys ws.clauses).length := hperm.length_eq
    _ = (pairsFrom 0 ws.clauses).length := List.length_map ..
    _ = ws.size * (ws.size - 1) / 2 := length_pairsFrom_zero ws.clauses

/-- **The rule leads nowhere new:** a pair has no resolvent, or one that is
    present. -/
theorem Closed.resolvent_mem (hclosed : ws.Closed) {i j : Nat} (hij : i < j)
    {c d : NumberedClause} (hc : ws.clauses[i]? = some c) (hd : ws.clauses[j]? = some d) :
    resolve c.toClause d.toClause = none ∨
      ∃ r, resolve c.toClause d.toClause = some r ∧
        ∃ e ∈ ws.clauses, e.toClause.same r.clause = true := by
  have hanswers := (hclosed c d ⟨i, j, hij, hc, hd⟩).2
  cases hres : resolve c.toClause d.toClause with
  | none => exact .inl rfl
  | some r => exact .inr ⟨r, rfl, contains_iff.1 (hanswers r hres)⟩

end WorkingSet

/-! ### The main result -/

/-- **A saturated set is closed.** Take clauses with different numbers, either
    strategy with any cap, and any operations on a fresh derivation. Whenever a pass
    then replies `saturated`, every two clauses have met, the keys noted are those of
    the `n (n - 1) / 2` pairs and each is noted once, and every clause has with every
    later one no resolvent or one that is present. -/
theorem saturated_pairs (loop : Loop) {clauses : List NumberedClause}
    (hids : (clauses.map (·.id)).Nodup) (query : Option String)
    (negatedQuery : Option NumberedClause) (ops : List Operation) :
    ∃ working, WorkingSet.ofClauses (clauses.map NumberedClause.labelled) = .ok working ∧
      ∀ s : Session,
        (Session.after ⟨loop, { working, query, negatedQuery }⟩ ops).perform .pass
          = (.verdict (some .saturated), s) →
        let ws := s.derivation.working
        (∀ c ∈ ws.clauses, ∀ d ∈ ws.clauses, c ≠ d → ws.isAttempted c.id d.id = true) ∧
        (∀ key, key ∈ ws.attempted ↔ ∃ (i j : Nat) (c d : NumberedClause), i < j ∧
          ws.clauses[i]? = some c ∧ ws.clauses[j]? = some d ∧
          key = WorkingSet.pairKey c.id d.id) ∧
        ws.attempted.Nodup ∧ ws.attempted.length = ws.size * (ws.size - 1) / 2 ∧
        ∀ (i j : Nat) (c d : NumberedClause), i < j → ws.clauses[i]? = some c →
          ws.clauses[j]? = some d →
          resolve c.toClause d.toClause = none ∨
            ∃ r, resolve c.toClause d.toClause = some r ∧
              ∃ e ∈ ws.clauses, e.toClause.same r.clause = true := by
  refine ⟨.initial clauses, ofClauses_labelled hids, ?_⟩
  intro s hpass
  obtain ⟨start, hstart⟩ : ∃ t : Session,
      t = Session.after ⟨loop, { working := .initial clauses, query, negatedQuery }⟩ ops := ⟨_, rfl⟩
  rw [← hstart] at hpass
  have hkept : start.derivation.working.Kept := by
    rw [hstart]
    exact Session.kept_after ops (WorkingSet.kept_initial hids)
  -- the reply of the pass is its verdict, and the session goes on with its derivation
  obtain ⟨hreply, rfl⟩ := Prod.mk.inj hpass
  have hverdict : (Pass.run start.loop start.derivation).verdict = some .saturated :=
    Reply.verdict.inj hreply
  have hclosed := Pass.closed_of_saturated start.loop hkept hverdict
  have hbooks := Pass.kept_run start.loop hkept
  refine ⟨?_, ?_, hbooks.once, hclosed.length_attempted hbooks, ?_⟩
  · intro c hc d hd hne
    exact hclosed.isAttempted_of_ne hc hd hne
  · intro key
    rw [hclosed.mem_attempted_iff hbooks]
    constructor
    · intro h
      obtain ⟨c, d, ⟨i, j, hij, hc, hd⟩, hkey⟩ := h
      exact ⟨i, j, c, d, hij, hc, hd, hkey⟩
    · intro h
      obtain ⟨i, j, c, d, hij, hc, hd, hkey⟩ := h
      exact ⟨c, d, ⟨i, j, hij, hc, hd⟩, hkey⟩
  · intro i j c d hij hc hd
    exact hclosed.resolvent_mem hij hc hd

/-- Operations on `unorderedClauses`: a pass is cut short at the cap, a clause is
    added, and passes go on until nothing is gained. -/
def interrupted : List Operation :=
  [.setCap (some 1), .pass, .add ⟨[{ name := "R", negated := true }]⟩, .setCap none, .pass, .pass,
    .pass]

theorem saturated_pairs_interrupted :
    (unorderedClauses.map (·.id)).Nodup ∧
    ∃ working s, WorkingSet.ofClauses (unorderedClauses.map NumberedClause.labelled) = .ok working ∧
      (Session.after ⟨⟨.incremental, none⟩, { working }⟩ interrupted).perform .pass
        = (.verdict (some .saturated), s) ∧
      s.derivation.working.attempted.length
        = s.derivation.working.size * (s.derivation.working.size - 1) / 2 := by
  have hids : (unorderedClauses.map (·.id)).Nodup := by decide
  obtain ⟨working, hworking, hall⟩ :=
    saturated_pairs ⟨.incremental, none⟩ hids none none interrupted
  obtain rfl : .initial unorderedClauses = working :=
    Except.ok.inj ((ofClauses_labelled hids).symm.trans hworking)
  let start := Session.after ⟨⟨.incremental, none⟩, { working := .initial unorderedClauses }⟩
    interrupted
  have hverdict : (Pass.run start.loop start.derivation).verdict = some .saturated := by
    decide +kernel
  have hpass : start.perform .pass = (.verdict (some .saturated),
      { start with derivation := (Pass.run start.loop start.derivation).derivation }) :=
    Prod.ext (congrArg Reply.verdict hverdict) rfl
  obtain ⟨_, _, _, hcount, _⟩ := hall _ hpass
  exact ⟨hids, _, _, hworking, hpass, hcount⟩

end Refuter
