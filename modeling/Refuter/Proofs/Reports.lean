import Refuter.Proofs.History
import Refuter.Proofs.Replay

/-! # What a trace receives

The searches of one engine all report to the same list, each behind what the list
holds from the searches before. Nothing marks where a query begins; that the list can
still be read is a matter of what each call adds to it.

- **A call** adds nothing if its query is refused. Otherwise it adds a record for
  each step, in order, and one for the end (`Monitored.exists_reports`).
- **A session** is calls in a row, and no call takes back what was reported. So the
  list is the blocks of the calls in a row.

**Key result.** `session_reports`.
-/

namespace Refuter

namespace Engine

/-! ### Calls that report -/

/-- What a call asks. -/
def Call.query : Call → Json
  | .prove query => query
  | .resolve query => query

/-- A query is accepted if it can be negated. -/
def Accepts (engine : Engine) (query : Json) : Prop :=
  ∃ text negated builder, query = .str text ∧
    Build.negate text engine.builder = (.ok negated, builder)

/-- An engine and the list to which its searches report. -/
structure Monitored where
  /-- The engine. -/
  engine : Engine
  /-- The records received so far. -/
  records : List Record := []

namespace Monitored

/-- The answer to what a call asks. -/
def answer (m : Monitored) (c : Call) : Answer :=
  m.engine.proveValue c.query m.records

/-- One call. A derivation has reported behind what the list held; without one there
    was nothing to report. -/
def call (m : Monitored) (c : Call) : Monitored where
  engine := (m.answer c).engine
  records := match (m.answer c).result with
    | .ok d => d.trace
    | .error _ => m.records

/-- Calls, one after the other. -/
def after (m : Monitored) (calls : List Call) : Monitored :=
  calls.foldl call m

/-- The calls, each with what it is made on. -/
def timeline (m : Monitored) : List Call → List (Monitored × Call)
  | [] => []
  | c :: rest => (m, c) :: (m.call c).timeline rest

/-- What a call reports. -/
inductive Reports (m : Monitored) (c : Call) : List Record → Prop where
  /-- A query that is refused reports nothing. -/
  | refused {e : Error} (refused : ¬ m.engine.Accepts c.query)
      (result : (m.answer c).result = .error e) : Reports m c []
  /-- A query that is accepted has a finished derivation. Its steps are reported in
      order, each with its number, the numbers and texts of its parents and the text of
      the clause derived; these are the clauses of the working set under their numbers,
      and the clause derived has its place there by the number of the step. Then the end
      is reported, with the number of steps and of clauses. -/
  | answered {d : Derivation} {outcome : Outcome} {steps : List Record}
      (accepted : m.engine.Accepts c.query)
      (result : (m.answer c).result = .ok d)
      (decided : d.outcome = some outcome)
      (status : (m.call c).engine.status = .decided outcome)
      (length : steps.length = d.length)
      (reported : ∀ (k : Nat) (s : Step), d.steps[k]? = some s →
        steps[k]? = some (.step (k + 1) s.left.id s.right.id s.left.toClause.text
          s.right.toClause.text s.resolvent.toClause.text) ∧
        (∀ clause ∈ [s.left, s.right, s.resolvent], d.working.get? clause.id = some clause) ∧
        d.working.clauses[d.working.size - d.length + k]? = some s.resolvent) :
      Reports m c (steps ++ [.terminal outcome d.length d.working.size])

/-! ### One call -/

/-- A query that is not accepted has no derivation. -/
theorem error_of_refused {m : Monitored} {c : Call} (h : ¬ m.engine.Accepts c.query) :
    ∃ e, (m.answer c).result = .error e := by
  unfold answer proveValue
  split
  · rename_i text hquery
    rw [prove]
    split
    · exact ⟨_, rfl⟩
    · rename_i negated builder hneg
      exact absurd ⟨text, negated, builder, hquery, hneg⟩ h
  · exact ⟨_, rfl⟩

/-- **An accepted query** reports its steps and its end behind what the list holds. -/
theorem reports_of_accepted {m : Monitored} (hids : (m.engine.base.map (·.id)).Nodup) {c : Call}
    (h : m.engine.Accepts c.query) :
    ∃ d block, (m.answer c).result = .ok d ∧ d.trace = m.records ++ block ∧ m.Reports c block := by
  have haccepted := h
  obtain ⟨text, negated, builder, hquery, hneg⟩ := h
  obtain ⟨d, outcome, hresult, hengine, hkept, hext, _⟩ := prove_replays hids hneg m.records
  have hanswer : m.answer c = m.engine.prove text m.records := by
    rw [answer, hquery]
    rfl
  refine ⟨d.close outcome,
    d.steps.map Derivation.stepRecord ++ [.terminal outcome d.length d.working.size], ?_, ?_, ?_⟩
  · rw [hanswer]
    exact hresult
  · show d.trace ++ [_] = _
    rw [hext.trace, List.append_assoc]
    rfl
  · refine .answered (d := d.close outcome) haccepted ?_ rfl ?_ (List.length_map _) ?_
    · rw [hanswer]
      exact hresult
    · show (m.answer c).engine.status = _
      rw [hanswer, hengine]
    · intro k s hs
      have hs : d.steps[k]? = some s := hs
      have hchecks := hext.checks k s hs
      obtain ⟨i, j, _, _, hleft, hright⟩ := hchecks.parents
      refine ⟨?_, ?_, ?_⟩
      · rw [List.getElem?_map, hs, Option.map_some, Derivation.stepRecord, hchecks.number]
      · intro clause hclause
        apply hkept.get?_eq
        simp only [List.mem_cons, List.not_mem_nil, or_false] at hclause
        rcases hclause with rfl | rfl | rfl
        · exact List.mem_of_getElem? hleft
        · exact List.mem_of_getElem? hright
        · exact List.mem_of_getElem? hchecks.placed
      · have hgiven : d.working.size - d.length = (opening m.engine.base text negated).working.size := by
          have hsize : d.working.size
              = (opening m.engine.base text negated).working.size + d.length := hext.size
          omega
        show d.working.clauses[d.working.size - d.length + k]? = _
        rw [hgiven]
        exact hchecks.placed

/-- **A call adds its block** to the list. -/
theorem exists_reports {m : Monitored} (hids : (m.engine.base.map (·.id)).Nodup) (c : Call) :
    ∃ block, (m.call c).records = m.records ++ block ∧ m.Reports c block := by
  by_cases h : m.engine.Accepts c.query
  · obtain ⟨d, block, hresult, htrace, hreports⟩ := reports_of_accepted hids h
    refine ⟨block, ?_, hreports⟩
    unfold call
    rw [hresult]
    exact htrace
  · obtain ⟨e, hresult⟩ := error_of_refused h
    refine ⟨[], ?_, .refused h hresult⟩
    unfold call
    rw [hresult, List.append_nil]

/-! ### Sessions -/

theorem base_call (m : Monitored) (c : Call) : (m.call c).engine.base = m.engine.base :=
  (m.engine.keeps_proveValue c.query m.records).base

/-- **A session adds a block for each call,** whatever the list holds already. -/
theorem exists_blocks (calls : List Call) : ∀ m : Monitored, (m.engine.base.map (·.id)).Nodup →
    ∃ blocks, (m.after calls).records = m.records ++ blocks.flatten ∧
      List.Forall₂ (fun now block => now.1.Reports now.2 block) (m.timeline calls) blocks := by
  induction calls with
  | nil =>
    intro m _
    exact ⟨[], by simp [after], .nil⟩
  | cons c rest ih =>
    intro m hids
    obtain ⟨block, hblock, hreports⟩ := exists_reports hids c
    obtain ⟨blocks, hrest, hall⟩ := ih (m.call c) (by rw [base_call]; exact hids)
    refine ⟨block :: blocks, ?_, .cons hreports hall⟩
    show ((m.call c).after rest).records = _
    rw [hrest, hblock, List.flatten_cons, List.append_assoc]

end Monitored

end Engine

/-- **A trace can be read.** For an engine whose base has different numbers, and any
    calls on it, the list receives one block after the other, one for each call. The
    block of a refused query is empty; that of an accepted one reports the steps of its
    derivation and how it ended. -/
theorem session_reports {engine : Engine} (hids : (engine.base.map (·.id)).Nodup)
    (calls : List Engine.Call) :
    ∃ blocks, (Engine.Monitored.after { engine } calls).records = blocks.flatten ∧
      List.Forall₂ (fun now block => now.1.Reports now.2 block)
        (Engine.Monitored.timeline { engine } calls) blocks := by
  obtain ⟨blocks, hrecords, hall⟩ := Engine.Monitored.exists_blocks calls { engine } hids
  exact ⟨blocks, hrecords, hall⟩

/-- The engine of a fact and a rule that derives at most two clauses a query. -/
def brisk : Engine :=
  { hasty with loop := ⟨.incremental, some 2⟩ }

/-- A query that does not follow, one that cannot be converted, one that runs into the
    limit, none at all, and one that follows. -/
def mixed : List Engine.Call :=
  [.prove (.str "R"), .resolve (.str "∀z (R(z) ∨ Q)"), .resolve (.str "Q"), .prove .null,
    .prove (.str "P")]

theorem session_reports_mixed :
    (brisk.base.map (·.id)).Nodup ∧
    (Engine.Monitored.after { engine := brisk } mixed).records.map Record.kind
      = ["step", "saturated", "step", "step", "inconclusive", "step", "step", "contradiction"] ∧
    ∃ blocks, (Engine.Monitored.after { engine := brisk } mixed).records = blocks.flatten ∧
      List.Forall₂ (fun now block => now.1.Reports now.2 block)
        (Engine.Monitored.timeline { engine := brisk } mixed) blocks := by
  have hids : (brisk.base.map (·.id)).Nodup := by decide +kernel
  exact ⟨hids, by decide +kernel, session_reports hids mixed⟩

end Refuter
