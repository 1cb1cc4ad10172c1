import Refuter.Proofs.History
import Refuter.Proofs.Replay

/-! # The numbers of a base

An engine numbers its clauses from left to right. A given number stays; a missing one becomes
the next above all numbers so far, and the numbers still to come are not looked at.

- **A number made up** lies above all numbers before it, given or made up
  (`Engine.le_of_mem_numberFrom`), so it can meet only a number given behind it.
- **A collision** is therefore a clause without a number, and behind it one that was given the
  number which the first is about to get (`Engine.Clashes`).
- **A working set** takes clauses with different numbers and no others
  (`Engine.result_prove_of_not_nodup`), hence a collision is seen at the first query.

**Key result.** If the given numbers are different, the numbers of the base are different, and
accepted queries are answered, exactly when there is no collision (`numbers_distinct`).
-/

namespace Refuter

namespace Engine

/-! ### Which numbers are made up -/

/-- The next number to make up once the clauses have been numbered. -/
def reached (next : Int) (clauses : List LabelledClause) : Int :=
  clauses.foldl (fun next c => max next (c.id.getD next + 1)) next

/-- A clause without a number gets the number that a clause behind it was given. -/
def Clashes (next : Int) (clauses : List LabelledClause) : Prop :=
  ∃ before c behind, clauses = before ++ c :: behind ∧ c.id = none ∧
    ∃ d ∈ behind, d.id = some (reached next before)

/-- The first clause collides, or one behind it does. -/
theorem clashes_cons {next : Int} {c : LabelledClause} {rest : List LabelledClause} :
    Clashes next (c :: rest) ↔ (c.id = none ∧ ∃ d ∈ rest, d.id = some next) ∨
      Clashes (max next (c.id.getD next + 1)) rest := by
  constructor
  · rintro ⟨before, e, behind, heq, he, hbehind⟩
    cases before with
    | nil =>
      obtain ⟨rfl, rfl⟩ := List.cons.inj heq
      exact .inl ⟨he, hbehind⟩
    | cons b before =>
      obtain ⟨rfl, rfl⟩ := List.cons.inj heq
      exact .inr ⟨before, e, behind, rfl, he, hbehind⟩
  · rintro (⟨hc, hrest⟩ | ⟨before, e, behind, rfl, he, hbehind⟩)
    · exact ⟨[], c, rest, rfl, hc, hrest⟩
    · exact ⟨c :: before, e, behind, rfl, he, hbehind⟩

theorem not_clashes_nil {next : Int} : ¬Clashes next [] := by
  rintro ⟨before, c, behind, heq, _⟩
  simp at heq

instance decidableClashes : ∀ next clauses, Decidable (Clashes next clauses)
  | _, [] => isFalse not_clashes_nil
  | next, c :: rest =>
    have := decidableClashes (max next (c.id.getD next + 1)) rest
    decidable_of_iff _ clashes_cons.symm

/-! ### What numbering keeps -/

/-- The clause is the same, and so is its number if it had one. -/
def Retains (given : LabelledClause) (numbered : NumberedClause) : Prop :=
  numbered.toClause = given.toClause ∧ ∀ id, given.id = some id → numbered.id = id

/-- **Clauses and given numbers** stay, each in its place. -/
theorem retains_numberFrom (clauses : List LabelledClause) :
    ∀ next, List.Forall₂ Retains clauses (numberFrom next clauses) := by
  induction clauses with
  | nil => exact fun _ => .nil
  | cons c rest ih =>
    intro next
    refine .cons ⟨rfl, fun id hid => ?_⟩ (ih _)
    show c.id.getD next = id
    rw [hid]
    rfl

theorem mem_numberFrom_of_given {clauses : List LabelledClause} {d : LabelledClause}
    (hd : d ∈ clauses) {id : Int} (hid : d.id = some id) (next : Int) :
    id ∈ (numberFrom next clauses).map (·.id) := by
  induction clauses generalizing next with
  | nil => cases hd
  | cons c rest ih =>
    rw [numberFrom, List.map_cons, List.mem_cons]
    rcases List.mem_cons.1 hd with rfl | hd
    · refine .inl ?_
      show id = d.id.getD next
      rw [hid]
      rfl
    · exact .inr (ih hd _)

/-- **A number that was not given** is none of those before it. -/
theorem le_of_mem_numberFrom {clauses : List LabelledClause} {next id : Int}
    (h : id ∈ (numberFrom next clauses).map (·.id)) :
    (∃ d ∈ clauses, d.id = some id) ∨ next ≤ id := by
  induction clauses generalizing next with
  | nil => cases h
  | cons c rest ih =>
    rw [numberFrom, List.map_cons, List.mem_cons] at h
    rcases h with hid | h
    · have hid : id = c.id.getD next := hid
      cases hc : c.id with
      | some given =>
        rw [hc] at hid
        exact .inl ⟨c, List.mem_cons_self, hc.trans (congrArg some hid.symm)⟩
      | none =>
        rw [hc] at hid
        exact .inr (Int.le_of_eq hid.symm)
    · rcases ih h with ⟨d, hd, hid⟩ | hle
      · exact .inl ⟨d, List.mem_cons_of_mem _ hd, hid⟩
      · exact .inr (Int.le_trans (Int.le_max_left _ _) hle)

/-- A number below the next one comes again only where it was given. -/
theorem mem_numberFrom_iff {clauses : List LabelledClause} {next id : Int} (hlt : id < next) :
    id ∈ (numberFrom next clauses).map (·.id) ↔ ∃ d ∈ clauses, d.id = some id := by
  constructor
  · intro h
    rcases le_of_mem_numberFrom h with hgiven | hle
    · exact hgiven
    · exact absurd hle (Int.not_le.2 hlt)
  · rintro ⟨d, hd, hid⟩
    exact mem_numberFrom_of_given hd hid next

/-- **Numbers are different** exactly when there is no collision. -/
theorem nodup_numberFrom_iff {clauses : List LabelledClause}
    (hgiven : (clauses.filterMap (·.id)).Nodup) (next : Int) :
    ((numberFrom next clauses).map (·.id)).Nodup ↔ ¬Clashes next clauses := by
  induction clauses generalizing next with
  | nil => exact ⟨fun _ => not_clashes_nil, fun _ => List.nodup_nil⟩
  | cons c rest ih =>
    have hrest : (rest.filterMap (·.id)).Nodup := by
      refine hgiven.sublist ?_
      exact (List.sublist_cons_self c rest).filterMap _
    have hbelow : c.id.getD next < max next (c.id.getD next + 1) :=
      Int.lt_of_lt_of_le (Int.lt_succ _) (Int.le_max_right _ _)
    rw [clashes_cons, not_or, numberFrom, List.map_cons, List.nodup_cons]
    -- the number of the first clause lies below all that are still to be made up
    refine and_congr (not_congr ?_) (ih hrest _)
    rw [show (c.toClause.withId (c.id.getD next)).id = c.id.getD next from rfl,
      mem_numberFrom_iff hbelow]
    cases hc : c.id with
    | none => exact ⟨fun h => ⟨rfl, h⟩, And.right⟩
    | some id =>
      -- a given number is not given again
      rw [List.filterMap_cons_some hc, List.nodup_cons] at hgiven
      constructor
      · rintro ⟨d, hd, hid⟩
        exact absurd (List.mem_filterMap.2 ⟨d, hd, hid⟩) hgiven.1
      · intro h
        exact absurd h.1 (Option.some_ne_none id)

/-! ### Numbers that are not different -/

/-- A number that comes twice, or was seen before, is reported. -/
theorem checkNumbers_duplicate (clauses : List NumberedClause) :
    ∀ seen : List Int, ¬((clauses.map (·.id)).Nodup ∧ ∀ c ∈ clauses, c.id ∉ seen) →
      ∃ id, WorkingSet.checkNumbers seen (clauses.map NumberedClause.labelled)
        = .error (.duplicateNumber (intText id)) := by
  induction clauses with
  | nil => exact fun seen h => absurd ⟨List.nodup_nil, by simp⟩ h
  | cons c rest ih =>
    intro seen h
    by_cases hc : c.id ∈ seen
    · exact ⟨c.id, by simp [WorkingSet.checkNumbers, NumberedClause.labelled, hc]⟩
    · obtain ⟨id, hid⟩ := ih (c.id :: seen) (by
        rintro ⟨hnodup, hnew⟩
        simp only [List.mem_cons, not_or] at hnew
        refine h ⟨?_, List.forall_mem_cons.2 ⟨hc, fun d hd => (hnew d hd).2⟩⟩
        rw [List.map_cons, List.nodup_cons]
        refine ⟨fun hmem => ?_, hnodup⟩
        obtain ⟨d, hd, heq⟩ := List.mem_map.1 hmem
        exact (hnew d hd).1 heq)
      exact ⟨id, by simp [WorkingSet.checkNumbers, NumberedClause.labelled, hc, hid]⟩

/-- **A base with a repeated number** answers no query. -/
theorem result_prove_of_not_nodup {engine : Engine} (hids : ¬(engine.base.map (·.id)).Nodup)
    {query : String} {negated : Clause} {builder : Builder}
    (hneg : Build.negate query engine.builder = (.ok negated, builder)) (trace : List Record) :
    ∃ id, (engine.prove query trace).result = .error (.duplicateNumber (intText id)) := by
  obtain ⟨id, hid⟩ := checkNumbers_duplicate engine.base [] fun h => hids h.1
  refine ⟨id, ?_⟩
  rw [prove, hneg]
  dsimp only
  rw [search]
  simp only [WorkingSet.ofClauses, hid]

/-- **An accepted query is answered** if numbers are different, and else refused for them. -/
theorem result_prove_cases {engine : Engine} {query : String} {negated : Clause} {builder : Builder}
    (hneg : Build.negate query engine.builder = (.ok negated, builder)) (trace : List Record) :
    ((engine.base.map (·.id)).Nodup ∧ ∃ d, (engine.prove query trace).result = .ok d) ∨
    (¬(engine.base.map (·.id)).Nodup ∧
      ∃ id, (engine.prove query trace).result = .error (.duplicateNumber (intText id))) := by
  by_cases hids : (engine.base.map (·.id)).Nodup
  · obtain ⟨d, outcome, hresult, _⟩ := prove_replays hids hneg trace
    exact .inl ⟨hids, _, hresult⟩
  · exact .inr ⟨hids, result_prove_of_not_nodup hids hneg trace⟩

end Engine

/-! ### The main result -/

/-- **Numbers of a base.** Let clauses be given, some with a number and some without, the given
    numbers all different. An engine of them, with any loop and any builder, keeps each clause
    in its place and each given number. The numbers of its base are all different if and only if
    no clause without a number gets one that a clause behind it was given. Just then is every
    accepted query answered, after any earlier calls and whatever was traced; otherwise every
    accepted query fails with a repeated number. -/
theorem numbers_distinct {clauses : List LabelledClause}
    (hgiven : (clauses.filterMap (·.id)).Nodup) (loop : Loop) (builder : Option Builder) :
    List.Forall₂ Engine.Retains clauses (Engine.ofClauses clauses loop builder).base ∧
    (((Engine.ofClauses clauses loop builder).base.map (·.id)).Nodup ↔
      ¬Engine.Clashes 1 clauses) ∧
    ∀ (history : List Engine.Call) (query : String) (trace : List Record) (negated : Clause)
      (used : Builder),
      Build.negate query ((Engine.ofClauses clauses loop builder).after history).builder
        = (.ok negated, used) →
      ((∃ d, (((Engine.ofClauses clauses loop builder).after history).prove query trace).result
          = .ok d) ↔ ¬Engine.Clashes 1 clauses) ∧
      ((∃ id, (((Engine.ofClauses clauses loop builder).after history).prove query trace).result
          = .error (.duplicateNumber (intText id))) ↔ Engine.Clashes 1 clauses) := by
  have hnodup : ((Engine.ofClauses clauses loop builder).base.map (·.id)).Nodup ↔
      ¬Engine.Clashes 1 clauses := Engine.nodup_numberFrom_iff hgiven 1
  refine ⟨Engine.retains_numberFrom clauses 1, hnodup, ?_⟩
  intro history query trace negated used hneg
  have hbase := (Engine.keeps_after history (Engine.ofClauses clauses loop builder)).base
  rcases Engine.result_prove_cases hneg trace with ⟨hids, d, hd⟩ | ⟨hids, id, hid⟩
  · rw [hbase, hnodup] at hids
    rw [hd]
    refine ⟨⟨fun _ => hids, fun _ => ⟨d, rfl⟩⟩, ?_, fun h => absurd h hids⟩
    rintro ⟨id, hid⟩
    cases hid
  · rw [hbase, hnodup, not_not] at hids
    rw [hid]
    refine ⟨⟨?_, fun h => absurd hids h⟩, fun _ => hids, fun _ => ⟨id, rfl⟩⟩
    rintro ⟨d, hd⟩
    cases hd

/-- Clauses of which some are numbered, also behind clauses without a number. -/
def mixedClauses : List LabelledClause :=
  [{ literals := [{ name := "P", args := [.var "x"] }] },
    { literals := [{ name := "Q" }], id := some 5 },
    { literals := [{ name := "R" }] },
    { literals := [{ name := "Q", negated := true }, { name := "S" }], id := some (-3) },
    { literals := [{ name := "T" }], id := some 2 }]

/-- An engine that has decided a query. -/
def mixedEngine : Engine :=
  (Engine.ofClauses mixedClauses ⟨.incremental, none⟩ none).after [.resolve (.str "P(A)")]

theorem numbers_distinct_mixed :
    (mixedClauses.filterMap (·.id)).Nodup ∧ ¬Engine.Clashes 1 mixedClauses ∧
    (Engine.number mixedClauses).map (·.id) = [1, 5, 6, -3, 2] ∧
    ((Engine.ofClauses mixedClauses ⟨.incremental, none⟩ none).base.map (·.id)).Nodup ∧
    ∃ d, (mixedEngine.prove "S").result = .ok d := by
  have hgiven : (mixedClauses.filterMap (·.id)).Nodup := by decide +kernel
  have hclear : ¬Engine.Clashes 1 mixedClauses := by decide +kernel
  have haccepted : Build.negate "S" mixedEngine.builder
      = (.ok ⟨[{ name := "S", negated := true }]⟩, (Build.negate "S" mixedEngine.builder).2) :=
    eq_ok_of_toOption (by decide +kernel)
  obtain ⟨_, hnodup, hanswered⟩ := numbers_distinct hgiven ⟨.incremental, none⟩ none
  refine ⟨hgiven, hclear, by decide +kernel, hnodup.2 hclear, ?_⟩
  exact (hanswered [.resolve (.str "P(A)")] "S" [] _ _ haccepted).1.2 hclear

/-- A clause without a number in front of the clause with number one. -/
def numberTaken : List LabelledClause :=
  [{ literals := [{ name := "P" }] }, { literals := [{ name := "Q" }], id := some 1 }]

/-- The engine of these clauses. -/
def takenEngine : Engine :=
  .ofClauses numberTaken ⟨.incremental, none⟩ none

/-- **A missing number can collide with a given one.** The given numbers are different, but both
    clauses get number one, and a query that follows is refused for it. -/
theorem numberTaken_collides :
    (numberTaken.filterMap (·.id)).Nodup ∧ takenEngine.base.map (·.id) = [1, 1] ∧
    (Build.negate "P" takenEngine.builder).1.toOption
      = some ⟨[{ name := "P", negated := true }]⟩ ∧
    (takenEngine.prove "P").result = .error (.duplicateNumber "1") := by
  have haccepted : Build.negate "P" takenEngine.builder
      = (.ok ⟨[{ name := "P", negated := true }]⟩, (Build.negate "P" takenEngine.builder).2) :=
    eq_ok_of_toOption (by decide +kernel)
  refine ⟨by decide +kernel, by decide +kernel, by decide +kernel, ?_⟩
  rw [Engine.prove, haccepted]
  rfl

end Refuter
