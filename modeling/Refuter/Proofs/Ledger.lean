import Mathlib.Data.List.Nodup
import Refuter.Proofs.Closure

/-! # The books of a working set

A working set is its clauses; what can be asked about them is read off the list. The same
answers can be had without going through the list, from books that are kept beside it: an
*index* of the clauses by their numbers, and the clauses *seen*, each of a kind once. A
*ledger* is a working set with these books. Four things then tell of the same clauses, the
list, the index, the clauses seen and the next number, and every call has to change them
together.

- **Books that agree** (`Ledger.Consistent`): the index has an entry for each clause and no
  other, a clause is seen if one with the same literals is listed, numbers are used once
  and lie below the next one.
- **One call** keeps this (`Ledger.Consistent.perform`), so any calls do.
- **A ledger answers as its working set does** (`Ledger.Consistent.get_eq`,
  `Ledger.Consistent.contains_eq`, `Ledger.Consistent.after_eq`).

**Key result.** `books_reliable`.
-/

namespace Refuter

/-! ### Calls on a working set -/

namespace WorkingSet

/-- What can be done to a working set. -/
inductive Call where
  /-- A clause is to join. A number that it carries does not count. -/
  | add (c : LabelledClause)
  /-- A pair is noted as attempted. -/
  | mark (left right : NumberedClause)
  /-- It is asked whether a pair was attempted. -/
  | ask (left right : NumberedClause)
  deriving Repr, DecidableEq

/-- The calls that note one pair as attempted, in either order. -/
inductive Call.Marks (a b : Int) : Call → Prop where
  /-- In this order. -/
  | forth {left right : NumberedClause} (ha : left.id = a) (hb : right.id = b) :
      Marks a b (.mark left right)
  /-- In the other order. -/
  | back {left right : NumberedClause} (hb : left.id = b) (ha : right.id = a) :
      Marks a b (.mark left right)

/-- One call. -/
def perform (ws : WorkingSet) : Call → WorkingSet
  | .add c => (ws.add c.toClause).2
  | .mark left right => ws.markAttempted left.id right.id
  | .ask _ _ => ws

/-- Calls, one after the other. -/
def after (ws : WorkingSet) (calls : List Call) : WorkingSet :=
  calls.foldl perform ws

theorem Call.marks_mark_iff {a b : Int} {left right : NumberedClause} :
    (Call.mark left right).Marks a b ↔ pairKey a b = pairKey left.id right.id := by
  rw [pairKey_eq_iff]
  constructor
  · rintro (⟨rfl, rfl⟩ | ⟨rfl, rfl⟩)
    · exact .inl ⟨rfl, rfl⟩
    · exact .inr ⟨rfl, rfl⟩
  · rintro (⟨rfl, rfl⟩ | ⟨rfl, rfl⟩)
    · exact .forth rfl rfl
    · exact .back rfl rfl

/-- **A pair counts as attempted** once a call has marked it, and only then. -/
theorem isAttempted_perform {ws : WorkingSet} {call : Call} {a b : Int} :
    (ws.perform call).isAttempted a b = true ↔ ws.isAttempted a b = true ∨ call.Marks a b := by
  cases call with
  | add c =>
    have hadd : (ws.add c.toClause).2.isAttempted a b = ws.isAttempted a b := by
      unfold add
      split <;> rfl
    rw [perform, hadd]
    exact ⟨.inl, fun h => h.elim id fun hm => nomatch hm⟩
  | mark left right =>
    rw [perform, isAttempted_iff, mem_attempted_markAttempted, ← isAttempted_iff,
      Call.marks_mark_iff, or_comm]
  | ask left right =>
    exact ⟨.inl, fun h => h.elim id fun hm => nomatch hm⟩

theorem isAttempted_after {calls : List Call} {a b : Int} : ∀ {ws : WorkingSet},
    (ws.after calls).isAttempted a b = true ↔
      ws.isAttempted a b = true ∨ ∃ call ∈ calls, call.Marks a b := by
  induction calls with
  | nil => simp [after]
  | cons call rest ih =>
    intro ws
    show ((ws.perform call).after rest).isAttempted a b = true ↔ _
    rw [ih, isAttempted_perform, or_assoc]
    simp

end WorkingSet

/-! ### Ledgers -/

/-- A working set with its books. -/
structure Ledger extends WorkingSet where
  /-- The clauses under their numbers. -/
  index : List (Int × NumberedClause) := []
  /-- The clauses seen, of several with the same literals only one. -/
  seen : List Clause := []
  deriving Repr, DecidableEq

namespace Ledger

/-- The entry of a clause. -/
def entry (c : NumberedClause) : Int × NumberedClause :=
  (c.id, c)

/-- Enters a clause under its number, in the place of the one that stood there. -/
def enter (index : List (Int × NumberedClause)) (c : NumberedClause) : List (Int × NumberedClause) :=
  if (index.lookup c.id).isSome then index.map fun e => if e.1 = c.id then entry c else e
  else index ++ [entry c]

/-- Was a clause with the same literals seen? -/
def isSeen (seen : List Clause) (c : Clause) : Bool :=
  seen.any fun d => d.same c

/-- Notes that a clause was seen. -/
def note (seen : List Clause) (c : Clause) : List Clause :=
  if isSeen seen c then seen else c :: seen

/-- Enters given clauses, of which each must have a number that is not entered yet. -/
def enterAll (index : List (Int × NumberedClause)) :
    List LabelledClause → Except Error (List (Int × NumberedClause))
  | [] => .ok index
  | c :: rest =>
    match c.id with
    | none => .error (.unnumbered c.toClause.text)
    | some id =>
      if (index.lookup id).isSome then .error (.duplicateNumber (intText id))
      else enterAll (enter index (c.toClause.withId id)) rest

/-- The ledger of given clauses. -/
def ofClauses (given : List LabelledClause) : Except Error Ledger :=
  match enterAll [] given with
  | .error e => .error e
  | .ok index =>
    .ok {
      clauses := index.map (·.2)
      nextId := WorkingSet.nextAfter (index.map (·.1))
      index
      seen := (index.map (·.2.toClause)).foldl note [] }

/-- The clause of a number, by the index. -/
def get (ledger : Ledger) (id : Int) : Except Error NumberedClause :=
  match ledger.index.lookup id with
  | some c => .ok c
  | none => .error (.unknownClause (intText id))

/-- Is a clause with the same literals present? The clauses seen tell. -/
def contains (ledger : Ledger) (c : Clause) : Bool :=
  isSeen ledger.seen c

/-- Adds a clause under the next number, unless the same clause was seen. -/
def add (ledger : Ledger) (c : Clause) : Option NumberedClause × Ledger :=
  if ledger.contains c then (none, ledger)
  else
    let numbered := c.withId ledger.nextId
    (some numbered,
      { ledger with
        clauses := ledger.clauses ++ [numbered]
        nextId := ledger.nextId + 1
        index := enter ledger.index numbered
        seen := note ledger.seen c })

/-- One call. Pairs are noted as in any working set. -/
def perform (ledger : Ledger) : WorkingSet.Call → Ledger
  | .add c => (ledger.add c.toClause).2
  | .mark left right =>
    { ledger with toWorkingSet := ledger.toWorkingSet.markAttempted left.id right.id }
  | .ask _ _ => ledger

/-- Calls, one after the other. -/
def after (ledger : Ledger) (calls : List WorkingSet.Call) : Ledger :=
  calls.foldl perform ledger

/-! ### The index -/

theorem lookup_entries (clauses : List NumberedClause) (id : Int) :
    (clauses.map entry).lookup id = clauses.find? (·.id = id) := by
  induction clauses with
  | nil => rfl
  | cons c rest ih =>
    by_cases h : c.id = id
    · simp [entry, h]
    · have hne : (id == c.id) = false := by simpa using fun e => h (Eq.symm e)
      rw [List.map_cons, entry, List.lookup_cons, hne, List.find?_cons_of_neg (by simpa using h)]
      exact ih

theorem isSome_lookup_entries {clauses : List NumberedClause} {id : Int} :
    ((clauses.map entry).lookup id).isSome ↔ id ∈ clauses.map (·.id) := by
  rw [lookup_entries, List.find?_isSome]
  simp

/-- A new number goes behind the others. -/
theorem enter_of_new {clauses : List NumberedClause} {c : NumberedClause}
    (h : c.id ∉ clauses.map (·.id)) :
    enter (clauses.map entry) c = (clauses ++ [c]).map entry := by
  rw [enter, if_neg (by rw [isSome_lookup_entries]; exact h), List.map_append]
  rfl

/-- **Entering** asks of given clauses what a working set asks of them. -/
theorem enterAll_eq (given : List LabelledClause) :
    ∀ (before : List NumberedClause) (numbers : List Int),
      (∀ id, id ∈ numbers ↔ id ∈ before.map (·.id)) →
      enterAll (before.map entry) given = (WorkingSet.checkNumbers numbers given).map
        fun behind => (before ++ behind).map entry := by
  induction given with
  | nil =>
    intro before numbers _
    rw [enterAll, WorkingSet.checkNumbers, Except.map, List.append_nil]
  | cons c rest ih =>
    intro before numbers hnumbers
    rw [enterAll, WorkingSet.checkNumbers]
    cases c.id with
    | none => rfl
    | some id =>
      dsimp only
      by_cases hid : id ∈ numbers
      · rw [if_pos hid, if_pos (isSome_lookup_entries.2 ((hnumbers id).1 hid))]
        rfl
      · -- the number is new to both, and both go on with it
        have hnew : id ∉ before.map (·.id) := fun h => hid ((hnumbers id).2 h)
        rw [if_neg hid, if_neg (fun h => hnew (isSome_lookup_entries.1 h)),
          enter_of_new (c := c.toClause.withId id) hnew, ih _ (id :: numbers) ?_]
        · cases WorkingSet.checkNumbers (id :: numbers) rest with
          | error e => rfl
          | ok behind => simp [Except.map]
        · intro other
          simp [hnumbers, or_comm, Clause.withId]

/-! ### The clauses seen -/

theorem isSeen_iff {seen : List Clause} {c : Clause} :
    isSeen seen c = true ↔ ∃ d ∈ seen, d.same c = true := by
  simp [isSeen]

/-- Of clauses with the same literals it does not matter which one is noted. -/
theorem isSeen_note {seen : List Clause} {c d : Clause} :
    isSeen (note seen c) d = true ↔ isSeen seen d = true ∨ c.same d = true := by
  unfold note
  split
  · rename_i hc
    constructor
    · exact .inl
    · -- a clause of the same literals was seen before, and it counts for this one too
      rintro (h | h)
      · exact h
      · obtain ⟨e, he, hs⟩ := isSeen_iff.1 hc
        exact isSeen_iff.2 ⟨e, he, Clause.same_trans hs h⟩
  · simp [isSeen, or_comm]

theorem isSeen_noteAll (clauses : List Clause) :
    ∀ {seen : List Clause} {d : Clause}, isSeen (clauses.foldl note seen) d = true ↔
      isSeen seen d = true ∨ ∃ c ∈ clauses, c.same d = true := by
  induction clauses with
  | nil => simp
  | cons c rest ih =>
    intro seen d
    rw [List.foldl_cons, ih, isSeen_note, or_assoc]
    simp

/-! ### Books that agree -/

/-- The books tell of the clauses that are listed. -/
structure Consistent (ledger : Ledger) : Prop where
  /-- The index has an entry for each clause and no other. -/
  indexed : ledger.index = ledger.clauses.map entry
  /-- A clause was seen if one with the same literals is listed. -/
  seen : ∀ c, isSeen ledger.seen c = true ↔ ∃ d ∈ ledger.clauses, d.toClause.same c = true
  /-- Numbers are used once. -/
  distinct : (ledger.clauses.map (·.id)).Nodup
  /-- The next number lies above all. -/
  below : ∀ c ∈ ledger.clauses, c.id < ledger.nextId

namespace Consistent

variable {ledger : Ledger}

/-- **The index** finds what a search of the list finds. -/
theorem get_eq (h : ledger.Consistent) (id : Int) : ledger.get id = ledger.toWorkingSet.get id := by
  rw [get, h.indexed, lookup_entries]
  rfl

/-- **The clauses seen** are those listed. -/
theorem contains_eq (h : ledger.Consistent) (c : Clause) :
    ledger.contains c = ledger.toWorkingSet.contains c := by
  rw [Bool.eq_iff_iff, WorkingSet.contains_iff]
  exact h.seen c

theorem next_new (h : ledger.Consistent) : ledger.nextId ∉ ledger.clauses.map (·.id) := by
  intro hmem
  obtain ⟨c, hc, hid⟩ := List.mem_map.1 hmem
  exact absurd (h.below c hc) (by rw [hid]; exact Int.lt_irrefl _)

/-- A number names a clause exactly if that is listed under it. -/
theorem get_eq_ok_iff (h : ledger.Consistent) {id : Int} {c : NumberedClause} :
    ledger.get id = .ok c ↔ c ∈ ledger.clauses ∧ c.id = id := by
  have hfind : ledger.get id = .ok c ↔ ledger.clauses.find? (·.id = id) = some c := by
    rw [get, h.indexed, lookup_entries]
    cases ledger.clauses.find? (·.id = id) <;> simp
  rw [hfind]
  constructor
  · intro hc
    exact ⟨List.mem_of_find?_eq_some hc, by simpa using List.find?_some hc⟩
  · rintro ⟨hc, rfl⟩
    exact WorkingSet.get?_of_distinct h.distinct hc

/-- Any other number is reported as unknown. -/
theorem get_eq_error (h : ledger.Consistent) {id : Int} (hid : ∀ c ∈ ledger.clauses, c.id ≠ id) :
    ledger.get id = .error (.unknownClause (intText id)) := by
  have hnone : ledger.clauses.find? (·.id = id) = none :=
    List.find?_eq_none.2 fun c hc => by simpa using hid c hc
  rw [get, h.indexed, lookup_entries, hnone]

/-! ### One call -/

/-- A clause that is turned away changes nothing. -/
theorem add_of_contains {c : Clause} (hc : ledger.contains c = true) :
    ledger.add c = (none, ledger) := by
  rw [add, if_pos hc]

/-- A clause that is taken gets the next number and stands behind the others. -/
theorem add_of_not_contains (h : ledger.Consistent) {c : Clause} (hc : ledger.contains c = false) :
    ledger.add c = (some (c.withId ledger.nextId),
      { toWorkingSet := ledger.toWorkingSet.join c
        index := (ledger.clauses ++ [c.withId ledger.nextId]).map entry
        seen := note ledger.seen c }) := by
  have hentered := enter_of_new (c := c.withId ledger.nextId) h.next_new
  rw [← h.indexed] at hentered
  rw [← hentered, Ledger.add, if_neg (by rw [hc]; exact Bool.false_ne_true)]
  rfl

/-- **A clause that joins** is entered, seen and numbered. -/
theorem add (h : ledger.Consistent) (c : Clause) : (ledger.add c).2.Consistent := by
  cases hc : ledger.contains c with
  | true =>
    rw [add_of_contains hc]
    exact h
  | false =>
    rw [h.add_of_not_contains hc]
    refine ⟨rfl, fun d => ?_, ?_, fun e he => ?_⟩
    · show isSeen (note ledger.seen c) d = true ↔ _
      rw [isSeen_note, h.seen]
      simp [Clause.withId, or_and_right, exists_or]
    · exact WorkingSet.distinct_join h.distinct h.below c
    · show e.id < ledger.nextId + 1
      have he : e ∈ ledger.clauses ++ [c.withId ledger.nextId] := he
      rcases List.mem_append.1 he with he | he
      · have := h.below e he
        omega
      · rw [List.mem_singleton.1 he]
        exact Int.lt_succ _

/-- Noting a pair leaves the clauses and their books. -/
theorem mark (h : ledger.Consistent) (a b : Int) :
    Consistent { ledger with toWorkingSet := ledger.toWorkingSet.markAttempted a b } where
  indexed := by simpa using h.indexed
  seen := by simpa using h.seen
  distinct := by simpa using h.distinct
  below := by simpa using h.below

/-- **One call** keeps the books in agreement. -/
theorem perform (h : ledger.Consistent) (call : WorkingSet.Call) :
    (ledger.perform call).Consistent := by
  cases call with
  | add c => exact h.add c.toClause
  | mark left right => exact h.mark left.id right.id
  | ask left right => exact h

/-- **Adding** answers and does what it does without books. -/
theorem add_eq (h : ledger.Consistent) (c : Clause) :
    ((ledger.add c).1, (ledger.add c).2.toWorkingSet) = ledger.toWorkingSet.add c := by
  cases hc : ledger.contains c with
  | true => rw [add_of_contains hc, WorkingSet.add_of_contains (h.contains_eq c ▸ hc)]
  | false => rw [h.add_of_not_contains hc, WorkingSet.add_of_not_contains (h.contains_eq c ▸ hc)]

/-- One call does to the working set what it does without books. -/
theorem perform_eq (h : ledger.Consistent) (call : WorkingSet.Call) :
    (ledger.perform call).toWorkingSet = ledger.toWorkingSet.perform call := by
  cases call with
  | add c => exact congrArg Prod.snd (h.add_eq c.toClause)
  | mark left right => rfl
  | ask left right => rfl

/-! ### Any calls -/

/-- **Any calls** keep the books in agreement. -/
theorem after (h : ledger.Consistent) (calls : List WorkingSet.Call) :
    (ledger.after calls).Consistent := by
  induction calls generalizing ledger with
  | nil => exact h
  | cons call rest ih => exact ih (h.perform call)

/-- **Books change no answer.** -/
theorem after_eq (h : ledger.Consistent) (calls : List WorkingSet.Call) :
    (ledger.after calls).toWorkingSet = ledger.toWorkingSet.after calls := by
  induction calls generalizing ledger with
  | nil => rfl
  | cons call rest ih =>
    show ((ledger.perform call).after rest).toWorkingSet = _
    rw [ih (h.perform call), h.perform_eq call]
    rfl

end Consistent

/-- **A fresh ledger** is the fresh working set, or is refused for the same reason. -/
theorem ofClauses_eq (given : List LabelledClause) :
    (ofClauses given).map Ledger.toWorkingSet = WorkingSet.ofClauses given := by
  have hentered := enterAll_eq given [] [] (by simp)
  rw [ofClauses, WorkingSet.ofClauses]
  rw [List.map_nil] at hentered
  rw [hentered]
  cases WorkingSet.checkNumbers [] given with
  | error e => rfl
  | ok numbered => simp [Except.map, entry, Function.comp_def]

/-- Given clauses that all carry different numbers are taken as they are. -/
theorem ofClauses_numbered {given : List NumberedClause} (h : (given.map (·.id)).Nodup) :
    ∃ ledger, ofClauses (given.map NumberedClause.labelled) = .ok ledger ∧
      ledger.toWorkingSet = .initial given ∧ ledger.Consistent := by
  have hentered := enterAll_eq (given.map NumberedClause.labelled) [] [] (by simp)
  rw [checkNumbers_labelled given [] h (by simp), List.map_nil] at hentered
  have hfresh := ofClauses_eq (given.map NumberedClause.labelled)
  rw [ofClauses_labelled h, ofClauses, hentered] at hfresh
  refine ⟨_, by rw [ofClauses, hentered, Except.map], Except.ok.inj hfresh, ?_, fun c => ?_, ?_, ?_⟩
  · simp [entry, Function.comp_def]
  · show isSeen (_ : List Clause) c = true ↔ _
    rw [isSeen_noteAll]
    constructor
    · rintro (h | ⟨d, hd, hs⟩)
      · cases h
      · obtain ⟨e, he, rfl⟩ : ∃ e ∈ given, e.toClause = d := by simpa [entry] using hd
        exact ⟨e, by simpa [entry] using he, hs⟩
    · rintro ⟨d, hd, hs⟩
      exact .inr ⟨d.toClause, by simpa [entry] using ⟨d, by simpa [entry] using hd, rfl⟩, hs⟩
  · simpa [entry, Function.comp_def] using h
  · intro c hc
    have hc : c ∈ given := by simpa [entry, Function.comp_def] using hc
    show c.id < WorkingSet.nextAfter _
    refine WorkingSet.lt_nextAfter ?_
    simpa [entry, Function.comp_def] using ⟨c, hc, rfl⟩

/-! ### What is answered -/

/-- What a ledger promises to answer when some calls have been made on it. -/
structure Reliable (ledger : Ledger) (calls : List WorkingSet.Call) : Prop where
  /-- Numbers are used once. -/
  distinct : (ledger.clauses.map (·.id)).Nodup
  /-- Under a number the listed clause of that number is found and nothing else. -/
  found : ∀ id c, ledger.get id = .ok c ↔ c ∈ ledger.clauses ∧ c.id = id
  /-- Any other number is reported. -/
  unknown : ∀ id, (∀ c ∈ ledger.clauses, c.id ≠ id) →
    ledger.get id = .error (.unknownClause (intText id))
  /-- The next number lies above all. -/
  below : ∀ c ∈ ledger.clauses, c.id < ledger.nextId
  /-- A clause is there if one with the same set of literals is listed. -/
  present : ∀ c, ledger.contains c = true ↔
    ∃ d ∈ ledger.clauses, ∀ l, l ∈ d.literals ↔ l ∈ c.literals
  /-- Just the clauses that are there are turned away. -/
  refused : ∀ c, (ledger.add c).1 = none ↔ ledger.contains c = true
  /-- A clause that is turned away changes nothing. -/
  unchanged : ∀ c, ledger.contains c = true → (ledger.add c).2 = ledger
  /-- Any other clause joins at the end under the next number, and neither the attempted
      pairs nor the frontier change. -/
  taken : ∀ c, ledger.contains c = false →
    (ledger.add c).1 = some (c.withId ledger.nextId) ∧
    (ledger.add c).2.clauses = ledger.clauses ++ [c.withId ledger.nextId] ∧
    (ledger.add c).2.attempted = ledger.attempted ∧
    (ledger.add c).2.frontier = ledger.frontier
  /-- A pair was attempted if a call marked it, in either order. -/
  attempted : ∀ a b, ledger.isAttempted a b = true ↔ ∃ call ∈ calls, call.Marks a b

/-- **Books that agree can be relied on.** -/
theorem Consistent.reliable {ledger : Ledger} (h : ledger.Consistent)
    {calls : List WorkingSet.Call}
    (hattempted : ∀ a b, ledger.isAttempted a b = true ↔ ∃ call ∈ calls, call.Marks a b) :
    ledger.Reliable calls where
  distinct := h.distinct
  found _ _ := h.get_eq_ok_iff
  unknown _ := h.get_eq_error
  below := h.below
  present c := by
    rw [contains, h.seen]
    simp only [Clause.same_iff]
  refused c := by
    cases hc : ledger.contains c with
    | true => simp [add_of_contains hc]
    | false => simp [h.add_of_not_contains hc]
  unchanged c hc := by rw [add_of_contains hc]
  taken c hc := by
    rw [h.add_of_not_contains hc]
    exact ⟨rfl, rfl, rfl, rfl⟩
  attempted := hattempted

end Ledger

/-! ### The main result -/

theorem exists_numbered {given : List LabelledClause} (h : ∀ c ∈ given, c.id ≠ none) :
    ∃ numbered : List NumberedClause, given = numbered.map NumberedClause.labelled := by
  induction given with
  | nil => exact ⟨[], rfl⟩
  | cons c rest ih =>
    obtain ⟨numbered, rfl⟩ := ih fun d hd => h d (List.mem_cons_of_mem _ hd)
    obtain ⟨clause, id⟩ := c
    cases id with
    | none => exact absurd rfl (h _ List.mem_cons_self)
    | some id => exact ⟨clause.withId id :: numbered, rfl⟩

/-- **The books of a working set can be relied on.** Let clauses be given, all numbered and all
    numbers different. A ledger of them can be made, and it starts with these clauses in
    their order. After any calls its index, the clauses seen, the next number and the
    attempted pairs answer as they should, and as the working set without books answers
    after the same calls. -/
theorem books_reliable {given : List LabelledClause} (hnumbered : ∀ c ∈ given, c.id ≠ none)
    (hdistinct : (given.map (·.id)).Nodup) :
    ∃ start, Ledger.ofClauses given = .ok start ∧
      WorkingSet.ofClauses given = .ok start.toWorkingSet ∧
      start.clauses.map NumberedClause.labelled = given ∧
      ∀ calls : List WorkingSet.Call,
        (start.after calls).Reliable calls ∧
        (start.after calls).toWorkingSet = start.toWorkingSet.after calls ∧
        (∀ id, (start.after calls).get id = (start.toWorkingSet.after calls).get id) ∧
        (∀ c, (start.after calls).contains c = (start.toWorkingSet.after calls).contains c) ∧
        (∀ c, ((start.after calls).add c).1 = ((start.toWorkingSet.after calls).add c).1) := by
  obtain ⟨numbered, rfl⟩ := exists_numbered hnumbered
  have hids : (numbered.map (·.id)).Nodup := by
    rw [List.map_map] at hdistinct
    have hmap : numbered.map ((·.id) ∘ NumberedClause.labelled)
        = (numbered.map (·.id)).map some := by simp [NumberedClause.labelled]
    rw [hmap] at hdistinct
    exact List.Nodup.of_map some hdistinct
  obtain ⟨start, hmade, hplain, hconsistent⟩ := Ledger.ofClauses_numbered hids
  refine ⟨start, hmade, ?_, ?_, fun calls => ?_⟩
  · rw [hplain]
    exact ofClauses_labelled hids
  · rw [hplain]
    rfl
  · have hafter := hconsistent.after calls
    have heq := hconsistent.after_eq calls
    refine ⟨hafter.reliable fun a b => ?_, heq, fun id => ?_, fun c => ?_, fun c => ?_⟩
    · rw [heq, WorkingSet.isAttempted_after, hplain]
      simp [WorkingSet.initial, WorkingSet.isAttempted]
    · rw [hafter.get_eq, heq]
    · rw [hafter.contains_eq, heq]
    · rw [← heq]
      exact congrArg Prod.fst (hafter.add_eq c)

/-- Clauses under numbers in no order, also negative ones, two of them with the same literals. -/
def scatteredClauses : List LabelledClause :=
  [{ literals := [{ name := "P" }, { name := "Q" }], id := some 7 },
    { literals := [], id := some (-3) },
    { literals := [{ name := "Q" }, { name := "P" }, { name := "Q" }], id := some 0 }]

/-- A clause that is there, one that is new, another one of the same literals, and pairs. -/
def scatteredCalls : List WorkingSet.Call :=
  [.add { literals := [{ name := "Q" }, { name := "P" }], id := some 20 },
    .mark { literals := [], id := 0 } { literals := [], id := -3 },
    .add { literals := [{ name := "R" }, { name := "R" }], id := some 7 },
    .add { literals := [{ name := "R" }] },
    .ask { literals := [], id := 7 } { literals := [], id := 0 }]

theorem books_reliable_scattered :
    (∀ c ∈ scatteredClauses, c.id ≠ none) ∧ (scatteredClauses.map (·.id)).Nodup ∧
    ∃ start, Ledger.ofClauses scatteredClauses = .ok start ∧
      (start.after scatteredCalls).clauses.map (·.id) = [7, -3, 0, 8] ∧
      (start.after scatteredCalls).Reliable scatteredCalls ∧
      (start.after scatteredCalls).isAttempted (-3) 0 = true := by
  have hnumbered : ∀ c ∈ scatteredClauses, c.id ≠ none := by decide +kernel
  have hdistinct : (scatteredClauses.map (·.id)).Nodup := by decide +kernel
  obtain ⟨start, hmade, hplain, _, hcalls⟩ := books_reliable hnumbered hdistinct
  obtain ⟨hreliable, heq, _⟩ := hcalls scatteredCalls
  refine ⟨hnumbered, hdistinct, start, hmade, ?_, hreliable, ?_⟩
  · have hstart : start.toWorkingSet = _ := (Except.ok.inj hplain).symm
    rw [heq, hstart]
    decide +kernel
  · exact (hreliable.attempted (-3) 0).2
      ⟨.mark { literals := [], id := 0 } { literals := [], id := -3 }, by decide +kernel,
        .back rfl rfl⟩

end Refuter
