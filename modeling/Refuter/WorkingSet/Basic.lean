import Refuter.Error

/-! # Working sets

The clauses of one search in the order in which they joined, with what has
been tried so far: which pairs were attempted, and up to which position every
clause has met all clauses before it (the *frontier*).

A clause joins once: a clause with the same literals as a present one is
turned away. A new clause gets the next free number.
-/

namespace Refuter

/-- The clauses of one search. -/
structure WorkingSet where
  /-- The clauses in order of joining. -/
  clauses : List NumberedClause := []
  /-- The number of the next clause. -/
  nextId : Int := 1
  /-- The pairs attempted, smaller number first, last pair first. -/
  attempted : List (Int × Int) := []
  /-- Position of the first clause that has not yet met those before it. -/
  frontier : Nat := 0
  deriving Repr, DecidableEq, Inhabited

namespace WorkingSet

/-- The number of clauses. -/
def size (ws : WorkingSet) : Nat :=
  ws.clauses.length

/-- Is a clause with the same literals present? -/
def contains (ws : WorkingSet) (c : Clause) : Bool :=
  ws.clauses.any fun d => d.toClause.same c

/-- The clause of a number. -/
def get? (ws : WorkingSet) (id : Int) : Option NumberedClause :=
  ws.clauses.find? (·.id = id)

/-- The clause of a number, which must be there. -/
def get (ws : WorkingSet) (id : Int) : Except Error NumberedClause :=
  match ws.get? id with
  | some c => .ok c
  | none => .error (.unknownClause (intText id))

/-- Is the contradiction present? -/
def hasEmpty (ws : WorkingSet) : Bool :=
  ws.clauses.any fun c => c.toClause.isEmpty

/-! ### Making a working set -/

/-- The number behind all given ones; one for an empty list. -/
def nextAfter : List Int → Int
  | [] => 1
  | id :: ids => ids.foldl max id + 1

/-- Checks that every clause has a number of its own. -/
def checkNumbers (seen : List Int) : List LabelledClause → Except Error (List NumberedClause)
  | [] => .ok []
  | c :: rest =>
    match c.id with
    | none => .error (.unnumbered c.toClause.text)
    | some id =>
      if id ∈ seen then .error (.duplicateNumber (intText id))
      else match checkNumbers (id :: seen) rest with
        | .error e => .error e
        | .ok numbered => .ok (c.toClause.withId id :: numbered)

/-- The working set of clauses that all carry different numbers. -/
def ofClauses (clauses : List LabelledClause) : Except Error WorkingSet :=
  match checkNumbers [] clauses with
  | .error e => .error e
  | .ok numbered => .ok { clauses := numbered, nextId := nextAfter (numbered.map (·.id)) }

/-! ### Operations -/

/-- Adds a clause under the next number, unless the same clause is present. -/
def add (ws : WorkingSet) (c : Clause) : Option NumberedClause × WorkingSet :=
  if ws.contains c then (none, ws)
  else
    let numbered := c.withId ws.nextId
    (some numbered, { ws with clauses := ws.clauses ++ [numbered], nextId := ws.nextId + 1 })

/-- The key of a pair, whichever clause comes first. -/
def pairKey (left right : Int) : Int × Int :=
  (min left right, max left right)

/-- Was the pair attempted, in either order? -/
def isAttempted (ws : WorkingSet) (left right : Int) : Bool :=
  ws.attempted.contains (pairKey left right)

/-- Notes that a pair was attempted. -/
def markAttempted (ws : WorkingSet) (left right : Int) : WorkingSet :=
  if ws.isAttempted left right then ws
  else { ws with attempted := pairKey left right :: ws.attempted }

/-! ### Membership -/

theorem contains_iff {ws : WorkingSet} {c : Clause} :
    ws.contains c = true ↔ ∃ d ∈ ws.clauses, d.toClause.same c = true := by
  simp [contains]

/-- Membership does not depend on order and repetition of literals. -/
theorem contains_congr {ws : WorkingSet} {c d : Clause} (h : c.same d = true) :
    ws.contains c = ws.contains d := by
  rw [Bool.eq_iff_iff, contains_iff, contains_iff]
  exact ⟨fun ⟨e, he, hs⟩ => ⟨e, he, Clause.same_trans hs h⟩,
    fun ⟨e, he, hs⟩ => ⟨e, he, Clause.same_trans hs (Clause.same_symm h)⟩⟩

@[simp] theorem clauses_markAttempted (ws : WorkingSet) (left right : Int) :
    (ws.markAttempted left right).clauses = ws.clauses := by
  unfold markAttempted
  split <;> rfl

/-- **Adding:** a clause that is turned away was present and changes nothing. -/
theorem add_eq_none {ws ws' : WorkingSet} {c : Clause} (h : ws.add c = (none, ws')) :
    ws.contains c = true ∧ ws' = ws := by
  unfold add at h
  split at h
  · exact ⟨by assumption, by simpa using h.symm⟩
  · simp at h

/-- **Adding:** a clause that is taken was not present and goes to the end. -/
theorem add_eq_some {ws ws' : WorkingSet} {c : Clause} {n : NumberedClause}
    (h : ws.add c = (some n, ws')) :
    ws.contains c = false ∧ n = c.withId ws.nextId ∧ ws'.clauses = ws.clauses ++ [n] := by
  unfold add at h
  split at h
  · simp at h
  · rename_i hc
    simp only [Prod.mk.injEq, Option.some.injEq] at h
    obtain ⟨rfl, rfl⟩ := h
    exact ⟨by simpa using hc, rfl, rfl⟩

end WorkingSet

end Refuter
