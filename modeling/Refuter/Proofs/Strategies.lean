import Mathlib.Data.List.Basic
import Refuter.Proofs.Closure

/-! # Skipping old pairs changes nothing

The incremental strategy leaves out the pairs below the frontier; the exhaustive
one looks at all pairs and finds these attempted. The two cannot be told apart
from outside.

- **A pass.** Every pair below the frontier was attempted (`Kept.met`), so an
  attempt of it changes nothing, and what is left of the pairs comes in the same
  order (`Pass.run_exhaustive`).
- **A search** is the same passes (`Loop.run_exhaustive`).
- **A session** is any sequence of passes, runs, endings, clauses added from
  outside and changes of the cap. Each of them keeps the books, also where a pass
  was cut short, so the two strategies write the same transcript.
-/

namespace Refuter

/-! ### Passes -/

namespace Pass

variable {loop : Loop} {p : Pass}

/-- Attempting attempted pairs changes nothing. -/
theorem attemptAll_skip (hv : p.verdict = none) {old : List (NumberedClause × NumberedClause)}
    (hold : ∀ pair ∈ old, p.derivation.working.isAttempted pair.1.id pair.2.id = true)
    (pairs : List (NumberedClause × NumberedClause)) :
    p.attemptAll loop (old ++ pairs) = p.attemptAll loop pairs := by
  induction old with
  | nil => rfl
  | cons pair rest ih =>
    obtain ⟨left, right⟩ := pair
    have hsame : p.attempt loop left right = p :=
      attempt_of_attempted (hold _ (List.mem_cons_self ..))
    have hrest := ih fun pair hpair => hold pair (List.mem_cons_of_mem _ hpair)
    simp only [List.cons_append, attemptAll, hsame, hv]
    exact hrest

/-- Two lists of pairs in a row: the second is attempted unless the first
    decides. -/
theorem attemptAll_append (hv : p.verdict = none)
    (first second : List (NumberedClause × NumberedClause)) :
    p.attemptAll loop (first ++ second) = match (p.attemptAll loop first).verdict with
      | some _ => p.attemptAll loop first
      | none => (p.attemptAll loop first).attemptAll loop second := by
  induction first generalizing p with
  | nil => simp [attemptAll, hv]
  | cons pair rest ih =>
    obtain ⟨left, right⟩ := pair
    simp only [List.cons_append, attemptAll]
    cases hverdict : (p.attempt loop left right).verdict with
    | some o => simp only [hverdict]
    | none => exact ih hverdict

/-- Attempts never forget an attempted pair. -/
theorem isAttempted_attemptAll_mono (hv : p.verdict = none)
    (pairs : List (NumberedClause × NumberedClause)) {a b : Int}
    (h : p.derivation.working.isAttempted a b = true) :
    (p.attemptAll loop pairs).derivation.working.isAttempted a b = true :=
  attemptAll_keeps (I := fun q => q.derivation.working.isAttempted a b = true)
    (fun _ hq _ pair _ => isAttempted_attempt loop pair.1 pair.2 hq) h hv

/-- **Rows of pairs:** attempted pairs in front of every row may be left out. -/
theorem attemptAll_rows {ι : Type} (old due : ι → List (NumberedClause × NumberedClause))
    (rows : List ι) (hv : p.verdict = none)
    (hold : ∀ row ∈ rows, ∀ pair ∈ old row,
      p.derivation.working.isAttempted pair.1.id pair.2.id = true) :
    p.attemptAll loop (rows.flatMap fun row => old row ++ due row)
      = p.attemptAll loop (rows.flatMap due) := by
  induction rows generalizing p with
  | nil => rfl
  | cons row rest ih =>
    rw [List.flatMap_cons, List.flatMap_cons, List.append_assoc,
      attemptAll_skip hv (hold row (List.mem_cons_self ..)), attemptAll_append hv,
      attemptAll_append hv]
    -- the row is attempted alike; what was attempted before stays so for the rest
    cases hverdict : (p.attemptAll loop (due row)).verdict with
    | some o => rfl
    | none =>
      refine ih hverdict fun row' hrow pair hpair => ?_
      exact isAttempted_attemptAll_mono hv _
        (hold row' (List.mem_cons_of_mem _ hrow) pair hpair)

/-- The cap is all that an attempt asks of its loop. -/
theorem attemptAll_strategy (s t : Strategy) (cap : Option Nat) (p : Pass)
    (pairs : List (NumberedClause × NumberedClause)) :
    p.attemptAll ⟨s, cap⟩ pairs = p.attemptAll ⟨t, cap⟩ pairs := by
  induction pairs generalizing p with
  | nil => rfl
  | cons pair rest ih =>
    obtain ⟨left, right⟩ := pair
    have hattempt : p.attempt ⟨s, cap⟩ left right = p.attempt ⟨t, cap⟩ left right := rfl
    simp only [attemptAll, hattempt, ih]

/-- **The books let the old pairs be skipped:** both strategies make the same
    pass. -/
theorem run_exhaustive {d : Derivation} (h : d.working.Kept) (cap : Option Nat) :
    Pass.run ⟨.exhaustive, cap⟩ d = Pass.run ⟨.incremental, cap⟩ d := by
  -- of the pairs of one clause, those with a partner below the frontier come first
  let old : NumberedClause × Nat → List (NumberedClause × NumberedClause) := fun row =>
    ((d.working.clauses.drop (row.2 + 1)).take (d.working.frontier - (row.2 + 1))).map (row.1, ·)
  let due : NumberedClause × Nat → List (NumberedClause × NumberedClause) := fun row =>
    (d.working.clauses.drop (max (row.2 + 1) d.working.frontier)).map (row.1, ·)
  have hrows : pairsFrom 0 d.working.clauses
      = d.working.clauses.zipIdx.flatMap fun row => old row ++ due row := by
    refine List.flatMap_congr fun row _ => ?_
    obtain ⟨left, i⟩ := row
    have hend : i + 1 + (d.working.frontier - (i + 1)) = max (i + 1) d.working.frontier := by
      omega
    have hcut := List.take_append_drop (d.working.frontier - (i + 1))
      (d.working.clauses.drop (i + 1))
    rw [List.drop_drop, hend] at hcut
    simp only [old, due, ← List.map_append, hcut, Nat.max_zero]
  have hold : ∀ row ∈ d.working.clauses.zipIdx, ∀ pair ∈ old row,
      d.working.isAttempted pair.1.id pair.2.id = true := by
    intro row hrow pair hpair
    obtain ⟨left, i⟩ := row
    obtain ⟨right, hright, rfl⟩ := List.mem_map.1 hpair
    obtain ⟨k, hk⟩ := List.getElem?_of_mem hright
    rw [List.getElem?_take, List.getElem?_drop] at hk
    dsimp only at hk
    have hlt : k < d.working.frontier - (i + 1) := by
      by_contra hge
      rw [if_neg hge] at hk
      cases hk
    rw [if_pos hlt] at hk
    refine h.met left right ⟨i, i + 1 + k, by omega, ?_, ?_⟩
    · rw [List.getElem?_take_of_lt (by omega)]
      exact List.mem_zipIdx_iff_getElem?.1 hrow
    · rw [List.getElem?_take_of_lt (by omega)]
      exact hk
  have hattempts : attemptAll ⟨.exhaustive, cap⟩ { derivation := d } (pairsFrom 0 d.working.clauses)
      = attemptAll ⟨.incremental, cap⟩ { derivation := d }
        (pairsFrom d.working.frontier d.working.clauses) := by
    rw [hrows, attemptAll_rows old due _ rfl hold]
    exact attemptAll_strategy _ _ _ _ _
  exact congrArg (complete d.working.size) hattempts

end Pass

/-! ### Searches -/

/-- The same passes decide. -/
theorem Decides.exhaustive {cap : Option Nat} {d : Derivation} {n : Nat} {p : Pass}
    (h : Decides ⟨.incremental, cap⟩ d n p) (hd : d.working.Kept) :
    Decides ⟨.exhaustive, cap⟩ d n p := by
  induction h with
  | @last d o hv =>
    rw [← Pass.run_exhaustive hd cap] at hv ⊢
    exact .last hv
  | @next d n p hv rest ih =>
    have hrest := ih (Pass.kept_run _ hd)
    rw [← Pass.run_exhaustive hd cap] at hv hrest
    exact .next hv hrest

/-- A search keeps the books, whether or not it can be finished. -/
theorem kept_saturate (loop : Loop) {d : Derivation} (h : d.working.Kept) :
    (saturate loop d).derivation.working.Kept := by
  obtain ⟨p, hdec, _, hder⟩ := saturate_decides loop d
  rw [hder]
  exact hdec.keeps (I := fun e => e.working.Kept) (fun _ he => Pass.kept_run loop he) h

theorem saturate_exhaustive {d : Derivation} (h : d.working.Kept) (cap : Option Nat) :
    (saturate ⟨.exhaustive, cap⟩ d).derivation = (saturate ⟨.incremental, cap⟩ d).derivation ∧
      (saturate ⟨.exhaustive, cap⟩ d).outcome = (saturate ⟨.incremental, cap⟩ d).outcome := by
  obtain ⟨p, hdec, hv, hder⟩ := saturate_decides ⟨.incremental, cap⟩ d
  obtain ⟨q, hdec', hv', hder'⟩ := saturate_decides ⟨.exhaustive, cap⟩ d
  obtain rfl := (hdec.exhaustive h).unique hdec'
  rw [hv] at hv'
  exact ⟨by rw [hder, hder'], (Option.some.inj hv').symm⟩

/-- An ending enters the outcome or is refused; what was told on the way does not
    matter. -/
theorem Run.ending_events (d : Derivation) (o : Outcome) (events events' : List PassEvent) :
    (Run.ending d o events).derivation = (Run.ending d o events').derivation ∧
      (Run.ending d o events).result = (Run.ending d o events').result := by
  unfold Run.ending
  split
  · exact ⟨rfl, rfl⟩
  · exact ⟨rfl, rfl⟩

theorem Run.working_ending (d : Derivation) (o : Outcome) (events : List PassEvent) :
    (Run.ending d o events).derivation.working = d.working := by
  unfold Run.ending Derivation.finish
  cases d.outcome with
  | none => rfl
  | some _ => rfl

/-- **Both strategies make the same run,** also of a derivation that is finished
    already and cannot be finished again. -/
theorem Loop.run_exhaustive {d : Derivation} (h : d.working.Kept) (cap : Option Nat) :
    (Loop.run ⟨.exhaustive, cap⟩ d).derivation = (Loop.run ⟨.incremental, cap⟩ d).derivation ∧
      (Loop.run ⟨.exhaustive, cap⟩ d).result = (Loop.run ⟨.incremental, cap⟩ d).result := by
  obtain ⟨hder, hout⟩ := saturate_exhaustive h cap
  unfold Loop.run
  split
  · exact ⟨rfl, rfl⟩
  · simp only [hder, hout]
    exact Run.ending_events _ _ _ _

/-- **A run keeps the books.** -/
theorem Loop.kept_run (loop : Loop) {d : Derivation} (h : d.working.Kept) :
    (loop.run d).derivation.working.Kept := by
  unfold Loop.run
  split
  · rw [Run.working_ending]
    exact h
  · rw [Run.working_ending]
    exact kept_saturate loop h

/-! ### Sessions -/

/-- What can be done to a search from outside. -/
inductive Operation where
  /-- One pass. -/
  | pass
  /-- Passes to the end. -/
  | run
  /-- An outcome is entered. -/
  | finish (outcome : Outcome)
  /-- A clause is added. -/
  | add (clause : Clause)
  /-- The cap is set or lifted. -/
  | setCap (cap : Option Int)

/-- What an operation answers. -/
inductive Reply where
  /-- The verdict of a pass, if it has one. -/
  | verdict (outcome : Option Outcome)
  /-- The outcome entered, or why it was refused. -/
  | ended (result : Except Error Outcome)
  /-- The clause as it joined, unless it was turned away. -/
  | joined (clause : Option NumberedClause)
  /-- The new cap, or why it was refused. -/
  | capped (result : Except Error (Option Nat))

/-- A loop at work on a derivation. -/
structure Session where
  /-- The loop. -/
  loop : Loop
  /-- The derivation it extends. -/
  derivation : Derivation

namespace Session

/-- One operation: its reply, and the session behind it. -/
def perform (s : Session) : Operation → Reply × Session
  | .pass =>
    let p := Pass.run s.loop s.derivation
    (.verdict p.verdict, { s with derivation := p.derivation })
  | .run =>
    let r := s.loop.run s.derivation
    (.ended r.result, { s with derivation := r.derivation })
  | .finish outcome =>
    match s.derivation.finish outcome with
    | .ok derivation => (.ended (.ok outcome), { s with derivation })
    | .error e => (.ended (.error e), s)
  | .add clause =>
    let (joined, working) := s.derivation.working.add clause
    (.joined joined, { s with derivation := { s.derivation with working } })
  | .setCap cap =>
    match s.loop.setCap cap with
    | .ok loop => (.capped (.ok loop.cap), { s with loop })
    | .error e => (.capped (.error e), s)

/-- Every reply of a session, with the cap and the whole derivation behind it. -/
def transcript (s : Session) : List Operation → List (Reply × Option Nat × Derivation)
  | [] => []
  | op :: ops =>
    let (reply, t) := s.perform op
    (reply, t.loop.cap, t.derivation) :: t.transcript ops

/-- The session after operations, one after the other. -/
def after (s : Session) (ops : List Operation) : Session :=
  ops.foldl (fun s op => (s.perform op).2) s

/-- **One operation** keeps the books, also where it is refused. -/
theorem kept_perform {s : Session} (h : s.derivation.working.Kept) (op : Operation) :
    (s.perform op).2.derivation.working.Kept := by
  cases op with
  | pass => exact Pass.kept_run s.loop h
  | run => exact Loop.kept_run s.loop h
  | finish outcome =>
    simp only [perform, Derivation.finish]
    cases s.derivation.outcome with
    | none => exact h
    | some _ => exact h
  | add clause => exact h.add clause
  | setCap value =>
    simp only [perform, Loop.setCap]
    cases Loop.checkCap value with
    | error e => exact h
    | ok cap => exact h

/-- **Any sequence of operations** keeps the books. -/
theorem kept_after (ops : List Operation) :
    ∀ {s : Session}, s.derivation.working.Kept → (s.after ops).derivation.working.Kept := by
  induction ops with
  | nil =>
    intro s h
    exact h
  | cons op rest ih =>
    intro s h
    exact ih (kept_perform h op)

/-- Two sessions that differ in the strategy only, and whose books are kept. -/
structure Alike (s t : Session) : Prop where
  /-- One scans new pairs only. -/
  incremental : s.loop.strategy = .incremental
  /-- The other scans all. -/
  exhaustive : t.loop.strategy = .exhaustive
  /-- The cap is one. -/
  cap : t.loop.cap = s.loop.cap
  /-- The derivation is one. -/
  derivation : t.derivation = s.derivation
  /-- What the frontier promises holds. -/
  kept : s.derivation.working.Kept

/-- **One operation** gets the same reply and leaves the sessions alike. -/
theorem Alike.perform {s t : Session} (h : Alike s t) (op : Operation) :
    (t.perform op).1 = (s.perform op).1 ∧ Alike (s.perform op).2 (t.perform op).2 := by
  obtain ⟨⟨strategy, cap⟩, d⟩ := s
  obtain ⟨⟨strategy', cap'⟩, d'⟩ := t
  obtain ⟨hinc, hexh, hcap, hder, hkept⟩ := h
  dsimp only at hinc hexh hcap hder hkept
  subst hinc hexh hcap hder
  cases op with
  | pass =>
    have hrun := Pass.run_exhaustive hkept cap'
    refine ⟨?_, rfl, rfl, rfl, congrArg Pass.derivation hrun, kept_perform hkept .pass⟩
    simp only [Session.perform, hrun]
  | run =>
    obtain ⟨hderivation, hresult⟩ := Loop.run_exhaustive hkept cap'
    exact ⟨congrArg Reply.ended hresult, rfl, rfl, rfl, hderivation, kept_perform hkept .run⟩
  | finish outcome =>
    simp only [Session.perform, Derivation.finish]
    cases d'.outcome with
    | none => exact ⟨rfl, rfl, rfl, rfl, rfl, hkept⟩
    | some _ => exact ⟨rfl, rfl, rfl, rfl, rfl, hkept⟩
  | add clause => exact ⟨rfl, rfl, rfl, rfl, rfl, hkept.add clause⟩
  | setCap value =>
    simp only [Session.perform, Loop.setCap]
    cases Loop.checkCap value with
    | error e => exact ⟨rfl, rfl, rfl, rfl, rfl, hkept⟩
    | ok cap => exact ⟨rfl, rfl, rfl, rfl, rfl, hkept⟩

/-- **Any sequence of operations** gets the same transcript. -/
theorem Alike.transcript {s t : Session} (h : Alike s t) (ops : List Operation) :
    t.transcript ops = s.transcript ops := by
  induction ops generalizing s t with
  | nil => rfl
  | cons op rest ih =>
    obtain ⟨hreply, halike⟩ := h.perform op
    simp only [Session.transcript, hreply, halike.cap, halike.derivation, ih halike]

end Session

/-! ### The main result -/

/-- **The strategies cannot be told apart.** On a fresh derivation from clauses
    with different numbers, in whatever order, every sequence of passes, runs,
    endings, added clauses and changes of the cap gets the same replies from both,
    and leaves the same derivation after each operation: clauses, next number,
    frontier, attempted pairs, steps with their unifiers, outcome, passes and
    trace. -/
theorem transcript_strategies {clauses : List NumberedClause}
    (hids : (clauses.map (·.id)).Nodup) (query : Option String)
    (negatedQuery : Option NumberedClause) (cap : Option Nat) (ops : List Operation) :
    ∃ working, WorkingSet.ofClauses (clauses.map NumberedClause.labelled) = .ok working ∧
      Session.transcript ⟨⟨.exhaustive, cap⟩, { working, query, negatedQuery }⟩ ops
        = Session.transcript ⟨⟨.incremental, cap⟩, { working, query, negatedQuery }⟩ ops := by
  refine ⟨.initial clauses, ofClauses_labelled hids, Session.Alike.transcript ?_ ops⟩
  exact ⟨rfl, rfl, rfl, rfl, WorkingSet.kept_initial hids⟩

/-- Three clauses whose numbers do not ascend; the first two resolve in both
    polarities. -/
def unorderedClauses : List NumberedClause :=
  [{ literals := [{ name := "P", args := [.var "x"] }, { name := "Q" }], id := 7 },
   { literals := [{ name := "P", args := [.const "A"], negated := true }], id := -2 },
   { literals := [{ name := "Q", negated := true }, { name := "R" }], id := 3 }]

theorem transcript_strategies_unordered :
    (unorderedClauses.map (·.id)).Nodup ∧
    ∃ working, WorkingSet.ofClauses (unorderedClauses.map NumberedClause.labelled) = .ok working ∧
      let ops : List Operation :=
        [.setCap (some 1), .pass, .setCap none, .add ⟨[{ name := "R", negated := true }]⟩, .pass,
          .finish .saturated, .run]
      Session.transcript ⟨⟨.exhaustive, none⟩, { working }⟩ ops
        = Session.transcript ⟨⟨.incremental, none⟩, { working }⟩ ops :=
  ⟨by decide, transcript_strategies (by decide) none none none _⟩

end Refuter
