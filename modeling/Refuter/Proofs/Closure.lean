import Refuter.Proofs.Search

/-! # A saturated set is closed

The frontier and the list of attempted pairs are promises about the past:

- every pair below the frontier was attempted (`met`);
- every attempted pair has been answered: it has no resolvent, or one that is
  present (`answered`).

`Kept` collects these with what they need of the numbers. Joining a clause and
marking an answered pair keep it (`Kept.join`, `Kept.mark`), hence attempts and
passes do.

**Key result.** A pass that ends with `saturated` leaves every pair attempted,
so the set is closed under the rule (`Loop.closed_of_saturated`).
-/

namespace Refuter

/-! ### Order of joining -/

/-- The first clause stands before the second in the list. -/
def Before (clauses : List NumberedClause) (c d : NumberedClause) : Prop :=
  ∃ i j : Nat, i < j ∧ clauses[i]? = some c ∧ clauses[j]? = some d

namespace Before

variable {clauses : List NumberedClause} {c d : NumberedClause}

theorem left_mem (h : Before clauses c d) : c ∈ clauses := by
  obtain ⟨i, _, _, hc, _⟩ := h
  exact List.mem_of_getElem? hc

theorem right_mem (h : Before clauses c d) : d ∈ clauses := by
  obtain ⟨_, j, _, _, hd⟩ := h
  exact List.mem_of_getElem? hd

/-- What comes later does not disturb the order. -/
theorem mono {more : List NumberedClause} (hpre : clauses <+: more)
    (h : Before clauses c d) : Before more c d := by
  obtain ⟨i, j, hij, hc, hd⟩ := h
  obtain ⟨rest, rfl⟩ := hpre
  refine ⟨i, j, hij, ?_, ?_⟩
  · exact List.getElem?_append_left (List.getElem?_eq_some_iff.1 hc).1 ▸ hc
  · exact List.getElem?_append_left (List.getElem?_eq_some_iff.1 hd).1 ▸ hd

/-- Behind a new last clause the order is as it was, and everything stands
    before the new one. -/
theorem of_append_singleton {e : NumberedClause} (h : Before (clauses ++ [e]) c d) :
    Before clauses c d ∨ c ∈ clauses ∧ d = e := by
  obtain ⟨i, j, hij, hc, hd⟩ := h
  have hj : j < clauses.length + 1 := by
    have := (List.getElem?_eq_some_iff.1 hd).1
    simpa using this
  have hi : i < clauses.length := by omega
  rw [List.getElem?_append_left hi] at hc
  by_cases hlt : j < clauses.length
  · rw [List.getElem?_append_left hlt] at hd
    exact .inl ⟨i, j, hij, hc, hd⟩
  · obtain rfl : j = clauses.length := by omega
    refine .inr ⟨List.mem_of_getElem? hc, ?_⟩
    simpa using hd.symm

/-- Two different clauses of a list stand in one order or the other. -/
theorem of_mem_of_ne (hc : c ∈ clauses) (hd : d ∈ clauses) (hne : c ≠ d) :
    Before clauses c d ∨ Before clauses d c := by
  obtain ⟨i, hi⟩ := List.getElem?_of_mem hc
  obtain ⟨j, hj⟩ := List.getElem?_of_mem hd
  rcases Nat.lt_trichotomy i j with hij | rfl | hij
  · exact .inl ⟨i, j, hij, hi, hj⟩
  · rw [hi] at hj
    exact absurd (Option.some.inj hj) hne
  · exact .inr ⟨j, i, hij, hj, hi⟩

end Before

theorem mem_pairsFrom_iff {frontier : Nat} {clauses : List NumberedClause}
    {c d : NumberedClause} :
    (c, d) ∈ pairsFrom frontier clauses ↔
      ∃ i j : Nat, i < j ∧ frontier ≤ j ∧ clauses[i]? = some c ∧ clauses[j]? = some d := by
  simp only [pairsFrom, List.mem_flatMap, List.mem_map, Prod.mk.injEq, Prod.exists]
  constructor
  · rintro ⟨left, i, hi, right, hright, rfl, rfl⟩
    obtain ⟨k, hk⟩ := List.getElem?_of_mem hright
    rw [List.getElem?_drop] at hk
    exact ⟨i, _, by omega, by omega, List.mem_zipIdx_iff_getElem?.1 hi, hk⟩
  · rintro ⟨i, j, hij, hf, hc, hd⟩
    refine ⟨c, i, List.mem_zipIdx_iff_getElem?.2 hc, d, ?_, rfl, rfl⟩
    refine List.mem_of_getElem? (i := j - max (i + 1) frontier) ?_
    rw [List.getElem?_drop]
    have hj : max (i + 1) frontier + (j - max (i + 1) frontier) = j := by omega
    rw [hj]
    exact hd

/-- The pairs of a pass are in order. -/
theorem before_of_mem_pairs {strategy : Strategy} {ws : WorkingSet} {c d : NumberedClause}
    (h : (c, d) ∈ strategy.pairs ws) : Before ws.clauses c d := by
  cases strategy <;>
  · obtain ⟨i, j, hij, _, hc, hd⟩ := mem_pairsFrom_iff.1 h
    exact ⟨i, j, hij, hc, hd⟩

/-- **Every pair is old or due:** it lies below the frontier, or the coming pass
    looks at it. -/
theorem Before.old_or_due {ws : WorkingSet} {c d : NumberedClause} (strategy : Strategy)
    (h : Before ws.clauses c d) :
    Before (ws.clauses.take ws.frontier) c d ∨ (c, d) ∈ strategy.pairs ws := by
  obtain ⟨i, j, hij, hc, hd⟩ := h
  cases strategy with
  | exhaustive => exact .inr (mem_pairsFrom_iff.2 ⟨i, j, hij, Nat.zero_le _, hc, hd⟩)
  | incremental =>
    by_cases hj : ws.frontier ≤ j
    · exact .inr (mem_pairsFrom_iff.2 ⟨i, j, hij, hj, hc, hd⟩)
    · refine .inl ⟨i, j, hij, ?_, ?_⟩
      · rw [List.getElem?_take_of_lt (by omega)]
        exact hc
      · rw [List.getElem?_take_of_lt (by omega)]
        exact hd

/-! ### Keys -/

theorem pairKey_eq_iff {a b a' b' : Int} :
    WorkingSet.pairKey a b = WorkingSet.pairKey a' b' ↔
      a = a' ∧ b = b' ∨ a = b' ∧ b = a' := by
  simp only [WorkingSet.pairKey, Prod.mk.injEq]
  omega

theorem eq_of_id_eq {clauses : List NumberedClause} (h : (clauses.map (·.id)).Nodup) {i j : Nat}
    {c d : NumberedClause} (hc : clauses[i]? = some c) (hd : clauses[j]? = some d)
    (hid : c.id = d.id) : i = j := by
  have hi : i < (clauses.map (·.id)).length := by
    rw [List.length_map]
    exact (List.getElem?_eq_some_iff.1 hc).1
  refine (List.getElem?_inj hi h).1 ?_
  rw [List.getElem?_map, List.getElem?_map, hc, hd, Option.map_some, Option.map_some, hid]

/-- **A key names one pair** of clauses, in one order. -/
theorem Before.eq_of_pairKey_eq {clauses : List NumberedClause}
    (hids : (clauses.map (·.id)).Nodup) {c d c' d' : NumberedClause} (h : Before clauses c d)
    (h' : Before clauses c' d')
    (hkey : WorkingSet.pairKey c.id d.id = WorkingSet.pairKey c'.id d'.id) : c = c' ∧ d = d' := by
  obtain ⟨i, j, hij, hc, hd⟩ := h
  obtain ⟨i', j', hij', hc', hd'⟩ := h'
  rcases pairKey_eq_iff.1 hkey with ⟨h₁, h₂⟩ | ⟨h₁, h₂⟩
  · obtain rfl := eq_of_id_eq hids hc hc' h₁
    obtain rfl := eq_of_id_eq hids hd hd' h₂
    rw [hc] at hc'
    rw [hd] at hd'
    exact ⟨Option.some.inj hc', Option.some.inj hd'⟩
  · -- the two orders contradict each other
    have := eq_of_id_eq hids hc hd' h₁
    have := eq_of_id_eq hids hd hc' h₂
    omega

/-! ### The books of a working set -/

namespace WorkingSet

/-- The pair has no resolvent, or one that is present. -/
def Answers (ws : WorkingSet) (c d : NumberedClause) : Prop :=
  ∀ r, resolve c.toClause d.toClause = some r → ws.contains r.clause = true

/-- What the numbers, the attempted pairs and the frontier promise. -/
structure Kept (ws : WorkingSet) : Prop where
  /-- Numbers are used once. -/
  distinct : (ws.clauses.map (·.id)).Nodup
  /-- The next number is the first above all. -/
  next : ws.nextId = nextAfter (ws.clauses.map (·.id))
  /-- The frontier lies inside. -/
  inside : ws.frontier ≤ ws.clauses.length
  /-- No pair is noted twice. -/
  once : ws.attempted.Nodup
  /-- Attempted pairs are pairs of clauses. -/
  known : ∀ key ∈ ws.attempted, ∃ c d, Before ws.clauses c d ∧ key = pairKey c.id d.id
  /-- Pairs below the frontier were attempted. -/
  met : ∀ c d, Before (ws.clauses.take ws.frontier) c d → ws.isAttempted c.id d.id = true
  /-- Attempted pairs are answered. -/
  answered : ∀ c d, Before ws.clauses c d → ws.isAttempted c.id d.id = true → ws.Answers c d

theorem lt_nextAfter : ∀ {ids : List Int} {id : Int}, id ∈ ids → id < nextAfter ids := by
  -- the running maximum is above its start and above every number it meets
  have fold : ∀ (ids : List Int) (start : Int),
      start ≤ ids.foldl max start ∧ ∀ id ∈ ids, id ≤ ids.foldl max start := by
    intro ids
    induction ids with
    | nil => intro start; simp
    | cons a rest ih =>
      intro start
      obtain ⟨hstart, hrest⟩ := ih (max start a)
      rw [List.foldl_cons]
      refine ⟨by omega, ?_⟩
      intro id hid
      rcases List.mem_cons.1 hid with rfl | hid
      · omega
      · exact hrest id hid
  intro ids id hid
  cases ids with
  | nil => cases hid
  | cons a rest =>
    obtain ⟨hstart, hrest⟩ := fold rest a
    simp only [nextAfter]
    rcases List.mem_cons.1 hid with rfl | hid
    · omega
    · have := hrest id hid
      omega

/-- Once the next number is used, the one behind it is next. -/
theorem nextAfter_concat (ids : List Int) :
    nextAfter (ids ++ [nextAfter ids]) = nextAfter ids + 1 := by
  cases ids with
  | nil => rfl
  | cons a rest =>
    simp only [nextAfter, List.cons_append, List.foldl_append, List.foldl_cons, List.foldl_nil]
    omega

/-- The next number is above all. -/
theorem Kept.below {ws : WorkingSet} (h : ws.Kept) {c : NumberedClause} (hc : c ∈ ws.clauses) :
    c.id < ws.nextId := by
  rw [h.next]
  exact lt_nextAfter (List.mem_map_of_mem hc)

/-- **A number names one clause,** as long as numbers are used once. -/
theorem get?_of_distinct {ws : WorkingSet} (h : (ws.clauses.map (·.id)).Nodup)
    {c : NumberedClause} (hc : c ∈ ws.clauses) : ws.get? c.id = some c := by
  unfold get?
  cases hfind : ws.clauses.find? (·.id = c.id) with
  | none =>
    have hnot := List.find?_eq_none.1 hfind c hc
    simp at hnot
  | some d =>
    have hid : d.id = c.id := by simpa using List.find?_some hfind
    obtain ⟨i, hi⟩ := List.getElem?_of_mem (List.mem_of_find?_eq_some hfind)
    obtain ⟨j, hj⟩ := List.getElem?_of_mem hc
    obtain rfl := eq_of_id_eq h hi hj hid
    rw [← hi, hj]

theorem Kept.get?_eq {ws : WorkingSet} (h : ws.Kept) {c : NumberedClause} (hc : c ∈ ws.clauses) :
    ws.get? c.id = some c :=
  get?_of_distinct h.distinct hc

/-- The next number is new, so it can be used. -/
theorem distinct_join {ws : WorkingSet} (h : (ws.clauses.map (·.id)).Nodup)
    (hbelow : ∀ c ∈ ws.clauses, c.id < ws.nextId) (c : Clause) :
    ((ws.join c).clauses.map (·.id)).Nodup := by
  have hnew : ∀ e ∈ ws.clauses, e.id ≠ ws.nextId := by
    intro e he
    have := hbelow e he
    omega
  simp only [clauses_join, List.map_append, List.map_cons, List.map_nil]
  refine List.nodup_append.2 ⟨h, by simp, ?_⟩
  intro a ha b hb
  obtain ⟨e, he, rfl⟩ := List.mem_map.1 ha
  rw [List.mem_singleton] at hb
  rw [hb]
  exact hnew e he

/-- A fresh working set has promised nothing yet. -/
theorem kept_initial {clauses : List NumberedClause} (h : (clauses.map (·.id)).Nodup) :
    (initial clauses).Kept where
  distinct := h
  next := rfl
  inside := Nat.zero_le _
  once := List.nodup_nil
  known := fun _ hkey => nomatch hkey
  met := by
    rintro c d ⟨i, j, _, hc, _⟩
    simp [initial] at hc
  answered := by
    intro c d _ hatt
    simp [initial, isAttempted] at hatt

/-- **Joining** a clause keeps the books: its number is new, so none of its
    pairs counts as attempted. -/
theorem Kept.join {ws : WorkingSet} (h : ws.Kept) (c : Clause) : (ws.join c).Kept where
  distinct := distinct_join h.distinct (fun _ he => h.below he) c
  next := by
    show ws.nextId + 1 = _
    rw [clauses_join, List.map_append, h.next]
    exact (nextAfter_concat _).symm
  inside := by
    have := h.inside
    simp only [frontier_join, clauses_join, List.length_append]
    omega
  once := h.once
  known := by
    intro key hkey
    obtain ⟨e, f, hef, rfl⟩ := h.known key hkey
    exact ⟨e, f, hef.mono (List.prefix_append _ _), rfl⟩
  met := by
    intro e f hef
    rw [frontier_join, clauses_join, List.take_append_of_le_length h.inside] at hef
    exact h.met e f hef
  answered := by
    intro e f hef hatt r hr
    rw [clauses_join] at hef
    rcases hef.of_append_singleton with hef | ⟨_, rfl⟩
    · exact contains_join (h.answered e f hef hatt r hr)
    · -- a key with the new number would name a present clause
      obtain ⟨e', f', hef', hkey⟩ := h.known _ (isAttempted_iff.1 hatt)
      have he' := h.below hef'.left_mem
      have hf' := h.below hef'.right_mem
      rcases pairKey_eq_iff.1 hkey with ⟨_, heq⟩ | ⟨_, heq⟩
      · have heq : ws.nextId = f'.id := heq
        omega
      · have heq : ws.nextId = e'.id := heq
        omega

/-- **Adding** a clause keeps the books, whether it is taken or turned away. -/
theorem Kept.add {ws : WorkingSet} (h : ws.Kept) (c : Clause) : (ws.add c).2.Kept := by
  cases hcon : ws.contains c with
  | true =>
    rw [add_of_contains hcon]
    exact h
  | false =>
    rw [add_of_not_contains hcon]
    exact h.join c

/-- **Marking** an answered pair keeps the books. -/
theorem Kept.mark {ws : WorkingSet} (h : ws.Kept) {left right : NumberedClause}
    (hpair : Before ws.clauses left right) (hans : ws.Answers left right) :
    (ws.markAttempted left.id right.id).Kept where
  distinct := by rw [clauses_markAttempted]; exact h.distinct
  next := by rw [clauses_markAttempted, nextId_markAttempted]; exact h.next
  inside := by rw [clauses_markAttempted, frontier_markAttempted]; exact h.inside
  once := by
    unfold markAttempted
    split
    · exact h.once
    · rename_i hnot
      exact List.nodup_cons.2 ⟨fun hmem => hnot (isAttempted_iff.2 hmem), h.once⟩
  known := by
    intro key hkey
    rw [clauses_markAttempted]
    rcases mem_attempted_markAttempted.1 hkey with rfl | hkey
    · exact ⟨left, right, hpair, rfl⟩
    · exact h.known key hkey
  met := by
    intro c d hcd
    rw [clauses_markAttempted, frontier_markAttempted] at hcd
    exact isAttempted_iff.2 (mem_attempted_markAttempted.2
      (.inr (isAttempted_iff.1 (h.met c d hcd))))
  answered := by
    intro c d hcd hatt r hr
    rw [clauses_markAttempted] at hcd
    rw [Pass.contains_of_clauses_eq (clauses_markAttempted ..)]
    rcases mem_attempted_markAttempted.1 (isAttempted_iff.1 hatt) with hkey | hold
    · -- numbers are used once, so the key is that of the marked pair alone
      obtain ⟨rfl, rfl⟩ := hcd.eq_of_pairKey_eq h.distinct hpair hkey
      exact hans r hr
    · exact h.answered c d hcd (isAttempted_iff.2 hold) r hr

/-- It does not matter whether a pair is marked before or after its resolvent
    joins. -/
theorem join_markAttempted (ws : WorkingSet) (c : Clause) (a b : Int) :
    (ws.markAttempted a b).join c = (ws.join c).markAttempted a b := by
  unfold markAttempted
  rw [isAttempted_join]
  split <;> rfl

end WorkingSet

/-! ### Passes keep the books -/

namespace Pass

/-- **An attempt** of a pair in order keeps the books. -/
theorem kept_attempt (loop : Loop) {p : Pass} (h : p.derivation.working.Kept)
    {left right : NumberedClause} (hpair : Before p.derivation.working.clauses left right) :
    (p.attempt loop left right).derivation.working.Kept := by
  rcases attempt_cases loop p left right with ⟨_, hp⟩ | ⟨_, hans, hp⟩ | ⟨_, r, hres, _, hp⟩
  · rw [hp]
    exact h
  · rw [hp]
    exact h.mark hpair hans
  · -- once its resolvent has joined, the pair is answered and may be marked
    rw [hp, working_gain, gainedSet, WorkingSet.join_markAttempted]
    refine (h.join r.clause).mark (hpair.mono (List.prefix_append _ _)) ?_
    intro r' hr'
    rw [hres] at hr'
    cases hr'
    exact WorkingSet.contains_join_self _ _

/-- A pair that was attempted stays so. -/
theorem isAttempted_attempt (loop : Loop) {p : Pass} (left right : NumberedClause) {a b : Int}
    (h : p.derivation.working.isAttempted a b = true) :
    (p.attempt loop left right).derivation.working.isAttempted a b = true := by
  have marked : (p.derivation.working.markAttempted left.id right.id).isAttempted a b = true :=
    WorkingSet.isAttempted_iff.2 (WorkingSet.mem_attempted_markAttempted.2
      (.inr (WorkingSet.isAttempted_iff.1 h)))
  rcases attempt_cases loop p left right with ⟨_, hp⟩ | ⟨_, _, hp⟩ | ⟨_, r, _, _, hp⟩
  · rw [hp]
    exact h
  · rw [hp]
    exact marked
  · rw [hp, working_gain, gainedSet, WorkingSet.isAttempted_join]
    exact marked

/-- A pair just attempted is attempted. -/
theorem isAttempted_attempt_self (loop : Loop) (p : Pass) (left right : NumberedClause) :
    (p.attempt loop left right).derivation.working.isAttempted left.id right.id = true := by
  have marked : (p.derivation.working.markAttempted left.id right.id).isAttempted
      left.id right.id = true :=
    WorkingSet.isAttempted_iff.2 (WorkingSet.mem_attempted_markAttempted.2 (.inl rfl))
  rcases attempt_cases loop p left right with ⟨hatt, hp⟩ | ⟨_, _, hp⟩ | ⟨_, r, _, _, hp⟩
  · rw [hp]
    exact hatt
  · rw [hp]
    exact marked
  · rw [hp, working_gain, gainedSet, WorkingSet.isAttempted_join]
    exact marked

/-- **A pass that is not cut short attempts all its pairs.** -/
theorem isAttempted_attemptAll (loop : Loop) (pairs : List (NumberedClause × NumberedClause)) :
    ∀ {p : Pass}, (p.attemptAll loop pairs).verdict = none → ∀ pair ∈ pairs,
      (p.attemptAll loop pairs).derivation.working.isAttempted pair.1.id pair.2.id = true := by
  induction pairs with
  | nil => intro _ _ _ hpair; cases hpair
  | cons pair rest ih =>
    intro p hv pair' hpair'
    obtain ⟨left, right⟩ := pair
    simp only [attemptAll] at hv ⊢
    split at hv
    · rename_i o ho
      rw [ho] at hv
      cases hv
    · rename_i hnone
      rcases List.mem_cons.1 hpair' with rfl | hmem
      · -- attempted at once, and never forgotten afterwards
        refine attemptAll_keeps (I := fun q =>
          q.derivation.working.isAttempted left.id right.id = true) ?_
          (isAttempted_attempt_self loop p left right) hnone
        exact fun q hq _ pair _ => isAttempted_attempt loop pair.1 pair.2 hq
      · exact ih hv pair' hmem

/-- The attempts of a pass keep the books, lose no clause, and count what they
    add. -/
theorem kept_attempts (loop : Loop) {d : Derivation} (h : d.working.Kept) :
    (attempts loop d).derivation.working.Kept ∧
      d.working.clauses <+: (attempts loop d).derivation.working.clauses ∧
      ((attempts loop d).added = 0 →
        (attempts loop d).derivation.working.clauses = d.working.clauses) := by
  refine attempts_keep (I := fun p => p.derivation.working.Kept ∧
    d.working.clauses <+: p.derivation.working.clauses ∧
    (p.added = 0 → p.derivation.working.clauses = d.working.clauses)) ?_
    ⟨h, List.prefix_refl _, fun _ => rfl⟩
  intro p hp _ pair hpair
  obtain ⟨hkept, hpre, hadd⟩ := hp
  refine ⟨?_, hpre.trans (clauses_attempt_mono loop p pair.1 pair.2), ?_⟩
  · -- the pair was in order when the pass began, and still is
    exact kept_attempt loop hkept ((before_of_mem_pairs hpair).mono hpre)
  · rcases attempt_cases loop p pair.1 pair.2 with ⟨_, hp⟩ | ⟨_, _, hp⟩ | ⟨_, r, _, _, hp⟩
    · rw [hp]
      exact hadd
    · rw [hp, working_idle, WorkingSet.clauses_markAttempted]
      exact hadd
    · -- a gain is counted, so nothing is left to show
      rw [hp]
      intro hzero
      exact absurd hzero (Nat.succ_ne_zero _)

/-- Everything that a pass started with has met by its end, unless it was cut
    short. -/
theorem isAttempted_of_before (loop : Loop) {d : Derivation} (h : d.working.Kept)
    (hv : (attempts loop d).verdict = none) {c e : NumberedClause}
    (hce : Before d.working.clauses c e) :
    (attempts loop d).derivation.working.isAttempted c.id e.id = true := by
  rcases hce.old_or_due loop.strategy with hold | hdue
  · -- it had met before the pass began
    refine attempts_keep (I := fun p =>
      p.derivation.working.isAttempted c.id e.id = true) ?_ (h.met c e hold)
    intro q hq _ pair _
    exact isAttempted_attempt loop pair.1 pair.2 hq
  · exact isAttempted_attemptAll loop _ hv _ hdue

/-- **A pass keeps the books.** -/
theorem kept_run (loop : Loop) {d : Derivation} (h : d.working.Kept) :
    (Pass.run loop d).derivation.working.Kept := by
  obtain ⟨hkept, hpre, _⟩ := kept_attempts loop h
  rcases run_cases loop d with ⟨_, hrun⟩ | ⟨hv, hrun⟩
  · rw [hrun]
    exact hkept
  · -- only the frontier moves, up to where the pass started
    rw [hrun]
    refine ⟨hkept.distinct, hkept.next, hpre.length_le, hkept.once, hkept.known, ?_,
      hkept.answered⟩
    intro c e hce
    apply isAttempted_of_before loop h hv
    have hce : Before ((attempts loop d).derivation.working.clauses.take d.working.size) c e := hce
    rw [WorkingSet.size, ← List.prefix_iff_eq_take.1 hpre] at hce
    exact hce

end Pass

/-! ### Saturation -/

namespace WorkingSet

/-- Every pair of clauses was attempted and is answered. -/
def Closed (ws : WorkingSet) : Prop :=
  ∀ c d, Before ws.clauses c d → ws.isAttempted c.id d.id = true ∧ ws.Answers c d

end WorkingSet

/-- **A pass that finds the set saturated leaves it closed.** -/
theorem Pass.closed_of_saturated (loop : Loop) {d : Derivation} (h : d.working.Kept)
    (hsat : (Pass.run loop d).verdict = some .saturated) :
    (Pass.run loop d).derivation.working.Closed := by
  obtain ⟨hkept, _, hadd⟩ := kept_attempts loop h
  rcases run_cases loop d with ⟨_, hrun⟩ | ⟨hv, hrun⟩
  · -- attempts alone never find a set saturated
    rw [hrun] at hsat
    refine absurd hsat (verdict_attempts_ne fun p left right r => ?_)
    simp only [gain]
    split
    · simp
    · split <;> simp
  · rw [hrun] at hsat ⊢
    have hzero : (attempts loop d).added = 0 := by
      by_cases hz : (attempts loop d).added = 0
      · exact hz
      · simp [hz] at hsat
    intro c e hce
    have hce : Before (attempts loop d).derivation.working.clauses c e := hce
    -- nothing was added, so the pair was there when the pass began
    have hatt : (attempts loop d).derivation.working.isAttempted c.id e.id = true :=
      isAttempted_of_before loop h hv (hadd hzero ▸ hce)
    exact ⟨hatt, hkept.answered c e hce hatt⟩

/-- **A saturated set is closed** under the rule. -/
theorem Loop.closed_of_saturated (loop : Loop) {d : Derivation} (hd : d.outcome = none)
    (h : d.working.Kept) (hsat : (loop.run d).result = .ok .saturated) :
    (loop.run d).derivation.working.Closed := by
  rcases loop.run_cases hd with ⟨_, hrun⟩ | ⟨_, n, p, o, events, hdec, hv, _, hrun⟩
  · rw [hrun] at hsat
    simp at hsat
  · rw [hrun] at hsat ⊢
    obtain rfl : o = .saturated := by simpa using hsat
    obtain ⟨d', _, hd', rfl, _⟩ := hdec.exists_last (I := fun d => d.working.Kept)
      (fun d hd _ => Pass.kept_run loop hd) h
    exact Pass.closed_of_saturated loop hd' hv

end Refuter
