/-! # Lists without repetition

The first of several equal entries counts: it keeps its place and the later
ones are dropped. A list that is only ever extended by new entries serves as a
finite set whose order of insertion can still be read.
-/

namespace Refuter.Finite

variable {α : Type} [DecidableEq α]

/-- The entries in order of first appearance. -/
def distinct : List α → List α
  | [] => []
  | a :: rest => a :: (distinct rest).filter (· ≠ a)

/-- Appends the entries that are not there yet. -/
def insertAll (known new : List α) : List α :=
  new.foldl (fun acc a => if a ∈ acc then acc else acc ++ [a]) known

@[simp] theorem mem_distinct {a : α} {l : List α} : a ∈ distinct l ↔ a ∈ l := by
  induction l with
  | nil => simp [distinct]
  | cons b rest ih =>
    by_cases h : a = b <;> simp [distinct, ih, h]

theorem nodup_distinct (l : List α) : (distinct l).Nodup := by
  induction l with
  | nil => simp [distinct]
  | cons b rest ih =>
    simp only [distinct, List.nodup_cons, List.mem_filter]
    exact ⟨by simp, ih.filter _⟩

theorem distinct_sublist (l : List α) : (distinct l).Sublist l := by
  induction l with
  | nil => exact .slnil
  | cons a rest ih => exact .cons_cons a (List.filter_sublist.trans ih)

/-- **Entries stand in order of first appearance.** -/
theorem pairwise_idxOf_distinct (l : List α) :
    (distinct l).Pairwise fun a b => l.idxOf a < l.idxOf b := by
  induction l with
  | nil => exact .nil
  | cons c rest ih =>
    -- an entry other than the first is found one place later than in the rest
    have later : ∀ a ∈ (distinct rest).filter (· ≠ c),
        (c :: rest).idxOf a = rest.idxOf a + 1 := by
      intro a ha
      have hne : a ≠ c := by simpa using (List.mem_filter.1 ha).2
      rw [List.idxOf_cons, beq_false_of_ne hne.symm]
      rfl
    refine List.pairwise_cons.2 ⟨?_, ?_⟩
    · intro a ha
      rw [later a ha, List.idxOf_cons_self]
      exact Nat.succ_pos _
    · refine (ih.filter _).imp_of_mem ?_
      intro a b ha hb hab
      rw [later a ha, later b hb]
      exact Nat.succ_lt_succ hab

theorem mem_insertAll {a : α} {known new : List α} :
    a ∈ insertAll known new ↔ a ∈ known ∨ a ∈ new := by
  induction new generalizing known with
  | nil => simp [insertAll]
  | cons b rest ih =>
    have step : insertAll known (b :: rest)
        = insertAll (if b ∈ known then known else known ++ [b]) rest := rfl
    rw [step, ih]
    by_cases hb : b ∈ known
    · rw [if_pos hb, List.mem_cons]
      constructor
      · rintro (h | h)
        · exact .inl h
        · exact .inr (.inr h)
      · rintro (h | rfl | h)
        · exact .inl h
        · exact .inl hb
        · exact .inr h
    · rw [if_neg hb]
      simp only [List.mem_append, List.mem_cons, List.not_mem_nil, or_false]
      constructor
      · rintro ((h | h) | h)
        · exact .inl h
        · exact .inr (.inl h)
        · exact .inr (.inr h)
      · rintro (h | h | h)
        · exact .inl (.inl h)
        · exact .inl (.inr h)
        · exact .inr h

end Refuter.Finite
