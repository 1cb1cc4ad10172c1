/-! # Subsets and tuples

Enumerations that bound a search: all subsets of a list, of which there are
`2 ^ n`, and all tuples of a given length over a list. They are counted in
proofs and never computed while the program runs.
-/

namespace Refuter.Finite

variable {α : Type}

/-- All ways to keep some entries of a list, in order. -/
def subsets : List α → List (List α)
  | [] => [[]]
  | a :: rest => subsets rest ++ (subsets rest).map (a :: ·)

/-- Keeping the entries with a property is one of the ways. -/
theorem filter_mem_subsets (p : α → Bool) (l : List α) : l.filter p ∈ subsets l := by
  induction l with
  | nil => simp [subsets]
  | cons a rest ih =>
    rw [List.filter_cons, subsets, List.mem_append]
    split
    · exact .inr (List.mem_map.2 ⟨_, ih, rfl⟩)
    · exact .inl ih

/-- All lists of length `n` over the entries of a list. -/
def tuples (entries : List α) : Nat → List (List α)
  | 0 => [[]]
  | n + 1 => entries.flatMap fun a => (tuples entries n).map (a :: ·)

theorem mem_tuples {entries t : List α} {n : Nat} :
    t ∈ tuples entries n ↔ t.length = n ∧ ∀ a ∈ t, a ∈ entries := by
  induction n generalizing t with
  | zero =>
    constructor
    · intro h
      obtain rfl : t = [] := by simpa [tuples] using h
      simp
    · rintro ⟨h, _⟩
      obtain rfl := List.length_eq_zero_iff.1 h
      simp [tuples]
  | succ n ih =>
    simp only [tuples, List.mem_flatMap, List.mem_map]
    constructor
    · rintro ⟨a, ha, s, hs, rfl⟩
      obtain ⟨hlen, hmem⟩ := ih.1 hs
      refine ⟨by simp [hlen], fun b hb => ?_⟩
      rcases List.mem_cons.1 hb with rfl | hb
      · exact ha
      · exact hmem b hb
    · rintro ⟨hlen, hmem⟩
      cases t with
      | nil => simp at hlen
      | cons a s =>
        exact ⟨a, hmem a (List.mem_cons_self ..), s,
          ih.2 ⟨by simpa using hlen, fun b hb => hmem b (List.mem_cons_of_mem _ hb)⟩, rfl⟩

/-- **A stricter filter keeps fewer:** if `q` implies `p` and some entry has
    `p` without `q`, filtering by `q` leaves a shorter list. -/
theorem length_filter_lt {p q : α → Bool} {l : List α} (himp : ∀ a, q a = true → p a = true)
    {a : α} (ha : a ∈ l) (hp : p a = true) (hq : q a = false) :
    (l.filter q).length < (l.filter p).length := by
  induction l with
  | nil => cases ha
  | cons b rest ih =>
    have hle : (rest.filter q).length ≤ (rest.filter p).length := by
      clear ih ha
      induction rest with
      | nil => simp
      | cons c rest ih =>
        by_cases hqc : q c = true
        · simp [hqc, himp c hqc, ih]
        · by_cases hpc : p c = true
          · simp only [List.filter_cons, hqc, hpc, if_true, List.length_cons]
            simpa using Nat.le_succ_of_le ih
          · simpa [hqc, hpc] using ih
    rcases List.mem_cons.1 ha with rfl | ha
    · simp only [List.filter_cons, hp, hq, if_true, List.length_cons]
      simpa using Nat.lt_succ_of_le hle
    · have := ih ha
      by_cases hqb : q b = true
      · simp [hqb, himp b hqb, this]
      · by_cases hpb : p b = true
        · simp only [List.filter_cons, hqb, hpb, if_true, List.length_cons]
          simpa using Nat.lt_succ_of_lt this
        · simpa [hqb, hpb] using this

end Refuter.Finite
