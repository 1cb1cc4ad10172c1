import Mathlib.Data.Set.Function
import Refuter.Proofs.Herbrand

/-! # Renaming apart

A supply never hands out a name twice, so the variables of a clause get
different new names, and the universal closure of the clause keeps its meaning
(`Supply.satisfies_standardize`).
-/

namespace Refuter

universe u

/-! ### Fresh names -/

/-- Different numbers make different names. -/
theorem numberedName_inj {stem : String} {m n : Nat}
    (h : numberedName stem m = numberedName stem n) : m = n := by
  have hlist := congrArg String.toList h
  simp only [numberedName, String.toList_append, String.toList_ofList] at hlist
  have hdigits := congrArg (Nat.ofDigitChars 10 · 0) (List.append_cancel_left hlist)
  simpa only [Nat.ofDigitChars_ten_toDigits] using hdigits

theorem le_firstFree (stem : String) (taken : List String) :
    ∀ fuel n, n ≤ firstFree stem taken fuel n := by
  intro fuel
  induction fuel with
  | zero => exact fun n => Nat.le_refl n
  | succ fuel ih =>
    intro n
    rw [firstFree]
    split
    · exact Nat.le_trans (Nat.le_succ n) (ih (n + 1))
    · exact Nat.le_refl n

namespace Supply

/-- **A fresh name carries a new number,** above all those used before. -/
theorem fresh_spec (supply : Supply) :
    ∃ n, supply.counter < n ∧
      supply.fresh = (numberedName supply.stem n, { supply with counter := n }) :=
  ⟨_, le_firstFree supply.stem supply.reserved _ _, rfl⟩

/-- **Names in a row** carry different numbers. -/
theorem freshFor_spec (names : List String) : ∀ supply : Supply, ∃ number : String → Nat,
    (∀ x ∈ names, supply.counter < number x ∧
      Members.get? (freshFor names supply).1 x
        = some (.var (numberedName supply.stem (number x)))) ∧
    ∀ x ∈ names, ∀ y ∈ names, number x = number y → x = y := by
  induction names with
  | nil => exact fun _ => ⟨fun _ => 0, by simp, by simp⟩
  | cons name rest ih =>
    intro supply
    obtain ⟨n, hn, hfresh⟩ := supply.fresh_spec
    obtain ⟨number, hnumber, hinj⟩ := ih { supply with counter := n }
    -- the first name takes the lowest number
    refine ⟨fun x => if x = name then n else number x, fun x hx => ?_, fun x hx y hy hxy => ?_⟩
    · simp only [freshFor, hfresh, Members.get?, List.lookup_cons]
      by_cases hxn : x = name
      · simp [hxn, hn]
      · obtain ⟨hlt, hget⟩ := hnumber x ((List.mem_cons.1 hx).resolve_left hxn)
        rw [beq_false_of_ne hxn, if_neg hxn]
        exact ⟨Nat.lt_trans hn hlt, hget⟩
    · -- all later names take higher numbers
      have later : ∀ z ∈ name :: rest, z ≠ name → n < number z := fun z hz hne =>
        (hnumber z ((List.mem_cons.1 hz).resolve_left hne)).1
      dsimp only at hxy
      by_cases hxn : x = name <;> by_cases hyn : y = name
      · rw [hxn, hyn]
      · rw [if_pos hxn, if_neg hyn] at hxy
        have := later y hy hyn
        omega
      · rw [if_neg hxn, if_pos hyn] at hxy
        have := later x hx hxn
        omega
      · rw [if_neg hxn, if_neg hyn] at hxy
        exact hinj x ((List.mem_cons.1 hx).resolve_left hxn) y
          ((List.mem_cons.1 hy).resolve_left hyn) hxy

end Supply

/-! ### Universal closures -/

/-- Only the values of its variables matter to a literal. -/
theorem Structure.trueIn_congr {M : Structure.{u}} {v w : String → M.Domain} {l : Literal}
    (h : ∀ x, Term.var x ∈ l.args → v x = w x) :
    l.TrueIn (M.atoms v) ↔ l.TrueIn (M.atoms w) := by
  have hargs : l.args.map (M.eval v) = l.args.map (M.eval w) := by
    refine List.map_congr_left fun t ht => ?_
    cases t with
    | var x => exact h x ht
    | const k => rfl
  simp only [Literal.TrueIn, atoms, hargs]

/-- **Renaming:** new names for the variables, different ones for different
    variables, leave the universal closure as it is. -/
theorem Structure.satisfies_rename {M : Structure.{u}} {c : Clause} {f : Term → Term}
    {g : String → String} (hconst : ∀ k, f (.const k) = .const k)
    (hvar : ∀ x ∈ c.vars, f (.var x) = .var (g x)) (hinj : Set.InjOn g {x | x ∈ c.vars}) :
    M.Satisfies (c.mapTerms f) ↔ M.Satisfies c := by
  constructor
  · intro h w
    -- the new names get the values of the old ones
    let v : String → M.Domain := fun y => w (Function.invFunOn g {x | x ∈ c.vars} y)
    obtain ⟨_, hk, htrue⟩ := h v
    obtain ⟨l, hl, rfl⟩ := List.mem_map.1 hk
    refine ⟨l, hl, (trueIn_congr fun x hx => ?_).1 ((trueIn_mapArgs hconst v l).1 htrue)⟩
    have hx : x ∈ c.vars := Clause.mem_vars.2 ⟨l, hl, hx⟩
    rw [hvar x hx]
    exact congrArg w (hinj.leftInvOn_invFunOn hx)
  · intro h v
    -- the old names get the values of the new ones
    obtain ⟨l, hl, htrue⟩ := h fun x => M.eval v (f (.var x))
    exact ⟨_, List.mem_map.2 ⟨l, hl, rfl⟩, (trueIn_mapArgs hconst v l).2 htrue⟩

/-- **Standardizing apart** keeps what a clause says. -/
theorem Supply.satisfies_standardize {M : Structure.{u}} (supply : Supply) (c : Clause) :
    M.Satisfies (supply.standardize c).1 ↔ M.Satisfies c := by
  obtain ⟨number, hnumber, hinj⟩ := freshFor_spec (Finite.distinct c.vars) supply
  refine Structure.satisfies_rename (g := fun x => numberedName supply.stem (number x))
    (fun _ => rfl) (fun x hx => ?_) fun x hx y hy hxy => ?_
  · rw [renameTerm, (hnumber x (Finite.mem_distinct.2 hx)).2, Option.getD_some]
  · exact hinj x (Finite.mem_distinct.2 hx) y (Finite.mem_distinct.2 hy) (numberedName_inj hxy)

end Refuter
