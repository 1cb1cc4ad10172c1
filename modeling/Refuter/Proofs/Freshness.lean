import Mathlib.Data.List.Nodup
import Mathlib.Data.List.Perm.Subperm
import Refuter.Proofs.Conversion
import Refuter.Proofs.Renaming

/-! # Names that are new

The search for a free number looks at one candidate more than there are taken names, so
it finds one that is free (`nextFree_not_mem`). From this follows what a conversion does
with the names it binds: different variables get different Skolem constants, and none of
them has been seen before (`Scope.exists_skolems`).
-/

namespace Refuter

/-! ### Free numbers -/

/-- If the number found is taken, so are all that were tried. -/
theorem taken_of_firstFree {stem : String} {taken : List String} : ∀ {fuel n : Nat},
    numberedName stem (firstFree stem taken fuel n) ∈ taken →
      ∀ k ≤ fuel, numberedName stem (n + k) ∈ taken := by
  intro fuel
  induction fuel with
  | zero =>
    intro n h k hk
    obtain rfl := Nat.le_zero.1 hk
    exact h
  | succ fuel ih =>
    intro n h k hk
    rw [firstFree] at h
    split at h
    · rename_i hn
      cases k with
      | zero => exact hn
      | succ k =>
        have := ih h k (Nat.le_of_succ_le_succ hk)
        rwa [Nat.add_assoc, Nat.add_comm 1 k] at this
    · exact absurd h (by assumption)

/-- **A free name is found:** more names are tried than are taken. -/
theorem nextFree_not_mem (stem : String) (taken : List String) (counter : Nat) :
    numberedName stem (nextFree stem taken counter) ∉ taken := by
  intro h
  have hall := taken_of_firstFree h
  let tried := (List.range (taken.length + 1)).map fun k => numberedName stem (counter + 1 + k)
  have hnodup : tried.Nodup := by
    refine List.Nodup.map (fun j k hjk => ?_) List.nodup_range
    have := numberedName_inj hjk
    omega
  have hsub : tried ⊆ taken := by
    intro name hname
    obtain ⟨k, hk, rfl⟩ := List.mem_map.1 hname
    exact hall k (Nat.le_of_lt_succ (List.mem_range.1 hk))
  have hlength := (List.subperm_of_subset hnodup hsub).length_le
  simp only [tried, List.length_map, List.length_range] at hlength
  omega

namespace Supply

/-- **Names in a row** are not reserved, and their numbers are used up. -/
theorem freshFor_fresh (names : List String) : ∀ supply : Supply,
    ((freshFor names supply).2.stem = supply.stem ∧
      (freshFor names supply).2.reserved = supply.reserved ∧
      supply.counter ≤ (freshFor names supply).2.counter) ∧
    ∀ b ∈ (freshFor names supply).1, ∃ n, b.2 = .var (numberedName supply.stem n) ∧
      supply.counter < n ∧ n ≤ (freshFor names supply).2.counter ∧
      numberedName supply.stem n ∉ supply.reserved := by
  induction names with
  | nil => exact fun supply => ⟨⟨rfl, rfl, Nat.le_refl _⟩, by simp [freshFor]⟩
  | cons name rest ih =>
    intro supply
    obtain ⟨n, hn, hfresh⟩ := supply.fresh_spec
    have hfree : numberedName supply.stem n ∉ supply.reserved := by
      have := nextFree_not_mem supply.stem supply.reserved supply.counter
      rw [Supply.fresh] at hfresh
      exact (Prod.mk.inj hfresh).1 ▸ this
    obtain ⟨⟨hstem, hreserved, hcounter⟩, hall⟩ := ih { supply with counter := n }
    rw [freshFor, hfresh]
    refine ⟨⟨hstem, hreserved, Nat.le_trans (Nat.le_of_lt hn) hcounter⟩, fun b hb => ?_⟩
    rcases List.mem_cons.1 hb with rfl | hb
    · exact ⟨n, rfl, hn, hcounter, hfree⟩
    · obtain ⟨m, hm, hlt, hle, hnot⟩ := hall b hb
      exact ⟨m, hm, Nat.lt_trans hn hlt, hle, hnot⟩

end Supply

namespace Builder

/-- A Skolem constant has a name that has not been seen, and is seen from then on. -/
theorem skolem_spec (b : Builder) : ∃ n, numberedName "Sk" n ∉ b.symbols ∧
    b.skolem = (.const (numberedName "Sk" n),
      { b with skolems := n, symbols := b.symbols ++ [numberedName "Sk" n] }) :=
  ⟨_, nextFree_not_mem "Sk" b.symbols b.skolems, rfl⟩

/-- A constant that a builder knows and that a text does not name. -/
def Introduces (builder : Builder) (text : List Char) (k : String) : Prop :=
  k ∈ builder.symbols ∧ k ∉ Sentence.words text

theorem mem_noteSymbols {b : Builder} {text : List Char} {name : String} :
    name ∈ (b.noteSymbols text).symbols ↔ name ∈ b.symbols ∨ name ∈ Sentence.words text :=
  Finite.mem_insertAll

end Builder

/-! ### Skolem constants of a sentence -/

namespace Scope

/-- The names bound so far have different new constants, and nothing else is bound. -/
structure Skolemized (known names : List String) (scope : Scope) : Prop where
  /-- The names that are bound. -/
  bound : ∀ x ∈ names, ∃ k, scope.skolems.get? x = some (.const k)
  /-- All other names are free. -/
  free : ∀ x, x ∉ names → scope.skolems.get? x = none
  /-- The constants are new, and no longer free. -/
  fresh : ∀ x t, scope.skolems.get? x = some t → ∃ n, t = .const (numberedName "Sk" n) ∧
    numberedName "Sk" n ∉ known ∧ numberedName "Sk" n ∈ scope.builder.symbols
  /-- Different names have different constants. -/
  distinct : ∀ x y t, scope.skolems.get? x = some t → scope.skolems.get? y = some t → x = y
  /-- What was known stays known. -/
  known_subset : known ⊆ scope.builder.symbols

theorem skolemized_nil (b : Builder) : Skolemized b.symbols [] { builder := b } where
  bound := by simp
  free := fun _ _ => rfl
  fresh := fun _ _ h => by cases h
  distinct := fun _ _ _ h => by cases h
  known_subset := List.Subset.refl _

/-- **One more name.** -/
theorem Skolemized.bind {known names : List String} {scope : Scope}
    (h : scope.Skolemized known names) (x : String) :
    (scope.bind x).Skolemized known (names ++ [x]) := by
  obtain ⟨n, hnew, hskolem⟩ := scope.builder.skolem_spec
  have hself : (scope.bind x).skolems.get? x = some (.const (numberedName "Sk" n)) := by
    rw [Scope.bind, hskolem]
    exact Members.get?_set_self ..
  have hother : ∀ y, y ≠ x → (scope.bind x).skolems.get? y = scope.skolems.get? y :=
    fun y hy => Members.get?_set_of_ne _ _ hy
  have hsymbols : (scope.bind x).builder.symbols
      = scope.builder.symbols ++ [numberedName "Sk" n] := by
    rw [Scope.bind, hskolem]
  -- a constant made before is not the new one
  have hold : ∀ y, y ≠ x →
      (scope.bind x).skolems.get? y ≠ some (.const (numberedName "Sk" n)) := by
    intro y hy hget
    rw [hother y hy] at hget
    obtain ⟨m, hm, _, hmem⟩ := h.fresh y _ hget
    rw [← Term.const.inj hm] at hmem
    exact hnew hmem
  refine ⟨fun y hy => ?_, fun y hy => ?_, fun y t hget => ?_, fun y z t hy hz => ?_, ?_⟩
  · by_cases hyx : y = x
    · rw [hyx]
      exact ⟨_, hself⟩
    · rw [hother y hyx]
      simp only [List.mem_append, List.mem_singleton, hyx, or_false] at hy
      exact h.bound y hy
  · simp only [List.mem_append, List.mem_singleton, not_or] at hy
    rw [hother y hy.2]
    exact h.free y hy.1
  · rw [hsymbols]
    by_cases hyx : y = x
    · rw [hyx, hself] at hget
      cases hget
      exact ⟨n, rfl, fun hk => hnew (h.known_subset hk), by simp⟩
    · rw [hother y hyx] at hget
      obtain ⟨m, hm, hk, hmem⟩ := h.fresh y t hget
      exact ⟨m, hm, hk, List.mem_append_left _ hmem⟩
  · by_cases hyx : y = x
    · by_cases hzx : z = x
      · rw [hyx, hzx]
      · rw [hyx, hself] at hy
        cases hy
        exact absurd hz (hold z hzx)
    · by_cases hzx : z = x
      · rw [hzx, hself] at hz
        cases hz
        exact absurd hy (hold y hyx)
      · rw [hother y hyx] at hy
        rw [hother z hzx] at hz
        exact h.distinct y z t hy hz
  · rw [hsymbols]
    exact fun name hname => List.mem_append_left _ (h.known_subset hname)

/-- **All names of a sentence.** -/
theorem Skolemized.bindAll {known : List String} (names : List String) :
    ∀ {done : List String} {scope : Scope}, scope.Skolemized known done →
      (scope.bindAll names).Skolemized known (done ++ names) := by
  induction names with
  | nil =>
    intro done scope h
    rwa [List.append_nil]
  | cons x rest ih =>
    intro done scope h
    have := ih (h.bind x)
    rwa [List.append_assoc] at this

theorem supply_bindAll (names : List String) : ∀ scope : Scope,
    (scope.bindAll names).builder.supply = scope.builder.supply := by
  induction names with
  | nil => exact fun _ => rfl
  | cons x rest ih => exact fun scope => ih (scope.bind x)

end Scope

/-- A variable among `names` gives way to its constant. -/
def Term.skolemize (names : List String) (constant : String → String) : Term → Term
  | .var x => if x ∈ names then .const (constant x) else .var x
  | .const c => .const c

/-- A variable that is bound to a constant gives way to it. -/
theorem Substitution.resolve_bound {σ : Substitution} {x k : String}
    (h : σ.bindings.get? x = some (.const k)) : σ.resolve (.var x) = .const k :=
  Leads.resolve_eq (.bound h (.const k))

/-- **The Skolem constants of a sentence:** each name that is bound gets one of its own
    that has not been seen before. -/
theorem Scope.exists_skolems (b : Builder) (names : List String) :
    ∃ constant : String → String, Set.InjOn constant {x | x ∈ names} ∧
      (∀ x ∈ names, constant x ∉ b.symbols ∧ (∃ n, constant x = numberedName "Sk" n) ∧
        constant x ∈ (Scope.bindAll { builder := b } names).builder.symbols) ∧
      Substitution.resolve ⟨(Scope.bindAll { builder := b } names).skolems⟩
        = Term.skolemize names constant := by
  have h := Skolemized.bindAll names (skolemized_nil b)
  rw [List.nil_append] at h
  generalize Scope.bindAll { builder := b } names = scope at h ⊢
  choose! constant hconstant using h.bound
  refine ⟨constant, fun x hx y hy hxy => ?_, fun x hx => ?_, funext fun t => ?_⟩
  · have hgetx := hconstant x hx
    rw [hxy] at hgetx
    exact h.distinct x y _ hgetx (hconstant y hy)
  · obtain ⟨n, hn, hk, hmem⟩ := h.fresh x _ (hconstant x hx)
    rw [Term.const.inj hn]
    exact ⟨hk, ⟨n, rfl⟩, hmem⟩
  · cases t with
    | const c => exact Substitution.resolve_const _ c
    | var x =>
      rw [Term.skolemize]
      by_cases hx : x ∈ names
      · rw [if_pos hx, Substitution.resolve_bound (hconstant x hx)]
      · rw [if_neg hx]
        exact Substitution.IsEnd.resolve_eq (.free (h.free x hx))

/-! ### Builders only learn -/

namespace Builder

/-- A builder that knows all that another knows, and has handed out all that it has. -/
structure Grows (b b' : Builder) : Prop where
  /-- Names start alike. -/
  stem : b'.supply.stem = b.supply.stem
  /-- The same names are reserved. -/
  reserved : b'.supply.reserved = b.supply.reserved
  /-- Numbers are not used again. -/
  counter : b.supply.counter ≤ b'.supply.counter
  /-- No name is forgotten. -/
  symbols : b.symbols ⊆ b'.symbols

theorem Grows.refl (b : Builder) : Grows b b :=
  ⟨rfl, rfl, Nat.le_refl _, List.Subset.refl _⟩

theorem Grows.trans {b b' b'' : Builder} (h : Grows b b') (h' : Grows b' b'') : Grows b b'' :=
  ⟨h'.stem.trans h.stem, h'.reserved.trans h.reserved, Nat.le_trans h.counter h'.counter,
    List.Subset.trans h.symbols h'.symbols⟩

theorem grows_noteSymbols (b : Builder) (text : List Char) : Grows b (b.noteSymbols text) :=
  ⟨rfl, rfl, Nat.le_refl _, fun _ h => mem_noteSymbols.2 (.inl h)⟩

theorem grows_bindAll (names : List String) : ∀ scope : Scope,
    Grows scope.builder (scope.bindAll names).builder := by
  induction names with
  | nil => exact fun scope => .refl _
  | cons name rest ih =>
    intro scope
    have hone : Grows scope.builder (scope.bind name).builder :=
      ⟨rfl, rfl, Nat.le_refl _, List.subset_append_left _ _⟩
    exact hone.trans (ih (scope.bind name))

theorem grows_standardize (b : Builder) (c : Clause) :
    Grows b { b with supply := (b.supply.standardize c).2 } := by
  obtain ⟨⟨hstem, hreserved, hcounter⟩, _⟩ :=
    Supply.freshFor_fresh (Finite.distinct c.vars) b.supply
  exact ⟨hstem, hreserved, hcounter, List.Subset.refl _⟩

end Builder


end Refuter
