import Mathlib.Data.List.Forall2
import Refuter.Proofs.Notation

/-! # Nesting

A text in which every parenthesis has its partner is a row of groups and of characters that
are no parentheses. Reading takes it apart in two ways: it cuts the text at a connective outside
all parentheses, and it takes off the parentheses around the whole. Both count open parentheses
from left to right. Here is what they give, in terms that do not count along.

- The check of the parentheses passes exactly the grouped texts (`balanced_iff_grouped`).
- A cut falls between two members of the row, so the parts are rows again, with the connective
  in their groups only (`grouped_enclosed_of_mem_cutFrom`), and they make up the text
  (`intercalate_cutFrom`).
- Parentheses are taken off exactly where the whole text is one group (`inside?_eq_some_iff`).

**Key result.** Parts and core are the only ones that a text has (`nesting_respected`).
-/

namespace Refuter.Sentence

/-! ### Stretches of a grouped text -/

theorem grouped_append_iff_right {a b : List Char} (ha : Grouped a) :
    Grouped (a ++ b) ↔ Grouped b := by
  rw [← balanced_iff_grouped, ← balanced_iff_grouped, balanced, ha.balancedFrom]
  rfl

/-- A group behind a text closes nothing in front of it. -/
theorem balancedFrom_append_grouped {b : List Char} (hb : Grouped b) (a : List Char) :
    ∀ depth, balancedFrom depth (a ++ b) = balancedFrom depth a := by
  induction a with
  | nil =>
    intro depth
    have := hb.balancedFrom [] depth
    rwa [List.append_nil] at this
  | cons c a ih =>
    intro depth
    simp only [List.cons_append, balancedFrom, ih]

theorem grouped_append_iff_left {a b : List Char} (hb : Grouped b) :
    Grouped (a ++ b) ↔ Grouped a := by
  rw [← balanced_iff_grouped, ← balanced_iff_grouped, balanced, balancedFrom_append_grouped hb]
  rfl

/-- Blanks around a text are no part of its groups. -/
theorem grouped_pad_iff {front text behind : List Char} (hfront : Blank front)
    (hbehind : Blank behind) : Grouped (front ++ text ++ behind) ↔ Grouped text := by
  rw [grouped_append_iff_left (inherited_grouped.blank hbehind),
    grouped_append_iff_right (inherited_grouped.blank hfront)]

theorem Grouped.trim {text : List Char} (h : Grouped text) : Grouped (Text.trim text) := by
  obtain ⟨front, behind, htext, hfront, hbehind⟩ := trim_decompose text
  rw [htext] at h
  exact (grouped_pad_iff hfront hbehind).1 h

/-- **The depth behind a stretch** is what it opened less what it closed. -/
theorem exists_depth_behind {front : List Char} : ∀ {depth : Nat} {behind : List Char},
    balancedFrom depth (front ++ behind) = true →
      ∃ d, d + front.count ')' = depth + front.count '(' ∧ balancedFrom d behind = true := by
  induction front with
  | nil => exact fun h => ⟨_, rfl, h⟩
  | cons c front ih =>
    intro depth behind h
    simp only [List.cons_append, balancedFrom] at h
    by_cases hopen : c = '('
    · subst hopen
      rw [if_pos rfl] at h
      obtain ⟨d, hd, hbehind⟩ := ih h
      refine ⟨d, ?_, hbehind⟩
      rw [List.count_cons_of_ne (by decide), List.count_cons_self]
      omega
    · rw [if_neg hopen] at h
      by_cases hclose : c = ')'
      · subst hclose
        rw [if_pos rfl] at h
        cases depth with
        | zero => cases h
        | succ depth =>
          obtain ⟨d, hd, hbehind⟩ := ih h
          refine ⟨d, ?_, hbehind⟩
          rw [List.count_cons_self, List.count_cons_of_ne (by decide)]
          omega
      · rw [if_neg hclose] at h
        rw [List.count_cons_of_ne hopen, List.count_cons_of_ne hclose]
        exact ih h

/-- A grouped text opens at least what it closes, up to any place. -/
theorem Grouped.count_le {front behind : List Char} (h : Grouped (front ++ behind)) :
    front.count ')' ≤ front.count '(' := by
  obtain ⟨d, hd, _⟩ := exists_depth_behind (balanced_iff_grouped.2 h)
  omega

/-- As a whole, it closes what it opens. -/
theorem Grouped.count_eq {text : List Char} (h : Grouped text) :
    text.count ')' = text.count '(' := by
  rw [← List.append_nil text] at h
  obtain ⟨d, hd, hend⟩ := exists_depth_behind (balanced_iff_grouped.2 h)
  obtain rfl : d = 0 := of_decide_eq_true hend
  omega

/-! ### Characters inside parentheses -/

/-- A character stands inside parentheses only: in front of each of its places more of them are
    opened than closed. -/
def Enclosed (c : Char) (text : List Char) : Prop :=
  ∀ front behind, text = front ++ c :: behind → front.count ')' < front.count '('

section Enclosed

variable {c : Char} {a b text : List Char}

/-- Behind groups it is as if there was nothing in front. -/
theorem enclosed_append_iff (ha : Grouped a) :
    Enclosed c (a ++ b) ↔ Enclosed c a ∧ Enclosed c b := by
  constructor
  · intro h
    constructor
    · rintro front behind rfl
      exact h front (behind ++ b) (by rw [List.append_assoc, List.cons_append])
    · rintro front behind rfl
      have hplace := h (a ++ front) behind (by rw [List.append_assoc])
      rw [List.count_append, List.count_append, ha.count_eq] at hplace
      omega
  · rintro ⟨h₁, h₂⟩ front behind htext
    rcases List.append_eq_append_iff.1 htext with ⟨front', rfl, hb⟩ | ⟨behind', ha', hb⟩
    · -- the place is in the second text
      have hplace := h₂ front' behind hb
      rw [List.count_append, List.count_append, ha.count_eq]
      omega
    · cases behind' with
      | nil =>
        -- the place is the first one of the second text, and nothing is open there
        exact absurd (h₂ [] behind (by simpa using hb.symm)) (by decide)
      | cons d behind' =>
        obtain ⟨rfl, rfl⟩ := List.cons.inj hb
        exact h₁ front behind' ha'

theorem enclosed_iff_not_mem (h : '(' ∉ text) : Enclosed c text ↔ c ∉ text := by
  constructor
  · intro henclosed hmem
    obtain ⟨front, behind, rfl⟩ := List.append_of_mem hmem
    have hnone : front.count '(' = 0 :=
      List.count_eq_zero_of_not_mem fun hopen => h (List.mem_append_left _ hopen)
    have hplace := henclosed front behind rfl
    omega
  · rintro hnot front behind rfl
    exact absurd (by simp) hnot

theorem enclosed_wrapped (hopen : c ≠ '(') (hclose : c ≠ ')') (h : Grouped text) :
    Enclosed c ('(' :: text ++ [')']) := by
  intro front behind hplace
  rw [List.cons_append] at hplace
  cases front with
  | nil => exact absurd (List.cons.inj hplace).1.symm hopen
  | cons d front =>
    rw [List.cons_append] at hplace
    obtain ⟨rfl, htail⟩ := List.cons.inj hplace
    -- the last character is the partner of the first, so the place is in front of it
    rcases List.eq_nil_or_concat behind with rfl | ⟨behind, e, rfl⟩
    · obtain ⟨_, hlast⟩ := List.append_inj' htail rfl
      exact absurd (List.cons.inj hlast).1.symm hclose
    · rw [List.concat_eq_append, ← List.cons_append, ← List.append_assoc] at htail
      obtain ⟨rfl, _⟩ := List.append_inj' htail rfl
      have hle := h.count_le
      rw [List.count_cons_self, List.count_cons_of_ne (by decide)]
      omega

/-- Blanks around a text hold the character nowhere. -/
theorem enclosed_pad_iff {front behind : List Char} (hfront : Blank front)
    (hbehind : Blank behind) (h : Grouped text) :
    Enclosed c (front ++ text ++ behind) ↔ c ∉ front ∧ Enclosed c text ∧ c ∉ behind := by
  have hgrouped := inherited_grouped.blank hfront
  rw [enclosed_append_iff (hgrouped.append h), enclosed_append_iff hgrouped,
    enclosed_iff_not_mem (hfront.not_mem (by decide)),
    enclosed_iff_not_mem (hbehind.not_mem (by decide)), and_assoc]

/-- **A character inside parentheses is no cut.** -/
theorem solid_of_enclosed (h : Grouped text) (henclosed : Enclosed c text) : Solid c text := by
  induction h with
  | nil => exact fun _ => rfl
  | @cons d rest hopen hclose _ ih =>
    rw [← List.singleton_append, enclosed_append_iff (grouped_singleton hopen hclose),
      enclosed_iff_not_mem (by simpa using Ne.symm hopen), List.mem_singleton] at henclosed
    have hsolid : Solid c [d] :=
      solid_of_plain (List.forall_mem_singleton.2 ⟨hopen, hclose, Ne.symm henclosed.1⟩)
    exact hsolid.append (ih henclosed.2)
  | @group inner rest inside _ _ ih =>
    rw [group_eq_append, enclosed_append_iff inside.wrapped] at henclosed
    rw [group_eq_append]
    exact (solid_wrapped inside).append (ih henclosed.2)

end Enclosed

/-! ### Parts -/

/-- No blank at either end; there may be nothing at all. -/
structure Tight (text : List Char) : Prop where
  /-- The first character. -/
  head : ∀ c, text.head? = some c → Text.isBlank c = false
  /-- The last character. -/
  last : ∀ c, text.getLast? = some c → Text.isBlank c = false

theorem tight_trim (text : List Char) : Tight (Text.trim text) :=
  ⟨head?_trim text, getLast?_trim text⟩

theorem Tight.trim_eq {text : List Char} (h : Tight text) : Text.trim text = text :=
  trim_eq_self h.head h.last

/-- A piece of a text is a part with blanks around it, none of them the connective. -/
def Spaced (connective : Char) (part piece : List Char) : Prop :=
  ∃ front behind, Blank front ∧ Blank behind ∧ connective ∉ front ∧ connective ∉ behind ∧
    piece = front ++ part ++ behind

/-- The parts that a text falls into at a connective. -/
structure FallsInto (connective : Char) (text : List Char) (parts : List (List Char)) : Prop where
  /-- In each part, every parenthesis has its partner. -/
  grouped : ∀ part ∈ parts, Grouped part
  /-- There are no blanks at its ends. -/
  tight : ∀ part ∈ parts, Tight part
  /-- The connective stands inside parentheses only. -/
  enclosed : ∀ part ∈ parts, Enclosed connective part
  /-- Up to blanks around the parts, the text is the parts with the connective between them. -/
  joined : ∃ pieces, pieces ≠ [] ∧ List.Forall₂ (Spaced connective) parts pieces ∧
    text = List.intercalate [connective] pieces

section Parts

variable {connective : Char}

theorem forall_mem_appendFirst {P : List Char → Prop} {text : List Char}
    {parts : List (List Char)} (hne : parts ≠ []) (hP : ∀ part, P part → P (text ++ part))
    (h : ∀ part ∈ parts, P part) : ∀ part ∈ appendFirst text parts, P part := by
  cases parts with
  | nil => exact absurd rfl hne
  | cons part parts =>
    rw [List.forall_mem_cons] at h
    rw [appendFirst_cons, List.forall_mem_cons]
    exact ⟨hP part h.1, h.2⟩

/-- **Cuts fall between groups.** The induction is on the row of groups and characters: each
    member goes to the first part behind it, or is a cut. -/
theorem grouped_enclosed_of_mem_cutFrom (hopen : connective ≠ '(') (hclose : connective ≠ ')')
    {text : List Char} (h : Grouped text) :
    ∀ part ∈ cutFrom connective 0 text, Grouped part ∧ Enclosed connective part := by
  have hempty : Grouped [] ∧ Enclosed connective [] :=
    ⟨.nil, (enclosed_iff_not_mem (List.not_mem_nil)).2 List.not_mem_nil⟩
  have hahead : ∀ {a : List Char}, Grouped a → Enclosed connective a →
      ∀ part, Grouped part ∧ Enclosed connective part →
        Grouped (a ++ part) ∧ Enclosed connective (a ++ part) := by
    intro a ha hin part hpart
    exact ⟨ha.append hpart.1, (enclosed_append_iff ha).2 ⟨hin, hpart.2⟩⟩
  induction h with
  | nil =>
    rw [cutFrom, List.forall_mem_singleton]
    exact hempty
  | @cons c rest hcopen hcclose _ ih =>
    rw [cutFrom, if_neg hcopen, if_neg hcclose]
    by_cases hcut : c = connective
    · rw [if_pos ⟨hcut, rfl⟩, List.forall_mem_cons]
      exact ⟨hempty, ih⟩
    · rw [if_neg fun h => hcut h.1]
      have hin : Enclosed connective [c] := by
        rw [enclosed_iff_not_mem (by simpa using Ne.symm hcopen), List.mem_singleton]
        exact Ne.symm hcut
      exact forall_mem_appendFirst (cutFrom_ne_nil _ _ _)
        (hahead (grouped_singleton hcopen hcclose) hin) ih
  | @group inner rest inside _ _ ih =>
    rw [group_eq_append, solid_wrapped inside]
    exact forall_mem_appendFirst (cutFrom_ne_nil _ _ _)
      (hahead inside.wrapped (enclosed_wrapped hopen hclose inside)) ih

theorem intercalate_eq_append_flatMap (connective : Char) (piece : List Char)
    (pieces : List (List Char)) : List.intercalate [connective] (piece :: pieces)
      = piece ++ pieces.flatMap (connective :: ·) := by
  induction pieces generalizing piece with
  | nil => rw [List.intercalate_singleton, List.flatMap_nil, List.append_nil]
  | cons piece' pieces ih =>
    rw [List.intercalate_cons_cons, ih, List.append_assoc, List.flatMap_cons]
    rfl

theorem fallsInto_splitTop (hopen : connective ≠ '(') (hclose : connective ≠ ')')
    {text : List Char} (h : Grouped text) :
    FallsInto connective text (splitTop connective text) := by
  have hpieces := grouped_enclosed_of_mem_cutFrom hopen hclose h
  -- a piece that is not trimmed yet, with the blanks around it
  have hspaced : ∀ piece ∈ cutFrom connective 0 text,
      Enclosed connective (Text.trim piece) ∧ Spaced connective (Text.trim piece) piece := by
    intro piece hpiece
    obtain ⟨hgrouped, henclosed⟩ := hpieces piece hpiece
    obtain ⟨front, behind, htext, hfront, hbehind⟩ := trim_decompose piece
    rw [htext, enclosed_pad_iff hfront hbehind hgrouped.trim] at henclosed
    obtain ⟨hfrontNot, hpart, hbehindNot⟩ := henclosed
    exact ⟨hpart, front, behind, hfront, hbehind, hfrontNot, hbehindNot, htext⟩
  refine ⟨?_, ?_, ?_, cutFrom connective 0 text, cutFrom_ne_nil _ _ _, ?_, ?_⟩
  · exact List.forall_mem_map.2 fun piece hpiece => (hpieces piece hpiece).1.trim
  · exact List.forall_mem_map.2 fun piece _ => tight_trim piece
  · exact List.forall_mem_map.2 fun piece hpiece => (hspaced piece hpiece).1
  · rw [splitTop, List.forall₂_map_left_iff, List.forall₂_same]
    exact fun piece hpiece => (hspaced piece hpiece).2
  · exact (intercalate_cutFrom connective text 0).symm

/-- **A text falls apart in one way only.** -/
theorem splitTop_of_fallsInto (hopen : connective ≠ '(') (hclose : connective ≠ ')')
    {text : List Char} {parts : List (List Char)} (h : FallsInto connective text parts) :
    splitTop connective text = parts := by
  obtain ⟨pieces, hne, hspaced, rfl⟩ := h.joined
  -- a piece is not cut, and trimming it gives the part
  have hpieces : List.Forall₂ (fun piece part => Solid connective piece ∧ Text.trim piece = part)
      pieces parts := by
    have hparts : ∀ part ∈ parts, Grouped part ∧ Tight part ∧ Enclosed connective part :=
      fun part hpart => ⟨h.grouped part hpart, h.tight part hpart, h.enclosed part hpart⟩
    refine (List.Forall₂.imp ?_ ((List.forall₂_and_left _ _).2 ⟨hparts, hspaced⟩)).flip
    rintro part piece ⟨⟨hgrouped, htight, henclosed⟩, front, behind, hfront, hbehind, hfrontNot,
      hbehindNot, rfl⟩
    constructor
    · exact solid_of_enclosed ((grouped_pad_iff hfront hbehind).2 hgrouped)
        ((enclosed_pad_iff hfront hbehind hgrouped).2 ⟨hfrontNot, henclosed, hbehindNot⟩)
    · rw [trim_pad hfront hbehind, htight.trim_eq]
  obtain ⟨hsolid, htrim⟩ := (List.forall₂_and_left _ _).1 hpieces
  have hmap : pieces.map Text.trim = parts := by
    rw [← List.forall₂_eq_eq_eq, List.forall₂_map_left_iff]
    exact htrim
  cases pieces with
  | nil => exact absurd rfl hne
  | cons piece pieces =>
    rw [intercalate_eq_append_flatMap, splitTop_join hopen hclose hsolid, hmap]

end Parts

/-! ### Cores -/

/-- A text around a core: blanks and pairs of parentheses around the whole were added to it. -/
inductive Around (core : List Char) : List Char → Prop where
  /-- Nothing was added. -/
  | core : Around core core
  /-- Blanks. -/
  | blanks {front text behind : List Char} (hfront : Blank front) (hbehind : Blank behind)
      (inner : Around core text) : Around core (front ++ text ++ behind)
  /-- A pair of parentheses. -/
  | pair {text : List Char} (inner : Around core text) : Around core ('(' :: text ++ [')'])

/-- The core of a text, with nothing around it that could be taken off. -/
structure Core (text core : List Char) : Prop where
  /-- Every parenthesis has its partner. -/
  grouped : Grouped core
  /-- There are no blanks at its ends. -/
  tight : Tight core
  /-- It is not one pair of partners with a text between them. -/
  bare : ∀ inner, Grouped inner → core ≠ '(' :: inner ++ [')']
  /-- The text comes back when blanks and whole pairs are added. -/
  around : Around core text

theorem inside?_unwrap (text : List Char) : inside? (unwrap text) = none := by
  fun_induction unwrap text with
  | case1 text inner _ ih => exact ih
  | case2 text hnone => exact hnone

theorem Grouped.unwrap {text : List Char} (h : Grouped text) : Grouped (unwrap text) := by
  fun_induction Sentence.unwrap text with
  | case1 text inner hinside ih => exact ih (inside?_eq_some_iff.1 hinside).2
  | case2 text _ => exact h.trim

/-- What was taken off can be put back. -/
theorem around_unwrap (text : List Char) : Around (unwrap text) text := by
  fun_induction unwrap text with
  | case1 text inner hinside ih =>
    obtain ⟨front, behind, htext, hfront, hbehind⟩ := trim_decompose text
    rw [eq_of_inside? hinside] at htext
    conv_rhs => rw [htext]
    exact .blanks hfront hbehind (.pair ih)
  | case2 text _ =>
    obtain ⟨front, behind, htext, hfront, hbehind⟩ := trim_decompose text
    conv_rhs => rw [htext]
    exact .blanks hfront hbehind .core

theorem Around.grouped {core text : List Char} (hcore : Grouped core) (h : Around core text) :
    Grouped text := by
  induction h with
  | core => exact hcore
  | blanks hfront hbehind _ ih => exact (grouped_pad_iff hfront hbehind).2 ih
  | pair _ ih => exact ih.wrapped

theorem core_unwrap {text : List Char} (h : Grouped text) : Core text (unwrap text) := by
  refine ⟨h.unwrap, ?_, ?_, around_unwrap text⟩
  · rw [← trim_unwrap]
    exact tight_trim _
  · intro inner hinner htext
    have hinside := inside?_eq_some_iff.2 ⟨htext, hinner⟩
    rw [inside?_unwrap] at hinside
    cases hinside

/-- **A text has one core only.** The induction is on what was added to the core. -/
theorem unwrap_of_core {text core : List Char} (h : Core text core) : unwrap text = core := by
  have hself : unwrap core = core := by
    refine unwrap_eq_self h.tight.trim_eq (Option.eq_none_iff_forall_ne_some.2 ?_)
    intro inner hinside
    obtain ⟨htext, hinner⟩ := inside?_eq_some_iff.1 hinside
    exact h.bare inner hinner htext
  obtain ⟨hgrouped, _, _, haround⟩ := h
  induction haround with
  | core => exact hself
  | blanks hfront hbehind _ ih => rw [unwrap_pad hfront hbehind, ih]
  | pair inner ih => rw [unwrap_group (inner.grouped hgrouped), ih]

/-! ### The main result -/

/-- **Cutting and unwrapping respect nesting.** The check of the parentheses passes exactly the
    texts in which every parenthesis has its partner. At any connective, such a text falls into
    parts in one way only, and it is the way it is cut. It has one core only, and unwrapping gives
    it; unwrapping again changes nothing. -/
theorem nesting_respected (text : List Char) :
    (balanced text = true ↔ Grouped text) ∧
    (Grouped text →
      (∀ connective, connective ≠ '(' → connective ≠ ')' →
        ∀ parts, splitTop connective text = parts ↔ FallsInto connective text parts) ∧
      (∀ core, unwrap text = core ↔ Core text core) ∧
      unwrap (unwrap text) = unwrap text) := by
  refine ⟨balanced_iff_grouped, fun h => ⟨?_, ?_, unwrap_unwrap text⟩⟩
  · intro connective hopen hclose parts
    constructor
    · rintro rfl
      exact fallsInto_splitTop hopen hclose h
    · exact splitTop_of_fallsInto hopen hclose
  · intro core
    constructor
    · rintro rfl
      exact core_unwrap h
    · exact unwrap_of_core

/-- A conjunction of two groups within parentheses: these are taken off, those of the first and
    the last group are not, and it is cut between the groups only. -/
theorem nesting_respected_twoGroups :
    (Grouped " ( (P(x)) ∧ (Q ∧ R(x)) )".toList ∧ Grouped "(P(x)) ∧ (Q ∧ R(x))".toList ∧
      '∧' ≠ '(' ∧ '∧' ≠ ')') ∧
    Core " ( (P(x)) ∧ (Q ∧ R(x)) )".toList "(P(x)) ∧ (Q ∧ R(x))".toList ∧
    FallsInto '∧' "(P(x)) ∧ (Q ∧ R(x))".toList ["(P(x))".toList, "(Q ∧ R(x))".toList] := by
  have hwhole := nesting_respected " ( (P(x)) ∧ (Q ∧ R(x)) )".toList
  have hcore := nesting_respected "(P(x)) ∧ (Q ∧ R(x))".toList
  have hwholeGrouped := hwhole.1.1 (by decide +kernel)
  have hcoreGrouped := hcore.1.1 (by decide +kernel)
  refine ⟨⟨hwholeGrouped, hcoreGrouped, by decide, by decide⟩, ?_, ?_⟩
  · exact ((hwhole.2 hwholeGrouped).2.1 _).1 (by decide +kernel)
  · exact ((hcore.2 hcoreGrouped).1 '∧' (by decide) (by decide) _).1 (by decide +kernel)

end Refuter.Sentence
