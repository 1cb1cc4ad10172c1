import Refuter.Proofs.Parsing

/-! # Groups

In a grouped text every parenthesis has its partner, and it comes behind. Such a text is a row of
groups and of characters that are no parentheses. What counts open parentheses from left to right
follows that row:

- The check of the parentheses passes exactly the grouped texts (`balanced_iff_grouped`).
- A pair of parentheses is taken off exactly where the whole text is one group
  (`inside?_eq_some_iff`).
- Inside a group the depth never falls to zero, so a group is not cut (`solid_wrapped`).
-/

namespace Refuter.Sentence

/-- Every parenthesis has its partner, and it comes behind. -/
inductive Grouped : List Char → Prop where
  | nil : Grouped []
  | cons {c : Char} {rest : List Char} (hopen : c ≠ '(') (hclose : c ≠ ')')
      (behind : Grouped rest) : Grouped (c :: rest)
  | group {inner rest : List Char} (inside : Grouped inner) (behind : Grouped rest) :
      Grouped ('(' :: (inner ++ ')' :: rest))

theorem Grouped.append {a b : List Char} (ha : Grouped a) (hb : Grouped b) : Grouped (a ++ b) := by
  induction ha with
  | nil => exact hb
  | cons hopen hclose _ ih => exact .cons hopen hclose ih
  | group inside _ _ ih =>
    rw [List.cons_append, List.append_assoc, List.cons_append]
    exact .group inside ih

theorem Grouped.of_plain {text : List Char} (h : ∀ c ∈ text, c ≠ '(' ∧ c ≠ ')') :
    Grouped text := by
  induction text with
  | nil => exact .nil
  | cons c rest ih =>
    have hc := h c (List.mem_cons_self ..)
    exact .cons hc.1 hc.2 (ih fun d hd => h d (List.mem_cons_of_mem _ hd))

/-- A group is a member of the row, with the rest behind it. -/
theorem group_eq_append (inner rest : List Char) :
    '(' :: (inner ++ ')' :: rest) = '(' :: inner ++ [')'] ++ rest := by
  rw [List.append_assoc]
  rfl

theorem Grouped.wrapped {text : List Char} (h : Grouped text) : Grouped ('(' :: text ++ [')']) :=
  .group h .nil

theorem Grouped.balancedFrom {text : List Char} (h : Grouped text) : ∀ (rest : List Char)
    (depth : Nat), balancedFrom depth (text ++ rest) = balancedFrom depth rest := by
  induction h with
  | nil => exact fun _ _ => rfl
  | cons hopen hclose _ ih =>
    intro rest depth
    simp only [List.cons_append, Sentence.balancedFrom, hopen, hclose, if_false, ih]
  | @group inner behind _ _ ihin ihbehind =>
    intro rest depth
    simp only [List.cons_append, List.append_assoc, Sentence.balancedFrom, if_true, ihin]
    exact ihbehind rest depth

theorem Grouped.closesAtEnd {text : List Char} (h : Grouped text) : ∀ (rest : List Char)
    (depth : Nat), closesAtEnd depth (text ++ rest) = closesAtEnd depth rest := by
  induction h with
  | nil => exact fun _ _ => rfl
  | cons hopen hclose _ ih =>
    intro rest depth
    simp only [List.cons_append, Sentence.closesAtEnd, hopen, hclose, if_false, ih]
  | @group inner behind _ _ ihin ihbehind =>
    intro rest depth
    simp only [List.cons_append, List.append_assoc, Sentence.closesAtEnd, if_true, ihin]
    exact ihbehind rest depth

/-! ### The check of the parentheses -/

/-- A text closes `depth` parentheses that were opened in front of it, and is grouped otherwise. -/
inductive Closes : Nat → List Char → Prop where
  /-- None is left to close. -/
  | grouped {text : List Char} (h : Grouped text) : Closes 0 text
  /-- The innermost one is closed first. -/
  | close {depth : Nat} {inner rest : List Char} (inside : Grouped inner)
      (behind : Closes depth rest) : Closes (depth + 1) (inner ++ ')' :: rest)

theorem Closes.append {depth : Nat} {a b : List Char} (ha : Grouped a) (hb : Closes depth b) :
    Closes depth (a ++ b) := by
  cases hb with
  | grouped h => exact .grouped (ha.append h)
  | close inside behind =>
    rw [← List.append_assoc]
    exact .close (ha.append inside) behind

theorem grouped_singleton {c : Char} (hopen : c ≠ '(') (hclose : c ≠ ')') : Grouped [c] :=
  .cons hopen hclose .nil

theorem closes_of_balancedFrom {text : List Char} : ∀ {depth : Nat},
    balancedFrom depth text = true → Closes depth text := by
  induction text with
  | nil =>
    intro depth h
    obtain rfl : depth = 0 := of_decide_eq_true h
    exact .grouped .nil
  | cons c rest ih =>
    intro depth h
    simp only [balancedFrom] at h
    by_cases hopen : c = '('
    · -- what closes this parenthesis makes it a group
      subst hopen
      rw [if_pos rfl] at h
      cases ih h with
      | close inside behind =>
        have := Closes.append inside.wrapped behind
        rwa [List.append_assoc] at this
    · rw [if_neg hopen] at h
      by_cases hclose : c = ')'
      · subst hclose
        rw [if_pos rfl] at h
        cases depth with
        | zero => cases h
        | succ depth => exact .close .nil (ih h)
      · rw [if_neg hclose] at h
        exact .append (grouped_singleton hopen hclose) (ih h)

/-- **The check of the parentheses** passes exactly the grouped texts. -/
theorem balanced_iff_grouped {text : List Char} : balanced text = true ↔ Grouped text := by
  constructor
  · intro h
    cases closes_of_balancedFrom h with
    | grouped h => exact h
  · intro h
    have := h.balancedFrom [] 0
    rwa [List.append_nil] at this

/-! ### Parentheses around the whole -/

theorem closesAtEnd_concat (inner : List Char) : ∀ depth,
    closesAtEnd depth (inner ++ [')']) = balancedFrom depth inner := by
  induction inner with
  | nil =>
    intro depth
    cases depth <;> rfl
  | cons c inner ih =>
    intro depth
    simp only [List.cons_append, closesAtEnd, balancedFrom, ih]
    cases depth with
    | zero =>
      have hmore : (inner ++ [')']).isEmpty = false := by simp
      rw [hmore]
    | succ depth => rfl

/-- **Parentheses around the whole** are those around a grouped text: the last one is the partner
    of the first. -/
theorem inside?_eq_some_iff {text inner : List Char} :
    inside? text = some inner ↔ text = '(' :: inner ++ [')'] ∧ Grouped inner := by
  have hvalue : inside? ('(' :: inner ++ [')'])
      = if balancedFrom 0 inner then some inner else none := by
    rw [List.cons_append, inside?, closesAtEnd_concat, List.dropLast_concat]
  rw [← balanced_iff_grouped, balanced]
  constructor
  · intro h
    have htext := eq_of_inside? h
    rw [htext, hvalue] at h
    exact ⟨htext, (Option.ite_none_right_eq_some.1 h).1⟩
  · rintro ⟨rfl, hbalanced⟩
    rw [hvalue, if_pos hbalanced]

/-- Parentheses around a group are taken off. -/
theorem unwrap_group {text : List Char} (h : Grouped text) :
    unwrap ('(' :: text ++ [')']) = unwrap text := by
  have htrim : Text.trim ('(' :: text ++ [')']) = '(' :: text ++ [')'] := by
    refine trim_eq_self (fun c hc => ?_) fun c hc => ?_
    · cases hc
      decide
    · rw [List.getLast?_concat] at hc
      cases hc
      decide
  have hinside : inside? ('(' :: text ++ [')']) = some text := inside?_eq_some_iff.2 ⟨rfl, h⟩
  rw [unwrap]
  split
  · rename_i inner hinner
    rw [htrim, hinside] at hinner
    rw [Option.some.inj hinner]
  · rename_i hnone
    rw [htrim, hinside] at hnone
    cases hnone

/-! ### Texts that are not cut -/

/-- Puts a text in front of the first part. -/
def appendFirst (text : List Char) (parts : List (List Char)) : List (List Char) :=
  text.foldr consFirst parts

theorem appendFirst_append (a b : List Char) (parts : List (List Char)) :
    appendFirst (a ++ b) parts = appendFirst a (appendFirst b parts) :=
  List.foldr_append

theorem appendFirst_cons (text part : List Char) (parts : List (List Char)) :
    appendFirst text (part :: parts) = (text ++ part) :: parts := by
  induction text with
  | nil => rfl
  | cons c rest ih =>
    show consFirst c (appendFirst rest (part :: parts)) = _
    rw [ih]
    rfl

/-- Inside a group nothing is cut. -/
theorem Grouped.cutFrom {text : List Char} (h : Grouped text) (connective : Char)
    (rest : List Char) : ∀ depth : Int, 0 < depth →
      cutFrom connective depth (text ++ rest)
        = appendFirst text (cutFrom connective depth rest) := by
  induction h generalizing rest with
  | nil => exact fun _ _ => rfl
  | cons hopen hclose _ ih =>
    intro depth hdepth
    rw [List.cons_append, Sentence.cutFrom, if_neg hopen, if_neg hclose,
      if_neg fun h => Int.ne_of_gt hdepth h.2, ih rest depth hdepth]
    rfl
  | @group inner behind _ _ ihin ihbehind =>
    intro depth hdepth
    rw [List.cons_append, List.append_assoc, List.cons_append, Sentence.cutFrom, if_pos rfl,
      ihin _ _ (by omega), Sentence.cutFrom, if_neg (by decide), if_pos rfl, Int.add_sub_cancel,
      ihbehind rest depth hdepth]
    show _ = consFirst '(' (appendFirst (inner ++ ')' :: behind) _)
    rw [appendFirst_append]
    rfl

/-- A text in which nothing is cut at a connective. -/
def Solid (connective : Char) (text : List Char) : Prop :=
  ∀ rest, cutFrom connective 0 (text ++ rest) = appendFirst text (cutFrom connective 0 rest)

theorem Solid.append {connective : Char} {a b : List Char} (ha : Solid connective a)
    (hb : Solid connective b) : Solid connective (a ++ b) := by
  intro rest
  rw [List.append_assoc, ha, hb, appendFirst_append]

theorem solid_of_plain {connective : Char} {text : List Char}
    (h : ∀ c ∈ text, c ≠ '(' ∧ c ≠ ')' ∧ c ≠ connective) : Solid connective text := by
  intro rest
  induction text with
  | nil => rfl
  | cons c tail ih =>
    obtain ⟨hopen, hclose, hne⟩ := h c (List.mem_cons_self ..)
    rw [List.cons_append, cutFrom, if_neg hopen, if_neg hclose, if_neg fun h => hne h.1,
      ih fun d hd => h d (List.mem_cons_of_mem _ hd)]
    rfl

theorem solid_wrapped {connective : Char} {text : List Char} (h : Grouped text) :
    Solid connective ('(' :: text ++ [')']) := by
  intro rest
  rw [List.append_assoc, List.cons_append, cutFrom, if_pos rfl,
    h.cutFrom connective _ _ (by omega), List.singleton_append, cutFrom, if_neg (by decide),
    if_pos rfl]
  show _ = appendFirst ('(' :: (text ++ [')'])) _
  show _ = consFirst '(' (appendFirst (text ++ [')']) _)
  rw [appendFirst_append]
  rfl

theorem Solid.cutFrom_eq {connective : Char} {text : List Char} (h : Solid connective text) :
    cutFrom connective 0 text = [text] := by
  have := h []
  rwa [List.append_nil, cutFrom, appendFirst_cons, List.append_nil] at this

theorem Solid.splitTop_eq {connective : Char} {text : List Char} (h : Solid connective text) :
    splitTop connective text = [Text.trim text] := by
  rw [splitTop, h.cutFrom_eq]
  rfl

end Refuter.Sentence
