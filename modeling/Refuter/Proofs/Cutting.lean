import Refuter.Proofs.Rendering
import Refuter.Proofs.Words

/-! # Cutting a text

A text is cut at a connective that stands outside all parentheses. Three facts make cuts
predictable:

- Blanks at the ends make no difference to the parts, and a text that is wrapped in
  parentheses as a whole falls apart nowhere.
- Behind a text whose parentheses match, a connective is a cut.
- Cutting at one connective and the parts at another gives the same pieces in either order,
  grouped in two ways (`regrouped_splitTop`).

**Two groupings.** Take the pieces in a row, with a connective between neighbours. Rows are
what one connective holds together, columns what the other does. The first piece begins both
the first row and the first column, so the two are built together from behind.
-/

namespace Refuter.Sentence

/-! ### Blanks at the ends -/

/-- There is nothing but blanks. -/
def Blank (text : List Char) : Prop :=
  ∀ c ∈ text, Text.isBlank c = true

theorem Blank.not_mem {text : List Char} (h : Blank text) {c : Char}
    (hc : Text.isBlank c = false) : c ∉ text := by
  intro hmem
  rw [h c hmem] at hc
  cases hc

theorem trim_blank {text : List Char} (h : Blank text) : Text.trim text = [] := by
  have hfront : Text.trimLeft text = [] := List.dropWhile_eq_nil_iff.2 h
  rw [Text.trim, hfront]
  rfl

theorem trim_pad {front behind : List Char} (hfront : Blank front) (hbehind : Blank behind)
    (text : List Char) : Text.trim (front ++ text ++ behind) = Text.trim text := by
  have hleft : Text.trimLeft (front ++ text ++ behind) = Text.trimLeft (text ++ behind) := by
    rw [List.append_assoc]
    exact List.dropWhile_append_of_pos hfront
  rw [Text.trim, hleft, Text.trimLeft, List.dropWhile_append]
  split
  · -- the text itself is blank
    rename_i hempty
    have hblank : Blank text := List.dropWhile_eq_nil_iff.1 (List.isEmpty_iff.1 hempty)
    rw [trim_blank hblank]
    exact trim_blank hbehind
  · rw [Text.trimRight, List.reverse_append,
      List.dropWhile_append_of_pos fun c hc => hbehind c (List.mem_reverse.1 hc)]
    rfl

theorem unwrap_pad {front behind : List Char} (hfront : Blank front) (hbehind : Blank behind)
    (text : List Char) : unwrap (front ++ text ++ behind) = unwrap text := by
  rw [unwrap, trim_pad hfront hbehind, ← unwrap]

theorem unwrap_trim (text : List Char) : unwrap (Text.trim text) = unwrap text := by
  rw [unwrap, trim_trim, ← unwrap]

/-- What stands behind the last cut belongs to the last part. -/
theorem exists_cutFrom_append {connective : Char} {behind : List Char} (h : connective ∉ behind)
    (text : List Char) : ∀ depth, ∃ parts last, cutFrom connective depth text = parts ++ [last] ∧
      cutFrom connective depth (text ++ behind) = parts ++ [last ++ behind] := by
  induction text with
  | nil =>
    intro depth
    exact ⟨[], [], rfl, cutFrom_of_not_mem h depth⟩
  | cons c rest ih =>
    intro depth
    have kept : ∀ depth', ∃ parts last,
        consFirst c (cutFrom connective depth' rest) = parts ++ [last] ∧
          consFirst c (cutFrom connective depth' (rest ++ behind)) = parts ++ [last ++ behind] := by
      intro depth'
      obtain ⟨parts, last, hcut, hcut'⟩ := ih depth'
      rw [hcut, hcut']
      cases parts with
      | nil => exact ⟨[], c :: last, rfl, rfl⟩
      | cons part parts => exact ⟨(c :: part) :: parts, last, rfl, rfl⟩
    simp only [List.cons_append, cutFrom]
    split
    · exact kept _
    · split
      · exact kept _
      · split
        · obtain ⟨parts, last, hcut, hcut'⟩ := ih depth
          exact ⟨[] :: parts, last, by rw [hcut]; rfl, by rw [hcut']; rfl⟩
        · exact kept _

/-- **Blanks at the ends** make no difference to the parts. -/
theorem splitTop_pad {connective : Char} (hop : isOperator connective = true)
    {front behind : List Char} (hfront : Blank front) (hbehind : Blank behind)
    (text : List Char) :
    splitTop connective (front ++ text ++ behind) = splitTop connective text := by
  have hblank : Text.isBlank connective = false := (isOperator_ne hop).1
  have hsolid : Solid connective front := solid_of_plain fun c hc => by
    refine ⟨?_, ?_, ?_⟩ <;> rintro rfl
    · exact hfront.not_mem (by decide) hc
    · exact hfront.not_mem (by decide) hc
    · exact hfront.not_mem hblank hc
  obtain ⟨parts, last, hcut, hcut'⟩ := exists_cutFrom_append (hbehind.not_mem hblank) text 0
  have hempty : Blank ([] : List Char) := fun _ h => by cases h
  have hback : ∀ part, Text.trim (part ++ behind) = Text.trim part := fun part => by
    have := trim_pad hempty hbehind part
    rwa [List.nil_append] at this
  have hahead : ∀ part, Text.trim (front ++ part) = Text.trim part := fun part => by
    have := trim_pad hfront hempty part
    rwa [List.append_nil] at this
  rw [splitTop, splitTop, List.append_assoc, hsolid, hcut, hcut']
  cases parts with
  | nil =>
    rw [List.nil_append, appendFirst_cons, List.map_singleton, hahead, hback]
    rfl
  | cons part parts =>
    rw [List.cons_append, appendFirst_cons, List.map_cons, hahead, List.map_append,
      List.map_singleton, hback, List.cons_append, List.map_cons, List.map_append]
    rfl

theorem splitTop_trim {connective : Char} (hop : isOperator connective = true)
    (text : List Char) : splitTop connective (Text.trim text) = splitTop connective text := by
  obtain ⟨front, behind, htext, hfront, hbehind⟩ := trim_decompose text
  have hpad := splitTop_pad hop hfront hbehind (Text.trim text)
  rw [← htext] at hpad
  exact hpad.symm

/-! ### Wrapped texts -/

/-- **A wrapped text falls apart nowhere.** -/
theorem length_splitTop_of_inside? {text inner : List Char} (h : inside? text = some inner)
    (connective : Char) : (splitTop connective text).length = 1 := by
  obtain ⟨rfl, hinner⟩ := inside?_eq_some_iff.1 h
  rw [(solid_wrapped hinner).splitTop_eq]
  rfl

/-- A text that falls apart has no parentheses around it. -/
theorem unwrap_of_splits {connective : Char} (hop : isOperator connective = true)
    {text : List Char} (h : 1 < (splitTop connective text).length) :
    unwrap text = Text.trim text := by
  rw [unwrap]
  split
  · rename_i inner hinner
    have hone := length_splitTop_of_inside? hinner connective
    rw [splitTop_trim hop] at hone
    omega
  · rfl

/-! ### Behind matching parentheses -/

theorem appendFirst_append_parts (text : List Char) {parts : List (List Char)} (h : parts ≠ [])
    (more : List (List Char)) : appendFirst text (parts ++ more) = appendFirst text parts ++ more := by
  cases parts with
  | nil => exact absurd rfl h
  | cons part parts =>
    rw [List.cons_append, appendFirst_cons, appendFirst_cons]
    rfl

/-- Where all parentheses are closed again, the connective is a cut. -/
theorem Grouped.cutFrom_append_cut {connective : Char} (hopen : connective ≠ '(')
    (hclose : connective ≠ ')') {text : List Char} (h : Grouped text) (rest : List Char) :
    Sentence.cutFrom connective 0 (text ++ connective :: rest)
      = Sentence.cutFrom connective 0 text ++ Sentence.cutFrom connective 0 rest := by
  induction h with
  | nil => simp [Sentence.cutFrom, hopen, hclose]
  | @cons c behind hcopen hcclose _ ih =>
    rw [List.cons_append, Sentence.cutFrom, Sentence.cutFrom, if_neg hcopen, if_neg hcclose,
      if_neg hcopen, if_neg hcclose, ih]
    split
    · rfl
    · -- a character that is kept goes to the first part, in front of the cut
      exact appendFirst_append_parts [c] (cutFrom_ne_nil _ _ _) _
  | @group inner behind inside _ _ ih =>
    rw [group_eq_append, List.append_assoc, solid_wrapped inside, solid_wrapped inside, ih,
      appendFirst_append_parts _ (cutFrom_ne_nil _ _ _)]

/-- Parts are not cut again. -/
theorem exists_cutFrom_once {connective : Char} (text : List Char) : ∀ depth,
    ∃ first rest, cutFrom connective depth text = first :: rest ∧
      (cutFrom connective depth first).length = 1 ∧
      ∀ part ∈ rest, (cutFrom connective 0 part).length = 1 := by
  induction text with
  | nil => exact fun _ => ⟨[], [], rfl, rfl, by simp⟩
  | cons c text ih =>
    intro depth
    have kept : ∀ depth', (∀ part, cutFrom connective depth (c :: part)
        = consFirst c (cutFrom connective depth' part)) →
        ∃ first rest, cutFrom connective depth (c :: text) = first :: rest ∧
          (cutFrom connective depth first).length = 1 ∧
          ∀ part ∈ rest, (cutFrom connective 0 part).length = 1 := by
      intro depth' hkept
      obtain ⟨first, rest, hcut, hfirst, hrest⟩ := ih depth'
      refine ⟨c :: first, rest, by rw [hkept, hcut]; rfl, ?_, hrest⟩
      rw [hkept, length_consFirst_eq c (cutFrom_ne_nil _ _ _), hfirst]
    by_cases hopen : c = '('
    · exact kept (depth + 1) fun part => by simp [cutFrom, hopen]
    · by_cases hclose : c = ')'
      · exact kept (depth - 1) fun part => by simp [cutFrom, hclose]
      · by_cases hcut : c = connective ∧ depth = 0
        · obtain ⟨first, rest, hrest, hfirst, hall⟩ := ih depth
          refine ⟨[], first :: rest, ?_, rfl, ?_⟩
          · rw [cutFrom, if_neg hopen, if_neg hclose, if_pos hcut, hrest]
          · obtain rfl := hcut.2
            exact List.forall_mem_cons.2 ⟨hfirst, hall⟩
        · exact kept depth fun part => by rw [cutFrom, if_neg hopen, if_neg hclose, if_neg hcut]

/-- **A part has no cut of its own.** -/
theorem length_splitTop_of_mem {connective : Char} (hop : isOperator connective = true)
    {text part : List Char} (h : part ∈ splitTop connective text) :
    (splitTop connective part).length = 1 := by
  obtain ⟨raw, hraw, rfl⟩ := List.mem_map.1 h
  obtain ⟨first, rest, hcut, hfirst, hrest⟩ := exists_cutFrom_once text 0
  rw [splitTop_trim hop, splitTop, List.length_map]
  rw [hcut] at hraw
  rcases List.mem_cons.1 hraw with rfl | hraw
  · exact hfirst
  · exact hrest raw hraw

/-! ### Two groupings of the same pieces -/

/-- The rows and the columns of pieces that stand in a row: between two neighbours either
    the row ends or the column does. -/
inductive Regrouped {α : Type} : List (List α) → List (List α) → Prop where
  /-- There is a single piece. -/
  | single (p : α) : Regrouped [[p]] [[p]]
  /-- The row ends behind the first piece. -/
  | rowEnds (p : α) {row col : List α} {rows cols : List (List α)}
      (behind : Regrouped (row :: rows) (col :: cols)) :
      Regrouped ([p] :: row :: rows) ((p :: col) :: cols)
  /-- The column ends behind the first piece. -/
  | colEnds (p : α) {row col : List α} {rows cols : List (List α)}
      (behind : Regrouped (row :: rows) (col :: cols)) :
      Regrouped ((p :: row) :: rows) ([p] :: col :: cols)

namespace Regrouped

variable {α : Type} {rows cols : List (List α)}

theorem symm (h : Regrouped rows cols) : Regrouped cols rows := by
  induction h with
  | single p => exact .single p
  | rowEnds p _ ih => exact .colEnds p ih
  | colEnds p _ ih => exact .rowEnds p ih

/-- The pieces are the same, in the same order. -/
theorem flatten_eq (h : Regrouped rows cols) : rows.flatten = cols.flatten := by
  induction h with
  | single p => rfl
  | rowEnds p _ ih => exact congrArg (p :: ·) ih
  | colEnds p _ ih => exact congrArg (p :: ·) ih

theorem map {β : Type} (f : α → β) (h : Regrouped rows cols) :
    Regrouped (rows.map (List.map f)) (cols.map (List.map f)) := by
  induction h with
  | single p => exact .single (f p)
  | rowEnds p _ ih => exact .rowEnds (f p) ih
  | colEnds p _ ih => exact .colEnds (f p) ih

/-- If there is one row, each piece is a column. -/
theorem cols_eq {row : List α} (h : Regrouped [row] cols) :
    cols = row.map fun p => [p] := by
  generalize hrows : [row] = rows at h
  induction h generalizing row with
  | single p =>
    cases hrows
    rfl
  | rowEnds p _ _ => simp at hrows
  | colEnds p behind ih =>
    cases hrows
    exact congrArg ([p] :: ·) (ih rfl)

/-- **A true piece in every row** makes all pieces of some column true. -/
theorem exists_col {P : α → Prop} (h : Regrouped rows cols)
    (hrows : ∀ row ∈ rows, ∃ p ∈ row, P p) : ∃ col ∈ cols, ∀ p ∈ col, P p := by
  induction h with
  | single p => simpa using hrows
  | rowEnds p behind ih =>
    rw [List.forall_mem_cons] at hrows
    have hp : P p := by simpa using hrows.1
    obtain ⟨col, hcol, hall⟩ := ih hrows.2
    rcases List.mem_cons.1 hcol with rfl | hcol
    · exact ⟨_, List.mem_cons_self .., List.forall_mem_cons.2 ⟨hp, hall⟩⟩
    · exact ⟨col, List.mem_cons_of_mem _ hcol, hall⟩
  | colEnds p behind ih =>
    by_cases hp : P p
    · exact ⟨[p], List.mem_cons_self .., by simpa using hp⟩
    · rw [List.forall_mem_cons] at hrows
      obtain ⟨q, hq, hPq⟩ := hrows.1
      -- the first row has a true piece behind the first one
      have hqrow := (List.mem_cons.1 hq).resolve_left fun hqp => hp (hqp ▸ hPq)
      obtain ⟨col, hcol, hall⟩ := ih (List.forall_mem_cons.2 ⟨⟨q, hqrow, hPq⟩, hrows.2⟩)
      exact ⟨col, List.mem_cons_of_mem _ hcol, hall⟩

/-- With one row or one column both groupings say the same. -/
theorem exists_col_iff {P : α → Prop} (h : Regrouped rows cols)
    (hone : rows.length ≤ 1 ∨ cols.length ≤ 1) :
    (∀ row ∈ rows, ∃ p ∈ row, P p) ↔ ∃ col ∈ cols, ∀ p ∈ col, P p := by
  rcases hone with hone | hone
  · cases rows with
    | nil => cases h
    | cons row rest =>
      obtain rfl := List.length_eq_zero_iff.1 (Nat.le_zero.1 (Nat.le_of_succ_le_succ hone))
      rw [h.cols_eq]
      simp
  · cases cols with
    | nil => cases h
    | cons col rest =>
      obtain rfl := List.length_eq_zero_iff.1 (Nat.le_zero.1 (Nat.le_of_succ_le_succ hone))
      rw [h.symm.cols_eq]
      simp

/-- Several rows and several columns: some row and some column have no piece in common. -/
theorem exists_disjoint (h : Regrouped rows cols) (hrows : 1 < rows.length)
    (hcols : 1 < cols.length) (hnodup : rows.flatten.Nodup) :
    ∃ row ∈ rows, ∃ col ∈ cols, ∀ p ∈ row, p ∉ col := by
  have hflat := h.flatten_eq
  cases h with
  | single p => simp at hrows
  | @rowEnds p row col rows cols behind =>
    -- a column that does not begin with the first piece
    rw [hflat, List.flatten_cons, List.cons_append, List.nodup_cons] at hnodup
    cases cols with
    | nil => simp at hcols
    | cons other cols =>
      refine ⟨[p], List.mem_cons_self .., other, by simp, ?_⟩
      intro q hq hmem
      rw [List.mem_singleton.1 hq] at hmem
      exact hnodup.1 (by simp [hmem])
  | @colEnds p row col rows cols behind =>
    rw [List.flatten_cons, List.cons_append, List.nodup_cons] at hnodup
    cases rows with
    | nil => simp at hrows
    | cons other rows =>
      refine ⟨other, by simp, [p], List.mem_cons_self .., ?_⟩
      intro q hq hmem
      rw [List.mem_singleton.1 hmem] at hq
      exact hnodup.1 (by simp [hq])

/-- A property of all pieces in rows and columns of several is one of all pieces, or there
    is only one. -/
theorem forall_pieces {P : α → Prop} (h : Regrouped rows cols)
    (hrows : ∀ row ∈ rows, 1 < row.length → ∀ p ∈ row, P p)
    (hcols : ∀ col ∈ cols, 1 < col.length → ∀ p ∈ col, P p) :
    (∀ row ∈ rows, ∀ p ∈ row, P p) ∨ ∃ p, rows = [[p]] ∧ cols = [[p]] := by
  have hne : ∀ {row col : List α} {rows cols : List (List α)},
      Regrouped (row :: rows) (col :: cols) → 0 < row.length ∧ 0 < col.length := by
    intro row col rows cols h
    cases h <;> simp
  induction h with
  | single p => exact .inr ⟨p, rfl, rfl⟩
  | @rowEnds p row col rows cols behind ih =>
    rw [List.forall_mem_cons] at hrows hcols
    have hcol : ∀ q ∈ p :: col, P q := hcols.1 (by simpa using (hne behind).2)
    rw [List.forall_mem_cons] at hcol
    refine .inl (List.forall_mem_cons.2 ⟨by simpa using hcol.1, ?_⟩)
    rcases ih hrows.2 (List.forall_mem_cons.2 ⟨fun _ => hcol.2, hcols.2⟩) with hall | ⟨q, hr, hc⟩
    · exact hall
    · cases hr
      cases hc
      simpa using hcol.2
  | @colEnds p row col rows cols behind ih =>
    rw [List.forall_mem_cons] at hrows hcols
    have hrow : ∀ q ∈ p :: row, P q := hrows.1 (by simpa using (hne behind).1)
    refine .inl (List.forall_mem_cons.2 ⟨hrow, ?_⟩)
    rw [List.forall_mem_cons] at hrow
    rcases ih (List.forall_mem_cons.2 ⟨fun _ => hrow.2, hrows.2⟩) hcols.2 with hall | ⟨q, hr, hc⟩
    · exact (List.forall_mem_cons.1 hall).2
    · cases hr
      simp

end Regrouped

/-! ### Cutting at two connectives -/

/-- The pieces of a text, cut at one connective and the parts at another. -/
def cutTwice (first second : Char) (depth : Int) (text : List Char) : List (List (List Char)) :=
  match cutFrom first depth text with
  | [] => []
  | part :: parts => cutFrom second depth part :: parts.map (cutFrom second 0)

/-- From the outside all parts begin there. -/
theorem cutTwice_zero (first second : Char) (text : List Char) :
    cutTwice first second 0 text = (cutFrom first 0 text).map (cutFrom second 0) := by
  rw [cutTwice]
  cases cutFrom first 0 text <;> rfl

/-- Puts a character in front of the first piece. -/
def consPiece (c : Char) : List (List (List Char)) → List (List (List Char))
  | [] => []
  | row :: rows => consFirst c row :: rows

theorem Regrouped.consPiece (c : Char) {rows cols : List (List (List Char))}
    (h : Regrouped rows cols) :
    Regrouped (Sentence.consPiece c rows) (Sentence.consPiece c cols) := by
  cases h with
  | single p => exact .single (c :: p)
  | rowEnds p behind => exact .rowEnds (c :: p) behind
  | colEnds p behind => exact .colEnds (c :: p) behind

theorem cutTwice_of_kept {first second c : Char} {depth depth' : Int} {text : List Char}
    (hfirst : cutFrom first depth (c :: text) = consFirst c (cutFrom first depth' text))
    (hsecond : ∀ part, cutFrom second depth (c :: part)
      = consFirst c (cutFrom second depth' part)) :
    cutTwice first second depth (c :: text) = consPiece c (cutTwice first second depth' text) := by
  rw [cutTwice, hfirst, cutTwice]
  cases hcut : cutFrom first depth' text with
  | nil => exact absurd hcut (cutFrom_ne_nil _ _ _)
  | cons part parts =>
    show cutFrom second depth (c :: part) :: _ = _
    rw [hsecond]
    rfl

/-- Outside of parentheses the first connective begins a new part, and the pieces of the text
    behind it are the parts to come. -/
theorem cutTwice_cut {first : Char} (second : Char) (hop : isOperator first = true)
    (text : List Char) :
    cutTwice first second 0 (first :: text) = [[]] :: cutTwice first second 0 text := by
  obtain ⟨hopen, hclose⟩ := isOperator_ne_paren hop
  have hcut : cutFrom first 0 (first :: text) = [] :: cutFrom first 0 text := by
    simp [cutFrom, hopen, hclose]
  rw [cutTwice_zero, hcut, List.map_cons, ← cutTwice_zero]
  rfl

/-- For the second connective the same place begins a piece of the first part. -/
theorem exists_cutTwice_cut {first second : Char} (hne : first ≠ second)
    (hop : isOperator first = true) (text : List Char) :
    ∃ col cols, cutTwice second first 0 text = col :: cols ∧
      cutTwice second first 0 (first :: text) = ([] :: col) :: cols := by
  obtain ⟨hopen, hclose⟩ := isOperator_ne_paren hop
  have hcut : ∀ part, cutFrom first 0 (first :: part) = [] :: cutFrom first 0 part := by
    intro part
    simp [cutFrom, hopen, hclose]
  have hkept : cutFrom second 0 (first :: text) = consFirst first (cutFrom second 0 text) := by
    simp [cutFrom, hopen, hclose, hne]
  rw [cutTwice, cutTwice, hkept]
  cases hcol : cutFrom second 0 text with
  | nil => exact absurd hcol (cutFrom_ne_nil _ _ _)
  | cons part parts =>
    refine ⟨cutFrom first 0 part, parts.map (cutFrom first 0), rfl, ?_⟩
    show cutFrom first 0 (first :: part) :: _ = _
    rw [hcut]

/-- A cut of one kind ends the row, and what is behind goes on in the column. -/
theorem Regrouped.cut {first second : Char} {text : List Char} (hne : first ≠ second)
    (hop : isOperator first = true)
    (h : Regrouped (cutTwice first second 0 text) (cutTwice second first 0 text)) :
    Regrouped (cutTwice first second 0 (first :: text))
      (cutTwice second first 0 (first :: text)) := by
  obtain ⟨col, cols, hcol, hcol'⟩ := exists_cutTwice_cut hne hop text
  rw [cutTwice_cut second hop, hcol']
  rw [hcol] at h
  cases hrow : cutTwice first second 0 text with
  | nil =>
    rw [hrow] at h
    cases h
  | cons row rows =>
    rw [hrow] at h
    exact .rowEnds [] h

/-- **Cutting in either order** gives the same pieces, grouped in two ways. -/
theorem regrouped_cutTwice {first second : Char} (hne : first ≠ second)
    (hfirst : isOperator first = true) (hsecond : isOperator second = true) (text : List Char) :
    ∀ depth, Regrouped (cutTwice first second depth text) (cutTwice second first depth text) := by
  induction text with
  | nil => exact fun _ => .single []
  | cons c text ih =>
    intro depth
    -- a character that is no cut goes to the first piece
    have kept : ∀ depth', (∀ op part, isOperator op = true →
        (op = first ∨ op = second) → cutFrom op depth (c :: part)
          = consFirst c (cutFrom op depth' part)) →
        Regrouped (cutTwice first second depth (c :: text))
          (cutTwice second first depth (c :: text)) := by
      intro depth' hkept
      have h₁ := fun part => hkept first part hfirst (.inl rfl)
      have h₂ := fun part => hkept second part hsecond (.inr rfl)
      rw [cutTwice_of_kept (h₁ text) h₂, cutTwice_of_kept (h₂ text) h₁]
      exact (ih depth').consPiece c
    by_cases hopen : c = '('
    · exact kept (depth + 1) fun op part _ _ => by simp [cutFrom, hopen]
    · by_cases hclose : c = ')'
      · exact kept (depth - 1) fun op part _ _ => by simp [cutFrom, hclose]
      · by_cases hcut : (c = first ∨ c = second) ∧ depth = 0
        · obtain ⟨rfl | rfl, rfl⟩ := hcut
          · exact (ih 0).cut hne hfirst
          · exact ((ih 0).symm.cut hne.symm hsecond).symm
        · refine kept depth fun op part _ hop => ?_
          have hno : ¬ (c = op ∧ depth = 0) := by
            rintro ⟨rfl, hdepth⟩
            exact hcut ⟨hop, hdepth⟩
          rw [cutFrom, if_neg hopen, if_neg hclose, if_neg hno]

/-- **Two groupings of a text:** the parts of its parts, trimmed, for two connectives in
    either order. -/
theorem regrouped_splitTop {first second : Char} (hne : first ≠ second)
    (hfirst : isOperator first = true) (hsecond : isOperator second = true) (text : List Char) :
    Regrouped ((splitTop first text).map (splitTop second))
      ((splitTop second text).map (splitTop first)) := by
  have htrim : ∀ {c c' : Char}, isOperator c' = true →
      (splitTop c text).map (splitTop c')
        = (cutTwice c c' 0 text).map (List.map Text.trim) := by
    intro c c' hc'
    rw [cutTwice_zero, splitTop, List.map_map, List.map_map]
    exact List.map_congr_left fun part _ => splitTop_trim hc' part
  rw [htrim hsecond, htrim hfirst]
  exact (regrouped_cutTwice hne hfirst hsecond text 0).map _

/-- Where a connective cuts nothing, it cuts none of the parts. -/
theorem length_splitTop_part {first second : Char} (hne : first ≠ second)
    (hfirst : isOperator first = true) (hsecond : isOperator second = true)
    {text part : List Char} (hnone : (splitTop second text).length ≤ 1)
    (h : part ∈ splitTop first text) : (splitTop second part).length = 1 := by
  have hgroups := regrouped_splitTop hne hfirst hsecond text
  rw [splitTop_eq_singleton hnone, List.map_singleton] at hgroups
  have hmem : splitTop second part ∈ (splitTop first text).map (splitTop second) :=
    List.mem_map.2 ⟨part, h, rfl⟩
  rw [hgroups.symm.cols_eq] at hmem
  obtain ⟨p, _, hp⟩ := List.mem_map.1 hmem
  rw [← hp]
  rfl

/-! ### Normal forms -/

/-- **Spellings are replaced piece by piece:** no spelling is torn apart in front of a
    character other than `>`. -/
theorem canonical_append (text : List Char) {rest : List Char} (h : rest.head? ≠ some '>') :
    canonical (text ++ rest) = canonical text ++ canonical rest := by
  fun_induction canonical text with
  | case1 => rfl
  | case2 text ih => exact congrArg ('⇒' :: ·) ih
  | case3 text ih => exact congrArg ('⇒' :: ·) ih
  | case4 c text hdouble hsingle ih =>
    rw [List.cons_append, canonical.eq_4]
    · exact congrArg (symbolOf c :: ·) ih
    all_goals
      rintro tail rfl heq
      cases text with
      | nil => simp [show rest = '>' :: tail from heq] at h
      | cons d text =>
        obtain ⟨rfl, rfl⟩ := List.cons.inj heq
        first
          | exact hdouble _ rfl rfl
          | exact hsingle _ rfl rfl

/-- **What normalising does:** a text without equivalence signs, with matching parentheses
    and not blank is trimmed once its spellings are replaced. -/
theorem normalize_iff {sentence : String} {text : List Char} :
    Sentence.normalize sentence = .ok text ↔
      (∀ symbol ∈ unsupported, occursIn symbol.toList sentence.toList = false) ∧
        balanced (canonical sentence.toList) = true ∧
        Text.trim (canonical sentence.toList) ≠ [] ∧
        text = Text.trim (canonical sentence.toList) := by
  rw [Sentence.normalize]
  dsimp only
  split
  · rename_i symbol hfind
    have hmem := List.mem_of_find?_eq_some hfind
    have hoccurs := List.find?_some hfind
    constructor
    · intro h
      cases h
    · intro h
      rw [h.1 symbol hmem] at hoccurs
      cases hoccurs
  · rename_i hfind
    have hnone : ∀ symbol ∈ unsupported, occursIn symbol.toList sentence.toList = false :=
      fun symbol hmem => Bool.eq_false_iff.2 (List.find?_eq_none.1 hfind symbol hmem)
    rw [and_iff_right hnone]
    by_cases hbalanced : balanced (canonical sentence.toList) = true
    · by_cases hempty : Text.trim (canonical sentence.toList) = []
      · simp only [hbalanced, hempty]
        simp
      · simp only [hbalanced, List.isEmpty_eq_false_iff.2 hempty]
        simp [hempty, eq_comm]
    · simp [hbalanced]

end Refuter.Sentence
