import Refuter.Json.Draft
import Refuter.Proofs.JsonText

/-! # What has a place in a file

A value goes into a file up to the first scalar that has no place there. Two things follow
from looking at the scalars alone.

- **The draft** of a value is its whole text exactly if every scalar has a place
  (`Json.stop_draft`, `Json.text_draft`).
- **The text** then has no half (`Json.hasHalf_render`). A half is two characters behind
  each other, and what stands between two texts keeps their characters apart; escaping
  keeps them as they are.

So a value whose scalars all have a place is written as a whole wherever a file can be opened.
-/

namespace Refuter

/-! ### Texts without halves -/

namespace Text

/-- There is no half among the pieces. -/
def Whole (text : List Char) : Prop :=
  ∀ n, Piece.half n ∉ pieces text

theorem hasHalf_eq_false_iff {s : String} : hasHalf s = false ↔ Whole s.toList := by
  unfold hasHalf
  rw [List.any_eq_false]
  constructor
  · intro h n hmem
    exact h _ hmem rfl
  · intro h p hp
    cases p with
    | char c => exact Bool.false_ne_true
    | half n => exact absurd hp (h n)

theorem whole_nil : Whole [] :=
  fun _ => List.not_mem_nil

theorem whole_cons_of_ne {c : Char} (h : c ≠ mark) {rest : List Char} :
    Whole (c :: rest) ↔ Whole rest := by
  simp [Whole, pieces_cons_of_ne h]

theorem whole_append_of_not_mem (front : List Char) (h : mark ∉ front) {rest : List Char} :
    Whole (front ++ rest) ↔ Whole rest := by
  induction front with
  | nil => rfl
  | cons c front ih =>
    rw [List.mem_cons, not_or] at h
    rw [List.cons_append, whole_cons_of_ne (Ne.symm h.1), ih h.2]

theorem whole_mark_mark {rest : List Char} : Whole (mark :: mark :: rest) ↔ Whole rest := by
  simp [Whole, pieces]

/-- Nothing is a half behind a mark but the stand-ins. -/
theorem whole_mark_cons {d : Char} (hd : d ≠ mark) (hhalf : half? d = none) {rest : List Char} :
    Whole (mark :: d :: rest) ↔ Whole (d :: rest) := by
  simp [Whole, pieces, hd, hhalf]

theorem ne_mark_of_lt {c : Char} (h : c.toNat < 0x80) : c ≠ mark := by
  rintro rfl
  rw [toNat_mark] at h
  omega

theorem half?_of_lt {c : Char} (h : c.toNat < 0x80) : half? c = none :=
  dif_neg fun hin => by omega

theorem not_mem_of_lt {text : List Char} (h : ∀ c ∈ text, c.toNat < 0x80) : mark ∉ text :=
  fun hmem => ne_mark_of_lt (h mark hmem) rfl

end Text

/-! ### Scalars -/

namespace Scalar

/-- The scalar has a place in a file. -/
def IsStorable (s : Scalar) : Prop :=
  s.obstacle? = none

@[simp] theorem isStorable_null : Scalar.null.IsStorable :=
  rfl

@[simp] theorem isStorable_str {text : String} :
    (Scalar.str text).IsStorable ↔ Text.hasHalf text = false := by
  unfold IsStorable obstacle?
  cases h : Text.hasHalf text <;> simp [h]

@[simp] theorem isStorable_int {n : Int} :
    (Scalar.int n).IsStorable ↔ n.natAbs < 10 ^ maxDigits := by
  rw [← isWritable_int]
  unfold IsStorable obstacle?
  dsimp only
  cases (Scalar.int n).isWritable <;> simp

end Scalar

/-! ### Drafts -/

namespace Draft

variable {first second : Draft}

@[simp] theorem stop_append :
    (first ++ second).stop = none ↔ first.stop = none ∧ second.stop = none := by
  show (first.andThen second).stop = none ↔ _
  unfold andThen
  cases h : first.stop <;> simp [h]

/-- Where nothing stops the first text, the second stands behind it. -/
theorem chars_append (h : first.stop = none) :
    (first ++ second).chars = first.chars ++ second.chars := by
  show (first.andThen second).chars = _
  rw [andThen, h]

end Draft

namespace Json

/-- All scalars and names of the value have a place in a file. -/
inductive IsStorable : Json → Prop where
  | scalar {s : Scalar} (h : s.IsStorable) : IsStorable (.scalar s)
  | arr {items : List Json} (h : ∀ v ∈ items, IsStorable v) : IsStorable (.arr items)
  | obj {members : List (String × Json)}
      (hnames : ∀ m ∈ members, Text.hasHalf m.1 = false) (h : ∀ m ∈ members, IsStorable m.2) :
      IsStorable (.obj members)

@[simp] theorem isStorable_scalar {s : Scalar} : (Json.scalar s).IsStorable ↔ s.IsStorable :=
  ⟨fun h => by cases h; assumption, .scalar⟩

@[simp] theorem isStorable_arr {items : List Json} :
    (Json.arr items).IsStorable ↔ ∀ v ∈ items, v.IsStorable :=
  ⟨fun h => by cases h; assumption, .arr⟩

@[simp] theorem isStorable_obj {members : List (String × Json)} :
    (Json.obj members).IsStorable ↔
      ∀ m ∈ members, Text.hasHalf m.1 = false ∧ m.2.IsStorable := by
  constructor
  · rintro (_ | _ | ⟨hnames, h⟩)
    exact fun m hm => ⟨hnames m hm, h m hm⟩
  · exact fun h => .obj (fun m hm => (h m hm).1) fun m hm => (h m hm).2

/-! ### What stops a draft -/

theorem stop_draftScalar {front : List Char} {s : Scalar} :
    (draftScalar front s).stop = none ↔ s.IsStorable := by
  unfold draftScalar Scalar.IsStorable
  cases s.obstacle? <;> simp

theorem stop_draftName {name : String} :
    (draftName name).stop = none ↔ Text.hasHalf name = false := by
  simp [draftName, stop_draftScalar]

/-- Nothing stops the draft of the value exactly if all its scalars have a place. -/
def StopsAtScalars (v : Json) : Prop :=
  ∀ (indent : Option Nat) (depth : Nat) (front : List Char),
    (draftValue indent depth front v).stop = none ↔ v.IsStorable

theorem stop_draftItems {items : List Json} (h : ∀ v ∈ items, v.StopsAtScalars)
    (indent : Option Nat) (depth : Nat) :
    (draftItems indent depth items).stop = none ↔ ∀ v ∈ items, v.IsStorable := by
  induction items with
  | nil => simp [draftItems]
  | cons v rest ih =>
    obtain ⟨hv, hrest⟩ := List.forall_mem_cons.1 h
    rw [draftItems, Draft.stop_append, hv, ih hrest, List.forall_mem_cons]

theorem stop_draftMembers {members : List (String × Json)} (h : ∀ m ∈ members, m.2.StopsAtScalars)
    (indent : Option Nat) (depth : Nat) :
    (draftMembers indent depth members).stop = none ↔
      ∀ m ∈ members, Text.hasHalf m.1 = false ∧ m.2.IsStorable := by
  induction members with
  | nil => simp [draftMembers]
  | cons m rest ih =>
    obtain ⟨hm, hrest⟩ := List.forall_mem_cons.1 h
    obtain ⟨name, v⟩ := m
    rw [draftMembers, List.forall_mem_cons]
    simp only [Draft.stop_append, stop_draftName, hm _ _ _, ih hrest, true_and]

/-- **What stops a draft** is a scalar without a place. -/
theorem stopsAtScalars (v : Json) : v.StopsAtScalars := by
  induction v using Json.induction with
  | scalar s =>
    intro indent depth front
    rw [draftValue, stop_draftScalar, isStorable_scalar]
  | arr items ih =>
    intro indent depth front
    cases items with
    | nil => simp [draftValue]
    | cons v rest =>
      obtain ⟨hv, hrest⟩ := List.forall_mem_cons.1 ih
      rw [draftValue, isStorable_arr, List.forall_mem_cons]
      simp only [Draft.stop_append, hv _ _ _, stop_draftItems hrest, true_and, and_true]
  | obj members ih =>
    intro indent depth front
    cases members with
    | nil => simp [draftValue]
    | cons m rest =>
      obtain ⟨hm, hrest⟩ := List.forall_mem_cons.1 ih
      obtain ⟨name, v⟩ := m
      rw [draftValue, isStorable_obj, List.forall_mem_cons]
      simp only [Draft.stop_append, stop_draftName, hm _ _ _, stop_draftMembers hrest, true_and,
        and_true]

theorem stop_draft {v : Json} {indent : Option Nat} :
    (v.draft indent).stop = none ↔ v.IsStorable :=
  stopsAtScalars v indent 0 []

/-! ### What is drafted -/

/-- Where all scalars have a place, the draft of the value is its text. -/
def DraftsAll (v : Json) : Prop :=
  ∀ (indent : Option Nat) (depth : Nat) (front : List Char),
    (draftValue indent depth front v).chars = front ++ writeValue indent depth v

theorem chars_draftScalar {s : Scalar} (h : s.IsStorable) (front : List Char) :
    (draftScalar front s).chars = front ++ scalarText s := by
  rw [draftScalar, h]

theorem chars_draftName {name : String} (h : Text.hasHalf name = false) :
    (draftName name).chars = textLiteral name ++ [':', ' '] := by
  have hname : (Scalar.str name).IsStorable := Scalar.isStorable_str.2 h
  rw [draftName, Draft.chars_append (stop_draftScalar.2 hname), chars_draftScalar hname]
  rfl

theorem chars_draftItems {items : List Json} (h : ∀ v ∈ items, v.IsStorable ∧ v.DraftsAll)
    (indent : Option Nat) (depth : Nat) :
    (draftItems indent depth items).chars = writeItems indent depth items := by
  induction items with
  | nil => rw [draftItems, writeItems]
  | cons v rest ih =>
    obtain ⟨⟨hv, hdrafts⟩, hrest⟩ := List.forall_mem_cons.1 h
    rw [draftItems, writeItems, Draft.chars_append ((stopsAtScalars v _ _ _).2 hv), hdrafts,
      ih hrest]

theorem chars_draftMembers {members : List (String × Json)}
    (h : ∀ m ∈ members, Text.hasHalf m.1 = false ∧ m.2.IsStorable ∧ m.2.DraftsAll)
    (indent : Option Nat) (depth : Nat) :
    (draftMembers indent depth members).chars = writeMembers indent depth members := by
  induction members with
  | nil => rw [draftMembers, writeMembers]
  | cons m rest ih =>
    obtain ⟨⟨hname, hv, hdrafts⟩, hrest⟩ := List.forall_mem_cons.1 h
    obtain ⟨name, v⟩ := m
    have hname' := stop_draftName.2 hname
    have hv' := (stopsAtScalars v indent depth []).2 hv
    rw [draftMembers, writeMembers, Draft.chars_append (by simp [hname', hv']),
      Draft.chars_append (by simp [hname']), Draft.chars_append rfl, chars_draftName hname, hdrafts,
      ih hrest]
    simp

/-- **A value whose scalars all have a place** is drafted as it is written. -/
theorem IsStorable.draftsAll {v : Json} (h : v.IsStorable) : v.DraftsAll := by
  induction h with
  | scalar hs =>
    intro indent depth front
    rw [draftValue, writeValue, chars_draftScalar hs]
  | @arr items hitems ih =>
    intro indent depth front
    cases items with
    | nil => rw [draftValue, writeValue]
    | cons v rest =>
      obtain ⟨hv, hrest⟩ := List.forall_mem_cons.1 hitems
      obtain ⟨hdrafts, hdraftsRest⟩ := List.forall_mem_cons.1 ih
      have hv' := (stopsAtScalars v indent (depth + 1) ('[' :: newline indent (depth + 1))).2 hv
      have hrest' := (stop_draftItems (fun w _ => stopsAtScalars w) indent (depth + 1)).2 hrest
      rw [draftValue, writeValue, Draft.chars_append (by simp [hv', hrest']),
        Draft.chars_append (by simp [hv']), Draft.chars_append rfl, hdrafts,
        chars_draftItems fun w hw => ⟨hrest w hw, hdraftsRest w hw⟩]
      simp
  | @obj members hnames hmembers ih =>
    intro indent depth front
    cases members with
    | nil => rw [draftValue, writeValue]
    | cons m rest =>
      obtain ⟨hname, hnamesRest⟩ := List.forall_mem_cons.1 hnames
      obtain ⟨hv, hmembersRest⟩ := List.forall_mem_cons.1 hmembers
      obtain ⟨hdrafts, hdraftsRest⟩ := List.forall_mem_cons.1 ih
      obtain ⟨name, v⟩ := m
      have hname' := stop_draftName.2 hname
      have hv' := (stopsAtScalars v indent (depth + 1) []).2 hv
      have hrest' := (stop_draftMembers (fun w _ => stopsAtScalars w.2) indent (depth + 1)).2
        fun w hw => ⟨hnamesRest w hw, hmembersRest w hw⟩
      rw [draftValue, writeValue, Draft.chars_append (by simp [hname', hv', hrest']),
        Draft.chars_append (by simp [hname', hv']), Draft.chars_append (by simp [hname']),
        Draft.chars_append rfl, chars_draftName hname, hdrafts,
        chars_draftMembers fun w hw => ⟨hnamesRest w hw, hmembersRest w hw, hdraftsRest w hw⟩]
      simp

theorem text_draft {v : Json} (h : v.IsStorable) (indent : Option Nat) :
    (v.draft indent).text = v.render indent := by
  rw [Draft.text, draft, h.draftsAll, render, List.nil_append]

/-! ### The text has no half -/

open Text (Whole mark)

/-- A character is written as it is, or by characters of the first 128. -/
theorem escapedChar_cases (c : Char) :
    escapedChar c = [c] ∨
      ∃ d rest, escapedChar c = d :: rest ∧ ∀ e ∈ d :: rest, e.toNat < 0x80 := by
  by_cases hshort : c ∈ shortened
  · have hall : shortened.all (fun c => (escapedChar c).all fun e => e.toNat < 0x80) = true := by
      decide +kernel
    obtain ⟨letter, heq, -⟩ := escapedChar_shortened hshort
    have hlow := List.all_eq_true.1 hall c hshort
    rw [heq, List.all_eq_true] at hlow
    exact .inr ⟨'\\', [letter], heq, fun e he => of_decide_eq_true (hlow e he)⟩
  · rw [escapedChar_of_not_mem hshort]
    split
    · rename_i hcontrol
      have hall : ∀ n < 0x20,
          ('\\' :: 'u' :: Text.hexPadded 4 n).all (fun e => e.toNat < 0x80) = true := by
        decide +kernel
      have hlow := List.all_eq_true.1 (hall _ hcontrol)
      exact .inr ⟨_, _, rfl, fun e he => of_decide_eq_true (hlow e he)⟩
    · exact .inl rfl

theorem escapedChar_mark : escapedChar mark = [mark] := by
  rw [escapedChar_of_not_mem (by decide), if_neg (by rw [Text.toNat_mark]; decide)]

theorem mark_not_mem_escapedChar {c : Char} (h : c ≠ mark) : mark ∉ escapedChar c := by
  rcases escapedChar_cases c with heq | ⟨d, rest, heq, hlow⟩
  · rw [heq]
    simpa using Ne.symm h
  · rw [heq]
    exact Text.not_mem_of_lt hlow

/-- **Escaping** makes no halves: a mark keeps apart from what stood behind it or in
    front of a quote. -/
theorem whole_escaped {text rest : List Char} (h : Whole text) (hrest : Whole rest) :
    Whole (text.flatMap escapedChar ++ '"' :: rest) := by
  have hquote : Whole ('"' :: rest) := (Text.whole_cons_of_ne (by decide)).2 hrest
  induction text using Text.pieces.induct with
  | case1 => exact hquote
  | case2 c =>
    rw [List.flatMap_cons, List.flatMap_nil, List.append_nil]
    by_cases hc : c = mark
    · rw [hc, escapedChar_mark]
      exact (Text.whole_mark_cons (by decide) (by decide)).2 hquote
    · exact (Text.whole_append_of_not_mem _ (mark_not_mem_escapedChar hc)).2 hquote
  | case3 text ih =>
    -- two marks are one character, and stay so
    rw [List.flatMap_cons, List.flatMap_cons, escapedChar_mark]
    exact Text.whole_mark_mark.2 (ih (Text.whole_mark_mark.1 h))
  | case4 d text hd n hhalf ih =>
    exact absurd (by simp [Text.pieces, hd, hhalf]) (h n)
  | case5 d text hd hhalf ih =>
    have htail := ih ((Text.whole_mark_cons hd hhalf).1 h)
    rw [List.flatMap_cons, escapedChar_mark]
    rw [List.flatMap_cons] at htail ⊢
    -- behind the mark stands the character itself, or one of the first 128
    rcases escapedChar_cases d with heq | ⟨e, behind, heq, hlow⟩
    · rw [heq] at htail ⊢
      exact (Text.whole_mark_cons hd hhalf).2 htail
    · have he : e.toNat < 0x80 := hlow e List.mem_cons_self
      rw [heq] at htail ⊢
      exact (Text.whole_mark_cons (Text.ne_mark_of_lt he) (Text.half?_of_lt he)).2 htail
  | case6 c d text hc ih =>
    rw [List.flatMap_cons, List.append_assoc]
    exact (Text.whole_append_of_not_mem _ (mark_not_mem_escapedChar hc)).2
      (ih ((Text.whole_cons_of_ne hc).1 h))

theorem whole_textLiteral {s : String} (h : Text.hasHalf s = false) {rest : List Char}
    (hrest : Whole rest) : Whole (textLiteral s ++ rest) := by
  rw [textLiteral, List.cons_append, List.cons_append, List.append_assoc]
  exact (Text.whole_cons_of_ne (by decide)).2
    (whole_escaped (Text.hasHalf_eq_false_iff.1 h) hrest)

/-- The text of the value has no half, whatever the layout and whatever without one
    follows. -/
def WritesWhole (v : Json) : Prop :=
  ∀ (indent : Option Nat) (depth : Nat) {rest : List Char}, Whole rest →
    Whole (writeValue indent depth v ++ rest)

theorem mark_not_mem_newline (indent : Option Nat) (depth : Nat) : mark ∉ newline indent depth := by
  refine Text.not_mem_of_lt fun c hc => ?_
  cases indent with
  | none => cases hc
  | some n =>
    rcases List.mem_cons.1 hc with rfl | hc
    · decide
    · rw [List.eq_of_mem_replicate hc]
      decide

theorem whole_newline {indent : Option Nat} {depth : Nat} {rest : List Char} (h : Whole rest) :
    Whole (newline indent depth ++ rest) :=
  (Text.whole_append_of_not_mem _ (mark_not_mem_newline indent depth)).2 h

theorem whole_separator {indent : Option Nat} {depth : Nat} {rest : List Char} (h : Whole rest) :
    Whole (separator indent depth ++ rest) := by
  cases indent with
  | none => exact (Text.whole_append_of_not_mem [',', ' '] (by decide)).2 h
  | some n => exact (Text.whole_cons_of_ne (by decide)).2 (whole_newline h)

theorem mark_not_mem_intText (n : Int) : mark ∉ Scalar.intText n := by
  have hdigits : ∀ n, mark ∉ natText n := by
    intro n hmem
    exact absurd (isDigit_of_mem_natText hmem) (by decide)
  cases n with
  | ofNat n => exact hdigits n
  | negSucc n =>
    rw [Scalar.intText, List.mem_cons, not_or]
    exact ⟨by decide, hdigits _⟩

theorem whole_scalarText {s : Scalar} (hexact : s.IsExact) (hs : s.IsStorable) {rest : List Char}
    (hrest : Whole rest) : Whole (scalarText s ++ rest) := by
  cases s with
  | null => exact (Text.whole_append_of_not_mem _ (by decide)).2 hrest
  | bool b => cases b <;> exact (Text.whole_append_of_not_mem _ (by decide)).2 hrest
  | int n => exact (Text.whole_append_of_not_mem _ (mark_not_mem_intText n)).2 hrest
  | decimal x => exact absurd rfl (hexact.2 x)
  | str text => exact whole_textLiteral (Scalar.isStorable_str.1 hs) hrest

theorem whole_items {items : List Json} (h : ∀ v ∈ items, v.WritesWhole) {indent : Option Nat}
    {depth : Nat} {rest : List Char} (hrest : Whole rest) :
    Whole (writeItems indent depth items ++ rest) := by
  induction items with
  | nil => exact hrest
  | cons v items ih =>
    obtain ⟨hv, hitems⟩ := List.forall_mem_cons.1 h
    rw [writeItems, List.append_assoc, List.append_assoc]
    exact whole_separator (hv _ _ (ih hitems))

theorem whole_members {members : List (String × Json)}
    (hnames : ∀ m ∈ members, Text.hasHalf m.1 = false) (h : ∀ m ∈ members, m.2.WritesWhole)
    {indent : Option Nat} {depth : Nat} {rest : List Char} (hrest : Whole rest) :
    Whole (writeMembers indent depth members ++ rest) := by
  induction members with
  | nil => exact hrest
  | cons m members ih =>
    obtain ⟨hname, hnamesRest⟩ := List.forall_mem_cons.1 hnames
    obtain ⟨hm, hmembers⟩ := List.forall_mem_cons.1 h
    obtain ⟨name, v⟩ := m
    rw [writeMembers]
    simp only [List.append_assoc]
    exact whole_separator (whole_textLiteral hname
      ((Text.whole_append_of_not_mem _ (by decide)).2 (hm _ _ (ih hnamesRest hmembers))))

/-- **The text of a value whose scalars all have a place** has no half. -/
theorem IsStorable.writesWhole {v : Json} (h : v.IsStorable) (hexact : v.IsExact) :
    v.WritesWhole := by
  induction h with
  | scalar hs =>
    intro indent depth rest hrest
    cases hexact with
    | scalar hscalar => exact whole_scalarText hscalar hs hrest
  | @arr items _ ih =>
    intro indent depth rest hrest
    cases hexact with
    | arr hitems =>
      have hclose : Whole (newline indent depth ++ (']' :: rest)) :=
        whole_newline ((Text.whole_cons_of_ne (by decide)).2 hrest)
      cases items with
      | nil => exact (Text.whole_append_of_not_mem ['[', ']'] (by decide)).2 hrest
      | cons v items =>
        have hall := fun w hw => ih w hw (hitems w hw)
        obtain ⟨hv, hrestItems⟩ := List.forall_mem_cons.1 hall
        rw [writeValue]
        simp only [List.append_assoc, List.cons_append, List.nil_append]
        exact (Text.whole_cons_of_ne (by decide)).2
          (whole_newline (hv _ _ (whole_items hrestItems hclose)))
  | @obj members hnames _ ih =>
    intro indent depth rest hrest
    cases hexact with
    | obj hmembers =>
      have hclose : Whole (newline indent depth ++ ('\x7d' :: rest)) :=
        whole_newline ((Text.whole_cons_of_ne (by decide)).2 hrest)
      cases members with
      | nil => exact (Text.whole_append_of_not_mem ['\x7b', '\x7d'] (by decide)).2 hrest
      | cons m members =>
        have hall := fun w hw => ih w hw (hmembers w hw)
        obtain ⟨hm, hrestMembers⟩ := List.forall_mem_cons.1 hall
        obtain ⟨hname, hnamesRest⟩ := List.forall_mem_cons.1 hnames
        obtain ⟨name, v⟩ := m
        rw [writeValue]
        simp only [List.append_assoc, List.cons_append, List.nil_append]
        refine (Text.whole_cons_of_ne (by decide)).2 (whole_newline (whole_textLiteral hname ?_))
        exact (Text.whole_append_of_not_mem [':', ' '] (by decide)).2
          (hm _ _ (whole_members hnamesRest hrestMembers hclose))

theorem hasHalf_render {v : Json} (h : v.IsStorable) (hexact : v.IsExact) (indent : Option Nat) :
    Text.hasHalf (v.render indent) = false := by
  have hwhole := h.writesWhole hexact indent 0 Text.whole_nil
  rw [List.append_nil] at hwhole
  rw [Text.hasHalf_eq_false_iff, render, String.toList_ofList]
  exact hwhole

end Json

end Refuter
