import Mathlib.Data.List.Forall2
import Refuter.Proofs.Formula
import Refuter.Proofs.Reading

/-! # The formula of a text

A text that has been put in normal form spells at most one formula: blocks of quantifiers,
behind them parts cut at the connective that binds least, and literals at the end
(`Sentence.parse`). In front of an arrow the disjunction binds least, elsewhere the
conjunction. Conversion cuts its text in the same places, so this formula is what it works
on.

- An operator is only lost where a text is cut at it; a part without operators is a literal.
- The cases of a formula are those of its text (`parse_iff`, `Spells`), and what holds of
  all texts part by part holds of their formulas (`parse_induct`).
-/

namespace Refuter

open Sentence Formula

/-- The character by which parts are joined. -/
def Junctor.symbol : Junctor → Char
  | .and => '∧'
  | .or => '∨'

/-- The other junctor. -/
def Junctor.dual : Junctor → Junctor
  | .and => .or
  | .or => .and

theorem Junctor.eq_or_dual (j k : Junctor) : j = k ∨ j = k.dual := by
  cases j <;> cases k <;> simp [Junctor.dual]

namespace Sentence

/-- The quantifiers of blocks, one for each name. -/
def quantifiersOf (blocks : List Block) : List (Marker × String) :=
  blocks.flatMap fun block => block.names.map (block.marker, ·)

/-- A text falls apart at a junctor. -/
abbrev Splits (j : Junctor) (text : List Char) : Prop :=
  1 < (splitTop j.symbol text).length

/-- The junctor at which a text falls apart, `outer` before the other. -/
def junctor? (outer : Junctor) (text : List Char) : Option {j : Junctor // Splits j text} :=
  if h : Splits outer text then some ⟨outer, h⟩
  else if h : Splits outer.dual text then some ⟨outer.dual, h⟩
  else none

/-- The formula that a text spells. The arrow binds least; of the two junctors
    `outer` does, which is the conjunction everywhere but in front of an arrow. -/
def parse (outer : Junctor) (text : List Char) : Option Formula :=
  let body := (leading text).2
  let formula : Option Formula :=
    match _h : splitTop '⇒' body with
    | [a, c] => do return .implies (← parse .or a) (← parse .and c)
    | _ :: _ :: _ :: _ => none
    | _ =>
      match junctor? outer body with
      | some ⟨j, _hj⟩ => do
        return .joined j (← (splitTop j.symbol body).attach.mapM fun ⟨part, _⟩ => parse outer part)
      | none => (readLiteral false body).toOption.map .literal
  formula.map (close (quantifiersOf (leading text).1))
termination_by text.length
decreasing_by
  · exact Nat.lt_of_lt_of_le (length_lt_of_mem_splitTop (by rw [_h]; simp) (by rw [_h]; simp))
      (length_leading_le text)
  · exact Nat.lt_of_lt_of_le (length_lt_of_mem_splitTop (by rw [_h]; simp) (by rw [_h]; simp))
      (length_leading_le text)
  · exact Nat.lt_of_lt_of_le (length_lt_of_mem_splitTop (by assumption) _hj) (length_leading_le text)

/-! ### Lists entry by entry -/

theorem forall₂_mem_left {α β : Type} {R : α → β → Prop} {l : List α} {bs : List β}
    (h : List.Forall₂ R l bs) {a : α} (ha : a ∈ l) : ∃ b ∈ bs, R a b := by
  induction h with
  | nil => cases ha
  | cons hab _ ih =>
    rcases List.mem_cons.1 ha with rfl | ha
    · exact ⟨_, List.mem_cons_self .., hab⟩
    · obtain ⟨b, hb, hR⟩ := ih ha
      exact ⟨b, List.mem_cons_of_mem _ hb, hR⟩

theorem forall₂_and_right {α β : Type} {R : α → β → Prop} {P : β → Prop} {l : List α}
    {bs : List β} :
    List.Forall₂ (fun a b => R a b ∧ P b) l bs ↔ List.Forall₂ R l bs ∧ ∀ b ∈ bs, P b := by
  induction l generalizing bs with
  | nil => cases bs <;> simp
  | cons a rest ih =>
    cases bs with
    | nil => simp
    | cons b bs =>
      simp only [List.forall₂_cons, ih, List.forall_mem_cons]
      exact ⟨fun ⟨⟨h₁, h₂⟩, h₃, h₄⟩ => ⟨⟨h₁, h₃⟩, h₂, h₄⟩,
        fun ⟨⟨h₁, h₃⟩, h₂, h₄⟩ => ⟨⟨h₁, h₂⟩, h₃, h₄⟩⟩

theorem forall₂_mem_right {α β : Type} {R : α → β → Prop} {l : List α} {bs : List β}
    (h : List.Forall₂ R l bs) {b : β} (hb : b ∈ bs) : ∃ a ∈ l, R a b :=
  forall₂_mem_left (R := flip R) h.flip hb

/-! ### Operators are never lost

Whatever is taken off a text on the way to its parts, it is no connective. So a text
whose parts have none has none itself. -/

/-- Is a character a binary connective or a marker? -/
def isOperator (c : Char) : Bool :=
  isConnective c || c = '∀' || c = '∃'

theorem isOperator_of_isConnective {c : Char} (h : isConnective c = true) :
    isOperator c = true := by
  rw [isOperator, h]
  rfl

theorem isOperator_cases {c : Char} (h : isOperator c = true) :
    c = '⇒' ∨ c = '∧' ∨ c = '∨' ∨ c = '∀' ∨ c = '∃' := by
  simpa [isOperator, isConnective, or_assoc] using h

/-- What an operator is not. -/
theorem isOperator_ne {c : Char} (h : isOperator c = true) :
    Text.isBlank c = false ∧ isWord c = false ∧ c ∉ ['(', ')', '¬', ',', '.'] := by
  rcases isOperator_cases h with rfl | rfl | rfl | rfl | rfl <;> decide

theorem isOperator_ne_paren {c : Char} (h : isOperator c = true) : c ≠ '(' ∧ c ≠ ')' := by
  rcases isOperator_cases h with rfl | rfl | rfl | rfl | rfl <;> decide

theorem isWord_bounds {c : Char} (h : isWord c = true) : 48 ≤ c.toNat ∧ c.toNat ≤ 122 := by
  rw [isWord, Bool.or_eq_true] at h
  rcases h with h | h
  · simp only [Char.isAlphanum, Char.isAlpha, Char.isUpper, Char.isLower, Char.isDigit,
      Bool.or_eq_true, Bool.and_eq_true, decide_eq_true_eq, ge_iff_le,
      UInt32.le_iff_toNat_le] at h
    simp at h
    omega
  · obtain rfl := of_decide_eq_true h
    decide

theorem isBlank_of_isWord {c : Char} (h : isWord c = true) : Text.isBlank c = false := by
  have hbounds := isWord_bounds h
  simp only [Text.isBlank, Bool.or_eq_false_iff, Bool.and_eq_false_iff, decide_eq_false_iff_not,
    beq_eq_false_iff_ne]
  omega

/-- A word character is none of the others. -/
theorem isWord_ne {c d : Char} (h : isWord c = true) (hd : isWord d = false) : c ≠ d := by
  rintro rfl
  rw [h] at hd
  cases hd

theorem mem_dropWhile {p : Char → Bool} {text : List Char} {c : Char} (hc : c ∈ text)
    (hp : p c = false) : c ∈ text.dropWhile p := by
  induction text with
  | nil => cases hc
  | cons d rest ih =>
    rw [List.dropWhile_cons]
    split
    · rename_i hd
      refine ih ((List.mem_cons.1 hc).resolve_left ?_)
      rintro rfl
      rw [hp] at hd
      cases hd
    · exact hc

theorem mem_trim {text : List Char} {c : Char} (hc : c ∈ text) (hblank : Text.isBlank c = false) :
    c ∈ Text.trim text := by
  rw [Text.trim, Text.trimRight, List.mem_reverse]
  exact mem_dropWhile (List.mem_reverse.2 (mem_dropWhile hc hblank)) hblank

/-- A text that closes at its end ends with the closing parenthesis. -/
theorem getLast?_of_closesAtEnd {text : List Char} {depth : Nat}
    (h : closesAtEnd depth text = true) : text.getLast? = some ')' := by
  induction text generalizing depth with
  | nil => simp [closesAtEnd] at h
  | cons d rest ih =>
    have hstep : (∃ depth', closesAtEnd depth' rest = true) ∨ (d = ')' ∧ rest = []) := by
      simp only [closesAtEnd] at h
      split at h
      · exact .inl ⟨_, h⟩
      · split at h
        · split at h
          · exact .inr ⟨by assumption, List.isEmpty_iff.1 h⟩
          · exact .inl ⟨_, h⟩
        · exact .inl ⟨_, h⟩
    rcases hstep with ⟨depth', hrest⟩ | ⟨rfl, rfl⟩
    · rw [List.getLast?_cons, ih hrest]
      rfl
    · rfl

/-- **What is inside** stands between the parentheses. -/
theorem eq_of_inside? {text inner : List Char} (h : inside? text = some inner) :
    text = '(' :: inner ++ [')'] := by
  unfold inside? at h
  split at h
  · rename_i rest
    split at h
    · rename_i hends
      obtain rfl := Option.some.inj h
      rw [List.cons_append, List.dropLast_append_getLast? _ (getLast?_of_closesAtEnd hends)]
    · cases h
  · cases h

theorem mem_inside? {text inner : List Char} {c : Char} (h : inside? text = some inner)
    (hc : c ∈ text) (hopen : c ≠ '(') (hclose : c ≠ ')') : c ∈ inner := by
  rw [eq_of_inside? h, List.cons_append, List.mem_cons, List.mem_append, List.mem_singleton] at hc
  exact (hc.resolve_left hopen).resolve_right hclose

theorem mem_unwrap {text : List Char} {c : Char} (hc : c ∈ text) (h : isOperator c = true) :
    c ∈ unwrap text := by
  have hblank := (isOperator_ne h).1
  obtain ⟨hopen, hclose⟩ := isOperator_ne_paren h
  fun_induction unwrap text with
  | case1 text inner hin ih => exact ih (mem_inside? hin (mem_trim hc hblank) hopen hclose)
  | case2 text hin => exact mem_trim hc hblank

theorem mem_polarity {negated : Bool} {text : List Char} {c : Char} (hc : c ∈ text)
    (h : isOperator c = true) : c ∈ (polarity negated text).2 := by
  fun_induction polarity negated text with
  | case1 negated text rest hunwrap ih =>
    have hmem := mem_unwrap hc h
    rw [hunwrap] at hmem
    refine ih ((List.mem_cons.1 hmem).resolve_left ?_)
    rintro rfl
    exact absurd h (by decide)
  | case2 negated text hne => exact mem_unwrap hc h

theorem mem_splitAt {sep : Char} {text : List Char} {c : Char} (hc : c ∈ text) (hne : c ≠ sep) :
    ∃ part ∈ Text.splitAt sep text, c ∈ part := by
  induction text with
  | nil => cases hc
  | cons d rest ih =>
    rw [Text.splitAt]
    split
    · rename_i hd
      obtain ⟨part, hpart, hmem⟩ := ih ((List.mem_cons.1 hc).resolve_left (hd ▸ hne))
      exact ⟨part, List.mem_cons_of_mem _ hpart, hmem⟩
    · rcases List.mem_cons.1 hc with rfl | hc
      · split <;> simp
      · obtain ⟨part, hpart, hmem⟩ := ih hc
        split
        · rename_i hnil
          rw [hnil] at hpart
          cases hpart
        · rename_i first parts hcons
          rw [hcons] at hpart
          rcases List.mem_cons.1 hpart with rfl | hpart
          · exact ⟨_, List.mem_cons_self .., List.mem_cons_of_mem _ hmem⟩
          · exact ⟨part, List.mem_cons_of_mem _ hpart, hmem⟩

theorem mem_cutFrom {connective c : Char} {text : List Char} (hc : c ∈ text)
    (hne : c ≠ connective) (depth : Int) : ∃ part ∈ cutFrom connective depth text, c ∈ part := by
  rw [← intercalate_cutFrom connective text depth] at hc
  exact (mem_of_mem_intercalate hc).resolve_left fun hmem => hne (List.mem_singleton.1 hmem)

theorem mem_splitTop {connective c : Char} {text : List Char} (hc : c ∈ text)
    (hne : c ≠ connective) (h : isOperator c = true) :
    ∃ part ∈ splitTop connective text, c ∈ part := by
  obtain ⟨part, hpart, hmem⟩ := mem_cutFrom hc hne 0
  exact ⟨Text.trim part, List.mem_map.2 ⟨part, hpart, rfl⟩, mem_trim hmem (isOperator_ne h).1⟩

/-- **What a term is read from:** a word between blanks, the first letter of which shows the
    kind. -/
theorem exists_of_readTerm {text : List Char} {t : Term} (h : readTerm text = .ok t) :
    ∃ c rest, Text.trim text = c :: rest ∧ (∀ d ∈ c :: rest, isWord d = true) ∧
      t.name.toList = c :: rest ∧ t.isVar = c.isLower := by
  unfold readTerm at h
  split at h
  · cases h
  · rename_i c rest htrim
    dsimp only at h
    split at h
    · rename_i hall
      obtain rfl := Except.ok.inj h
      refine ⟨c, rest, htrim, List.all_eq_true.1 hall, ?_⟩
      cases hlower : c.isLower with
      | true => exact ⟨String.toList_ofList, rfl⟩
      | false => exact ⟨String.toList_ofList, rfl⟩
    · cases h

theorem readTerm_operatorFree {text : List Char} {t : Term} (h : readTerm text = .ok t) :
    ∀ c ∈ text, isOperator c = false := by
  intro c hc
  by_contra hop
  rw [Bool.not_eq_false] at hop
  obtain ⟨hblank, hword, _⟩ := isOperator_ne hop
  obtain ⟨d, rest, htrim, hall, _⟩ := exists_of_readTerm h
  have hmem := mem_trim hc hblank
  rw [htrim] at hmem
  rw [hall c hmem] at hword
  cases hword

theorem mapM_eq_ok_iff {ε α β : Type} {f : α → Except ε β} {l : List α} {bs : List β} :
    l.mapM f = .ok bs ↔ List.Forall₂ (fun a b => f a = .ok b) l bs := by
  induction l generalizing bs with
  | nil =>
    rw [List.mapM_nil]
    constructor
    · intro h
      cases h
      exact .nil
    · intro h
      cases h
      rfl
  | cons a rest ih =>
    rw [List.mapM_cons]
    constructor
    · intro h
      cases ha : f a with
      | error e => rw [ha] at h; cases h
      | ok b =>
        rw [ha] at h
        cases hrest : rest.mapM f with
        | error e => rw [hrest] at h; cases h
        | ok cs =>
          rw [hrest] at h
          cases h
          exact .cons ha (ih.1 hrest)
    · intro h
      cases h with
      | cons ha hrest =>
        rw [ha, ih.2 hrest]
        rfl

theorem readArgs_operatorFree {text : List Char} {ts : List Term} (h : readArgs text = .ok ts) :
    ∀ c ∈ text, isOperator c = false := by
  intro c hc
  by_contra hop
  rw [Bool.not_eq_false] at hop
  obtain ⟨hblank, _, hother⟩ := isOperator_ne hop
  rw [readArgs] at h
  split at h
  · rename_i hempty
    have hmem := mem_trim hc hblank
    rw [List.isEmpty_iff.1 hempty] at hmem
    cases hmem
  · have hcomma : c ≠ ',' := by rintro rfl; simp at hother
    obtain ⟨part, hpart, hmem⟩ := mem_splitAt hc hcomma
    have hread := mapM_eq_ok_iff.1 h
    obtain ⟨t, _, ht⟩ := forall₂_mem_left hread hpart
    rw [readTerm_operatorFree ht c hmem] at hop
    cases hop

theorem mem_atomParts? {text name : List Char} {args : Option (List Char)} {c : Char}
    (h : atomParts? text = some (name, args)) (hc : c ∈ text) (hop : isOperator c = true) :
    ∃ inner, args = some inner ∧ c ∈ inner := by
  obtain ⟨hblank, hword, hother⟩ := isOperator_ne hop
  unfold atomParts? at h
  split at h
  · cases h
  · split at h
    · have hmem := mem_dropWhile (mem_dropWhile hc hword) hblank
      dsimp only at h
      split at h
      · rename_i hnil
        rw [hnil] at hmem
        cases hmem
      · rename_i rest hcons
        split at h
        · rename_i hinner
          cases h
          rw [hcons] at hmem
          have hrest : c ∈ rest :=
            (List.mem_cons.1 hmem).resolve_left (by rintro rfl; simp at hother)
          rw [← List.dropLast_append_getLast? _ hinner.1, List.mem_append,
            List.mem_singleton] at hrest
          exact ⟨_, rfl, hrest.resolve_right (by rintro rfl; simp at hother)⟩
        · cases h
      · cases h
    · cases h

/-- **What a literal is read from:** an atom, which is left when parentheses and signs have been
    taken off. -/
theorem exists_of_readLiteral {negated : Bool} {text : List Char} {l : Literal}
    (h : readLiteral negated text = .ok l) :
    ∃ name args, atomParts? (polarity negated text).2 = some (name, args) ∧
      l.name = String.ofList name ∧
      (args = none ∧ l.args = [] ∨ ∃ inner, args = some inner ∧ readArgs inner = .ok l.args) := by
  simp only [readLiteral] at h
  split at h
  · cases h
  · split at h
    · cases h
    · split at h
      · cases h
      · rename_i name args hatom
        refine ⟨name, args, hatom, ?_⟩
        cases args with
        | none =>
          cases h
          exact ⟨rfl, .inl ⟨rfl, rfl⟩⟩
        | some inner =>
          cases hargs : readArgs inner with
          | error e =>
            simp only [hargs] at h
            cases h
          | ok ts =>
            simp only [hargs] at h
            cases h
            exact ⟨rfl, .inr ⟨inner, rfl, hargs⟩⟩

/-- **A literal is spelled without operators.** -/
theorem readLiteral_operatorFree {negated : Bool} {text : List Char} {l : Literal}
    (h : readLiteral negated text = .ok l) : ∀ c ∈ text, isOperator c = false := by
  intro c hc
  by_contra hop
  rw [Bool.not_eq_false] at hop
  obtain ⟨name, args, hatom, _, hargs⟩ := exists_of_readLiteral h
  obtain ⟨inner, rfl, hmem⟩ := mem_atomParts? hatom (mem_polarity hc hop) hop
  rcases hargs with ⟨hnone, _⟩ | ⟨_, hsome, hread⟩
  · cases hnone
  · cases hsome
    rw [readArgs_operatorFree hread c hmem] at hop
    cases hop

/-! ### Quantifiers take away no connective -/

theorem mem_takeName? {text rest : List Char} {name : String} {c : Char}
    (h : takeName? text = some (name, rest)) (hc : c ∈ text) (hop : isOperator c = true) :
    c ∈ rest := by
  have hbound : isBoundChar c = false := by
    rcases isOperator_cases hop with rfl | rfl | rfl | rfl | rfl <;> decide
  unfold takeName? at h
  split at h
  · cases h
  · split at h
    · rename_i hlower
      cases h
      refine mem_dropWhile ((List.mem_cons.1 hc).resolve_left ?_) hbound
      rintro rfl
      rw [isBoundChar, hlower] at hbound
      cases hbound
    · cases h

theorem mem_furtherNames {text : List Char} {c : Char} (hc : c ∈ text)
    (hop : isOperator c = true) : c ∈ (furtherNames text).2 := by
  obtain ⟨hblank, _, hother⟩ := isOperator_ne hop
  fun_induction furtherNames text with
  | case1 => exact hc
  | case2 text name rest h names behind heq ih =>
    rw [heq] at ih
    refine ih ?_
    unfold furtherName? at h
    split at h
    · rename_i tail htail
      have hmem := mem_dropWhile hc hblank
      rw [htail] at hmem
      have hmem := (List.mem_cons.1 hmem).resolve_left (by rintro rfl; simp at hother)
      exact mem_takeName? h (mem_dropWhile hmem hblank) hop
    · cases h

theorem mem_dropDot {text : List Char} {c : Char} (hc : c ∈ text) (hop : isOperator c = true) :
    c ∈ dropDot text := by
  obtain ⟨hblank, _, hother⟩ := isOperator_ne hop
  have hmem := mem_dropWhile hc hblank
  unfold dropDot
  split
  · rename_i rest hrest
    rw [hrest] at hmem
    exact mem_dropWhile ((List.mem_cons.1 hmem).resolve_left (by rintro rfl; simp at hother)) hblank
  · exact hmem

theorem mem_block? {text rest : List Char} {block : Block} {c : Char}
    (h : block? text = some (block, rest)) (hc : c ∈ text) (hconn : isConnective c = true) :
    c ∈ rest := by
  have hop := isOperator_of_isConnective hconn
  unfold block? at h
  split at h
  · cases h
  · rename_i d tail
    split at h
    · rename_i m name behind hmarker hname
      cases h
      have htail : c ∈ tail := by
        refine (List.mem_cons.1 hc).resolve_left ?_
        rintro rfl
        unfold marker? at hmarker
        split at hmarker
        · exact absurd hconn (by decide)
        · exact absurd hconn (by decide)
        · cases hmarker
      exact mem_dropDot (mem_furtherNames
        (mem_takeName? hname (mem_dropWhile htail (isOperator_ne hop).1) hop) hop) hop
    · cases h

theorem mem_leading {text : List Char} {c : Char} (hc : c ∈ text) (h : isConnective c = true) :
    c ∈ (leading text).2 := by
  fun_induction leading text with
  | case1 text hnone => exact mem_unwrap hc (isOperator_of_isConnective h)
  | case2 text block rest hsome blocks body heq ih =>
    rw [heq] at ih
    exact ih (mem_block? hsome (mem_unwrap hc (isOperator_of_isConnective h)) h)

/-- Every block of quantifiers binds a name. -/
theorem names_ne_nil_of_mem_leading (text : List Char) :
    ∀ block ∈ (leading text).1, block.names ≠ [] := by
  fun_induction leading text with
  | case1 text hnone => simp
  | case2 text block rest hsome blocks body heq ih =>
    rw [heq] at ih
    intro b hb
    rcases List.mem_cons.1 hb with rfl | hb
    · unfold block? at hsome
      split at hsome
      · cases hsome
      · split at hsome
        · cases hsome
          simp
        · cases hsome
    · exact ih b hb

/-! ### Texts that are trimmed and unwrapped already -/

/-- **Cutting at the first character of another kind:** what is in front is taken, and what
    begins there is left. -/
theorem takeWhile_dropWhile_append {p : Char → Bool} {front behind : List Char}
    (hfront : ∀ c ∈ front, p c = true) (hbehind : ∀ c, behind.head? = some c → p c = false) :
    (front ++ behind).takeWhile p = front ∧ (front ++ behind).dropWhile p = behind := by
  rw [List.takeWhile_append_of_pos hfront, List.dropWhile_append_of_pos hfront]
  cases behind with
  | nil => exact ⟨List.append_nil front, rfl⟩
  | cons c rest =>
    have hc : ¬p c = true := Bool.eq_false_iff.1 (hbehind c rfl)
    rw [List.takeWhile_cons_of_neg hc, List.dropWhile_cons_of_neg hc]
    exact ⟨List.append_nil front, rfl⟩

theorem trim_eq_self {text : List Char}
    (hhead : ∀ c, text.head? = some c → Text.isBlank c = false)
    (hlast : ∀ c, text.getLast? = some c → Text.isBlank c = false) : Text.trim text = text := by
  have hback : ∀ c, text.reverse.head? = some c → Text.isBlank c = false := by
    rwa [List.head?_reverse]
  have hleft : text.dropWhile Text.isBlank = text :=
    (takeWhile_dropWhile_append (List.forall_mem_nil _) hhead).2
  have hright : text.reverse.dropWhile Text.isBlank = text.reverse :=
    (takeWhile_dropWhile_append (List.forall_mem_nil _) hback).2
  rw [Text.trim, Text.trimLeft, hleft, Text.trimRight, hright, List.reverse_reverse]

theorem head?_trim (text : List Char) :
    ∀ c, (Text.trim text).head? = some c → Text.isBlank c = false := by
  intro c hc
  -- what is dropped behind leaves the first character alone
  obtain ⟨dropped, hdropped⟩ := List.dropWhile_suffix Text.isBlank (l := (Text.trimLeft text).reverse)
  have hfront : Text.trim text ++ dropped.reverse = Text.trimLeft text := by
    rw [Text.trim, Text.trimRight, ← List.reverse_append, hdropped, List.reverse_reverse]
  have hhead : (Text.trimLeft text).head? = some c := by
    rw [← hfront, List.head?_append, hc]
    rfl
  have hnot := List.head?_dropWhile_not Text.isBlank text
  rw [← Text.trimLeft, hhead] at hnot
  exact hnot

theorem getLast?_trim (text : List Char) :
    ∀ c, (Text.trim text).getLast? = some c → Text.isBlank c = false := by
  intro c hc
  rw [Text.trim, Text.trimRight, List.getLast?_reverse] at hc
  have hnot := List.head?_dropWhile_not Text.isBlank (Text.trimLeft text).reverse
  rw [hc] at hnot
  exact hnot

@[simp] theorem trim_trim (text : List Char) : Text.trim (Text.trim text) = Text.trim text :=
  trim_eq_self (head?_trim text) (getLast?_trim text)

theorem unwrap_eq_self {text : List Char} (htrim : Text.trim text = text)
    (hin : inside? text = none) : unwrap text = text := by
  rw [unwrap]
  split
  · rename_i inner h
    rw [htrim, hin] at h
    cases h
  · exact htrim

@[simp] theorem unwrap_unwrap (text : List Char) : unwrap (unwrap text) = unwrap text := by
  fun_induction unwrap text with
  | case1 text inner hin ih => exact ih
  | case2 text hin => exact unwrap_eq_self (trim_trim text) hin

theorem trim_unwrap (text : List Char) : Text.trim (unwrap text) = unwrap text := by
  fun_induction unwrap text with
  | case1 text inner hin ih => exact ih
  | case2 text hin => exact trim_trim text

theorem leading_of_none {text : List Char} (h : block? (unwrap text) = none) :
    leading text = ([], unwrap text) := by
  rw [leading]
  split
  · rfl
  · rename_i heq
    rw [h] at heq
    cases heq

theorem leading_of_some {text rest : List Char} {block : Block}
    (h : block? (unwrap text) = some (block, rest)) :
    leading text = (block :: (leading rest).1, (leading rest).2) := by
  rw [leading]
  split
  · rename_i heq
    rw [h] at heq
    cases heq
  · rename_i heq
    rw [h] at heq
    cases heq
    rfl

theorem leading_unwrap (text : List Char) : leading (unwrap text) = leading text := by
  rw [leading, unwrap_unwrap, ← leading]

/-- What is left has no further quantifiers in front. -/
theorem leading_leading (text : List Char) :
    leading (leading text).2 = ([], (leading text).2) := by
  fun_induction leading text with
  | case1 text hnone =>
    rw [leading_of_none (by rwa [unwrap_unwrap]), unwrap_unwrap]
  | case2 text block rest hsome blocks body heq ih =>
    rw [heq] at ih
    exact ih

theorem trim_leading (text : List Char) : Text.trim (leading text).2 = (leading text).2 := by
  fun_induction leading text with
  | case1 text hnone => exact trim_unwrap text
  | case2 text block rest hsome blocks body heq ih =>
    rw [heq] at ih
    exact ih

theorem polarity_unwrap (negated : Bool) (text : List Char) :
    polarity negated (unwrap text) = polarity negated text := by
  rw [polarity, polarity, unwrap_unwrap]

/-- Wrapping parentheses make no difference to a literal. -/
theorem readLiteral_unwrap (negated : Bool) (text : List Char) :
    readLiteral negated (unwrap text) = readLiteral negated text := by
  simp only [readLiteral, polarity_unwrap]

/-! ### Texts that do not fall apart -/

theorem cutFrom_of_not_mem {connective : Char} {text : List Char} (h : connective ∉ text) :
    ∀ depth, cutFrom connective depth text = [text] := by
  induction text with
  | nil => exact fun _ => rfl
  | cons c rest ih =>
    intro depth
    have hrest := ih fun hmem => h (List.mem_cons_of_mem _ hmem)
    have hc : c ≠ connective := fun e => h (e ▸ List.mem_cons_self ..)
    simp [cutFrom, hrest, hc, consFirst]

theorem splitTop_of_not_mem {connective : Char} {text : List Char} (h : connective ∉ text) :
    splitTop connective text = [Text.trim text] := by
  rw [splitTop, cutFrom_of_not_mem h]
  rfl

theorem splitTop_ne_nil (connective : Char) (text : List Char) : splitTop connective text ≠ [] := by
  rw [splitTop, ne_eq, List.map_eq_nil_iff]
  exact cutFrom_ne_nil connective 0 text

theorem isOperator_symbol (j : Junctor) : isOperator j.symbol = true := by
  cases j <;> decide

/-- A text without operators does not fall apart. -/
theorem splitTop_of_operatorFree {connective : Char} {text : List Char}
    (hconn : isOperator connective = true) (h : ∀ c ∈ text, isOperator c = false) :
    splitTop connective text = [Text.trim text] := by
  refine splitTop_of_not_mem fun hmem => ?_
  rw [h _ hmem] at hconn
  cases hconn

/-! ### What the formula of a text can be -/

/-- How a text without quantifiers in front spells a formula. -/
inductive Spells (outer : Junctor) (text : List Char) : Formula → Prop where
  /-- As an implication. -/
  | arrow {a c : List Char} {A C : Formula} (cut : splitTop '⇒' text = [a, c])
      (antecedent : parse .or a = some A) (consequent : parse .and c = some C) :
      Spells outer text (.implies A C)
  /-- As a conjunction or a disjunction. -/
  | joined {j : Junctor} {parts : List Formula} (plain : (splitTop '⇒' text).length ≤ 1)
      (first : j = outer ∨ ¬ Splits outer text) (splits : Splits j text)
      (read : List.Forall₂ (fun part F => parse outer part = some F) (splitTop j.symbol text) parts) :
      Spells outer text (.joined j parts)
  /-- As a literal. -/
  | literal {l : Literal} (read : readLiteral false text = .ok l) :
      Spells outer text (.literal l)

theorem mapM_eq_some_iff {α β : Type} {f : α → Option β} {l : List α} {bs : List β} :
    l.mapM f = some bs ↔ List.Forall₂ (fun a b => f a = some b) l bs := by
  induction l generalizing bs with
  | nil => simp [eq_comm]
  | cons a rest ih =>
    rw [List.mapM_cons]
    cases bs with
    | nil => simp [Option.bind_eq_some_iff]
    | cons b bs => simp [Option.bind_eq_some_iff, ih]

theorem mapM_attach {α β : Type} {m : Type → Type} [Monad m] [LawfulMonad m] (f : α → m β)
    (l : List α) : (l.attach.mapM fun a => f a.1) = l.mapM f := by
  have hmap : (l.attach.mapM fun a => f a.1) = (l.attach.map Subtype.val).mapM f :=
    List.mapM_map.symm
  rw [hmap, List.attach_map_subtype_val]

theorem junctor?_eq_some {outer j : Junctor} {text : List Char} {hj : Splits j text}
    (h : junctor? outer text = some ⟨j, hj⟩) : j = outer ∨ ¬ Splits outer text := by
  unfold junctor? at h
  split at h
  · cases h
    exact .inl rfl
  · exact .inr (by assumption)

theorem junctor?_of_splits {outer j : Junctor} {text : List Char} (hj : Splits j text)
    (h : j = outer ∨ ¬ Splits outer text) : junctor? outer text = some ⟨j, hj⟩ := by
  unfold junctor?
  by_cases hout : Splits outer text
  · obtain rfl := h.resolve_right (not_not.2 hout)
    rw [dif_pos hout]
  · rw [dif_neg hout]
    obtain rfl | rfl := Junctor.eq_or_dual j outer
    · exact absurd hj hout
    · rw [dif_pos hj]

/-- Quantifiers in front and the body say what a formula is. -/
theorem eq_close_iff {F G : Formula} {quantifiers : List (Marker × String)} (hG : G.lead = []) :
    F = close quantifiers G ↔ F.lead = quantifiers ∧ F.body = G := by
  constructor
  · rintro rfl
    refine ⟨by rw [lead_close, hG, List.append_nil], ?_⟩
    rw [body_close]
    cases G with
    | quantified => cases hG
    | _ => rfl
  · rintro ⟨rfl, rfl⟩
    exact (close_lead_body F).symm

theorem Spells.lead_eq {outer : Junctor} {text : List Char} {G : Formula}
    (h : Spells outer text G) : G.lead = [] := by
  cases h <;> rfl

/-- A text without an arrow spells what its junctor, or else its literal, makes of it. -/
theorem spells_of_plain {outer : Junctor} {body : List Char} {G : Formula}
    (plain : (splitTop '⇒' body).length ≤ 1)
    (h : (match junctor? outer body with
      | some ⟨j, _⟩ => do
        return Formula.joined j
          (← (splitTop j.symbol body).attach.mapM fun ⟨part, _⟩ => parse outer part)
      | none => (readLiteral false body).toOption.map Formula.literal) = some G) :
    Spells outer body G := by
  split at h
  · rename_i j hj hsplit
    rw [Option.bind_eq_bind, Option.bind_eq_some_iff] at h
    obtain ⟨parts, hparts, h⟩ := h
    cases h
    rw [mapM_attach (f := parse outer)] at hparts
    exact .joined plain (junctor?_eq_some hsplit) hj (mapM_eq_some_iff.1 hparts)
  · obtain ⟨l, hl, rfl⟩ := Option.map_eq_some_iff.1 h
    cases hread : readLiteral false body with
    | error e => rw [hread] at hl; cases hl
    | ok l' =>
      rw [hread] at hl
      cases hl
      exact .literal hread

/-- A literal falls apart nowhere. -/
theorem splitTop_of_read {connective : Char} (hop : isOperator connective = true)
    {body : List Char} {l : Literal} (read : readLiteral false body = .ok l) :
    splitTop connective body = [Text.trim body] :=
  splitTop_of_operatorFree hop (readLiteral_operatorFree read)

theorem junctor?_of_read {outer : Junctor} {body : List Char} {l : Literal}
    (read : readLiteral false body = .ok l) : junctor? outer body = none := by
  have hj : ∀ j : Junctor, ¬ Splits j body := by
    intro j
    rw [Splits, splitTop_of_read (isOperator_symbol j) read]
    simp
  rw [junctor?, dif_neg (hj _), dif_neg (hj _)]

/-- **What the formula of a text can be:** behind its quantifiers an implication, a
    conjunction, a disjunction or a literal. -/
theorem parse_iff {outer : Junctor} {text : List Char} {F : Formula} :
    parse outer text = some F ↔
      F.lead = quantifiersOf (leading text).1 ∧ Spells outer (leading text).2 F.body := by
  suffices hclose : parse outer text = some F ↔ ∃ G, Spells outer (leading text).2 G ∧
      F = close (quantifiersOf (leading text).1) G by
    rw [hclose]
    constructor
    · rintro ⟨G, hG, hF⟩
      obtain ⟨hlead, rfl⟩ := (eq_close_iff hG.lead_eq).1 hF
      exact ⟨hlead, hG⟩
    · exact fun ⟨hlead, hbody⟩ => ⟨_, hbody, (eq_close_iff (lead_body F)).2 ⟨hlead, rfl⟩⟩
  rw [parse]
  dsimp only
  rw [Option.map_eq_some_iff]
  refine exists_congr fun G => and_congr ?_ eq_comm
  generalize (leading text).2 = body
  constructor
  · intro h
    split at h
    · rename_i a c hcut
      simp only [Option.bind_eq_bind, Option.bind_eq_some_iff] at h
      obtain ⟨A, hA, C, hC, h⟩ := h
      cases h
      exact .arrow hcut hA hC
    · cases h
    · rename_i hne₂ hne₃
      refine spells_of_plain ?_ h
      match hcut : splitTop '⇒' body with
      | [] => simp
      | [_] => simp
      | [a, c] => exact absurd hcut (hne₂ a c)
      | a :: b :: c :: rest => exact absurd hcut (hne₃ a b c rest)
  · intro h
    cases h with
    | arrow cut hA hC =>
      split
      · rename_i hcut
        rw [cut] at hcut
        cases hcut
        simp [hA, hC]
      · rename_i hcut
        rw [cut] at hcut
        cases hcut
      · rename_i hne₂ hne₃
        exact absurd cut (hne₂ _ _)
    | joined plain first splits read =>
      split
      · rename_i hcut
        simp [hcut] at plain
      · rename_i hcut
        simp [hcut] at plain
      · rw [junctor?_of_splits splits first]
        dsimp only
        rw [mapM_attach (f := parse outer), mapM_eq_some_iff.2 read]
        rfl
    | literal read =>
      have hcut : splitTop '⇒' body = [Text.trim body] := splitTop_of_read (by decide) read
      split
      · rename_i hcut'
        rw [hcut] at hcut'
        cases hcut'
      · rename_i hcut'
        rw [hcut] at hcut'
        cases hcut'
      · rw [junctor?_of_read read, read]
        rfl

/-- Wrapping parentheses make no difference to a formula. -/
theorem parse_unwrap (outer : Junctor) (text : List Char) :
    parse outer (unwrap text) = parse outer text := by
  refine Option.ext fun F => ?_
  rw [parse_iff, parse_iff, leading_unwrap]

theorem exists_parse {outer : Junctor} {text : List Char} {G : Formula}
    (h : Spells outer (leading text).2 G) : ∃ F, parse outer text = some F ∧
      F.lead = quantifiersOf (leading text).1 ∧ F.body = G := by
  have hF := (eq_close_iff h.lead_eq).1 (Eq.refl (close (quantifiersOf (leading text).1) G))
  exact ⟨_, parse_iff.2 ⟨hF.1, hF.2.symm ▸ h⟩, hF⟩

/-- Quantifiers in front can be read first. -/
theorem parse_body_iff {outer : Junctor} {text : List Char} {F : Formula} :
    parse outer text = some F ↔
      F.lead = quantifiersOf (leading text).1 ∧ parse outer (leading text).2 = some F.body := by
  rw [parse_iff, parse_iff, leading_leading, lead_body, body_body]
  exact and_congr_right fun _ => ⟨fun h => ⟨rfl, h⟩, fun h => h.2⟩

theorem exists_parse_body {outer : Junctor} {text : List Char} {G : Formula}
    (h : parse outer (leading text).2 = some G) : ∃ F, parse outer text = some F ∧
      F.lead = quantifiersOf (leading text).1 ∧ F.body = G := by
  have hlead := (parse_iff.1 h).1
  rw [leading_leading] at hlead
  obtain ⟨hF, hbody⟩ := (eq_close_iff hlead).1
    (Eq.refl (close (quantifiersOf (leading text).1) G))
  exact ⟨_, parse_body_iff.2 ⟨hF, hbody.symm ▸ h⟩, hF, hbody⟩

theorem eq_nil_of_quantifiersOf {text : List Char} (h : quantifiersOf (leading text).1 = []) :
    leading text = ([], unwrap text) := by
  cases hblock : block? (unwrap text) with
  | none => exact leading_of_none hblock
  | some found =>
    obtain ⟨block, rest⟩ := found
    have hsome := leading_of_some hblock
    have hne := names_ne_nil_of_mem_leading text block (by rw [hsome]; simp)
    rw [hsome] at h
    simp [quantifiersOf, hne] at h

theorem leading_of_operatorFree {text : List Char}
    (h : ∀ c ∈ unwrap text, c ≠ '∀' ∧ c ≠ '∃') : leading text = ([], unwrap text) := by
  refine leading_of_none ?_
  cases hbody : unwrap text with
  | nil => rfl
  | cons c rest =>
    have hc := h c (by rw [hbody]; exact List.mem_cons_self ..)
    have hmarker : marker? c = none := by
      unfold marker?
      split
      · exact absurd rfl hc.1
      · exact absurd rfl hc.2
      · rfl
    simp [block?, hmarker]

theorem length_consFirst_eq (c : Char) {parts : List (List Char)} (h : parts ≠ []) :
    (consFirst c parts).length = parts.length := by
  cases parts with
  | nil => exact absurd rfl h
  | cons part parts => rfl

theorem cutFrom_eq_singleton {connective : Char} {text : List Char} {depth : Int}
    (h : (cutFrom connective depth text).length ≤ 1) : cutFrom connective depth text = [text] := by
  -- a single part is all that there is to join
  have hjoined := intercalate_cutFrom connective text depth
  cases hcut : cutFrom connective depth text with
  | nil => exact absurd hcut (cutFrom_ne_nil _ _ _)
  | cons part parts =>
    rw [hcut] at h hjoined
    obtain rfl := List.length_eq_zero_iff.1 (Nat.le_zero.1 (Nat.le_of_succ_le_succ h))
    rw [← hjoined, List.intercalate_singleton]

theorem splitTop_eq_singleton {connective : Char} {text : List Char}
    (h : (splitTop connective text).length ≤ 1) : splitTop connective text = [Text.trim text] := by
  rw [splitTop, List.length_map] at h
  rw [splitTop, cutFrom_eq_singleton h]
  rfl

/-- **Parts of a text:** the formulas of the parts make up the formula of the text, or
    there is one part and its formula is the formula of the text. -/
theorem parts_iff {outer j : Junctor} {text : List Char} {P : Formula → Prop} {Fs : List Formula}
    (hlead : leading text = ([], text)) (htrim : Text.trim text = text)
    (hjoined : Splits j text → List.Forall₂ (fun part F => parse outer part = some F ∧ P F)
      (splitTop j.symbol text) Fs →
      (splitTop '⇒' text).length ≤ 1 ∧ (j = outer ∨ ¬ Splits outer text))
    (hsingle : ∀ G, parse outer text = some G → P G → ¬ Splits j text) :
    List.Forall₂ (fun part F => parse outer part = some F ∧ P F) (splitTop j.symbol text) Fs ↔
      ∃ G, parse outer text = some G ∧
        (P G ∧ Fs = [G] ∨ G = .joined j Fs ∧ ∀ F ∈ Fs, P F) := by
  have hone : ¬ Splits j text → splitTop j.symbol text = [text] := fun h => by
    rw [splitTop_eq_singleton (Nat.le_of_not_lt h), htrim]
  constructor
  · intro hFs
    by_cases hsplit : Splits j text
    · obtain ⟨hplain, hfirst⟩ := hjoined hsplit hFs
      obtain ⟨hread, hP⟩ := forall₂_and_right.1 hFs
      refine ⟨_, parse_iff.2 ⟨?_, ?_⟩, .inr ⟨rfl, hP⟩⟩
      · rw [hlead]
        rfl
      · rw [hlead]
        exact .joined hplain hfirst hsplit hread
    · rw [hone hsplit] at hFs
      cases hFs with
      | cons hF hnil =>
        cases hnil
        exact ⟨_, hF.1, .inl ⟨hF.2, rfl⟩⟩
  · rintro ⟨G, hparse, ⟨hP, rfl⟩ | ⟨rfl, hP⟩⟩
    · rw [hone (hsingle G hparse hP)]
      exact .cons ⟨hparse, hP⟩ .nil
    · have hspells := (parse_iff.1 hparse).2
      rw [hlead] at hspells
      cases hspells with
      | joined _ _ _ read =>
        exact forall₂_and_right.2 ⟨read, hP⟩

/-- A text without an arrow that falls apart at the first junctor is joined by it. -/
theorem exists_joined_of_splits {outer : Junctor} {text : List Char} {G : Formula}
    (hlead : leading text = ([], text)) (hplain : (splitTop '⇒' text).length ≤ 1)
    (hsplit : Splits outer text) (hparse : parse outer text = some G) :
    ∃ parts, G.body = .joined outer parts := by
  have hspells := (parse_iff.1 hparse).2
  rw [hlead] at hspells
  generalize G.body = body at hspells
  cases hspells with
  | arrow cut => simp [cut] at hplain
  | joined _ first _ _ =>
    obtain rfl := first.resolve_right (not_not.2 hsplit)
    exact ⟨_, rfl⟩
  | literal read =>
    rw [Splits, splitTop_of_operatorFree (isOperator_symbol outer)
      (readLiteral_operatorFree read)] at hsplit
    simp at hsplit

/-- **Induction over reading:** what holds of the parts of a text and their formulas holds of
    the text and the formula that it spells. -/
theorem parse_induct {motive : List Char → Formula → Prop}
    (quantified : ∀ {text F}, F.lead = quantifiersOf (leading text).1 →
      motive (leading text).2 F.body → motive text F)
    (arrow : ∀ {text a c A C}, splitTop '⇒' text = [a, c] → motive a A → motive c C →
      motive text (.implies A C))
    (joined : ∀ {text j parts}, Splits j text →
      List.Forall₂ motive (splitTop j.symbol text) parts → motive text (.joined j parts))
    (literal : ∀ {text l}, readLiteral false text = .ok l → motive text (.literal l))
    {outer : Junctor} {text : List Char} {F : Formula} (h : parse outer text = some F) :
    motive text F := by
  -- every part is shorter than the text
  induction hn : text.length using Nat.strongRecOn generalizing outer text F with
  | ind n ih =>
    subst hn
    obtain ⟨hlead, hspells⟩ := parse_iff.1 h
    refine quantified hlead ?_
    have hpart : ∀ {connective part}, part ∈ splitTop connective (leading text).2 →
        1 < (splitTop connective (leading text).2).length →
        ∀ {outer G}, parse outer part = some G → motive part G :=
      fun hpart hcut _ _ hparse => ih _ (Nat.lt_of_lt_of_le (length_lt_of_mem_splitTop hpart hcut)
        (length_leading_le text)) hparse rfl
    generalize F.body = body at hspells
    cases hspells with
    | @arrow a c _ _ cut hA hC =>
      have hcut : 1 < (splitTop '⇒' (leading text).2).length := by simp [cut]
      have ha : a ∈ splitTop '⇒' (leading text).2 := by simp [cut]
      have hc : c ∈ splitTop '⇒' (leading text).2 := by simp [cut]
      exact arrow cut (hpart ha hcut hA) (hpart hc hcut hC)
    | joined _ _ splits read =>
      refine joined splits ?_
      rw [List.forall₂_iff_get] at read ⊢
      exact ⟨read.1, fun i hi hi' => hpart (List.getElem_mem _) splits (read.2 i hi hi')⟩
    | literal read => exact literal read

/-- A text spells a literal, as a formula, when it can be read as one. -/
theorem parse_eq_literal_iff {outer : Junctor} {text : List Char} {l : Literal} :
    parse outer text = some (.literal l) ↔ readLiteral false text = .ok l := by
  rw [parse_iff]
  constructor
  · rintro ⟨hlead, hbody⟩
    rw [eq_nil_of_quantifiersOf hlead.symm] at hbody
    cases hbody with
    | literal read => rwa [readLiteral_unwrap] at read
  · intro read
    have hfree := readLiteral_operatorFree read
    have hleading : leading text = ([], unwrap text) :=
      leading_of_operatorFree fun c hc => by
        have := hfree c (unwrap_subset text hc)
        constructor <;> rintro rfl <;> exact absurd this (by decide)
    rw [hleading]
    exact ⟨rfl, .literal (by rwa [readLiteral_unwrap])⟩

/-- A disjunct is spelled without connectives. -/
theorem connectiveFree_of_disjunct {outer : Junctor} {inScope : Bool} {text : List Char}
    {F : Formula} (h : F.Disjunct inScope) (hparse : parse outer text = some F) :
    ∀ c ∈ text, isConnective c = false := by
  intro c hc
  by_contra hconn
  rw [Bool.not_eq_false] at hconn
  obtain ⟨_, _, l, hl⟩ := h
  have hbody := (parse_iff.1 hparse).2
  rw [hl] at hbody
  cases hbody with
  | literal read =>
    have := readLiteral_operatorFree read c (mem_leading hc hconn)
    rw [isOperator_of_isConnective hconn] at this
    cases this

theorem operatorFree_of_isLiteral {outer : Junctor} {text : List Char} {F : Formula}
    (h : F.IsLiteral) (hparse : parse outer text = some F) :
    ∀ c ∈ text, isOperator c = false := by
  obtain ⟨l, rfl⟩ := h
  exact readLiteral_operatorFree (parse_eq_literal_iff.1 hparse)

/-- An operator that stands in no part does not stand in the text, unless it joins the
    parts. -/
theorem not_mem_of_parts {connective c : Char} {text : List Char} (hne : c ≠ connective)
    (hop : isOperator c = true) (h : ∀ part ∈ splitTop connective text, c ∉ part) : c ∉ text := by
  intro hmem
  obtain ⟨part, hpart, hc⟩ := mem_splitTop hmem hne hop
  exact h part hpart hc

end Sentence

end Refuter
