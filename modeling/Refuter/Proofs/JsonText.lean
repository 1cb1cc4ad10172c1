import Mathlib
import Refuter.Json.Printer
import Refuter.Json.Reader

/-! # Reading what was written

A value is written as characters and read back through tokens, and the two ways meet
in the middle: `Json.toTokens` lists the tokens of a value without a text in between.

- **The lexer** cuts a written value into these tokens, whatever the layout
  (`lexes_of_isExact`). What follows a number must not continue it; in a written value
  it never does.
- **The machine** makes of these tokens what a recursion over the value makes of it,
  from the inside out (`Reading.runs`).

**Key result.** Reading the text of a value comes to that recursion (`readWith_render`).
Decimal numbers are left aside.
-/

namespace Refuter

/-! ### Whole numbers -/

theorem isDigit_of_mem_natText {n : Nat} {c : Char} (h : c ∈ natText n) : c.isDigit = true :=
  Nat.isDigit_of_mem_toDigits (b := 10) (by decide) (by decide) h

theorem natText_ne_nil (n : Nat) : natText n ≠ [] :=
  Nat.toDigits_ne_nil

/-- A number above zero does not begin with a zero. -/
theorem exists_natText {n : Nat} (h : 0 < n) : ∃ c tail, natText n = c :: tail ∧ c ≠ '0' := by
  induction n using Nat.strongRecOn with
  | ind n ih =>
    unfold natText at ih ⊢
    rw [Nat.toDigits_eq_if (by decide)]
    split
    · refine ⟨Nat.digitChar n, [], rfl, ?_⟩
      rw [ne_eq, Nat.digitChar_eq_zero]
      omega
    · obtain ⟨c, tail, htext, hc⟩ := ih (n / 10) (by omega) (by omega)
      rw [htext]
      exact ⟨c, tail ++ [Nat.digitChar (n % 10)], rfl, hc⟩

namespace Scalar

/-- A whole number can be written exactly if it is not too far from zero. -/
theorem isWritable_int {n : Int} : (Scalar.int n).isWritable = true ↔ n.natAbs < 10 ^ maxDigits := by
  unfold isWritable natText
  rw [decide_eq_true_iff]
  exact Nat.length_toDigits_le_iff (by decide) (by decide)

/-- A scalar that can be read back as it was: no decimal number, and a whole one only
    if it can be written. -/
def IsExact (s : Scalar) : Prop :=
  s.isWritable = true ∧ ∀ x, s ≠ .decimal x

/-- Different numbers have different digits. -/
theorem intText_inj {m n : Int} (h : intText m = intText n) : m = n := by
  have hdigits : ∀ {a b : Nat}, natText a = natText b → a = b := by
    intro a b hab
    have hread := congrArg (Nat.ofDigitChars 10 · 0) hab
    simpa only [natText, Nat.ofDigitChars_ten_toDigits] using hread
  -- a sign is no digit
  have hsign : ∀ {a b : Nat}, natText a ≠ '-' :: natText b := by
    intro a b hab
    have hmem : '-' ∈ natText a := by
      rw [hab]
      exact List.mem_cons_self
    exact absurd (isDigit_of_mem_natText hmem) (by decide)
  cases m with
  | ofNat a =>
    cases n with
    | ofNat b => rw [hdigits h]
    | negSucc b => exact absurd h hsign
  | negSucc a =>
    cases n with
    | ofNat b => exact absurd h.symm hsign
    | negSucc b =>
      have hab := hdigits (List.cons.inj h).2
      rw [Nat.succ.inj hab]

end Scalar

namespace Json

/-! ### What follows a number -/

/-- Can the character continue a whole number? -/
def continues (c : Char) : Bool :=
  c.isDigit || c = '.' || c = 'e' || c = 'E'

/-- The text behind a number does not continue it. -/
def Ends (rest : List Char) : Prop :=
  ∀ c ∈ rest.head?, continues c = false

theorem ends_nil : Ends [] := by
  intro c hc
  cases hc

theorem ends_cons {c : Char} (h : continues c = false) (rest : List Char) : Ends (c :: rest) := by
  intro d hd
  obtain rfl := Option.some.inj hd
  exact h

/-- A line break ends a number, and without one what follows it does. -/
theorem ends_newline (indent : Option Nat) (depth : Nat) {rest : List Char} (h : Ends rest) :
    Ends (newline indent depth ++ rest) := by
  cases indent with
  | none => exact h
  | some n => exact ends_cons (by decide) _

theorem ends_separator (indent : Option Nat) (depth : Nat) (rest : List Char) :
    Ends (separator indent depth ++ rest) := by
  cases indent with
  | none => exact ends_cons (by decide) _
  | some n => exact ends_cons (by decide) _

theorem ends_items (indent : Option Nat) (depth : Nat) (items : List Json) {rest : List Char}
    (h : Ends rest) : Ends (writeItems indent depth items ++ rest) := by
  cases items with
  | nil => exact h
  | cons v items =>
    rw [writeItems, List.append_assoc, List.append_assoc]
    exact ends_separator indent depth _

theorem ends_members (indent : Option Nat) (depth : Nat) (members : List (String × Json))
    {rest : List Char} (h : Ends rest) : Ends (writeMembers indent depth members ++ rest) := by
  cases members with
  | nil => exact h
  | cons m members =>
    obtain ⟨name, v⟩ := m
    rw [writeMembers, List.append_assoc, List.append_assoc, List.append_assoc, List.append_assoc]
    exact ends_separator indent depth _

/-! ### Numbers are read back -/

theorem takeDigits_append {digits rest : List Char} (hdigits : ∀ c ∈ digits, c.isDigit = true)
    (hrest : Ends rest) : takeDigits (digits ++ rest) = (digits, rest) := by
  induction digits with
  | nil =>
    cases rest with
    | nil => rfl
    | cons c rest =>
      have hc : c.isDigit = false := by
        have hends := hrest c rfl
        simp only [continues, Bool.or_eq_false_iff] at hends
        exact hends.1.1.1
      simp [takeDigits, hc]
  | cons d digits ih =>
    obtain ⟨hd, hdigits⟩ := List.forall_mem_cons.1 hdigits
    have hrec := ih hdigits
    simp only [takeDigits, Prod.mk.injEq] at hrec ⊢
    rw [List.cons_append, List.takeWhile_cons_of_pos hd, List.dropWhile_cons_of_pos hd, hrec.1,
      hrec.2]
    exact ⟨rfl, rfl⟩

theorem takeWhole_natText (n : Nat) {rest : List Char} (hrest : Ends rest) :
    takeWhole (natText n ++ rest) = (natText n, rest) := by
  by_cases hn : n = 0
  · rw [hn]
    rfl
  · have htake : takeDigits (natText n ++ rest) = (natText n, rest) :=
      takeDigits_append (fun c hc => isDigit_of_mem_natText hc) hrest
    obtain ⟨c, tail, htext, hc⟩ := exists_natText (Nat.pos_of_ne_zero hn)
    rw [htext, List.cons_append] at htake ⊢
    unfold takeWhole
    split
    · -- only zero begins with a zero
      rename_i hzero
      exact absurd (List.cons.inj hzero).1 hc
    · exact htake

theorem takeFraction_of_ends {rest : List Char} (h : Ends rest) : takeFraction rest = ([], rest) := by
  unfold takeFraction
  split
  · exact absurd (h '.' rfl) (by decide)
  · rfl

theorem takeExponent_of_ends {rest : List Char} (h : Ends rest) :
    takeExponent rest = (none, rest) := by
  unfold takeExponent
  split
  · rename_i e tail
    have hends := h e rfl
    simp only [continues, Bool.or_eq_false_iff, decide_eq_false_iff_not] at hends
    rw [if_neg (by rintro (rfl | rfl) <;> simp at hends)]
  · rfl

/-- The digits of a number make it up. -/
theorem ofDigits_natText (n : Nat) : ofDigits (natText n) = n := by
  have heq : ofDigits (natText n) = Nat.ofDigitChars 10 (natText n) 0 := by
    -- the factors stand the other way round
    unfold ofDigits Nat.ofDigitChars
    congr 1
    funext a c
    rw [Nat.mul_comm]
  rw [heq, natText, Nat.ofDigitChars_ten_toDigits]

theorem readMagnitude_natText (negative : Bool) {n : Nat} {rest : List Char} (hrest : Ends rest)
    (hn : (natText n).length ≤ Scalar.maxDigits) :
    readMagnitude negative (natText n ++ rest)
      = some (.scalar (.int (Double.signed negative n)), rest) := by
  have hne : (natText n).isEmpty = false := by
    rw [Bool.eq_false_iff, ne_eq, List.isEmpty_iff]
    exact natText_ne_nil n
  unfold readMagnitude
  rw [takeWhole_natText n hrest]
  dsimp only
  rw [hne, takeFraction_of_ends hrest]
  dsimp only
  rw [takeExponent_of_ends hrest]
  simp only [wholeToken, if_neg (Nat.not_lt.2 hn), ofDigits_natText]
  rfl

/-- No sign and no word begins with a digit, -/
theorem readFixed_of_isDigit {c : Char} (hc : c.isDigit = true) (text : List Char) :
    readFixed (c :: text) = none := by
  unfold readFixed
  split
  case h_13 => rfl
  all_goals
    rename_i h
    obtain ⟨rfl, _⟩ := List.cons.inj h
    exact absurd hc (by decide)

/-- nor with a minus in front of one. -/
theorem readFixed_of_minus {c : Char} (hc : c.isDigit = true) (text : List Char) :
    readFixed ('-' :: c :: text) = none := by
  have hletter : c ≠ 'I' := by
    intro h
    rw [h] at hc
    cases hc
  simp [readFixed, hletter]

/-- **A whole number is read back,** sign and all. -/
theorem readToken_intText {n : Int} {rest : List Char} (hrest : Ends rest)
    (hn : (Scalar.int n).isWritable = true) :
    readToken (Scalar.intText n ++ rest) = some (.scalar (.int n), rest) := by
  have hlength : (natText n.natAbs).length ≤ Scalar.maxDigits := by
    simpa [Scalar.isWritable] using hn
  have hread := fun negative => readMagnitude_natText negative hrest hlength
  obtain ⟨c, tail, htext⟩ := List.exists_cons_of_ne_nil (natText_ne_nil n.natAbs)
  have hc : c.isDigit = true := by
    apply isDigit_of_mem_natText
    rw [htext]
    exact List.mem_cons_self
  have hother : ∀ d : Char, d.isDigit = false → c ≠ d := by
    intro d hd h
    rw [h, hd] at hc
    cases hc
  rw [htext, List.cons_append] at hread
  cases n with
  | ofNat n =>
    show readToken (natText n ++ rest) = _
    rw [show natText n = c :: tail from htext, List.cons_append]
    unfold readToken
    rw [readFixed_of_isDigit hc]
    simp [readNumber, hother '"' (by decide), hother '-' (by decide), hread]
    rfl
  | negSucc n =>
    show readToken ('-' :: natText (n + 1) ++ rest) = _
    rw [show natText (n + 1) = c :: tail from htext, List.cons_append, List.cons_append]
    unfold readToken
    rw [readFixed_of_minus hc]
    simp [readNumber, hread]
    rfl

/-! ### Texts are read back -/

/-- A control is written by four digits that tell which it is. -/
theorem exists_hexPadded {n : Nat} (h : n < 0x20) :
    ∃ a b c d, Text.hexPadded 4 n = [a, b, c, d] ∧ unit? a b c d = some n := by
  have hall : ∀ n < 0x20,
      Text.hexPadded 4 n = ['0', '0', Nat.digitChar (n / 16), Nat.digitChar (n % 16)] ∧
        unit? '0' '0' (Nat.digitChar (n / 16)) (Nat.digitChar (n % 16)) = some n := by
    decide +kernel
  exact ⟨_, _, _, _, hall n h⟩

/-- The characters that are written by a letter behind a backslash. -/
def shortened : List Char :=
  ['"', '\\', '\n', '\r', '\t', Char.ofNat 0x0C, Char.ofNat 0x08]

/-- The letter tells which character it is. -/
theorem escapedChar_shortened {c : Char} (h : c ∈ shortened) :
    ∃ letter, escapedChar c = ['\\', letter] ∧ shortEscape? letter = some c := by
  simp only [shortened, List.mem_cons, List.not_mem_nil, or_false] at h
  rcases h with rfl | rfl | rfl | rfl | rfl | rfl | rfl
  · exact ⟨'"', rfl, rfl⟩
  · exact ⟨'\\', rfl, rfl⟩
  · exact ⟨'n', rfl, rfl⟩
  · exact ⟨'r', rfl, rfl⟩
  · exact ⟨'t', rfl, rfl⟩
  · exact ⟨'f', rfl, rfl⟩
  · exact ⟨'b', rfl, rfl⟩

theorem escapedChar_of_not_mem {c : Char} (h : c ∉ shortened) :
    escapedChar c = if c.toNat < 0x20 then '\\' :: 'u' :: Text.hexPadded 4 c.toNat else [c] := by
  have hcode : ∀ n, c ≠ Char.ofNat n → c.toNat ≠ n := by
    intro n hn hc
    rw [← hc, Char.ofNat_toNat] at hn
    exact hn rfl
  simp only [shortened, List.mem_cons, List.not_mem_nil, or_false, not_or] at h
  obtain ⟨hquote, hslash, hline, hreturn, htab, hfeed, hback⟩ := h
  unfold escapedChar
  rw [if_neg hquote, if_neg hslash, if_neg hline, if_neg hreturn, if_neg htab,
    if_neg (hcode _ hfeed), if_neg (hcode _ hback)]

/-- **A character is read back,** however it is written. -/
theorem readText_escapedChar (c : Char) (rest : List Char) :
    readText none (escapedChar c ++ rest) = inFront [c] (readText none rest) := by
  by_cases hshort : c ∈ shortened
  · obtain ⟨letter, hwritten, hread⟩ := escapedChar_shortened hshort
    have hletter : letter ≠ 'u' := by
      intro hu
      rw [hu] at hread
      cases hread
    rw [hwritten, List.cons_append, List.cons_append, List.nil_append, readText]
    · rw [hread]
      rfl
    · intro _ _ _ _ _ hu
      exact absurd hu hletter
  · rw [escapedChar_of_not_mem hshort]
    by_cases hcontrol : c.toNat < 0x20
    · -- a control is far below the halves of pairs, so no half is kept back
      obtain ⟨x₁, x₂, x₃, x₄, htext, hunit⟩ := exists_hexPadded hcontrol
      have htake : takeUnit none c.toNat = ([c], none) := by
        unfold takeUnit
        rw [if_neg (by omega), if_neg (by omega), Char.ofNat_toNat]
        rfl
      rw [if_pos hcontrol, htext]
      simp only [List.cons_append, List.nil_append, readText, hunit, htake]
    · have hother : ∀ d ∈ shortened, c ≠ d := by
        intro d hd h
        rw [h] at hshort
        exact hshort hd
      rw [if_neg hcontrol, List.cons_append, List.nil_append, readText]
      · rw [if_neg (by simp [hcontrol, hother '\\' (by decide)])]
        rfl
      · exact hother '"' (by decide)
      · exact fun _ _ _ _ _ h _ => hother '\\' (by decide) h
      · exact fun _ _ h _ => hother '\\' (by decide) h

/-- **A text is read back.** -/
theorem readText_escaped (text rest : List Char) :
    readText none (text.flatMap escapedChar ++ '"' :: rest) = some (text, rest) := by
  induction text with
  | nil => simp [readText, flushHalf]
  | cons c text ih =>
    rw [List.flatMap_cons, List.append_assoc, readText_escapedChar, ih]
    rfl

theorem readToken_textLiteral (s : String) (rest : List Char) :
    readToken (textLiteral s ++ rest) = some (.scalar (.str s), rest) := by
  have hread := readText_escaped s.toList rest
  unfold textLiteral readToken
  simp [readFixed, hread]

/-! ### The tokens of a written value -/

theorem tokens_gap {c : Char} (h : isGap c = true) (rest : List Char) :
    tokens (c :: rest) = tokens rest := by
  rw [tokens, if_pos h]

/-- No token begins with a gap. -/
theorem readToken_gap {c : Char} (h : isGap c = true) (rest : List Char) :
    readToken (c :: rest) = none := by
  simp only [isGap, Bool.or_eq_true, decide_eq_true_eq] at h
  rcases h with ((rfl | rfl) | rfl) | rfl <;>
    simp [readToken, readFixed, readNumber, readMagnitude, takeWhole, takeDigits]

theorem tokens_of_readToken {text behind : List Char} {token : Token}
    (h : readToken text = some (token, behind)) : tokens text = token :: tokens behind := by
  cases text with
  | nil => cases h
  | cons c rest =>
    have hgap : ¬ isGap c = true := by
      intro hc
      rw [readToken_gap hc] at h
      cases h
    rw [tokens, if_neg hgap]
    split
    · rename_i hnone
      rw [h] at hnone
      cases hnone
    · rename_i hsome
      rw [h] at hsome
      cases hsome
      rfl

theorem tokens_newline (indent : Option Nat) (depth : Nat) (rest : List Char) :
    tokens (newline indent depth ++ rest) = tokens rest := by
  have hblanks : ∀ n, tokens (List.replicate n ' ' ++ rest) = tokens rest := by
    intro n
    induction n with
    | zero => rfl
    | succ n ih =>
      rw [List.replicate_succ, List.cons_append, tokens_gap rfl]
      exact ih
  cases indent with
  | none => rfl
  | some n =>
    rw [newline, List.cons_append, tokens_gap rfl]
    exact hblanks (n * depth)

theorem tokens_separator (indent : Option Nat) (depth : Nat) (rest : List Char) :
    tokens (separator indent depth ++ rest) = .comma :: tokens rest := by
  cases indent with
  | none =>
    show tokens (',' :: ' ' :: rest) = _
    rw [tokens_of_readToken rfl, tokens_gap rfl]
  | some n =>
    show tokens (',' :: (newline (some n) depth ++ rest)) = _
    rw [tokens_of_readToken rfl, tokens_newline]

theorem tokens_textLiteral (s : String) (rest : List Char) :
    tokens (textLiteral s ++ rest) = .scalar (.str s) :: tokens rest :=
  tokens_of_readToken (readToken_textLiteral s rest)

/-- **A scalar is one token.** -/
theorem tokens_scalarText {s : Scalar} (hs : s.IsExact) {rest : List Char} (hrest : Ends rest) :
    tokens (scalarText s ++ rest) = .scalar s :: tokens rest := by
  obtain ⟨hwritable, hdecimal⟩ := hs
  cases s with
  | null => exact tokens_of_readToken rfl
  | bool b =>
    cases b with
    | true => exact tokens_of_readToken rfl
    | false => exact tokens_of_readToken rfl
  | int n => exact tokens_of_readToken (readToken_intText hrest hwritable)
  | decimal x => exact absurd rfl (hdecimal x)
  | str s => exact tokens_textLiteral s rest

mutual

/-- The tokens of a value. -/
def toTokens : Json → List Token
  | .scalar s => [.scalar s]
  | .arr [] => [.openArray, .closeArray]
  | .arr (v :: rest) => .openArray :: toTokens v ++ itemTokens rest ++ [.closeArray]
  | .obj [] => [.openObject, .closeObject]
  | .obj ((name, v) :: rest) =>
    .openObject :: .scalar (.str name) :: .colon :: toTokens v ++ memberTokens rest ++ [.closeObject]

/-- The tokens of the items behind the first. -/
def itemTokens : List Json → List Token
  | [] => []
  | v :: rest => .comma :: toTokens v ++ itemTokens rest

/-- The tokens of the members behind the first. -/
def memberTokens : List (String × Json) → List Token
  | [] => []
  | (name, v) :: rest => .comma :: .scalar (.str name) :: .colon :: toTokens v ++ memberTokens rest

end

/-- All scalars of the value are exact. -/
inductive IsExact : Json → Prop where
  | scalar {s : Scalar} (h : s.IsExact) : IsExact (.scalar s)
  | arr {items : List Json} (h : ∀ v ∈ items, IsExact v) : IsExact (.arr items)
  | obj {members : List (String × Json)} (h : ∀ m ∈ members, IsExact m.2) : IsExact (.obj members)

theorem isExact_null : Json.null.IsExact :=
  .scalar ⟨rfl, fun _ => nofun⟩

theorem isExact_bool (b : Bool) : (Json.bool b).IsExact :=
  .scalar ⟨rfl, fun _ => nofun⟩

theorem isExact_str (s : String) : (Json.str s).IsExact :=
  .scalar ⟨rfl, fun _ => nofun⟩

theorem isExact_int {n : Int} (h : n.natAbs < 10 ^ Scalar.maxDigits) : (Json.int n).IsExact :=
  .scalar ⟨Scalar.isWritable_int.2 h, fun _ => nofun⟩

theorem IsExact.obj_nil : (Json.obj []).IsExact :=
  .obj (by simp)

theorem IsExact.obj_cons {name : String} {v : Json} {rest : List (String × Json)}
    (hv : v.IsExact) (hrest : (Json.obj rest).IsExact) : (Json.obj ((name, v) :: rest)).IsExact := by
  cases hrest with
  | obj hrest => exact .obj (List.forall_mem_cons.2 ⟨hv, hrest⟩)

/-- The text of a value is cut into its tokens, whatever the layout and whatever
    follows. -/
def Lexes (v : Json) : Prop :=
  ∀ (indent : Option Nat) (depth : Nat) (rest : List Char), Ends rest →
    tokens (writeValue indent depth v ++ rest) = toTokens v ++ tokens rest

theorem tokens_writeItems {items : List Json} (h : ∀ v ∈ items, v.Lexes) (indent : Option Nat)
    (depth : Nat) {rest : List Char} (hrest : Ends rest) :
    tokens (writeItems indent depth items ++ rest) = itemTokens items ++ tokens rest := by
  induction items with
  | nil =>
    rw [writeItems, itemTokens]
    rfl
  | cons v items ih =>
    obtain ⟨hv, hitems⟩ := List.forall_mem_cons.1 h
    rw [writeItems, itemTokens]
    simp only [List.append_assoc, List.cons_append]
    rw [tokens_separator, hv _ _ _ (ends_items _ _ _ hrest), ih hitems]

theorem tokens_writeMembers {members : List (String × Json)} (h : ∀ m ∈ members, m.2.Lexes)
    (indent : Option Nat) (depth : Nat) {rest : List Char} (hrest : Ends rest) :
    tokens (writeMembers indent depth members ++ rest) = memberTokens members ++ tokens rest := by
  induction members with
  | nil =>
    rw [writeMembers, memberTokens]
    rfl
  | cons m members ih =>
    obtain ⟨hm, hmembers⟩ := List.forall_mem_cons.1 h
    obtain ⟨name, v⟩ := m
    rw [writeMembers, memberTokens]
    simp only [List.append_assoc, List.cons_append, List.nil_append]
    rw [tokens_separator, tokens_textLiteral, tokens_of_readToken rfl, tokens_gap rfl,
      hm _ _ _ (ends_members _ _ _ hrest), ih hmembers]

/-- **A written value is cut into its tokens.** -/
theorem lexes_of_isExact {v : Json} (h : v.IsExact) : v.Lexes := by
  induction h with
  | scalar hs =>
    intro indent depth rest hrest
    rw [writeValue, toTokens]
    exact tokens_scalarText hs hrest
  | @arr items _ ih =>
    intro indent depth rest hrest
    cases items with
    | nil =>
      rw [writeValue, toTokens]
      show tokens ('[' :: ']' :: rest) = _
      rw [tokens_of_readToken rfl, tokens_of_readToken rfl]
      rfl
    | cons v items =>
      obtain ⟨hv, hitems⟩ := List.forall_mem_cons.1 ih
      -- an item is followed by a separator or by the bracket, and neither continues a number
      have hclose : Ends (newline indent depth ++ ']' :: rest) :=
        ends_newline indent depth (ends_cons (by decide) rest)
      rw [writeValue, toTokens]
      simp only [List.append_assoc, List.cons_append, List.nil_append]
      rw [tokens_of_readToken rfl, tokens_newline, hv _ _ _ (ends_items _ _ _ hclose),
        tokens_writeItems hitems _ _ hclose, tokens_newline, tokens_of_readToken rfl]
  | @obj members _ ih =>
    intro indent depth rest hrest
    cases members with
    | nil =>
      rw [writeValue, toTokens]
      show tokens ('\x7b' :: '\x7d' :: rest) = _
      rw [tokens_of_readToken rfl, tokens_of_readToken rfl]
      rfl
    | cons m members =>
      obtain ⟨hm, hmembers⟩ := List.forall_mem_cons.1 ih
      obtain ⟨name, v⟩ := m
      have hclose : Ends (newline indent depth ++ '\x7d' :: rest) :=
        ends_newline indent depth (ends_cons (by decide) rest)
      rw [writeValue, toTokens]
      simp only [List.append_assoc, List.cons_append, List.nil_append]
      rw [tokens_of_readToken rfl, tokens_newline, tokens_textLiteral, tokens_of_readToken rfl,
        tokens_gap rfl, hm _ _ _ (ends_members _ _ _ hclose),
        tokens_writeMembers hmembers _ _ hclose, tokens_newline, tokens_of_readToken rfl]

/-! ### The machine -/

/-- Induction over a value: what holds of a list or an object whenever it holds of all
    its parts holds of every value. -/
theorem induction {P : Json → Prop} (scalar : ∀ s, P (.scalar s))
    (arr : ∀ items, (∀ v ∈ items, P v) → P (.arr items))
    (obj : ∀ members, (∀ m ∈ members, P m.2) → P (.obj members)) (v : Json) : P v :=
  match v with
  | .scalar s => scalar s
  | .arr items => arr items fun v _ => induction scalar arr obj v
  | .obj members => obj members fun m _ => induction scalar arr obj m.2
termination_by v
decreasing_by
  · rename_i hv
    have hlt := List.sizeOf_lt_of_mem hv
    simp only [Json.arr.sizeOf_spec]
    omega
  · rename_i hm
    obtain ⟨name, v⟩ := m
    have hlt := List.sizeOf_lt_of_mem hm
    simp only [Prod.mk.sizeOf_spec] at hlt
    simp only [Json.obj.sizeOf_spec]
    omega

namespace Reading

variable {ε α : Type}

mutual

/-- What a reading makes of a value, from the inside out. -/
def make (r : Reading ε α) : Json → Except ε α
  | .scalar s => .ok (r.scalar s)
  | .arr items => do return r.arr (← r.makeItems items)
  | .obj members => do r.obj (Members.ofList (← r.makeMembers members))

/-- What it makes of items. -/
def makeItems (r : Reading ε α) : List Json → Except ε (List α)
  | [] => .ok []
  | v :: rest => do
    let a ← r.make v
    return a :: (← r.makeItems rest)

/-- What it makes of members. -/
def makeMembers (r : Reading ε α) : List (String × Json) → Except ε (List (String × α))
  | [] => .ok []
  | (name, v) :: rest => do
    let a ← r.make v
    return (name, a) :: (← r.makeMembers rest)

end

/-- The machine makes of the tokens of a value what the reading makes of it, and goes
    on behind them. -/
def Runs (r : Reading ε α) (v : Json) : Prop :=
  ∀ (stack : List (Frame α)) (rest : List Token),
    (toTokens v ++ rest).foldlM (Machine.step r) ⟨stack, .value⟩
      = ((r.make v).mapError .refused).bind fun a =>
          rest.foldlM (Machine.step r) ⟨stack, .after a⟩

variable {r : Reading ε α}

theorem foldlM_itemTokens {items : List Json} (h : ∀ v ∈ items, r.Runs v)
    (stack : List (Frame α)) (rest : List Token) : ∀ (before : List α) (a : α),
    (itemTokens items ++ .closeArray :: rest).foldlM (Machine.step r)
        ⟨.items before :: stack, .after a⟩
      = ((r.makeItems items).mapError .refused).bind fun as =>
          rest.foldlM (Machine.step r) ⟨stack, .after (r.arr ((a :: before).reverse ++ as))⟩ := by
  -- `a` was just read, and `before` holds the items in front of it, the last one first
  induction items with
  | nil =>
    intro before a
    rw [itemTokens, makeItems]
    show _ = rest.foldlM (Machine.step r) ⟨stack, .after (r.arr ((a :: before).reverse ++ []))⟩
    rw [List.append_nil]
    rfl
  | cons v items ih =>
    intro before a
    obtain ⟨hv, hitems⟩ := List.forall_mem_cons.1 h
    rw [itemTokens, makeItems]
    simp only [List.cons_append, List.append_assoc]
    show (toTokens v ++ _).foldlM (Machine.step r) ⟨.items (a :: before) :: stack, .value⟩ = _
    rw [hv]
    cases r.make v with
    | error e => rfl
    | ok a' =>
      show (itemTokens items ++ _).foldlM (Machine.step r) _ = _
      rw [ih hitems]
      cases r.makeItems items with
      | error e => rfl
      | ok as =>
        show rest.foldlM _ _ = rest.foldlM _ _
        simp

theorem foldlM_memberTokens {members : List (String × Json)} (h : ∀ m ∈ members, r.Runs m.2)
    (stack : List (Frame α)) (rest : List Token) :
    ∀ (before : List (String × α)) (name : String) (a : α),
    (memberTokens members ++ .closeObject :: rest).foldlM (Machine.step r)
        ⟨.member before name :: stack, .after a⟩
      = (((r.makeMembers members).bind fun as =>
            r.obj (Members.ofList (((name, a) :: before).reverse ++ as))).mapError
              ReadError.refused).bind fun b => rest.foldlM (Machine.step r) ⟨stack, .after b⟩ := by
  induction members with
  | nil =>
    intro before name a
    rw [memberTokens, makeMembers]
    show (Machine.closeObject r stack ((name, a) :: before)).bind _
      = (((r.obj (Members.ofList (((name, a) :: before).reverse ++ []))).mapError .refused).bind _)
    rw [List.append_nil, Machine.closeObject]
    cases r.obj (Members.ofList ((name, a) :: before).reverse) with
    | error e => rfl
    | ok b => rfl
  | cons m members ih =>
    intro before name a
    obtain ⟨hm, hmembers⟩ := List.forall_mem_cons.1 h
    obtain ⟨name', v⟩ := m
    rw [memberTokens, makeMembers]
    simp only [List.cons_append, List.append_assoc]
    show (toTokens v ++ _).foldlM (Machine.step r)
      ⟨.member ((name, a) :: before) name' :: stack, .value⟩ = _
    rw [hm]
    cases r.make v with
    | error e => rfl
    | ok a' =>
      show (memberTokens members ++ _).foldlM (Machine.step r) _ = _
      rw [ih hmembers]
      cases r.makeMembers members with
      | error e => rfl
      | ok as =>
        show ((r.obj _).mapError _).bind _ = ((r.obj _).mapError _).bind _
        simp

/-- A list that does not end at once begins with an item. -/
theorem foldlM_arrayStart (r : Reading ε α) (stack : List (Frame α)) (v : Json) (rest : List Token) :
    (toTokens v ++ rest).foldlM (Machine.step r) ⟨stack, .arrayStart⟩
      = (toTokens v ++ rest).foldlM (Machine.step r) ⟨.items [] :: stack, .value⟩ := by
  unfold toTokens
  split <;> rfl

/-- **The machine follows the reading.** -/
theorem runs (r : Reading ε α) (v : Json) : r.Runs v := by
  induction v using Json.induction with
  | scalar s =>
    intro stack rest
    rw [toTokens, make]
    rfl
  | arr items ih =>
    intro stack rest
    cases items with
    | nil =>
      rw [toTokens, make, makeItems]
      rfl
    | cons v items =>
      obtain ⟨hv, hitems⟩ := List.forall_mem_cons.1 ih
      rw [toTokens, make, makeItems]
      simp only [List.cons_append, List.append_assoc, List.nil_append]
      show (toTokens v ++ _).foldlM (Machine.step r) ⟨stack, .arrayStart⟩ = _
      rw [foldlM_arrayStart, hv]
      cases r.make v with
      | error e => rfl
      | ok a =>
        show (itemTokens items ++ _).foldlM (Machine.step r) _ = _
        rw [foldlM_itemTokens hitems]
        cases r.makeItems items with
        | error e => rfl
        | ok as => rfl
  | obj members ih =>
    intro stack rest
    cases members with
    | nil =>
      rw [toTokens, make, makeMembers]
      show (Machine.closeObject r stack []).bind _ = ((r.obj (Members.ofList [])).mapError _).bind _
      rw [Machine.closeObject, List.reverse_nil]
      cases r.obj (Members.ofList []) with
      | error e => rfl
      | ok b => rfl
    | cons m members =>
      obtain ⟨hm, hmembers⟩ := List.forall_mem_cons.1 ih
      obtain ⟨name, v⟩ := m
      rw [toTokens, make, makeMembers]
      simp only [List.cons_append, List.append_assoc, List.nil_append]
      show (toTokens v ++ _).foldlM (Machine.step r) ⟨.member [] name :: stack, .value⟩ = _
      rw [hm]
      cases r.make v with
      | error e => rfl
      | ok a =>
        show (memberTokens members ++ _).foldlM (Machine.step r) _ = _
        rw [foldlM_memberTokens hmembers]
        cases r.makeMembers members with
        | error e => rfl
        | ok as => rfl

end Reading

/-- **Reading what was written** comes to what the reading makes of the value, whatever
    the layout. -/
theorem readWith_render {ε α : Type} {v : Json} (h : v.IsExact) (indent : Option Nat)
    (r : Reading ε α) : readWith r (render indent v).toList = (r.make v).mapError .refused := by
  have htokens : tokens (writeValue indent 0 v) = toTokens v := by
    have hlexes := lexes_of_isExact h indent 0 [] ends_nil
    rwa [List.append_nil, tokens, List.append_nil] at hlexes
  have hruns := r.runs v [] []
  rw [List.append_nil] at hruns
  unfold readWith render Machine.start
  rw [String.toList_ofList, htokens, hruns]
  cases r.make v with
  | error e => rfl
  | ok a => rfl

end Json

end Refuter
