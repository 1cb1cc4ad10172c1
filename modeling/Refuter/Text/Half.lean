/-! # Halves of pairs

Formats that count in 16-bit units write a character beyond U+FFFF as a pair of
units, and nothing keeps them from writing one unit of a pair alone. Such a
*half* names no character, so no `String` can hold it; yet texts with halves are
read, compared and shown.

**Stand-ins.** A text holds a half as two characters: a mark, which is set aside
for internal use, and a private one that tells which half it is. A mark that is
meant as a character is written twice. Nothing is lost: `pieces_join`.
-/

namespace Refuter.Text

/-- A part of a text. -/
inductive Piece where
  /-- A character. -/
  | char (c : Char)
  /-- A half, by its distance from the first one, U+D800. -/
  | half (n : Fin 2048)
  deriving Repr, DecidableEq

/-- The character in front of a stand-in: U+8FFFF, to which no meaning will ever
    be given. -/
def mark : Char := Char.ofNat 0x8FFFF

/-- The private character that stands for a half behind a mark. -/
def standIn (n : Fin 2048) : Char := Char.ofNat (0xE000 + n.val)

/-- The half that a character behind a mark stands for. -/
def half? (c : Char) : Option (Fin 2048) :=
  if h : 0xE000 ≤ c.toNat ∧ c.toNat - 0xE000 < 2048 then some ⟨c.toNat - 0xE000, h.2⟩ else none

/-- The characters that hold a piece. -/
def Piece.text : Piece → List Char
  | char c => if c = mark then [mark, mark] else [c]
  | half n => [mark, standIn n]

/-- The code point of a piece. -/
def Piece.code : Piece → Nat
  | char c => c.toNat
  | half n => 0xD800 + n.val

/-- The piece of a code point up to U+10FFFF. -/
def Piece.ofCode (code : Nat) : Piece :=
  if h : 0xD800 ≤ code ∧ code - 0xD800 < 2048 then half ⟨code - 0xD800, h.2⟩
  else char (Char.ofNat code)

/-- The pieces of a text. -/
def pieces : List Char → List Piece
  | [] => []
  | [c] => [.char c]
  | c :: d :: rest =>
    if c = mark then
      if d = mark then .char mark :: pieces rest
      else match half? d with
        | some n => .half n :: pieces rest
        | none => .char c :: pieces (d :: rest)
    else .char c :: pieces (d :: rest)

/-! ### Nothing is lost -/

theorem toNat_standIn (n : Fin 2048) : (standIn n).toNat = 0xE000 + n.val := by
  have h : Nat.isValidChar (0xE000 + n.val) := Or.inr ⟨by omega, by omega⟩
  have hchar : standIn n = Char.ofNatAux (0xE000 + n.val) h := dif_pos h
  rw [hchar]
  rfl

theorem toNat_mark : mark.toNat = 0x8FFFF := by decide

theorem standIn_ne_mark (n : Fin 2048) : standIn n ≠ mark := by
  intro h
  have h' := congrArg Char.toNat h
  rw [toNat_standIn, toNat_mark] at h'
  omega

theorem half?_standIn (n : Fin 2048) : half? (standIn n) = some n := by
  have h := toNat_standIn n
  have hin : 0xE000 ≤ (standIn n).toNat ∧ (standIn n).toNat - 0xE000 < 2048 := by omega
  simp only [half?, hin, and_self, dite_true, Option.some.injEq]
  apply Fin.ext
  change (standIn n).toNat - 0xE000 = n.val
  omega

theorem pieces_cons_of_ne {c : Char} (h : c ≠ mark) (rest : List Char) :
    pieces (c :: rest) = .char c :: pieces rest := by
  cases rest with
  | nil => rfl
  | cons d rest => simp [pieces, h]

/-- A piece is read back whatever stands behind it. -/
theorem pieces_text_append (p : Piece) (rest : List Char) :
    pieces (p.text ++ rest) = p :: pieces rest := by
  cases p with
  | char c =>
    by_cases h : c = mark
    · simp [Piece.text, pieces, h]
    · simpa [Piece.text, h] using pieces_cons_of_ne h rest
  | half n => simp [Piece.text, pieces, standIn_ne_mark, half?_standIn]

/-- **Nothing is lost:** a text tells the pieces it was made of. -/
theorem pieces_join (ps : List Piece) : pieces (ps.flatMap Piece.text) = ps := by
  induction ps with
  | nil => rfl
  | cons p rest ih => rw [List.flatMap_cons, pieces_text_append, ih]

/-! ### Plain texts -/

/-- Characters as a text. -/
def ofPlain (s : String) : String :=
  String.ofList (s.toList.flatMap fun c => (Piece.char c).text)

/-- Does a text hold a half? -/
def hasHalf (s : String) : Bool :=
  (pieces s.toList).any fun
    | .half _ => true
    | .char _ => false

end Refuter.Text
