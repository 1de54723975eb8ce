import TileWorld.Text.Blank
import TileWorld.Text.Lines
import TileWorld.Text.Numeral

/-!
# Laws of texts

What the rules for reading texts come to, said without them. A text is the
lines that its line feeds end, and perhaps one more (`lines_append_newline`,
`lines_of_no_newline`). Trimming takes off all blanks at the end and nothing
else (`eq_trimEnd_append`, `getLast?_trimEnd`). A numeral without a sign is
read as the number that its digits stand for, if the range has that number,
and no other text is read (`numeral_eq_ok_iff`).
-/

namespace TileWorld.Text

/-! ## Lines -/

/-- The line without a carriage return at its end. -/
def dropReturn (line : List Char) : List Char :=
  if line.getLast? = some '\r' then line.dropLast else line

theorem reverse_withoutReturn (line : List Char) :
    (withoutReturn line).reverse = dropReturn line.reverse := by
  unfold withoutReturn dropReturn
  rw [List.getLast?_reverse]
  split
  · simp
  · rename_i hreturn
    cases line with
    | nil => rfl
    | cons c line =>
      rw [if_neg]
      rintro ⟨⟩
      exact hreturn line rfl

theorem linesAfter_append {line : List Char} (h : '\n' ∉ line) (start rest : List Char) :
    linesAfter start (line ++ rest) = linesAfter (line.reverse ++ start) rest := by
  induction line generalizing start with
  | nil => rfl
  | cons c line ih =>
    have hc : c ≠ '\n' := fun hc => h (hc ▸ List.mem_cons_self ..)
    rw [List.cons_append, linesAfter, ih (fun hmem => h (List.mem_cons_of_mem _ hmem))]
    · simp
    · simpa using hc

/-- The first line feed ends the first line. -/
theorem lines_append_newline {line : List Char} (h : '\n' ∉ line) (rest : List Char) :
    lines (line ++ '\n' :: rest) = dropReturn line :: lines rest := by
  rw [lines, linesAfter_append h, List.append_nil, linesAfter, reverse_withoutReturn,
    List.reverse_reverse, lines]

/-- What no line feed ends is a line unless it is empty. -/
theorem lines_of_no_newline {line : List Char} (h : '\n' ∉ line) :
    lines line = if line = [] then [] else [line] := by
  have hlines := linesAfter_append h [] []
  rw [List.append_nil, List.append_nil] at hlines
  rw [lines, hlines]
  cases hrev : line.reverse with
  | nil =>
    rw [if_pos (List.reverse_eq_nil_iff.mp hrev)]
    rfl
  | cons c rest =>
    have hline : line ≠ [] := by
      rintro rfl
      cases hrev
    rw [if_neg hline, linesAfter, ← hrev, List.reverse_reverse]
    simp

/-! ## Trimming -/

theorem eq_trimEnd_append (s : List Char) :
    ∃ blanks, s = trimEnd s ++ blanks ∧ ∀ c ∈ blanks, isBlank c = true := by
  refine ⟨(s.reverse.takeWhile isBlank).reverse, ?_, fun c hc => ?_⟩
  · rw [trimEnd, ← List.reverse_append, List.takeWhile_append_dropWhile, List.reverse_reverse]
  · exact List.all_eq_true.mp List.all_takeWhile c (List.mem_reverse.mp hc)

theorem getLast?_trimEnd {s : List Char} {c : Char} (h : (trimEnd s).getLast? = some c) :
    isBlank c = false := by
  rw [trimEnd, List.getLast?_reverse] at h
  have hhead := List.head?_dropWhile_not isBlank s.reverse
  rw [h] at hhead
  exact hhead

/-! ## Numerals -/

/-- The text without a plus sign at its front. -/
def unsigned : List Char → List Char
  | '+' :: rest => rest
  | s => s

def IsDigit (c : Char) : Prop :=
  '0' ≤ c ∧ c ≤ '9'

instance (c : Char) : Decidable (IsDigit c) :=
  inferInstanceAs (Decidable (_ ∧ _))

/-- A run of digits, perhaps after a plus sign. -/
def IsNumeral (s : List Char) : Prop :=
  unsigned s ≠ [] ∧ ∀ c ∈ unsigned s, IsDigit c

instance (s : List Char) : Decidable (IsNumeral s) :=
  inferInstanceAs (Decidable (_ ∧ _))

/-- The number for which digits stand after those of another number. -/
def decimalFrom (value : Nat) (digits : List Char) : Nat :=
  digits.foldl (fun n c => n * 10 + (c.toNat - '0'.toNat)) value

/-- The number for which a numeral stands. -/
def numeralValue (s : List Char) : Nat :=
  decimalFrom 0 (unsigned s)

theorem decimalFrom_cons (value : Nat) (c : Char) (s : List Char) :
    decimalFrom value (c :: s) = decimalFrom (value * 10 + (c.toNat - '0'.toNat)) s := by
  rw [decimalFrom, List.foldl_cons, ← decimalFrom]

theorem le_decimalFrom (value : Nat) (s : List Char) : value ≤ decimalFrom value s := by
  induction s generalizing value with
  | nil => exact Nat.le_refl value
  | cons c s ih =>
    rw [decimalFrom_cons]
    exact Nat.le_trans (by omega) (ih _)

theorem digit?_of_isDigit {c : Char} (h : IsDigit c) : digit? c = some (c.toNat - '0'.toNat) :=
  if_pos h

theorem digit?_of_not_isDigit {c : Char} (h : ¬ IsDigit c) : digit? c = none :=
  if_neg h

/-- Digits are read to their number. It grows on the way, so the limit is
kept everywhere if it is kept at the end. -/
theorem digits_eq_ok_iff {limit value n : Nat} {s : List Char} (fault : NumeralFault)
    (hvalue : value ≤ limit) :
    digits limit fault value s = .ok n ↔
      (∀ c ∈ s, IsDigit c) ∧ decimalFrom value s = n ∧ n ≤ limit := by
  induction s generalizing value with
  | nil =>
    constructor
    · rintro ⟨⟩
      exact ⟨nofun, rfl, hvalue⟩
    · rintro ⟨-, rfl, -⟩
      rfl
  | cons c s ih =>
    rw [digits, List.forall_mem_cons, decimalFrom_cons]
    by_cases hc : IsDigit c
    case neg =>
      rw [digit?_of_not_isDigit hc]
      exact ⟨nofun, fun h => absurd h.1.1 hc⟩
    rw [digit?_of_isDigit hc, and_iff_right hc]
    dsimp only
    split
    · rename_i hlarge
      refine ⟨nofun, ?_⟩
      rintro ⟨-, rfl, hn⟩
      have hgrown := le_decimalFrom (value * 10 + (c.toNat - '0'.toNat)) s
      omega
    · rename_i hsmall
      exact ih (Nat.le_of_not_lt hsmall)

theorem map_digits_eq_ok_iff {largest : Nat} {s : List Char} {n : Int} :
    (digits largest .tooLarge 0 s).map Int.ofNat = .ok n ↔
      (∀ c ∈ s, IsDigit c) ∧ decimalFrom 0 s = n ∧ n ≤ largest := by
  cases hread : digits largest .tooLarge 0 s with
  | error fault =>
    refine ⟨nofun, ?_⟩
    rintro ⟨hdigits, rfl, hn⟩
    have hok := (digits_eq_ok_iff .tooLarge (Nat.zero_le largest)).mpr
      ⟨hdigits, rfl, Int.ofNat_le.mp hn⟩
    rw [hread] at hok
    cases hok
  | ok value =>
    obtain ⟨hdigits, rfl, hvalue⟩ := (digits_eq_ok_iff _ (Nat.zero_le largest)).mp hread
    constructor
    · rintro ⟨⟩
      exact ⟨hdigits, rfl, Int.ofNat_le.mpr hvalue⟩
    · rintro ⟨-, rfl, -⟩
      rfl

/-- A range that starts at zero has the numerals without a minus sign. -/
theorem numeral_eq_ok_iff {largest : Int} (h : 0 ≤ largest) {s : List Char} {n : Int} :
    numeral 0 largest s = .ok n ↔ IsNumeral s ∧ numeralValue s = n ∧ n ≤ largest := by
  obtain ⟨limit, rfl⟩ := Int.eq_ofNat_of_zero_le h
  unfold numeral IsNumeral numeralValue
  dsimp only
  rw [Int.toNat_natCast]
  split
  · exact ⟨nofun, fun h => absurd rfl h.1.1⟩
  · exact ⟨nofun, fun h => absurd rfl h.1.1⟩
  · exact ⟨nofun, fun h => absurd (h.1.2 '-' (List.mem_singleton_self _)) (by decide)⟩
  · rename_i rest hrest
    rw [map_digits_eq_ok_iff, unsigned, and_iff_right hrest]
  · rename_i rest hrest
    rw [if_neg (Int.lt_irrefl 0)]
    exact ⟨nofun, fun h => absurd (h.1.2 '-' (List.mem_cons_self ..)) (by decide)⟩
  · rename_i hempty _ _ hplus _
    rw [map_digits_eq_ok_iff, unsigned.eq_2 s hplus, and_iff_right hempty]

theorem numeral8?_eq_some_iff {s : List Char} {n : UInt8} :
    numeral8? s = some n ↔ IsNumeral s ∧ numeralValue s = n.toNat := by
  have hn := n.toNat_lt
  rw [numeral8?, Option.map_eq_some_iff]
  constructor
  · rintro ⟨value, hvalue, rfl⟩
    cases hread : numeral 0 255 s with
    | error fault =>
      rw [hread] at hvalue
      cases hvalue
    | ok value' =>
      rw [hread] at hvalue
      obtain rfl := Option.some.inj hvalue
      obtain ⟨hnumeral, rfl, hle⟩ := (numeral_eq_ok_iff (by decide)).mp hread
      have hlt : numeralValue s < UInt8.size := Nat.lt_succ_of_le (Int.ofNat_le.mp hle)
      rw [Int.toNat_natCast, UInt8.toNat_ofNat_of_lt' hlt]
      exact ⟨hnumeral, rfl⟩
  · rintro ⟨hnumeral, hvalue⟩
    refine ⟨n.toNat, ?_, by rw [Int.toNat_natCast, UInt8.ofNat_toNat]⟩
    rw [(numeral_eq_ok_iff (by decide)).mpr ⟨hnumeral, congrArg Nat.cast hvalue, by omega⟩]
    rfl

end TileWorld.Text
