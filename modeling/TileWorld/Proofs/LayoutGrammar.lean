import Mathlib.Data.List.Basic
import TileWorld.Layout.Reader
import TileWorld.Proofs.PositionLaws
import TileWorld.Proofs.TextLaws

/-!
# The grammar of layouts

Whether a line of a layout is in order depends on the lines above it, and
on these only through the number of rows since the last header
(`LineInOrder`). What it draws depends on them through the floor of that
header as well (`lineMarks`). A line that is not in order has exactly one
fault (`LineFault`): a header has a wrong number, a row lies too far down,
or a character of the row, the first one that is not in order, is unknown
or lies too far to the right.

Reading keeps a cursor in the place of the lines above (`Tracks`). It
accepts a text if all lines are in order and something is drawn, and blames
the first line that is not (`parse_iff`).
-/

namespace TileWorld

/-! ## Lists in order -/

section InOrder

variable {α : Type} {ok : Nat → α → Prop} {l : List α} {a b : α} {k : Nat}

/-- Every entry is as it should be at its index. -/
def AllInOrder (ok : Nat → α → Prop) (l : List α) : Prop :=
  ∀ k a, l[k]? = some a → ok k a

/-- The entry at the index is the first that is not as it should be. -/
structure FirstAmiss (ok : Nat → α → Prop) (l : List α) (k : Nat) (a : α) : Prop where
  entry : l[k]? = some a
  amiss : ¬ ok k a
  earlier : ∀ j b, j < k → l[j]? = some b → ok j b

theorem allInOrder_nil : AllInOrder ok [] := by
  intro k a h
  cases h

theorem allInOrder_cons :
    AllInOrder ok (a :: l) ↔ ok 0 a ∧ AllInOrder (fun k => ok (k + 1)) l := by
  constructor
  · exact fun h => ⟨h 0 a rfl, fun k b hb => h (k + 1) b hb⟩
  · rintro ⟨ha, hl⟩ k b hb
    cases k with
    | zero =>
      obtain rfl := Option.some.inj hb
      exact ha
    | succ k => exact hl k b hb

theorem FirstAmiss.tail (h : FirstAmiss ok (a :: l) (k + 1) b) :
    ok 0 a ∧ FirstAmiss (fun k => ok (k + 1)) l k b :=
  ⟨h.earlier 0 a (Nat.succ_pos k) rfl, h.entry, h.amiss,
    fun j c hj hc => h.earlier (j + 1) c (Nat.succ_lt_succ hj) hc⟩

theorem FirstAmiss.cons (ha : ok 0 a) (h : FirstAmiss (fun k => ok (k + 1)) l k b) :
    FirstAmiss ok (a :: l) (k + 1) b := by
  refine ⟨h.entry, h.amiss, fun j c hj hc => ?_⟩
  cases j with
  | zero =>
    obtain rfl := Option.some.inj hc
    exact ha
  | succ j => exact h.earlier j c (Nat.lt_of_succ_lt_succ hj) hc

/-- All entries are in order, or one is the first that is not. -/
theorem allInOrder_or_firstAmiss (ok : Nat → α → Prop) (l : List α) :
    AllInOrder ok l ∨ ∃ k a, FirstAmiss ok l k a := by
  induction l generalizing ok with
  | nil => exact .inl allInOrder_nil
  | cons a l ih =>
    by_cases ha : ok 0 a
    · rcases ih fun k => ok (k + 1) with hall | ⟨k, b, hb⟩
      · exact .inl (allInOrder_cons.mpr ⟨ha, hall⟩)
      · exact .inr ⟨k + 1, b, hb.cons ha⟩
    · exact .inr ⟨0, a, rfl, ha, fun j _ hj => absurd hj (Nat.not_lt_zero j)⟩

theorem FirstAmiss.not_allInOrder (h : FirstAmiss ok l k a) : ¬ AllInOrder ok l :=
  fun hall => h.amiss (hall k a h.entry)

end InOrder

namespace Layout

/-! ## Lines -/

/-- The trimmed line begins with the word of a header and a space. -/
def IsHeader (line : List Char) : Prop :=
  headerWord <+: Text.trim line

instance (line : List Char) : Decidable (IsHeader line) :=
  inferInstanceAs (Decidable (_ <+: _))

/-- What follows the word of a header, trimmed. -/
def headerValue (line : List Char) : List Char :=
  Text.trim ((Text.trim line).drop headerWord.length)

/-- The rows since the last header. -/
def rowsSince (above : List (List Char)) : Nat :=
  (above.reverse.takeWhile fun line => ¬ IsHeader line).length

/-- The floor of the last header, or ground level if there is none. -/
def floorSince (above : List (List Char)) : Nat :=
  match above.reverse.find? fun line => IsHeader line with
  | some line => Text.numeralValue (headerValue line)
  | none => 7

/-- The character may stand in the column of a row. -/
def GlyphInOrder (column : Nat) (c : Char) : Prop :=
  c = ' ' ∨ (∃ t : Tile, t.glyph = c) ∧ column ≤ 65535

/-- The line may stand below others. -/
inductive LineInOrder (above : List (List Char)) (line : List Char) : Prop where
  | header : IsHeader line → Text.IsNumeral (headerValue line) →
      Text.numeralValue (headerValue line) ≤ 15 → LineInOrder above line
  | row : ¬ IsHeader line → rowsSince above ≤ 65535 →
      AllInOrder GlyphInOrder (Text.trimEnd line) → LineInOrder above line

/-- What is wrong with a line that stands below others, told by its number. -/
inductive LineFault (above : List (List Char)) (number : Nat) (line : List Char) :
    LayoutError → Prop where
  | floor : IsHeader line →
      ¬ (Text.IsNumeral (headerValue line) ∧ Text.numeralValue (headerValue line) ≤ 15) →
      LineFault above number line (.invalidFloor (String.ofList (headerValue line)) number)
  | row : ¬ IsHeader line → 65535 < rowsSince above →
      LineFault above number line (.tooLarge number)
  | glyph {column : Nat} {c : Char} : ¬ IsHeader line → rowsSince above ≤ 65535 →
      FirstAmiss GlyphInOrder (Text.trimEnd line) column c → (∀ t : Tile, t.glyph ≠ c) →
      LineFault above number line (.unknownGlyph c number (column + 1))
  | column {column : Nat} {c : Char} : ¬ IsHeader line → rowsSince above ≤ 65535 →
      FirstAmiss GlyphInOrder (Text.trimEnd line) column c → (∃ t : Tile, t.glyph = c) →
      LineFault above number line (.tooLarge number)

/-! ## Drawings -/

/-- A tile and where it is drawn, in plain numbers. -/
structure Mark where
  column : Nat
  row : Nat
  floor : Nat
  tile : Tile
  deriving DecidableEq, Repr

def mark (t : Placement) : Mark :=
  ⟨t.position.x.toNat, t.position.y.toNat, t.position.z.toNat, t.tile⟩

/-- What the characters of a row draw, the first of them in a given column. -/
def glyphMarks (row floor column : Nat) (text : List Char) : List Mark :=
  (text.zipIdx column).filterMap fun (c, column) =>
    (Tile.ofGlyph? c).map (⟨column, row, floor, ·⟩)

/-- What a line draws that stands below others. -/
def lineMarks (above : List (List Char)) (line : List Char) : List Mark :=
  if IsHeader line then []
  else glyphMarks (rowsSince above) (floorSince above) 0 (Text.trimEnd line)

/-- What the lines of a layout draw, in reading order. -/
def marks (lines : List (List Char)) : List Mark :=
  lines.zipIdx.flatMap fun (line, k) => lineMarks (lines.take k) line

theorem marks_concat (lines : List (List Char)) (line : List Char) :
    marks (lines ++ [line]) = marks lines ++ lineMarks lines line := by
  have hearlier : lines.zipIdx.flatMap (fun (l, k) => lineMarks ((lines ++ [line]).take k) l) =
      marks lines := by
    unfold marks
    refine List.flatMap_congr fun (l, k) h => ?_
    have hk : k < lines.length := (List.getElem?_eq_some_iff.mp (List.mem_zipIdx_iff_getElem?.mp h)).1
    dsimp only
    rw [List.take_append_of_le_length (Nat.le_of_lt hk)]
  rw [marks, List.zipIdx_append, List.flatMap_append, hearlier]
  simp

/-! ## Glyphs -/

theorem ofGlyph?_eq_some_iff {c : Char} {t : Tile} : Tile.ofGlyph? c = some t ↔ t.glyph = c := by
  constructor
  · intro h
    have hglyph := List.find?_some h
    exact eq_of_beq hglyph
  · rintro rfl
    exact Tile.ofGlyph?_glyph t

theorem ofGlyph?_eq_none_iff {c : Char} : Tile.ofGlyph? c = none ↔ ∀ t : Tile, t.glyph ≠ c := by
  simp only [Option.eq_none_iff_forall_ne_some, ne_eq, ofGlyph?_eq_some_iff]

theorem coordinate?_natCast {n : Nat} (h : n ≤ 65535) :
    ∃ c : UInt16, coordinate? n = some c ∧ c.toNat = n := by
  have hc : coordinate? n = some (UInt16.ofNat n) := if_pos (by omega)
  have hvalue := coordinate?_eq_some_iff.mp hc
  exact ⟨_, hc, by omega⟩

theorem coordinate?_natCast_eq_none {n : Nat} (h : 65535 < n) : coordinate? n = none :=
  if_neg (by omega)

section Glyphs

variable (floor : UInt8) (y : UInt16) (number : Nat) {column k : Nat} {c : Char} {text : List Char}

theorem glyphMarks_cons (row floor column : Nat) (c : Char) (text : List Char) :
    glyphMarks row floor column (c :: text) =
      ((Tile.ofGlyph? c).map (⟨column, row, floor, ·⟩)).toList ++
        glyphMarks row floor (column + 1) text := by
  rw [glyphMarks, List.zipIdx_cons, List.filterMap_cons]
  dsimp only
  cases Tile.ofGlyph? c <;> rfl

/-- A character in order draws its tile, if it has one, and reading goes on
behind it. -/
theorem readGlyphs_cons (h : GlyphInOrder column c) (text : List Char) :
    ∃ drawn, drawn.map mark =
        ((Tile.ofGlyph? c).map (⟨column, y.toNat, floor.toNat, ·⟩)).toList ∧
      readGlyphs floor y number column (c :: text) =
        (readGlyphs floor y number (column + 1) text).map (drawn ++ ·) := by
  rw [readGlyphs]
  rcases h with rfl | ⟨⟨t, rfl⟩, hcolumn⟩
  · refine ⟨[], rfl, ?_⟩
    rw [if_pos rfl]
    cases readGlyphs floor y number (column + 1) text <;> rfl
  · obtain ⟨x, hx, hvalue⟩ := coordinate?_natCast hcolumn
    have hspace : t.glyph ≠ ' ' := by cases t <;> decide
    refine ⟨[⟨⟨x, y, floor⟩, t⟩], ?_, ?_⟩
    · rw [Tile.ofGlyph?_glyph, List.map_singleton, mark, hvalue]
      rfl
    · rw [if_neg hspace, Tile.ofGlyph?_glyph, hx]
      cases readGlyphs floor y number (column + 1) text <;> rfl

/-- Characters in order are read to what they draw. -/
theorem readGlyphs_of_allInOrder
    (h : AllInOrder (fun k => GlyphInOrder (column + k)) text) :
    ∃ tiles, readGlyphs floor y number column text = .ok tiles ∧
      tiles.map mark = glyphMarks y.toNat floor.toNat column text := by
  induction text generalizing column with
  | nil => exact ⟨[], rfl, rfl⟩
  | cons c text ih =>
    obtain ⟨(hc : GlyphInOrder column c), hrest⟩ := allInOrder_cons.mp h
    obtain ⟨drawn, hdrawn, hread⟩ := readGlyphs_cons floor y number hc text
    obtain ⟨tiles, hlater, hmarks⟩ := @ih (column + 1)
      (by simpa only [Nat.add_assoc, Nat.add_comm 1] using hrest)
    refine ⟨drawn ++ tiles, ?_, ?_⟩
    · rw [hread, hlater]
      rfl
    · rw [List.map_append, hdrawn, hmarks, glyphMarks_cons]

/-- The first character that is not in order is blamed, for its column only
if it is a glyph. -/
theorem readGlyphs_of_firstAmiss
    (h : FirstAmiss (fun k => GlyphInOrder (column + k)) text k c) :
    readGlyphs floor y number column text =
      .error (if (Tile.ofGlyph? c).isSome then .tooLarge number
        else .unknownGlyph c number (column + k + 1)) := by
  induction text generalizing column k with
  | nil => cases h.entry
  | cons first text ih =>
    cases k with
    | zero =>
      obtain rfl := Option.some.inj h.entry
      obtain ⟨hspace, hglyph⟩ := not_or.mp h.amiss
      rw [readGlyphs, if_neg hspace]
      cases ht : Tile.ofGlyph? first with
      | none => rfl
      | some t =>
        have hcolumn : 65535 < column :=
          Nat.lt_of_not_le fun hle => hglyph ⟨⟨t, ofGlyph?_eq_some_iff.mp ht⟩, hle⟩
        rw [coordinate?_natCast_eq_none hcolumn]
        rfl
    | succ k =>
      obtain ⟨(hfirst : GlyphInOrder column first), hrest⟩ := h.tail
      obtain ⟨drawn, -, hread⟩ := readGlyphs_cons floor y number hfirst text
      have hlater := @ih (column + 1) k
        (by simpa only [Nat.add_assoc, Nat.add_comm 1] using hrest)
      rw [hread, hlater, Nat.add_right_comm column 1 k]
      rfl

end Glyphs

/-! ## Headers -/

theorem header?_eq (line : List Char) :
    header? line = if IsHeader line then some (headerValue line) else none := by
  unfold header?
  dsimp only
  by_cases h : IsHeader line
  · rw [if_pos h, if_pos (List.isPrefixOf_iff_prefix.mpr h), headerValue]
  · rw [if_neg h, if_neg fun hprefix => h (List.isPrefixOf_iff_prefix.mp hprefix)]

/-- A floor is read from a numeral that names one of the map, and from no
other text. -/
theorem readFloor_eq (value : List Char) (number : Nat) :
    readFloor value number =
      if Text.IsNumeral value ∧ Text.numeralValue value ≤ 15 then
        .ok (UInt8.ofNat (Text.numeralValue value))
      else .error (.invalidFloor (String.ofList value) number) := by
  unfold readFloor
  cases hread : Text.numeral8? value with
  | none =>
    rw [if_neg]
    rintro ⟨hnumeral, hle⟩
    have hsmall : Text.numeralValue value < UInt8.size := Nat.lt_of_le_of_lt hle (by decide)
    rw [Text.numeral8?_eq_some_iff.mpr
      ⟨hnumeral, (UInt8.toNat_ofNat_of_lt' hsmall).symm⟩] at hread
    cases hread
  | some floor =>
    obtain ⟨hnumeral, hvalue⟩ := Text.numeral8?_eq_some_iff.mp hread
    have hlast : floor ≤ lastFloor ↔ floor.toNat ≤ 15 := UInt8.le_iff_toNat_le
    simp only [hlast, hnumeral, hvalue, true_and, UInt8.ofNat_toNat]

/-! ## Lines below others -/

section Above

variable {above : List (List Char)} {line : List Char}

theorem rowsSince_of_header (h : IsHeader line) : rowsSince (above ++ [line]) = 0 := by
  simp [rowsSince, h]

theorem rowsSince_of_row (h : ¬ IsHeader line) :
    rowsSince (above ++ [line]) = rowsSince above + 1 := by
  simp [rowsSince, h]

theorem floorSince_of_header (h : IsHeader line) :
    floorSince (above ++ [line]) = Text.numeralValue (headerValue line) := by
  simp [floorSince, h]

theorem floorSince_of_row (h : ¬ IsHeader line) : floorSince (above ++ [line]) = floorSince above := by
  simp [floorSince, h]

/-- The cursor stands where the next line below the given ones is drawn. -/
structure Tracks (above : List (List Char)) (cursor : Cursor) : Prop where
  floor : cursor.floor.toNat = floorSince above
  row : cursor.row = rowsSince above

theorem tracks_start : Tracks [] {} := ⟨rfl, rfl⟩

/-- A row on the map is read character by character. -/
theorem readLine_of_row {cursor : Cursor} (hcursor : Tracks above cursor) (h : ¬ IsHeader line)
    (hle : rowsSince above ≤ 65535) (number : Nat) :
    ∃ y : UInt16, y.toNat = rowsSince above ∧ readLine cursor number line =
      (readGlyphs cursor.floor y number 0 (Text.trimEnd line)).map
        ({ cursor with row := cursor.row + 1 }, ·) := by
  obtain ⟨y, hy, hvalue⟩ := coordinate?_natCast hle
  refine ⟨y, hvalue, ?_⟩
  unfold readLine
  rw [header?_eq, if_neg h]
  dsimp only
  rw [hcursor.row, hy]
  dsimp only
  cases readGlyphs cursor.floor y number 0 (Text.trimEnd line) <;> rfl

/-- A line in order is read to what it draws. -/
theorem readLine_of_inOrder {cursor : Cursor} (hcursor : Tracks above cursor)
    (h : LineInOrder above line) (number : Nat) :
    ∃ next tiles, readLine cursor number line = .ok (next, tiles) ∧
      Tracks (above ++ [line]) next ∧ tiles.map mark = lineMarks above line := by
  cases h with
  | header hheader hnumeral hle =>
    refine ⟨{ floor := UInt8.ofNat (Text.numeralValue (headerValue line)) }, [], ?_, ⟨?_, ?_⟩, ?_⟩
    · unfold readLine
      rw [header?_eq, if_pos hheader]
      dsimp only
      rw [readFloor_eq, if_pos ⟨hnumeral, hle⟩]
      rfl
    · rw [floorSince_of_header hheader]
      exact UInt8.toNat_ofNat_of_lt' (Nat.lt_of_le_of_lt hle (by decide))
    · rw [rowsSince_of_header hheader]
    · rw [lineMarks, if_pos hheader]
      rfl
  | row hrow hle hglyphs =>
    obtain ⟨y, hvalue, hread⟩ := readLine_of_row hcursor hrow hle number
    obtain ⟨tiles, htiles, hmarks⟩ := readGlyphs_of_allInOrder cursor.floor y number
      (show AllInOrder (fun k => GlyphInOrder (0 + k)) _ by simpa only [Nat.zero_add])
    refine ⟨{ cursor with row := cursor.row + 1 }, tiles, ?_, ⟨?_, ?_⟩, ?_⟩
    · rw [hread, htiles]
      rfl
    · rw [floorSince_of_row hrow]
      exact hcursor.floor
    · rw [rowsSince_of_row hrow, ← hcursor.row]
    · rw [lineMarks, if_neg hrow, hmarks, hvalue, hcursor.floor]

/-- A line with a fault is blamed for it. -/
theorem readLine_of_fault {cursor : Cursor} (hcursor : Tracks above cursor) {number : Nat}
    {e : LayoutError} (h : LineFault above number line e) :
    readLine cursor number line = .error e := by
  have hblame : ∀ {column c}, ¬ IsHeader line → rowsSince above ≤ 65535 →
      FirstAmiss GlyphInOrder (Text.trimEnd line) column c →
      readLine cursor number line = .error (if (Tile.ofGlyph? c).isSome then .tooLarge number
        else .unknownGlyph c number (column + 1)) := by
    intro column c hrow hle hfirst
    obtain ⟨y, -, hread⟩ := readLine_of_row hcursor hrow hle number
    have hglyphs := readGlyphs_of_firstAmiss cursor.floor y number
      (show FirstAmiss (fun k => GlyphInOrder (0 + k)) _ column c by simpa only [Nat.zero_add])
    rw [hread, hglyphs, Nat.zero_add]
    rfl
  cases h with
  | floor hheader hvalue =>
    unfold readLine
    rw [header?_eq, if_pos hheader]
    dsimp only
    rw [readFloor_eq, if_neg hvalue]
    rfl
  | row hrow hlarge =>
    unfold readLine
    rw [header?_eq, if_neg hrow]
    dsimp only
    rw [coordinate?_natCast_eq_none (hcursor.row ▸ hlarge)]
  | glyph hrow hle hfirst hunknown =>
    rw [hblame hrow hle hfirst, ofGlyph?_eq_none_iff.mpr hunknown]
    rfl
  | column hrow hle hfirst hknown =>
    obtain ⟨t, ht⟩ := hknown
    rw [hblame hrow hle hfirst, ofGlyph?_eq_some_iff.mpr ht]
    rfl

/-- A line is in order, or something is wrong with it. -/
theorem lineInOrder_or_fault (above : List (List Char)) (number : Nat) (line : List Char) :
    LineInOrder above line ∨ ∃ e, LineFault above number line e := by
  by_cases hheader : IsHeader line
  · by_cases hvalue : Text.IsNumeral (headerValue line) ∧
        Text.numeralValue (headerValue line) ≤ 15
    · exact .inl (.header hheader hvalue.1 hvalue.2)
    · exact .inr ⟨_, .floor hheader hvalue⟩
  by_cases hrow : rowsSince above ≤ 65535
  case neg => exact .inr ⟨_, .row hheader (Nat.lt_of_not_le hrow)⟩
  rcases allInOrder_or_firstAmiss GlyphInOrder (Text.trimEnd line) with hall | ⟨column, c, hfirst⟩
  · exact .inl (.row hheader hrow hall)
  · by_cases hglyph : ∃ t : Tile, t.glyph = c
    · exact .inr ⟨_, .column hheader hrow hfirst hglyph⟩
    · exact .inr ⟨_, .glyph hheader hrow hfirst (not_exists.mp hglyph)⟩

end Above

/-! ## Texts -/

/-- Every line is in order below the lines before it. -/
def LinesInOrder (lines : List (List Char)) : Prop :=
  AllInOrder (fun k => LineInOrder (lines.take k)) lines

/-- The error tells the fault of the first line that is not in order. -/
def FirstFault (lines : List (List Char)) (e : LayoutError) : Prop :=
  ∃ k line, FirstAmiss (fun k => LineInOrder (lines.take k)) lines k line ∧
    LineFault (lines.take k) (k + 1) line e

theorem linesInOrder_or_firstFault (lines : List (List Char)) :
    LinesInOrder lines ∨ ∃ e, FirstFault lines e := by
  refine (allInOrder_or_firstAmiss _ lines).imp_right ?_
  rintro ⟨k, line, hfirst⟩
  obtain ⟨e, hfault⟩ := (lineInOrder_or_fault _ (k + 1) line).resolve_left hfirst.amiss
  exact ⟨e, k, line, hfirst, hfault⟩

theorem FirstFault.not_linesInOrder {lines : List (List Char)} {e : LayoutError}
    (h : FirstFault lines e) : ¬ LinesInOrder lines := by
  obtain ⟨k, line, hfirst, -⟩ := h
  exact hfirst.not_allInOrder

section Texts

variable {above rest : List (List Char)} {line : List Char} {cursor : Cursor} {k : Nat}
  {e : LayoutError}

theorem readLines_cons {next : Cursor} {drawn : List Placement} {number : Nat}
    (h : readLine cursor number line = .ok (next, drawn)) (rest : List (List Char)) :
    readLines cursor number (line :: rest) =
      (readLines next (number + 1) rest).map (drawn ++ ·) := by
  rw [readLines, h]
  show (readLines next (number + 1) rest >>= fun later => pure (drawn ++ later)) = _
  cases readLines next (number + 1) rest <;> rfl

/-- Lines in order are read to what they draw below the lines above. -/
theorem readLines_of_allInOrder (hcursor : Tracks above cursor)
    (h : AllInOrder (fun k => LineInOrder (above ++ rest.take k)) rest) (number : Nat) :
    ∃ tiles, readLines cursor number rest = .ok tiles ∧
      marks above ++ tiles.map mark = marks (above ++ rest) := by
  -- each line read moves from the lines left to those above
  induction rest generalizing above cursor number with
  | nil => exact ⟨[], rfl, by simp⟩
  | cons line rest ih =>
    obtain ⟨hline, hrest⟩ := allInOrder_cons.mp h
    rw [List.take_zero, List.append_nil] at hline
    obtain ⟨next, drawn, hread, hnext, hdrawn⟩ := readLine_of_inOrder hcursor hline number
    obtain ⟨tiles, htiles, hmarks⟩ := ih hnext (by simpa using hrest) (number + 1)
    refine ⟨drawn ++ tiles, ?_, ?_⟩
    · rw [readLines_cons hread, htiles]
      rfl
    · rw [List.map_append, hdrawn, ← List.append_assoc, ← marks_concat, hmarks]
      simp

/-- The first line that is not in order is blamed. -/
theorem readLines_of_firstAmiss {number : Nat} (hcursor : Tracks above cursor)
    (h : FirstAmiss (fun k => LineInOrder (above ++ rest.take k)) rest k line)
    (hfault : LineFault (above ++ rest.take k) (number + k) line e) :
    readLines cursor number rest = .error e := by
  induction rest generalizing above cursor number k with
  | nil => cases h.entry
  | cons first rest ih =>
    cases k with
    | zero =>
      obtain rfl := Option.some.inj h.entry
      rw [List.take_zero, List.append_nil, Nat.add_zero] at hfault
      rw [readLines, readLine_of_fault hcursor hfault]
      rfl
    | succ k =>
      obtain ⟨hfirst, hrest⟩ := h.tail
      rw [List.take_zero, List.append_nil] at hfirst
      obtain ⟨next, drawn, hread, hnext, -⟩ := readLine_of_inOrder hcursor hfirst number
      have hlater := @ih (above ++ [first]) next k (number + 1) hnext (by simpa using hrest)
        (by simpa [Nat.add_assoc, Nat.add_comm 1] using hfault)
      rw [readLines_cons hread, hlater]
      rfl

end Texts

/-! ## Floors -/

section Floors

variable {lines : List (List Char)}

theorem floorSince_le {above : List (List Char)}
    (h : ∀ line ∈ above, IsHeader line → Text.numeralValue (headerValue line) ≤ 15) :
    floorSince above ≤ 15 := by
  unfold floorSince
  split
  · rename_i line hfind
    have hmem : line ∈ above := List.mem_reverse.mp (List.mem_of_find?_eq_some hfind)
    have hheader := List.find?_some hfind
    exact h line hmem (of_decide_eq_true hheader)
  · decide

theorem floor_of_mem_glyphMarks {row floor column : Nat} {text : List Char} {m : Mark}
    (h : m ∈ glyphMarks row floor column text) : m.floor = floor := by
  obtain ⟨⟨c, k⟩, -, hm⟩ := List.mem_filterMap.mp h
  obtain ⟨t, -, rfl⟩ := Option.map_eq_some_iff.mp hm
  rfl

theorem floor_of_mem_lineMarks {above : List (List Char)} {line : List Char} {m : Mark}
    (h : m ∈ lineMarks above line) : m.floor = floorSince above := by
  unfold lineMarks at h
  split at h
  · cases h
  · exact floor_of_mem_glyphMarks h

/-- Lines in order draw on floors of the map only. -/
theorem floor_le_of_mem_marks (h : LinesInOrder lines) {m : Mark} (hm : m ∈ marks lines) :
    m.floor ≤ 15 := by
  obtain ⟨⟨line, k⟩, -, hline⟩ := List.mem_flatMap.mp hm
  rw [floor_of_mem_lineMarks hline]
  refine floorSince_le fun header hmem hheader => ?_
  obtain ⟨j, hj⟩ := List.mem_iff_getElem?.mp (List.mem_of_mem_take hmem)
  cases h j header hj with
  | header _ _ hle => exact hle
  | row hrow => exact absurd hheader hrow

end Floors

/-! ## Reading -/

section Parse

variable {source : String} {l : Layout} {e : LayoutError}

theorem mark_injective : Function.Injective mark := by
  rintro ⟨⟨x, y, z⟩, tile⟩ ⟨⟨x', y', z'⟩, tile'⟩ h
  obtain ⟨hx, hy, hz, htile⟩ := Mark.mk.inj h
  obtain rfl : x = x' := UInt16.toNat_inj.mp hx
  obtain rfl : y = y' := UInt16.toNat_inj.mp hy
  obtain rfl : z = z' := UInt8.toNat_inj.mp hz
  obtain rfl : tile = tile' := htile
  rfl

/-- A text whose lines are in order is read to what they draw, if anything. -/
theorem parse_of_linesInOrder (h : LinesInOrder (Text.lines source.toList)) :
    ∃ tiles : List Placement, tiles.map mark = marks (Text.lines source.toList) ∧
      parse source = if tiles = [] then .error .empty else .ok { tiles } := by
  obtain ⟨tiles, hread, hmarks⟩ := readLines_of_allInOrder tracks_start
    (show AllInOrder (fun k => LineInOrder ([] ++ (Text.lines source.toList).take k)) _ from h) 1
  refine ⟨tiles, hmarks, ?_⟩
  rw [parse, hread]
  cases tiles <;> rfl

theorem parse_of_firstFault (h : FirstFault (Text.lines source.toList) e) :
    parse source = .error e := by
  obtain ⟨k, line, hfirst, hfault⟩ := h
  have hread := @readLines_of_firstAmiss [] _ line {} k e 1 tracks_start hfirst
    (by rwa [Nat.add_comm 1 k])
  rw [parse, hread]
  rfl

theorem parse_eq_ok_iff :
    parse source = .ok l ↔ LinesInOrder (Text.lines source.toList) ∧
      marks (Text.lines source.toList) ≠ [] ∧
      l.tiles.map mark = marks (Text.lines source.toList) := by
  rcases linesInOrder_or_firstFault (Text.lines source.toList) with h | ⟨e, h⟩
  · obtain ⟨tiles, hmarks, hparse⟩ := parse_of_linesInOrder h
    rw [and_iff_right h, hparse, ← hmarks, mark_injective.list_map.eq_iff, ne_eq,
      List.map_eq_nil_iff]
    by_cases hempty : tiles = []
    · rw [if_pos hempty]
      exact ⟨nofun, fun hl => absurd hempty hl.1⟩
    · rw [if_neg hempty, and_iff_right hempty, Except.ok.injEq]
      exact ⟨fun hl => hl ▸ rfl, fun hl => hl ▸ rfl⟩
  · rw [parse_of_firstFault h]
    exact ⟨nofun, fun hl => absurd hl.1 h.not_linesInOrder⟩

/-- All that a text draws lies on floors of the map. -/
theorem hasValidFloor_of_parse (h : parse source = .ok l) {t : Placement} (ht : t ∈ l.tiles) :
    t.position.hasValidFloor = true := by
  obtain ⟨horder, -, hmarks⟩ := parse_eq_ok_iff.mp h
  have hmem : mark t ∈ marks (Text.lines source.toList) := hmarks ▸ List.mem_map_of_mem ht
  exact decide_eq_true (UInt8.le_iff_toNat_le.mpr (floor_le_of_mem_marks horder hmem))

end Parse

end Layout

end TileWorld
