import Mathlib.Logic.ExistsUnique
import PixelLowering.Proofs.Text.Lines
import PixelLowering.Text.Location

/-! Where a byte of a text stands.

    A byte belongs to one line, and the text falls into what comes before this line, the line, and
    what comes after it:

        before         line         after
        a b ⏎ c ⏎      d e f ⏎      g h
        5 bytes          ↑                      line 3, column 1, offset 5 + 1

    The search pays for the lines of `before` one by one, so it arrives at the line with the column
    left over. Nothing is said about the byte itself: it may be a newline, or the second byte of a
    character. -/

namespace PixelLowering.Text

/-- The byte at `offset` is in a line of a text, with `before` and `after` around the line. -/
structure Location.Between (place : Location) (text : List Char) (offset : Nat)
    (before after : List Char) : Prop where
  text_eq : text = before ++ place.text ++ after
  offset_eq : byteLength before + place.column = offset
  column_lt : place.column < byteLength place.text
  before_ended : before = [] ∨ before.getLast? = some '\n'
  line_eq : before.count '\n' + 1 = place.line
  newline_last : '\n' ∉ place.text.dropLast
  line_ended : after = [] ∨ place.text.getLast? = some '\n'

/-! ### The search -/

/-- Lines that end at the offset or before it are passed over, each for its length in bytes. -/
theorem locateIn_append {passed : List (List Char)} {offset : Nat}
    (h : byteLength passed.flatten ≤ offset) (number : Nat) (rest : List (List Char)) :
    locateIn number (passed ++ rest) offset =
      locateIn (number + passed.length) rest (offset - byteLength passed.flatten) := by
  induction passed generalizing number offset with
  | nil => rfl
  | cons line passed ih =>
    rw [List.flatten_cons, byteLength_append] at h
    have hskip : ¬offset < byteLength line := by omega
    rw [List.cons_append, locateIn, if_neg hskip, ih (by omega), List.flatten_cons,
      byteLength_append, List.length_cons, Nat.sub_sub, Nat.add_assoc, Nat.add_comm 1]

/-- At the end of the text all lines are passed over. -/
theorem locate_eq_none {text : List Char} {offset : Nat} (h : byteLength text ≤ offset) :
    locate text offset = none := by
  have hskip := @locateIn_append (lines text) offset (by rwa [flatten_lines]) 1 []
  rwa [List.append_nil] at hskip

namespace Location.Between

variable {place : Location} {text before after : List Char} {offset : Nat}

theorem text_ne_nil (h : place.Between text offset before after) : place.text ≠ [] := by
  intro hnil
  have hlt := h.column_lt
  rw [hnil] at hlt
  exact absurd hlt (Nat.not_lt_zero _)

/-- The line is the first one of the text that it starts. -/
theorem lines_append (h : place.Between text offset before after) :
    lines (place.text ++ after) = place.text :: lines after := by
  obtain ⟨content, c, htext⟩ := List.eq_nil_or_concat place.text |>.resolve_left h.text_ne_nil
  rw [List.concat_eq_append] at htext
  have hcontent : '\n' ∉ content := by simpa [htext] using h.newline_last
  by_cases hc : c = '\n'
  · exact IsLine.lines_append ⟨content, hcontent, by rw [htext, hc]⟩ after
  · have hafter : after = [] := by simpa [htext, hc] using h.line_ended
    have hline : '\n' ∉ place.text := by simp [htext, hcontent, Ne.symm hc]
    rw [hafter, List.append_nil, lines_of_not_mem h.text_ne_nil hline]
    rfl

/-- A byte is found where it stands. -/
theorem locate_eq (h : place.Between text offset before after) :
    locate text offset = some place := by
  have hended : Ended before := h.before_ended
  have hlines : lines text = lines before ++ place.text :: lines after := by
    rw [h.text_eq, List.append_assoc, hended.lines_append, h.lines_append]
  have hbefore : byteLength (lines before).flatten ≤ offset := by
    rw [flatten_lines, ← h.offset_eq]
    omega
  have hcolumn : offset - byteLength before = place.column := by
    have hoffset := h.offset_eq
    omega
  rw [locate, hlines, locateIn_append hbefore, flatten_lines, hcolumn, locateIn,
    if_pos h.column_lt, hended.length_lines, Nat.add_comm, h.line_eq]

/-- With a whole line in front, everything stands one line further down. -/
theorem below (h : place.Between text offset before after) {line : List Char}
    (hline : IsLine line) :
    Location.Between ⟨place.line + 1, place.text, place.column⟩ (line ++ text)
      (byteLength line + offset) (line ++ before) after where
  text_eq := by rw [h.text_eq, List.append_assoc, List.append_assoc, List.append_assoc]
  offset_eq := by rw [byteLength_append, Nat.add_assoc, h.offset_eq]
  column_lt := h.column_lt
  before_ended := by
    obtain ⟨content, -, rfl⟩ := hline
    rcases h.before_ended with rfl | hlast
    · right
      simp
    · right
      rw [List.getLast?_append, hlast]
      rfl
  line_eq := by rw [List.count_append, hline.count_newline, ← h.line_eq, Nat.add_comm 1]
  newline_last := h.newline_last
  line_ended := h.line_ended

end Location.Between

/-- A byte of the first line. -/
theorem between_first {line rest : List Char} {offset : Nat} (h : offset < byteLength line)
    (hline : '\n' ∉ line.dropLast) (hended : rest = [] ∨ line.getLast? = some '\n') :
    Location.Between ⟨1, line, offset⟩ (line ++ rest) offset [] rest where
  text_eq := rfl
  offset_eq := Nat.zero_add offset
  column_lt := h
  before_ended := .inl rfl
  line_eq := rfl
  newline_last := hline
  line_ended := hended

/-- Every byte of a text stands somewhere. -/
theorem exists_between {text : List Char} {offset : Nat} (h : offset < byteLength text) :
    ∃ place before after, Location.Between place text offset before after := by
  induction text using byLines generalizing offset with
  | nil => exact absurd h (Nat.not_lt_zero offset)
  | last line hne hline =>
    have hdropLast : '\n' ∉ line.dropLast := fun hmem => hline (List.dropLast_subset line hmem)
    have hfirst := @between_first line [] offset h hdropLast (.inl rfl)
    rw [List.append_nil] at hfirst
    exact ⟨_, _, _, hfirst⟩
  | whole line rest hline ih =>
    by_cases hoffset : offset < byteLength line
    · obtain ⟨content, hcontent, rfl⟩ := hline
      exact ⟨_, _, _, between_first hoffset (by simpa using hcontent) (.inr (by simp))⟩
    · rw [byteLength_append] at h
      obtain ⟨place, before, after, hplace⟩ := @ih (offset - byteLength line) (by omega)
      have hbelow := hplace.below hline
      rw [Nat.add_sub_of_le (Nat.le_of_not_lt hoffset)] at hbelow
      exact ⟨_, _, _, hbelow⟩

/-! ### What the search says -/

theorem locate_eq_none_iff {text : List Char} {offset : Nat} :
    locate text offset = none ↔ byteLength text ≤ offset := by
  constructor
  · intro hnone
    rcases Nat.lt_or_ge offset (byteLength text) with hlt | hge
    · obtain ⟨place, before, after, hplace⟩ := exists_between hlt
      rw [hplace.locate_eq] at hnone
      cases hnone
    · exact hge
  · exact locate_eq_none

theorem locate_eq_some_iff {text : List Char} {offset : Nat} {place : Location} :
    locate text offset = some place ↔ ∃ before after, place.Between text offset before after := by
  constructor
  · intro hsome
    rcases Nat.lt_or_ge offset (byteLength text) with hlt | hge
    · obtain ⟨other, before, after, hother⟩ := exists_between hlt
      rw [hother.locate_eq] at hsome
      cases hsome
      exact ⟨before, after, hother⟩
    · rw [locate_eq_none hge] at hsome
      cases hsome
  · rintro ⟨before, after, hplace⟩
    exact hplace.locate_eq

/-- The search has no answer exactly at the end of the source and beyond. Its answer is the one
    place that the byte has: a whole line of the source, the number of newlines before it plus one,
    and the bytes between the start of the line and the position. -/
theorem locate_finds_line (source : String) (position : Nat) :
    (locate source.toList position = none ↔ source.utf8ByteSize ≤ position) ∧
    (∀ place, locate source.toList position = some place ↔
      ∃ before after, place.Between source.toList position before after) ∧
    ((∃! place : Location, ∃ before after, place.Between source.toList position before after) ↔
      position < source.utf8ByteSize) := by
  rw [← byteLength_toList]
  refine ⟨locate_eq_none_iff, fun place => locate_eq_some_iff, ?_⟩
  constructor
  · rintro ⟨place, hplace, -⟩
    have hfound := locate_eq_some_iff.2 hplace
    rw [← Nat.not_le, ← locate_eq_none_iff, hfound]
    simp
  · intro hlt
    obtain ⟨place, before, after, hplace⟩ := exists_between hlt
    refine ⟨place, ⟨before, after, hplace⟩, ?_⟩
    rintro other ⟨before', after', hother⟩
    have hsame := hother.locate_eq
    rw [hplace.locate_eq] at hsame
    cases hsame
    rfl

-- the second byte of a character, and the newline of a line
example : locate "é\nab\n".toList 1 = some ⟨1, ['é', '\n'], 1⟩ := by decide
example : locate "é\nab\n".toList 5 = some ⟨2, ['a', 'b', '\n'], 2⟩ := by decide

end PixelLowering.Text
