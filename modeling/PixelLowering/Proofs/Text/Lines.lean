import PixelLowering.Text.Lines

/-! How a text is cut into lines.

    A text is a row of whole lines, and behind them perhaps a last one without a newline. `byLines`
    is induction along that row:

        "ab⏎⏎c"     whole "ab⏎"     whole "⏎"     last "c"

    Between whole lines a text can be cut in two, and each half cut into lines on its own. Anywhere
    else it cannot: the two halves of "ab" are one line together. -/

namespace PixelLowering.Text

/-! ### Whole lines -/

/-- A newline at the end and nowhere else. -/
def IsLine (line : List Char) : Prop := ∃ content, '\n' ∉ content ∧ line = content ++ ['\n']

theorem IsLine.append_left {line : List Char} (h : IsLine line) {start : List Char}
    (hstart : '\n' ∉ start) : IsLine (start ++ line) := by
  obtain ⟨content, hcontent, rfl⟩ := h
  exact ⟨start ++ content, by simp [hstart, hcontent], by simp⟩

theorem IsLine.count_newline {line : List Char} (h : IsLine line) : line.count '\n' = 1 := by
  obtain ⟨content, hcontent, rfl⟩ := h
  rw [List.count_append, List.count_eq_zero.2 hcontent]
  rfl

theorem lines_newline_cons (rest : List Char) : lines ('\n' :: rest) = ['\n'] :: lines rest := by
  rw [lines_cons]
  cases lines rest <;> rfl

/-- A whole line at the start of a text is its first line. -/
theorem IsLine.lines_append {line : List Char} (h : IsLine line) (rest : List Char) :
    lines (line ++ rest) = line :: lines rest := by
  obtain ⟨content, hcontent, rfl⟩ := h
  induction content with
  | nil => exact lines_newline_cons rest
  | cons c content ih =>
    rw [List.mem_cons, not_or] at hcontent
    rw [List.cons_append, List.cons_append, lines_cons, ih hcontent.2, attach,
      if_neg (Ne.symm hcontent.1)]

theorem lines_ne_nil {text : List Char} (h : text ≠ []) : lines text ≠ [] := by
  intro hnil
  rw [← flatten_lines text, hnil] at h
  exact h rfl

/-- A text that ends in a newline has whole lines only. -/
theorem isLine_of_mem_lines (text : List Char) : ∀ line ∈ lines (text ++ ['\n']), IsLine line := by
  induction text with
  | nil =>
    intro line hline
    exact ⟨[], by simp, by simpa [attach] using hline⟩
  | cons c text ih =>
    have hne : lines (text ++ ['\n']) ≠ [] := lines_ne_nil (by simp)
    obtain ⟨first, rest, hlines⟩ := List.exists_cons_of_ne_nil hne
    rw [hlines, List.forall_mem_cons] at ih
    rw [List.cons_append, lines_cons, hlines, attach]
    split
    · next hc =>
      rw [List.forall_mem_cons, List.forall_mem_cons]
      exact ⟨⟨[], by simp, by simp [hc]⟩, ih⟩
    · next hc =>
      rw [List.forall_mem_cons]
      have hstart : '\n' ∉ [c] := by simpa using Ne.symm hc
      exact ⟨ih.1.append_left hstart, ih.2⟩

/-- A text without a newline is a line by itself. -/
theorem lines_of_not_mem {line : List Char} (hne : line ≠ []) (h : '\n' ∉ line) :
    lines line = [line] := by
  induction line with
  | nil => exact absurd rfl hne
  | cons c rest ih =>
    rw [List.mem_cons, not_or] at h
    cases rest with
    | nil => rfl
    | cons d rest =>
      rw [lines_cons, ih (List.cons_ne_nil d rest) h.2, attach, if_neg (Ne.symm h.1)]

/-- Induction along the lines of a text: whole lines, then perhaps one without a newline. -/
@[elab_as_elim]
theorem byLines {motive : List Char → Prop} (nil : motive [])
    (last : ∀ line, line ≠ [] → '\n' ∉ line → motive line)
    (whole : ∀ line rest, IsLine line → motive rest → motive (line ++ rest)) (text : List Char) :
    motive text := by
  by_cases hnewline : '\n' ∈ text
  · obtain ⟨content, rest, htext, hcontent⟩ := List.eq_append_cons_of_mem hnewline
    have hshorter : rest.length < text.length := by
      rw [htext, List.length_append, List.length_cons]
      omega
    have hwhole := whole (content ++ ['\n']) rest ⟨content, hcontent, rfl⟩
      (byLines nil last whole rest)
    rw [List.append_assoc] at hwhole
    rw [htext]
    exact hwhole
  · by_cases hnil : text = []
    · rw [hnil]
      exact nil
    · exact last text hnil hnewline
termination_by text.length

/-! ### Texts that end with a line -/

/-- Nothing, or a text whose last line has its newline. -/
def Ended (text : List Char) : Prop := text = [] ∨ text.getLast? = some '\n'

theorem Ended.isLine {text : List Char} (h : Ended text) : ∀ line ∈ lines text, IsLine line := by
  rcases h with rfl | h
  · intro line hline
    cases hline
  · obtain ⟨init, rfl⟩ := List.getLast?_eq_some_iff.1 h
    exact isLine_of_mem_lines init

theorem lines_flatten_append {whole : List (List Char)} (h : ∀ line ∈ whole, IsLine line)
    (text : List Char) : lines (whole.flatten ++ text) = whole ++ lines text := by
  induction whole with
  | nil => rfl
  | cons line rest ih =>
    rw [List.forall_mem_cons] at h
    rw [List.flatten_cons, List.append_assoc, h.1.lines_append, ih h.2, List.cons_append]

/-- Behind a whole line, the text goes on with lines of its own. -/
theorem Ended.lines_append {text : List Char} (h : Ended text) (more : List Char) :
    lines (text ++ more) = lines text ++ lines more := by
  have hlines := lines_flatten_append h.isLine more
  rwa [flatten_lines] at hlines

/-- Each line that has its newline counts for one. -/
theorem Ended.length_lines {text : List Char} (h : Ended text) :
    (lines text).length = text.count '\n' := by
  have hwhole := h.isLine
  suffices hcount : ∀ whole : List (List Char), (∀ line ∈ whole, IsLine line) →
      whole.length = whole.flatten.count '\n' by
    rw [hcount (lines text) hwhole, flatten_lines]
  intro whole hwhole
  induction whole with
  | nil => rfl
  | cons line rest ih =>
    rw [List.forall_mem_cons] at hwhole
    rw [List.length_cons, List.flatten_cons, List.count_append, hwhole.1.count_newline,
      ih hwhole.2, Nat.add_comm]

/-! ### Lengths in bytes -/

/-- The bytes of a string are those of its characters. -/
theorem byteLength_toList (text : String) : byteLength text.toList = text.utf8ByteSize := by
  suffices h : ∀ chars : List Char, byteLength chars = (String.ofList chars).utf8ByteSize by
    rw [h, String.ofList_toList]
  intro chars
  induction chars with
  | nil => rfl
  | cons c rest ih =>
    have hcons : String.ofList (c :: rest) = String.singleton c ++ String.ofList rest := by
      rw [String.singleton_eq_ofList, ← String.ofList_append]
      rfl
    rw [hcons, String.utf8ByteSize_append, String.utf8ByteSize_singleton, byteLength_cons, ih]

theorem length_le_byteLength (text : List Char) : text.length ≤ byteLength text := by
  induction text with
  | nil => exact Nat.le_refl 0
  | cons c rest ih =>
    have hc := c.utf8Size_pos
    rw [List.length_cons, byteLength_cons]
    omega

theorem utf8Size_eq_one_iff (c : Char) : c.utf8Size = 1 ↔ c.toNat < 128 := by
  rw [Char.utf8Size_eq_one_iff, UInt32.le_iff_toNat_le]
  exact Nat.lt_succ_iff.symm

/-- Characters and bytes are the same in number where all characters are ASCII. -/
theorem byteLength_eq_length_iff (text : List Char) :
    byteLength text = text.length ↔ ∀ c ∈ text, c.toNat < 128 := by
  induction text with
  | nil => simp
  | cons c rest ih =>
    have hc := c.utf8Size_pos
    have hrest := length_le_byteLength rest
    rw [List.forall_mem_cons, ← ih, ← utf8Size_eq_one_iff, byteLength_cons, List.length_cons]
    constructor
    · intro h
      constructor <;> omega
    · rintro ⟨hone, hlength⟩
      omega

/-- Of two ways to cut a text, the cut at the lower byte comes first. -/
theorem exists_middle_of_byteLength_le {front front' rest rest' : List Char}
    (h : front ++ rest = front' ++ rest') (hle : byteLength front ≤ byteLength front') :
    ∃ middle, front' = front ++ middle ∧ rest = middle ++ rest' := by
  rcases List.append_eq_append_iff.1 h with hmiddle | ⟨middle, rfl, rfl⟩
  · exact hmiddle
  · -- the other way round there is nothing in between
    have hlength := length_le_byteLength middle
    rw [byteLength_append] at hle
    have hmiddle : middle = [] := List.eq_nil_of_length_eq_zero (by omega)
    exact ⟨[], by simp [hmiddle], by simp [hmiddle]⟩

end PixelLowering.Text
