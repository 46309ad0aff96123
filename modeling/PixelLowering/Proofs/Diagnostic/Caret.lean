import PixelLowering.Diagnostic.Report
import PixelLowering.Proofs.Text.Location

/-! Where the caret of a report stands.

    A report shows one line of the source between its leading spaces and the blanks at its end, and
    under it a caret. Columns count characters, but the caret is moved by bytes:

        source line     ··é = y;⏎          spaces "··"   displayed "é = y;"   blanks "⏎"
        offset                ^            stretch "é = ": 4 characters, 5 bytes

        2 | é = y;
          | -----^                         one column too far to the right

    So the caret is under the character at the offset if the stretch between the leading spaces and
    this character is ASCII, and only then.

    The line of the caret is as long as the offset asks for. Formatters of newer standard libraries
    refuse to pad to more than 65535 columns; there is no such bound here, and the results hold
    beyond it. -/

namespace PixelLowering.Diagnostic

open PixelLowering.Text

/-! ### What is shown of a line -/

/-- A line in three pieces: all of its leading spaces, what is shown of it, and all blanks at its
    end. -/
structure Cut (line spaces displayed blanks : List Char) : Prop where
  line_eq : line = spaces ++ displayed ++ blanks
  spaces_plain : ∀ c ∈ spaces, c = ' '
  starts : (displayed ++ blanks).head? ≠ some ' '
  ends : ∀ c, displayed.getLast? = some c → isBlank c = false
  blanks_blank : ∀ c ∈ blanks, isBlank c = true

theorem head?_dropWhile {p : Char → Bool} {text : List Char} {c : Char}
    (h : (text.dropWhile p).head? = some c) : p c = false := by
  have hnot := List.head?_dropWhile_not p text
  rw [h] at hnot
  simpa using hnot

/-- The blanks that are cut off at the end of a text. -/
def blanksAtEnd (text : List Char) : List Char := (text.reverse.takeWhile isBlank).reverse

theorem trimEnd_append_blanksAtEnd (text : List Char) :
    trimEnd text ++ blanksAtEnd text = text := by
  rw [trimEnd, blanksAtEnd, ← List.reverse_append, List.takeWhile_append_dropWhile,
    List.reverse_reverse]

/-- The pieces that a report cuts a line into. -/
theorem cut_shown (line : List Char) :
    Cut line (line.takeWhile (· = ' ')) (shown line) (blanksAtEnd (line.dropWhile (· = ' '))) where
  line_eq := by
    rw [shown, List.append_assoc, trimEnd_append_blanksAtEnd, List.takeWhile_append_dropWhile]
  spaces_plain := by
    intro c hc
    simpa using List.all_eq_true.1 List.all_takeWhile c hc
  starts := by
    rw [shown, trimEnd_append_blanksAtEnd]
    intro hhead
    simpa using head?_dropWhile hhead
  ends := by
    intro c hc
    rw [shown, trimEnd, List.getLast?_reverse] at hc
    exact head?_dropWhile hc
  blanks_blank := by
    intro c hc
    rw [blanksAtEnd, List.mem_reverse] at hc
    exact List.all_eq_true.1 List.all_takeWhile c hc

theorem dropWhile_eq_self {p : Char → Bool} {text : List Char}
    (h : ∀ c, text.head? = some c → p c = false) : text.dropWhile p = text := by
  cases text with
  | nil => rfl
  | cons c rest =>
    have hc := h c rfl
    exact List.dropWhile_cons_of_neg (by simp [hc])

namespace Cut

variable {line spaces displayed blanks : List Char}

/-- What is left of a line without its leading spaces. -/
theorem dropWhile_eq (h : Cut line spaces displayed blanks) :
    line.dropWhile (· = ' ') = displayed ++ blanks := by
  have hspaces : ∀ c ∈ spaces, decide (c = ' ') = true := by simpa using h.spaces_plain
  rw [h.line_eq, List.append_assoc, List.dropWhile_append_of_pos hspaces]
  refine dropWhile_eq_self fun c hc => ?_
  rw [decide_eq_false_iff_not]
  rintro rfl
  exact h.starts hc

/-- There is only one way to cut a line: these are the spaces that a report takes away. -/
theorem leadingSpaces_eq (h : Cut line spaces displayed blanks) :
    leadingSpaces line = spaces.length := by
  have hparts : line.takeWhile (· = ' ') ++ (displayed ++ blanks) =
      spaces ++ (displayed ++ blanks) := by
    rw [← h.dropWhile_eq, List.takeWhile_append_dropWhile, h.dropWhile_eq, ← List.append_assoc]
    exact h.line_eq
  rw [leadingSpaces, List.append_cancel_right hparts]

/-- And this is what it shows. -/
theorem shown_eq (h : Cut line spaces displayed blanks) : shown line = displayed := by
  have hblanks : ∀ c ∈ blanks.reverse, isBlank c = true := by simpa using h.blanks_blank
  have hdisplayed : displayed.reverse.dropWhile isBlank = displayed.reverse := by
    refine dropWhile_eq_self fun c hc => ?_
    rw [List.head?_reverse] at hc
    exact h.ends c hc
  rw [shown, h.dropWhile_eq, trimEnd, List.reverse_append, List.dropWhile_append_of_pos hblanks,
    hdisplayed, List.reverse_reverse]

/-- Leading spaces are as many bytes as they are characters. -/
theorem byteLength_spaces (h : Cut line spaces displayed blanks) :
    byteLength spaces = spaces.length := by
  rw [byteLength_eq_length_iff]
  intro c hc
  rw [h.spaces_plain c hc]
  decide

/-- The newline of a line is a blank at its end. -/
theorem newline_not_mem (h : Cut line spaces displayed blanks) (hline : '\n' ∉ line.dropLast) :
    '\n' ∉ displayed := by
  intro hmem
  obtain ⟨init, c, rfl⟩ := (List.eq_nil_or_concat displayed).resolve_left (List.ne_nil_of_mem hmem)
  rw [List.concat_eq_append] at hmem
  rcases List.mem_append.1 hmem with hinit | hlast
  · -- something stands behind it in the line
    rw [h.line_eq, List.concat_eq_append] at hline
    refine hline ?_
    simp [List.dropLast_append_of_ne_nil, hinit]
  · rw [List.mem_singleton] at hlast
    have hblank := h.ends c (by simp)
    rw [← hlast] at hblank
    cases hblank

end Cut

/-- After the leading spaces a character starts, so a line can be cut there. -/
theorem leadingSpaces_isValid (line : List Char) :
    String.Pos.Raw.IsValid (String.ofList line) ⟨leadingSpaces line⟩ := by
  have hcut := cut_shown line
  rw [String.Pos.Raw.isValid_iff_exists_append]
  refine ⟨String.ofList (line.takeWhile (· = ' ')), String.ofList (line.dropWhile (· = ' ')),
    ?_, ?_⟩
  · rw [← String.ofList_append, List.takeWhile_append_dropWhile]
  · have hbytes := byteLength_toList (String.ofList (line.takeWhile (· = ' ')))
    rw [String.toList_ofList, hcut.byteLength_spaces] at hbytes
    rw [leadingSpaces, hbytes]
    rfl

/-! ### The three lines -/

/-- The place of an offset in a source, with its line in three pieces. -/
structure View (source : List Char) (offset : Nat) where
  place : Location
  before : List Char
  spaces : List Char
  displayed : List Char
  blanks : List Char
  after : List Char
  between : place.Between source offset before after
  cut : Cut place.text spaces displayed blanks

/-- There is a view of every byte of the source. -/
theorem nonempty_view {source : List Char} {offset : Nat} (h : offset < byteLength source) :
    Nonempty (View source offset) := by
  obtain ⟨place, before, after, hplace⟩ := exists_between h
  exact ⟨⟨place, before, _, _, _, after, hplace, cut_shown place.text⟩⟩

namespace View

variable {source : List Char} {offset : Nat} (view : View source offset)

/-- The number of the line. -/
def number : List Char := (toString view.place.line).toList

/-- What stands in front of the line that is shown. -/
def label : List Char := view.number ++ [' ', '|', ' ']

/-- A bar under the bar of the label. -/
def gutterLine : List Char := List.replicate (view.number.length + 1) ' ' ++ ['|']

/-- The line with its number. -/
def sourceLine : List Char := view.label ++ view.displayed

/-- The caret, after a dash for each byte between the leading spaces and the offset. -/
def caretLine : List Char :=
  view.gutterLine ++ [' '] ++ List.replicate (view.place.column - view.spaces.length) '-' ++ ['^']

/-- Where the caret stands in its line. -/
def caretColumn : Nat := view.caretLine.idxOf '^'

/-- Gutter and label are equally long, so the columns of the two lines agree behind them. -/
theorem caretColumn_eq :
    view.caretColumn = view.label.length + (view.place.column - view.spaces.length) := by
  have hlead : '^' ∉ view.gutterLine ++ [' '] ++
      List.replicate (view.place.column - view.spaces.length) '-' := by
    simp [gutterLine, List.mem_replicate]
  rw [caretColumn, caretLine, List.idxOf_append, if_neg hlead]
  simp only [gutterLine, label, List.length_append, List.length_replicate, List.length_cons,
    List.length_nil, List.idxOf_cons_self]
  omega

theorem newline_not_mem_number : '\n' ∉ view.number := by
  intro hmem
  have hdigits : view.number = Nat.toDigits 10 view.place.line := Nat.toList_repr
  rw [hdigits] at hmem
  have hdigit : '\n'.isDigit = true := Nat.isDigit_of_mem_toDigits (by decide) (by decide) hmem
  cases hdigit

/-- Each of the three lines is one line. -/
theorem isLine_of_mem :
    ∀ line ∈ [view.gutterLine ++ ['\n'], view.sourceLine ++ ['\n'], view.caretLine ++ ['\n']],
      IsLine line := by
  have hgutter : '\n' ∉ view.gutterLine := by
    simp [gutterLine, List.mem_replicate]
  have hsource : '\n' ∉ view.sourceLine := by
    simp [sourceLine, label, view.newline_not_mem_number,
      view.cut.newline_not_mem view.between.newline_last]
  have hcaret : '\n' ∉ view.caretLine := by
    simp [caretLine, hgutter, List.mem_replicate]
  intro line hline
  simp only [List.mem_cons, List.not_mem_nil, or_false] at hline
  rcases hline with rfl | rfl | rfl
  · exact ⟨_, hgutter, rfl⟩
  · exact ⟨_, hsource, rfl⟩
  · exact ⟨_, hcaret, rfl⟩

/-! ### The column of the caret -/

theorem byteLength_before_spaces :
    byteLength (view.before ++ view.spaces) = byteLength view.before + view.spaces.length := by
  rw [byteLength_append, view.cut.byteLength_spaces]

/-- An offset within the leading spaces is shown at the start of the line. -/
theorem caretColumn_of_leading (h : offset < byteLength (view.before ++ view.spaces)) :
    view.caretColumn = view.label.length := by
  have hoffset := view.between.offset_eq
  rw [view.byteLength_before_spaces] at h
  have hcolumn : view.place.column - view.spaces.length = 0 := by omega
  rw [caretColumn_eq, hcolumn, Nat.add_zero]

theorem source_eq :
    source = (view.before ++ view.spaces) ++ (view.displayed ++ (view.blanks ++ view.after)) := by
  refine view.between.text_eq.trans ?_
  rw [view.cut.line_eq]
  simp

/-- An offset behind the leading spaces, at the start of a character that is shown. The stretch up
    to it is counted in characters by the shown line and in bytes by the caret. -/
theorem caretColumn_of_boundary {upTo rest : List Char} {c : Char}
    (hsource : source = upTo ++ c :: rest) (hoffset : byteLength upTo = offset)
    (hspaces : byteLength (view.before ++ view.spaces) ≤ offset)
    (hshown : upTo.length < (view.before ++ view.spaces ++ view.displayed).length) :
    ∃ stretch, upTo = view.before ++ view.spaces ++ stretch ∧
      view.sourceLine[view.label.length + stretch.length]? = some c ∧
      view.caretColumn = view.label.length + byteLength stretch := by
  have hcuts := view.source_eq.symm.trans hsource
  have hle : byteLength (view.before ++ view.spaces) ≤ byteLength upTo := by
    rw [hoffset]
    exact hspaces
  obtain ⟨stretch, rfl, hrest⟩ := exists_middle_of_byteLength_le hcuts hle
  refine ⟨stretch, rfl, ?_, ?_⟩
  · -- the stretch is shorter than what is shown, so the character is shown too
    have hlt : stretch.length < view.displayed.length := by
      simp only [List.length_append] at hshown
      omega
    have hc : (view.displayed ++ (view.blanks ++ view.after))[stretch.length]? = some c := by
      rw [hrest]
      simp
    rw [List.getElem?_append_left hlt] at hc
    rw [sourceLine, List.getElem?_append_right (Nat.le_add_right _ _), Nat.add_sub_cancel_left, hc]
  · have hplace := view.between.offset_eq
    rw [byteLength_append, view.byteLength_before_spaces] at hoffset
    have hcolumn : view.place.column - view.spaces.length = byteLength stretch := by omega
    rw [caretColumn_eq, hcolumn]

end View

/-! ### Whole reports -/

section

variable (failure : Failure) (source fileName : String)

/-- Every cause comes with a tip. -/
theorem heading_eq (cause : Cause) :
    heading cause fileName =
      "Error: " ++ cause.title ++ " (" ++ cause.tip.text ++ ")\n-> " ++ fileName ++ "\n" := by
  cases cause <;> simp [heading, Cause.tip, Tip.text, String.append_assoc]

/-- Without a line to show there is only a heading. -/
theorem report_of_le (h : source.utf8ByteSize ≤ failure.position.offset) :
    report failure source fileName = heading failure.cause fileName := by
  rw [← byteLength_toList] at h
  rw [report, locate_eq_none h, String.append_empty]

/-- With a line to show, the three lines of its view follow the heading. -/
theorem report_eq (view : View source.toList failure.position.offset) :
    (report failure source fileName).toList = (heading failure.cause fileName).toList ++
      [view.gutterLine ++ ['\n'], view.sourceLine ++ ['\n'], view.caretLine ++ ['\n']].flatten := by
  have hdigits : (toString view.place.line).length = view.number.length := String.length_toList.symm
  rw [report, view.between.locate_eq, String.toList_append]
  simp only [excerpt, view.cut.shown_eq, view.cut.leadingSpaces_eq, hdigits]
  simp [gutter, caret, View.gutterLine, View.sourceLine, View.caretLine, View.label, View.number]

end

/-- Where the caret lands. At the end of the source and beyond, a report is its heading: title and
    tip, then the file. Before that, exactly three lines follow: a gutter line; the number and the
    line of the source that holds the offset, without its leading spaces and the blanks at its end;
    and the caret line.

    For an offset in the leading spaces, the caret stands in the column of the first character that
    is shown. For an offset behind them, at the start of a character that is shown, it stands in the
    column of that character, plus the bytes and minus the characters of the stretch in between; so
    it is under the character if and only if this stretch is ASCII.

    A line can always be cut at the byte that the number of its leading spaces says. -/
theorem report_points_at_offset (failure : Failure) (source fileName : String) :
    let offset := failure.position.offset
    let header := "Error: " ++ failure.cause.title ++ " (" ++ failure.cause.tip.text ++ ")\n-> " ++
      fileName ++ "\n"
    (source.utf8ByteSize ≤ offset → report failure source fileName = header) ∧
    (offset < source.utf8ByteSize → Nonempty (View source.toList offset)) ∧
    (∀ view : View source.toList offset,
      lines (report failure source fileName).toList = lines header.toList ++
        [view.gutterLine ++ ['\n'], view.sourceLine ++ ['\n'], view.caretLine ++ ['\n']] ∧
      (offset < byteLength (view.before ++ view.spaces) →
        view.caretColumn = view.label.length) ∧
      ∀ upTo c rest, source.toList = upTo ++ c :: rest → byteLength upTo = offset →
        byteLength (view.before ++ view.spaces) ≤ offset →
        upTo.length < (view.before ++ view.spaces ++ view.displayed).length →
        ∃ stretch column, upTo = view.before ++ view.spaces ++ stretch ∧
          column = view.label.length + stretch.length ∧ view.sourceLine[column]? = some c ∧
          view.caretColumn + stretch.length = column + byteLength stretch ∧
          (view.caretColumn = column ↔ ∀ d ∈ stretch, d.toNat < 128)) ∧
    ∀ line, String.Pos.Raw.IsValid (String.ofList line) ⟨leadingSpaces line⟩ := by
  intro offset header
  have hheader : heading failure.cause fileName = header := heading_eq fileName failure.cause
  refine ⟨?_, ?_, ?_, leadingSpaces_isValid⟩
  · intro h
    rw [report_of_le failure source fileName h, hheader]
  · intro h
    rw [← byteLength_toList] at h
    exact nonempty_view h
  · intro view
    refine ⟨?_, view.caretColumn_of_leading, ?_⟩
    · have hended : Ended header.toList := by
        right
        rw [String.toList_append, List.getLast?_append]
        rfl
      have hlines := lines_flatten_append view.isLine_of_mem []
      rw [List.append_nil, lines_nil, List.append_nil] at hlines
      rw [report_eq failure source fileName view, hheader, hended.lines_append, hlines]
    · intro upTo c rest hsource hoffset hspaces hshown
      obtain ⟨stretch, hupTo, hc, hcaret⟩ :=
        view.caretColumn_of_boundary hsource hoffset hspaces hshown
      refine ⟨stretch, _, hupTo, rfl, hc, ?_, ?_⟩
      · omega
      · rw [← byteLength_eq_length_iff, hcaret]
        omega

/-- The picture above: a failure at `y`, behind a character of two bytes. -/
def misplaced : Failure := ⟨.unresolvedName "y", ⟨9, "blur.plc"⟩⟩

/-- Its place in the source, on the second line. -/
def misplacedView : View "x\n  é = y;\n".toList 9 where
  place := ⟨2, "  é = y;\n".toList, 7⟩
  before := "x\n".toList
  spaces := "  ".toList
  displayed := "é = y;".toList
  blanks := "\n".toList
  after := []
  between := by constructor <;> decide
  cut := {
    line_eq := by decide
    spaces_plain := by simp
    starts := by decide
    ends := by
      rintro c ⟨⟩
      rfl
    blanks_blank := by simp }

theorem report_points_at_offset_misplaced :
    "x\n  é = y;\n".toList = "x\n  é = ".toList ++ 'y' :: ";\n".toList ∧
    byteLength "x\n  é = ".toList = misplaced.position.offset ∧
    misplacedView.sourceLine = "2 | é = y;".toList ∧
    ∃ column, misplacedView.sourceLine[column]? = some 'y' ∧
      misplacedView.caretColumn = column + 1 := by
  obtain ⟨stretch, column, hupTo, -, hc, hcaret, -⟩ :=
    ((report_points_at_offset misplaced "x\n  é = y;\n" "blur.plc").2.2.1 misplacedView).2.2
      "x\n  é = ".toList 'y' ";\n".toList (by decide) (by decide) (by decide) (by decide)
  have hstretch : stretch = "é = ".toList := List.append_cancel_left hupTo.symm
  rw [hstretch] at hcaret
  refine ⟨by decide, by decide, by decide, column, hc, ?_⟩
  exact Nat.add_right_cancel hcaret

end PixelLowering.Diagnostic
