import Mathlib.Logic.Function.Iterate
import PixelLowering.Proofs.Layout.Page

/-! What moving lines does to a piece of text within them.

    Lines are cut at newlines and know nothing of literals, so a piece that spans several lines is
    pulled apart when they move: its first line goes along as a whole, and spaces come in after
    every line break of the piece, unless the line that starts there is blank.

        f("a            ····f("a             "a
        b", 1);         ····b", 1);          ····b"        the piece after moving by 4

    Only the piece itself is needed to tell, as long as something that is not blank follows it in
    its last line. Behind a literal this is always so: a bracket, a comma, an operator or the
    semicolon. -/

namespace PixelLowering.Text

/-! ### Pieces of a text that moves -/

/-- Whether a piece starts with a blank line that ends within the piece. -/
def startsBlankLine : List Char → Bool
  | [] => false
  | c :: rest => c = '\n' || (isBlank c && startsBlankLine rest)

/-- A piece of a text after its lines moved right by `n` spaces: they come in after every line break
    of the piece, unless the piece ends there or the next line is blank. -/
def moved (n : Nat) : List Char → List Char
  | [] => []
  | c :: rest =>
    if c = '\n' ∧ rest ≠ [] ∧ startsBlankLine rest = false then
      c :: (List.replicate n ' ' ++ moved n rest)
    else
      c :: moved n rest

/-- No line of a piece is moved but the first one: every other line is blank, and it ends. -/
def OneLined (piece : List Char) : Prop :=
  ∀ before rest, piece = before ++ '\n' :: rest → rest = [] ∨ startsBlankLine rest

theorem oneLined_of_not_mem {piece : List Char} (h : '\n' ∉ piece) : OneLined piece := by
  rintro before rest rfl
  simp at h

theorem oneLined_cons {c : Char} {rest : List Char} :
    OneLined (c :: rest) ↔ (c = '\n' → rest = [] ∨ startsBlankLine rest) ∧ OneLined rest := by
  constructor
  · intro h
    refine ⟨fun hc => h [] rest (by rw [hc]; rfl), fun before last hlast => ?_⟩
    exact h (c :: before) last (by rw [hlast]; rfl)
  · rintro ⟨hfirst, hrest⟩ before last hlast
    cases before with
    | nil =>
      obtain ⟨rfl, rfl⟩ := List.cons_eq_cons.1 hlast
      exact hfirst rfl
    | cons d before => exact hrest before last (List.cons_eq_cons.1 hlast).2

theorem length_le_length_moved (n : Nat) (piece : List Char) :
    piece.length ≤ (moved n piece).length := by
  induction piece with
  | nil => exact Nat.le_refl _
  | cons c rest ih =>
    rw [moved]
    split
    · simp only [List.length_cons, List.length_append]
      omega
    · simp only [List.length_cons]
      omega

/-- A piece is the same after moving if it moves by nothing or has no line to move. -/
theorem moved_eq_self_iff (n : Nat) (piece : List Char) :
    moved n piece = piece ↔ n = 0 ∨ OneLined piece := by
  induction piece with
  | nil => simp [moved, oneLined_of_not_mem]
  | cons c rest ih =>
    rw [moved, oneLined_cons]
    split
    · next h =>
      obtain ⟨rfl, hne, hblank⟩ := h
      have hlength := length_le_length_moved n rest
      rw [List.cons_inj_right]
      constructor
      -- a piece only gets longer, so it was moved by nothing
      · intro heq
        have hlengths := congrArg List.length heq
        rw [List.length_append, List.length_replicate] at hlengths
        exact .inl (by omega)
      · rintro (rfl | ⟨hfirst, -⟩)
        · exact ih.2 (.inl rfl)
        · simp [hne, hblank] at hfirst
    · next h =>
      rw [List.cons_inj_right, ih]
      refine or_congr_right ⟨fun hrest => ⟨fun hc => ?_, hrest⟩, And.right⟩
      by_contra hmoves
      rw [not_or, Bool.not_eq_true] at hmoves
      exact h ⟨hc, hmoves⟩

/-! ### The rest of a text that moves -/

/-- The first line of a text, or what there is of it. -/
def firstLine (text : List Char) : List Char := (lines text).headD []

theorem firstLine_cons (c : Char) (rest : List Char) :
    firstLine (c :: rest) = if c = '\n' then [c] else c :: firstLine rest := by
  rw [firstLine, firstLine, lines_cons]
  cases lines rest with
  | nil => simp [attach]
  | cons first others =>
    rw [attach]
    split <;> rfl

/-- Something that is not blank comes before the line ends. -/
def Solid (text : List Char) : Prop := (firstLine text).all isBlank = false

instance : DecidablePred Solid := fun text =>
  inferInstanceAs (Decidable ((firstLine text).all isBlank = false))

theorem solid_cons {c : Char} {rest : List Char} :
    Solid (c :: rest) ↔ c ≠ '\n' ∧ (isBlank c = false ∨ Solid rest) := by
  rw [Solid, firstLine_cons]
  split
  · next hc => simp [hc]
  · next hc => rw [List.all_cons, Bool.and_eq_false_iff, Solid, and_iff_right hc]

theorem solid_of_not_blank {c : Char} (hc : isBlank c = false) (rest : List Char) :
    Solid (c :: rest) := by
  refine solid_cons.2 ⟨?_, .inl hc⟩
  rintro rfl
  cases hc

theorem Solid.append {text : List Char} (h : Solid text) (more : List Char) :
    Solid (text ++ more) := by
  induction text with
  | nil => cases h
  | cons c rest ih =>
    rw [List.cons_append, solid_cons]
    obtain ⟨hc, h⟩ := solid_cons.1 h
    exact ⟨hc, h.imp_right ih⟩

/-- With something solid behind it, a piece decides alone whether its first line is blank. -/
theorem all_firstLine_append {after : List Char} (h : Solid after) (piece : List Char) :
    (firstLine (piece ++ after)).all isBlank = startsBlankLine piece := by
  induction piece with
  | nil => exact h
  | cons c rest ih =>
    rw [List.cons_append, firstLine_cons, startsBlankLine]
    split
    · next hc => simp [hc]
    · next hc => rw [List.all_cons, ih, decide_eq_false hc, Bool.false_or]

/-- What moving does to a text from the middle of a line on: the first line stays. -/
def indentRest (n : Nat) (text : List Char) : List Char :=
  match lines text with
  | [] => []
  | first :: rest => first ++ (rest.map (indentLine n)).flatten

theorem indentLine_eq (n : Nat) (line : List Char) :
    indentLine n line = (if line.all isBlank then [] else List.replicate n ' ') ++ line := by
  rw [indentLine]
  split <;> rfl

/-- Moving a text moves its first line, and then the rest. -/
theorem indentChars_eq (n : Nat) (text : List Char) :
    indentChars n text =
      (if (firstLine text).all isBlank then [] else List.replicate n ' ') ++ indentRest n text := by
  rw [indentChars, firstLine, indentRest]
  cases lines text with
  | nil => rfl
  | cons first rest =>
    rw [List.map_cons, List.flatten_cons, indentLine_eq, List.append_assoc]
    rfl

theorem indentRest_newline (n : Nat) (rest : List Char) :
    indentRest n ('\n' :: rest) = '\n' :: indentChars n rest := by
  rw [indentRest, lines_newline_cons]
  rfl

theorem indentRest_cons (n : Nat) {c : Char} (hc : c ≠ '\n') (rest : List Char) :
    indentRest n (c :: rest) = c :: indentRest n rest := by
  rw [indentRest, indentRest, lines_cons]
  cases lines rest with
  | nil => rfl
  | cons first others => simp [attach, hc]

/-- What stands before a text does not matter for the rest of it. -/
theorem indentRest_suffix (n : Nat) (before text : List Char) :
    indentRest n text <:+ indentRest n (before ++ text) := by
  induction before with
  | nil => exact List.suffix_rfl
  | cons c before ih =>
    rw [List.cons_append]
    by_cases hc : c = '\n'
    · rw [hc, indentRest_newline, indentChars_eq, ← List.cons_append]
      exact ih.trans (List.suffix_append _ _)
    · rw [indentRest_cons n hc]
      exact ih.trans (List.suffix_cons _ _)

/-- A piece of which all but the start of its first line is in sight. -/
theorem moved_prefix (n : Nat) (piece : List Char) {after : List Char} (h : Solid after) :
    moved n piece <+: indentRest n (piece ++ after) := by
  induction piece with
  | nil => exact List.nil_prefix
  | cons c rest ih =>
    rw [List.cons_append, moved]
    by_cases hc : c = '\n'
    · subst hc
      rw [indentRest_newline, indentChars_eq, all_firstLine_append h]
      by_cases hrest : rest = []
      -- spaces may follow here, but they are no longer part of the piece
      · simp [hrest, moved]
      · cases hblank : startsBlankLine rest with
        | true => simpa [hblank] using ih
        | false => simpa [hrest, hblank, List.prefix_append_right_inj] using ih
    · rw [if_neg (fun hmoves => hc hmoves.1), indentRest_cons n hc, List.prefix_cons_inj]
      exact ih

/-- A piece of a text, with something solid behind it, is found again after the lines moved. -/
theorem moved_infix (n : Nat) (before piece : List Char) {after : List Char} (h : Solid after) :
    moved n piece <:+: indentChars n (before ++ (piece ++ after)) := by
  rw [indentChars_eq]
  refine List.infix_iff_prefix_suffix.2 ⟨_, moved_prefix n piece h, ?_⟩
  exact (indentRest_suffix n before _).trans (List.suffix_append _ _)

/-! ### Pieces within a text -/

/-- A text holds a piece, at its end or with something solid behind it. -/
def Holds (text piece : List Char) : Prop :=
  ∃ before after, text = before ++ (piece ++ after) ∧ (after = [] ∨ Solid after)

/-- A text holds a piece with something solid behind it. -/
def Encloses (text piece : List Char) : Prop :=
  ∃ before after, text = before ++ (piece ++ after) ∧ Solid after

section

variable {text piece : List Char}

theorem Holds.refl (piece : List Char) : Holds piece piece := ⟨[], [], by simp, .inl rfl⟩

theorem Holds.append_left (h : Holds text piece) (before : List Char) :
    Holds (before ++ text) piece := by
  obtain ⟨front, back, rfl, hback⟩ := h
  exact ⟨before ++ front, back, by simp, hback⟩

/-- Something solid behind a text is behind every piece that it holds. -/
theorem Holds.encloses (h : Holds text piece) {after : List Char} (hafter : Solid after) :
    Encloses (text ++ after) piece := by
  obtain ⟨front, back, rfl, hback⟩ := h
  refine ⟨front, back ++ after, by simp, ?_⟩
  rcases hback with rfl | hback
  · exact hafter
  · exact hback.append after

theorem Encloses.holds (h : Encloses text piece) : Holds text piece := by
  obtain ⟨before, after, htext, hafter⟩ := h
  exact ⟨before, after, htext, .inr hafter⟩

theorem Holds.append_right (h : Holds text piece) {after : List Char} (hafter : Solid after) :
    Holds (text ++ after) piece :=
  (h.encloses hafter).holds

theorem Encloses.append_left (h : Encloses text piece) (before : List Char) :
    Encloses (before ++ text) piece := by
  obtain ⟨front, back, rfl, hback⟩ := h
  exact ⟨before ++ front, back, by simp, hback⟩

/-- A text holds the pieces of each of the texts that it lists. -/
theorem holds_intercalate (h : Holds text piece) {texts : List (List Char)} (hmem : text ∈ texts) :
    Holds ([',', ' '].intercalate texts) piece := by
  induction texts with
  | nil => cases hmem
  | cons first rest ih =>
    cases rest with
    | nil =>
      rw [List.mem_singleton] at hmem
      rw [List.intercalate_singleton, ← hmem]
      exact h
    | cons second rest =>
      rw [List.intercalate_cons_cons, List.append_assoc]
      rcases List.mem_cons.1 hmem with rfl | hmem
      · exact h.append_right (solid_of_not_blank rfl _)
      · exact ((ih hmem).append_left _).append_left first

end

/-! ### Pages that hold a piece -/

/-- A page holds a piece in lines that stand `depth` steps to the right. -/
def PageHolds (entries : List Entry) (depth : Nat) (piece : List Char) : Prop :=
  ∃ text, Encloses text piece ∧ (flat text).map Entry.raise^[depth] <:+: entries

theorem pageHolds_flat {text piece : List Char} (h : Encloses text piece) (depth : Nat) :
    PageHolds ((flat text).map Entry.raise^[depth]) depth piece :=
  ⟨text, h, List.infix_rfl⟩

theorem PageHolds.append_left {entries : List Entry} {depth : Nat} {piece : List Char}
    (h : PageHolds entries depth piece) (before : List Entry) :
    PageHolds (before ++ entries) depth piece := by
  obtain ⟨text, htext, hinfix⟩ := h
  exact ⟨text, htext, hinfix.trans (List.suffix_append _ _).isInfix⟩

theorem PageHolds.append_right {entries : List Entry} {depth : Nat} {piece : List Char}
    (h : PageHolds entries depth piece) (after : List Entry) :
    PageHolds (entries ++ after) depth piece := by
  obtain ⟨text, htext, hinfix⟩ := h
  exact ⟨text, htext, hinfix.trans (List.prefix_append _ _).isInfix⟩

theorem raise_iterate (depth : Nat) (line : List Char) :
    Entry.raise^[depth] ⟨0, line⟩ = ⟨if line.all isBlank then 0 else depth, line⟩ := by
  induction depth with
  | zero => simp
  | succ depth ih =>
    rw [Function.iterate_succ_apply', ih, Entry.raise]
    split <;> simp

/-- Moving a page of flat lines again and again is moving its text once. -/
theorem page_raise_flat (width depth : Nat) (text : List Char) :
    page width ((flat text).map Entry.raise^[depth]) = indentChars (width * depth) text := by
  rw [page, flat, List.map_map, List.flatMap_map, indentChars, List.flatMap]
  congr 1
  refine List.map_congr_left fun line _ => ?_
  rw [Function.comp_apply, raise_iterate, Entry.text, indentLine]
  split
  · simp
  · rfl

/-- In the text of the page, the piece is found after its lines moved. -/
theorem PageHolds.moved_infix {entries : List Entry} {depth : Nat} {piece : List Char}
    (h : PageHolds entries depth piece) (width : Nat) :
    moved (width * depth) piece <:+: page width entries := by
  obtain ⟨text, ⟨before, after, rfl, hafter⟩, front, back, rfl⟩ := h
  rw [page_append, page_append, page_raise_flat]
  exact (Text.moved_infix _ before piece hafter).trans (List.infix_append _ _ _)

end PixelLowering.Text
