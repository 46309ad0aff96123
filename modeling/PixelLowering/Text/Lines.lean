/-! Lines of a text. A line keeps the newline that ends it, so the lines put end to end are the
    text again; only the last line may lack its newline, and an empty text has no lines.

        "ab\n\nc"   ─lines─▶   "ab\n", "\n", "c" -/

namespace PixelLowering.Text

/-- Puts a character in front of a text that is already cut into lines. -/
def attach (c : Char) : List (List Char) → List (List Char)
  | [] => [[c]]
  | line :: rest => if c = '\n' then [c] :: line :: rest else (c :: line) :: rest

/-- The lines of a text, each with its newline. -/
def lines (text : List Char) : List (List Char) := text.foldr attach []

/-- Number of bytes of a text in UTF-8. -/
def byteLength (text : List Char) : Nat := text.foldr (fun c n => c.utf8Size + n) 0

@[simp] theorem lines_nil : lines [] = [] := rfl

@[simp] theorem lines_cons (c : Char) (text : List Char) :
    lines (c :: text) = attach c (lines text) := rfl

theorem flatten_attach (c : Char) (ls : List (List Char)) :
    (attach c ls).flatten = c :: ls.flatten := by
  cases ls with
  | nil => rfl
  | cons l rest => by_cases h : c = '\n' <;> simp [attach, h]

/-- Nothing is lost: the lines put end to end are the text. -/
@[simp] theorem flatten_lines (text : List Char) : (lines text).flatten = text := by
  induction text with
  | nil => rfl
  | cons c rest ih => rw [lines_cons, flatten_attach, ih]

@[simp] theorem byteLength_nil : byteLength [] = 0 := rfl

@[simp] theorem byteLength_cons (c : Char) (text : List Char) :
    byteLength (c :: text) = c.utf8Size + byteLength text := rfl

@[simp] theorem byteLength_append (s t : List Char) :
    byteLength (s ++ t) = byteLength s + byteLength t := by
  induction s with
  | nil => simp
  | cons c rest ih => rw [List.cons_append, byteLength_cons, byteLength_cons, ih, Nat.add_assoc]

end PixelLowering.Text
