import PixelLowering.Proofs.Reading.Token

/-! A scanner for brackets: it goes over a text from left to right, skips string literals, and keeps
    the parentheses and braces that are open.

                            "                                   ( or a brace: one more is open
               ┌──────────────────────────▶┐
             code                        quoted ──── \ ───▶ escaped
               └◀──────────────────────────┘   ◀── any ──────┘
                            "

    It stops at a bracket that closes nothing or the wrong thing, so a text that it gets through is
    properly nested, and if nothing is open at the end, everything was closed. -/

namespace PixelLowering.Text

/-- Brackets that nest. -/
inductive Bracket where
  | round
  | curly
  deriving Repr, DecidableEq

/-- Where the scanner is: between string literals, in one, or behind a backslash in one. -/
inductive Mode where
  | code
  | quoted
  | escaped
  deriving Repr, DecidableEq

/-- State of the scanner: where it is, and the brackets that are open, the innermost first. -/
structure Scan where
  mode : Mode
  opened : List Bracket
  deriving Repr, DecidableEq

namespace Scan

/-- The scanner before a text. -/
def start : Scan := ⟨.code, []⟩

/-- Number of braces that are open. -/
def depth (scan : Scan) : Nat := scan.opened.count .curly

/-- Closes the innermost bracket, which must be the one that is asked for. -/
def close (scan : Scan) (bracket : Bracket) : Option Scan :=
  match scan.opened with
  | [] => none
  | innermost :: outer => if innermost = bracket then some { scan with opened := outer } else none

/-- Goes over one character between string literals. -/
def nextInCode (scan : Scan) : Char → Option Scan
  | '"' => some { scan with mode := .quoted }
  | '(' => some { scan with opened := .round :: scan.opened }
  | '\x7b' => some { scan with opened := .curly :: scan.opened }
  | ')' => scan.close .round
  | '\x7d' => scan.close .curly
  | _ => some scan

/-- Goes over one character of a string literal. -/
def nextInQuotes (scan : Scan) : Char → Scan
  | '"' => { scan with mode := .code }
  | '\\' => { scan with mode := .escaped }
  | _ => scan

/-- Goes over one character. -/
def next (scan : Scan) (c : Char) : Option Scan :=
  match scan.mode with
  | .code => scan.nextInCode c
  | .quoted => some (scan.nextInQuotes c)
  | .escaped => some { scan with mode := .quoted }

/-- Goes over a text. -/
def read (scan : Scan) (text : List Char) : Option Scan := text.foldlM next scan

@[simp] theorem read_nil (scan : Scan) : scan.read [] = some scan := rfl

@[simp] theorem read_cons (scan : Scan) (c : Char) (text : List Char) :
    scan.read (c :: text) = (scan.next c).bind fun after => after.read text := by
  rw [read, List.foldlM_cons]
  rfl

@[simp] theorem read_append (scan : Scan) (first second : List Char) :
    scan.read (first ++ second) = (scan.read first).bind fun after => after.read second := by
  rw [read, List.foldlM_append]
  rfl

/-- A text that can be read to its end can be read up to any point. -/
theorem read_some_of_append {scan after : Scan} {first second : List Char}
    (h : scan.read (first ++ second) = some after) : ∃ middle, scan.read first = some middle := by
  rw [read_append] at h
  obtain ⟨middle, hmiddle, -⟩ := Option.bind_eq_some_iff.1 h
  exact ⟨middle, hmiddle⟩

/-! ### Brackets further out play no part -/

theorem close_frame {scan after : Scan} {bracket : Bracket} (base : List Bracket)
    (h : scan.close bracket = some after) :
    (Scan.mk scan.mode (scan.opened ++ base)).close bracket =
      some ⟨after.mode, after.opened ++ base⟩ := by
  rw [close] at h ⊢
  cases hopened : scan.opened with
  | nil =>
    rw [hopened] at h
    cases h
  | cons innermost outer =>
    rw [hopened] at h
    simp only [List.cons_append] at h ⊢
    split at h
    · next heq =>
      cases h
      rw [if_pos heq]
    · cases h

theorem next_frame {scan after : Scan} {c : Char} (base : List Bracket)
    (h : scan.next c = some after) :
    (Scan.mk scan.mode (scan.opened ++ base)).next c = some ⟨after.mode, after.opened ++ base⟩ := by
  obtain ⟨mode, opened⟩ := scan
  cases mode with
  | code =>
    simp only [next] at h ⊢
    unfold nextInCode at h ⊢
    split at h
    · cases h; rfl
    · cases h; rfl
    · cases h; rfl
    · exact close_frame base h
    · exact close_frame base h
    · cases h; rfl
  | quoted =>
    simp only [next, Option.some.injEq] at h ⊢
    subst h
    unfold nextInQuotes
    split <;> rfl
  | escaped =>
    cases h
    rfl

/-- What is read with nothing open is read the same way with other brackets open around it. -/
theorem read_frame {scan after : Scan} {text : List Char} (base : List Bracket)
    (h : scan.read text = some after) :
    (Scan.mk scan.mode (scan.opened ++ base)).read text = some ⟨after.mode, after.opened ++ base⟩ := by
  induction text generalizing scan with
  | nil =>
    cases h
    rfl
  | cons c text ih =>
    rw [read_cons] at h ⊢
    obtain ⟨middle, hmiddle, hrest⟩ := Option.bind_eq_some_iff.1 h
    rw [next_frame base hmiddle]
    exact ih hrest

end Scan

/-! ### Texts that leave nothing open -/

/-- Characters that mean something to the scanner or end a line. -/
def special : List Char := ['"', '(', ')', '\x7b', '\x7d', '\n']

/-- A text on one line, between string literals, that opens and closes its own brackets. -/
structure Neutral (text : List Char) : Prop where
  oneLine : '\n' ∉ text
  read : ∀ opened, (Scan.mk .code opened).read text = some ⟨.code, opened⟩

theorem neutral_nil : Neutral [] := ⟨by simp, fun _ => rfl⟩

theorem Neutral.append {first second : List Char} (h : Neutral first) (h' : Neutral second) :
    Neutral (first ++ second) := by
  refine ⟨by simp [h.oneLine, h'.oneLine], ?_⟩
  intro opened
  rw [Scan.read_append, h.read, Option.bind_some, h'.read]

theorem next_plain {c : Char} (h : c ∉ special) (opened : List Bracket) :
    (Scan.mk .code opened).next c = some ⟨.code, opened⟩ := by
  simp only [special, List.mem_cons, List.not_mem_nil, or_false, not_or] at h
  simp only [Scan.next]
  unfold Scan.nextInCode
  split <;> simp_all

theorem neutral_plain {text : List Char} (h : text.all (· ∉ special)) : Neutral text := by
  induction text with
  | nil => exact neutral_nil
  | cons c text ih =>
    rw [List.all_cons, Bool.and_eq_true, decide_eq_true_eq] at h
    have hrest := ih h.2
    refine ⟨?_, ?_⟩
    · have hc : c ≠ '\n' := fun heq => h.1 (by simp [heq, special])
      simp [hrest.oneLine, hc.symm]
    · intro opened
      rw [Scan.read_cons, next_plain h.1, Option.bind_some, hrest.read]

theorem Neutral.parens {text : List Char} (h : Neutral text) : Neutral ('(' :: (text ++ [')'])) := by
  refine ⟨by simp [h.oneLine], ?_⟩
  intro opened
  have hopen : (Scan.mk .code opened).next '(' = some ⟨.code, .round :: opened⟩ := rfl
  have hclose : (Scan.mk .code (.round :: opened)).next ')' = some ⟨.code, opened⟩ := rfl
  simp [hopen, h.read, hclose]

theorem next_quoted {c : Char} (hquote : c ≠ '"') (hescape : c ≠ '\\') (opened : List Bracket) :
    (Scan.mk .quoted opened).next c = some ⟨.quoted, opened⟩ := by
  simp only [Scan.next]
  unfold Scan.nextInQuotes
  split <;> simp_all

/-- The rest of a string literal, behind its first quote. -/
theorem read_stringBody {body : List Char} (h : isStringBody body) (opened : List Bracket) :
    '\n' ∉ body ∧ (Scan.mk .quoted opened).read body = some ⟨.code, opened⟩ := by
  fun_induction isStringBody body with
  | case1 => cases h
  | case2 rest =>
    obtain rfl : rest = [] := by simpa using h
    exact ⟨by simp, rfl⟩
  | case3 c rest ih =>
    rw [Bool.and_eq_true, bne_iff_ne] at h
    obtain ⟨hline, hread⟩ := ih h.2
    have hescape : (Scan.mk .quoted opened).next '\\' = some ⟨.escaped, opened⟩ := rfl
    have hback : (Scan.mk .escaped opened).next c = some ⟨.quoted, opened⟩ := rfl
    refine ⟨by simp [hline, h.1.symm], ?_⟩
    simp [hescape, hback, hread]
  | case4 c rest hquote hescape ih =>
    simp only [Bool.and_eq_true, bne_iff_ne] at h
    obtain ⟨hline, hread⟩ := ih h.2
    refine ⟨by simp [hline, h.1.2.symm], ?_⟩
    simp [next_quoted hquote h.1.1, hread]

theorem neutral_stringLiteral {text : List Char} (h : isStringLiteral text) : Neutral text := by
  obtain ⟨body, rfl, hbody⟩ := isStringLiteral_iff.1 h
  refine ⟨by simp [(read_stringBody hbody []).1], ?_⟩
  intro opened
  have hquote : (Scan.mk .code opened).next '"' = some ⟨.quoted, opened⟩ := rfl
  simp [hquote, (read_stringBody hbody opened).2]

theorem not_special_of_isIdentifierPart {c : Char} (h : Target.isIdentifierPart c) :
    c ∉ special := by
  have hspecial : special.all (fun d => !Target.isIdentifierPart d) = true := by decide
  intro hc
  simpa [h] using List.all_eq_true.1 hspecial c hc

namespace Token

mutual

/-- Every token opens and closes its own brackets. -/
theorem Proper.neutral : ∀ {token : Token}, token.Proper → Neutral token.spell
  | .word text, h => by
    rw [Proper] at h
    rw [spell]
    refine neutral_plain (List.all_eq_true.2 fun c hc => ?_)
    exact decide_eq_true (not_special_of_isIdentifierPart (h.2 c hc))
  | .quoted text, h => by
    rw [Proper] at h
    rw [spell]
    exact neutral_stringLiteral h
  | .mark c, h => by
    have hmarks : marks.all (· ∉ special) = true := by decide
    have hmark := List.all_eq_true.1 hmarks c (by rwa [Proper] at h)
    rw [spell]
    exact neutral_plain (by simpa using hmark)
  | .group inside, h => by
    rw [Proper] at h
    rw [spell]
    exact (ProperAll.neutral h).parens

/-- So do tokens in a row. -/
theorem ProperAll.neutral : ∀ {tokens : List Token}, ProperAll tokens → Neutral (spellAll tokens)
  | [], _ => by
    rw [spellAll]
    exact neutral_nil
  | token :: rest, h => by
    rw [ProperAll] at h
    rw [spellAll]
    exact h.1.neutral.append h.2.2.neutral

end

end Token

end PixelLowering.Text
