import PixelLowering.Proofs.Layout.Nesting
import PixelLowering.Proofs.Layout.Width

/-! The text of a compiled program is laid out well.

    Brackets are balanced, the braces of the method close at the very end and not before, and every
    line ends and starts as its braces ask for. The method is the only thing at depth zero:

        void f(int n) {  ⏎ lines of the body, balanced by themselves ⏎  }  ⏎
                      ▲ depth 1                                         ▲ depth 0

    Scanning the body never reaches below the depth that it starts at, so no brace of the body is
    the one that closes the method. -/

namespace PixelLowering.Text

/-- What is asked of a text with `width` spaces to a step. Depth counts braces outside of string
    literals. -/
structure WellLaidOut (width : Nat) (text : List Char) : Prop where
  /-- Parentheses and braces are properly nested, and all of them are closed at the end. -/
  nested : Scan.start.read text = some .start
  /-- The text ends in a brace that closes everything, and a newline. -/
  closed : ∃ init, text = init ++ ['\x7d', '\n'] ∧ Scan.start.read init = some ⟨.code, [.curly]⟩
  /-- The depth comes back to zero there and nowhere else. -/
  once : ∀ {before after : List Char} {c : Char} {inner outer : Scan}, text = before ++ c :: after →
    Scan.start.read before = some inner → 0 < inner.depth →
    Scan.start.read (before ++ [c]) = some outer → outer.depth = 0 → after = ['\n']
  /-- Every line ends in a semicolon or a brace. -/
  ends : ∀ line ∈ lines text, ∃ body last, line = body ++ [last, '\n'] ∧
    last ∈ [';', '\x7b', '\x7d']
  /-- Every line starts with as many steps as braces are open before it, less one if the first
      thing that it does is to close one. -/
  starts : ∀ {before after : List (List Char)} {line : List Char},
    lines text = before ++ line :: after → ∃ depth level first rest,
      Scan.start.read before.flatten = some ⟨.code, List.replicate depth .curly⟩ ∧
      line = List.replicate (width * level) ' ' ++ first :: rest ∧ first ≠ ' ' ∧
      level + (if first = '\x7d' then 1 else 0) = depth

/-! ### Depth -/

theorem Scan.depth_close {scan after : Scan} {bracket : Bracket}
    (h : scan.close bracket = some after) : after.depth ≤ scan.depth := by
  rw [close] at h
  split at h
  · cases h
  · next innermost outer hopened =>
    split at h
    · cases h
      rw [depth, depth, hopened]
      exact List.count_le_count_cons
    · cases h

/-- Only an opening brace adds to the depth. -/
theorem Scan.depth_next {scan after : Scan} {c : Char} (hc : c ≠ '\x7b')
    (h : scan.next c = some after) : after.depth ≤ scan.depth := by
  obtain ⟨mode, opened⟩ := scan
  cases mode with
  | code =>
    simp only [next] at h
    unfold nextInCode at h
    split at h
    · cases h
      exact Nat.le_refl _
    · cases h
      simp [depth]
    · exact absurd rfl hc
    · exact depth_close h
    · exact depth_close h
    · cases h
      exact Nat.le_refl _
  | quoted =>
    simp only [next, Option.some.injEq] at h
    subst h
    unfold nextInQuotes
    split <;> exact Nat.le_refl _
  | escaped =>
    cases h
    exact Nat.le_refl _

theorem Scan.depth_read {scan after : Scan} {text : List Char} (htext : '\x7b' ∉ text)
    (h : scan.read text = some after) : after.depth ≤ scan.depth := by
  induction text generalizing scan with
  | nil =>
    cases h
    exact Nat.le_refl _
  | cons c text ih =>
    rw [List.mem_cons, not_or] at htext
    rw [read_cons] at h
    obtain ⟨middle, hmiddle, hrest⟩ := Option.bind_eq_some_iff.1 h
    exact Nat.le_trans (ih htext.2 hrest) (depth_next (Ne.symm htext.1) hmiddle)

/-- Braces close once: before a block there are none, and inside of it the brackets are balanced,
    so that the depth of the block itself is only left with its own brace. -/
theorem closes_once {signature inside : List Char} (hsignature : Neutral signature)
    (hbrace : '\x7b' ∉ signature)
    (hinside : ∀ base, (Scan.mk .code base).read inside = some ⟨.code, base⟩)
    {before after : List Char} {c : Char} {inner outer : Scan}
    (htext : signature ++ '\x7b' :: (inside ++ ['\x7d', '\n']) = before ++ c :: after)
    (hinner : Scan.start.read before = some inner) (hpositive : 0 < inner.depth)
    (houter : Scan.start.read (before ++ [c]) = some outer) (hzero : outer.depth = 0) :
    after = ['\n'] := by
  have hopen : ∀ text, Scan.start.read (signature ++ '\x7b' :: text) =
      (Scan.mk .code [.curly]).read text := by
    intro text
    rw [Scan.read_append, Scan.start, hsignature.read]
    rfl
  -- the depth is zero as long as there was no brace
  have hsome : '\x7b' ∈ before := by
    by_contra hnone
    have hdepth : inner.depth ≤ 0 := Scan.depth_read hnone hinner
    omega
  rcases List.append_eq_append_iff.1 htext with ⟨p, rfl, hp⟩ | ⟨rest, rfl, -⟩
  · cases p with
    | nil => exact absurd (by simpa using hsome) hbrace
    | cons d p =>
      obtain ⟨rfl, htail⟩ := List.cons_eq_cons.1 hp
      rw [hopen] at hinner
      rw [List.append_assoc, List.cons_append, hopen] at houter
      rcases List.append_eq_append_iff.1 htail with ⟨q, rfl, hq⟩ | ⟨q, rfl, hq⟩
      · cases q with
        | nil => exact (List.cons_eq_cons.1 hq).2.symm
        | cons d q =>
          -- behind the last brace, where nothing is open
          obtain ⟨rfl, hq⟩ := List.cons_eq_cons.1 hq
          cases q with
          | nil =>
            rw [Scan.read_append, hinside] at hinner
            cases hinner
            cases hpositive
          | cons d q => simp at hq
      · cases q with
        | nil => exact (List.cons_eq_cons.1 hq).2
        | cons d q =>
          -- inside the block, whose own brackets come on top of the brace around it
          obtain ⟨rfl, -⟩ := List.cons_eq_cons.1 hq
          have hbalanced := hinside []
          rw [← List.singleton_append, ← List.append_assoc] at hbalanced
          obtain ⟨middle, hmiddle⟩ := Scan.read_some_of_append hbalanced
          have hframe := Scan.read_frame [.curly] hmiddle
          rw [List.nil_append, houter] at hframe
          cases hframe
          simp [Scan.depth] at hzero
  · exact absurd (List.mem_append_left rest hsome) hbrace

end PixelLowering.Text

namespace PixelLowering.Target

open PixelLowering.Text

/-! ### Methods -/

theorem brace_not_mem_identifier {name : String} (h : isIdentifier name) :
    '\x7b' ∉ name.toList := by
  intro hmem
  have hword := proper_wordToken h
  rw [wordToken, Token.Proper] at hword
  exact absurd (hword.2 _ hmem) (by decide)

theorem not_mem_intercalate {c : Char} {separator : List Char} (hseparator : c ∉ separator)
    {texts : List (List Char)} (h : ∀ text ∈ texts, c ∉ text) : c ∉ separator.intercalate texts := by
  induction texts with
  | nil => simp
  | cons first rest ih =>
    rw [List.forall_mem_cons] at h
    cases rest with
    | nil => simpa using h.1
    | cons second rest =>
      rw [List.intercalate_cons_cons, List.mem_append, List.mem_append]
      rintro ((hmem | hmem) | hmem)
      · exact h.1 hmem
      · exact hseparator hmem
      · exact ih h.2 hmem

theorem Method.Readable.brace_not_mem {method : Method} (h : method.Readable) :
    '\x7b' ∉ method.signature := by
  have hty := fun ty => brace_not_mem_identifier (isIdentifier_tyName ty)
  have hparams : ∀ text ∈ method.params.map (fun param => param.render.toList),
      '\x7b' ∉ text := by
    intro text htext
    obtain ⟨param, hparam, rfl⟩ := List.mem_map.1 htext
    simp [Param.render, hty, brace_not_mem_identifier (h.params param hparam)]
  simp [Method.signature, hty, brace_not_mem_identifier h.name,
    not_mem_intercalate (by decide : '\x7b' ∉ [',', ' ']) hparams]

/-- The lines of the body are balanced by themselves, wherever they stand. -/
theorem Method.Readable.read_body {method : Method} (h : method.Readable) (width : Nat)
    (base : List Bracket) :
    (Scan.mk .code base).read ('\n' :: page width (Stmt.layoutInside method.body)) =
      some ⟨.code, base⟩ := by
  have hread := (nests_flatMap h.body).read (fun entry => width * entry.raise.level) base
  have hpage : page width (Stmt.layoutInside method.body) =
      (method.body.flatMap (Stmt.layout [])).flatMap
        fun entry => List.replicate (width * entry.raise.level) ' ' ++ entry.line := by
    rw [layoutInside_eq, page, List.flatMap_map]
    simp only [Entry.text, Entry.line_raise]
  rw [Scan.read_cons, hpage]
  exact hread

/-- A readable method is laid out well. -/
theorem Method.Readable.wellLaidOut {method : Method} (h : method.Readable) (width : Nat) :
    WellLaidOut width (method.render width).toList := by
  have hpage := page_method width method
  have hlines : lines (method.render width).toList = method.layout.map (Entry.text width) := by
    rw [← hpage]
    exact (whole_method method).lines_page width
  have htext : (method.render width).toList = method.signature ++
      '\x7b' :: (('\n' :: page width (Stmt.layoutInside method.body)) ++ ['\x7d', '\n']) := by
    rw [← hpage, Method.layout, page_append, page_append, page_flat, page_flat, method.opening_eq]
    simp
  have hread : ∀ {before : List Entry} {depth : Nat}, Nests 0 before depth →
      Scan.start.read (page width before) = some ⟨.code, List.replicate depth .curly⟩ := by
    intro before depth hbefore
    have hbraces := hbefore.read (fun entry => width * entry.level) []
    rwa [braces, braces, List.append_nil, List.append_nil] at hbraces
  refine ⟨?_, ?_, ?_, ?_, ?_⟩
  · rw [← hpage]
    exact hread h.nests
  · refine ⟨method.signature ++ '\x7b' :: '\n' :: page width (Stmt.layoutInside method.body), ?_, ?_⟩
    · rw [htext]
      simp
    · rw [Scan.read_append, Scan.start, h.neutral.read]
      exact h.read_body width [.curly]
  · intro before after c inner outer hsplit
    rw [htext] at hsplit
    exact closes_once h.neutral h.brace_not_mem (h.read_body width) hsplit
  · intro line hline
    rw [hlines] at hline
    obtain ⟨entry, hentry, rfl⟩ := List.mem_map.1 hline
    obtain ⟨before, after, hsplit⟩ := List.append_of_mem hentry
    obtain ⟨depth, next, -, hfits⟩ := (hsplit ▸ h.nests : Nests 0 (before ++ entry :: after) 0).split
    obtain ⟨body, last, hends, hlast⟩ := hfits.ends
    exact ⟨_ ++ body, last, by rw [Entry.text, hends, List.append_assoc], hlast⟩
  · intro before after line hsplit
    rw [hlines] at hsplit
    obtain ⟨first, rest, hlayout, rfl, hrest⟩ := List.map_eq_append_iff.1 hsplit
    obtain ⟨entry, others, rfl, rfl, -⟩ := List.map_eq_cons_iff.1 hrest
    obtain ⟨depth, next, hfirst, hfits⟩ :=
      (hlayout ▸ h.nests : Nests 0 (first ++ entry :: others) 0).split
    obtain ⟨c, tail, hline, hc, hlevel⟩ := hfits.starts
    exact ⟨depth, entry.level, c, tail, hread hfirst, by rw [Entry.text, hline], hc, hlevel⟩

end PixelLowering.Target

namespace PixelLowering.Lower

open PixelLowering.Names
open PixelLowering.Source
open PixelLowering.Text

/-- Compiled programs are laid out well: for every program with identifiers for the names that it
    introduces, decimal digits for its numbers and quoted strings on one line, and at every width,
    if there is a text, then its brackets are nested and closed, the braces close at its end only,
    and its lines end and start as they should. -/
theorem compile_wellLaidOut (width : Nat) (program : Program) (h : program.wellSpelled)
    (text : String) (htext : (compile width program).1 = .ok text) :
    WellLaidOut width text.toList := by
  have hempty : Table.SameSupply {} {} := ⟨rfl, rfl⟩
  rw [Lexical.compile_eq Lexical.tableSupply_follows hempty width program fun _ _ => trivial,
    Lexical.compile] at htext
  cases hrun : (Lexical.lowerProgram Lexical.tableSupply program).run {} with
  | error reason =>
    rw [hrun] at htext
    cases htext
  | ok result =>
    rw [hrun] at htext
    cases htext
    have hreadable := Lexical.lowerProgram_readable program h {} result.1 result.2 hrun
    exact hreadable.wellLaidOut width

/-- A choice within a loop, and strings that hold brackets, quotes and braces. -/
def bracketsInStrings : Program :=
  let info (ty : Ty) : Info := ⟨ty, .unknown⟩
  let n : Expr := .ident (info .int) "n"
  let string (text : String) : Expr := .str (info .string) text
  let test : Expr := .binary (info .bool) .gt n (.num (info .int) "0")
  let choice : Stmt := .branch [⟨test, [.write (string "\"\x7d)\\\"(\"")]⟩]
  ⟨"f", .void, [⟨"n", .int, none, .unknown⟩], [.loop [⟨test, [choice]⟩], .block []], .unknown⟩

def bracketsInStringsText : String :=
  "void f(int n) \x7b\n" ++
  "  boolean continue$0 = true;\n" ++
  "  while (continue$0) \x7b\n" ++
  "    continue$0 = false;\n" ++
  "    if ((n > 0)) \x7b\n" ++
  "      continue$0 = true;\n" ++
  "      \x7b\n" ++
  "        if ((n > 0)) \x7b\n" ++
  "          ConsoleIO.write(\"\x7d)\\\"(\");\n" ++
  "        \x7d else \x7b\n" ++
  "        \x7d\n" ++
  "      \x7d\n" ++
  "    \x7d\n" ++
  "  \x7d\n" ++
  "  \x7b\n" ++
  "  \x7d\n" ++
  "\x7d\n"

theorem compile_wellLaidOut_bracketsInStrings :
    (compile 2 bracketsInStrings).1 = .ok bracketsInStringsText ∧
    WellLaidOut 2 bracketsInStringsText.toList := by
  have htext : (compile 2 bracketsInStrings).1 = .ok bracketsInStringsText := by
    rw [compile_eq_page]
    decide +kernel
  exact ⟨htext, compile_wellLaidOut 2 bracketsInStrings (by decide +kernel) _ htext⟩

end PixelLowering.Lower
