import PixelLowering.Names.Table
import PixelLowering.Proofs.Reading.Token
import PixelLowering.Target.Render

/-! The tokens of a target expression: one atom, one group, or a member of something that comes
    before it.

        n     "a b"              (a ? b : c)     (!a)     (a + b)     (a.getWidth())
        a.equals(b)              PixelOps.pack(r, g, b)               ((int)Math.round(…))

    Put end to end they spell the text of the expression, and if its literals and variables are
    what they should be, they are the only tokens that do. -/

namespace PixelLowering.Target

open PixelLowering.Library
open PixelLowering.Text

/-! ### Routines -/

/-- All routines of the library. -/
def allRoutines : List Routine :=
  [.write, .writePixel, .pack, .getRGB, .setRGB, .makeImage, .copyAndResize, .imagesEqual,
    .readImage, .imageImage, .imagePixel, .imageScalar, .pixelPixel, .pixelInt, .pixelTest,
    .round, .pow] ++
  [Source.Channel.red, .green, .blue].flatMap fun channel =>
    [.getChannel channel, .setChannel channel, .extractChannel channel]

theorem mem_allRoutines (routine : Routine) : routine ∈ allRoutines := by
  cases routine with
  | getChannel channel | setChannel channel | extractChannel channel =>
    cases channel <;> decide +kernel
  | _ => decide +kernel

/-! ### The tokens of an expression -/

/-- A word spelled by a string. -/
def wordToken (text : String) : Token := .word text.toList

/-- A literal is quoted or a single word. -/
def literalToken (text : String) : Token :=
  if text.toList.head? = some '"' then .quoted text.toList else .word text.toList

/-- An operator between two spaces. -/
def spaced (symbol : String) : List Token :=
  .mark ' ' :: (symbol.toList.map Token.mark ++ [.mark ' '])

/-- A list of arguments with commas between them. -/
def separated (arguments : List (List Token)) : List Token :=
  [.mark ',', .mark ' '].intercalate arguments

/-- A method of whatever comes before, and its arguments. -/
def member (method : String) (arguments : List (List Token)) : List Token :=
  [.mark '.', wordToken method, .group (separated arguments)]

/-- A routine of the library and its arguments. -/
def invocation (routine : Routine) (arguments : List (List Token)) : List Token :=
  wordToken routine.owner.name :: member routine.method arguments

/-- The words of a tag. -/
def tagWords : Tag → String × String × String
  | .plus => ("ImageOps", "OP", "PLUS")
  | .minus => ("ImageOps", "OP", "MINUS")
  | .times => ("ImageOps", "OP", "TIMES")
  | .div => ("ImageOps", "OP", "DIV")
  | .mod => ("ImageOps", "OP", "MOD")
  | .equals => ("ImageOps", "BoolOP", "EQUALS")

/-- The tokens of a tag: words with dots between them. -/
def tagTokens (tag : Tag) : List Token :=
  let (owner, group, name) := tagWords tag
  [wordToken owner, .mark '.', wordToken group, .mark '.', wordToken name]

mutual

/-- Tokens of an expression. -/
def Expr.tokens : Expr → List Token
  | .literal text => [literalToken text]
  | .bool true => [wordToken "true"]
  | .bool false => [wordToken "false"]
  | .var name => [wordToken name]
  | .cond test yes no =>
    [.group (test.tokens ++ (spaced "?" ++ (yes.tokens ++ (spaced ":" ++ no.tokens))))]
  | .unary op operand => [.group (op.symbol.toList.map Token.mark ++ operand.tokens)]
  | .measure axis image => [.group (image.tokens ++ member axis.getter [])]
  | .infixed op left right => [.group (left.tokens ++ (spaced op.symbol ++ right.tokens))]
  | .equals receiver argument => receiver.tokens ++ member "equals" [argument.tokens]
  | .power base exponent =>
    let raised := invocation .pow [base.tokens, exponent.tokens]
    [.group (.group [wordToken "int"] :: invocation .round [raised])]
  | .call routine tag? arguments =>
    invocation routine (tag?.toList.map tagTokens ++ Expr.tokensEach arguments)

/-- Tokens of several expressions. -/
def Expr.tokensEach : List Expr → List (List Token)
  | [] => []
  | e :: rest => e.tokens :: Expr.tokensEach rest

end

/-! ### The top of an expression -/

theorem Expr.tokens_ne_nil (t : Expr) : t.tokens ≠ [] := by
  cases t with
  | bool value => cases value <;> simp [Expr.tokens]
  | _ => simp [Expr.tokens, member, invocation]

/-- The only mark at the top of an expression is a dot. -/
theorem Expr.eq_dot_of_mark_mem : ∀ {t : Expr} {c : Char}, Token.mark c ∈ t.tokens → c = '.'
  | .literal text, c, h => by
    simp only [Expr.tokens, literalToken, List.mem_singleton] at h
    split at h <;> cases h
  | .bool true, c, h | .bool false, c, h => by simp [Expr.tokens, wordToken] at h
  | .var name, c, h => by simp [Expr.tokens, wordToken] at h
  | .cond .., c, h | .unary .., c, h | .measure .., c, h | .infixed .., c, h | .power .., c, h => by
    simp [Expr.tokens] at h
  | .equals receiver argument, c, h => by
    rw [Expr.tokens, List.mem_append] at h
    rcases h with h | h
    · exact eq_dot_of_mark_mem h
    · simpa [member, wordToken] using h
  | .call routine tag? arguments, c, h => by
    simpa [Expr.tokens, invocation, member, wordToken] using h

theorem Expr.mark_not_mem_tokens (t : Expr) {c : Char} (hc : c ≠ '.') : Token.mark c ∉ t.tokens :=
  fun h => hc (eq_dot_of_mark_mem h)

/-- No expression starts with a mark. -/
theorem Expr.kind_head_tokens : ∀ {t : Expr} {first : Token}, first ∈ t.tokens.head? →
    first.kind ≠ .mark
  | .literal text, first, h => by
    obtain rfl : literalToken text = first := by simpa [Expr.tokens] using h
    rw [literalToken]
    split <;> simp [Token.kind]
  | .bool true, first, h | .bool false, first, h => by
    simp only [Expr.tokens, List.head?_cons, Option.mem_some] at h
    simp [← h, wordToken, Token.kind]
  | .var name, first, h => by
    simp only [Expr.tokens, List.head?_cons, Option.mem_some] at h
    simp [← h, wordToken, Token.kind]
  | .cond .., first, h | .unary .., first, h | .measure .., first, h | .infixed .., first, h
  | .power .., first, h => by
    simp only [Expr.tokens, List.head?_cons, Option.mem_some] at h
    simp [← h, Token.kind]
  | .equals receiver argument, first, h => by
    obtain ⟨token, rest, hreceiver⟩ := List.exists_cons_of_ne_nil receiver.tokens_ne_nil
    rw [Expr.tokens, hreceiver] at h
    exact kind_head_tokens (by rw [hreceiver]; exact h)
  | .call routine tag? arguments, first, h => by
    simp only [Expr.tokens, invocation, List.head?_cons, Option.mem_some] at h
    simp [← h, wordToken, Token.kind]

/-! ### The tokens spell the text -/

section Spelling

open Token

@[simp] theorem spell_wordToken (text : String) : (wordToken text).spell = text.toList := by
  rw [wordToken, spell]

@[simp] theorem spell_literalToken (text : String) : (literalToken text).spell = text.toList := by
  rw [literalToken]
  split <;> rw [spell]

theorem spellAll_marks (symbol : List Char) : spellAll (symbol.map mark) = symbol := by
  induction symbol with
  | nil => simp [spellAll]
  | cons c rest ih => simp [spellAll, spell, ih]

@[simp] theorem spellAll_spaced (symbol : String) :
    spellAll (spaced symbol) = ' ' :: (symbol.toList ++ [' ']) := by
  simp [spaced, spellAll, spell, spellAll_marks]

theorem spellAll_separated (arguments : List (List Token)) :
    spellAll (separated arguments) = [',', ' '].intercalate (arguments.map spellAll) := by
  induction arguments with
  | nil => simp [separated, spellAll]
  | cons first rest ih =>
    cases rest with
    | nil => simp [separated]
    | cons second rest =>
      rw [separated] at ih
      simp only [separated, List.map_cons, List.intercalate_cons_cons, spellAll_append, ih]
      simp [spellAll, spell]

/-- A routine and its arguments spell the text of a call. -/
theorem spellAll_invocation (routine : Routine) (arguments : List (List Token))
    (texts : List String) (h : arguments.map spellAll = texts.map String.toList) :
    spellAll (invocation routine arguments) = (callText routine.name texts).toList := by
  simp [invocation, member, spellAll, spell, spellAll_separated, h, callText, Routine.name]

@[simp] theorem spellAll_tagTokens (tag : Tag) : spellAll (tagTokens tag) = tag.name.toList := by
  cases tag <;> decide +kernel

mutual

/-- The tokens of an expression put end to end are its text. -/
theorem spellAll_tokens : ∀ t : Expr, spellAll t.tokens = t.render.toList
  | .literal text => by simp [Expr.tokens, Expr.render, spellAll]
  | .bool true | .bool false => by simp [Expr.tokens, Expr.render, spellAll]
  | .var name => by simp [Expr.tokens, Expr.render, spellAll]
  | .cond test yes no => by
    simp [Expr.tokens, Expr.render, spellAll, spell, spellAll_tokens test, spellAll_tokens yes,
      spellAll_tokens no]
  | .unary op operand => by
    simp [Expr.tokens, Expr.render, spellAll, spell, spellAll_marks, spellAll_tokens operand]
  | .measure axis image => by
    simp [Expr.tokens, Expr.render, spellAll, spell, member, spellAll_separated,
      spellAll_tokens image]
  | .infixed op left right => by
    simp [Expr.tokens, Expr.render, spellAll, spell, spellAll_tokens left, spellAll_tokens right]
  | .equals receiver argument => by
    simp [Expr.tokens, Expr.render, spellAll, spell, member, spellAll_separated,
      spellAll_tokens receiver, spellAll_tokens argument]
  | .power base exponent => by
    have hpow := spellAll_invocation .pow [base.tokens, exponent.tokens]
      [base.render, exponent.render]
      (by simp [spellAll_tokens base, spellAll_tokens exponent])
    have hround := spellAll_invocation .round [invocation .pow [base.tokens, exponent.tokens]]
      [callText Routine.pow.name [base.render, exponent.render]] (by simp [hpow])
    simp [Expr.tokens, Expr.render, spellAll, spell, hround]
  | .call routine tag? arguments => by
    rw [Expr.tokens, Expr.render]
    refine spellAll_invocation _ _ _ ?_
    rw [List.map_append, List.map_append, spellAll_tokensEach arguments]
    simp [Function.comp_def]

theorem spellAll_tokensEach : ∀ es : List Expr,
    (Expr.tokensEach es).map spellAll = (Expr.renderEach es).map String.toList
  | [] => by simp [Expr.tokensEach]
  | e :: rest => by
    rw [Expr.tokensEach, Expr.renderEach, List.map_cons, List.map_cons, spellAll_tokens e,
      spellAll_tokensEach rest]

end

end Spelling

/-! ### Expressions whose words can be told apart -/

/-- A word that starts with a digit: a number, in decimal or hexadecimal. -/
def isNumeral : List Char → Bool
  | [] => false
  | c :: rest => c.isDigit && rest.all isIdentifierPart

mutual

/-- Expressions with numbers and strings for literals and with variables that are neither reserved
    words nor library classes. -/
def Expr.Readable : Expr → Prop
  | .literal text => isNumeral text.toList ∨ isStringLiteral text.toList
  | .bool _ => True
  | .var name => isIdentifier name ∧ name ∉ Names.forbidden
  | .cond test yes no => test.Readable ∧ yes.Readable ∧ no.Readable
  | .unary _ operand => operand.Readable
  | .measure _ image => image.Readable
  | .infixed _ left right => left.Readable ∧ right.Readable
  | .equals receiver argument => receiver.Readable ∧ argument.Readable
  | .power base exponent => base.Readable ∧ exponent.Readable
  | .call _ _ arguments => Expr.ReadableEach arguments

/-- Several such expressions. -/
def Expr.ReadableEach : List Expr → Prop
  | [] => True
  | e :: rest => e.Readable ∧ Expr.ReadableEach rest

end

/-! ### The tokens of a readable expression can be told apart -/

section Proper

open Token

theorem proper_wordToken {text : String} (h : isIdentifier text) : (wordToken text).Proper := by
  rw [wordToken, Proper]
  unfold isIdentifier at h
  split at h
  · cases h
  · next c rest htext =>
    rw [Bool.and_eq_true, List.all_eq_true] at h
    refine ⟨by simp [htext], ?_⟩
    intro d hd
    rw [htext] at hd
    rcases List.mem_cons.1 hd with rfl | hd
    · simp [isIdentifierPart, h.1]
    · exact h.2 d hd

theorem proper_literalToken {text : String}
    (h : isNumeral text.toList ∨ isStringLiteral text.toList) : (literalToken text).Proper := by
  rw [literalToken]
  rcases h with h | h
  · unfold isNumeral at h
    split at h
    · cases h
    · next c rest htext =>
      rw [Bool.and_eq_true, List.all_eq_true] at h
      have hquote : ¬(c :: rest).head? = some '"' := by
        rintro ⟨⟩
        simp at h
      rw [htext, if_neg hquote, Proper]
      refine ⟨by simp, ?_⟩
      intro d hd
      rcases List.mem_cons.1 hd with rfl | hd
      · simp [isIdentifierPart, h.1]
      · exact h.2 d hd
  · obtain ⟨body, htext, -⟩ := isStringLiteral_iff.1 h
    rw [if_pos (by simp [htext]), Proper]
    exact h

theorem properAll_single {token : Token} (h : token.Proper) : ProperAll [token] := by
  simp [ProperAll, h]

theorem properAll_mark {c : Char} {rest : List Token} (hc : c ∈ marks) (h : ProperAll rest) :
    ProperAll (.mark c :: rest) := by
  simp [ProperAll, Proper, kind, hc, h]

theorem properAll_marks {symbol : List Char} {rest : List Token}
    (hsymbol : symbol.all (· ∈ marks)) (h : ProperAll rest) :
    ProperAll (symbol.map mark ++ rest) := by
  induction symbol with
  | nil => exact h
  | cons c symbol ih =>
    rw [List.all_cons, Bool.and_eq_true, decide_eq_true_eq] at hsymbol
    exact properAll_mark hsymbol.1 (ih hsymbol.2)

/-- A mark never joins what is before it. -/
theorem properAll_append_mark {first rest : List Token} {c : Char} (h : ProperAll first)
    (hrest : ProperAll (.mark c :: rest)) : ProperAll (first ++ .mark c :: rest) := by
  refine properAll_append h hrest ?_
  rintro last hlast hword next ⟨⟩
  simp [kind]

theorem properAll_spaced {left right : List Token} {symbol : String}
    (hsymbol : symbol.toList.all (· ∈ marks)) (hleft : ProperAll left)
    (hright : ProperAll right) : ProperAll (left ++ (spaced symbol ++ right)) := by
  rw [spaced, List.cons_append, List.append_assoc]
  refine properAll_append_mark hleft (properAll_mark (by decide) ?_)
  exact properAll_marks hsymbol (properAll_mark (by decide) hright)

theorem properAll_separated {arguments : List (List Token)} (h : ∀ a ∈ arguments, ProperAll a) :
    ProperAll (separated arguments) := by
  induction arguments with
  | nil => simp [separated, ProperAll]
  | cons first rest ih =>
    cases rest with
    | nil => simpa [separated] using h
    | cons second rest =>
      have hrest := ih fun a ha => h a (List.mem_cons_of_mem _ ha)
      rw [separated] at hrest
      rw [separated, List.intercalate_cons_cons, List.append_assoc]
      exact properAll_append_mark (h first (by simp))
        (properAll_mark (by decide) (properAll_mark (by decide) hrest))

theorem properAll_member {method : String} {arguments : List (List Token)}
    (hmethod : isIdentifier method) (h : ∀ a ∈ arguments, ProperAll a) :
    ProperAll (member method arguments) := by
  have hgroup : (group (separated arguments)).Proper := by
    rw [Proper]
    exact properAll_separated h
  refine properAll_mark (by decide) ?_
  simp [ProperAll, proper_wordToken hmethod, hgroup, kind]

theorem properAll_invocation (routine : Routine) {arguments : List (List Token)}
    (h : ∀ a ∈ arguments, ProperAll a) : ProperAll (invocation routine arguments) := by
  have hroutines : ∀ routine ∈ allRoutines,
      isIdentifier routine.owner.name ∧ isIdentifier routine.method := by decide +kernel
  obtain ⟨howner, hmethod⟩ := hroutines routine (mem_allRoutines routine)
  exact properAll_append_mark (properAll_single (proper_wordToken howner))
    (properAll_member hmethod h)

theorem properAll_tagTokens (tag : Tag) : ProperAll (tagTokens tag) := by
  have hwords : isIdentifier (tagWords tag).1 ∧ isIdentifier (tagWords tag).2.1 ∧
      isIdentifier (tagWords tag).2.2 := by
    cases tag <;> decide +kernel
  obtain ⟨howner, hgroup, hname⟩ := hwords
  refine properAll_append_mark (properAll_single (proper_wordToken howner))
    (properAll_mark (by decide) ?_)
  exact properAll_append_mark (properAll_single (proper_wordToken hgroup))
    (properAll_mark (by decide) (properAll_single (proper_wordToken hname)))

mutual

theorem properAll_tokens : ∀ {t : Expr}, t.Readable → ProperAll t.tokens
  | .literal text, h => by
    rw [Expr.Readable] at h
    rw [Expr.tokens]
    exact properAll_single (proper_literalToken h)
  | .bool true, _ | .bool false, _ => by
    rw [Expr.tokens]
    exact properAll_single (proper_wordToken (by decide))
  | .var name, h => by
    rw [Expr.Readable] at h
    rw [Expr.tokens]
    exact properAll_single (proper_wordToken h.1)
  | .cond test yes no, h => by
    rw [Expr.Readable] at h
    rw [Expr.tokens]
    refine properAll_single ?_
    rw [Proper]
    exact properAll_spaced (by decide) (properAll_tokens h.1)
      (properAll_spaced (by decide) (properAll_tokens h.2.1) (properAll_tokens h.2.2))
  | .unary op operand, h => by
    rw [Expr.Readable] at h
    rw [Expr.tokens]
    refine properAll_single ?_
    rw [Proper]
    exact properAll_marks (by cases op <;> decide) (properAll_tokens h)
  | .measure axis image, h => by
    rw [Expr.Readable] at h
    rw [Expr.tokens]
    refine properAll_single ?_
    rw [Proper]
    exact properAll_append_mark (properAll_tokens h)
      (properAll_member (by cases axis <;> decide) (by simp))
  | .infixed op left right, h => by
    rw [Expr.Readable] at h
    rw [Expr.tokens]
    refine properAll_single ?_
    rw [Proper]
    exact properAll_spaced (by cases op <;> decide) (properAll_tokens h.1) (properAll_tokens h.2)
  | .equals receiver argument, h => by
    rw [Expr.Readable] at h
    rw [Expr.tokens]
    exact properAll_append_mark (properAll_tokens h.1)
      (properAll_member (by decide) (by simpa using properAll_tokens h.2))
  | .power base exponent, h => by
    rw [Expr.Readable] at h
    rw [Expr.tokens]
    refine properAll_single ?_
    have hpow : ProperAll (invocation .pow [base.tokens, exponent.tokens]) :=
      properAll_invocation _ (by simp [properAll_tokens h.1, properAll_tokens h.2])
    have hround := properAll_invocation .round
      (by simpa using hpow : ∀ a ∈ [invocation .pow [base.tokens, exponent.tokens]], ProperAll a)
    have hint : (group [wordToken "int"]).Proper := by
      rw [Proper]
      exact properAll_single (proper_wordToken (by decide))
    rw [Proper, ProperAll]
    exact ⟨hint, by simp [kind], hround⟩
  | .call routine tag? arguments, h => by
    rw [Expr.Readable] at h
    rw [Expr.tokens]
    refine properAll_invocation _ ?_
    intro a ha
    rcases List.mem_append.1 ha with ha | ha
    · obtain ⟨tag, -, rfl⟩ := List.mem_map.1 ha
      exact properAll_tagTokens tag
    · exact properAll_tokensEach h a ha

theorem properAll_tokensEach : ∀ {es : List Expr}, Expr.ReadableEach es →
    ∀ a ∈ Expr.tokensEach es, ProperAll a
  | [], _, a, ha => by simp [Expr.tokensEach] at ha
  | e :: rest, h, a, ha => by
    rw [Expr.ReadableEach] at h
    rw [Expr.tokensEach] at ha
    rcases List.mem_cons.1 ha with rfl | ha
    · exact properAll_tokens h.1
    · exact properAll_tokensEach h.2 a ha

end

end Proper

end PixelLowering.Target
