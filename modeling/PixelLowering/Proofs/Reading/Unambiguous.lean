import Mathlib.Data.List.Nodup
import PixelLowering.Proofs.Reading.Expression

/-! Every readable expression can be read back from its text.

    Operators stand between spaces and arguments between commas, and neither is found at the top
    of an operand, where the only mark is a dot. So the first space or comma in a group ends the
    operand before it:

        ( a.equals(b)  ␣ + ␣  PixelOps.pack(r, g, b) )
                       ▲ the first space of the group

    That leaves the words: a variable is none of `true` and `false`, and does not start with a
    digit. -/

namespace PixelLowering.Target

open PixelLowering.Library
open PixelLowering.Text

/-! ### Spellings are distinct -/

/-- No two routines have the same name, not even in different classes. -/
theorem method_injective : Function.Injective Routine.method := by
  have hnodup : (allRoutines.map Routine.method).Nodup := by decide +kernel
  intro routine routine' h
  exact List.inj_on_of_nodup_map hnodup (mem_allRoutines routine) (mem_allRoutines routine') h

/-- No routine goes by the name of the method that compares strings. -/
theorem method_ne_equals (routine : Routine) : routine.method ≠ "equals" := by
  have hall : ∀ routine ∈ allRoutines, routine.method ≠ "equals" := by decide +kernel
  exact hall routine (mem_allRoutines routine)

theorem UnaryOp.symbol_injective : Function.Injective UnaryOp.symbol := by
  intro op op' h
  cases op <;> cases op' <;> first | rfl | exact absurd h (by decide)

theorem InfixOp.symbol_injective : Function.Injective InfixOp.symbol := by
  intro op op' h
  cases op <;> cases op' <;> first | rfl | exact absurd h (by decide)

theorem Axis.getter_injective : Function.Injective Axis.getter := by
  intro axis axis' h
  cases axis <;> cases axis' <;> first | rfl | exact absurd h (by decide)

/-! ### The form of an expression shows in its tokens -/

/-- The forms of an expression. -/
inductive Form where
  | literal
  | bool
  | var
  | cond
  | unary
  | measure
  | infixed
  | equals
  | power
  | call
  deriving Repr, DecidableEq

/-- The form of an expression. -/
def Expr.form : Expr → Form
  | .literal _ => .literal
  | .bool _ => .bool
  | .var _ => .var
  | .cond .. => .cond
  | .unary .. => .unary
  | .measure .. => .measure
  | .infixed .. => .infixed
  | .equals .. => .equals
  | .power .. => .power
  | .call .. => .call

/-- Whether a token is a certain mark. -/
def isMark (c : Char) : Token → Bool
  | .mark d => d == c
  | _ => false

/-- What a single word is. -/
def wordForm (text : List Char) : Form :=
  if text = "true".toList ∨ text = "false".toList then .bool
  else if isNumeral text then .literal
  else .var

/-- What a group is: an operator in front of everything, one between spaces, or a method without
    arguments at the end. -/
def groupForm (inside : List Token) : Form :=
  if inside.head?.any (·.kind = .mark) then .unary
  else if inside.any (isMark '?') then .cond
  else if inside.any (isMark ' ') then .infixed
  else
    match inside.getLast? with
    | some (.group []) => .measure
    | _ => .power

/-- What tokens in a row are, by the method that stands before the arguments at their end. The
    tokens come last first. -/
def memberForm : List Token → Form
  | _ :: .word method :: _ => if method = "equals".toList then .equals else .call
  | _ => .call

/-- The form of the expression that has these tokens. -/
def formOf : List Token → Form
  | [.word text] => wordForm text
  | [.quoted _] => .literal
  | [.group inside] => groupForm inside
  | tokens => memberForm tokens.reverse

/-- A group that starts with an expression does not start with an operator. -/
theorem head_mark_false (t : Expr) (rest : List Token) :
    (t.tokens ++ rest).head?.any (·.kind = .mark) = false := by
  rw [List.head?_append_of_ne_nil _ t.tokens_ne_nil]
  cases h : t.tokens.head? with
  | none => rfl
  | some first => simpa using Expr.kind_head_tokens (h ▸ rfl : first ∈ t.tokens.head?)

theorem any_isMark_tokens (t : Expr) {c : Char} (hc : c ≠ '.') :
    t.tokens.any (isMark c) = false := by
  rw [List.any_eq_false]
  intro token htoken hmark
  cases token with
  | mark d =>
    obtain rfl : d = c := by simpa [isMark] using hmark
    exact t.mark_not_mem_tokens hc htoken
  | word _ | quoted _ | group _ => cases hmark

/-- No identifier starts with a digit. -/
theorem isDigit_false_of_isIdentifierStart {c : Char} (h : isIdentifierStart c) :
    c.isDigit = false := by
  have hdigit : c.isDigit → c ≤ '9' := fun h => of_decide_eq_true (Bool.and_eq_true_iff.1 h).2
  have hupper : c.isUpper → 'A' ≤ c := fun h => (of_decide_eq_true h).1
  have hlower : c.isLower → 'a' ≤ c := fun h => of_decide_eq_true (Bool.and_eq_true_iff.1 h).1
  simp only [isIdentifierStart, Bool.or_eq_true, beq_iff_eq] at h
  rw [← Bool.not_eq_true]
  intro hc
  rcases h with (h | rfl) | rfl
  · rcases Bool.or_eq_true_iff.1 h with h | h
    · exact absurd (Char.le_trans (hupper h) (hdigit hc)) (by decide)
    · exact absurd (Char.le_trans (hlower h) (hdigit hc)) (by decide)
  · exact absurd hc (by decide)
  · exact absurd hc (by decide)

theorem isNumeral_false_of_isIdentifier {name : String} (h : isIdentifier name) :
    isNumeral name.toList = false := by
  unfold isIdentifier at h
  split at h
  · cases h
  · next c rest hname =>
    rw [Bool.and_eq_true] at h
    simp [hname, isNumeral, isDigit_false_of_isIdentifierStart h.1]

theorem wordForm_var {name : String} (h : isIdentifier name) (hallowed : name ∉ Names.forbidden) :
    wordForm name.toList = .var := by
  have hforbidden : ∀ text ∈ ["true", "false"], text ∈ Names.forbidden := by decide +kernel
  have hne : ∀ text ∈ ["true", "false"], name.toList ≠ text.toList := by
    intro text htext heq
    rw [String.toList_inj.1 heq] at hallowed
    exact hallowed (hforbidden text htext)
  rw [wordForm, if_neg (not_or.2 ⟨hne "true" (by simp), hne "false" (by simp)⟩),
    isNumeral_false_of_isIdentifier h]
  rfl

theorem wordForm_numeral {text : List Char} (h : isNumeral text) : wordForm text = .literal := by
  have hne : ¬(text = "true".toList ∨ text = "false".toList) := by
    rintro (rfl | rfl) <;> exact absurd h (by decide)
  rw [wordForm, if_neg hne, if_pos h]

theorem formOf_literalToken {text : String}
    (h : isNumeral text.toList ∨ isStringLiteral text.toList) :
    formOf [literalToken text] = .literal := by
  rw [literalToken]
  split
  · rfl
  · next hquote =>
    rcases h with h | h
    · exact wordForm_numeral h
    · obtain ⟨body, htext, -⟩ := isStringLiteral_iff.1 h
      exact absurd (by rw [htext, List.head?_cons]) hquote

/-- The form of a readable expression can be told from its tokens. -/
theorem formOf_tokens {t : Expr} (h : t.Readable) : formOf t.tokens = t.form := by
  cases t with
  | literal text =>
    rw [Expr.Readable] at h
    rw [Expr.tokens]
    exact formOf_literalToken h
  | bool value => cases value <;> decide +kernel
  | var name =>
    rw [Expr.Readable] at h
    rw [Expr.tokens]
    exact wordForm_var h.1 h.2
  | cond test yes no =>
    have hquestion : (test.tokens ++ (spaced "?" ++ (yes.tokens ++ (spaced ":" ++ no.tokens)))).any
        (isMark '?') = true := by
      simp [spaced, isMark]
    rw [Expr.tokens, formOf, groupForm, head_mark_false, hquestion]
    rfl
  | unary op operand => cases op <;> rfl
  | measure axis image =>
    have hmarks : ∀ c, c ≠ '.' → (image.tokens ++ member axis.getter []).any (isMark c) = false := by
      intro c hc
      rw [List.any_append, any_isMark_tokens image hc]
      simp [member, wordToken, isMark, hc.symm]
    have hlast : (image.tokens ++ member axis.getter []).getLast? = some (.group []) := by
      simp [member, separated]
    rw [Expr.tokens, formOf, groupForm, head_mark_false, hmarks '?' (by decide),
      hmarks ' ' (by decide), hlast]
    rfl
  | infixed op left right =>
    have hquestion : (left.tokens ++ (spaced op.symbol ++ right.tokens)).any (isMark '?') =
        false := by
      rw [List.any_append, List.any_append, any_isMark_tokens left (by decide),
        any_isMark_tokens right (by decide)]
      cases op <;> rfl
    have hspace : (left.tokens ++ (spaced op.symbol ++ right.tokens)).any (isMark ' ') = true := by
      simp [spaced, isMark]
    rw [Expr.tokens, formOf, groupForm, head_mark_false, hquestion, hspace]
    rfl
  | equals receiver argument =>
    have hform : formOf (receiver.tokens ++ member "equals" [argument.tokens]) =
        memberForm (receiver.tokens ++ member "equals" [argument.tokens]).reverse := by
      obtain ⟨first, rest, hreceiver⟩ := List.exists_cons_of_ne_nil receiver.tokens_ne_nil
      rw [hreceiver]
      cases rest <;> cases first <;> rfl
    rw [Expr.tokens, hform, List.reverse_append]
    rfl
  | power base exponent =>
    rw [Expr.tokens, formOf]
    rfl
  | call routine tag? arguments =>
    have hmethod : routine.method.toList ≠ "equals".toList := fun heq =>
      method_ne_equals routine (String.toList_inj.1 heq)
    rw [Expr.tokens]
    exact if_neg hmethod

theorem form_eq_of_tokens_eq {t t' : Expr} (h : t.Readable) (h' : t'.Readable)
    (heq : t.tokens = t'.tokens) : t.form = t'.form := by
  rw [← formOf_tokens h, ← formOf_tokens h', heq]

/-! ### The tokens determine the expression -/

/-- A row of tokens splits at a mark in one way only, where the mark is not found before. -/
theorem append_mark_inj {first first' rest rest' : List Token} {c : Char}
    (h : Token.mark c ∉ first) (h' : Token.mark c ∉ first')
    (heq : first ++ .mark c :: rest = first' ++ .mark c :: rest') : first = first' ∧ rest = rest' := by
  induction first generalizing first' with
  | nil =>
    cases first' with
    | nil => exact ⟨rfl, (List.cons_eq_cons.1 heq).2⟩
    | cons token first' =>
      obtain ⟨rfl, -⟩ := List.cons_eq_cons.1 heq
      exact absurd List.mem_cons_self h'
  | cons token first ih =>
    cases first' with
    | nil =>
      obtain ⟨rfl, -⟩ := List.cons_eq_cons.1 heq
      exact absurd List.mem_cons_self h
    | cons token' first' =>
      obtain ⟨rfl, htail⟩ := List.cons_eq_cons.1 heq
      obtain ⟨rfl, rfl⟩ := ih (fun hmem => h (List.mem_cons_of_mem _ hmem))
        (fun hmem => h' (List.mem_cons_of_mem _ hmem)) htail
      exact ⟨rfl, rfl⟩

/-- The operator after an operand is known, and so are the operand and what follows. -/
theorem spaced_inj {t t' : Expr} {symbol symbol' : String} {rest rest' : List Token}
    (hsymbol : ' ' ∉ symbol.toList) (hsymbol' : ' ' ∉ symbol'.toList)
    (heq : t.tokens ++ (spaced symbol ++ rest) = t'.tokens ++ (spaced symbol' ++ rest')) :
    t.tokens = t'.tokens ∧ symbol = symbol' ∧ rest = rest' := by
  have hmark : Function.Injective Token.mark := fun c d h => Token.mark.inj h
  simp only [spaced, List.cons_append, List.append_assoc] at heq
  obtain ⟨htokens, hrest⟩ := append_mark_inj (t.mark_not_mem_tokens (by decide))
    (t'.mark_not_mem_tokens (by decide)) heq
  obtain ⟨hmarks, hrest⟩ := append_mark_inj (by simpa using hsymbol) (by simpa using hsymbol') hrest
  exact ⟨htokens, String.toList_inj.1 (hmark.list_map hmarks), hrest⟩

/-- Arguments without commas of their own are known from the list of arguments. -/
theorem separated_inj : ∀ {arguments arguments' : List (List Token)},
    (∀ a ∈ arguments, a ≠ [] ∧ Token.mark ',' ∉ a) →
    (∀ a ∈ arguments', a ≠ [] ∧ Token.mark ',' ∉ a) →
    separated arguments = separated arguments' → arguments = arguments'
  | [], [], _, _, _ => rfl
  | [], [a], _, h', heq => absurd (by simpa [separated] using heq.symm) (h' a (by simp)).1
  | [], a :: b :: rest, _, h', heq => by simp [separated, List.intercalate_cons_cons] at heq
  | [a], [], h, _, heq => absurd (by simpa [separated] using heq) (h a (by simp)).1
  | a :: b :: rest, [], _, _, heq => by simp [separated, List.intercalate_cons_cons] at heq
  | [a], [a'], _, _, heq => by simpa [separated] using heq
  | [a], a' :: b' :: rest', h, _, heq => by
    have hcomma : Token.mark ',' ∈ a := by
      rw [separated, separated, List.intercalate_singleton, List.intercalate_cons_cons] at heq
      simp [heq]
    exact absurd hcomma (h a (by simp)).2
  | a :: b :: rest, [a'], _, h', heq => by
    have hcomma : Token.mark ',' ∈ a' := by
      rw [separated, separated, List.intercalate_singleton, List.intercalate_cons_cons] at heq
      simp [← heq]
    exact absurd hcomma (h' a' (by simp)).2
  | a :: b :: rest, a' :: b' :: rest', h, h', heq => by
    simp only [separated, List.intercalate_cons_cons, List.append_assoc] at heq
    obtain ⟨rfl, htail⟩ := append_mark_inj (h a (by simp)).2 (h' a' (by simp)).2 heq
    have hrest : b :: rest = b' :: rest' :=
      separated_inj (fun c hc => h c (List.mem_cons_of_mem _ hc))
        (fun c hc => h' c (List.mem_cons_of_mem _ hc)) (List.cons_eq_cons.1 htail).2
    rw [hrest]

theorem tagTokens_injective : Function.Injective tagTokens := by
  intro tag tag' h
  cases tag <;> cases tag' <;> first | rfl | simp [tagTokens, tagWords, wordToken] at h

/-- A tag is no expression: it ends in a word that is not its first token. -/
theorem tagTokens_ne_tokens (tag : Tag) : ∀ t : Expr, tagTokens tag ≠ t.tokens
  | .bool true | .bool false => by simp [tagTokens, Expr.tokens]
  | .literal _ | .var _ | .cond .. | .unary .. | .measure .. | .infixed .. | .power .. => by
    simp [tagTokens, Expr.tokens]
  | .equals .. | .call .. => by
    intro h
    have hlast := congrArg List.getLast? h
    simp [tagTokens, Expr.tokens, invocation, member, wordToken] at hlast

theorem Expr.tokensEach_eq_map (es : List Expr) : Expr.tokensEach es = es.map Expr.tokens := by
  induction es with
  | nil => simp [Expr.tokensEach]
  | cons e rest ih => simp [Expr.tokensEach, ih]

/-- No argument of a call is empty or has a comma of its own. -/
theorem arguments_apart (tag? : Option Tag) (es : List Expr) :
    ∀ a ∈ tag?.toList.map tagTokens ++ Expr.tokensEach es, a ≠ [] ∧ Token.mark ',' ∉ a := by
  intro a ha
  rw [Expr.tokensEach_eq_map] at ha
  rcases List.mem_append.1 ha with ha | ha
  · obtain ⟨tag, -, rfl⟩ := List.mem_map.1 ha
    simp [tagTokens, wordToken]
  · obtain ⟨e, -, rfl⟩ := List.mem_map.1 ha
    exact ⟨e.tokens_ne_nil, e.mark_not_mem_tokens (by decide)⟩

theorem invocation_inj {routine routine' : Routine} {arguments arguments' : List (List Token)}
    (heq : invocation routine arguments = invocation routine' arguments') :
    routine = routine' ∧ separated arguments = separated arguments' := by
  simp only [invocation, member, wordToken, List.cons.injEq, Token.word.injEq, Token.group.injEq,
    String.toList_inj] at heq
  exact ⟨method_injective heq.2.2.1, heq.2.2.2.1⟩

/-- A tag and the arguments after it are known. -/
theorem tagged_inj {tag? tag?' : Option Tag} {es es' : List Expr}
    (heq : tag?.toList.map tagTokens ++ Expr.tokensEach es =
      tag?'.toList.map tagTokens ++ Expr.tokensEach es') :
    tag? = tag?' ∧ Expr.tokensEach es = Expr.tokensEach es' := by
  cases tag? with
  | none =>
    cases tag?' with
    | none => exact ⟨rfl, heq⟩
    | some tag' =>
      cases es with
      | nil => simp [Expr.tokensEach] at heq
      | cons e rest => exact absurd (List.cons_eq_cons.1 heq).1.symm (tagTokens_ne_tokens tag' e)
  | some tag =>
    cases tag?' with
    | none =>
      cases es' with
      | nil => simp [Expr.tokensEach] at heq
      | cons e rest => exact absurd (List.cons_eq_cons.1 heq).1 (tagTokens_ne_tokens tag e)
    | some tag' =>
      obtain ⟨htag, hrest⟩ := List.cons_eq_cons.1 heq
      exact ⟨congrArg some (tagTokens_injective htag), hrest⟩

mutual

/-- A readable expression is known from its tokens. -/
theorem tokens_inj : ∀ {t t' : Expr}, t.Readable → t'.Readable → t.tokens = t'.tokens → t = t'
  | .literal text, t', h, h', heq => by
    have hform := form_eq_of_tokens_eq h h' heq
    cases t' with
    | literal text' =>
      have hspell := congrArg Token.spellAll heq
      simp only [Expr.tokens, Token.spellAll, spell_literalToken, List.append_nil,
        String.toList_inj] at hspell
      rw [hspell]
    | _ => cases hform
  | .bool value, t', h, h', heq => by
    have hform := form_eq_of_tokens_eq h h' heq
    cases t' with
    | bool value' =>
      cases value <;> cases value' <;> first | rfl | simp [Expr.tokens, wordToken] at heq
    | _ => cases hform
  | .var name, t', h, h', heq => by
    have hform := form_eq_of_tokens_eq h h' heq
    cases t' with
    | var name' => simpa [Expr.tokens, wordToken, String.toList_inj] using heq
    | _ => cases hform
  | .cond test yes no, t', h, h', heq => by
    have hform := form_eq_of_tokens_eq h h' heq
    cases t' with
    | cond test' yes' no' =>
      rw [Expr.Readable] at h h'
      simp only [Expr.tokens, List.cons.injEq, Token.group.injEq, and_true] at heq
      obtain ⟨htest, -, hrest⟩ := spaced_inj (by decide) (by decide) heq
      obtain ⟨hyes, -, hno⟩ := spaced_inj (by decide) (by decide) hrest
      rw [tokens_inj h.1 h'.1 htest, tokens_inj h.2.1 h'.2.1 hyes, tokens_inj h.2.2 h'.2.2 hno]
    | _ => cases hform
  | .unary op operand, t', h, h', heq => by
    have hform := form_eq_of_tokens_eq h h' heq
    cases t' with
    | unary op' operand' =>
      rw [Expr.Readable] at h h'
      simp only [Expr.tokens, List.cons.injEq, Token.group.injEq, and_true] at heq
      have hlength : ∀ op : UnaryOp, (op.symbol.toList.map Token.mark).length = 1 := by
        intro op
        cases op <;> rfl
      obtain ⟨hop, hoperand⟩ := List.append_inj heq ((hlength op).trans (hlength op').symm)
      have hmark : Function.Injective Token.mark := fun c d h => Token.mark.inj h
      rw [UnaryOp.symbol_injective (String.toList_inj.1 (hmark.list_map hop)),
        tokens_inj h h' hoperand]
    | _ => cases hform
  | .measure axis image, t', h, h', heq => by
    have hform := form_eq_of_tokens_eq h h' heq
    cases t' with
    | measure axis' image' =>
      rw [Expr.Readable] at h h'
      simp only [Expr.tokens, List.cons.injEq, Token.group.injEq, and_true] at heq
      obtain ⟨himage, hgetter⟩ := List.append_inj' heq rfl
      simp only [member, wordToken, List.cons.injEq, Token.word.injEq, String.toList_inj] at hgetter
      rw [Axis.getter_injective hgetter.2.1, tokens_inj h h' himage]
    | _ => cases hform
  | .infixed op left right, t', h, h', heq => by
    have hform := form_eq_of_tokens_eq h h' heq
    cases t' with
    | infixed op' left' right' =>
      rw [Expr.Readable] at h h'
      simp only [Expr.tokens, List.cons.injEq, Token.group.injEq, and_true] at heq
      obtain ⟨hleft, hop, hright⟩ := spaced_inj (by cases op <;> decide)
        (by cases op' <;> decide) heq
      rw [InfixOp.symbol_injective hop, tokens_inj h.1 h'.1 hleft, tokens_inj h.2 h'.2 hright]
    | _ => cases hform
  | .equals receiver argument, t', h, h', heq => by
    have hform := form_eq_of_tokens_eq h h' heq
    cases t' with
    | equals receiver' argument' =>
      rw [Expr.Readable] at h h'
      simp only [Expr.tokens] at heq
      obtain ⟨hreceiver, hmember⟩ := List.append_inj' heq rfl
      have hargument : argument.tokens = argument'.tokens := by
        simpa [member, separated] using hmember
      rw [tokens_inj h.1 h'.1 hreceiver, tokens_inj h.2 h'.2 hargument]
    | _ => cases hform
  | .power base exponent, t', h, h', heq => by
    have hform := form_eq_of_tokens_eq h h' heq
    cases t' with
    | power base' exponent' =>
      rw [Expr.Readable] at h h'
      simp only [Expr.tokens, List.cons.injEq, Token.group.injEq, and_true, true_and] at heq
      have hround := (invocation_inj heq).2
      have hpow := (invocation_inj (by simpa [separated] using hround)).2
      have hboth := separated_inj (by simp [Expr.tokens_ne_nil, Expr.mark_not_mem_tokens])
        (by simp [Expr.tokens_ne_nil, Expr.mark_not_mem_tokens]) hpow
      simp only [List.cons.injEq, and_true] at hboth
      rw [tokens_inj h.1 h'.1 hboth.1, tokens_inj h.2 h'.2 hboth.2]
    | _ => cases hform
  | .call routine tag? arguments, t', h, h', heq => by
    have hform := form_eq_of_tokens_eq h h' heq
    cases t' with
    | call routine' tag?' arguments' =>
      rw [Expr.Readable] at h h'
      rw [Expr.tokens, Expr.tokens] at heq
      obtain ⟨rfl, hseparated⟩ := invocation_inj heq
      obtain ⟨rfl, harguments⟩ := tagged_inj
        (separated_inj (arguments_apart tag? arguments) (arguments_apart tag?' arguments')
          hseparated)
      rw [tokensEach_inj h h' harguments]
    | _ => cases hform

theorem tokensEach_inj : ∀ {es es' : List Expr}, Expr.ReadableEach es → Expr.ReadableEach es' →
    Expr.tokensEach es = Expr.tokensEach es' → es = es'
  | [], [], _, _, _ => rfl
  | [], e :: rest, _, _, heq => by simp [Expr.tokensEach] at heq
  | e :: rest, [], _, _, heq => by simp [Expr.tokensEach] at heq
  | e :: rest, e' :: rest', h, h', heq => by
    rw [Expr.ReadableEach] at h h'
    rw [Expr.tokensEach, Expr.tokensEach] at heq
    obtain ⟨hfirst, hrest⟩ := List.cons_eq_cons.1 heq
    rw [tokens_inj h.1 h'.1 hfirst, tokensEach_inj h.2 h'.2 hrest]

end

/-- Different readable expressions have different texts. -/
theorem render_inj {t t' : Expr} (h : t.Readable) (h' : t'.Readable) (heq : t.render = t'.render) :
    t = t' := by
  refine tokens_inj h h' (Token.spellAll_injective (properAll_tokens h) (properAll_tokens h') ?_)
  rw [spellAll_tokens, spellAll_tokens, heq]

end PixelLowering.Target
