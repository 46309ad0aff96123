import PixelLowering.Target.Identifier

/-! Tokens: what a text of the target language is made of, with everything between a pair of
    parentheses as one token that holds others.

        f.g(a, "(")      word f,  mark .,  word g,  group [ word a,  mark ,,  mark ␣,  quoted "(" ]

    A text can be cut into tokens in one way only: a word goes on for as long as it can, a string
    literal ends at the first quote that is not escaped, a group ends at the parenthesis that closes
    it. So whoever knows the text knows the tokens. -/

namespace PixelLowering.Text

open PixelLowering.Target

/-! ### String literals -/

/-- What may follow the quote that opens a string literal: plain characters and characters behind a
    backslash, all on one line, and a quote at the very end. -/
def isStringBody : List Char → Bool
  | [] => false
  | '"' :: rest => rest.isEmpty
  | '\\' :: c :: rest => c != '\n' && isStringBody rest
  | c :: rest => c != '\\' && c != '\n' && isStringBody rest

/-- String literals on one line, with their quotes. -/
def isStringLiteral : List Char → Bool
  | '"' :: body => isStringBody body
  | _ => false

@[simp] theorem isStringBody_quote (rest : List Char) :
    isStringBody ('"' :: rest) = rest.isEmpty := rfl

@[simp] theorem isStringBody_escape (c : Char) (rest : List Char) :
    isStringBody ('\\' :: c :: rest) = (c != '\n' && isStringBody rest) := rfl

theorem isStringBody_plain {c : Char} (hquote : c ≠ '"') (hescape : c ≠ '\\')
    (rest : List Char) : isStringBody (c :: rest) = (c != '\n' && isStringBody rest) := by
  rw [isStringBody.eq_4 c rest hquote fun _ _ h => absurd h hescape, bne_iff_ne.2 hescape,
    Bool.true_and]

/-- No string literal goes on after its end. -/
theorem isStringBody_append_inj {body body' rest rest' : List Char} (h : isStringBody body)
    (h' : isStringBody body') (heq : body ++ rest = body' ++ rest') :
    body = body' ∧ rest = rest' := by
  fun_induction isStringBody body generalizing body' with
  | case1 => simp at h
  | case2 tail =>
    obtain rfl : tail = [] := by simpa using h
    cases body' with
    | nil => simp [isStringBody] at h'
    | cons c tail' =>
      obtain ⟨rfl, htail⟩ := List.cons_eq_cons.1 heq
      obtain rfl : tail' = [] := by simpa using h'
      exact ⟨rfl, htail⟩
  | case3 c tail ih =>
    rw [Bool.and_eq_true] at h
    match body', h', heq with
    | [], h', _ => simp [isStringBody] at h'
    | [c'], h', heq =>
      obtain ⟨rfl, -⟩ := List.cons_eq_cons.1 heq
      simp [isStringBody] at h'
    | c' :: d :: tail', h', heq =>
      obtain ⟨rfl, hnext⟩ := List.cons_eq_cons.1 heq
      obtain ⟨rfl, htail⟩ := List.cons_eq_cons.1 hnext
      rw [isStringBody_escape, Bool.and_eq_true] at h'
      obtain ⟨rfl, rfl⟩ := ih h.2 h'.2 htail
      exact ⟨rfl, rfl⟩
  | case4 c tail hquote hescape ih =>
    simp only [Bool.and_eq_true, bne_iff_ne] at h
    cases body' with
    | nil => simp [isStringBody] at h'
    | cons c' tail' =>
      obtain ⟨rfl, htail⟩ := List.cons_eq_cons.1 heq
      rw [isStringBody_plain hquote h.1.1, Bool.and_eq_true] at h'
      obtain ⟨rfl, rfl⟩ := ih h.2 h'.2 htail
      exact ⟨rfl, rfl⟩

theorem isStringLiteral_iff {text : List Char} :
    isStringLiteral text ↔ ∃ body, text = '"' :: body ∧ isStringBody body := by
  constructor
  · intro h
    unfold isStringLiteral at h
    split at h
    · exact ⟨_, rfl, h⟩
    · cases h
  · rintro ⟨body, rfl, h⟩
    exact h

/-! ### Tokens -/

/-- Characters that are tokens of their own. -/
def marks : List Char := " .,?:!+-*/%&|=<>".toList

/-- A word, a string literal, a mark, or tokens in parentheses. -/
inductive Token where
  | word (text : List Char)
  | quoted (text : List Char)
  | mark (c : Char)
  | group (inside : List Token)

/-- Kinds of tokens. -/
inductive Kind where
  | word
  | quoted
  | mark
  | group
  deriving Repr, DecidableEq

namespace Token

/-- The kind of a token. -/
def kind : Token → Kind
  | word _ => .word
  | quoted _ => .quoted
  | mark _ => .mark
  | group _ => .group

/-- The kind of the token that starts with a character, if one can. -/
def startKind? (c : Char) : Option Kind :=
  if isIdentifierPart c then some .word
  else if c = '"' then some .quoted
  else if c = '(' then some .group
  else if c ∈ marks then some .mark
  else none

mutual

/-- Text of a token. -/
def spell : Token → List Char
  | word text | quoted text => text
  | mark c => [c]
  | group inside => '(' :: (spellAll inside ++ [')'])

/-- Text of tokens in a row. -/
def spellAll : List Token → List Char
  | [] => []
  | token :: rest => token.spell ++ spellAll rest

end

mutual

/-- Tokens that a text can be cut into. -/
def Proper : Token → Prop
  | word text => text ≠ [] ∧ ∀ c ∈ text, isIdentifierPart c
  | quoted text => isStringLiteral text
  | mark c => c ∈ marks
  | group inside => ProperAll inside

/-- Rows of such tokens. No word stands right next to another, or both would be one word. -/
def ProperAll : List Token → Prop
  | [] => True
  | token :: rest =>
    token.Proper ∧ (token.kind = .word → ∀ next ∈ rest.head?, next.kind ≠ .word) ∧ ProperAll rest

end

@[simp] theorem spellAll_append (first second : List Token) :
    spellAll (first ++ second) = spellAll first ++ spellAll second := by
  induction first with
  | nil => simp [spellAll]
  | cons token rest ih => simp [spellAll, ih]

/-- Two rows make one if no word of the first meets a word of the second. -/
theorem properAll_append {first second : List Token} (h : ProperAll first)
    (h' : ProperAll second)
    (hjoint : ∀ last ∈ first.getLast?, last.kind = .word →
      ∀ next ∈ second.head?, next.kind ≠ .word) :
    ProperAll (first ++ second) := by
  induction first with
  | nil => exact h'
  | cons token rest ih =>
    rw [ProperAll] at h
    rw [List.cons_append, ProperAll]
    obtain ⟨htoken, hnext, hrest⟩ := h
    cases rest with
    | nil =>
      refine ⟨htoken, ?_, h'⟩
      exact hjoint token rfl
    | cons other rest =>
      refine ⟨htoken, hnext, ih hrest ?_⟩
      simpa using hjoint

/-! ### A text has one row of tokens -/

/-- The rest of a text, after some tokens: nothing, or the end of the group that they are in. -/
def Ends (rest : List Char) : Prop := rest = [] ∨ ∃ after, rest = ')' :: after

/-- A word ends where no further character of a word follows. -/
theorem word_append_inj {text text' rest rest' : List Char}
    (h : ∀ c ∈ text, isIdentifierPart c) (h' : ∀ c ∈ text', isIdentifierPart c)
    (hrest : ∀ c ∈ rest.head?, ¬isIdentifierPart c) (hrest' : ∀ c ∈ rest'.head?, ¬isIdentifierPart c)
    (heq : text ++ rest = text' ++ rest') : text = text' ∧ rest = rest' := by
  induction text generalizing text' with
  | nil =>
    cases text' with
    | nil => exact ⟨rfl, heq⟩
    | cons c tail =>
      rw [List.nil_append] at heq
      exact absurd (h' c (by simp)) (hrest c (by simp [heq]))
  | cons c tail ih =>
    cases text' with
    | nil =>
      rw [List.nil_append] at heq
      exact absurd (h c (by simp)) (hrest' c (by simp [← heq]))
    | cons c' tail' =>
      obtain ⟨rfl, htail⟩ := List.cons_eq_cons.1 heq
      obtain ⟨rfl, rfl⟩ := ih (fun d hd => h d (List.mem_cons_of_mem _ hd))
        (fun d hd => h' d (List.mem_cons_of_mem _ hd)) htail
      exact ⟨rfl, rfl⟩

/-- The first character of a token tells its kind. -/
theorem Proper.startKind {token : Token} (h : token.Proper) :
    ∃ c rest, token.spell = c :: rest ∧ startKind? c = some token.kind := by
  cases token with
  | word text =>
    rw [Proper] at h
    obtain ⟨c, rest, rfl⟩ := List.exists_cons_of_ne_nil h.1
    exact ⟨c, rest, rfl, by simp [startKind?, h.2 c (by simp), kind]⟩
  | quoted text =>
    rw [Proper] at h
    obtain ⟨body, rfl, -⟩ := isStringLiteral_iff.1 h
    exact ⟨'"', body, rfl, rfl⟩
  | mark c =>
    rw [Proper] at h
    have hall : marks.all (fun c => startKind? c = some .mark) = true := by decide +kernel
    exact ⟨c, [], rfl, of_decide_eq_true (List.all_eq_true.1 hall c h)⟩
  | group inside => exact ⟨'(', _, rfl, rfl⟩

/-- No token starts where tokens end. -/
theorem Ends.head_kind {rest : List Char} (h : Ends rest) :
    ∀ c ∈ rest.head?, startKind? c = none := by
  rcases h with rfl | ⟨after, rfl⟩
  · simp
  · rintro c ⟨⟩
    rfl

/-- The text after a token starts like the next token. -/
theorem ProperAll.head_kind {tokens : List Token} {rest : List Char} (h : ProperAll tokens)
    (hrest : Ends rest) :
    ∀ c ∈ (spellAll tokens ++ rest).head?, startKind? c = tokens.head?.map kind := by
  cases tokens with
  | nil => exact hrest.head_kind
  | cons token others =>
    rw [ProperAll] at h
    obtain ⟨c, tail, hspell, hkind⟩ := h.1.startKind
    intro d hd
    obtain rfl : c = d := by simpa [spellAll, hspell] using hd
    exact hkind

/-- After a word comes no character of a word. -/
theorem ProperAll.head_after_word {token : Token} {tokens : List Token} {rest : List Char}
    (h : ProperAll (token :: tokens)) (hrest : Ends rest) (hword : token.kind = .word) :
    ∀ c ∈ (spellAll tokens ++ rest).head?, ¬isIdentifierPart c := by
  intro c hc hpart
  rw [ProperAll] at h
  have hkind := h.2.2.head_kind hrest c hc
  rw [startKind?, if_pos hpart] at hkind
  obtain ⟨next, hnext, hnextKind⟩ := Option.map_eq_some_iff.1 hkind.symm
  exact h.2.1 hword next hnext hnextKind

/-- Texts that are the same start with tokens of the same kind. -/
theorem Proper.kind_eq {token token' : Token} {rest rest' : List Char} (h : token.Proper)
    (h' : token'.Proper) (heq : token.spell ++ rest = token'.spell ++ rest') :
    token.kind = token'.kind := by
  obtain ⟨c, tail, hspell, hkind⟩ := h.startKind
  obtain ⟨c', tail', hspell', hkind'⟩ := h'.startKind
  rw [hspell, hspell'] at heq
  obtain ⟨rfl, -⟩ := List.cons_eq_cons.1 heq
  exact Option.some.inj (hkind.symm.trans hkind')

/-- Where tokens end, none starts. -/
theorem ProperAll.ne_ends {token : Token} {tokens : List Token} {rest rest' : List Char}
    (h : ProperAll (token :: tokens)) (hrest' : Ends rest') :
    spellAll (token :: tokens) ++ rest ≠ rest' := by
  rintro rfl
  rw [ProperAll] at h
  obtain ⟨c, tail, hspell, hkind⟩ := h.1.startKind
  have hnone := hrest'.head_kind c (by simp [spellAll, hspell])
  rw [hkind] at hnone
  cases hnone

mutual

/-- A token at the start of a text is known from the text. -/
theorem spell_append_inj : ∀ {token token' : Token} {rest rest' : List Char}, token.Proper →
    token'.Proper → (token.kind = .word → ∀ c ∈ rest.head?, ¬isIdentifierPart c) →
    (token'.kind = .word → ∀ c ∈ rest'.head?, ¬isIdentifierPart c) →
    token.spell ++ rest = token'.spell ++ rest' → token = token' ∧ rest = rest'
  | .word text, token', rest, rest', h, h', hrest, hrest', heq => by
    have hkind := h.kind_eq h' heq
    cases token' with
    | word text' =>
      rw [Proper] at h h'
      obtain ⟨rfl, rfl⟩ := word_append_inj h.2 h'.2 (hrest rfl) (hrest' rfl) heq
      exact ⟨rfl, rfl⟩
    | quoted _ | mark _ | group _ => cases hkind
  | .quoted text, token', rest, rest', h, h', _, _, heq => by
    have hkind := h.kind_eq h' heq
    cases token' with
    | quoted text' =>
      rw [Proper, isStringLiteral_iff] at h h'
      obtain ⟨body, rfl, hbody⟩ := h
      obtain ⟨body', rfl, hbody'⟩ := h'
      obtain ⟨rfl, rfl⟩ := isStringBody_append_inj hbody hbody' (List.cons_eq_cons.1 heq).2
      exact ⟨rfl, rfl⟩
    | word _ | mark _ | group _ => cases hkind
  | .mark c, token', rest, rest', h, h', _, _, heq => by
    have hkind := h.kind_eq h' heq
    cases token' with
    | mark c' =>
      obtain ⟨rfl, rfl⟩ := List.cons_eq_cons.1 heq
      exact ⟨rfl, rfl⟩
    | word _ | quoted _ | group _ => cases hkind
  | .group inside, token', rest, rest', h, h', _, _, heq => by
    have hkind := h.kind_eq h' heq
    cases token' with
    | group inside' =>
      rw [Proper] at h h'
      have hinside : spellAll inside ++ ')' :: rest = spellAll inside' ++ ')' :: rest' := by
        simpa [spell] using heq
      obtain ⟨rfl, hrest⟩ := spellAll_append_inj h h' (Or.inr ⟨rest, rfl⟩) (Or.inr ⟨rest', rfl⟩)
        hinside
      exact ⟨rfl, (List.cons_eq_cons.1 hrest).2⟩
    | word _ | quoted _ | mark _ => cases hkind

/-- Tokens at the start of a text are known from the text. -/
theorem spellAll_append_inj : ∀ {tokens tokens' : List Token} {rest rest' : List Char},
    ProperAll tokens → ProperAll tokens' → Ends rest → Ends rest' →
    spellAll tokens ++ rest = spellAll tokens' ++ rest' → tokens = tokens' ∧ rest = rest'
  | [], [], _, _, _, _, _, _, heq => ⟨rfl, heq⟩
  | [], _ :: _, _, _, _, h', hrest, _, heq => absurd heq.symm (h'.ne_ends hrest)
  | _ :: _, [], _, _, h, _, _, hrest', heq => absurd heq (h.ne_ends hrest')
  | token :: tokens, token' :: tokens', rest, rest', h, h', hrest, hrest', heq => by
    have hword := h.head_after_word hrest
    have hword' := h'.head_after_word hrest'
    rw [ProperAll] at h h'
    simp only [spellAll, List.append_assoc] at heq
    obtain ⟨rfl, htail⟩ := spell_append_inj h.1 h'.1 hword hword' heq
    obtain ⟨rfl, rfl⟩ := spellAll_append_inj h.2.2 h'.2.2 hrest hrest' htail
    exact ⟨rfl, rfl⟩

end

/-- A text can be cut into tokens in one way only. -/
theorem spellAll_injective {tokens tokens' : List Token} (h : ProperAll tokens)
    (h' : ProperAll tokens') (heq : spellAll tokens = spellAll tokens') : tokens = tokens' :=
  (spellAll_append_inj h h' (Or.inl rfl) (Or.inl rfl) (by simpa using heq)).1

end Token

end PixelLowering.Text
