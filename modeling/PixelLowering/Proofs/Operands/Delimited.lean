import PixelLowering.Proofs.Layout.Scan

/-! Texts that can stand anywhere as an operand, and lists of them.

    What holds a text together is its top: the characters outside of string literals with no bracket
    open around them. If there is no blank, no comma and no operator at the top, then whatever is
    written next to the text cannot take a part of it away.

        PixelOps.red(f(a, "),"))        top   PixelOps.red( ... )
        (a + b).equals("x, y")          top   ( ... ).equals( ... )
        a + b                           top   a + b                    ✗

    A list of such texts with commas between them can be read back: the commas at the top of the
    whole are those that were put between. -/

namespace PixelLowering.Text

open PixelLowering.Target

/-! ### The top of a text -/

/-- Behind `before`, the character `c` stands at the top: it belongs to no string literal, and right
    before it or right after it no bracket is open. -/
def AtTop (before : List Char) (c : Char) : Prop :=
  ∃ opened opened', Scan.start.read before = some ⟨.code, opened⟩ ∧
    Scan.start.read (before ++ [c]) = some ⟨.code, opened'⟩ ∧ (opened = [] ∨ opened' = [])

/-- All characters at the top of a text are allowed. -/
def TopOnly (allowed : Char → Prop) (text : List Char) : Prop :=
  ∀ before c after, text = before ++ c :: after → AtTop before c → allowed c

/-- Characters that an operand may have at its top. -/
def OperandChar (c : Char) : Prop := c ∈ ['(', ')', '.'] ∨ isIdentifierPart c

/-- A text that is an operand wherever it stands. -/
structure SelfDelimited (text : List Char) : Prop where
  nonempty : text ≠ []
  /-- Scanning ends outside of string literals, and brackets are properly nested. -/
  closed : Scan.start.read text = some .start
  top : TopOnly OperandChar text

section

variable {allowed : Char → Prop} {first second text inside : List Char}

theorem topOnly_nil : TopOnly allowed [] := by
  intro before c after h
  simp at h

theorem topOnly_of_forall (h : ∀ c ∈ text, allowed c) : TopOnly allowed text := by
  rintro before c after rfl _
  exact h c (by simp)

/-- What comes after a text that leaves nothing open is at the top if it is by itself. -/
theorem atTop_append {before : List Char} {c : Char} (h : Neutral first)
    (htop : AtTop (first ++ before) c) : AtTop before c := by
  obtain ⟨opened, opened', hbefore, hafter, hnone⟩ := htop
  have hskip : ∀ rest, Scan.start.read (first ++ rest) = Scan.start.read rest := by
    intro rest
    rw [Scan.read_append, Scan.start, h.read, Option.bind_some]
  rw [hskip] at hbefore
  rw [List.append_assoc, hskip] at hafter
  exact ⟨opened, opened', hbefore, hafter, hnone⟩

theorem TopOnly.append (h : Neutral first) (hfirst : TopOnly allowed first)
    (hsecond : TopOnly allowed second) : TopOnly allowed (first ++ second) := by
  intro before c after heq htop
  rcases List.append_eq_append_iff.1 heq with ⟨rest, rfl, hrest⟩ | ⟨rest, rfl, hrest⟩
  · exact hsecond rest c after hrest (atTop_append h htop)
  · cases rest with
    | nil =>
      -- the character is the first one of the second text
      rw [List.append_nil] at h
      refine hsecond [] c after hrest.symm (atTop_append h ?_)
      rwa [List.append_nil]
    | cons d rest =>
      obtain ⟨rfl, -⟩ := List.cons_eq_cons.1 hrest
      exact hfirst before c rest rfl htop

/-- Inside of a string literal the scanner is not back between literals. -/
theorem mode_stringBody {body front back : List Char} (h : isStringBody body)
    (hsplit : body = front ++ back) (hback : back ≠ []) {opened : List Bracket} {scan : Scan}
    (hread : (Scan.mk .quoted opened).read front = some scan) : scan.mode ≠ .code := by
  fun_induction isStringBody body generalizing front with
  | case1 => cases h
  | case2 rest =>
    -- nothing follows the closing quote, so it is not in front
    obtain rfl : rest = [] := by simpa using h
    cases front with
    | nil =>
      cases hread
      simp
    | cons c front => simp_all
  | case3 c rest ih =>
    rw [Bool.and_eq_true] at h
    cases front with
    | nil =>
      cases hread
      simp
    | cons d front =>
      obtain ⟨rfl, htail⟩ := List.cons_eq_cons.1 hsplit
      cases front with
      | nil =>
        cases hread
        simp [Scan.nextInQuotes]
      | cons e front =>
        obtain ⟨rfl, hrest⟩ := List.cons_eq_cons.1 htail
        exact ih h.2 hrest hread
  | case4 c rest hquote hescape ih =>
    simp only [Bool.and_eq_true, bne_iff_ne] at h
    cases front with
    | nil =>
      cases hread
      simp
    | cons d front =>
      obtain ⟨rfl, hrest⟩ := List.cons_eq_cons.1 hsplit
      rw [Scan.read_cons, next_quoted hquote h.1.1] at hread
      exact ih h.2 hrest hread

/-- A string literal has nothing at its top. -/
theorem topOnly_stringLiteral (h : isStringLiteral text) : TopOnly allowed text := by
  obtain ⟨body, rfl, hbody⟩ := isStringLiteral_iff.1 h
  rintro before c after heq ⟨opened, opened', hbefore, hafter, -⟩
  cases before with
  | nil =>
    obtain ⟨rfl, -⟩ := List.cons_eq_cons.1 heq
    cases hafter
  | cons d before =>
    obtain ⟨rfl, hsplit⟩ := List.cons_eq_cons.1 heq
    exact absurd rfl (mode_stringBody hbody hsplit (by simp) hbefore)

/-- Between parentheses nothing is at the top. -/
theorem opened_ne_nil (h : Neutral inside) {front back : List Char} (hsplit : inside = front ++ back)
    {opened : List Bracket} (hread : Scan.start.read ('(' :: front) = some ⟨.code, opened⟩) :
    opened ≠ [] := by
  have hinside := h.read []
  rw [hsplit] at hinside
  obtain ⟨⟨mode, own⟩, hown⟩ := Scan.read_some_of_append hinside
  have hframe : (Scan.mk .code [.round]).read front = some ⟨mode, own ++ [.round]⟩ :=
    Scan.read_frame [.round] hown
  have hparen : Scan.start.read ('(' :: front) = (Scan.mk .code [.round]).read front := rfl
  rw [hparen, hframe] at hread
  cases hread
  simp

theorem topOnly_parens (h : Neutral inside) (hopen : allowed '(') (hclose : allowed ')') :
    TopOnly allowed ('(' :: (inside ++ [')'])) := by
  rintro before c after heq ⟨opened, opened', hbefore, hafter, hnone⟩
  cases before with
  | nil =>
    obtain ⟨rfl, -⟩ := List.cons_eq_cons.1 heq
    exact hopen
  | cons d before =>
    obtain ⟨rfl, hsplit⟩ := List.cons_eq_cons.1 heq
    rcases List.eq_nil_or_concat after with rfl | ⟨rest, last, rfl⟩
    · obtain ⟨-, hlast⟩ := List.append_inj' hsplit rfl
      cases hlast
      exact hclose
    · have hsplit : inside ++ [')'] = (before ++ c :: rest) ++ [last] := by
        rw [hsplit, List.concat_eq_append]
        simp
      obtain ⟨hinside, -⟩ := List.append_inj' hsplit rfl
      rcases hnone with rfl | rfl
      · exact absurd rfl (opened_ne_nil h hinside hbefore)
      · have hinside : inside = (before ++ [c]) ++ rest := by
          rw [hinside, List.append_assoc, List.singleton_append]
        exact absurd rfl (opened_ne_nil h hinside hafter)

end

/-! ### Operands from tokens -/

namespace Token

/-- The top of a single token. -/
theorem Proper.topOnly {token : Token} (h : token.Proper) (hmark : ∀ c, token = .mark c → c = '.') :
    TopOnly OperandChar token.spell := by
  cases token with
  | word text =>
    rw [Proper] at h
    rw [spell]
    exact topOnly_of_forall fun c hc => Or.inr (h.2 c hc)
  | quoted text =>
    rw [Proper] at h
    rw [spell]
    exact topOnly_stringLiteral h
  | mark c =>
    obtain rfl := hmark c rfl
    rw [spell]
    exact topOnly_of_forall fun c hc => Or.inl (by simp_all)
  | group inside =>
    rw [Proper] at h
    rw [spell]
    exact topOnly_parens (ProperAll.neutral h) (Or.inl (by simp)) (Or.inl (by simp))

theorem ProperAll.topOnly {tokens : List Token} (h : ProperAll tokens)
    (hmark : ∀ c, .mark c ∈ tokens → c = '.') : TopOnly OperandChar (spellAll tokens) := by
  induction tokens with
  | nil =>
    rw [spellAll]
    exact topOnly_nil
  | cons token rest ih =>
    rw [ProperAll] at h
    rw [spellAll]
    refine TopOnly.append h.1.neutral (h.1.topOnly ?_) (ih h.2.2 ?_)
    · rintro c rfl
      exact hmark c List.mem_cons_self
    · intro c hc
      exact hmark c (List.mem_cons_of_mem _ hc)

/-- Tokens in a row are an operand if no mark but the dot is among them. -/
theorem ProperAll.selfDelimited {tokens : List Token} (h : ProperAll tokens) (hne : tokens ≠ [])
    (hmark : ∀ c, .mark c ∈ tokens → c = '.') : SelfDelimited (spellAll tokens) := by
  refine ⟨?_, h.neutral.read [], h.topOnly hmark⟩
  obtain ⟨token, rest, rfl⟩ := List.exists_cons_of_ne_nil hne
  rw [ProperAll] at h
  obtain ⟨c, others, hspell, -⟩ := h.1.startKind
  simp [spellAll, hspell]

end Token

/-! ### Lists of operands -/

/-- Cuts a text at the commas at its top, when the scanner is in the given state before it. -/
def pieces (scan : Scan) : List Char → List (List Char)
  | [] => [[]]
  | c :: rest =>
    if c = ',' ∧ scan = .start then [] :: pieces scan rest
    else (pieces ((scan.next c).getD scan) rest).modifyHead (c :: ·)

/-- The arguments in the text between the parentheses of a call: none if there is no text, else what
    lies between the commas at its top, without blanks in front. -/
def argumentTexts (inside : List Char) : List (List Char) :=
  if inside.isEmpty then [] else (pieces .start inside).map (List.dropWhile (· == ' '))

/-- A text with no comma at its top stays in one piece. -/
theorem pieces_append {scan after : Scan} {text : List Char} (rest : List Char)
    (hread : scan.read text = some after)
    (hcomma : ∀ before behind, text = before ++ ',' :: behind → scan.read before ≠ some .start) :
    pieces scan (text ++ rest) = (pieces after rest).modifyHead (text ++ ·) := by
  induction text generalizing scan with
  | nil =>
    cases hread
    rw [List.nil_append]
    cases pieces _ rest <;> rfl
  | cons c text ih =>
    rw [Scan.read_cons] at hread
    obtain ⟨middle, hmiddle, hread⟩ := Option.bind_eq_some_iff.1 hread
    have hnot : ¬(c = ',' ∧ scan = .start) := by
      rintro ⟨rfl, rfl⟩
      exact hcomma [] text rfl rfl
    have hrest := ih hread fun before behind hsplit hbefore => by
      refine hcomma (c :: before) behind (by rw [hsplit]; rfl) ?_
      rw [Scan.read_cons, hmiddle]
      exact hbefore
    rw [List.cons_append, pieces, if_neg hnot, hmiddle, Option.getD_some, hrest,
      List.modifyHead_modifyHead]
    rfl

section

variable {text : List Char}

/-- An operand has no comma at its top. -/
theorem SelfDelimited.comma_not_atTop (h : SelfDelimited text) {before behind : List Char}
    (hsplit : text = before ++ ',' :: behind) : Scan.start.read before ≠ some .start := by
  intro hread
  have hafter : Scan.start.read (before ++ [',']) = some .start := by
    rw [Scan.read_append, hread]
    rfl
  have hcomma := h.top before ',' behind hsplit ⟨[], [], hread, hafter, Or.inl rfl⟩
  revert hcomma
  simp [OperandChar, isIdentifierPart, isIdentifierStart]

theorem SelfDelimited.pieces_append (h : SelfDelimited text) (rest : List Char) :
    pieces .start (text ++ rest) = (pieces .start rest).modifyHead (text ++ ·) :=
  Text.pieces_append rest h.closed fun _ _ hsplit => h.comma_not_atTop hsplit

/-- An operand has no blank in front. -/
theorem SelfDelimited.dropWhile_blank (h : SelfDelimited text) :
    text.dropWhile (· == ' ') = text := by
  obtain ⟨c, rest, rfl⟩ := List.exists_cons_of_ne_nil h.nonempty
  rw [List.dropWhile_cons_of_neg]
  rintro hc
  obtain rfl : c = ' ' := by simpa using hc
  have hblank := h.top [] ' ' rest rfl ⟨[], [], rfl, rfl, Or.inl rfl⟩
  revert hblank
  simp [OperandChar, isIdentifierPart, isIdentifierStart]

end

/-- Operands with commas between them fall apart into the operands again, with a blank in front of
    all but the first. -/
theorem pieces_intercalate {first : List Char} {rest : List (List Char)}
    (h : ∀ text ∈ first :: rest, SelfDelimited text) :
    pieces .start ([',', ' '].intercalate (first :: rest)) = first :: rest.map (' ' :: ·) := by
  induction rest generalizing first with
  | nil =>
    have hlast := (h first (by simp)).pieces_append []
    rw [List.append_nil] at hlast
    simp [hlast, pieces]
  | cons second rest ih =>
    rw [List.forall_mem_cons] at h
    have hcomma : ∀ others, pieces .start (',' :: ' ' :: others) =
        [] :: (pieces .start others).modifyHead (' ' :: ·) := by
      intro others
      rw [pieces, if_pos ⟨rfl, rfl⟩, pieces, if_neg (by simp)]
      rfl
    rw [List.intercalate_cons_cons, List.append_assoc, h.1.pieces_append, List.cons_append,
      List.cons_append, List.nil_append, hcomma, ih h.2]
    simp

/-- The arguments of a call are read back from the text between its parentheses. -/
theorem argumentTexts_intercalate {texts : List (List Char)}
    (h : ∀ text ∈ texts, SelfDelimited text) :
    argumentTexts ([',', ' '].intercalate texts) = texts := by
  cases texts with
  | nil => rfl
  | cons first rest =>
    have hne : ([',', ' '].intercalate (first :: rest)).isEmpty = false := by
      obtain ⟨c, others, hfirst⟩ := List.exists_cons_of_ne_nil (h first (by simp)).nonempty
      cases rest <;> simp [hfirst]
    have hrest : ∀ text ∈ rest, List.dropWhile (· == ' ') (' ' :: text) = text := by
      intro text htext
      rw [List.dropWhile_cons_of_pos (by simp), (h text (by simp [htext])).dropWhile_blank]
    rw [argumentTexts, hne, pieces_intercalate h]
    simp only [Bool.false_eq_true, if_false, List.map_cons, List.map_map,
      (h first (by simp)).dropWhile_blank]
    exact congrArg _ ((List.map_congr_left hrest).trans (List.map_id rest))

end PixelLowering.Text
