import PixelLowering.Proofs.Operands.Delimited
import PixelLowering.Proofs.Reading.Lowered

/-! Every lowered expression is an operand wherever it stands, and the arguments of every library
    call in it can be read back from its text.

        (PixelOps.pack(a, f("),"), c) == b)
                      ╰──────────────╯
                      a │ f("),") │ c        the two commas at the top of what is in between

    At the top of an expression stand words, dots, string literals and parentheses, nothing else;
    operators and commas are always inside of parentheses. So what is written around an expression
    never takes hold of a part of it. -/

namespace PixelLowering.Text

/-! ### Where some text stands in another -/

/-- A part of a text that starts outside of string literals. -/
def OccursIn (part text : List Char) : Prop :=
  ∃ before after opened, text = before ++ (part ++ after) ∧
    Scan.start.read before = some ⟨.code, opened⟩

section

variable {part text : List Char}

theorem OccursIn.refl (part : List Char) : OccursIn part part := ⟨[], [], [], by simp, rfl⟩

theorem OccursIn.append_right (h : OccursIn part text) (rest : List Char) :
    OccursIn part (text ++ rest) := by
  obtain ⟨before, after, opened, rfl, hread⟩ := h
  exact ⟨before, after ++ rest, opened, by simp, hread⟩

theorem OccursIn.append_left (h : OccursIn part text) {first : List Char} (hfirst : Neutral first) :
    OccursIn part (first ++ text) := by
  obtain ⟨before, after, opened, rfl, hread⟩ := h
  refine ⟨first ++ before, after, opened, by simp, ?_⟩
  rw [Scan.read_append, Scan.start, hfirst.read]
  exact hread

theorem OccursIn.parens (h : OccursIn part text) : OccursIn part ('(' :: (text ++ [')'])) := by
  obtain ⟨before, after, opened, rfl, hread⟩ := h
  have hparen : Scan.start.read ('(' :: before) = (Scan.mk .code [.round]).read before := rfl
  refine ⟨'(' :: before, after ++ [')'], opened ++ [.round], by simp, ?_⟩
  rw [hparen]
  exact Scan.read_frame [.round] hread

end

namespace Token

/-- Tokens that stand among others, in a row or within a group. -/
inductive Within (part : List Token) : List Token → Prop
  | refl : Within part part
  | append_left {tokens : List Token} (before : List Token) (h : Within part tokens) :
      Within part (before ++ tokens)
  | append_right {tokens : List Token} (after : List Token) (h : Within part tokens) :
      Within part (tokens ++ after)
  | group {inside : List Token} (h : Within part inside) : Within part [.group inside]

theorem properAll_of_append {first second : List Token} (h : ProperAll (first ++ second)) :
    ProperAll first ∧ ProperAll second := by
  induction first with
  | nil => exact ⟨by simp [ProperAll], h⟩
  | cons token rest ih =>
    rw [List.cons_append, ProperAll] at h
    obtain ⟨htoken, hnext, hrest⟩ := h
    rw [ProperAll]
    refine ⟨⟨htoken, ?_, (ih hrest).1⟩, (ih hrest).2⟩
    intro hword next hhead
    refine hnext hword next ?_
    cases rest with
    | nil => cases hhead
    | cons other rest => exact hhead

variable {part tokens : List Token}

theorem Within.properAll (h : Within part tokens) (htokens : ProperAll tokens) :
    ProperAll part := by
  induction h with
  | refl => exact htokens
  | append_left before _ ih => exact ih (properAll_of_append htokens).2
  | append_right after _ ih => exact ih (properAll_of_append htokens).1
  | group _ ih =>
    rw [ProperAll, Proper] at htokens
    exact ih htokens.1

/-- The text of tokens stands where the tokens do. -/
theorem Within.occursIn (h : Within part tokens) (htokens : ProperAll tokens) :
    OccursIn (spellAll part) (spellAll tokens) := by
  induction h with
  | refl => exact .refl _
  | append_left before _ ih =>
    obtain ⟨hbefore, htokens⟩ := properAll_of_append htokens
    rw [spellAll_append]
    exact (ih htokens).append_left hbefore.neutral
  | append_right after _ ih =>
    rw [spellAll_append]
    exact (ih (properAll_of_append htokens).1).append_right _
  | group _ ih =>
    rw [ProperAll, Proper] at htokens
    have hinside := (ih htokens.1).parens
    simpa [spellAll, spell] using hinside

end Token

end PixelLowering.Text

namespace PixelLowering.Target

open PixelLowering.Library
open PixelLowering.Text

/-! ### Calls in an expression -/

mutual

/-- The library calls in an expression: the name of each routine and the texts of its arguments, a
    tag included. -/
def Expr.calls : Expr → List (String × List String)
  | .literal _ | .bool _ | .var _ => []
  | .cond test yes no => test.calls ++ yes.calls ++ no.calls
  | .unary _ operand | .measure _ operand => operand.calls
  | .infixed _ left right | .equals left right => left.calls ++ right.calls
  | .power base exponent =>
    let raised := callText Routine.pow.name [base.render, exponent.render]
    (Routine.round.name, [raised]) :: (Routine.pow.name, [base.render, exponent.render]) ::
      (base.calls ++ exponent.calls)
  | .call routine tag? arguments =>
    (routine.name, tag?.toList.map Tag.name ++ Expr.renderEach arguments) ::
      Expr.callsEach arguments

/-- The library calls in several expressions. -/
def Expr.callsEach : List Expr → List (String × List String)
  | [] => []
  | e :: rest => e.calls ++ Expr.callsEach rest

end

/-- Tokens that make an operand: some, and no mark among them but the dot. -/
def Operand (tokens : List Token) : Prop := tokens ≠ [] ∧ ∀ c, .mark c ∈ tokens → c = '.'

theorem operand_tokens (t : Expr) : Operand t.tokens :=
  ⟨t.tokens_ne_nil, fun _ => Expr.eq_dot_of_mark_mem⟩

theorem operand_invocation (routine : Routine) (arguments : List (List Token)) :
    Operand (invocation routine arguments) := by
  simp [Operand, invocation, member, wordToken]

theorem operand_tagTokens (tag : Tag) : Operand (tagTokens tag) := by
  simp [Operand, tagTokens, wordToken]

/-- The tokens of a call stand among others: a routine and its operands, with the name and the texts
    that are asked for. -/
def Calls (tokens : List Token) (function : String) (arguments : List String) : Prop :=
  ∃ routine operands, Token.Within (invocation routine operands) tokens ∧
    routine.name = function ∧ operands.map Token.spellAll = arguments.map String.toList ∧
    ∀ operand ∈ operands, Operand operand

section

variable {function : String} {arguments : List String} {tokens : List Token}

theorem Calls.append_left (h : Calls tokens function arguments) (before : List Token) :
    Calls (before ++ tokens) function arguments := by
  obtain ⟨routine, operands, hwithin, hcall⟩ := h
  exact ⟨routine, operands, hwithin.append_left before, hcall⟩

theorem Calls.append_right (h : Calls tokens function arguments) (after : List Token) :
    Calls (tokens ++ after) function arguments := by
  obtain ⟨routine, operands, hwithin, hcall⟩ := h
  exact ⟨routine, operands, hwithin.append_right after, hcall⟩

theorem Calls.group (h : Calls tokens function arguments) :
    Calls [.group tokens] function arguments := by
  obtain ⟨routine, operands, hwithin, hcall⟩ := h
  exact ⟨routine, operands, hwithin.group, hcall⟩

/-- What an argument calls, the arguments together call. -/
theorem Calls.separated (h : Calls tokens function arguments) {operands : List (List Token)}
    (hmem : tokens ∈ operands) : Calls (separated operands) function arguments := by
  induction operands with
  | nil => cases hmem
  | cons first rest ih =>
    cases rest with
    | nil =>
      obtain rfl : tokens = first := by simpa using hmem
      simpa [Target.separated] using h
    | cons second rest =>
      rw [Target.separated, List.intercalate_cons_cons, List.append_assoc]
      rcases List.mem_cons.1 hmem with rfl | hmem
      · exact h.append_right _
      · exact ((ih hmem).append_left _).append_left _

theorem Calls.member (h : Calls tokens function arguments) (method : String)
    {operands : List (List Token)} (hmem : tokens ∈ operands) :
    Calls (member method operands) function arguments :=
  (h.separated hmem).group.append_left [.mark '.', wordToken method]

theorem Calls.invocation (h : Calls tokens function arguments) (routine : Routine)
    {operands : List (List Token)} (hmem : tokens ∈ operands) :
    Calls (invocation routine operands) function arguments :=
  (h.member routine.method hmem).append_left [wordToken routine.owner.name]

/-- A call itself. -/
theorem calls_invocation {routine : Routine} {operands : List (List Token)}
    (htexts : operands.map Token.spellAll = arguments.map String.toList)
    (hoperands : ∀ operand ∈ operands, Operand operand) :
    Calls (invocation routine operands) routine.name arguments :=
  ⟨routine, operands, .refl, rfl, htexts, hoperands⟩

end

mutual

/-- The calls in an expression stand among its tokens. -/
theorem calls_tokens : ∀ (t : Expr) {function : String} {arguments : List String},
    (function, arguments) ∈ t.calls → Calls t.tokens function arguments
  | .literal _, _, _, h | .bool _, _, _, h | .var _, _, _, h => by
    rw [Expr.calls] at h
    cases h
  | .cond test yes no, _, _, h => by
    rw [Expr.calls, List.mem_append, List.mem_append] at h
    rw [Expr.tokens]
    refine Calls.group ?_
    rcases h with (h | h) | h
    · exact (calls_tokens test h).append_right _
    · exact (((calls_tokens yes h).append_right _).append_left _).append_left _
    · exact ((((calls_tokens no h).append_left _).append_left _).append_left _).append_left _
  | .unary op operand, _, _, h => by
    rw [Expr.calls] at h
    rw [Expr.tokens]
    exact ((calls_tokens operand h).append_left _).group
  | .measure axis image, _, _, h => by
    rw [Expr.calls] at h
    rw [Expr.tokens]
    exact ((calls_tokens image h).append_right _).group
  | .infixed op left right, _, _, h => by
    rw [Expr.calls, List.mem_append] at h
    rw [Expr.tokens]
    refine Calls.group ?_
    rcases h with h | h
    · exact (calls_tokens left h).append_right _
    · exact ((calls_tokens right h).append_left _).append_left _
  | .equals receiver argument, _, _, h => by
    rw [Expr.calls, List.mem_append] at h
    rw [Expr.tokens]
    rcases h with h | h
    · exact (calls_tokens receiver h).append_right _
    · exact ((calls_tokens argument h).member "equals" (by simp)).append_left _
  | .power base exponent, function, arguments, h => by
    rw [Expr.calls, List.mem_cons, List.mem_cons, List.mem_append] at h
    rw [Expr.tokens]
    refine (Calls.append_left ?_ [_]).group
    have hpow := spellAll_invocation .pow [base.tokens, exponent.tokens]
      [base.render, exponent.render]
      (by simp [spellAll_tokens base, spellAll_tokens exponent])
    rcases h with h | h
    · cases h
      exact calls_invocation (by simp [hpow]) (by simpa using operand_invocation _ _)
    · suffices hraised : Calls (invocation .pow [base.tokens, exponent.tokens]) function arguments
        from hraised.invocation _ (by simp)
      rcases h with h | h | h
      · cases h
        exact calls_invocation (by simp [spellAll_tokens]) (by simp [operand_tokens])
      · exact (calls_tokens base h).invocation _ (by simp)
      · exact (calls_tokens exponent h).invocation _ (by simp)
  | .call routine tag? arguments, _, _, h => by
    rw [Expr.calls, List.mem_cons] at h
    rw [Expr.tokens]
    rcases h with h | h
    · cases h
      refine calls_invocation ?_ ?_
      · rw [List.map_append, List.map_append, spellAll_tokensEach arguments]
        simp [Function.comp_def]
      · intro operand hoperand
        rcases List.mem_append.1 hoperand with hoperand | hoperand
        · obtain ⟨tag, -, rfl⟩ := List.mem_map.1 hoperand
          exact operand_tagTokens tag
        · exact operand_tokensEach arguments operand hoperand
    · obtain ⟨tokens, hmem, hcalls⟩ := calls_tokensEach arguments h
      exact hcalls.invocation _ (List.mem_append_right _ hmem)

theorem calls_tokensEach : ∀ (es : List Expr) {function : String} {arguments : List String},
    (function, arguments) ∈ Expr.callsEach es →
      ∃ tokens ∈ Expr.tokensEach es, Calls tokens function arguments
  | [], _, _, h => by
    rw [Expr.callsEach] at h
    cases h
  | e :: rest, _, _, h => by
    rw [Expr.callsEach, List.mem_append] at h
    rw [Expr.tokensEach]
    rcases h with h | h
    · exact ⟨e.tokens, List.mem_cons_self, calls_tokens e h⟩
    · obtain ⟨tokens, hmem, hcalls⟩ := calls_tokensEach rest h
      exact ⟨tokens, List.mem_cons_of_mem _ hmem, hcalls⟩

theorem operand_tokensEach : ∀ es : List Expr, ∀ operand ∈ Expr.tokensEach es, Operand operand
  | [], _, h => by
    rw [Expr.tokensEach] at h
    cases h
  | e :: rest, operand, h => by
    rw [Expr.tokensEach] at h
    rcases List.mem_cons.1 h with rfl | h
    · exact operand_tokens e
    · exact operand_tokensEach rest operand h

end

/-! ### Calls can be read back -/

/-- Every argument in a list of arguments can be told apart if the list can. -/
theorem properAll_of_separated {operands : List (List Token)}
    (h : Token.ProperAll (separated operands)) : ∀ operand ∈ operands, Token.ProperAll operand := by
  induction operands with
  | nil => simp
  | cons first rest ih =>
    cases rest with
    | nil => simpa [separated] using h
    | cons second rest =>
      rw [separated, List.intercalate_cons_cons, List.append_assoc] at h
      obtain ⟨hfirst, hrest⟩ := Token.properAll_of_append h
      rw [List.forall_mem_cons]
      exact ⟨hfirst, ih (Token.properAll_of_append hrest).2⟩

/-- A call that stands in a text outside of string literals, and whose arguments are read back from
    what is between its parentheses. -/
def ReadBack (text : List Char) (function : String) (arguments : List String) : Prop :=
  ∃ inside, OccursIn (function.toList ++ '(' :: (inside ++ [')'])) text ∧
    Scan.start.read inside = some .start ∧ argumentTexts inside = arguments.map String.toList

theorem Calls.readBack {function : String} {arguments : List String} {tokens : List Token}
    (h : Calls tokens function arguments) (htokens : Token.ProperAll tokens) :
    ReadBack (Token.spellAll tokens) function arguments := by
  obtain ⟨routine, operands, hwithin, rfl, htexts, hoperands⟩ := h
  have hcall : Token.ProperAll ([wordToken routine.owner.name, .mark '.',
      wordToken routine.method] ++ [.group (Target.separated operands)]) :=
    hwithin.properAll htokens
  have hgroup := (Token.properAll_of_append hcall).2
  rw [Token.ProperAll, Token.Proper] at hgroup
  have hseparated : Token.ProperAll (Target.separated operands) := hgroup.1
  have hinside : Token.spellAll (Target.separated operands) =
      [',', ' '].intercalate (arguments.map String.toList) := by
    rw [spellAll_separated, htexts]
  refine ⟨Token.spellAll (Target.separated operands), ?_, hseparated.neutral.read [], ?_⟩
  · have hoccurs := hwithin.occursIn htokens
    rw [spellAll_invocation routine operands arguments htexts] at hoccurs
    simpa [callText, hinside] using hoccurs
  · rw [hinside, ← htexts]
    refine argumentTexts_intercalate ?_
    intro text htext
    obtain ⟨operand, hmem, rfl⟩ := List.mem_map.1 htext
    obtain ⟨hne, hmark⟩ := hoperands operand hmem
    exact (properAll_of_separated hseparated operand hmem).selfDelimited hne hmark

section

variable {t : Expr}

/-- An expression that can be read is an operand. -/
theorem Expr.Readable.selfDelimited (h : t.Readable) : SelfDelimited t.render.toList := by
  rw [← spellAll_tokens]
  exact (properAll_tokens h).selfDelimited (operand_tokens t).1 (operand_tokens t).2

/-- And so are the arguments of all its calls. -/
theorem Expr.Readable.readBack (h : t.Readable) {function : String} {arguments : List String}
    (hcall : (function, arguments) ∈ t.calls) : ReadBack t.render.toList function arguments := by
  rw [← spellAll_tokens]
  exact (calls_tokens t hcall).readBack (properAll_tokens h)

end

end PixelLowering.Target

namespace PixelLowering.Lower

open PixelLowering.Names
open PixelLowering.Source
open PixelLowering.Text

/-- Whatever was done to a table, if what it declares are identifiers, an expression that is spelled
    as it should be is lowered to an operand, and the arguments of every library call in it are
    those between the commas that are neither in a string literal nor in further parentheses. -/
theorem lowered_selfDelimited (ops : List Op)
    (hnames : ∀ b ∈ (({} : Table).run ops).2.visible, Target.isIdentifier b.name) (e : Expr)
    (he : e.wellSpelled) (tree : Target.Expr)
    (htree : lowerExpr (({} : Table).run ops).2.resolve? e = .ok tree) :
    SelfDelimited tree.render.toList ∧
      ∀ function arguments, (function, arguments) ∈ tree.calls →
        ∃ inside, OccursIn (function.toList ++ '(' :: (inside ++ [')'])) tree.render.toList ∧
          Scan.start.read inside = some .start ∧
          argumentTexts inside = arguments.map String.toList := by
  have hreadable := lowerExpr_readable (legible_run ops hnames) e he tree htree
  exact ⟨hreadable.selfDelimited, fun _ _ hcall => hreadable.readBack hcall⟩

/-- A string that looks like the end of one call and the start of another does not cut an argument
    in two, and neither does the comma of an inner call. -/
theorem lowered_selfDelimited_quoted :
    let ops : List Op := [.parameter "x" .int, .enter, .declare "x" .image]
    let image : Expr := .ident ⟨.image, .unknown⟩ "x"
    let sum : Expr := .binary ⟨.image, .unknown⟩ .plus image (.num ⟨.int, .unknown⟩ "2")
    let text : Expr := .str ⟨.string, .unknown⟩ "\"\\\"), f(\""
    let tree : Target.Expr := .call .pack none [.call .imageScalar (some .plus) [.var "x_0",
      .literal "2"], .literal "\"\\\"), f(\"", .var "x_0"]
    lowerExpr (({} : Table).run ops).2.resolve? (.pixel ⟨.pixel, .unknown⟩ sum text image) =
        .ok tree ∧
      SelfDelimited tree.render.toList ∧
      ∃ inside, OccursIn ("PixelOps.pack".toList ++ '(' :: (inside ++ [')'])) tree.render.toList ∧
        Scan.start.read inside = some .start ∧
        argumentTexts inside = ["ImageOps.binaryImageScalarOp(ImageOps.OP.PLUS, x_0, 2)",
          "\"\\\"), f(\"", "x_0"].map String.toList := by
  intro ops image sum text tree
  have htree : lowerExpr (({} : Table).run ops).2.resolve?
      (.pixel ⟨.pixel, .unknown⟩ sum text image) = .ok tree := rfl
  have hresult := lowered_selfDelimited ops (by decide +kernel) _ (by decide +kernel) tree htree
  exact ⟨htree, hresult.1, hresult.2 _ _ (by decide +kernel)⟩

end PixelLowering.Lower
