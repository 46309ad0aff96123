import PixelLowering.Proofs.Layout.Page
import PixelLowering.Proofs.Layout.Scan
import PixelLowering.Proofs.Reading.Statement

/-! Every line of a readable method stands where its braces say.

    `Fits` is what a line must be like when so many braces are open before it: it stands as many
    steps to the right, one less if it starts by closing one, it ends in a semicolon or a brace,
    and after it so many braces are open again. Lines that fit follow each other:

                                  before   after
        if (a) {                     0       1
            f("}");                  1       1
        } else {                     1       1
        }                            1       0

    Such a chain, moved one step to the right, fits inside one more brace. -/

namespace PixelLowering.Text

/-! ### Lines that fit -/

/-- So many open braces, inside others. -/
def braces (depth : Nat) (base : List Bracket) : List Bracket := List.replicate depth .curly ++ base

theorem braces_succ (depth : Nat) (base : List Bracket) :
    braces (depth + 1) base = braces depth (.curly :: base) := by
  rw [braces, braces, List.replicate_succ', List.append_assoc]
  rfl

/-- Characters that a line may end in. -/
def lineEnds : List Char := [';', '\x7b', '\x7d']

/-- A line that fits where `depth` braces are open, and after which `after` are. -/
structure Entry.Fits (entry : Entry) (depth after : Nat) : Prop where
  starts : ∃ first rest, entry.line = first :: rest ∧ first ≠ ' ' ∧
    entry.level + (if first = '\x7d' then 1 else 0) = depth
  ends : ∃ body last, entry.line = body ++ [last, '\n'] ∧ last ∈ lineEnds
  read : ∀ base, (Scan.mk .code (braces depth base)).read entry.line =
    some ⟨.code, braces after base⟩

/-- Lines that fit, one after another. -/
inductive Nests : Nat → List Entry → Nat → Prop
  | nil (depth : Nat) : Nests depth [] depth
  | cons {depth middle after : Nat} {entry : Entry} {rest : List Entry}
      (h : entry.Fits depth middle) (hrest : Nests middle rest after) :
      Nests depth (entry :: rest) after

theorem Nests.single {depth after : Nat} {entry : Entry} (h : entry.Fits depth after) :
    Nests depth [entry] after :=
  .cons h (.nil after)

theorem Nests.append {depth middle after : Nat} {first second : List Entry}
    (h : Nests depth first middle) (h' : Nests middle second after) :
    Nests depth (first ++ second) after := by
  induction h with
  | nil => exact h'
  | cons hentry _ ih => exact .cons hentry (ih h')

/-- No line that fits is blank, so one step to the right is one level more. -/
theorem Entry.Fits.raise_eq {entry : Entry} {depth after : Nat} (h : entry.Fits depth after) :
    entry.raise = ⟨entry.level + 1, entry.line⟩ := by
  obtain ⟨body, last, hline, hlast⟩ := h.ends
  have hends : lineEnds.all (fun c => !isBlank c) = true := by decide
  have hvisible : isBlank last = false := by simpa using List.all_eq_true.1 hends last hlast
  have hblank : entry.line.all isBlank = false := by simp [hline, hvisible]
  rw [raise, hblank]
  rfl

theorem Entry.Fits.raise {entry : Entry} {depth after : Nat} (h : entry.Fits depth after) :
    entry.raise.Fits (depth + 1) (after + 1) := by
  rw [h.raise_eq]
  obtain ⟨first, rest, hline, hfirst, hlevel⟩ := h.starts
  refine ⟨⟨first, rest, hline, hfirst, ?_⟩, h.ends, ?_⟩
  · rw [← hlevel, Nat.add_right_comm]
  · intro base
    rw [braces_succ, braces_succ]
    exact h.read _

/-- Lines that fit, moved one step to the right, fit inside one more brace. -/
theorem Nests.raise {depth after : Nat} {entries : List Entry} (h : Nests depth entries after) :
    Nests (depth + 1) (entries.map Entry.raise) (after + 1) := by
  induction h with
  | nil depth => exact .nil (depth + 1)
  | cons hentry _ ih => exact .cons hentry.raise ih

theorem neutral_spaces (n : Nat) : Neutral (List.replicate n ' ') := by
  refine neutral_plain (List.all_eq_true.2 ?_)
  intro c hc
  rw [(List.mem_replicate.1 hc).2]
  decide

/-- The braces of lines that fit, however far the lines are moved. -/
theorem Nests.read {depth after : Nat} {entries : List Entry} (h : Nests depth entries after)
    (spaces : Entry → Nat) (base : List Bracket) :
    (Scan.mk .code (braces depth base)).read
        (entries.flatMap fun entry => List.replicate (spaces entry) ' ' ++ entry.line) =
      some ⟨.code, braces after base⟩ := by
  induction h with
  | nil => rfl
  | cons hentry _ ih =>
    rw [List.flatMap_cons, Scan.read_append, Scan.read_append, (neutral_spaces _).read,
      Option.bind_some, hentry.read, Option.bind_some, ih]

/-- A line in a chain fits, and so do the lines before it. -/
theorem Nests.split {depth after : Nat} {before rest : List Entry} {entry : Entry}
    (h : Nests depth (before ++ entry :: rest) after) :
    ∃ middle next, Nests depth before middle ∧ entry.Fits middle next := by
  induction before generalizing depth with
  | nil =>
    cases h with
    | cons hentry _ => exact ⟨depth, _, .nil depth, hentry⟩
  | cons other before ih =>
    cases h with
    | cons hother hrest =>
      obtain ⟨middle, next, hbefore, hentry⟩ := ih hrest
      exact ⟨middle, next, .cons hother hbefore, hentry⟩

/-! ### Contents of lines -/

/-- Does not start with a space or by closing a brace. -/
def Begins (text : List Char) : Prop := ∃ first rest, text = first :: rest ∧ first ∉ [' ', '\x7d']

theorem Begins.append {text : List Char} (h : Begins text) (rest : List Char) :
    Begins (text ++ rest) := by
  obtain ⟨first, others, rfl, hfirst⟩ := h
  exact ⟨first, others ++ rest, rfl, hfirst⟩

/-- What a line may hold behind its lead: text that does not start by closing a brace and after
    which so many braces more are open. -/
structure Content (text : List Char) (opened : Nat) : Prop where
  oneLine : '\n' ∉ text
  starts : Begins text
  ends : ∃ body last, text = body ++ [last] ∧ last ∈ lineEnds
  read : ∀ base, (Scan.mk .code base).read text = some ⟨.code, braces opened base⟩

/-- A statement without a block. -/
theorem Neutral.content_semicolon {text : List Char} (h : Neutral text) (hbegins : Begins text) :
    Content (text ++ [';']) 0 := by
  refine ⟨by simp [h.oneLine], hbegins.append _, ⟨text, ';', rfl, by decide⟩, ?_⟩
  intro base
  rw [Scan.read_append, h.read]
  rfl

/-- The start of a block. -/
theorem Neutral.content_brace {text : List Char} (h : Neutral text)
    (hbegins : Begins (text ++ ['\x7b'])) : Content (text ++ ['\x7b']) 1 := by
  refine ⟨by simp [h.oneLine], hbegins, ⟨text, '\x7b', rfl, by decide⟩, ?_⟩
  intro base
  rw [Scan.read_append, h.read]
  rfl

/-- What a statement may find before itself in its first line, and the braces that it closes. -/
inductive Lead : List Char → Nat → Prop
  | none : Lead [] 0
  | otherwise : Lead "\x7d else ".toList 1

/-- A whole line is a single entry. -/
theorem IsLine.flat_eq {line : List Char} (h : IsLine line) : flat line = [⟨0, line⟩] := by
  have hlines := h.lines_append []
  rw [List.append_nil, lines_nil] at hlines
  rw [flat, hlines]
  rfl

/-- A line made of a lead and a content fits where the lead closes all braces that are open. -/
theorem Lead.nests {lead text : List Char} {depth opened : Nat} (h : Lead lead depth)
    (htext : Content text opened) : Nests depth (flat (lead ++ text ++ ['\n'])) opened := by
  obtain ⟨first, rest, hstarts, hfirst⟩ := htext.starts
  obtain ⟨body, last, hends, hlast⟩ := htext.ends
  have hline : IsLine (lead ++ text ++ ['\n']) := by
    refine ⟨lead ++ text, ?_, rfl⟩
    rw [List.mem_append, not_or]
    exact ⟨by cases h <;> decide, htext.oneLine⟩
  rw [hline.flat_eq]
  refine .single ⟨?_, ⟨lead ++ body, last, by simp [hends], hlast⟩, ?_⟩
  · simp only [List.mem_cons, List.not_mem_nil, or_false, not_or] at hfirst
    cases h with
    | none => exact ⟨first, rest ++ ['\n'], by simp [hstarts], hfirst.1, by simp [hfirst.2]⟩
    | otherwise => exact ⟨'\x7d', " else ".toList ++ (text ++ ['\n']), by simp, by decide, by simp⟩
  · intro base
    have hlead : (Scan.mk .code (braces depth base)).read lead = some ⟨.code, base⟩ := by
      cases h <;> rfl
    rw [Scan.read_append, Scan.read_append, hlead, Option.bind_some, htext.read, Option.bind_some]
    rfl

/-- The line that closes a block. -/
theorem nests_closing : Nests 1 (flat ['\x7d', '\n']) 0 := by
  have hline : IsLine ['\x7d', '\n'] := ⟨['\x7d'], by decide, rfl⟩
  rw [hline.flat_eq]
  exact .single ⟨⟨'\x7d', ['\n'], rfl, by decide, rfl⟩, ⟨[], '\x7d', rfl, by decide⟩, fun _ => rfl⟩

end PixelLowering.Text

namespace PixelLowering.Target

open PixelLowering.Text

/-! ### Contents of statements -/

theorem Expr.Readable.neutral {t : Expr} (h : t.Readable) : Neutral t.render.toList := by
  rw [← spellAll_tokens]
  exact (properAll_tokens h).neutral

/-- No expression starts with a space or a brace. -/
theorem Expr.Readable.begins {t : Expr} (h : t.Readable) : Begins t.render.toList := by
  obtain ⟨token, rest, htokens⟩ := List.exists_cons_of_ne_nil t.tokens_ne_nil
  have hproper := properAll_tokens h
  rw [htokens, Token.ProperAll] at hproper
  obtain ⟨c, others, hspell, hkind⟩ := hproper.1.startKind
  have hnot : token.kind ≠ .mark := kind_head_tokens (by rw [htokens]; rfl : token ∈ t.tokens.head?)
  refine ⟨c, others ++ Token.spellAll rest, ?_, ?_⟩
  · rw [← spellAll_tokens, htokens, Token.spellAll, hspell]
    rfl
  · intro hc
    simp only [List.mem_cons, List.not_mem_nil, or_false] at hc
    rcases hc with rfl | rfl
    · exact hnot (Option.some.inj hkind).symm
    · cases hkind

theorem neutral_identifier {name : String} (h : isIdentifier name) : Neutral name.toList := by
  have hword := (proper_wordToken h).neutral
  rwa [spell_wordToken] at hword

theorem begins_identifier {name : String} (h : isIdentifier name) : Begins name.toList := by
  have hstarts : [' ', '\x7d'].all (fun c => !isIdentifierStart c) = true := by decide
  unfold isIdentifier at h
  split at h
  · cases h
  · next c rest hname =>
    rw [Bool.and_eq_true] at h
    refine ⟨c, rest, hname, ?_⟩
    intro hc
    simpa [h.1] using List.all_eq_true.1 hstarts c hc

theorem isIdentifier_tyName (ty : Ty) : isIdentifier ty.name := by cases ty <;> decide

/-- The line under a test. -/
theorem content_opening {keyword : String} (hkeyword : isIdentifier keyword) {test : Expr}
    (h : test.Readable) : Content (opening keyword test) 1 := by
  have htext : opening keyword test =
      keyword.toList ++ ([' '] ++ (('(' :: (test.render.toList ++ [')'])) ++ [' '])) ++
        ['\x7b'] := by
    simp [opening]
  rw [htext]
  refine Neutral.content_brace ?_ ?_
  · exact (neutral_identifier hkeyword).append
      ((neutral_spaces 1).append (h.neutral.parens.append (neutral_spaces 1)))
  · exact ((begins_identifier hkeyword).append _).append _

/-- A statement without a block. -/
theorem content_declare {ty : Ty} {name : String} {value? : Option Expr}
    (h : (Stmt.declare ty name value?).Readable) :
    Content (Stmt.render 0 (.declare ty name value?)).toList 0 := by
  rw [Stmt.Readable] at h
  have hname : Neutral (ty.name.toList ++ ([' '] ++ name.toList)) :=
    (neutral_identifier (isIdentifier_tyName ty)).append
      ((neutral_spaces 1).append (neutral_identifier h.1))
  have hbegins := (begins_identifier (isIdentifier_tyName ty)).append ([' '] ++ name.toList)
  cases value? with
  | none =>
    have hcontent := hname.content_semicolon hbegins
    simpa [Stmt.render] using hcontent
  | some value =>
    have hsign : Neutral " = ".toList := neutral_plain (by decide)
    have hvalue := (h.2 value rfl).neutral
    have hcontent := (hname.append (hsign.append hvalue)).content_semicolon (hbegins.append _)
    simpa [Stmt.render] using hcontent

theorem content_assign {name : String} {value : Expr} (h : (Stmt.assign name value).Readable) :
    Content (Stmt.render 0 (.assign name value)).toList 0 := by
  rw [Stmt.Readable] at h
  have hsign : Neutral " = ".toList := neutral_plain (by decide)
  have hcontent := ((neutral_identifier h.1).append (hsign.append h.2.neutral)).content_semicolon
    ((begins_identifier h.1).append _)
  simpa [Stmt.render] using hcontent

theorem content_perform {action : Expr} (h : (Stmt.perform action).Readable) :
    Content (Stmt.render 0 (.perform action)).toList 0 := by
  rw [Stmt.Readable] at h
  simpa [Stmt.render] using h.neutral.content_semicolon h.begins

theorem content_ret {value : Expr} (h : (Stmt.ret value).Readable) :
    Content (Stmt.render 0 (.ret value)).toList 0 := by
  rw [Stmt.Readable] at h
  have hkeyword : Neutral "return ".toList := neutral_plain (by decide)
  have hbegins : Begins "return ".toList := ⟨'r', "eturn ".toList, by simp, by decide⟩
  have hcontent := (hkeyword.append h.neutral).content_semicolon (hbegins.append _)
  simpa [Stmt.render] using hcontent

/-! ### Statements nest -/

/-- The lines inside a block are those of its statements, one step to the right. -/
theorem layoutInside_eq (body : List Stmt) :
    Stmt.layoutInside body = (body.flatMap (Stmt.layout [])).map Entry.raise := by
  induction body with
  | nil => simp [Stmt.layoutInside]
  | cons s rest ih => simp [Stmt.layoutInside, ih]

mutual

/-- The lines of a readable statement fit, wherever it starts. -/
theorem nests_layout : ∀ {s : Stmt}, s.Readable → ∀ {lead : List Char} {depth : Nat},
    Lead lead depth → Nests depth (s.layout lead) 0
  | .declare .., h, _, _, hlead => by
    rw [Stmt.layout]
    exact hlead.nests (content_declare h)
  | .assign .., h, _, _, hlead => by
    rw [Stmt.layout]
    exact hlead.nests (content_assign h)
  | .perform _, h, _, _, hlead => by
    rw [Stmt.layout]
    exact hlead.nests (content_perform h)
  | .ret _, h, _, _, hlead => by
    rw [Stmt.layout]
    exact hlead.nests (content_ret h)
  | .ifThen test body, h, _, _, hlead | .whileLoop test body, h, _, _, hlead => by
    rw [Stmt.Readable] at h
    rw [Stmt.layout, layoutInside_eq]
    exact ((hlead.nests (content_opening (by decide) h.1)).append
      (nests_flatMap h.2).raise).append nests_closing
  | .ifElse test body other, h, _, _, hlead => by
    rw [Stmt.Readable] at h
    rw [Stmt.layout, layoutInside_eq]
    exact ((hlead.nests (content_opening (by decide) h.1)).append
      (nests_flatMap h.2.1).raise).append (nests_layout h.2.2 .otherwise)
  | .block body, h, lead, _, hlead => by
    rw [Stmt.Readable] at h
    have hopen : Content ['\x7b'] 1 :=
      neutral_nil.content_brace ⟨'\x7b', [], rfl, by decide⟩
    have hfirst := hlead.nests hopen
    rw [List.append_assoc] at hfirst
    rw [Stmt.layout, layoutInside_eq]
    exact (hfirst.append (nests_flatMap h).raise).append nests_closing

theorem nests_flatMap : ∀ {body : List Stmt}, Stmt.ReadableAll body →
    Nests 0 (body.flatMap (Stmt.layout [])) 0
  | [], _ => .nil 0
  | s :: rest, h => by
    rw [Stmt.ReadableAll] at h
    rw [List.flatMap_cons]
    exact (nests_layout h.1 .none).append (nests_flatMap h.2)

end

theorem neutral_param {param : Param} (h : isIdentifier param.name) :
    Neutral param.render.toList := by
  have htext := (neutral_identifier (isIdentifier_tyName param.ty)).append
    ((neutral_spaces 1).append (neutral_identifier h))
  simpa [Param.render] using htext

theorem neutral_intercalate {texts : List (List Char)} (h : ∀ text ∈ texts, Neutral text) :
    Neutral ([',', ' '].intercalate texts) := by
  induction texts with
  | nil => simpa using neutral_nil
  | cons first rest ih =>
    rw [List.forall_mem_cons] at h
    cases rest with
    | nil => simpa using h.1
    | cons second rest =>
      have hcomma : Neutral [',', ' '] := neutral_plain (by decide)
      rw [List.intercalate_cons_cons]
      exact (h.1.append hcomma).append (ih h.2)

/-- The line that opens a method, up to its brace. -/
def Method.signature (method : Method) : List Char :=
  method.result.name.toList ++ ([' '] ++ (method.name.toList ++
    ('(' :: ([',', ' '].intercalate (method.params.map fun param => param.render.toList) ++ [')']) ++
      [' '])))

theorem Method.opening_eq (method : Method) : method.opening = method.signature ++ ['\x7b'] := by
  simp [opening, signature, Function.comp_def]

theorem Method.Readable.neutral {method : Method} (h : method.Readable) :
    Neutral method.signature := by
  have hparams : ∀ text ∈ method.params.map (fun param => param.render.toList), Neutral text := by
    intro text htext
    obtain ⟨param, hparam, rfl⟩ := List.mem_map.1 htext
    exact neutral_param (h.params param hparam)
  exact (neutral_identifier (isIdentifier_tyName _)).append ((neutral_spaces 1).append
    ((neutral_identifier h.name).append ((neutral_intercalate hparams).parens.append
      (neutral_spaces 1))))

/-- The lines of a readable method fit. -/
theorem Method.Readable.nests {method : Method} (h : method.Readable) :
    Nests 0 method.layout 0 := by
  have hopening : Content method.opening 1 := by
    rw [method.opening_eq]
    exact h.neutral.content_brace
      (((begins_identifier (isIdentifier_tyName method.result)).append _).append _)
  rw [Method.layout, layoutInside_eq]
  exact ((Lead.none.nests hopening).append (nests_flatMap h.body).raise).append nests_closing

end PixelLowering.Target
