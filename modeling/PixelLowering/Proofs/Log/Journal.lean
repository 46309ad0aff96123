import PixelLowering.Proofs.Lexical.Agreement

/-! The notes that a pass takes on the names it gives.

    They are a matter of the operations and of the names that these were given, one for each
    parameter, variable and loop flag. A name that is not its own is noted, a variable is noted with
    its type, and nothing else is worth a line:

        parameter x   enter   declare x   temporary continue   leave        operations
        x                     x_0         continue$0                        names given
                              x → x_0                                       notes
                              x is x_0, an int

    As lines they start with a level: new names are traced, all else is for debugging.

    The notes on a run in two parts are those on the first part, then those on the second. So what
    an action leaves in the log can be put together from what its parts leave there. -/

namespace PixelLowering.Lower

open PixelLowering.Names
open PixelLowering.Source

/-- The note on a name that was not emitted as it stands. -/
def renamingNote (name emitted : String) : List Event :=
  if emitted = name then [] else [.renamed name emitted]

/-- The notes on operations, with the names that they were given in order. -/
def journal : List Op → List String → List Event
  | .parameter name _ :: rest, emitted :: names => renamingNote name emitted ++ journal rest names
  | .declare name ty :: rest, emitted :: names =>
    renamingNote name emitted ++ .declared name emitted ty :: journal rest names
  | .temporary _ :: rest, _ :: names => journal rest names
  | .enter :: rest, names | .leave :: rest, names => journal rest names
  | _, _ => []

/-! ### Notes as lines -/

/-- The line on a name that was not emitted as it stands. -/
def renamingLine (name emitted : String) : List String :=
  if emitted = name then [] else ["TRACE renaming `" ++ name ++ "` to `" ++ emitted ++ "`"]

/-- The notes on operations as lines of the log: the level first, then what happened. -/
def journalLines : List Op → List String → List String
  | .parameter name _ :: rest, emitted :: names =>
    renamingLine name emitted ++ journalLines rest names
  | .declare name ty :: rest, emitted :: names =>
    renamingLine name emitted ++
      ("DEBUG declared `" ++ name ++ "` as `" ++ emitted ++ "` (" ++ ty.name ++ ")") ::
        journalLines rest names
  | .temporary _ :: rest, _ :: names => journalLines rest names
  | .enter :: rest, names | .leave :: rest, names => journalLines rest names
  | _, _ => []

/-- What each event says in the log. -/
theorem line_eq (event : Event) :
    event.line =
      match event with
      | .compiling program parameters =>
        "DEBUG compiling program `" ++ program ++ "` with " ++ toString parameters ++
          " parameter(s)"
      | .renamed name emitted => "TRACE renaming `" ++ name ++ "` to `" ++ emitted ++ "`"
      | .declared name emitted ty =>
        "DEBUG declared `" ++ name ++ "` as `" ++ emitted ++ "` (" ++ ty.name ++ ")"
      | .generated bytes program =>
        "DEBUG generated " ++ toString bytes ++ " bytes for `" ++ program ++ "`" := by
  have hcompiling : "DEBUG" ++ " " ++ "compiling program `" = "DEBUG compiling program `" := rfl
  have hrenamed : "TRACE" ++ " " ++ "renaming `" = "TRACE renaming `" := rfl
  have hdeclared : "DEBUG" ++ " " ++ "declared `" = "DEBUG declared `" := rfl
  have hgenerated : "DEBUG" ++ " " ++ "generated " = "DEBUG generated " := rfl
  unfold Event.line Event.level Event.message
  cases event with
  | compiling => simp only [← String.append_assoc, hcompiling]
  | renamed => simp only [← String.append_assoc, hrenamed]
  | declared => simp only [← String.append_assoc, hdeclared]
  | generated => simp only [← String.append_assoc, hgenerated]

theorem map_line_renamingNote (name emitted : String) :
    (renamingNote name emitted).map Event.line = renamingLine name emitted := by
  rw [renamingNote, renamingLine]
  split
  · rfl
  · rw [List.map_singleton, line_eq]

/-- Every note is a line. -/
theorem map_line_journal (ops : List Op) (names : List String) :
    (journal ops names).map Event.line = journalLines ops names := by
  fun_induction journal ops names with
  | case1 name ty rest emitted names ih =>
    rw [List.map_append, map_line_renamingNote, ih, journalLines]
  | case2 name ty rest emitted names ih =>
    rw [List.map_append, map_line_renamingNote, List.map_cons, line_eq, ih, journalLines]
  | case3 base rest emitted names ih => rw [ih, journalLines]
  | case4 rest names ih => rw [ih, journalLines]
  | case5 rest names ih => rw [ih, journalLines]
  | case6 ops names hparameter hdeclare htemporary henter hleave =>
    rw [List.map_nil, journalLines] <;> assumption

/-! ### Notes on a run -/

/-- The notes on a run from a table, with the names that it gives. -/
def notes (table : Table) (ops : List Op) : List Event := journal ops (table.run ops).1

theorem notes_nil (table : Table) : notes table [] = [] := by simp [notes, journal]

theorem notes_cons (table : Table) (op : Op) (rest : List Op) :
    notes table (op :: rest) = notes table [op] ++ notes (table.step op).2 rest := by
  cases op <;> simp [notes, journal, Table.step]

/-- The second part of a run goes on where the first one ends, and so do its notes. -/
theorem notes_append (table : Table) (first second : List Op) :
    notes table (first ++ second) =
      notes table first ++ notes (table.run first).2 second := by
  induction first generalizing table with
  | nil => rw [notes_nil, List.nil_append, List.nil_append, Table.run_nil]
  | cons op rest ih =>
    rw [List.cons_append, notes_cons, ih, notes_cons table op rest, List.append_assoc,
      Table.run_cons]

/-! ### Steps of a pass -/

/-- A pass has taken some operations: its table has run them, and its log has the notes on them. -/
structure Pass.Took (pass : Pass) (ops : List Op) (after : Pass) : Prop where
  names : after.names = (pass.names.run ops).2
  log : after.log = pass.log ++ notes pass.names ops

namespace Pass

variable {pass middle after : Pass}

theorem Took.refl (pass : Pass) : pass.Took [] pass :=
  ⟨rfl, by rw [notes_nil, List.append_nil]⟩

theorem Took.append {first second : List Op} (h : pass.Took first middle)
    (h' : middle.Took second after) : pass.Took (first ++ second) after := by
  refine ⟨?_, ?_⟩
  · rw [h'.names, h.names, Table.run_append]
  · rw [h'.log, h.log, h.names, notes_append, List.append_assoc]

/-- Opening or closing a scope, or taking the name of a loop flag, leaves no note. -/
theorem took_unnoted (pass : Pass) (op : Op) (hop : notes pass.names [op] = []) :
    pass.Took [op] { pass with names := (pass.names.step op).2 } :=
  ⟨rfl, by rw [hop, List.append_nil]⟩

theorem log_recordRenaming (pass : Pass) (name emitted : String) :
    (pass.recordRenaming name emitted).log = pass.log ++ renamingNote name emitted := by
  rw [recordRenaming, renamingNote]
  split
  · rw [List.append_nil]
  · rfl

theorem took_declareParameter (pass : Pass) (name : String) (ty : Ty) :
    pass.Took [.parameter name ty] (pass.declareParameter name ty).2 := by
  refine ⟨Lexical.recordRenaming_names _ _ _, ?_⟩
  simp [declareParameter, log_recordRenaming, notes, journal, Table.step]

/-- A variable is noted at once when it is declared. -/
theorem took_declare (pass : Pass) (name : String) (ty : Ty) :
    pass.Took [.declare name ty]
      ((pass.declare name ty).2.record (.declared name (pass.declare name ty).1 ty)) := by
  refine ⟨Lexical.recordRenaming_names _ _ _, ?_⟩
  simp [declare, record, log_recordRenaming, notes, journal, Table.step]

end Pass

end PixelLowering.Lower
