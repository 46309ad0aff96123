import Mathlib.Data.List.Find
import Mathlib.Data.List.FinRange
import PixelLowering.Proofs.Guarded.Flag
import PixelLowering.Proofs.Guarded.Meaning
import PixelLowering.Proofs.Guarded.Printed

/-! Guarded statements keep their meaning.

    A choice becomes tests one after another. A loop becomes a `while` over a flag that is lowered
    before the guards are tried and raised again by the arm that is taken, so that the flag is up
    after a round exactly when some guard held in it:

        source     first guard that holds: run its block, again   …   no guard holds: stop
        target     flag down, test, flag up, block                …   flag down, no test holds: stop

    One round of the target is one round of the source, with the flag beside it. That guards and
    blocks leave the flag alone is all that is asked of what they mean; their code does so, as the
    flag is a name of its own. -/

namespace PixelLowering.Guarded

open PixelLowering.Lower

variable {α ω ρ : Type}

@[simp] theorem andThen_ended (m : Memory ω) (next : Memory ω → Progress ω ρ) :
    andThen (some (.ended m)) next = next m := rfl

@[simp] theorem andThen_returned (result : ρ) (next : Memory ω → Progress ω ρ) :
    andThen (some (.returned result)) next = some (.returned result) := rfl

@[simp] theorem andThen_none (next : Memory ω → Progress ω ρ) :
    andThen (none : Progress ω ρ) next = none := rfl

theorem andThen_assoc (first : Progress ω ρ) (next next' : Memory ω → Progress ω ρ) :
    andThen (andThen first next) next' = andThen first fun m => andThen (next m) next' := by
  match first with
  | none => rfl
  | some (.ended m) => rfl
  | some (.returned result) => rfl

namespace Code

/-! ### The code that guarded blocks become -/

/-- Tests become a chain of target statements: at most one statement in all. -/
theorem stmts_tests (lowered : α → Arm) (inner : α → Code α) {last? : Option (Code α)}
    {end? : Option Target.Stmt} (hlast : last?.map (stmts lowered) = end?.map ([·])) :
    ∀ arms : List α, (tests inner last? arms).map (stmts lowered) =
      (chain end? (arms.map fun a => ⟨(lowered a).test, (inner a).stmts lowered⟩)).map ([·])
  | [] => hlast
  | a :: rest => by
    have ih := stmts_tests lowered inner hlast rest
    rw [tests, List.map_cons, chain]
    cases hcode : tests inner last? rest with
    | none =>
      rw [hcode, Option.map_none, eq_comm, Option.map_eq_none_iff] at ih
      rw [ih]
      rfl
    | some other =>
      rw [hcode, Option.map_some, eq_comm, Option.map_eq_some_iff] at ih
      obtain ⟨s, hs, hother⟩ := ih
      rw [hs]
      simp only [Option.map_some, stmts, ← hother, single]

theorem stmts_getD_tests (lowered : α → Arm) (inner : α → Code α) {last? : Option (Code α)}
    {end? : Option Target.Stmt} (hlast : last?.map (stmts lowered) = end?.map ([·]))
    (arms : List α) :
    ((tests inner last? arms).getD skip).stmts lowered =
      (chain end? (arms.map fun a => ⟨(lowered a).test, (inner a).stmts lowered⟩)).toList := by
  have h := stmts_tests lowered inner hlast arms
  generalize chain end? _ = s? at h ⊢
  cases htests : tests inner last? arms with
  | none =>
    rw [htests, Option.map_none, eq_comm, Option.map_eq_none_iff] at h
    rw [h]
    rfl
  | some code =>
    rw [htests, Option.map_some, eq_comm, Option.map_eq_some_iff] at h
    obtain ⟨s, hs, hcode⟩ := h
    rw [hs]
    exact hcode.symm

theorem stmts_flagLoop (lowered : α → Arm) (flag : String) (arms : List α) :
    (flagLoop flag arms).stmts lowered = loopStmts flag (arms.map lowered) := by
  have hlast : (none : Option (Code α)).map (stmts lowered) =
      (none : Option Target.Stmt).map ([·]) := rfl
  have h := stmts_getD_tests lowered (fun a => seq (assign flag true) (braces (body a))) hlast arms
  rw [flagLoop, loopStmts]
  simp only [stmts, h, List.map_map]
  rfl

theorem stmts_ifs (lowered : α → Arm) (closed : Bool) (arms : List α) :
    (ifs closed arms).stmts lowered =
      (chain (if closed then some (.block []) else none) (arms.map lowered)).toList := by
  have hlast : (if closed then some (braces (skip : Code α)) else none).map (stmts lowered) =
      (if closed then some (Target.Stmt.block []) else none).map ([·]) := by
    cases closed <;> rfl
  rw [ifs, stmts_getD_tests lowered body hlast arms]
  rfl

/-! ### What that code does -/

variable (meaning : α → Meaning ω ρ)

/-- Tests take the first guard that holds. -/
theorem run_tests (inner : α → Code α) (last? : Option (Code α)) (rounds : Nat) (m : Memory ω) :
    ∀ arms : List α, ((tests inner last? arms).getD skip).run meaning rounds m =
      match arms.find? fun a => (meaning a).holds m with
      | none => (last?.getD skip).run meaning rounds m
      | some a => (inner a).run meaning rounds m
  | [] => rfl
  | a :: rest => by
    have ih := run_tests inner last? rounds m rest
    rw [List.find?_cons, tests]
    cases hholds : (meaning a).holds m with
    | true => cases tests inner last? rest <;> simp [run, hholds]
    | false =>
      rw [← ih]
      cases tests inner last? rest <;> simp [run, hholds]

/-- A choice is run as the source says, with or without the empty `else`. -/
theorem run_ifs (closed : Bool) (arms : List α) (rounds : Nat) (m : Memory ω) :
    (ifs closed arms).run meaning rounds m = choice meaning arms m := by
  rw [ifs, run_tests, choice]
  cases arms.find? fun a => (meaning a).holds m with
  | some a => rfl
  | none => cases closed <;> rfl

variable {meaning} {flag : String} {arms : List α}

/-- One round of the target: with the flag down the guards are tried as in the source, and the block
    that is taken runs with the flag up. -/
theorem run_round (hignore : ∀ a ∈ arms, (meaning a).Ignores flag) (rounds : Nat) (m : Memory ω) :
    (seq (assign flag false) ((tests (fun a => seq (assign flag true) (braces (body a))) none
      arms).getD skip)).run meaning rounds (m.set flag true) =
      match arms.find? fun a => (meaning a).holds m with
      | none => some (.ended (m.set flag false))
      | some a => settingFlag flag true ((meaning a).run m) := by
  have hfind : (arms.find? fun a => (meaning a).holds (m.set flag false)) =
      arms.find? fun a => (meaning a).holds m :=
    List.find?_congr fun a ha => (hignore a ha).holds m false
  simp only [run, andThen_ended, Memory.set_set]
  rw [run_tests, hfind]
  cases hfirst : arms.find? fun a => (meaning a).holds m with
  | none => rfl
  | some a =>
    simp only [run, andThen_ended, Memory.set_set]
    exact (hignore a (List.mem_of_find?_eq_some hfirst)).run m true

/-- Rounds of the target are rounds of the source, by induction on their number: the flag is up
    before each of them and down after the last. -/
theorem whileDo_round (hignore : ∀ a ∈ arms, (meaning a).Ignores flag) (total rounds : Nat)
    (m : Memory ω) :
    whileDo (·.flags flag) ((seq (assign flag false)
      ((tests (fun a => seq (assign flag true) (braces (body a))) none arms).getD skip)).run
        meaning total) rounds (m.set flag true) =
      settingFlag flag false (loop meaning arms rounds m) := by
  induction rounds generalizing m with
  | zero => simp [whileDo, loop, settingFlag]
  | succ rounds ih =>
    rw [whileDo, if_pos (Memory.flags_set m flag true), run_round hignore, loop]
    cases arms.find? fun a => (meaning a).holds m with
    | none => cases rounds <;> simp [whileDo, settingFlag]
    | some a =>
      simp only [settingFlag, andThen_assoc, andThen_ended]
      congr 1
      funext m'
      exact ih m'

/-- A loop is run as the source says, except that its flag is down at the end. -/
theorem run_flagLoop (hignore : ∀ a ∈ arms, (meaning a).Ignores flag) (rounds : Nat)
    (m : Memory ω) :
    (flagLoop flag arms).run meaning rounds m =
      settingFlag flag false (loop meaning arms rounds m) := by
  rw [flagLoop, run, run, andThen_ended, run]
  exact whileDo_round hignore rounds rounds m

end Code

/-! ### Ends, returns, runs for ever -/

/-- Some number of rounds is enough to come to the end, in this memory. -/
def Ends (progress : Nat → Progress ω ρ) (m : Memory ω) : Prop :=
  ∃ rounds, progress rounds = some (.ended m)

/-- Some number of rounds is enough to return, with this result. -/
def Returns (progress : Nat → Progress ω ρ) (result : ρ) : Prop :=
  ∃ rounds, progress rounds = some (.returned result)

/-- No number of rounds is enough. -/
def RunsForever (progress : Nat → Progress ω ρ) : Prop := ∀ rounds, progress rounds = none

theorem settingFlag_eq_ended {flag : String} {value : Bool} {progress : Progress ω ρ}
    {m : Memory ω} :
    settingFlag flag value progress = some (.ended m) ↔
      ∃ m', progress = some (.ended m') ∧ m = m'.set flag value := by
  match progress with
  | none => simp [settingFlag]
  | some (.returned result) => simp [settingFlag]
  | some (.ended m') => simp [settingFlag, eq_comm]

theorem settingFlag_eq_returned {flag : String} {value : Bool} {progress : Progress ω ρ}
    {result : ρ} :
    settingFlag flag value progress = some (.returned result) ↔
      progress = some (.returned result) := by
  match progress with
  | none => simp [settingFlag]
  | some (.returned result) => simp [settingFlag]
  | some (.ended m') => simp [settingFlag]

theorem settingFlag_eq_none {flag : String} {value : Bool} {progress : Progress ω ρ} :
    settingFlag flag value progress = none ↔ progress = none := by
  match progress with
  | none => simp [settingFlag]
  | some (.returned result) => simp [settingFlag]
  | some (.ended m') => simp [settingFlag]

/-- A loop of the target ends, returns and runs for ever exactly when the loop of the source does,
    and ends in the same memory up to its flag. -/
theorem flagLoop_behaves {meaning : α → Meaning ω ρ} {flag : String} {arms : List α}
    (hignore : ∀ a ∈ arms, (meaning a).Ignores flag) (m : Memory ω) :
    let source := fun rounds => loop meaning arms rounds m
    let target := fun rounds => (Code.flagLoop flag arms).run meaning rounds m
    (∀ m', Ends target m' ↔ ∃ m'', Ends source m'' ∧ m' = m''.set flag false) ∧
    (∀ result, Returns target result ↔ Returns source result) ∧
    (RunsForever target ↔ RunsForever source) := by
  simp only [Ends, Returns, RunsForever, Code.run_flagLoop hignore, settingFlag_eq_ended,
    settingFlag_eq_returned, settingFlag_eq_none, and_true, implies_true]
  intro m'
  constructor
  · rintro ⟨rounds, m'', hm'', heq⟩
    exact ⟨m'', ⟨rounds, hm''⟩, heq⟩
  · rintro ⟨m'', ⟨rounds, hm''⟩, heq⟩
    exact ⟨rounds, m'', hm'', heq⟩

end PixelLowering.Guarded

namespace PixelLowering.Lower

open PixelLowering.Guarded
open PixelLowering.Names
open PixelLowering.Source

/-- The text of a statement, at the outermost level. -/
def stmtText (width : Nat) (s : Stmt) : LowerM String :=
  Target.Stmt.renderLines width <$> lowerStmt s

theorem run_stmtText {pass after : Pass} {width : Nat} {s : Stmt} {text : String}
    (h : pass.run (stmtText width s) = (.ok text, after)) :
    ∃ code, pass.run (lowerStmt s) = (.ok code, after) ∧
      text = Target.Stmt.renderLines width code := by
  rw [stmtText, map_eq_pure_bind, Pass.run_bind_eq_ok] at h
  obtain ⟨code, middle, hcode, htext⟩ := h
  cases htext
  exact ⟨code, hcode, rfl⟩

/-- Guarded blocks in the target, in order: each guard as it is lowered with the names of the pass,
    each block as it is lowered where the block before it has left the pass, with the same
    bindings. -/
inductive LoweredArms (pass : Pass) : Pass → List (Guarded Stmt) → List Arm → Pass → Prop
  | nil (before : Pass) : LoweredArms pass before [] [] before
  | cons {before middle after : Pass} {arm : Guarded Stmt} {lowered : Arm}
      {rest : List (Guarded Stmt)} {others : List Arm}
      (bindings : pass.names.SameBindings before.names)
      (guard : lowerExpr pass.names.resolve? arm.guard = .ok lowered.test)
      (body : before.run (lowerBlock arm.body) = (.ok lowered.body, middle))
      (next : LoweredArms pass middle rest others after) :
      LoweredArms pass before (arm :: rest) (lowered :: others) after

theorem LoweredArms.length_eq {pass before after : Pass} {arms : List (Guarded Stmt)}
    {lowered : List Arm} (h : LoweredArms pass before arms lowered after) :
    lowered.length = arms.length := by
  induction h with
  | nil => rfl
  | cons _ _ _ _ ih => rw [List.length_cons, List.length_cons, ih]

theorem LoweredArms.ne_nil {pass before after : Pass} {arms : List (Guarded Stmt)}
    {lowered : List Arm} (h : LoweredArms pass before arms lowered after) (hne : arms ≠ []) :
    lowered ≠ [] := by
  rw [← List.length_pos_iff, h.length_eq, List.length_pos_iff]
  exact hne

/-- Guarded blocks are lowered one by one, in order. -/
theorem lowerArms_lowered {pass : Pass} : ∀ {arms : List (Guarded Stmt)} {before after : Pass}
    {lowered : List Arm}, pass.names.SameBindings before.names →
      before.run (lowerArms arms) = (.ok lowered, after) →
        LoweredArms pass before arms lowered after
  | [], before, after, lowered, _, h => by
    rw [lowerArms] at h
    cases h
    exact .nil before
  | ⟨guard, body⟩ :: rest, before, after, lowered, hsame, h => by
    simp only [lowerArms, Pass.run_bind_eq_ok] at h
    obtain ⟨test, _, hguard, code, middle, hbody, others, last, hrest, hcons⟩ := h
    cases hcons
    obtain ⟨htest, rfl⟩ := (Pass.run_inScope_eq_ok _).1 hguard
    rw [hsame.resolve?] at htest
    have hmiddle := hsame.trans (Lexical.lowerBlock_sameBindings hbody)
    exact .cons hsame htest hbody (lowerArms_lowered hmiddle hrest)

/-- A loop takes a flag, then lowers its arms. -/
theorem run_loop {pass after : Pass} {arms : List (Guarded Stmt)} {code : List Target.Stmt}
    (hne : arms ≠ []) (h : pass.run (lowerStmt (.loop arms)) = (.ok code, after)) :
    ∃ lowered, (pass.temporary flagBase).2.run (lowerArms arms) = (.ok lowered, after) ∧
      code = loopStmts (pass.temporary flagBase).1 lowered := by
  rw [lowerStmt, if_neg (by simpa using hne)] at h
  simp only [Pass.run_bind_eq_ok, Pass.run_temporary] at h
  obtain ⟨flag, _, hflag, lowered, last, hlowered, hcode⟩ := h
  cases hflag
  cases hcode
  exact ⟨lowered, hlowered, rfl⟩

/-- A choice only lowers its arms. -/
theorem run_branch {pass after : Pass} {arms : List (Guarded Stmt)} {code : List Target.Stmt}
    (h : pass.run (lowerStmt (.branch arms)) = (.ok code, after)) :
    ∃ lowered, pass.run (lowerArms arms) = (.ok lowered, after) ∧
      code = (chain (lastResort? arms) lowered).toList := by
  rw [lowerStmt, Pass.run_bind_eq_ok] at h
  obtain ⟨lowered, last, hlowered, hcode⟩ := h
  cases hcode
  exact ⟨lowered, hlowered, rfl⟩

/-- The last resort of a choice is the empty block, unless the last guard is always true. -/
theorem lastResort?_eq (arms : List (Guarded Stmt)) :
    lastResort? arms =
      if arms.getLast?.any fun arm => !arm.guard.isTrue then some (.block []) else none := by
  rw [lastResort?]
  cases arms.getLast? with
  | none => rfl
  | some arm => cases h : arm.guard.isTrue <;> simp [h]

/-- In the history of a pass, from its start to any later point, the flag of a loop is given
    once. -/
theorem count_flag (history during : List Op) {pass : Pass}
    (hpass : pass.names = (({} : Table).run history).2) :
    (({} : Table).run (history ++ .temporary flagBase :: during)).1.count
      (pass.temporary flagBase).1 = 1 := by
  refine List.count_eq_one_of_mem (Table.nodup_run _) ?_
  rw [Table.run_append, ← hpass]
  exact List.mem_append_right _ List.mem_cons_self

/-- In the history of a pass, the names given while the arms of a loop are lowered are those that
    the blocks declare. -/
theorem lowerArms_history {before after : Pass} {arms : List (Guarded Stmt)} {lowered : List Arm}
    (hrun : before.run (lowerArms arms) = (.ok lowered, after)) :
    ∃ during, after.names = (before.names.run during).2 ∧
      (before.names.run during).1 = declaredInArms lowered := by
  obtain ⟨during, hduring⟩ := lowerArms_steers arms before
  rw [hrun] at hduring
  obtain ⟨names, rfl, hemitted⟩ := lowerArms_uses arms before lowered after hrun
  refine ⟨during, hduring, ?_⟩
  rwa [hduring, Table.emitted_run, List.append_cancel_right_eq, List.reverse_inj] at hemitted

/-- Guarded statements keep their meaning. Take any pass, with any history of its names.

    A loop with arms that is lowered has the text of a `while` over a flag, with its guards and
    blocks in order, each of them lowered where the one before it has left the pass. The flag is a
    new name that no other name given before or after it equals: the code declares it once, outside
    of the blocks, and guards and blocks do not mention it. And whatever guards and blocks mean, as
    long as they leave the flag alone, that code ends in a memory, returns with a result or runs for
    ever exactly when the loop of the source does.

    A choice that is lowered has the text of a chain of tests, with the empty `else` unless its last
    guard is the literal true, and does what the choice of the source does.

    Without arms both have no text and leave the pass as it was. -/
theorem guarded_statements_keep_meaning (history : List Op) (pass : Pass)
    (hpass : pass.names = (({} : Table).run history).2) (width : Nat)
    (arms : List (Guarded Stmt)) :
    (∀ text after, arms ≠ [] → pass.run (stmtText width (.loop arms)) = (.ok text, after) →
      ∃ (flag : String) (lowered : List Arm),
        let code := Code.flagLoop flag (List.finRange lowered.length)
        (pass.temporary flagBase).2.run (lowerArms arms) = (.ok lowered, after) ∧
        LoweredArms pass (pass.temporary flagBase).2 arms lowered after ∧
        text = loopText width flag lowered ∧
        text = Target.Stmt.renderLines width (code.stmts lowered.get) ∧
        FlagApart pass flag lowered (code.stmts lowered.get) ∧
        (∃ during, after.names = (({} : Table).run (history ++ .temporary flagBase :: during)).2 ∧
          ((pass.temporary flagBase).2.names.run during).1 = declaredInArms lowered ∧
          ∀ later, (({} : Table).run
            (history ++ .temporary flagBase :: (during ++ later))).1.count flag = 1) ∧
        ∀ (ω ρ : Type) (meaning : Fin lowered.length → Meaning ω ρ),
          (∀ i, (meaning i).Ignores flag) → ∀ m : Memory ω,
            let source := fun rounds => loop meaning (List.finRange lowered.length) rounds m
            let target := fun rounds => code.run meaning rounds m
            (∀ m', Ends target m' ↔ ∃ m'', Ends source m'' ∧ m' = m''.set flag false) ∧
            (∀ result, Returns target result ↔ Returns source result) ∧
            (RunsForever target ↔ RunsForever source)) ∧
    (∀ text after, pass.run (stmtText width (.branch arms)) = (.ok text, after) →
      ∃ lowered : List Arm,
        let closed := arms.getLast?.any fun arm => !arm.guard.isTrue
        let code := Code.ifs closed (List.finRange lowered.length)
        pass.run (lowerArms arms) = (.ok lowered, after) ∧
        LoweredArms pass pass arms lowered after ∧
        (arms ≠ [] → text = choiceText width closed lowered) ∧
        text = Target.Stmt.renderLines width (code.stmts lowered.get) ∧
        ∀ (ω ρ : Type) (meaning : Fin lowered.length → Meaning ω ρ) (rounds : Nat) (m : Memory ω),
          code.run meaning rounds m = choice meaning (List.finRange lowered.length) m) ∧
    (arms = [] → pass.run (stmtText width (.loop arms)) = (.ok "", pass) ∧
      pass.run (stmtText width (.branch arms)) = (.ok "", pass)) := by
  have hsound : pass.names.Sound := by
    rw [hpass]
    exact Table.sound_empty.run history
  refine ⟨?_, ?_, ?_⟩
  · intro text after hne htext
    obtain ⟨code, hcode, rfl⟩ := run_stmtText htext
    obtain ⟨lowered, hlowered, rfl⟩ := run_loop hne hcode
    obtain ⟨during, hduring, hgiven⟩ := lowerArms_history hlowered
    have hsame : pass.names.SameBindings (pass.temporary flagBase).2.names :=
      (pass.names.temporary_emits flagBase).sameBindings
    have harms := lowerArms_lowered hsame hlowered
    have hafter : after.names =
        (({} : Table).run (history ++ .temporary flagBase :: during)).2 := by
      rw [Table.run_append, ← hpass]
      exact hduring
    have hstmts : (Code.flagLoop (pass.temporary flagBase).1
        (List.finRange lowered.length)).stmts lowered.get =
        loopStmts (pass.temporary flagBase).1 lowered := by
      rw [Code.stmts_flagLoop, ← List.ofFn_eq_map, List.ofFn_get]
    refine ⟨(pass.temporary flagBase).1, lowered, hlowered, harms, ?_, ?_, ?_,
      ⟨during, hafter, hgiven, ?_⟩, ?_⟩
    · exact renderLines_loopStmts (harms.ne_nil hne)
    · rw [hstmts]
    · rw [hstmts]
      refine flagApart_of_run hsound ?_ hlowered
      rw [hafter]
      exact Table.sound_empty.run _
    · exact fun later => count_flag history (during ++ later) hpass
    · intro ω ρ meaning hignore m
      exact flagLoop_behaves (fun i _ => hignore i) m
  · intro text after htext
    obtain ⟨code, hcode, rfl⟩ := run_stmtText htext
    obtain ⟨lowered, hlowered, rfl⟩ := run_branch hcode
    have harms := lowerArms_lowered (.refl _) hlowered
    refine ⟨lowered, hlowered, harms, ?_, ?_, ?_⟩
    · intro hne
      rw [lastResort?_eq, renderLines_choice (harms.ne_nil hne)]
    · rw [Code.stmts_ifs, ← List.ofFn_eq_map, List.ofFn_get, lastResort?_eq]
    · intro ω ρ meaning rounds m
      exact Code.run_ifs meaning _ _ rounds m
  · rintro rfl
    exact ⟨rfl, rfl⟩

/-- Counts a variable down to zero: an odd one by one, any other by two, for which a second variable
    counts the steps in a loop of its own. -/
def countdown : List (Guarded Stmt) :=
  let info (ty : Ty) : Info := ⟨ty, .unknown⟩
  let var (name : String) : Expr := .ident (info .int) name
  let num (text : String) : Expr := .num (info .int) text
  let positive (name : String) : Expr := .binary (info .bool) .gt (var name) (num "0")
  let less (name : String) : Stmt :=
    .assign ⟨name, .int, none, none, .unknown⟩ (.binary (info .int) .minus (var name) (num "1"))
  [⟨.binary (info .bool) .eq (.binary (info .int) .mod (var "x") (num "2")) (num "1"), [less "x"]⟩,
    ⟨positive "x", [.decl ⟨"n", .int, none, .unknown⟩ (some (num "2")),
      .loop [⟨positive "n", [less "x", less "n"]⟩]]⟩]

/-- The names of a pass in which `x` is a parameter and a loop has been lowered before. -/
def countdownHistory : List Op := [.parameter "x" .int, .enter, .temporary flagBase]

def countdownPass : Pass := ⟨(({} : Table).run countdownHistory).2, []⟩

/-- Its arms in the target: the inner loop has a flag of its own, and so had the loop before. -/
def countdownArms : List Arm :=
  let positive (name : String) : Target.Expr := .infixed .gt (.var name) (.literal "0")
  let less (name : String) : Target.Stmt :=
    .assign name (.infixed .minus (.var name) (.literal "1"))
  [⟨.infixed .eq (.infixed .mod (.var "x") (.literal "2")) (.literal "1"), [less "x"]⟩,
    ⟨positive "x", .declare .int "n" (some (.literal "2")) ::
      loopStmts "continue$2" [⟨positive "n", [less "x", less "n"]⟩]⟩]

/-- Its text, with nothing moved to the right. -/
def countdownText : String :=
  "boolean continue$1 = true;\n" ++
  "while (continue$1) \x7b\n" ++
  "continue$1 = false;\n" ++
  "if (((x % 2) == 1)) \x7b\n" ++
  "continue$1 = true;\n" ++
  "\x7b\n" ++
  "x = (x - 1);\n" ++
  "\x7d\n" ++
  "\x7d else if ((x > 0)) \x7b\n" ++
  "continue$1 = true;\n" ++
  "\x7b\n" ++
  "int n = 2;\n" ++
  "boolean continue$2 = true;\n" ++
  "while (continue$2) \x7b\n" ++
  "continue$2 = false;\n" ++
  "if ((n > 0)) \x7b\n" ++
  "continue$2 = true;\n" ++
  "\x7b\n" ++
  "x = (x - 1);\n" ++
  "n = (n - 1);\n" ++
  "\x7d\n\x7d\n\x7d\n\x7d\n\x7d\n\x7d\n"

theorem loopText_countdownArms : loopText 0 "continue$1" countdownArms = countdownText := by
  simp only [countdownArms, loopText, blockText, Text.indent_zero, List.map_cons, List.map_nil,
    Target.Stmt.renderLines]
  rw [renderLines_loopStmts (List.cons_ne_nil _ _)]
  simp only [loopText, blockText, Text.indent_zero, List.map_cons, List.map_nil,
    Target.Stmt.renderLines]
  decide +kernel

/-- What its guarded blocks do, when all there is in memory is the value of `x`. -/
def countdownMeaning : Nat → Meaning Nat Unit
  | 0 => ⟨fun m => m.rest % 2 == 1, fun m => some (.ended { m with rest := m.rest - 1 })⟩
  | _ => ⟨fun m => decide (0 < m.rest), fun m => some (.ended { m with rest := m.rest - 2 })⟩

theorem countdownMeaning_ignores (flag : String) : ∀ i, (countdownMeaning i).Ignores flag
  | 0 => ⟨fun _ _ => rfl, fun _ _ => rfl⟩
  | _ + 1 => ⟨fun _ _ => rfl, fun _ _ => rfl⟩

/-- From 5 the loop of the source goes to 4, 2 and 0, and stops when it is tried once more. -/
theorem guarded_statements_keep_meaning_countdown :
    ∃ after,
      countdownPass.run (stmtText 0 (.loop countdown)) = (.ok countdownText, after) ∧
      LoweredArms countdownPass (countdownPass.temporary flagBase).2 countdown countdownArms
        after ∧
      declaredInArms countdownArms = ["n", "continue$2"] ∧
      FlagApart countdownPass "continue$1" countdownArms
        ((Code.flagLoop "continue$1" (List.finRange 2)).stmts countdownArms.get) ∧
      Ends (fun rounds => (Code.flagLoop "continue$1" (List.finRange 2)).run
        (fun i : Fin 2 => countdownMeaning i) rounds ⟨fun _ => false, 5⟩)
        (Memory.set ⟨fun _ => false, 0⟩ "continue$1" false) := by
  have hok : (countdownPass.run (stmtText 0 (.loop countdown))).1.isOk = true := by decide +kernel
  have harms : ((countdownPass.temporary flagBase).2.run (lowerArms countdown)).1 =
    .ok countdownArms := rfl
  rcases hrun : countdownPass.run (stmtText 0 (.loop countdown)) with ⟨result, after⟩
  rw [hrun] at hok
  cases result with
  | error stop => cases hok
  | ok text =>
    obtain ⟨flag, lowered, hlowered, hinOrder, htext, -, hflag, -, hbehaves⟩ :=
      (guarded_statements_keep_meaning countdownHistory countdownPass rfl 0 countdown).1
        text after (List.cons_ne_nil _ _) hrun
    rw [hlowered] at harms
    cases harms
    have hname : flag = "continue$1" := by
      rw [hflag.given]
      decide +kernel
    subst hname
    have hends : Ends (fun rounds => loop (fun i : Fin 2 => countdownMeaning i) (List.finRange 2)
      rounds ⟨fun _ => false, 5⟩) ⟨fun _ => false, 0⟩ := ⟨4, rfl⟩
    obtain ⟨hiff, -, -⟩ := hbehaves Nat Unit (fun i => countdownMeaning i)
      (fun i => countdownMeaning_ignores "continue$1" i) ⟨fun _ => false, 5⟩
    refine ⟨after, ?_, hinOrder, by decide +kernel, hflag, (hiff _).2 ⟨_, hends, rfl⟩⟩
    rw [htext, loopText_countdownArms]

end PixelLowering.Lower
