import PixelLowering.Lower.Statement

/-! What guarded statements mean, and what the target code around guarded blocks does.

    A guard is a predicate on the memory, a block changes the memory, or returns from the method, or
    never stops. The guarded statements of the source are then

        choice   run the block of the first guard that holds; do nothing if none does
        loop     do so again and again until no guard holds

    Target code is built from the same guards and blocks with tests, a flag and a `while`. `Code` is
    that code with the guarded blocks left open: `stmts` fills in lowered guards and blocks, which
    gives target statements, and `run` fills in meanings, which gives what happens. Loops are run
    for a number of rounds; code that is not through after any number of rounds runs for ever. -/

namespace PixelLowering.Guarded

open PixelLowering.Lower

/-- Memory of a method: its boolean variables, and everything else. -/
structure Memory (ω : Type) where
  flags : String → Bool
  rest : ω

/-- The memory after a boolean variable is set. -/
def Memory.set {ω : Type} (m : Memory ω) (flag : String) (value : Bool) : Memory ω :=
  { m with flags := fun name => if name = flag then value else m.flags name }

@[simp] theorem Memory.flags_set {ω : Type} (m : Memory ω) (flag : String) (value : Bool) :
    (m.set flag value).flags flag = value := by
  simp [set]

@[simp] theorem Memory.set_set {ω : Type} (m : Memory ω) (flag : String) (v w : Bool) :
    (m.set flag v).set flag w = m.set flag w := by
  simp only [set, Memory.mk.injEq, and_true]
  funext name
  split <;> rfl

/-- How code stops: it comes to its end, or it returns from the method with a result. -/
inductive Outcome (ω ρ : Type) where
  | ended (m : Memory ω)
  | returned (result : ρ)

/-- What became of code after some rounds; nothing if it is not through yet. -/
abbrev Progress (ω ρ : Type) := Option (Outcome ω ρ)

/-- What a guard and its block mean. A block that gives no outcome never stops. -/
structure Meaning (ω ρ : Type) where
  holds : Memory ω → Bool
  run : Memory ω → Progress ω ρ

variable {α ω ρ : Type}

/-- Goes on from where the first part came to its end. -/
def andThen (first : Progress ω ρ) (next : Memory ω → Progress ω ρ) : Progress ω ρ :=
  match first with
  | some (.ended m) => next m
  | stopped => stopped

/-- The same progress with a flag set at the end. -/
def settingFlag (flag : String) (value : Bool) (progress : Progress ω ρ) : Progress ω ρ :=
  andThen progress fun m => some (.ended (m.set flag value))

/-- Neither the guard reads a flag nor the block reads or changes it. -/
structure Meaning.Ignores (meaning : Meaning ω ρ) (flag : String) : Prop where
  holds : ∀ m value, meaning.holds (m.set flag value) = meaning.holds m
  run : ∀ m value, meaning.run (m.set flag value) = settingFlag flag value (meaning.run m)

/-! ### The source -/

/-- A choice: the block of the first guard that holds. -/
def choice (meaning : α → Meaning ω ρ) (arms : List α) (m : Memory ω) : Progress ω ρ :=
  match arms.find? fun a => (meaning a).holds m with
  | none => some (.ended m)
  | some a => (meaning a).run m

/-- A loop, when the guards are tried at most a number of times. -/
def loop (meaning : α → Meaning ω ρ) (arms : List α) : Nat → Memory ω → Progress ω ρ
  | 0, _ => none
  | rounds + 1, m =>
    match arms.find? fun a => (meaning a).holds m with
    | none => some (.ended m)
    | some a => andThen ((meaning a).run m) (loop meaning arms rounds)

/-! ### The target -/

/-- Target code around guarded blocks of type `α`. -/
inductive Code (α : Type) where
  /-- nothing -/
  | skip
  /-- one piece of code after another -/
  | seq (first second : Code α)
  /-- `boolean flag = value;` -/
  | declare (flag : String) (value : Bool)
  /-- `flag = value;` -/
  | assign (flag : String) (value : Bool)
  /-- the statements of a guarded block -/
  | body (arm : α)
  /-- `{ inner }` -/
  | braces (inner : Code α)
  /-- `if (guard) { yes }` -/
  | ifThen (arm : α) (yes : Code α)
  /-- `if (guard) { yes } else no` -/
  | ifElse (arm : α) (yes no : Code α)
  /-- `while (flag) { round }` -/
  | whileFlag (flag : String) (round : Code α)

/-- Statements in the place of one: braces around them unless there is just one. -/
def single : List Target.Stmt → Target.Stmt
  | [s] => s
  | several => .block several

namespace Code

/-- The target statements of code, given the lowered guards and blocks. -/
def stmts (lowered : α → Arm) : Code α → List Target.Stmt
  | skip => []
  | seq first second => first.stmts lowered ++ second.stmts lowered
  | declare flag value => [.declare .bool flag (some (.bool value))]
  | assign flag value => [.assign flag (.bool value)]
  | body arm => (lowered arm).body
  | braces inner => [.block (inner.stmts lowered)]
  | ifThen arm yes => [.ifThen (lowered arm).test (yes.stmts lowered)]
  | ifElse arm yes no =>
    [.ifElse (lowered arm).test (yes.stmts lowered) (single (no.stmts lowered))]
  | whileFlag flag round => [.whileLoop (.var flag) (round.stmts lowered)]

/-- A `while`, for at most a number of rounds. -/
def whileDo (test : Memory ω → Bool) (round : Memory ω → Progress ω ρ) :
    Nat → Memory ω → Progress ω ρ
  | 0, m => if test m then none else some (.ended m)
  | rounds + 1, m =>
    if test m then andThen (round m) (whileDo test round rounds) else some (.ended m)

/-- What code does, given what the guarded blocks mean, in at most a number of rounds. -/
def run (meaning : α → Meaning ω ρ) (rounds : Nat) : Code α → Memory ω → Progress ω ρ
  | skip, m => some (.ended m)
  | seq first second, m => andThen (first.run meaning rounds m) (second.run meaning rounds)
  | declare flag value, m => some (.ended (m.set flag value))
  | assign flag value, m => some (.ended (m.set flag value))
  | body arm, m => (meaning arm).run m
  | braces inner, m => inner.run meaning rounds m
  | ifThen arm yes, m =>
    if (meaning arm).holds m then yes.run meaning rounds m else some (.ended m)
  | ifElse arm yes no, m =>
    if (meaning arm).holds m then yes.run meaning rounds m else no.run meaning rounds m
  | whileFlag flag round, m => whileDo (·.flags flag) (round.run meaning rounds) rounds m

/-- Tests one after another, each with its code, and a last resort if there is one. -/
def tests (inner : α → Code α) (last? : Option (Code α)) : List α → Option (Code α)
  | [] => last?
  | a :: rest =>
    match tests inner last? rest with
    | none => some (.ifThen a (inner a))
    | some other => some (.ifElse a (inner a) other)

/-- `if (g₁) { b₁ } else if (g₂) { b₂ } ...`, with `else { }` at the end or without it. -/
def ifs (closed : Bool) (arms : List α) : Code α :=
  (tests body (if closed then some (braces skip) else none) arms).getD skip

/-- `boolean f = true; while (f) { f = false; if (g₁) { f = true; { b₁ } } else if ... }` -/
def flagLoop (flag : String) (arms : List α) : Code α :=
  seq (declare flag true) (whileFlag flag (seq (assign flag false)
    ((tests (fun a => seq (assign flag true) (braces (body a))) none arms).getD skip)))

end Code

end PixelLowering.Guarded
