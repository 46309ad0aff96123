import Mathlib.Data.Finset.Insert
import PixelLowering.Proofs.Layout.Width
import PixelLowering.Proofs.Lexical.Agreement
import PixelLowering.Proofs.Names.LeastSuffix

/-! Renaming is done as if by hand.

    The pass finds names with a table of scopes and counters. The same names come out of lexical
    lowering with the plainest supply there is: it remembers the set of names given so far, and
    takes the name itself or the least number that makes it new.

        given { x, x_0 }     declare x  ⟼  x_1     declare y  ⟼  y     flag  ⟼  continue$0

    So what a use of a name means is decided by the nesting of the blocks around it alone, and what
    it is emitted as by the order of declarations alone. -/

namespace PixelLowering.Lower.Lexical

open PixelLowering.Names
open PixelLowering.Source

/-- Names from the set of names given so far. A declaration keeps its name if it can, else it gets
    the least number that makes it new; so does the flag of a loop. -/
def leastSupply : Supply (Finset String) where
  declared name given :=
    let emitted :=
      if name ∈ Target.reserved ∨ name ∈ Library.classNames ∨ name ∈ given then
        numbered (name ++ "_") (leastFree (name ++ "_") given)
      else name
    (emitted, insert emitted given)
  flag given :=
    let emitted := numbered (flagBase ++ "$") (leastFree (flagBase ++ "$") given)
    (emitted, insert emitted given)

/-- The set holds the names in use, and the counters of the table skip no free name. -/
structure Gathers (table : Table) (given : Finset String) : Prop where
  given_eq : given = table.emitted.toFinset
  tight : table.Tight

theorem gathers_empty : Gathers {} ∅ := ⟨rfl, Table.tight_empty⟩

/-- As long as no declared name ends in a dollar sign, the set is all that must be remembered. -/
theorem leastSupply_follows :
    Follows leastSupply (fun name => ¬EndsInDollar name) Gathers where
  frame := by
    rintro table after given hsame ⟨rfl, htight⟩
    exact ⟨by rw [hsame.emitted], htight.of_eq hsame.emitted hsame.counters⟩
  declared := by
    rintro table given name hname ⟨rfl, htight⟩
    have heq : (leastSupply.declared name table.emitted.toFinset).1 =
        (table.emitDeclared name).1 := by
      rw [htight.emitDeclared_eq hname, forbidden]
      simp only [leastSupply, List.mem_append, or_assoc]
    refine ⟨heq, ?_, htight.emitDeclared hname⟩
    rw [(table.emitDeclared_emits name).emitted, List.toFinset_cons, ← heq]
    rfl
  flag := by
    rintro table given ⟨rfl, htight⟩
    have heq : (leastSupply.flag table.emitted.toFinset).1 = (table.temporary flagBase).1 := by
      rw [htight.temporary_eq]
      rfl
    refine ⟨heq, ?_, htight.giveTemporary flagBase⟩
    rw [(table.temporary_emits flagBase).emitted, List.toFinset_cons, ← heq]
    rfl

/-- Renaming is correct: if no parameter or declared name ends in a dollar sign, then at every
    width a program has the text, or the failure and its position, that lexical lowering finds from
    the set of names given so far. -/
theorem compile_eq_lexical (width : Nat) (program : Program)
    (h : ∀ name ∈ program.declaredNames, name.toList.getLast? ≠ some '$') :
    (Lower.compile width program).1 =
      (compile leastSupply ∅ width program).mapError Stop.failure :=
  compile_eq leastSupply_follows gathers_empty width program h

/-- A parameter, an inner variable that starts from it under the same name, a loop around that
    one, and a name that looks like a renamed one. -/
def shadowing : Program :=
  let info (ty : Ty) : Info := ⟨ty, .unknown⟩
  let x : Expr := .ident (info .int) "x"
  let int (name : String) : NameDef := ⟨name, .int, none, .unknown⟩
  ⟨"f", .void, [int "x", int "x_0"],
    [.loop [⟨.bool (info .bool) "TRUE", [.decl (int "x") (some x), .write x]⟩], .write x],
    .unknown⟩

def shadowingText : String :=
  "void f(int x, int x_0) \x7b\n" ++
  "    boolean continue$0 = true;\n" ++
  "    while (continue$0) \x7b\n" ++
  "        continue$0 = false;\n" ++
  "        if (true) \x7b\n" ++
  "            continue$0 = true;\n" ++
  "            \x7b\n" ++
  "                int x_1 = x;\n" ++
  "                ConsoleIO.write(x_1);\n" ++
  "            \x7d\n" ++
  "        \x7d\n" ++
  "    \x7d\n" ++
  "    ConsoleIO.write(x);\n" ++
  "\x7d\n"

theorem compile_eq_lexical_shadowing :
    (∀ name ∈ shadowing.declaredNames, name.toList.getLast? ≠ some '$') ∧
    (Lower.compile 4 shadowing).1 = .ok shadowingText ∧
    (compile leastSupply ∅ 4 shadowing).mapError Stop.failure = .ok shadowingText := by
  have hnames : ∀ name ∈ shadowing.declaredNames, name.toList.getLast? ≠ some '$' := by decide
  have htext : (Lower.compile 4 shadowing).1 = .ok shadowingText := by
    rw [compile_eq_page]
    decide +kernel
  refine ⟨hnames, htext, ?_⟩
  rw [← compile_eq_lexical 4 shadowing hnames, htext]

end PixelLowering.Lower.Lexical
