import Mathlib.Data.Finset.Insert
import Mathlib.Order.Nat
import PixelLowering.Proofs.Names.Counters

/-! Names are chosen by the plainest rule.

    A table looks for a name from the counter of a key on and never goes back below it. That gives
    the same names as a search that starts from 0 every time and knows nothing but the names given
    before:

        calls          declare x_0   declare x   declare x   declare x_0   temporary b
        given before   –             x_0         x_0 x       x_0 x x_1     x_0 x x_1 x_0_0
        plain rule     x_0           x           x_1         x_0_0         b$0

    Only the naming calls and their order enter into the rule. Types, the difference between a
    parameter and a variable, and the places where scopes are opened and closed do not. -/

namespace PixelLowering.Names

/-! ### The plain rule -/

/-- The name that a call gets after the names `earlier`: its own, if that can be emitted and is new,
    else the one with the least number that is new. A temporary always has a number. -/
inductive Plain (earlier : List String) : Naming → String → Prop
  | own {name : String} (hreserved : name ∉ Target.reserved) (hclass : name ∉ Library.classNames)
      (hnew : name ∉ earlier) : Plain earlier (.declared name) name
  | suffixed {name : String} {n : Nat}
      (htaken : name ∈ Target.reserved ∨ name ∈ Library.classNames ∨ name ∈ earlier)
      (hleast : IsLeast {n | numbered (name ++ "_") n ∉ earlier} n) :
      Plain earlier (.declared name) (numbered (name ++ "_") n)
  | temporary {base : String} {n : Nat}
      (hleast : IsLeast {n | numbered (base ++ "$") n ∉ earlier} n) :
      Plain earlier (.temporary base) (numbered (base ++ "$") n)

/-- The plain rule as a function of the set of names given before. -/
def leastName (given : Finset String) : Naming → String
  | .declared name =>
    if name ∈ forbidden ∨ name ∈ given then
      numbered (name ++ "_") (leastFree (name ++ "_") given)
    else name
  | .temporary base => numbered (base ++ "$") (leastFree (base ++ "$") given)

/-- The names that calls get one after another, each by the plain rule. -/
def leastNames (given : Finset String) : List Naming → List String
  | [] => []
  | call :: rest =>
    leastName given call :: leastNames (insert (leastName given call) given) rest

theorem isLeast_leastFree (stem : String) (earlier : List String) :
    IsLeast {n | numbered stem n ∉ earlier} (leastFree stem earlier.toFinset) := by
  have hleast : IsLeast {n | numbered stem n ∉ earlier.toFinset}
      (leastFree stem earlier.toFinset) := Nat.isLeast_find _
  simpa only [List.mem_toFinset] using hleast

theorem plain_leastName (earlier : List String) (call : Naming) :
    Plain earlier call (leastName earlier.toFinset call) := by
  cases call with
  | declared name =>
    rw [leastName]
    split
    · next htaken =>
      rw [forbidden, List.mem_append, List.mem_toFinset, or_assoc] at htaken
      exact .suffixed htaken (isLeast_leastFree _ _)
    · next hfree =>
      rw [forbidden, List.mem_append, List.mem_toFinset, or_assoc, not_or, not_or] at hfree
      exact .own hfree.1 hfree.2.1 hfree.2.2
  | temporary base => exact .temporary (isLeast_leastFree _ _)

namespace Table

/-! ### The table follows it -/

/-- As long as declared names do not end in a dollar sign, counters skip no free name. -/
theorem Tight.step {table : Table} (h : table.Tight) {op : Op}
    (hop : ∀ name, op.naming? = some (.declared name) → ¬EndsInDollar name) :
    (table.step op).2.Tight := by
  cases table.step_supplies op with
  | silent _ _ hemitted hcounters => exact h.of_eq hemitted hcounters
  | declared name hcall _ hemitted hcounters =>
    exact (h.emitDeclared (hop name hcall)).of_eq hemitted hcounters
  | temporary base _ _ hemitted hcounters =>
    exact (h.giveTemporary base).of_eq hemitted hcounters

/-- So every call gets the name of the plain rule. -/
theorem Tight.step_fst {table : Table} (h : table.Tight) {op : Op}
    (hop : ∀ name, op.naming? = some (.declared name) → ¬EndsInDollar name) :
    (table.step op).1 = op.naming?.map (leastName table.emitted.toFinset) := by
  cases table.step_supplies op with
  | silent hcall hgiven => rw [hgiven, hcall, Option.map_none]
  | declared name hcall hgiven =>
    rw [hgiven, hcall, Option.map_some, h.emitDeclared_eq (hop name hcall), leastName]
  | temporary base hcall hgiven =>
    rw [hgiven, hcall, Option.map_some, h.temporary_eq base, leastName]

theorem declared_mem_namings {op : Op} {rest : List Op} {name : String}
    (h : op.naming? = some (.declared name)) : .declared name ∈ namings (op :: rest) := by
  simp [h]

theorem Tight.run {table : Table} (h : table.Tight) {ops : List Op}
    (hops : ∀ name, .declared name ∈ namings ops → ¬EndsInDollar name) :
    (table.run ops).2.Tight := by
  induction ops generalizing table with
  | nil => exact h
  | cons op rest ih =>
    have hstep := h.step fun name hname => hops name (declared_mem_namings hname)
    exact ih hstep fun name hname => hops name (by simp [hname])

/-- The names that a run gives are those of the plain rule, call after call. -/
theorem Tight.run_fst {table : Table} (h : table.Tight) {ops : List Op}
    (hops : ∀ name, .declared name ∈ namings ops → ¬EndsInDollar name) :
    (table.run ops).1 = leastNames table.emitted.toFinset (namings ops) := by
  induction ops generalizing table with
  | nil => rfl
  | cons op rest ih =>
    have hop : ∀ name, op.naming? = some (.declared name) → ¬EndsInDollar name :=
      fun name hname => hops name (declared_mem_namings hname)
    have hrest := ih (h.step hop) fun name hname => hops name (by simp [hname])
    rw [run_cons, hrest, emitted_step, h.step_fst hop, namings_cons]
    cases op.naming? <;> simp [leastNames]

/-- Counting equals searching from 0. In a run from an empty table in which no declared name ends in
    a dollar sign, every naming call gets the name that the plain rule says for the names given
    before it; all names of the run are those of the plain rule, call after call. So another run
    with the same naming calls in the same order gives the same names, whatever its types,
    parameters and scopes are. -/
theorem run_names_plain (ops : List Op)
    (h : ∀ name, .declared name ∈ namings ops → name.toList.getLast? ≠ some '$') :
    (∀ past op later call, ops = past ++ op :: later → op.naming? = some call →
      ∃ given, ((({} : Table).run past).2.step op).1 = some given ∧
        Plain (({} : Table).run past).1 call given) ∧
    (({} : Table).run ops).1 = leastNames ∅ (namings ops) ∧
    ∀ ops', namings ops' = namings ops → (({} : Table).run ops').1 = (({} : Table).run ops).1 := by
  have hnames : ∀ ops', namings ops' = namings ops →
      (({} : Table).run ops').1 = leastNames ∅ (namings ops) := by
    intro ops' hsame
    rw [← hsame] at h ⊢
    exact tight_empty.run_fst h
  refine ⟨?_, hnames ops rfl, ?_⟩
  · rintro past op later call rfl hcall
    rw [namings_append] at h
    have htight : (({} : Table).run past).2.Tight :=
      tight_empty.run fun name hname => h name (List.mem_append_left _ hname)
    have hgiven := htight.step_fst fun name hname =>
      h name (List.mem_append_right _ (declared_mem_namings hname))
    rw [hcall, Option.map_some, emitted_run, List.append_nil, List.toFinset_reverse] at hgiven
    exact ⟨_, hgiven, plain_leastName _ _⟩
  · intro ops' hsame
    rw [hnames ops' hsame, hnames ops rfl]

/-- Names that look like numbered ones, before and after the names that they get in the way of. -/
def lookalikes : List Op :=
  [.parameter "x_0" .int, .enter, .declare "x" .int, .declare "x" .image, .leave,
    .declare "x_0" .int, .declare "continue$1" .int, .temporary "continue", .temporary "continue"]

theorem run_names_plain_lookalikes :
    (∀ name, .declared name ∈ namings lookalikes → name.toList.getLast? ≠ some '$') ∧
    (({} : Table).run lookalikes).1 = leastNames ∅ (namings lookalikes) ∧
    (({} : Table).run lookalikes).1 =
      ["x_0", "x", "x_1", "x_0_0", "continue$1", "continue$0", "continue$2"] := by
  have h : ∀ name, .declared name ∈ namings lookalikes → name.toList.getLast? ≠ some '$' := by
    have hall : ∀ name ∈ ["x_0", "x", "x", "x_0", "continue$1"],
        name.toList.getLast? ≠ some '$' := by decide
    intro name hname
    exact hall name (by simpa [lookalikes, namings, Op.naming?, eq_comm] using hname)
  exact ⟨h, (run_names_plain lookalikes h).2.1, by decide +kernel⟩

end Table

end PixelLowering.Names
