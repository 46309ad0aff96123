import Mathlib.Data.List.DropRight
import PixelLowering.Lower.Pass
import PixelLowering.Proofs.Names.Run

/-! Looking a name up is asking the history.

    The table keeps a stack of scopes. What it answers can be said without one, from the operations
    of the run in the order in which they were made: a use of a name refers to the latest
    declaration of that name whose scope was not left since, and to the latest parameter of that
    name if there is no such declaration.

        enter   declare x   enter   declare x   leave   parameter x   ⟨x⟩
                ▲ scope 1           ✗ scope 2 left      ✗ a local wins

    A scope is left when fewer scopes are open than its depth. So whether a declaration still counts
    is read off the number of open scopes at all later times, and that number is read off the
    operations alone. -/

namespace PixelLowering.Names

open PixelLowering.Diagnostic
open PixelLowering.Lower
open PixelLowering.Source

/-! ### Histories -/

/-- Number of open scopes after an operation, from the number before it. A declaration opens a scope
    if none is open; there is nothing to leave then. -/
def Op.scopesAfter (count : Nat) : Op → Nat
  | .enter => count + 1
  | .leave => count - 1
  | .declare .. => max count 1
  | .parameter .. | .temporary _ => count

/-- Number of open scopes after a history. -/
def openScopes (ops : List Op) : Nat := ops.foldl Op.scopesAfter 0

/-- Depth of the scope that holds what is declared after a history. -/
def declaredDepth (past : List Op) : Nat := max (openScopes past) 1

/-- After `past`, a variable `name` was declared, and its scope was not left since. -/
def HoldsLocal (ops : List Op) (name : String) (past : List Op) (ty : Ty) : Prop :=
  ∃ later, ops = past ++ .declare name ty :: later ∧
    ∀ part, part <+: later → declaredDepth past ≤ openScopes (past ++ .declare name ty :: part)

/-- After `past`, a parameter `name` was declared. -/
def HoldsParameter (ops : List Op) (name : String) (past : List Op) (ty : Ty) : Prop :=
  ∃ later, ops = past ++ .parameter name ty :: later

/-- The latest of some calls, each given by the history before it and a type. -/
def Latest (call : List Op → Ty → Prop) (past : List Op) (ty : Ty) : Prop :=
  call past ty ∧ ∀ past' ty', call past' ty' → past'.length ≤ past.length

/-- The binding that a declaration after a history creates, with the name that it returns. -/
def localBinding (name : String) (past : List Op) (ty : Ty) : Binding :=
  ⟨name, ((({} : Table).run past).2.declare name ty).1, ty, declaredDepth past⟩

/-- The binding that a parameter after a history creates, with the name that it returns. -/
def parameterBinding (name : String) (past : List Op) (ty : Ty) : Binding :=
  ⟨name, ((({} : Table).run past).2.declareParameter name ty).1, ty, 0⟩

theorem openScopes_concat (ops : List Op) (op : Op) :
    openScopes (ops ++ [op]) = op.scopesAfter (openScopes ops) := by
  simp [openScopes]

/-- A declaration counts after one more operation if it is that operation, or if it counted before
    and its scope is still open. -/
theorem holdsLocal_concat {ops past : List Op} {op : Op} {name : String} {ty : Ty} :
    HoldsLocal (ops ++ [op]) name past ty ↔
      (past = ops ∧ op = .declare name ty) ∨
        (HoldsLocal ops name past ty ∧ declaredDepth past ≤ openScopes (ops ++ [op])) := by
  constructor
  · rintro ⟨later, hsplit, hopen⟩
    rcases List.eq_nil_or_concat later with rfl | ⟨earlier, last, rfl⟩
    · obtain ⟨rfl, hop⟩ := List.append_inj' hsplit rfl
      exact Or.inl ⟨rfl, by simpa using hop⟩
    · rw [List.concat_eq_append, ← List.cons_append, ← List.append_assoc] at hsplit
      obtain ⟨rfl, hop⟩ := List.append_inj' hsplit rfl
      obtain rfl : op = last := by simpa using hop
      rw [List.concat_eq_append] at hopen
      refine Or.inr ⟨⟨earlier, rfl, fun part hpart => ?_⟩, ?_⟩
      · exact hopen part (hpart.trans (List.prefix_append _ _))
      · simpa using hopen _ (List.prefix_refl _)
  · rintro (⟨rfl, rfl⟩ | ⟨⟨later, rfl, hopen⟩, hlast⟩)
    · refine ⟨[], rfl, fun part hpart => ?_⟩
      rw [List.prefix_nil.1 hpart, openScopes_concat]
      exact le_refl _
    · refine ⟨later ++ [op], by simp, fun part hpart => ?_⟩
      rcases List.prefix_concat_iff.1 hpart with rfl | hpart
      · simpa using hlast
      · exact hopen part hpart

theorem holdsParameter_concat {ops past : List Op} {op : Op} {name : String} {ty : Ty} :
    HoldsParameter (ops ++ [op]) name past ty ↔
      (past = ops ∧ op = .parameter name ty) ∨ HoldsParameter ops name past ty := by
  constructor
  · rintro ⟨later, hsplit⟩
    rcases List.eq_nil_or_concat later with rfl | ⟨earlier, last, rfl⟩
    · obtain ⟨rfl, hop⟩ := List.append_inj' hsplit rfl
      exact Or.inl ⟨rfl, by simpa using hop⟩
    · rw [List.concat_eq_append, ← List.cons_append, ← List.append_assoc] at hsplit
      obtain ⟨rfl, -⟩ := List.append_inj' hsplit rfl
      exact Or.inr ⟨earlier, rfl⟩
  · rintro (⟨rfl, rfl⟩ | ⟨later, rfl⟩)
    · exact ⟨[], rfl⟩
    · exact ⟨later ++ [op], by simp⟩

/-! ### Searches -/

/-- A search answers with the binding of the latest call, and with nothing if there is no call. -/
def Answers (call : List Op → Ty → Prop) (made : List Op → Ty → Binding) : Option Binding → Prop
  | none => ∀ past ty, ¬call past ty
  | some b => ∃ past ty, Latest call past ty ∧ b = made past ty

section

variable {call call' : List Op → Ty → Prop} {made : List Op → Ty → Binding}
  {answer : Option Binding}

theorem Answers.congr (h : Answers call made answer)
    (hcall : ∀ past ty, call past ty ↔ call' past ty) : Answers call' made answer := by
  have heq : call = call' := funext fun past => funext fun ty => propext (hcall past ty)
  rwa [← heq]

/-- A call that comes after all others is the answer. -/
theorem Answers.newest (made : List Op → Ty → Binding) {past : List Op} {ty : Ty}
    (h : call past ty) (hlast : ∀ past' ty', call past' ty' → past'.length ≤ past.length) :
    Answers call made (some (made past ty)) :=
  ⟨past, ty, ⟨h, hlast⟩, rfl⟩

end

theorem HoldsLocal.length_lt {ops past : List Op} {name : String} {ty : Ty}
    (h : HoldsLocal ops name past ty) : past.length < ops.length := by
  obtain ⟨later, rfl, -⟩ := h
  simp

/-- A declaration whose scope was not left is no deeper than the scopes that are open. -/
theorem HoldsLocal.depth_le {ops past : List Op} {name : String} {ty : Ty}
    (h : HoldsLocal ops name past ty) : declaredDepth past ≤ openScopes ops := by
  obtain ⟨later, rfl, hopen⟩ := h
  exact hopen later (List.prefix_refl _)

theorem HoldsParameter.length_lt {ops past : List Op} {name : String} {ty : Ty}
    (h : HoldsParameter ops name past ty) : past.length < ops.length := by
  obtain ⟨later, rfl⟩ := h
  simp

namespace Table

theorem run_concat (table : Table) (ops : List Op) (op : Op) :
    (table.run (ops ++ [op])).2 = ((table.run ops).2.step op).2 := by
  rw [run_append]
  rfl

/-- What an operation does to the scopes: none, one more, one less, or a binding in the innermost
    one. -/
theorem scopes_step (table : Table) (op : Op) :
    (table.step op).2.scopes =
      match op with
      | .enter => [] :: table.scopes
      | .leave => table.scopes.tail
      | .declare name ty =>
        (table.push ⟨name, (table.declare name ty).1, ty, max table.scopes.length 1⟩).scopes
      | .parameter .. | .temporary _ => table.scopes := by
  cases op with
  | enter => rfl
  | leave => rw [step, leave?_getD]
  | parameter name ty => exact (table.emitDeclared_emits name).scopes
  | temporary base => rfl
  | declare name ty =>
    have hscopes := (table.emitDeclared_emits name).scopes
    simp only [step, declare, Prod.map, id, push, hscopes]
    cases table.scopes <;> rfl

theorem length_scopes_push (table : Table) (binding : Binding) :
    (table.push binding).scopes.length = max table.scopes.length 1 := by
  rw [push]
  split
  · next h => simp [h]
  · next h => simp [h]

/-- The history tells how many scopes are open. -/
theorem length_scopes_run (ops : List Op) :
    (({} : Table).run ops).2.scopes.length = openScopes ops := by
  induction ops using List.reverseRecOn with
  | nil => rfl
  | append_singleton ops op ih =>
    rw [run_concat, openScopes_concat, scopes_step, ← ih]
    cases op <;> simp [Op.scopesAfter, length_scopes_push]

/-- The outermost scopes after a declaration: the new binding is first among them if they reach as
    far in as its depth. -/
theorem flatten_rtake_push (table : Table) (binding : Binding) (depth : Nat) :
    ((table.push binding).scopes.rtake depth).flatten =
      if max table.scopes.length 1 ≤ depth then binding :: (table.scopes.rtake depth).flatten
      else (table.scopes.rtake depth).flatten := by
  rw [push]
  split
  · next h =>
    cases depth with
    | zero => simp [h]
    | succ depth => simp [h, List.rtake]
  · next inner outer h =>
    by_cases hdepth : outer.length + 1 ≤ depth
    · have hdrop : outer.length + 1 - depth = 0 := by omega
      simp [h, List.rtake, hdepth, hdrop]
    · obtain ⟨extra, hextra⟩ : ∃ extra, outer.length + 1 - depth = extra + 1 :=
        ⟨outer.length - depth, by omega⟩
      simp [h, List.rtake, hdepth, hextra]

/-- All scopes are among the outermost ones if these are as many or more. -/
theorem rtake_eq_self {scopes : List (List Binding)} {depth : Nat} (h : scopes.length ≤ depth) :
    scopes.rtake depth = scopes := by
  rw [List.rtake, Nat.sub_eq_zero_of_le h, List.drop_zero]

/-- One step of a search: unless the operation declares the name within reach, the answer is that of
    the search from before it, in those scopes that are still open. -/
theorem find?_scopes_step (table : Table) (op : Op) (name : String) (depth : Nat)
    (hop : ∀ ty, op = .declare name ty → depth < max table.scopes.length 1) :
    ((table.step op).2.scopes.rtake depth).flatten.find? (·.name == name) =
      (table.scopes.rtake (min depth (op.scopesAfter table.scopes.length))).flatten.find?
        (·.name == name) := by
  rw [scopes_step]
  cases op with
  | enter =>
    rcases Nat.lt_or_ge table.scopes.length depth with hlt | hge
    · rw [rtake_eq_self (Nat.succ_le_of_lt hlt), rtake_eq_self (by simp [Op.scopesAfter]; omega)]
      rfl
    · have hdrop : table.scopes.length + 1 - depth = table.scopes.length - depth + 1 := by omega
      have hmin : min depth (Op.enter.scopesAfter table.scopes.length) = depth := by
        simp [Op.scopesAfter]; omega
      rw [hmin, List.rtake, List.rtake, List.length_cons, hdrop, List.drop_succ_cons]
  | leave =>
    have hdrop : table.scopes.length - min depth (Op.leave.scopesAfter table.scopes.length) =
        (table.scopes.length - 1 - depth) + 1 ∨ table.scopes = [] := by
      cases table.scopes with
      | nil => exact Or.inr rfl
      | cons inner outer =>
        left
        simp only [Op.scopesAfter, List.length_cons]
        omega
    rcases hdrop with hdrop | hnil
    · rw [List.rtake, List.rtake, hdrop, List.length_tail, List.drop_tail]
    · simp [hnil]
  | declare other ty =>
    rw [flatten_rtake_push]
    split
    · next hdepth =>
      have hother : (other == name) = false := by
        rw [beq_eq_false_iff_ne]
        rintro rfl
        exact absurd (hop ty rfl) (by omega)
      rw [List.find?_cons, hother]
      rw [rtake_eq_self (by omega), rtake_eq_self (by simp only [Op.scopesAfter]; omega)]
    · next hdepth =>
      have hmin : min depth ((Op.declare other ty).scopesAfter table.scopes.length) = depth := by
        simp only [Op.scopesAfter]
        omega
      rw [hmin]
  | parameter other ty | temporary base =>
    have hmin : table.scopes.rtake (min depth table.scopes.length) = table.scopes.rtake depth := by
      rw [List.rtake, List.rtake]
      congr 1
      omega
    simp only [Op.scopesAfter, hmin]

/-- A search in the outermost scopes, as many as `depth`, answers with the latest declaration that
    went to one of them and whose scope was not left since. -/
theorem find?_scopes_answers (ops : List Op) (name : String) (depth : Nat) :
    Answers (fun past ty => HoldsLocal ops name past ty ∧ declaredDepth past ≤ depth)
      (localBinding name)
      (((({} : Table).run ops).2.scopes.rtake depth).flatten.find? (·.name == name)) := by
  -- by the last operation; a scope that it closes is out of reach, whatever `depth` was
  induction ops using List.reverseRecOn generalizing depth with
  | nil =>
    have hnil : ∀ past ty, ¬(HoldsLocal [] name past ty ∧ declaredDepth past ≤ depth) := by
      rintro past ty ⟨h, -⟩
      exact absurd h.length_lt (Nat.not_lt_zero _)
    simpa [Answers] using hnil
  | append_singleton ops op ih =>
    have hlength := length_scopes_run ops
    rw [run_concat]
    by_cases hnew : ∃ ty, op = .declare name ty ∧ declaredDepth ops ≤ depth
    · obtain ⟨ty, rfl, hdepth⟩ := hnew
      have hfound : ((((({} : Table).run ops).2.step (.declare name ty)).2.scopes.rtake
          depth).flatten.find? (·.name == name)) = some (localBinding name ops ty) := by
        rw [declaredDepth] at hdepth
        rw [scopes_step, flatten_rtake_push, hlength, if_pos hdepth, List.find?_cons]
        simp [localBinding, declaredDepth]
      rw [hfound]
      refine .newest _ ⟨holdsLocal_concat.2 (Or.inl ⟨rfl, rfl⟩), hdepth⟩ ?_
      rintro past ty' ⟨h, -⟩
      have := h.length_lt
      simp at this
      omega
    · rw [find?_scopes_step _ op name depth, hlength]
      · refine (ih _).congr fun past ty => ?_
        rw [holdsLocal_concat, openScopes_concat]
        constructor
        · rintro ⟨h, hdepth⟩
          exact ⟨Or.inr ⟨h, by omega⟩, by omega⟩
        · rintro ⟨⟨rfl, rfl⟩ | ⟨h, hopen⟩, hdepth⟩
          · exact absurd ⟨ty, rfl, hdepth⟩ hnew
          · exact ⟨h, by omega⟩
      · rintro ty rfl
        rw [hlength]
        by_contra hdepth
        refine hnew ⟨ty, rfl, ?_⟩
        rw [declaredDepth]
        omega

theorem parameters_step (table : Table) (op : Op) :
    (table.step op).2.parameters =
      match op with
      | .parameter name ty =>
        ⟨name, (table.declareParameter name ty).1, ty, 0⟩ :: table.parameters
      | _ => table.parameters := by
  cases op with
  | enter => rfl
  | leave => rw [step, leave?_getD]
  | parameter name ty =>
    simp only [step, declareParameter, Prod.map, id, (table.emitDeclared_emits name).parameters]
  | temporary base => rfl
  | declare name ty =>
    simp only [step, declare, Prod.map, id, parameters_push]
    exact (table.emitDeclared_emits name).parameters

/-- A search among the parameters answers with the latest one of the name. -/
theorem find?_parameters_answers (ops : List Op) (name : String) :
    Answers (HoldsParameter ops name) (parameterBinding name)
      ((({} : Table).run ops).2.parameters.find? (·.name == name)) := by
  induction ops using List.reverseRecOn with
  | nil =>
    intro past ty h
    exact absurd h.length_lt (Nat.not_lt_zero _)
  | append_singleton ops op ih =>
    rw [run_concat, parameters_step]
    by_cases hnew : ∃ ty, op = .parameter name ty
    · obtain ⟨ty, rfl⟩ := hnew
      simp only [List.find?_cons, beq_self_eq_true]
      refine .newest (parameterBinding name) (holdsParameter_concat.2 (Or.inl ⟨rfl, rfl⟩))
        fun past ty' h => ?_
      have := h.length_lt
      simp at this
      omega
    · have hcall : ∀ past ty,
          HoldsParameter ops name past ty ↔ HoldsParameter (ops ++ [op]) name past ty := by
        intro past ty
        rw [holdsParameter_concat, or_iff_right]
        rintro ⟨-, rfl⟩
        exact hnew ⟨ty, rfl⟩
      refine Answers.congr ?_ hcall
      cases op with
      | parameter other ty =>
        have hother : (other == name) = false := by
          rw [beq_eq_false_iff_ne]
          rintro rfl
          exact hnew ⟨ty, rfl⟩
        simpa only [List.find?_cons, hother] using ih
      | enter | leave | declare other ty | temporary base => exact ih

/-- A search in all open scopes. -/
theorem find?_locals_answers (ops : List Op) (name : String) :
    Answers (HoldsLocal ops name) (localBinding name)
      ((({} : Table).run ops).2.scopes.flatten.find? (·.name == name)) := by
  have h := find?_scopes_answers ops name (openScopes ops)
  rw [rtake_eq_self (length_scopes_run ops).le] at h
  exact h.congr fun past ty => and_iff_left_of_imp HoldsLocal.depth_le

/-- Lookup agrees with the history. After any run from an empty table, a name refers to the latest
    declaration of it whose scope was not left since; if there is none, to the latest parameter of
    that name; and else to nothing. What it refers to carries the name, the emitted name that the
    call returned, the type that the call was given, and its depth. Resolving the name gives the
    emitted name, and fails exactly if there is nothing to refer to. A scope can be closed exactly
    if the history has left one open; otherwise the attempt stops the pass and changes nothing. -/
theorem lookup_agrees_with_history (ops : List Op) (name : String) :
    let table := (({} : Table).run ops).2
    ((∃ past ty, Latest (HoldsLocal ops name) past ty ∧
        table.lookup name = some (localBinding name past ty)) ∨
      ((∀ past ty, ¬HoldsLocal ops name past ty) ∧
        ∃ past ty, Latest (HoldsParameter ops name) past ty ∧
          table.lookup name = some (parameterBinding name past ty)) ∨
      ((∀ past ty, ¬HoldsLocal ops name past ty) ∧ (∀ past ty, ¬HoldsParameter ops name past ty) ∧
        table.lookup name = none)) ∧
    (∀ pos, resolveName table.resolve? name pos =
      match table.lookup name with
      | some b => .ok b.emitted
      | none => .error ⟨.unresolvedName name, pos⟩) ∧
    (∀ log, (Pass.mk table log).run leave =
      if openScopes ops = 0 then (.error .noOpenScope, ⟨table, log⟩)
      else (.ok (), ⟨(({} : Table).run (ops ++ [.leave])).2, log⟩)) := by
  intro table
  have hlookup : table.lookup name = (table.scopes.flatten.find? (·.name == name)).or
      (table.parameters.find? (·.name == name)) := by
    rw [lookup, visible, List.find?_append]
  have hlocals := find?_locals_answers ops name
  have hparameters := find?_parameters_answers ops name
  refine ⟨?_, ?_, ?_⟩
  · rw [hlookup]
    cases hlocal : table.scopes.flatten.find? (·.name == name) with
    | some b =>
      rw [hlocal] at hlocals
      obtain ⟨past, ty, hlatest, rfl⟩ := hlocals
      exact Or.inl ⟨past, ty, hlatest, rfl⟩
    | none =>
      rw [hlocal] at hlocals
      right
      cases hparameter : table.parameters.find? (·.name == name) with
      | some b =>
        rw [hparameter] at hparameters
        obtain ⟨past, ty, hlatest, rfl⟩ := hparameters
        exact Or.inl ⟨hlocals, past, ty, hlatest, rfl⟩
      | none =>
        rw [hparameter] at hparameters
        exact Or.inr ⟨hlocals, hparameters, rfl⟩
  · intro pos
    rw [resolveName, resolve?]
    cases table.lookup name <;> rfl
  · intro log
    have hlength : table.scopes.length = openScopes ops := length_scopes_run ops
    have hstep : (({} : Table).run (ops ++ [.leave])).2 = table.leave?.getD table :=
      run_concat {} ops .leave
    rw [Pass.run_leave, hstep, ← hlength]
    cases hscopes : table.scopes with
    | nil => simp [leave?, hscopes]
    | cons inner outer => simp [leave?, hscopes]

example :
    (({} : Table).run [.enter, .declare "x" .int, .enter, .declare "x" .bool, .leave,
      .parameter "x" .pixel]).2.lookup "x" = some ⟨"x", "x", .int, 1⟩ := by
  decide +kernel

end Table

end PixelLowering.Names
