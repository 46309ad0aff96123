import PixelLowering.Proofs.Names.LeastSuffix

/-! Counters go no further than names are given.

    A search takes one number after another from a counter until it meets a free name, and nothing
    in it says when to give up. One call can use up many numbers, and a declared name `b$` draws
    them from the same counter as the temporaries of base `b`:

        temporary b   declare b$   declare b$   temporary b         counter of b$
        b$0           b$           b$_1         b$2                 3

    Still each number that was used up has a name of its own that is in use (0 has b$0, 1 has b$_1,
    2 has b$2), for it was given or met. So a counter is at most the number of names given. That
    bounds the rounds of every search, and a counter of 32 bits has room for as many calls as it can
    count. -/

namespace PixelLowering.Names

/-! ### Calls that give a name -/

/-- A call that gives a name, without what plays no part in the choice of it. -/
inductive Naming where
  | declared (name : String)
  | temporary (base : String)
  deriving Repr, DecidableEq

/-- The naming call that an operation is, if it is one. -/
def Op.naming? : Op → Option Naming
  | .enter | .leave => none
  | .parameter name _ | .declare name _ => some (.declared name)
  | .temporary base => some (.temporary base)

/-- The naming calls of a run, in order. -/
def namings (ops : List Op) : List Naming := ops.filterMap Op.naming?

@[simp] theorem namings_nil : namings [] = [] := rfl

@[simp] theorem namings_cons (op : Op) (rest : List Op) :
    namings (op :: rest) = op.naming?.toList ++ namings rest := by
  rw [namings, List.filterMap_cons]
  cases op.naming? <;> rfl

@[simp] theorem namings_append (first second : List Op) :
    namings (first ++ second) = namings first ++ namings second :=
  List.filterMap_append

namespace Table

/-- What an operation does to the names in use and to the counters: nothing, or what giving a name
    does. Whether the name is a parameter's or a variable's makes no difference. -/
inductive Supplies (table : Table) (op : Op) : Prop
  | silent (hcall : op.naming? = none) (hgiven : (table.step op).1 = none)
      (hemitted : (table.step op).2.emitted = table.emitted)
      (hcounters : (table.step op).2.counters = table.counters)
  | declared (name : String) (hcall : op.naming? = some (.declared name))
      (hgiven : (table.step op).1 = some (table.emitDeclared name).1)
      (hemitted : (table.step op).2.emitted = (table.emitDeclared name).2.emitted)
      (hcounters : (table.step op).2.counters = (table.emitDeclared name).2.counters)
  | temporary (base : String) (hcall : op.naming? = some (.temporary base))
      (hgiven : (table.step op).1 = some (table.temporary base).1)
      (hemitted : (table.step op).2.emitted = (table.temporary base).2.emitted)
      (hcounters : (table.step op).2.counters = (table.temporary base).2.counters)

theorem step_supplies (table : Table) (op : Op) : table.Supplies op := by
  cases op with
  | enter => exact .silent rfl rfl rfl rfl
  | leave => exact .silent rfl rfl (by rw [step, leave?_getD]) (by rw [step, leave?_getD])
  | parameter name ty => exact .declared name rfl rfl rfl rfl
  | declare name ty => exact .declared name rfl rfl (emitted_push _ _) (counters_push _ _)
  | temporary base => exact .temporary base rfl rfl rfl rfl

end Table

/-! ### Searches -/

/-- A search with no end in sight: each round takes the number that the counter is at, which must
    have room for the next one, and the search is over when that number is free. From a counter at
    the first number it is over after so many rounds, at the last number. -/
inductive Search (room free : Nat → Prop) : Nat → Nat → Nat → Prop
  | found {n : Nat} (hroom : room (n + 1)) (hfree : free n) : Search room free n 1 n
  | passed {n rounds last : Nat} (hroom : room (n + 1)) (htaken : ¬free n)
      (hrest : Search room free (n + 1) rounds last) : Search room free n (rounds + 1) last

/-- A search with nothing free on its way passes over everything up to the first free number. -/
theorem search_of_passed {room free : Nat → Prop} {start : Nat} (distance : Nat)
    (htaken : ∀ n, start ≤ n → n < start + distance → ¬free n) (hfree : free (start + distance))
    (hroom : ∀ n ≤ start + distance, room (n + 1)) :
    Search room free start (distance + 1) (start + distance) := by
  induction distance generalizing start with
  | zero => exact .found (hroom start (by omega)) hfree
  | succ distance ih =>
    have hstep : start + (distance + 1) = start + 1 + distance := by omega
    rw [hstep] at htaken hfree hroom ⊢
    refine .passed (hroom start (by omega)) (htaken start (by omega) (by omega)) ?_
    refine ih ?_ hfree hroom
    intro n hn
    exact htaken n (by omega)

/-- The search for a free name, with room for all numbers up to the one that it finds. -/
theorem search_firstFree {room : Nat → Prop} (stem : String) (used : List String) (start : Nat)
    (hroom : ∀ n ≤ firstFree stem used start, room (n + 1)) :
    Search room (fun n => numbered stem n ∉ used) start (firstFree stem used start - start + 1)
      (firstFree stem used start) := by
  have hle : start ≤ firstFree stem used start := le_firstFrom _ _ _
  obtain ⟨distance, hdistance⟩ := Nat.exists_eq_add_of_le hle
  have hsearch : Search room (fun n => numbered stem n ∉ used) start (distance + 1)
      (start + distance) := by
    refine search_of_passed distance ?_ ?_ ?_
    · intro n hn hlt
      have htaken := not_free_of_lt_firstFrom hn (hdistance ▸ hlt)
      simpa using htaken
    · rw [← hdistance]
      exact numbered_firstFree_not_mem stem used start
    · rw [← hdistance]
      exact hroom
  rw [hdistance, Nat.add_sub_cancel_left]
  exact hsearch

/-! ### Every number used up has a name in use -/

/-- A number right behind a key, and one behind the key and an underscore. -/
theorem numbered_ne_numbered_underscore (key : String) (m n : Nat) :
    numbered key m ≠ numbered (key ++ "_") n := by
  intro heq
  rw [numbered, numbered, String.append_assoc] at heq
  have hdigits : (toString m).toList = '_' :: (toString n).toList := by
    rw [(String.append_right_inj key).1 heq]
    simp
  have hmem : '_' ∈ Nat.toDigits 10 m := by
    have hrepr : (toString m).toList = Nat.toDigits 10 m := Nat.toList_repr
    rw [← hrepr, hdigits]
    exact List.mem_cons_self
  have hdigit : '_'.isDigit = true := Nat.isDigit_of_mem_toDigits (by decide) (by decide) hmem
  revert hdigit
  decide

/-- As many numbers with names of their own as there are names in use at most. -/
theorem le_length_of_names {used : List String} {count : Nat} (name : Nat → String)
    (hinj : ∀ m n, name m = name n → m = n) (hused : ∀ n < count, name n ∈ used) :
    count ≤ used.length := by
  have hsub : (List.range count).map name ⊆ used := by
    intro other hother
    obtain ⟨n, hn, rfl⟩ := List.mem_map.1 hother
    exact hused n (List.mem_range.1 hn)
  have hnodup : ((List.range count).map name).Nodup := by
    refine List.pairwise_map.2 (List.nodup_range.imp ?_)
    intro m n hne heq
    exact hne (hinj m n heq)
  have hlen := hnodup.length_le_of_subset hsub
  rwa [List.length_map, List.length_range] at hlen

namespace Table

/-- Each number that a counter has passed stands behind its key in a name in use, or behind the key
    and an underscore. -/
def Backed (table : Table) : Prop :=
  ∀ key n, n < table.counter key →
    numbered key n ∈ table.emitted ∨ numbered (key ++ "_") n ∈ table.emitted

theorem backed_empty : ({} : Table).Backed := fun _ _ h => absurd h (Nat.not_lt_zero _)

/-- A counter is at most the number of names in use. -/
theorem Backed.counter_le {table : Table} (h : table.Backed) (key : String) :
    table.counter key ≤ table.emitted.length := by
  refine le_length_of_names
    (fun n => if numbered key n ∈ table.emitted then numbered key n else numbered (key ++ "_") n)
    ?_ ?_
  · intro m n heq
    split at heq <;> split at heq
    · exact numbered_injective heq
    · exact absurd heq (numbered_ne_numbered_underscore key m n)
    · exact absurd heq.symm (numbered_ne_numbered_underscore key n m)
    · exact numbered_injective heq
  · intro n hn
    split
    · next hmem => exact hmem
    · next hmem => exact (h key n hn).resolve_left hmem

/-- Only the counters and the names in use matter. -/
theorem Backed.of_eq {table after : Table} (h : table.Backed)
    (hemitted : after.emitted = table.emitted) (hcounters : after.counters = table.counters) :
    after.Backed := by
  intro key n hn
  rw [counter, hcounters] at hn
  rw [hemitted]
  exact h key n hn

theorem Backed.emit {table : Table} (h : table.Backed) (name : String) :
    (table.emit name).2.Backed :=
  fun key n hn => (h key n hn).imp (List.mem_cons_of_mem _) (List.mem_cons_of_mem _)

/-- A numbered name keeps the names of all numbers, whichever of its two stems the key is used
    with. -/
theorem Backed.emitNumbered {table : Table} (h : table.Backed) {key stem : String}
    {used : List String} (hstem : stem = key ∨ stem = key ++ "_")
    (hused : ∀ n, numbered stem n ∈ used → numbered stem n ∈ table.emitted) :
    (table.emitNumbered key stem used).2.Backed := by
  intro other n hn
  have hkeep := (h.emit (numbered stem (firstFree stem used (table.counter key)))) other n
  rw [counter_emitNumbered] at hn
  split at hn
  · next heq =>
    subst heq
    rcases Nat.lt_or_ge n (table.counter other) with hbefore | hafter
    · exact hkeep hbefore
    · -- a number of this search, passed over or found
      have hmem := mem_emitNumbered_of_le hused hafter hn
      rcases hstem with rfl | rfl
      · exact Or.inl hmem
      · exact Or.inr hmem
  · exact hkeep hn

theorem Backed.emitDeclared {table : Table} (h : table.Backed) (name : String) :
    (table.emitDeclared name).2.Backed := by
  rw [Table.emitDeclared]
  split
  · exact h.emitNumbered (Or.inr rfl) fun n hn => numbered_mem_unavailable.1 hn
  · exact h.emit name

/-- Every operation keeps a name in use for each number. -/
theorem Backed.step {table : Table} (h : table.Backed) (op : Op) : (table.step op).2.Backed := by
  cases table.step_supplies op with
  | silent _ _ hemitted hcounters => exact h.of_eq hemitted hcounters
  | declared name _ _ hemitted hcounters => exact (h.emitDeclared name).of_eq hemitted hcounters
  | temporary base _ _ hemitted hcounters =>
    have hgiven : (table.temporary base).2.Backed :=
      h.emitNumbered (Or.inl rfl) fun n hn => hn
    exact hgiven.of_eq hemitted hcounters

/-- Every run keeps a name in use for each number. -/
theorem Backed.run {table : Table} (h : table.Backed) (ops : List Op) :
    (table.run ops).2.Backed := by
  induction ops generalizing table with
  | nil => exact h
  | cons op rest ih => exact ih (h.step op)

/-! ### As many names as calls -/

theorem length_step (table : Table) (op : Op) :
    (table.step op).1.toList.length = op.naming?.toList.length := by
  cases op <;> rfl

/-- A run gives one name for each of its naming calls. -/
theorem length_run (table : Table) (ops : List Op) :
    (table.run ops).1.length = (namings ops).length := by
  induction ops generalizing table with
  | nil => rfl
  | cons op rest ih => simp [length_step, ih]

theorem length_emitted_run (ops : List Op) :
    (({} : Table).run ops).2.emitted.length = (namings ops).length := by
  rw [emitted_run, List.append_nil, List.length_reverse, length_run]

/-! ### The search of a call -/

/-- What a call searches for: a number behind the stem that gives none of the names in use, from the
    counter of the key on. -/
structure Wanted where
  key : String
  stem : String
  used : List String

/-- The search that a naming call has to make, if it has to make one. A declaration whose own name
    is available makes none. -/
def search? (table : Table) : Naming → Option Wanted
  | .declared name =>
    if name ∈ table.unavailable then some ⟨name, name ++ "_", table.unavailable⟩ else none
  | .temporary base => some ⟨base ++ "$", base ++ "$", table.emitted⟩

/-- What a call with a search comes to: the number that is found, behind the stem, and a counter right
    after it. -/
theorem step_of_search? {table : Table} {op : Op} {call : Naming} {wanted : Wanted}
    (hcall : op.naming? = some call) (h : table.search? call = some wanted) :
    let number := firstFree wanted.stem wanted.used (table.counter wanted.key)
    (table.step op).1 = some (numbered wanted.stem number) ∧
      (table.step op).2.counter wanted.key = number + 1 := by
  have hnumbered := counter_emitNumbered table wanted.key wanted.stem wanted.used wanted.key
  rw [if_pos rfl] at hnumbered
  cases table.step_supplies op with
  | silent hnone => cases hnone.symm.trans hcall
  | declared name hname hgiven _ hcounters =>
    cases hname.symm.trans hcall
    simp only [search?] at h
    split at h
    · next hmem =>
      cases h
      rw [emitDeclared, if_pos (List.contains_iff_mem.2 hmem)] at hgiven hcounters
      exact ⟨hgiven, by rw [← hnumbered, counter, hcounters, ← counter]⟩
    · cases h
  | temporary base hbase hgiven _ hcounters =>
    cases hbase.symm.trans hcall
    cases h
    exact ⟨hgiven, by rw [← hnumbered, counter, hcounters, ← counter]; rfl⟩

/-- Searches end and counters do not run over, whatever names are used. After a run from an empty
    table, no counter is larger than the number of naming calls so far. If the next operation has to
    search, its search is over after one round more than that at most; it gives the number that is
    found, and the counter goes on right after it. And if no more than 2³² − 1 naming calls are made
    with this one, a counter of 32 bits has room in every round. -/
theorem searches_end_in_time (ops : List Op) :
    (∀ key, (({} : Table).run ops).2.counter key ≤ (namings ops).length) ∧
    ∀ op call wanted, op.naming? = some call → (({} : Table).run ops).2.search? call = some wanted →
      ∃ rounds number,
        rounds ≤ (namings ops).length + 1 ∧
        Search (fun _ => True) (fun n => numbered wanted.stem n ∉ wanted.used)
          ((({} : Table).run ops).2.counter wanted.key) rounds number ∧
        ((namings (ops ++ [op])).length ≤ UInt32.size - 1 →
          Search (· < UInt32.size) (fun n => numbered wanted.stem n ∉ wanted.used)
            ((({} : Table).run ops).2.counter wanted.key) rounds number) ∧
        ((({} : Table).run ops).2.step op).1 = some (numbered wanted.stem number) ∧
        ((({} : Table).run ops).2.step op).2.counter wanted.key = number + 1 := by
  have hbacked : ∀ ops, (({} : Table).run ops).2.Backed := backed_empty.run
  have hcounter : ∀ ops key, (({} : Table).run ops).2.counter key ≤ (namings ops).length := by
    intro ops key
    rw [← length_emitted_run]
    exact (hbacked ops).counter_le key
  refine ⟨hcounter ops, ?_⟩
  intro op call wanted hcall hsearch
  obtain ⟨hname, hnext⟩ := step_of_search? hcall hsearch
  -- the counter after the call bounds the number that is found
  have hafter := hcounter (ops ++ [op]) wanted.key
  rw [run_append] at hafter
  simp only [run_cons, run_nil, hnext] at hafter
  have hcalls : (namings (ops ++ [op])).length = (namings ops).length + 1 := by simp [hcall]
  refine ⟨_, _, ?_, search_firstFree _ _ _ fun _ _ => trivial, ?_, hname, hnext⟩
  · omega
  · intro hlimit
    have hsize : 0 < UInt32.size := by decide
    refine search_firstFree _ _ _ ?_
    intro n hn
    omega

/-- A search that meets two names in use: its counter is at 0, and it needs a third round. -/
theorem searches_end_in_time_thirdRound :
    let ops : List Op := [.declare "b$0" .int, .declare "b$1" .int]
    ∃ rounds number, rounds ≤ 3 ∧
      Search (· < UInt32.size) (fun n => numbered "b$" n ∉ ["b$1", "b$0"]) 0 rounds number ∧
      ((({} : Table).run ops).2.step (.temporary "b")).1 = some (numbered "b$" number) ∧
      numbered "b$" number = "b$2" := by
  intro ops
  have hgiven : ((({} : Table).run ops).2.step (.temporary "b")).1 = some "b$2" := by
    decide +kernel
  obtain ⟨rounds, number, hrounds, -, hsearch, hname, -⟩ :=
    (searches_end_in_time ops).2 (.temporary "b") _ _ rfl rfl
  exact ⟨rounds, number, hrounds, hsearch (by decide), hname,
    Option.some.inj (hname.symm.trans hgiven)⟩

/-- A declared name and temporaries that draw from one counter. -/
example : (({} : Table).run [.temporary "b", .declare "b$" .int, .declare "b$" .int,
    .temporary "b"]).1 = ["b$0", "b$", "b$_1", "b$2"] := by decide +kernel

end Table

end PixelLowering.Names
