import Mathlib.Data.Finset.Dedup
import Mathlib.Data.Nat.Find
import PixelLowering.Proofs.Names.Run

/-! Counters never skip a free name.

    A search under a key starts where the last one under that key ended, not at 0. All numbers
    before that place are taken, so the search still finds the least number that is free. This is
    the invariant `Tight`. It needs that a declared name and a temporary never share a key: the key
    of a temporary ends in a dollar sign, and declared names must not.

        in use x_0 x_1, counter of x at 2:   x_2 is both the next and the least free name -/

namespace PixelLowering.Names

/-- Some number is free, whatever is in use. -/
theorem exists_free (stem : String) (given : Finset String) : ∃ n, numbered stem n ∉ given :=
  ⟨firstFree stem given.toList 0, fun h =>
    numbered_firstFree_not_mem stem given.toList 0 (Finset.mem_toList.2 h)⟩

/-- The least number whose name is not given yet. -/
def leastFree (stem : String) (given : Finset String) : Nat := Nat.find (exists_free stem given)

/-- A search that passes over given names only, and starts after given names only, finds the least
    free number. -/
theorem firstFree_eq_leastFree {stem : String} {used : List String} {given : Finset String}
    {start : Nat} (hbelow : ∀ n < start, numbered stem n ∈ given)
    (hused : ∀ n, numbered stem n ∈ used ↔ numbered stem n ∈ given) :
    firstFree stem used start = leastFree stem given := by
  refine ((Nat.find_eq_iff _).2 ⟨?_, ?_⟩).symm
  · rw [← hused]
    exact numbered_firstFree_not_mem stem used start
  · intro n hn
    rw [not_not]
    rcases Nat.lt_or_ge n start with hlt | hge
    · exact hbelow n hlt
    · have htaken := not_free_of_lt_firstFrom hge hn
      rw [← hused]
      simpa using htaken

/-- No forbidden name has a digit in it. -/
theorem digit_not_mem_of_forbidden : ∀ name ∈ forbidden, ∀ c ∈ name.toList, c.isDigit = false := by
  have hall : (forbidden.all fun name => name.toList.all fun c => !c.isDigit) = true := by
    decide +kernel
  simpa only [List.all_eq_true, Bool.not_eq_true'] using hall

/-- Every numbered name has a digit in it, so it is not forbidden. -/
theorem numbered_not_mem_forbidden (stem : String) (n : Nat) : numbered stem n ∉ forbidden := by
  intro hmem
  obtain ⟨c, hc⟩ := List.exists_mem_of_ne_nil _ (Nat.toDigits_ne_nil (b := 10) (n := n))
  have hdigit : c.isDigit = true := Nat.isDigit_of_mem_toDigits (by decide) (by decide) hc
  have hin : c ∈ (numbered stem n).toList := by
    rw [numbered, String.toList_append, List.mem_append]
    exact Or.inr (by simpa [Nat.toString_eq_repr, Nat.toList_repr] using hc)
  rw [digit_not_mem_of_forbidden _ hmem c hin] at hdigit
  cases hdigit

/-- A name that could be the key of a temporary. -/
def EndsInDollar (name : String) : Prop := name.toList.getLast? = some '$'

instance (name : String) : Decidable (EndsInDollar name) := inferInstanceAs (Decidable (_ = _))

theorem endsInDollar_append (base : String) : EndsInDollar (base ++ "$") := by
  simp [EndsInDollar]

namespace Table

/-- All numbers before a counter are taken, for declared names and for temporaries. -/
structure Tight (table : Table) : Prop where
  declared : ∀ {name : String} {n : Nat}, ¬EndsInDollar name → n < table.counter name →
    numbered (name ++ "_") n ∈ table.emitted
  temporary : ∀ {base : String} {n : Nat}, n < table.counter (base ++ "$") →
    numbered (base ++ "$") n ∈ table.emitted

theorem tight_empty : ({} : Table).Tight :=
  ⟨fun _ h => absurd h (Nat.not_lt_zero _), fun h => absurd h (Nat.not_lt_zero _)⟩

/-- Only the counters and the names in use matter. -/
theorem Tight.of_eq {table after : Table} (h : table.Tight)
    (hemitted : after.emitted = table.emitted) (hcounters : after.counters = table.counters) :
    after.Tight := by
  have hcounter : after.counter = table.counter := by
    funext key
    rw [counter, counter, hcounters]
  refine ⟨?_, ?_⟩
  · intro name n hname hn
    rw [hemitted]
    exact h.declared hname (by rwa [← hcounter])
  · intro base n hn
    rw [hemitted]
    exact h.temporary (by rwa [← hcounter])

theorem Tight.emit {table : Table} (h : table.Tight) (name : String) : (table.emit name).2.Tight :=
  ⟨fun hname hn => List.mem_cons_of_mem _ (h.declared hname hn),
    fun hn => List.mem_cons_of_mem _ (h.temporary hn)⟩

/-- A numbered name moves the counter of its own key and no other. -/
theorem counter_emitNumbered (table : Table) (key stem : String) (used : List String)
    (other : String) :
    (table.emitNumbered key stem used).2.counter other =
      if other = key then firstFree stem used (table.counter key) + 1 else table.counter other := by
  simp only [emitNumbered, emit, counter, List.lookup_cons]
  by_cases h : other = key
  · simp [h]
  · have h' : (other == key) = false := by simpa using h
    rw [if_neg h, h']

/-- After a numbered name is given, all numbers that its search has looked at are taken. -/
theorem mem_emitNumbered_of_le {table : Table} {key stem : String} {used : List String}
    (hused : ∀ n, numbered stem n ∈ used → numbered stem n ∈ table.emitted) {n : Nat}
    (hstart : table.counter key ≤ n) (hn : n < firstFree stem used (table.counter key) + 1) :
    numbered stem n ∈ (table.emitNumbered key stem used).2.emitted := by
  simp only [emitNumbered, emit, List.mem_cons]
  rcases Nat.lt_or_eq_of_le (Nat.le_of_lt_succ hn) with hlt | rfl
  · right
    have htaken := not_free_of_lt_firstFrom hstart hlt
    exact hused n (by simpa using htaken)
  · left
    rfl

/-- After a numbered name is given, all numbers before the new counter are taken. -/
theorem mem_emitNumbered {table : Table} {key stem : String} {used : List String}
    (hbelow : ∀ n < table.counter key, numbered stem n ∈ table.emitted)
    (hused : ∀ n, numbered stem n ∈ used → numbered stem n ∈ table.emitted) {n : Nat}
    (hn : n < firstFree stem used (table.counter key) + 1) :
    numbered stem n ∈ (table.emitNumbered key stem used).2.emitted := by
  rcases Nat.lt_or_ge n (table.counter key) with hbefore | hafter
  · exact List.mem_cons_of_mem _ (hbelow n hbefore)
  · exact mem_emitNumbered_of_le hused hafter hn

/-- Numbered names that a declaration must avoid are all in use. -/
theorem numbered_mem_unavailable {table : Table} {stem : String} {n : Nat} :
    numbered stem n ∈ table.unavailable ↔ numbered stem n ∈ table.emitted := by
  rw [unavailable, List.mem_append]
  exact or_iff_left (numbered_not_mem_forbidden stem n)

theorem Tight.emitDeclared {table : Table} (h : table.Tight) {name : String}
    (hname : ¬EndsInDollar name) : (table.emitDeclared name).2.Tight := by
  rw [Table.emitDeclared]
  split
  · refine ⟨?_, ?_⟩
    · intro other n hother hn
      rw [counter_emitNumbered] at hn
      split at hn
      · next heq =>
        subst heq
        exact mem_emitNumbered (fun m hm => h.declared hname hm)
          (fun m hm => numbered_mem_unavailable.1 hm) hn
      · exact List.mem_cons_of_mem _ (h.declared hother hn)
    · intro base n hn
      rw [counter_emitNumbered] at hn
      split at hn
      · next heq => exact absurd (heq ▸ endsInDollar_append base) hname
      · exact List.mem_cons_of_mem _ (h.temporary hn)
  · exact h.emit name

theorem Tight.giveTemporary {table : Table} (h : table.Tight) (base : String) :
    (table.temporary base).2.Tight := by
  rw [Table.temporary]
  refine ⟨?_, ?_⟩
  · intro name n hname hn
    rw [counter_emitNumbered] at hn
    split at hn
    · next heq => exact absurd (heq ▸ endsInDollar_append base) hname
    · exact List.mem_cons_of_mem _ (h.declared hname hn)
  · intro other n hn
    rw [counter_emitNumbered] at hn
    split at hn
    · next heq =>
      rw [heq]
      exact mem_emitNumbered (fun m hm => h.temporary hm) (fun m hm => hm) hn
    · exact List.mem_cons_of_mem _ (h.temporary hn)

/-- The name that a declaration gets: its own if that is available, else the first free one. -/
theorem Tight.emitDeclared_eq {table : Table} (h : table.Tight) {name : String}
    (hname : ¬EndsInDollar name) :
    (table.emitDeclared name).1 =
      if name ∈ forbidden ∨ name ∈ table.emitted.toFinset then
        numbered (name ++ "_") (leastFree (name ++ "_") table.emitted.toFinset)
      else name := by
  have hcond : table.unavailable.contains name = true ↔
      name ∈ forbidden ∨ name ∈ table.emitted.toFinset := by
    simp [unavailable, or_comm]
  rw [Table.emitDeclared]
  split
  · next htaken =>
    rw [if_pos (hcond.1 htaken)]
    have hleast : firstFree (name ++ "_") table.unavailable (table.counter name) =
        leastFree (name ++ "_") table.emitted.toFinset := by
      refine firstFree_eq_leastFree ?_ ?_
      · intro n hn
        rw [List.mem_toFinset]
        exact h.declared hname hn
      · intro n
        rw [numbered_mem_unavailable, List.mem_toFinset]
    rw [← hleast]
    rfl
  · next hfree =>
    rw [if_neg (fun hc => hfree (hcond.2 hc))]
    rfl

/-- The name that a temporary gets: the first free one. -/
theorem Tight.temporary_eq {table : Table} (h : table.Tight) (base : String) :
    (table.temporary base).1 =
      numbered (base ++ "$") (leastFree (base ++ "$") table.emitted.toFinset) := by
  have hleast : firstFree (base ++ "$") table.emitted (table.counter (base ++ "$")) =
      leastFree (base ++ "$") table.emitted.toFinset := by
    refine firstFree_eq_leastFree ?_ ?_
    · intro n hn
      rw [List.mem_toFinset]
      exact h.temporary hn
    · intro n
      rw [List.mem_toFinset]
  rw [← hleast]
  rfl

end Table

end PixelLowering.Names
