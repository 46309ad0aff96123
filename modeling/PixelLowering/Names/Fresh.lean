/-! Numbered names: a stem followed by a number in decimal, and the search for the first one that
    is not in use.

    Different numbers give different names, so a list of `k` names in use can rule out at most `k`
    of the candidates and the search need not look at more than `k + 1` of them.

        stem "x_", in use x_0 x_1 x_3, from 0:   x_0 ✗   x_1 ✗   x_2 ✓ -/

namespace PixelLowering.Names

/-- The first number from `n` on that is free, looking at no more than `steps` numbers before the
    answer. -/
def firstFrom (free : Nat → Bool) : Nat → Nat → Nat
  | 0, n => n
  | steps + 1, n => if free n then n else firstFrom free steps (n + 1)

/-- A stem and a number. -/
def numbered (stem : String) (n : Nat) : String := stem ++ toString n

/-- The first number from `start` on whose name is not in use. -/
def firstFree (stem : String) (used : List String) (start : Nat) : Nat :=
  firstFrom (fun n => !used.contains (numbered stem n)) used.length start

/-- The search never goes back. -/
theorem le_firstFrom (free : Nat → Bool) (steps n : Nat) : n ≤ firstFrom free steps n := by
  induction steps generalizing n with
  | zero => exact Nat.le_refl n
  | succ steps ih =>
    rw [firstFrom]
    split
    · exact Nat.le_refl n
    · exact Nat.le_trans (Nat.le_succ n) (ih (n + 1))

/-- Every number that the search passes over is taken. -/
theorem not_free_of_lt_firstFrom {free : Nat → Bool} {steps n k : Nat} (hn : n ≤ k)
    (hk : k < firstFrom free steps n) : free k = false := by
  induction steps generalizing n with
  | zero => exact absurd hk (by simp [firstFrom]; omega)
  | succ steps ih =>
    rw [firstFrom] at hk
    split at hk
    · omega
    · next h =>
      rcases Nat.eq_or_lt_of_le hn with rfl | hlt
      · simpa using h
      · exact ih hlt hk

/-- If the search ends on a number that is taken, so is every number it could have reached. -/
theorem not_free_of_firstFrom {free : Nat → Bool} {steps n k : Nat}
    (h : free (firstFrom free steps n) = false) (hn : n ≤ k) (hk : k ≤ n + steps) :
    free k = false := by
  induction steps generalizing n with
  | zero =>
    obtain rfl : k = n := by omega
    exact h
  | succ steps ih =>
    rw [firstFrom] at h
    split at h
    · next hfree => exact absurd h (by simp [hfree])
    · next hfree =>
      rcases Nat.eq_or_lt_of_le hn with rfl | hlt
      · simpa using hfree
      · exact ih h hlt (by omega)

/-- Different numbers give different names. -/
theorem numbered_injective {stem : String} {m n : Nat} (h : numbered stem m = numbered stem n) :
    m = n := by
  have hrepr : m.repr = n.repr := (String.append_right_inj stem).1 h
  have hdigits : Nat.toDigits 10 m = Nat.toDigits 10 n := by
    rw [← Nat.toList_repr, ← Nat.toList_repr, hrepr]
  have hvalue := congrArg (fun digits => Nat.ofDigitChars 10 digits 0) hdigits
  simpa using hvalue

/-- The name that the search ends on is not in use. -/
theorem numbered_firstFree_not_mem (stem : String) (used : List String) (start : Nat) :
    numbered stem (firstFree stem used start) ∉ used := by
  intro hmem
  have hsub : (List.range' start (used.length + 1)).map (numbered stem) ⊆ used := by
    intro name hname
    obtain ⟨k, hk, rfl⟩ := List.mem_map.1 hname
    have hk := List.mem_range'_1.1 hk
    have htaken := @not_free_of_firstFrom (fun n => !used.contains (numbered stem n))
      used.length start k (by simpa [firstFree] using hmem) hk.1 (by omega)
    simpa using htaken
  have hnodup : ((List.range' start (used.length + 1)).map (numbered stem)).Nodup := by
    refine List.pairwise_map.2 ((List.nodup_range' 1).imp ?_)
    intro m n hne heq
    exact hne (numbered_injective heq)
  have hlen := hnodup.length_le_of_subset hsub
  rw [List.length_map, List.length_range'] at hlen
  omega

end PixelLowering.Names
