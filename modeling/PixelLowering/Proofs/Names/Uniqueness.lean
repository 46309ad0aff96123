import Mathlib.Data.List.Nodup
import PixelLowering.Proofs.Names.Run

/-! Names of a method never clash.

    Whatever is declared, in whatever order and nesting, every name that a run gives is new: it
    differs from all names given before, also from those of scopes that are closed by then, and it
    is neither a reserved word nor a library class. So no two bindings that are held at the same
    time share an emitted name, and what resolves to a name is known from the name alone.

    The invariant is `Sound`. A step keeps it because a name is given only through `Emits`: the new
    binding comes on top of the visible ones with a name that none of them can have. -/

namespace PixelLowering.Names

open PixelLowering.Source

/-- The bindings of every scope carry the depth of that scope, the outermost one being 1. -/
def Layered : List (List Binding) → Prop
  | [] => True
  | inner :: outer => (∀ b ∈ inner, b.depth = outer.length + 1) ∧ Layered outer

/-- Counted from the outside, scope `i` holds bindings of depth `i + 1`. -/
theorem Layered.depth_eq : ∀ {scopes : List (List Binding)}, Layered scopes →
    ∀ {i : Nat} {scope : List Binding}, scopes.reverse[i]? = some scope →
      ∀ b ∈ scope, b.depth = i + 1
  | [], _, i, scope, hget => by simp at hget
  | inner :: outer, ⟨hinner, houter⟩, i, scope, hget => by
    rw [List.reverse_cons] at hget
    rcases Nat.lt_or_ge i outer.length with hlt | hge
    · rw [List.getElem?_append_left (by simpa using hlt)] at hget
      exact houter.depth_eq hget
    · rw [List.getElem?_append_right (by simpa using hge), List.length_reverse] at hget
      obtain ⟨hi, rfl⟩ : i = outer.length ∧ inner = scope := by
        rcases Nat.eq_or_lt_of_le hge with rfl | hlt
        · simpa using hget
        · rw [List.getElem?_eq_none (by simp; omega)] at hget
          cases hget
      rw [hi]
      exact hinner

namespace Table

/-- What holds of the names of a method at any time: names in use are distinct and allowed,
    visible bindings have names in use and no two have the same, depths tell where a binding is. -/
structure Sound (table : Table) : Prop where
  distinct : table.emitted.Nodup
  allowed : ∀ name ∈ table.emitted, name ∉ forbidden
  inUse : ∀ b ∈ table.visible, b.emitted ∈ table.emitted
  apart : (table.visible.map Binding.emitted).Nodup
  outermost : ∀ b ∈ table.parameters, b.depth = 0
  layered : Layered table.scopes

theorem sound_empty : ({} : Table).Sound :=
  ⟨List.nodup_nil, by simp, by simp [visible], by simp [visible], by simp, trivial⟩

/-- Giving a name without binding it. -/
theorem Sound.emits {table after : Table} {name : String} (h : table.Sound)
    (he : table.Emits name after) : after.Sound := by
  refine ⟨?_, ?_, ?_, ?_, ?_, ?_⟩
  · rw [he.emitted]
    exact List.nodup_cons.2 ⟨he.fresh, h.distinct⟩
  · intro other hmem
    rw [he.emitted] at hmem
    rcases List.mem_cons.1 hmem with rfl | hmem
    · exact he.allowed
    · exact h.allowed other hmem
  · intro b hb
    rw [he.visible] at hb
    rw [he.emitted]
    exact List.mem_cons_of_mem _ (h.inUse b hb)
  · rw [he.visible]
    exact h.apart
  · rw [he.parameters]
    exact h.outermost
  · rw [he.scopes]
    exact h.layered

/-- A new name differs from those of all visible bindings, so a binding with that name may join
    them at any place. -/
theorem Sound.apart_of_perm {table after : Table} {name : String} (h : table.Sound)
    (he : table.Emits name after) (b : Binding) (hb : b.emitted = name) {visible : List Binding}
    (hperm : visible.Perm (b :: table.visible)) :
    (∀ c ∈ visible, c.emitted ∈ after.emitted) ∧ (visible.map Binding.emitted).Nodup := by
  refine ⟨?_, ?_⟩
  · intro c hc
    rw [he.emitted]
    rcases List.mem_cons.1 (hperm.mem_iff.1 hc) with rfl | hc
    · rw [hb]
      exact List.mem_cons_self
    · exact List.mem_cons_of_mem _ (h.inUse c hc)
  · rw [(hperm.map _).nodup_iff, List.map_cons, List.nodup_cons, hb]
    refine ⟨?_, h.apart⟩
    intro hmem
    obtain ⟨c, hc, hname⟩ := List.mem_map.1 hmem
    exact he.fresh (hname ▸ h.inUse c hc)

theorem Sound.declareParameter {table : Table} (h : table.Sound) (name : String) (ty : Ty) :
    (table.declareParameter name ty).2.Sound := by
  have he := table.emitDeclared_emits name
  have hs := h.emits he
  have hperm : (table.declareParameter name ty).2.visible.Perm
      (⟨name, (table.emitDeclared name).1, ty, 0⟩ :: table.visible) := by
    rw [← he.visible]
    exact List.perm_middle
  obtain ⟨hinUse, hapart⟩ := h.apart_of_perm he _ rfl hperm
  refine ⟨hs.distinct, hs.allowed, hinUse, hapart, ?_, hs.layered⟩
  intro b hb
  rcases List.mem_cons.1 hb with rfl | hb
  · rfl
  · exact hs.outermost b hb

theorem layered_push {table : Table} (h : Layered table.scopes) {b : Binding}
    (hb : b.depth = max table.scopes.length 1) : Layered (table.push b).scopes := by
  rw [push]
  split
  · next hnil =>
    rw [hnil] at hb
    exact ⟨by simpa using hb, trivial⟩
  · next inner outer hcons =>
    rw [hcons] at h hb
    refine ⟨?_, h.2⟩
    intro c hc
    rcases List.mem_cons.1 hc with rfl | hc
    · rw [hb, List.length_cons]
      omega
    · exact h.1 c hc

theorem Sound.declare {table : Table} (h : table.Sound) (name : String) (ty : Ty) :
    (table.declare name ty).2.Sound := by
  have he := table.emitDeclared_emits name
  have hs := h.emits he
  have hperm : (table.declare name ty).2.visible.Perm
      (⟨name, (table.emitDeclared name).1, ty,
        max (table.emitDeclared name).2.scopes.length 1⟩ :: table.visible) := by
    rw [← he.visible, Table.declare, visible_push]
  obtain ⟨hinUse, hapart⟩ := h.apart_of_perm he _ rfl hperm
  refine ⟨?_, ?_, ?_, hapart, ?_, layered_push hs.layered rfl⟩
  · simpa only [Table.declare, emitted_push] using hs.distinct
  · simpa only [Table.declare, emitted_push] using hs.allowed
  · simpa only [Table.declare, emitted_push] using hinUse
  · simpa only [Table.declare, parameters_push] using hs.outermost

/-- Every operation keeps the invariant. -/
theorem Sound.step {table : Table} (h : table.Sound) (op : Op) : (table.step op).2.Sound := by
  cases op with
  | enter => exact ⟨h.distinct, h.allowed, h.inUse, h.apart, h.outermost, by simp, h.layered⟩
  | leave =>
    -- what stays visible was visible before, in the same order
    have hsub : List.Sublist (table.leave?.getD table).visible table.visible := by
      rw [leave?_getD, visible, visible]
      refine List.Sublist.append_right ?_ _
      cases table.scopes with
      | nil => exact List.Sublist.refl _
      | cons inner outer => exact List.sublist_append_right _ _
    have hlayered : Layered table.scopes.tail := by
      have hl := h.layered
      revert hl
      cases table.scopes with
      | nil => exact id
      | cons inner outer => exact And.right
    simp only [Table.step]
    refine ⟨?_, ?_, ?_, h.apart.sublist (hsub.map _), ?_, ?_⟩
    · rw [leave?_getD]
      exact h.distinct
    · rw [leave?_getD]
      exact h.allowed
    · intro b hb
      have hb := h.inUse b (hsub.subset hb)
      rw [leave?_getD]
      exact hb
    · rw [leave?_getD]
      exact h.outermost
    · rw [leave?_getD]
      exact hlayered
  | parameter name ty => exact h.declareParameter name ty
  | declare name ty => exact h.declare name ty
  | temporary base => exact h.emits (table.temporary_emits base)

/-- Every run keeps the invariant. -/
theorem Sound.run {table : Table} (h : table.Sound) (ops : List Op) : (table.run ops).2.Sound := by
  induction ops generalizing table with
  | nil => exact h
  | cons op rest ih => exact ih (h.step op)

/-- The names that a run from an empty table gives are pairwise distinct. -/
theorem nodup_run (ops : List Op) : (({} : Table).run ops).1.Nodup := by
  have hdistinct := (sound_empty.run ops).distinct
  rw [emitted_run] at hdistinct
  simpa using hdistinct

/-- What resolves to an emitted name is known from that name. -/
theorem Sound.resolve?_injective {table : Table} (h : table.Sound) {x y emitted : String}
    (hx : table.resolve? x = some emitted) (hy : table.resolve? y = some emitted) : x = y := by
  obtain ⟨b, hb, rfl⟩ := Option.map_eq_some_iff.1 hx
  obtain ⟨c, hc, heq⟩ := Option.map_eq_some_iff.1 hy
  have hbc : c = b := List.inj_on_of_nodup_map h.apart (List.mem_of_find?_eq_some hc)
    (List.mem_of_find?_eq_some hb) heq
  subst hbc
  rw [lookup] at hb hc
  have hbx : c.name = x := by simpa using List.find?_some hb
  have hby : c.name = y := by simpa using List.find?_some hc
  rw [← hbx, hby]

/-- Names of a method are unique over its whole history. For every run from an empty table, the
    names given are pairwise distinct and none is reserved or the name of a library class. In the
    state that the run ends in, the names in use are those given; no two bindings held have the
    same emitted name, so different names never resolve to the same one; and the depth of a
    binding tells the scope that it is held in. -/
theorem run_gives_unique_names (ops : List Op) :
    let names := (({} : Table).run ops).1
    let table := (({} : Table).run ops).2
    names.Nodup ∧
    (∀ name ∈ names, name ∉ Target.reserved ∧ name ∉ Library.classNames) ∧
    (∀ name, name ∈ table.emitted ↔ name ∈ names) ∧
    (table.scopes.flatten ++ table.parameters).Pairwise (fun b c => b.emitted ≠ c.emitted) ∧
    (∀ x y emitted, x ≠ y → table.resolve? x = some emitted → table.resolve? y ≠ some emitted) ∧
    (∀ i scope, table.scopes.reverse[i]? = some scope → ∀ b ∈ scope, b.depth = i + 1) ∧
    (∀ b ∈ table.parameters, b.depth = 0) := by
  intro names table
  have hsound : table.Sound := sound_empty.run ops
  have hemitted : table.emitted = names.reverse := by
    simpa using emitted_run {} ops
  have hmem : ∀ name, name ∈ table.emitted ↔ name ∈ names := by
    intro name
    rw [hemitted, List.mem_reverse]
  refine ⟨nodup_run ops, ?_, hmem, ?_, ?_, ?_, hsound.outermost⟩
  · intro name hname
    have hallowed := hsound.allowed name ((hmem name).2 hname)
    rwa [forbidden, List.mem_append, not_or] at hallowed
  · exact List.pairwise_map.1 hsound.apart
  · intro x y emitted hne hx hy
    exact hne (hsound.resolve?_injective hx hy)
  · intro i scope hget
    exact hsound.layered.depth_eq hget

end Table

end PixelLowering.Names
