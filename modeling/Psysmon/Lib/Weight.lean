import Psysmon.Lib.Text

/-!
# Psysmon.Lib.Weight — sums of weights over lists

* `sum_map_le_of_subset`: a list without repetitions weighs at most as much as a list that holds it.
* `sum_map_add_le_of_sublist`: what leaving elements out takes off at least.
* `filter_map_sublist`: what is left of a list after a change that can only take elements out.
* `length_lines`: the length of joined lines.
-/

namespace Psysmon.Lib

variable {α : Type*}

theorem sum_map_le_of_subset (w : α → ℕ) {l l' : List α} (hn : l'.Nodup) (h : l' ⊆ l) : (l'.map w).sum ≤ (l.map w).sum := by
  obtain ⟨l₀, hperm, hsub⟩ := List.subperm_of_subset hn h
  calc (l'.map w).sum = (l₀.map w).sum := (hperm.symm.map w).sum_eq
    _ ≤ (l.map w).sum := (hsub.map w).sum_le_sum fun a _ => Nat.zero_le a

theorem sum_map_add_le_of_sublist (w : α → ℕ) {k : ℕ} {l l' : List α} (h : l'.Sublist l) (hk : ∀ a ∈ l, k ≤ w a) :
    (l'.map w).sum + k * (l.length - l'.length) ≤ (l.map w).sum := by
  induction h with
  | slnil => simp
  | @cons l' l a hsub ih =>
    have hlen := hsub.length_le
    obtain ⟨ha, hl⟩ := List.forall_mem_cons.mp hk
    have hcount : k * ((a :: l).length - l'.length) = k + k * (l.length - l'.length) := by
      rw [List.length_cons, Nat.succ_sub hlen, Nat.mul_succ, Nat.add_comm]
    rw [hcount, List.map_cons, List.sum_cons]
    have := ih hl
    omega
  | @cons_cons l' l a hsub ih =>
    have := ih (List.forall_mem_cons.mp hk).2
    simp only [List.map_cons, List.sum_cons, List.length_cons, Nat.add_sub_add_right]
    omega

/-- A change that keeps what passes the filter afterwards. -/
theorem filter_map_sublist {β : Type*} {l : List α} {f g : α → β} {p : β → Bool}
    (h : ∀ a ∈ l, p (g a) = true → g a = f a) :
    ((l.map g).filter p).Sublist ((l.map f).filter p) ∧
      ∀ a ∈ l, p (f a) = true → p (g a) = false → ((l.map g).filter p).length < ((l.map f).filter p).length := by
  have hmap : (l.map g).filter p = (l.filter (p ∘ g)).map f := by
    rw [List.filter_map]
    exact List.map_congr_left fun a ha => h a (List.mem_of_mem_filter ha) (List.mem_filter.mp ha).2
  have hsub : (l.filter (p ∘ g)).Sublist (l.filter (p ∘ f)) := by
    have hboth : l.filter (p ∘ g) = (l.filter (p ∘ f)).filter (p ∘ g) := by
      rw [List.filter_filter]
      refine List.filter_congr fun a ha => ?_
      rw [Function.comp_apply, Function.comp_apply]
      cases hpa : p (g a) with
      | false => rw [Bool.false_and]
      | true => rw [← h a ha hpa, hpa, Bool.and_self]
    rw [hboth]
    exact List.filter_sublist
  rw [hmap, List.filter_map, List.length_map, List.length_map]
  refine ⟨hsub.map f, fun a ha hp hp' => lt_of_le_of_ne hsub.length_le fun hlen => ?_⟩
  have hmem : a ∈ l.filter (p ∘ g) := hsub.eq_of_length hlen ▸ List.mem_filter.mpr ⟨ha, hp⟩
  have hkept : p (g a) = true := (List.mem_filter.mp hmem).2
  exact Bool.false_ne_true (hp'.symm.trans hkept)

/-- Joined lines, each ended by the separator. -/
theorem length_lines (x : α) : ∀ {ls : List (List α)}, ls ≠ [] →
    ([x].intercalate ls ++ [x]).length = (ls.map fun l => l.length + 1).sum
  | [l], _ => by simp [List.intercalate]
  | l :: l' :: ls, _ => by
    have ih := length_lines x (List.cons_ne_nil l' ls)
    simp only [List.intercalate, List.intersperse_cons_cons, List.flatten_cons, List.length_append, List.map_cons,
      List.sum_cons, List.length_singleton] at ih ⊢
    omega

end Psysmon.Lib
