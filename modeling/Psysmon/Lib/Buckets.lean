import Psysmon.Lib.Assoc

/-!
# Psysmon.Lib.Buckets — a list sorted into an insertion-ordered dict of lists

`buckets key l` is the dict that `d.setdefault(key(a), []).append(a)` builds over `l`.

* `mem_keys_buckets`, `nodup_keys_buckets`, `getD_lookup_buckets`: its keys and its lists.
* `flatMap_filter_perm`: lists by key, over keys that cover a list, are a permutation of it.
-/

namespace Psysmon.Lib

variable {κ α : Type*} [DecidableEq κ]

/-- `d.setdefault(k, []).append(a)`. -/
def addTo (k : κ) (a : α) : List (κ × List α) → List (κ × List α)
  | [] => [(k, [a])]
  | b :: bs => if b.1 = k then (k, b.2 ++ [a]) :: bs else b :: addTo k a bs

def buckets (key : α → κ) (l : List α) : List (κ × List α) := l.foldl (fun bs a => addTo (key a) a bs) []

theorem keys_addTo (k : κ) (a : α) (bs : List (κ × List α)) :
    (addTo k a bs).map Prod.fst = if k ∈ bs.map Prod.fst then bs.map Prod.fst else bs.map Prod.fst ++ [k] := by
  induction bs with
  | nil => rfl
  | cons b bs ih =>
    rw [addTo]
    by_cases hb : b.1 = k
    · rw [if_pos hb, if_pos (by simp [hb]), List.map_cons, List.map_cons, hb]
    · rw [if_neg hb, List.map_cons, ih, List.map_cons]
      simp only [List.mem_cons, Ne.symm hb, false_or]
      split_ifs <;> rfl

theorem lookup_addTo [BEq κ] [LawfulBEq κ] (k k' : κ) (a : α) (bs : List (κ × List α)) :
    (addTo k a bs).lookup k' = if k' = k then some ((bs.lookup k).getD [] ++ [a]) else bs.lookup k' := by
  induction bs with
  | nil =>
    by_cases h : k' = k
    · simp [addTo, h]
    · simp [addTo, List.lookup_cons, beq_false_of_ne h, h]
  | cons b bs ih =>
    obtain ⟨kb, l⟩ := b
    rw [addTo]
    by_cases hb : kb = k
    · subst hb
      by_cases h : k' = kb
      · simp [h]
      · simp [List.lookup_cons, beq_false_of_ne h, h]
    · rw [if_neg hb, List.lookup_cons, List.lookup_cons, List.lookup_cons, ih]
      by_cases h : k' = k
      · subst h
        simp [beq_false_of_ne (Ne.symm hb)]
      · simp [h]

variable (key : α → κ)

theorem buckets_concat (l : List α) (a : α) : buckets key (l ++ [a]) = addTo (key a) a (buckets key l) := by
  rw [buckets, List.foldl_append]
  rfl

theorem mem_keys_buckets {l : List α} {k : κ} : k ∈ (buckets key l).map Prod.fst ↔ ∃ a ∈ l, key a = k := by
  induction l using List.reverseRecOn with
  | nil => simp [buckets]
  | append_singleton l a ih =>
    rw [buckets_concat, keys_addTo]
    simp only [List.mem_append, List.mem_singleton, or_and_right, exists_or, exists_eq_left]
    rw [← ih]
    split_ifs with h
    · exact ⟨.inl, fun hk => hk.elim id fun he => he ▸ h⟩
    · rw [List.mem_append, List.mem_singleton, eq_comm (a := k)]

/-- The keys depend on the keys of the elements only. -/
theorem keys_buckets_map {f : α → α} (hf : ∀ a, key (f a) = key a) (l : List α) :
    (buckets key (l.map f)).map Prod.fst = (buckets key l).map Prod.fst := by
  induction l using List.reverseRecOn with
  | nil => rfl
  | append_singleton l a ih =>
    rw [List.map_append, List.map_singleton, buckets_concat, buckets_concat, keys_addTo, keys_addTo, ih, hf]

theorem nodup_keys_buckets (l : List α) : ((buckets key l).map Prod.fst).Nodup := by
  induction l using List.reverseRecOn with
  | nil => exact List.nodup_nil
  | append_singleton l a ih =>
    rw [buckets_concat, keys_addTo]
    split_ifs with h
    · exact ih
    · exact List.nodup_append.mpr ⟨ih, List.nodup_singleton _, fun b hb c hc heq => h (List.mem_singleton.mp hc ▸ heq ▸ hb)⟩

/-- The list at a key: what has the key, in order. -/
theorem getD_lookup_buckets [BEq κ] [LawfulBEq κ] (l : List α) (k : κ) :
    ((buckets key l).lookup k).getD [] = l.filter fun a => key a = k := by
  induction l using List.reverseRecOn with
  | nil => rfl
  | append_singleton l a ih =>
    rw [buckets_concat, lookup_addTo, List.filter_append]
    by_cases h : k = key a
    · subst h
      rw [if_pos rfl, Option.getD_some, ih]
      simp
    · rw [if_neg h, ih]
      simp [Ne.symm h]

/-- **Nothing is lost and nothing is doubled**: the lists of distinct keys, if every element has one of them. -/
theorem flatMap_filter_perm {ks : List κ} (hks : ks.Nodup) {l : List α} (hl : ∀ a ∈ l, key a ∈ ks) :
    (ks.flatMap fun k => l.filter fun a => key a = k).Perm l := by
  induction ks generalizing l with
  | nil =>
    have hnil : l = [] := List.eq_nil_iff_forall_not_mem.mpr fun a ha => absurd (hl a ha) List.not_mem_nil
    rw [hnil]
    exact .refl _
  | cons k ks ih =>
    obtain ⟨hk, hks⟩ := List.nodup_cons.mp hks
    have hrest := ih hks (l := l.filter fun a => key a ≠ k) fun a ha => by
      obtain ⟨hal, hne⟩ := List.mem_filter.mp ha
      exact (List.mem_cons.mp (hl a hal)).resolve_left (by simpa using hne)
    have hsame : (ks.flatMap fun k' => (l.filter fun a => key a ≠ k).filter fun a => key a = k') =
        ks.flatMap fun k' => l.filter fun a => key a = k' := by
      refine List.flatMap_congr fun k' hk' => ?_
      rw [List.filter_filter]
      refine List.filter_congr fun a _ => ?_
      have hne : k' ≠ k := fun h => hk (h ▸ hk')
      by_cases h : key a = k' <;> simp [h, hne]
    rw [hsame] at hrest
    rw [List.flatMap_cons]
    have hsplit := List.filter_append_perm (fun a => decide (key a = k)) l
    refine (List.Perm.append_left _ hrest).trans ?_
    simpa using hsplit

/-- What satisfies one of two exclusive conditions. -/
theorem filter_or_perm {p q : α → Bool} {l : List α} (h : ∀ a ∈ l, p a = true → q a = false) :
    (l.filter p ++ l.filter q).Perm (l.filter fun a => p a || q a) := by
  induction l with
  | nil => exact .refl _
  | cons a l ih =>
    have ih := ih fun b hb => h b (List.mem_cons_of_mem a hb)
    cases hp : p a with
    | true =>
      have hq := h a List.mem_cons_self hp
      simpa [hp, hq] using ih
    | false =>
      cases hq : q a with
      | true => simpa [hp, hq] using List.perm_middle.trans (ih.cons a)
      | false => simpa [hp, hq] using ih

end Psysmon.Lib
