import Mathlib

/-!
# Psysmon.Lib.Assoc — association lists

`l.lookup k` after the operations that an insertion-ordered dict sees, and lists of records found by a key: with
distinct keys their order does not matter.  Records may also be numbered in the order they are made.

* `lookup_filter_key`, `find?_filter_key`: dropping entries by their key.
* `find?_perm`: the record with a given key in a permuted list.
* `getElem?_concat`: a new record has the next number.
-/

namespace Psysmon.Lib

variable {κ α β : Type*}

theorem getElem?_concat (l : List α) (a : α) (j : ℕ) :
    (l ++ [a])[j]? = if j = l.length then some a else l[j]? := by
  rw [List.getElem?_append]
  split
  · rename_i h
    rw [if_neg (by omega)]
  · rename_i h
    by_cases hj : j = l.length
    · simp [hj]
    · rw [if_neg hj, List.getElem?_eq_none (by simp; omega), List.getElem?_eq_none (by omega)]

section Lookup

variable [BEq κ] [LawfulBEq κ]

theorem lookup_filter_key (p : κ → Bool) (l : List (κ × β)) (k : κ) :
    (l.filter fun d => p d.1).lookup k = if p k then l.lookup k else none := by
  induction l with
  | nil => simp
  | cons d l ih =>
    obtain ⟨k', v⟩ := d
    rw [List.filter_cons]
    rcases Classical.em (k = k') with rfl | hk
    · cases hp : p k with
      | false => simp only [Bool.false_eq_true, if_false, ih, hp]
      | true => simp
    · have hne : (k == k') = false := by simpa using hk
      cases hp : p k' <;> simp [ih, List.lookup_cons, hne]

theorem lookup_map_snd (g : κ → β → β) (l : List (κ × β)) (k : κ) :
    (l.map fun d => (d.1, g d.1 d.2)).lookup k = (l.lookup k).map (g k) := by
  induction l with
  | nil => rfl
  | cons d l ih =>
    obtain ⟨k', v⟩ := d
    rcases Classical.em (k = k') with rfl | hk
    · simp
    · have hne : (k == k') = false := by simpa using hk
      simp [List.lookup_cons, hne, ih]

theorem lookup_isSome_iff {l : List (κ × β)} {k : κ} : (l.lookup k).isSome = true ↔ k ∈ l.map Prod.fst := by
  induction l with
  | nil => simp
  | cons d l ih =>
    obtain ⟨k', v⟩ := d
    rcases Classical.em (k = k') with rfl | hk
    · simp
    · have hne : (k == k') = false := by simpa using hk
      simp [List.lookup_cons, hne, ih, hk]

end Lookup

/-! ### Records with a key -/

variable [DecidableEq κ] (key : α → κ)

theorem find?_filter_key (p : κ → Bool) (l : List α) (k : κ) :
    (l.filter fun a => p (key a)).find? (fun a => key a = k) =
      if p k then l.find? (fun a => key a = k) else none := by
  induction l with
  | nil => simp
  | cons a l ih =>
    rw [List.filter_cons]
    by_cases hk : key a = k
    · subst hk
      cases hp : p (key a) with
      | false => simp only [Bool.false_eq_true, if_false, ih, hp]
      | true => simp
    · cases hp : p (key a) <;> simp [ih, hk]

variable {key}

theorem find?_key_eq_some_iff {l : List α} (hn : (l.map key).Nodup) {k : κ} {a : α} :
    l.find? (fun a => key a = k) = some a ↔ a ∈ l ∧ key a = k := by
  constructor
  · intro h
    exact ⟨List.mem_of_find?_eq_some h, by simpa using List.find?_some h⟩
  · rintro ⟨ha, rfl⟩
    cases hf : l.find? (fun b => key b = key a) with
    | none => exact absurd (List.find?_eq_none.mp hf a ha) (by simp)
    | some b =>
      have hb : key b = key a := by simpa using List.find?_some hf
      rw [List.inj_on_of_nodup_map hn (List.mem_of_find?_eq_some hf) ha hb]

/-- The record with a key, in any order of a list with distinct keys. -/
theorem find?_perm {l l' : List α} (h : l.Perm l') (hn : (l.map key).Nodup) (k : κ) :
    l.find? (fun a => key a = k) = l'.find? (fun a => key a = k) := by
  have hn' : (l'.map key).Nodup := (h.map key).nodup_iff.mp hn
  refine Option.ext fun a => ?_
  rw [find?_key_eq_some_iff hn, find?_key_eq_some_iff hn', h.mem_iff]

end Psysmon.Lib
