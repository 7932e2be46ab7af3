import Mathlib

/-!
# Psysmon.Lib.Search — depth-first search with an explicit stack and a `seen` set

`search next hit fuel stack seen` pops vertices until one that satisfies `hit` comes up (`true`) or the stack
is empty (`false`); a vertex already in `seen` is skipped, any other one pushes its successors.

* `search_sound`: an answer `true` comes with a path from the stack to a hit.
* `searched_search`: with `searchFuel` iterations the loop ends by itself, whatever the graph (`Searched` is the loop
  without a bound).
* `search_complete`: on a finite universe that `next` never leaves, `searchFuel` iterations decide whether such
  a path exists; no acyclicity is needed.
-/

namespace Psysmon.Lib

variable {α : Type*} [DecidableEq α] (next : α → List α) (hit : α → Bool)

/-- The search loop; the top of the stack is the head of the list. -/
def search : ℕ → List α → List α → Bool
  | 0, _, _ => false
  | _ + 1, [], _ => false
  | n + 1, p :: stack, seen =>
    if p ∈ seen then search n stack seen
    else if hit p then true
    else search n ((next p).reverse ++ stack) (p :: seen)

/-- `q` is reached from `p` along `next`. -/
def Reaches (p q : α) : Prop := Relation.ReflTransGen (fun a b => b ∈ next a) p q

/-- Iterations still needed: one for every stack entry and one for every edge out of an unseen vertex. -/
def searchFuel (U : Finset α) (stack seen : List α) : ℕ :=
  stack.length + ∑ u ∈ U \ seen.toFinset, (next u).length + 1

variable {next hit}

theorem search_sound : ∀ {n : ℕ} {stack seen : List α}, search next hit n stack seen = true →
    ∃ p ∈ stack, ∃ q, Reaches next p q ∧ hit q = true
  | 0, _, _, h => by simp [search] at h
  | _ + 1, [], _, h => by simp [search] at h
  | n + 1, p :: stack, seen, h => by
    unfold search at h
    split_ifs at h with hseen hhit
    · obtain ⟨p', hp', q, hq⟩ := search_sound h
      exact ⟨p', by simp [hp'], q, hq⟩
    · exact ⟨p, by simp, p, Relation.ReflTransGen.refl, hhit⟩
    · obtain ⟨p', hp', q, hpq, hq⟩ := search_sound h
      rcases List.mem_append.mp hp' with hp' | hp'
      · rw [List.mem_reverse] at hp'
        exact ⟨p, by simp, q, Relation.ReflTransGen.head hp' hpq, hq⟩
      · exact ⟨p', by simp [hp'], q, hpq, hq⟩

theorem searchFuel_visit {U : Finset α} {p : α} {stack seen : List α} (hp : p ∈ U) (hs : p ∉ seen) :
    searchFuel next U (p :: stack) seen = searchFuel next U ((next p).reverse ++ stack) (p :: seen) + 1 := by
  have hmem : p ∈ U \ seen.toFinset := by simp [hp, hs]
  have hset : U \ (p :: seen).toFinset = (U \ seen.toFinset).erase p := by
    ext x
    simp only [List.toFinset_cons, Finset.mem_sdiff, Finset.mem_insert, List.mem_toFinset, Finset.mem_erase]
    tauto
  have hsum := Finset.add_sum_erase (U \ seen.toFinset) (fun u => (next u).length) hmem
  unfold searchFuel
  rw [hset, ← hsum]
  simp only [List.length_cons, List.length_append, List.length_reverse]
  omega

/-- With enough fuel an answer `false` means that nothing on the stack, and nothing already seen, reaches a
hit.  The loop invariant: a seen vertex is no hit and its successors are seen or still on the stack. -/
theorem no_hit_of_search_false {U : Finset α} (hU : ∀ u ∈ U, ∀ v ∈ next u, v ∈ U) :
    ∀ (n : ℕ) (stack seen : List α), (∀ p ∈ stack, p ∈ U) → searchFuel next U stack seen ≤ n →
      (∀ x ∈ seen, hit x = false ∧ ∀ y ∈ next x, y ∈ seen ∨ y ∈ stack) →
      search next hit n stack seen = false →
      ∀ p, p ∈ stack ∨ p ∈ seen → ∀ q, Reaches next p q → hit q = false
  | 0, stack, seen, _, hn, _, _ => by simp [searchFuel] at hn
  | n + 1, [], seen, _, _, hinv, _ => by
    intro p hp q hpq
    have hp : p ∈ seen := by simpa using hp
    have hclosed : q ∈ seen := by
      induction hpq with
      | refl => exact hp
      | tail _ hbc ih => simpa using (hinv _ ih).2 _ hbc
    exact (hinv q hclosed).1
  | n + 1, p :: stack, seen, hst, hn, hinv, h => by
    unfold search at h
    by_cases hs : p ∈ seen
    · rw [if_pos hs] at h
      have key := no_hit_of_search_false hU n stack seen (fun x hx => hst x (by simp [hx]))
        (by simp only [searchFuel, List.length_cons] at hn ⊢; omega)
        (fun x hx => ⟨(hinv x hx).1, fun y hy => by
          rcases (hinv x hx).2 y hy with h1 | h1
          · exact Or.inl h1
          · rcases List.mem_cons.mp h1 with rfl | h1
            · exact Or.inl hs
            · exact Or.inr h1⟩) h
      intro x hx
      rcases hx with hx | hx
      · rcases List.mem_cons.mp hx with rfl | hx
        · exact key x (Or.inr hs)
        · exact key x (Or.inl hx)
      · exact key x (Or.inr hx)
    · rw [if_neg hs] at h
      have hhit : hit p = false := by
        by_contra hne
        rw [if_pos (by simpa using hne)] at h
        exact absurd h (by simp)
      rw [if_neg (by simp [hhit])] at h
      have hpU : p ∈ U := hst p (by simp)
      rw [searchFuel_visit hpU hs] at hn
      have key := no_hit_of_search_false hU n ((next p).reverse ++ stack) (p :: seen)
        (fun x hx => by
          rcases List.mem_append.mp hx with hx | hx
          · exact hU p hpU x (List.mem_reverse.mp hx)
          · exact hst x (by simp [hx]))
        (by omega)
        (fun x hx => by
          rcases List.mem_cons.mp hx with rfl | hx
          · exact ⟨hhit, fun y hy => Or.inr (by simp [hy])⟩
          · refine ⟨(hinv x hx).1, fun y hy => ?_⟩
            rcases (hinv x hx).2 y hy with h1 | h1
            · exact Or.inl (by simp [h1])
            · rcases List.mem_cons.mp h1 with rfl | h1
              · exact Or.inl (by simp)
              · exact Or.inr (by simp [h1])) h
      intro x hx
      apply key x
      rcases hx with hx | hx
      · rcases List.mem_cons.mp hx with rfl | hx
        · exact Or.inr (by simp)
        · exact Or.inl (by simp [hx])
      · exact Or.inr (by simp [hx])

/-- The loop without a bound: from this stack and `seen` set it ends with the answer. -/
inductive Searched (next : α → List α) (hit : α → Bool) : List α → List α → Bool → Prop
  | empty (seen : List α) : Searched next hit [] seen false
  | skip {p : α} {stack seen : List α} {b : Bool} (hp : p ∈ seen) (h : Searched next hit stack seen b) :
    Searched next hit (p :: stack) seen b
  | hit {p : α} (stack : List α) {seen : List α} (hp : p ∉ seen) (hh : hit p = true) :
    Searched next hit (p :: stack) seen true
  | visit {p : α} {stack seen : List α} {b : Bool} (hp : p ∉ seen) (hh : hit p = false)
    (h : Searched next hit ((next p).reverse ++ stack) (p :: seen) b) : Searched next hit (p :: stack) seen b

/-- `searchFuel` iterations are enough for the loop to end. -/
theorem searched_search {U : Finset α} (hU : ∀ u ∈ U, ∀ v ∈ next u, v ∈ U) : ∀ (n : ℕ) (stack seen : List α),
    (∀ p ∈ stack, p ∈ U) → searchFuel next U stack seen ≤ n →
    Searched next hit stack seen (search next hit n stack seen)
  | 0, _, _, _, hn => by simp [searchFuel] at hn
  | n + 1, [], seen, _, _ => .empty seen
  | n + 1, p :: stack, seen, hst, hn => by
    have hstack : ∀ q ∈ stack, q ∈ U := fun q hq => hst q (by simp [hq])
    rw [search]
    split
    · rename_i hp
      refine .skip hp (searched_search hU n stack seen hstack ?_)
      simp only [searchFuel, List.length_cons] at hn ⊢
      omega
    rename_i hp
    split
    · rename_i hh
      exact .hit stack hp hh
    · rename_i hh
      have hpU : p ∈ U := hst p (by simp)
      refine .visit hp (by simpa using hh) (searched_search hU n _ _ ?_ ?_)
      · intro q hq
        rcases List.mem_append.mp hq with hq | hq
        · exact hU p hpU q (List.mem_reverse.mp hq)
        · exact hstack q hq
      · rw [searchFuel_visit hpU hp] at hn
        exact Nat.le_of_succ_le_succ hn

/-- **The search decides reachability of a hit.** -/
theorem search_complete {U : Finset α} (hU : ∀ u ∈ U, ∀ v ∈ next u, v ∈ U) {n : ℕ} {stack : List α}
    (hst : ∀ p ∈ stack, p ∈ U) (hn : searchFuel next U stack [] ≤ n) :
    search next hit n stack [] = true ↔ ∃ p ∈ stack, ∃ q, Reaches next p q ∧ hit q = true := by
  refine ⟨search_sound, ?_⟩
  rintro ⟨p, hp, q, hpq, hq⟩
  by_contra hne
  have hf : search next hit n stack [] = false := by simpa using hne
  have := no_hit_of_search_false hU n stack [] hst hn (by simp) hf p (Or.inl hp) q hpq
  rw [hq] at this
  exact absurd this (by simp)

end Psysmon.Lib
