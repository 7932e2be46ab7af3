import Mathlib

/-!
# Psysmon.Lib.Acyclic — graphs that grow by one edge at a time

A directed graph as a relation.  `addEdge r p c` has the edge `p → c` as well.

* `Acyclic.addEdge`: an edge whose start is not reachable from its end closes no cycle.
* `Acyclic.exists_source`: on a finite universe every vertex lies below a vertex without incoming edges.
-/

namespace Psysmon.Lib

open Relation

variable {α : Type*} {r : α → α → Prop} {p c : α}

/-- No path leads back to its start. -/
def Acyclic (r : α → α → Prop) : Prop := ∀ a, ¬ TransGen r a a

/-- The graph with one more edge. -/
def addEdge (r : α → α → Prop) (p c : α) : α → α → Prop := fun a b => r a b ∨ (a = p ∧ b = c)

/-- A path through the new edge takes it from an old path to its start and leaves it on an old path from its end. -/
theorem transGen_addEdge {a b : α} (h : TransGen (addEdge r p c) a b) :
    TransGen r a b ∨ (ReflTransGen r a p ∧ ReflTransGen r c b) := by
  induction h with
  | single hab =>
    rcases hab with hab | ⟨rfl, rfl⟩
    · exact .inl (.single hab)
    · exact .inr ⟨.refl, .refl⟩
  | tail _ hbd ih =>
    rcases hbd with hbd | ⟨rfl, rfl⟩
    · rcases ih with hab | ⟨hap, hcb⟩
      · exact .inl (hab.tail hbd)
      · exact .inr ⟨hap, hcb.tail hbd⟩
    · rcases ih with hab | ⟨hap, -⟩
      · exact .inr ⟨hab.to_reflTransGen, .refl⟩
      · exact .inr ⟨hap, .refl⟩

theorem Acyclic.addEdge (h : Acyclic r) (hpc : ¬ ReflTransGen r c p) : Acyclic (addEdge r p c) := by
  intro a ha
  rcases transGen_addEdge ha with ha | ⟨hap, hca⟩
  · exact h a ha
  · exact hpc (hca.trans hap)

/-- The induction is on the number of ancestors. -/
theorem Acyclic.exists_source (h : Acyclic r) {U : Finset α} (hU : ∀ a b, r a b → a ∈ U) (b : α) :
    ∃ s, ReflTransGen r s b ∧ ∀ a, ¬ r a s := by
  classical
  induction hn : (U.filter fun a => TransGen r a b).card using Nat.strong_induction_on generalizing b with
  | _ n ih =>
    by_cases hb : ∃ a, r a b
    · obtain ⟨a, hab⟩ := hb
      have hlt : (U.filter fun x => TransGen r x a).card < n := by
        rw [← hn]
        refine Finset.card_lt_card ⟨fun x hx => ?_, fun hsub => ?_⟩
        · obtain ⟨hxU, hxa⟩ := Finset.mem_filter.mp hx
          exact Finset.mem_filter.mpr ⟨hxU, hxa.tail hab⟩
        · have ha := hsub (Finset.mem_filter.mpr ⟨hU a b hab, .single hab⟩)
          exact h a (Finset.mem_filter.mp ha).2
      obtain ⟨s, hsa, hs⟩ := ih _ hlt a rfl
      exact ⟨s, hsa.tail hab, hs⟩
    · exact ⟨b, .refl, fun a hab => hb ⟨a, hab⟩⟩

end Psysmon.Lib
