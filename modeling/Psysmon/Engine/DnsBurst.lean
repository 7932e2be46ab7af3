import Psysmon.Engine.DnsCache

/-!
# Psysmon.Engine.DnsBurst — how many lookups a burst costs (`engine/dnscache.py`)

While a call looks a key up, every other call for the key waits for the lock: each of them found nothing fresh when it
started.  These calls are a burst.  When the lookup returns, the lock passes from call to call in the order of the
queue, and each of them looks into the cache again.

* `Stepped.moved`, `Stepped.frame`: one call moves in a segment, and the locks of other keys stay as they are.
* `Ledger`: a call has looked up once if it is looking, and not at all if it waits.
* `Draining`: the lock is free and calls of the burst head its queue.
* `burst_iff`: the burst costs one lookup if nobody waited, or if the lookup found an address and no turn came so late
  that it had expired again.
-/

namespace Psysmon.Dns

open Lib

/-- A lookup that one of the calls `S` makes. -/
def Ev.lookupBy (S : List ℕ) : Ev → Bool
  | .miss c _ _ => c ∈ S
  | _ => false

/-- When the calls that waited for the lock of `k` had their turn. -/
def wakes (k : Key) (ls : List Label) : List ℚ :=
  ls.filterMap fun
    | .wake j t => if j = k then some t else none
    | _ => none

section Step

variable {C C' : Cache} {l : Label} {o : List Ev} {k : Key}

/-- The call `c` appears or moves on, to `p`: it was not over, and it looks up only with a lookup to show. -/
structure Moved (C C' : Cache) (k : Key) (o : List Ev) (c : ℕ) (p : Phase) : Prop where
  calls : ∀ j : ℕ, C'.calls[j]? = if j = c then some ⟨k, p⟩ else C.calls[j]?
  was : ∀ x : Call, C.calls[c]? = some x → x.key = k ∧ x.phase.over = false ∧ p ≠ .waiting
  looking : p = .looking → ∃ t, o = [.miss c k t]

theorem Stepped.moved (hC : WellFormed C) (hs : Stepped C l C' o) : ∃ c p, Moved C C' l.key o c p := by
  have hnew : ∀ {p : Phase} (x : Call), C.calls[C.calls.length]? = some x →
      x.key = l.key ∧ x.phase.over = false ∧ p ≠ .waiting := fun x hx => by simp at hx
  have hold : ∀ {c : ℕ} {p q : Phase}, C.calls[c]? = some ⟨l.key, p⟩ → p.over = false → q ≠ .waiting →
      ∀ x : Call, C.calls[c]? = some x → x.key = l.key ∧ x.phase.over = false ∧ q ≠ .waiting := by
    intro c p q hc hp hq x hx
    obtain rfl := Option.some.inj (hc.symm.trans hx)
    exact ⟨rfl, hp, hq⟩
  -- a call that takes the lock was waiting
  have henter : ∀ {C₀ : Cache} {c : ℕ} {t : ℚ} (p : Phase), Entering C l C₀ c t → p ≠ .waiting →
      (∀ j : ℕ, (C₀.setPhase c l.key p).calls[j]? = if j = c then some ⟨l.key, p⟩ else C.calls[j]?) ∧
        ∀ x : Call, C.calls[c]? = some x → x.key = l.key ∧ x.phase.over = false ∧ p ≠ .waiting := by
    intro C₀ c t p he hp
    have hE := he.entered hC
    refine ⟨fun j => ?_, fun x hx => by rw [hE.was x hx]; exact ⟨rfl, rfl, hp⟩⟩
    rw [getElem?_setPhase (lt_length_of_getElem? hE.self)]
    split
    · rfl
    · rename_i hj
      exact hE.other j hj
  cases hs with
  | @hitNow k t t' ip ht hf => exact ⟨_, .returned (some ip), getElem?_addCall, hnew, fun h => (nomatch h)⟩
  | @wait k t t' ht hf hl => exact ⟨_, .waiting, getElem?_addCall, hnew, fun h => (nomatch h)⟩
  | @hitLocked _ C₀ c t ip he ht hf =>
    obtain ⟨hcalls, hwas⟩ := henter (.returned (some ip)) he (by simp)
    exact ⟨c, _, hcalls, hwas, fun h => (nomatch h)⟩
  | @miss _ C₀ c t he ht hf =>
    obtain ⟨hcalls, hwas⟩ := henter .looking he (by simp)
    exact ⟨c, _, hcalls, hwas, fun _ => ⟨t, rfl⟩⟩
  | @answer c k out t hc ht =>
    exact ⟨c, .returned out, getElem?_setPhase (lt_length_of_getElem? hc), hold hc rfl (by simp), fun h => (nomatch h)⟩
  | @abortLookup c k hc =>
    exact ⟨c, .raised true, getElem?_setPhase (lt_length_of_getElem? hc), hold hc rfl (by simp), fun h => (nomatch h)⟩
  | @abortWait c k hc =>
    exact ⟨c, .raised false, getElem?_setPhase (lt_length_of_getElem? hc), hold hc rfl (by simp), fun h => (nomatch h)⟩

/-- A call that is over stays as it is. -/
theorem Stepped.over (hC : WellFormed C) (hs : Stepped C l C' o) {c : ℕ} {x : Call} (hc : C.calls[c]? = some x)
    (hx : x.phase.over = true) : C'.calls[c]? = some x := by
  obtain ⟨d, p, hm⟩ := hs.moved hC
  rw [hm.calls c, if_neg ?_, hc]
  rintro rfl
  exact absurd ((hm.was x hc).2.1.symm.trans hx) Bool.false_ne_true

/-- The locks and the entries of other keys stay as they are. -/
theorem Stepped.frame (hs : Stepped C l C' o) (hk : l.key ≠ k) :
    C'.holder k = C.holder k ∧ C'.queue k = C.queue k ∧ C'.entry k = C.entry k := by
  cases hs with
  | hitNow ht hf => exact ⟨rfl, rfl, rfl⟩
  | wait ht hf hl => exact ⟨rfl, Function.update_of_ne hk.symm _ _, rfl⟩
  | hitLocked he ht hf =>
    cases he with
    | new hh hq => exact ⟨rfl, rfl, rfl⟩
    | queued hh hq => exact ⟨rfl, Function.update_of_ne hk.symm _ _, rfl⟩
  | miss he ht hf =>
    cases he with
    | new hh hq => exact ⟨Function.update_of_ne hk.symm _ _, rfl, Function.update_of_ne hk.symm _ _⟩
    | queued hh hq =>
      exact ⟨Function.update_of_ne hk.symm _ _, Function.update_of_ne hk.symm _ _, Function.update_of_ne hk.symm _ _⟩
  | answer hc ht => exact ⟨Function.update_of_ne hk.symm _ _, rfl, Function.update_of_ne hk.symm _ _⟩
  | abortLookup hc => exact ⟨Function.update_of_ne hk.symm _ _, rfl, rfl⟩
  | abortWait hc => exact ⟨rfl, Function.update_of_ne hk.symm _ _, rfl⟩

/-- A lookup is made by a call that is new or was waiting, and is looking now. -/
theorem Stepped.miss_mem (hC : WellFormed C) (hs : Stepped C l C' o) {c : ℕ} {j : Key} {t : ℚ} (h : .miss c j t ∈ o) :
    o = [.miss c j t] ∧ j = l.key ∧ (∀ x, C.calls[c]? = some x → x = ⟨j, .waiting⟩) ∧
      C'.calls[c]? = some ⟨j, .looking⟩ := by
  cases hs with
  | @miss _ C₀ d t' he ht hf =>
    obtain ⟨rfl, rfl, rfl⟩ : c = d ∧ j = l.key ∧ t = t' := by simpa using h
    have hE := he.entered hC
    refine ⟨rfl, rfl, hE.was, ?_⟩
    exact (getElem?_setPhase (lt_length_of_getElem? hE.self) c).trans (if_pos rfl)
  | hitNow => simp at h
  | wait => simp at h
  | hitLocked => simp at h
  | answer => simp at h
  | abortLookup => simp at h
  | abortWait => simp at h

theorem Stepped.expireS_eq (hs : Stepped C l C' o) : C'.expireS = C.expireS := by
  cases hs with
  | hitLocked he ht hf => cases he <;> rfl
  | miss he ht hf => cases he <;> rfl
  | _ => rfl

end Step

/-! ### Lookups of a call so far -/

/-- A call that looks up has made one lookup, a call that waits none; and during a lookup the key has no entry. -/
structure Ledger (C : Cache) (tr : List Ev) : Prop where
  wf : WellFormed C
  entry : ∀ k c, C.holder k = some c → C.entry k = none
  none : ∀ c : ℕ, (∀ x : Call, C.calls[c]? = some x → x.phase = .waiting) → ∀ j t, .miss c j t ∉ tr
  one : ∀ (c : ℕ) (k : Key), C.calls[c]? = some ⟨k, .looking⟩ → tr.countP (Ev.lookupBy [c]) = 1

theorem countP_lookupBy_eq_zero {S : List ℕ} {tr : List Ev} :
    tr.countP (Ev.lookupBy S) = 0 ↔ ∀ c ∈ S, ∀ j t, .miss c j t ∉ tr := by
  rw [List.countP_eq_zero]
  constructor
  · intro h c hc j t hm
    exact h _ hm (by simpa [Ev.lookupBy] using hc)
  · intro h e he hl
    cases e with
    | miss c j t => exact h c (by simpa [Ev.lookupBy] using hl) j t he
    | hit c k ip t => exact absurd hl Bool.false_ne_true
    | answer c k out t => exact absurd hl Bool.false_ne_true

section Lookups

variable {C C' : Cache} {l : Label} {o tr : List Ev}

/-- The lock is taken only while its call looks the key up, and by then the old entry is gone. -/
theorem Stepped.entry_none (hC : WellFormed C) (hs : Stepped C l C' o) {k : Key}
    (h : ∀ c, C.holder k = some c → C.entry k = none) {c : ℕ} (hc : C'.holder k = some c) : C'.entry k = none := by
  by_cases hk : l.key = k
  · subst hk
    cases hs with
    | hitNow ht hf => exact h c hc
    | wait ht hf hl => exact h c hc
    | @hitLocked _ C₀ d t ip he ht hf =>
      have hE := he.entered hC
      have hfree : C₀.holder l.key = none := hE.holder ▸ hE.free
      exact (nomatch hfree.symm.trans hc)
    | miss he ht hf => exact Function.update_self _ _ _
    | answer hd ht => exact (nomatch (Function.update_self _ _ _).symm.trans hc)
    | abortLookup hd => exact (nomatch (Function.update_self _ _ _).symm.trans hc)
    | abortWait hd => exact h c hc
  · obtain ⟨hholder, -, hentry⟩ := hs.frame hk
    rw [hentry]
    exact h c (hholder ▸ hc)

theorem Ledger.stepped (h : Ledger C tr) (hs : Stepped C l C' o) : Ledger C' (tr ++ o) := by
  have hC := h.wf
  obtain ⟨d, p, hm⟩ := hs.moved hC
  refine ⟨hC.stepped hs, fun k c hk => hs.entry_none hC (h.entry k) hk, fun c hc j t he => ?_, fun c k hc => ?_⟩
  · rcases List.mem_append.mp he with he | he
    · -- a waiting call was waiting before, or is new
      refine h.none c (fun x hx => ?_) j t he
      by_cases hcd : c = d
      · subst hcd
        have hp : p = .waiting := hc ⟨l.key, p⟩ (by rw [hm.calls c, if_pos rfl])
        exact absurd hp (hm.was x hx).2.2
      · exact hc x (by rw [hm.calls c, if_neg hcd, hx])
    · obtain ⟨-, -, -, hlook⟩ := hs.miss_mem hC he
      exact (nomatch hc _ hlook)
  · by_cases hcd : c = d
    · subst hcd
      have hp : (⟨l.key, p⟩ : Call) = ⟨k, .looking⟩ := Option.some.inj (by rw [← hc, hm.calls c, if_pos rfl])
      obtain ⟨rfl, rfl⟩ := Call.mk.inj hp
      obtain ⟨t, ho⟩ := hm.looking rfl
      have hwas := (hs.miss_mem hC (ho ▸ List.mem_singleton_self _)).2.2.1
      have h0 : tr.countP (Ev.lookupBy [c]) = 0 := countP_lookupBy_eq_zero.mpr fun c' hc' => by
        rw [List.mem_singleton.mp hc']
        exact h.none c fun x hx => by rw [hwas x hx]
      rw [List.countP_append, h0, ho]
      simp [Ev.lookupBy]
    · have hc₀ : C.calls[c]? = some ⟨k, .looking⟩ := by rw [← hc, hm.calls c, if_neg hcd]
      have h0 : o.countP (Ev.lookupBy [c]) = 0 := countP_lookupBy_eq_zero.mpr fun c' hc' j t he => by
        rw [List.mem_singleton.mp hc'] at he
        exact (nomatch (hs.miss_mem hC he).2.2.1 _ hc₀)
      rw [List.countP_append, h0, h.one c k hc₀]

theorem ledger_exec {expireS start : ℚ} {ls : List Label}
    (h : exec Cache.step (.init expireS start) ls = some (C, tr)) : Ledger C tr :=
  exec_inv (P := fun _ _ => True) Ledger (fun _ _ _ _ _ hC _ hs => hC.stepped (stepped_of_step hs))
    ⟨wellFormed_init expireS start, fun _ _ h => (nomatch h), fun _ _ _ _ h => (nomatch h), fun c k hc => by
      simp [Cache.init] at hc⟩
    (along_of_forall _ _ fun _ _ _ => trivial) h

/-- A call that is over stays as it is to the end, and looks nothing up. -/
theorem over_exec {ls : List Label} {c : ℕ} {x : Call} (hC : WellFormed C) (hc : C.calls[c]? = some x)
    (hx : x.phase.over = true) (h : exec Cache.step C ls = some (C', tr)) :
    C'.calls[c]? = some x ∧ ∀ j t, .miss c j t ∉ tr := by
  refine (exec_inv (P := fun _ _ => True)
    (fun C tr => WellFormed C ∧ C.calls[c]? = some x ∧ ∀ j t, .miss c j t ∉ tr) (fun C tr l C' o hI _ hs => ?_)
    ⟨hC, hc, fun _ _ h => (nomatch h)⟩ (along_of_forall _ _ fun _ _ _ => trivial) h).2
  obtain ⟨hC, hc, hno⟩ := hI
  have hs := stepped_of_step hs
  refine ⟨hC.stepped hs, hs.over hC hc hx, fun j t he => ?_⟩
  rcases List.mem_append.mp he with he | he
  · exact hno j t he
  · rw [(hs.miss_mem hC he).2.2.1 x hc] at hx
    exact absurd hx Bool.false_ne_true

end Lookups

/-! ### The turns of a burst -/

theorem isSome_fresh_iff {C : Cache} {k : Key} {t : ℚ} :
    (C.fresh k t).isSome ↔ ∃ p ∈ C.entry k, t - p.2 < C.expireS := by
  unfold Cache.fresh
  cases C.entry k with
  | none => simp
  | some p =>
    obtain ⟨ip, t₁⟩ := p
    by_cases ht : t - t₁ < C.expireS <;> simp [ht]

/-- The lock is free, the calls `W` are first in its queue, and `e` is in the cache. -/
structure Draining (C : Cache) (k : Key) (W : List ℕ) (e : Option (Text × ℚ)) : Prop where
  wf : WellFormed C
  free : C.holder k = none
  queue : ∃ rest, C.queue k = W ++ rest
  entry : C.entry k = e

/-- What a segment does while the queue drains. -/
inductive Turned (C C' : Cache) (k : Key) (w : ℕ) (W : List ℕ) (e : Option (Text × ℚ)) : Label → List Ev → Prop
  /-- The first call has its turn and finds an address. -/
  | hit {t : ℚ} {o : List Ev} (hf : (C.fresh k t).isSome) (h : Draining C' k W e)
      (hw : ∃ r, C'.calls[w]? = some ⟨k, .returned r⟩) (ho : ∀ c j t, .miss c j t ∉ o) :
    Turned C C' k w W e (.wake k t) o
  /-- It finds none, and looks the key up. -/
  | miss {t : ℚ} (hf : ¬ (C.fresh k t).isSome) : Turned C C' k w W e (.wake k t) [.miss w k t]
  | other {l : Label} {o : List Ev} (hl : ∀ t, l ≠ .wake k t) (h : Draining C' k (w :: W) e)
      (ho : ∀ c ∈ w :: W, ∀ j t, .miss c j t ∉ o) : Turned C C' k w W e l o

section Turns

variable {C C' : Cache} {l : Label} {o : List Ev} {k : Key} {w : ℕ} {W : List ℕ} {e : Option (Text × ℚ)}

theorem Draining.stepped (h : Draining C k (w :: W) e) (hs : Stepped C l C' o)
    (hend : ∀ c ∈ w :: W, C'.calls[c]? ≠ some ⟨k, .raised false⟩) : Turned C C' k w W e l o := by
  obtain ⟨hC, hfree, ⟨rest, hq⟩, he⟩ := h
  have hC' := hC.stepped hs
  by_cases hk : l.key = k
  · subst hk
    cases hs with
    | hitNow ht hf => exact .other (fun t h => (nomatch h)) ⟨hC', hfree, ⟨rest, hq⟩, he⟩ (by simp)
    | wait ht hf hl =>
      refine .other (fun t h => (nomatch h)) ⟨hC', hfree, ⟨rest ++ [C.calls.length], ?_⟩, he⟩ (by simp)
      exact (Function.update_self _ _ _).trans ((congrArg (· ++ _) hq).trans (List.append_assoc ..))
    | @hitLocked _ C₀ c t ip hin ht hf =>
      have hE := hin.entered hC
      cases hin with
      | new hh hq' => exact (nomatch hq.symm.trans hq')
      | @queued k t c rest' hh hq' =>
        obtain ⟨rfl, rfl⟩ : w = c ∧ W ++ rest = rest' := List.cons.inj (hq.symm.trans hq')
        refine .hit (by rw [hf]; rfl) ⟨hC', hfree, ⟨rest, Function.update_self _ _ _⟩, he⟩ ?_ (by simp)
        exact ⟨some ip, (getElem?_setPhase (lt_length_of_getElem? hE.self) w).trans (if_pos rfl)⟩
    | @miss _ C₀ c t hin ht hf =>
      cases hin with
      | new hh hq' => exact (nomatch hq.symm.trans hq')
      | @queued k t c rest' hh hq' =>
        obtain ⟨rfl, -⟩ : w = c ∧ W ++ rest = rest' := List.cons.inj (hq.symm.trans hq')
        exact .miss (by rw [hf]; simp)
    | @answer c k out t hc ht => exact (nomatch hfree.symm.trans ((hC.holder k c).mpr hc))
    | @abortLookup c k hc => exact (nomatch hfree.symm.trans ((hC.holder k c).mpr hc))
    | @abortWait c k hc =>
      have hself : (C.setPhase c k (.raised false)).calls[c]? = some ⟨k, .raised false⟩ :=
        (getElem?_setPhase (lt_length_of_getElem? hc) c).trans (if_pos rfl)
      have hcW : c ∉ w :: W := fun hm => hend c hm hself
      refine .other (fun t h => (nomatch h)) ⟨hC', hfree, ⟨rest.erase c, ?_⟩, he⟩ (by simp)
      exact (Function.update_self _ _ _).trans ((congrArg (·.erase c) hq).trans (List.erase_append_right _ hcW))
  · obtain ⟨hholder, hqueue, hentry⟩ := hs.frame hk
    refine .other (fun t h => hk (by rw [h]; rfl)) ⟨hC', hholder.trans hfree, ⟨rest, hqueue.trans hq⟩, hentry.trans he⟩
      fun c hc j t hm => ?_
    -- a call of the burst waits at another lock
    obtain ⟨-, hj, hwas, -⟩ := hs.miss_mem hC hm
    have hwait := hwas _ ((hC.queue k c).mp (hq ▸ List.mem_append_left _ hc))
    exact hk (hj.symm.trans (congrArg Call.key hwait).symm)

/-- **The turns of a burst**: none of its calls looks up if and only if each finds the entry fresh when its turn
comes; and then each has had its turn. -/
theorem Draining.exec {ls : List Label} {tr : List Ev} (h : Draining C k W e)
    (hrun : exec Cache.step C ls = some (C', tr)) (hend : ∀ c ∈ W, ∃ r, C'.calls[c]? = some ⟨k, .returned r⟩) :
    ((∀ c ∈ W, ∀ j t, .miss c j t ∉ tr) ↔ ∀ t ∈ (wakes k ls).take W.length, ∃ p ∈ e, t - p.2 < C.expireS) ∧
      ((∀ c ∈ W, ∀ j t, .miss c j t ∉ tr) → W.length ≤ (wakes k ls).length) := by
  induction ls generalizing C W tr with
  | nil =>
    obtain ⟨rfl, rfl⟩ := Prod.mk.inj (Option.some.inj hrun)
    obtain ⟨rest, hq⟩ := h.queue
    -- a call still in the queue has not returned
    have hW : W = [] := List.eq_nil_iff_forall_not_mem.mpr fun c hc => by
      obtain ⟨r, hr⟩ := hend c hc
      exact (nomatch hr.symm.trans ((h.wf.queue k c).mp (hq ▸ List.mem_append_left _ hc)))
    simp [hW]
  | cons l ls ih =>
    obtain ⟨C₁, o₁, o₂, hstep, hrest, rfl⟩ := exec_cons.mp hrun
    have hs := stepped_of_step hstep
    cases W with
    | nil => simp
    | cons w W =>
      -- a call that is cancelled in the queue would not have returned
      have hlive : ∀ c ∈ w :: W, C₁.calls[c]? ≠ some ⟨k, .raised false⟩ := by
        intro c hc hr
        obtain ⟨r, hret⟩ := hend c hc
        exact (nomatch hret.symm.trans (over_exec (h.wf.stepped hs) hr rfl hrest).1)
      have hsplit : (∀ c ∈ w :: W, ∀ j t, .miss c j t ∉ o₁ ++ o₂) ↔
          (∀ c ∈ w :: W, ∀ j t, .miss c j t ∉ o₁) ∧ ∀ c ∈ w :: W, ∀ j t, .miss c j t ∉ o₂ := by
        simp only [List.mem_append, not_or, forall_and]
      rw [hsplit, ← hs.expireS_eq]
      cases h.stepped hs hlive with
      | @hit t _ hf hd hw ho =>
        obtain ⟨r, hw⟩ := hw
        have hover := (over_exec hd.wf hw rfl hrest).2
        have hfresh : ∃ p ∈ e, t - p.2 < C₁.expireS := by
          rw [← h.entry, hs.expireS_eq]
          exact isSome_fresh_iff.mp hf
        have hwakes : wakes k (.wake k t :: ls) = t :: wakes k ls := by simp [wakes]
        obtain ⟨hiff, hlen⟩ := ih hd hrest fun c hc => hend c (List.mem_cons_of_mem _ hc)
        rw [hwakes, List.length_cons, List.length_cons, List.take_succ_cons]
        refine ⟨⟨fun hno => ?_, fun hall => ?_⟩, fun hno => ?_⟩
        · exact List.forall_mem_cons.mpr ⟨hfresh, hiff.mp (List.forall_mem_cons.mp hno.2).2⟩
        · exact ⟨fun c _ => ho c, List.forall_mem_cons.mpr ⟨hover, hiff.mpr (List.forall_mem_cons.mp hall).2⟩⟩
        · exact Nat.succ_le_succ (hlen (List.forall_mem_cons.mp hno.2).2)
      | @miss t hf =>
        have hwakes : wakes k (.wake k t :: ls) = t :: wakes k ls := by simp [wakes]
        have hlook : ¬ ∀ c ∈ w :: W, ∀ j t', Ev.miss c j t' ∉ [Ev.miss w k t] := fun hno =>
          hno w List.mem_cons_self k t (List.mem_singleton_self _)
        refine ⟨iff_of_false (fun hno => hlook hno.1) fun hall => hf ?_, fun hno => absurd hno.1 hlook⟩
        rw [hwakes, List.length_cons, List.take_succ_cons] at hall
        rw [isSome_fresh_iff, h.entry, ← hs.expireS_eq]
        exact hall t List.mem_cons_self
      | other hl hd ho =>
        have hwakes : wakes k (l :: ls) = wakes k ls := by
          cases l with
          | wake j t =>
            have hj : j ≠ k := fun hj => hl t (by rw [hj])
            simp [wakes, hj]
          | _ => simp [wakes]
        obtain ⟨hiff, hlen⟩ := ih hd hrest hend
        rw [hwakes, ← hiff]
        exact ⟨⟨fun hno => hno.2, fun hno => ⟨ho, hno⟩⟩, fun hno => hlen hno.2⟩

end Turns

/-- A call that looks up, and those that wait for it, have made one lookup so far. -/
theorem Ledger.countP_burst {C : Cache} {tr : List Ev} {k : Key} {c₀ : ℕ} (h : Ledger C tr) (hc₀ : C.holder k = some c₀) :
    tr.countP (Ev.lookupBy (c₀ :: C.queue k)) = 1 := by
  rw [← h.one c₀ k ((h.wf.holder k c₀).mp hc₀)]
  refine List.countP_congr fun e he => ?_
  cases e with
  | miss c j t =>
    have hc : c ∉ C.queue k := fun hc => h.none c (fun x hx => by
      obtain rfl := Option.some.inj (hx.symm.trans ((h.wf.queue k c).mp hc))
      rfl) j t he
    simp [Ev.lookupBy, hc]
  | hit c j ip t => rfl
  | answer c j out t => rfl

/-- The lookup returns: its call is over, and the queue can drain. -/
theorem Ledger.draining {C C' : Cache} {tr o : List Ev} {c : ℕ} {k : Key} {out : Option Text} {t : ℚ} (h : Ledger C tr)
    (hs : Stepped C (.answer c k out t) C' o) :
    o = [.answer c k out t] ∧ C'.calls[c]? = some ⟨k, .returned out⟩ ∧
      Draining C' k (C.queue k) (out.map (·, t)) := by
  have hC' := h.wf.stepped hs
  cases hs with
  | answer hc ht =>
    refine ⟨rfl, (getElem?_setPhase (lt_length_of_getElem? hc) c).trans (if_pos rfl), hC', Function.update_self _ _ _,
      ⟨[], (List.append_nil _).symm⟩, (Function.update_self _ _ _).trans ?_⟩
    cases out with
    | none => exact h.entry k c ((h.wf.holder k c).mpr hc)
    | some ip => rfl
  | hitLocked he => cases he
  | miss he => cases he

/-- **A burst costs one lookup** if and only if nobody waited, or the lookup found an address and every call that waited
had its turn before the address expired. -/
theorem burst_iff (expireS start : ℚ) (ls rest : List Label) (C C' : Cache) (tr tr' : List Ev) (k : Key) (c₀ : ℕ)
    (out : Option Text) (t₁ : ℚ) (h : exec Cache.step (.init expireS start) ls = some (C, tr))
    (hc₀ : C.holder k = some c₀) (h' : exec Cache.step C (.answer c₀ k out t₁ :: rest) = some (C', tr'))
    (hend : ∀ c ∈ C.queue k, ∃ r, C'.calls[c]? = some ⟨k, .returned r⟩) :
    (tr ++ tr').countP (Ev.lookupBy (c₀ :: C.queue k)) = 1 ↔
      C.queue k = [] ∨ out.isSome ∧ ∀ t ∈ (wakes k rest).take (C.queue k).length, t - t₁ < expireS := by
  have hL := ledger_exec h
  obtain ⟨C₁, o₁, o₂, hstep, hrest, rfl⟩ := exec_cons.mp h'
  have hs := stepped_of_step hstep
  have hexp : C₁.expireS = expireS := hs.expireS_eq.trans (invariants_exec h).2.expire
  obtain ⟨rfl, hret, hd⟩ := hL.draining hs
  have hover := (over_exec hd.wf hret rfl hrest).2
  obtain ⟨hiff, hlen⟩ := hd.exec hrest hend
  have hcount : (tr ++ ([Ev.answer c₀ k out t₁] ++ o₂)).countP (Ev.lookupBy (c₀ :: C.queue k)) = 1 ↔
      ∀ c ∈ C.queue k, ∀ j t, .miss c j t ∉ o₂ := by
    rw [List.countP_append, hL.countP_burst hc₀, List.singleton_append, List.countP_cons_of_neg (by simp [Ev.lookupBy]),
      Nat.add_eq_left, countP_lookupBy_eq_zero, List.forall_mem_cons]
    exact and_iff_right hover
  rw [hcount]
  rw [hexp] at hiff
  cases out with
  | some ip =>
    rw [hiff]
    constructor
    · exact fun hall => .inr ⟨rfl, fun t ht => by simpa using hall t ht⟩
    · rintro (hq | ⟨-, hall⟩)
      · simp [hq]
      · exact fun t ht => ⟨(ip, t₁), rfl, hall t ht⟩
  | none =>
    constructor
    · -- without an address nobody finds one, so nobody has had a turn
      intro hno
      have hnil : (wakes k rest).take (C.queue k).length = [] := List.eq_nil_iff_forall_not_mem.mpr fun t ht => by
        simpa using hiff.mp hno t ht
      refine .inl (List.length_eq_zero_iff.mp ?_)
      have := congrArg List.length hnil
      rwa [List.length_take, min_eq_left (hlen hno)] at this
    · rintro (hq | ⟨hsome, -⟩)
      · simp [hq]
      · exact absurd hsome Bool.false_ne_true

/-- Two calls at once. -/
def twoCalls : List Label := [.start routerKey 0 0, .start routerKey 0 0]

/-- The lookup of the first finds an address, and the second has its turn a second later. -/
theorem burst_coalesced :
    ∃ C tr, exec Cache.step (.init 900 0) twoCalls = some (C, tr) ∧ ∃ C' tr',
      exec Cache.step C [.answer 0 routerKey (some "10.0.0.1".toList) 1, .wake routerKey 2] = some (C', tr') ∧
        (tr ++ tr').countP (Ev.lookupBy (0 :: C.queue routerKey)) = 1 := by
  obtain ⟨⟨C', _⟩, h⟩ := Option.isSome_iff_exists.mp (show (exec Cache.step (.init 900 0)
    (twoCalls ++ [.answer 0 routerKey (some "10.0.0.1".toList) 1, .wake routerKey 2])).isSome by decide +kernel)
  have hret : (exec Cache.step (.init 900 0)
      (twoCalls ++ [.answer 0 routerKey (some "10.0.0.1".toList) 1, .wake routerKey 2])).map (·.1.calls) =
      some (List.replicate 2 ⟨routerKey, .returned (some "10.0.0.1".toList)⟩) := by decide +kernel
  have hlock : (exec Cache.step (.init 900 0) twoCalls).map (fun r => (r.1.holder routerKey, r.1.queue routerKey)) =
      some (some 0, [1]) := by decide +kernel
  rw [h] at hret
  obtain ⟨C, tr, tr', h₁, h₂, -⟩ := exec_append.mp h
  rw [h₁] at hlock
  obtain ⟨hholder, hqueue⟩ : C.holder routerKey = some 0 ∧ C.queue routerKey = [1] :=
    Prod.mk.inj (Option.some.inj hlock)
  refine ⟨C, tr, h₁, C', tr', h₂, ?_⟩
  refine (burst_iff 900 0 twoCalls _ C C' tr tr' routerKey 0 _ 1 h₁ hholder h₂ fun c hc => ?_).mpr ?_
  · have hc : c = 1 := by simpa [hqueue] using hc
    exact ⟨_, by rw [hc, show C'.calls = _ from Option.some.inj hret]; rfl⟩
  · refine .inr ⟨rfl, fun t ht => ?_⟩
    have ht : t = 2 := by simpa [hqueue, wakes] using ht
    norm_num [ht]

/-- Two calls at once for a name that does not resolve: two lookups. -/
theorem burst_fails_twice :
    (exec Cache.step (.init 900 0)
      (twoCalls ++ [.answer 0 routerKey none 1, .wake routerKey 1, .answer 1 routerKey none 2])).map
      (fun r => (r.1.calls, r.2.countP (Ev.lookupBy [0, 1]))) =
    some (List.replicate 2 ⟨routerKey, .returned none⟩, 2) := by decide +kernel

end Psysmon.Dns
