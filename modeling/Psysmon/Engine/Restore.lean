import Psysmon.Lib.Fold
import Psysmon.Engine.Merge
import Psysmon.Engine.History

/-!
# Psysmon.Engine.Restore — what arbitrary records restore (`Scheduler.import_state`)

The records of a state file may hold any JSON value in any field.  A record is looked up by its key, validated field
by field and written as a whole; the loop stops with an exception at a record that `Stops` it.

* `WellTyped`, `Overflows`: the two outcomes of `_validated_carry` that are not a skip, by the fields of the record.
* `importState_of_pass`: a list without a stopping record leaves in every node its last well-typed record.
* `import_isolated_iff`: records are restored independently exactly if none of them stops the loop.
* `restored_pages_iff`: paging starts in time from a restored state exactly if its fields fit together.
-/

namespace Psysmon

open Lib

/-! ### One record -/

/-- A number that `float()` can hold, and the float. -/
def FloatOf (j : Option Json) (v : Number.PyFloat) : Prop :=
  (∃ n x, j = some (.int n) ∧ Binary64.round n = some x ∧ v = .finite x) ∨ j = some (.float v)

/-- An integer beyond the range of a float. -/
def TooLarge (j : Option Json) : Prop := ∃ n : ℤ, j = some (.int n) ∧ 2 ^ 1024 - 2 ^ 970 ≤ |(n : ℚ)|

/-- The seven carried fields of the record are there and well typed, and `c` is what they say. -/
structure WellTyped (r : Record) (c : Carried) : Prop where
  lastcheck : r.lookup "lastcheck".toList = some (.int c.lastcheck)
  downct : r.lookup "downct".toList = some (.int c.downct)
  contacted : r.lookup "contacted".toList = some (.bool c.contacted)
  deathtime : FloatOf (r.lookup "deathtime".toList) c.deathtime
  lastUp : FloatOf (r.lookup "last_up".toList) c.lastUp
  acked : r.lookup "acked".toList = some (.bool c.acked)
  note : (r.lookup "note".toList = some .null ∧ c.note = none) ∨
    ∃ t, r.lookup "note".toList = some (.str t) ∧ c.note = some (t.take Sched.maxNoteLen)

/-- A timestamp overflows, and no field that is read before it is malformed. -/
structure Overflows (r : Record) : Prop where
  lastcheck : ∃ n, r.lookup "lastcheck".toList = some (.int n)
  downct : ∃ n, r.lookup "downct".toList = some (.int n)
  contacted : ∃ b, r.lookup "contacted".toList = some (.bool b)
  time : TooLarge (r.lookup "deathtime".toList) ∨
    ((∃ v, FloatOf (r.lookup "deathtime".toList) v) ∧ TooLarge (r.lookup "last_up".toList))

section Fields

variable {j : Option Json} {e : CarryError}

theorem asInt_ok_iff {n : ℤ} : asInt j = .ok n ↔ j = some (.int n) := by
  unfold asInt
  split
  · simp
  · rename_i h
    exact ⟨fun hn => (nomatch hn), fun hj => absurd hj (h n)⟩

theorem asBool_ok_iff {b : Bool} : asBool j = .ok b ↔ j = some (.bool b) := by
  unfold asBool
  split
  · simp
  · rename_i h
    exact ⟨fun hn => (nomatch hn), fun hj => absurd hj (h b)⟩

theorem asFloat_ok_iff {v : Number.PyFloat} : asFloat j = .ok v ↔ FloatOf j v := by
  unfold asFloat FloatOf
  split
  · rename_i n
    cases hx : Binary64.round (n : ℚ) with
    | none => simp [hx]
    | some x => simp [hx, eq_comm]
  · simp [eq_comm]
  · rename_i h1 h2
    constructor
    · exact fun hn => (nomatch hn)
    · rintro (⟨n, x, hj, -⟩ | hj)
      · exact absurd hj (h1 n)
      · exact absurd hj (h2 v)

theorem asNote_ok_iff {t : Option Text} : asNote j = .ok t ↔
    (j = some .null ∧ t = none) ∨ ∃ u, j = some (.str u) ∧ t = some (u.take Sched.maxNoteLen) := by
  unfold asNote
  split
  · simp [eq_comm]
  · simp [eq_comm]
  · rename_i h1 h2
    constructor
    · exact fun hn => (nomatch hn)
    · rintro (⟨hj, -⟩ | ⟨u, hj, -⟩)
      · exact absurd hj h1
      · exact absurd hj (h2 u)

theorem asInt_error (h : asInt j = .error e) : e = .malformed := by
  unfold asInt at h
  split at h
  · exact (nomatch h)
  · exact (Except.error.inj h).symm

theorem asBool_error (h : asBool j = .error e) : e = .malformed := by
  unfold asBool at h
  split at h
  · exact (nomatch h)
  · exact (Except.error.inj h).symm

theorem asNote_error (h : asNote j = .error e) : e = .malformed := by
  unfold asNote at h
  split at h
  · exact (nomatch h)
  · exact (nomatch h)
  · exact (Except.error.inj h).symm

theorem asFloat_overflow_iff : asFloat j = .error .overflow ↔ TooLarge j := by
  unfold asFloat TooLarge
  split
  · rename_i n
    rw [show (∃ m : ℤ, some (Json.int n) = some (.int m) ∧ (2 : ℚ) ^ 1024 - 2 ^ 970 ≤ |(m : ℚ)|) ↔
      (2 : ℚ) ^ 1024 - 2 ^ 970 ≤ |(n : ℚ)| by simp, ← Binary64.round_eq_none_iff]
    cases Binary64.round (n : ℚ) <;> simp
  · simp
  · rename_i h1 h2
    constructor
    · exact fun hn => by simp at hn
    · rintro ⟨n, hj, -⟩
      exact absurd hj (h1 n)

end Fields

theorem validatedCarry_ok_iff {r : Record} {c : Carried} : validatedCarry r = .ok c ↔ WellTyped r c := by
  constructor
  · intro h
    obtain ⟨lastcheck, h1, h⟩ := bind_ok_iff.mp h
    obtain ⟨downct, h2, h⟩ := bind_ok_iff.mp h
    obtain ⟨contacted, h3, h⟩ := bind_ok_iff.mp h
    obtain ⟨deathtime, h4, h⟩ := bind_ok_iff.mp h
    obtain ⟨lastUp, h5, h⟩ := bind_ok_iff.mp h
    obtain ⟨acked, h6, h⟩ := bind_ok_iff.mp h
    obtain ⟨note, h7, h⟩ := bind_ok_iff.mp h
    obtain rfl := Except.ok.inj h
    exact ⟨asInt_ok_iff.mp h1, asInt_ok_iff.mp h2, asBool_ok_iff.mp h3, asFloat_ok_iff.mp h4, asFloat_ok_iff.mp h5,
      asBool_ok_iff.mp h6, asNote_ok_iff.mp h7⟩
  · rintro ⟨h1, h2, h3, h4, h5, h6, h7⟩
    unfold validatedCarry
    rw [asInt_ok_iff.mpr h1, asInt_ok_iff.mpr h2, asBool_ok_iff.mpr h3, asFloat_ok_iff.mpr h4, asFloat_ok_iff.mpr h5,
      asBool_ok_iff.mpr h6, asNote_ok_iff.mpr h7]
    rfl

theorem validatedCarry_overflow_iff {r : Record} : validatedCarry r = .error .overflow ↔ Overflows r := by
  constructor
  · intro h
    rcases bind_error_iff.mp h with h | ⟨lastcheck, h1, h⟩
    · exact (nomatch asInt_error h)
    rcases bind_error_iff.mp h with h | ⟨downct, h2, h⟩
    · exact (nomatch asInt_error h)
    rcases bind_error_iff.mp h with h | ⟨contacted, h3, h⟩
    · exact (nomatch asBool_error h)
    refine ⟨⟨_, asInt_ok_iff.mp h1⟩, ⟨_, asInt_ok_iff.mp h2⟩, ⟨_, asBool_ok_iff.mp h3⟩, ?_⟩
    rcases bind_error_iff.mp h with h | ⟨deathtime, h4, h⟩
    · exact .inl (asFloat_overflow_iff.mp h)
    rcases bind_error_iff.mp h with h | ⟨lastUp, -, h⟩
    · exact .inr ⟨⟨_, asFloat_ok_iff.mp h4⟩, asFloat_overflow_iff.mp h⟩
    rcases bind_error_iff.mp h with h | ⟨acked, -, h⟩
    · exact (nomatch asBool_error h)
    rcases bind_error_iff.mp h with h | ⟨note, -, h⟩
    · exact (nomatch asNote_error h)
    · exact (nomatch h)
  · rintro ⟨⟨a, h1⟩, ⟨b, h2⟩, ⟨d, h3⟩, h4 | ⟨⟨v, h4⟩, h5⟩⟩
    · unfold validatedCarry
      rw [asInt_ok_iff.mpr h1, asInt_ok_iff.mpr h2, asBool_ok_iff.mpr h3, asFloat_overflow_iff.mpr h4]
      rfl
    · unfold validatedCarry
      rw [asInt_ok_iff.mpr h1, asInt_ok_iff.mpr h2, asBool_ok_iff.mpr h3, asFloat_ok_iff.mpr h4,
        asFloat_overflow_iff.mpr h5]
      rfl

/-! ### The key of a record -/

namespace Record

/-- Every part of the key can be hashed. -/
def Hashable (r : Record) : Prop :=
  (r.get "hostname".toList).hashable = true ∧ (r.get "type".toList).hashable = true ∧
    (r.get "port".toList).hashable = true

/-- The record has the key of the node, as Python compares the parts. -/
def HasKey (r : Record) (n : Node) : Prop :=
  (r.get "hostname".toList).eqStr n.hostname = true ∧ (r.get "type".toList).eqStr n.checkType.value = true ∧
    (r.get "port".toList).eqInt n.port = true

theorem HasKey.key_eq {r : Record} {m n : Node} (hm : r.HasKey m) (hn : r.HasKey n) : m.key = n.key := by
  have hstr : ∀ {j : Json} {t u : Text}, j.eqStr t = true → j.eqStr u = true → t = u := by
    intro j t u ht hu
    cases j with
    | str x => exact (of_decide_eq_true ht).symm.trans (of_decide_eq_true hu)
    | _ => exact absurd ht Bool.false_ne_true
  have hint : ∀ {j : Json} {a b : ℤ}, j.eqInt a = true → j.eqInt b = true → a = b := by
    intro j a b ha hb
    cases j with
    | int x => exact (of_decide_eq_true ha).symm.trans (of_decide_eq_true hb)
    | bool x => exact (of_decide_eq_true ha).symm.trans (of_decide_eq_true hb)
    | float v =>
      cases v with
      | finite x => exact_mod_cast (of_decide_eq_true ha).symm.trans (of_decide_eq_true hb)
      | _ => exact absurd ha Bool.false_ne_true
    | _ => exact absurd ha Bool.false_ne_true
  simp only [Node.key, NodeKey.mk.injEq]
  exact ⟨hstr hm.1 hn.1, Sched.value_injective (hstr hm.2.1 hn.2.1), hint hm.2.2 hn.2.2⟩

/-- `c` is what the last of the records with the property `P` and well-typed fields says. -/
def LastOf (P : Record → Prop) (records : List Record) (c : Carried) : Prop :=
  ∃ pre r post, records = pre ++ r :: post ∧ P r ∧ WellTyped r c ∧ ∀ r' ∈ post, P r' → ∀ c', ¬ WellTyped r' c'

end Record

namespace Sched

variable (S : Sched)

/-- The node that `import_state` looks up for a record. -/
def target (r : Record) : Option ℕ :=
  S.current (r.get "hostname".toList) (r.get "type".toList) (r.get "port".toList)

/-- The record makes `import_state` raise. -/
def Stops (r : Record) : Prop := ¬ r.Hashable ∨ (∃ q ∈ S.scheduled, r.HasKey (S.objs q).node) ∧ Overflows r

theorem target_spec {r : Record} {q : ℕ} (h : S.target r = some q) : q ∈ S.scheduled ∧ r.HasKey (S.objs q).node := by
  obtain ⟨h1, h2⟩ := List.mem_filter.mp (List.mem_of_getLast? h)
  simp only [Bool.and_eq_true] at h2
  exact ⟨h1, h2.1.1, h2.1.2, h2.2⟩

theorem target_eq_none {r : Record} : S.target r = none ↔ ∀ q ∈ S.scheduled, ¬ r.HasKey (S.objs q).node := by
  simp [target, current, Record.HasKey, and_assoc]

theorem target_modifyState (q : ℕ) (f : NodeState → NodeState) (r : Record) :
    (S.modifyState q f).target r = S.target r :=
  congrArg List.getLast? (List.filter_congr fun p _ => by rw [((Kept.refl S).modifyState q f).node])

theorem stops_modifyState (q : ℕ) (f : NodeState → NodeState) (r : Record) :
    (S.modifyState q f).Stops r ↔ S.Stops r := by
  unfold Stops
  simp only [((Kept.refl S).modifyState q f).node]
  rfl

/-- A node with a key of its own is looked up by exactly the records that have it. -/
theorem target_eq_some_iff {q : ℕ} (hq : q ∈ S.scheduled) (huniq : ∀ p ∈ S.scheduled, S.keyOf p = S.keyOf q → p = q)
    {r : Record} : S.target r = some q ↔ r.HasKey (S.objs q).node := by
  refine ⟨fun h => (S.target_spec h).2, fun h => ?_⟩
  cases ht : S.target r with
  | none => exact absurd h (S.target_eq_none.mp ht q hq)
  | some p =>
    obtain ⟨hp, hkey⟩ := S.target_spec ht
    rw [huniq p hp (hkey.key_eq h)]

/-! ### The loop -/

/-- What a record writes into the node `q`. -/
def written (q : ℕ) (r : Record) : Option Carried := if S.target r = some q then (validatedCarry r).toOption else none

theorem written_eq_some_iff {q : ℕ} {r : Record} {c : Carried} :
    S.written q r = some c ↔ S.target r = some q ∧ WellTyped r c := by
  unfold written
  split
  · rename_i h
    simp [h, toOption_eq_some, validatedCarry_ok_iff]
  · rename_i h
    simp [h]

/-- The node with the last of the restored values. -/
def settle (now : ℚ) (o : Scheduled) : Option Carried → Scheduled
  | none => o
  | some c => { o with state := restoreState c now o.state }

/-- **A record that stops the loop makes the import raise.** -/
theorem importLoop_stops (now : ℚ) : ∀ (rs : List Record) (out : Imported), (∃ r ∈ rs, out.sched.Stops r) →
    (importLoop now rs out).raised = true
  | [], _, h => by simp at h
  | r :: rs, out, h => by
    unfold importLoop
    dsimp only
    split
    · rfl
    rename_i hhash
    have hhash : r.Hashable := by simpa [Record.Hashable, and_assoc] using hhash
    have hrest : ∀ {out' : Imported}, (∀ r, out'.sched.Stops r ↔ out.sched.Stops r) → ¬ out.sched.Stops r →
        (importLoop now rs out').raised = true := by
      intro out' hsame hr
      obtain ⟨x, hx, hstop⟩ := h
      rcases List.mem_cons.mp hx with rfl | hx
      · exact absurd hstop hr
      · exact importLoop_stops now rs out' ⟨x, hx, (hsame x).mpr hstop⟩
    split
    · rename_i hnone
      refine hrest (fun _ => Iff.rfl) ?_
      rintro (hn | ⟨⟨q, hq, hk⟩, -⟩)
      · exact hn hhash
      · exact out.sched.target_eq_none.mp hnone q hq hk
    · rename_i q hq
      split
      · rfl
      · rename_i hv
        refine hrest (fun _ => Iff.rfl) ?_
        rintro (hn | ⟨-, ho⟩)
        · exact hn hhash
        · rw [validatedCarry_overflow_iff.mpr ho] at hv
          exact absurd hv (by simp)
      · rename_i c hv
        refine hrest (fun x => out.sched.stops_modifyState q _ x) ?_
        rintro (hn | ⟨-, ho⟩)
        · exact hn hhash
        · rw [validatedCarry_overflow_iff.mpr ho] at hv
          exact absurd hv (by simp)

/-- **Without one, every node ends up with the last record that was written into it.** -/
theorem importLoop_pass (now : ℚ) (q : ℕ) : ∀ (rs : List Record) (out : Imported), out.raised = false →
    (∀ r ∈ rs, ¬ out.sched.Stops r) → (importLoop now rs out).raised = false ∧
      (importLoop now rs out).sched.objs q =
        settle now (out.sched.objs q) (rs.filterMap (out.sched.written q)).getLast?
  | [], _, hout, _ => ⟨hout, rfl⟩
  | r :: rs, out, hout, h => by
    have hr : ¬ out.sched.Stops r := h r (by simp)
    have hrs : ∀ x ∈ rs, ¬ out.sched.Stops x := fun x hx => h x (by simp [hx])
    have hhash : r.Hashable := by
      by_contra hn
      exact hr (.inl hn)
    unfold importLoop
    dsimp only
    rw [if_neg (by simpa [Record.Hashable, and_assoc] using hhash)]
    split
    · rename_i hnone
      have hw : out.sched.written q r = none := if_neg (by rw [target, hnone]; simp)
      rw [List.filterMap_cons_none hw]
      exact importLoop_pass now q rs out hout hrs
    · rename_i p hp
      split
      · rename_i hv
        obtain ⟨hsched, hkey⟩ := out.sched.target_spec hp
        exact absurd (.inr ⟨⟨p, hsched, hkey⟩, validatedCarry_overflow_iff.mp hv⟩) hr
      · rename_i hv
        have hw : out.sched.written q r = none := by
          unfold written
          rw [hv]
          exact ite_self _
        rw [List.filterMap_cons_none hw]
        exact importLoop_pass now q rs _ hout hrs
      · rename_i c hv
        obtain ⟨hraised, hobj⟩ := importLoop_pass now q rs
          { out with sched := out.sched.modifyState p (restoreState c now), matched := out.matched + 1 } hout
          (fun x hx => (not_congr (out.sched.stops_modifyState p _ x)).mpr (hrs x hx))
        refine ⟨hraised, hobj.trans ?_⟩
        have hsame : (out.sched.modifyState p (restoreState c now)).written q = out.sched.written q :=
          funext fun x => by rw [written, written, target_modifyState]
        dsimp only
        rw [hsame]
        by_cases hpq : p = q
        · subst hpq
          have hw : out.sched.written p r = some c := (out.sched.written_eq_some_iff).mpr
            ⟨hp, validatedCarry_ok_iff.mp hv⟩
          rw [List.filterMap_cons_some hw, List.getLast?_cons, modifyState, modify_objs_self]
          cases (rs.filterMap (out.sched.written p)).getLast? <;> rfl
        · have hw : out.sched.written q r = none := if_neg (by rw [target, hp]; simpa using hpq)
          rw [List.filterMap_cons_none hw, modifyState, modify_objs_of_ne _ _ _ (Ne.symm hpq)]

theorem importState_of_pass {records : List Record} (now : ℚ) (h : ∀ r ∈ records, ¬ S.Stops r) (q : ℕ) :
    (S.importState records now).raised = false ∧ (S.importState records now).sched.objs q =
      settle now (S.objs q) (records.filterMap (S.written q)).getLast? :=
  importLoop_pass now q records ⟨S, 0, 0, false⟩ rfl h

theorem raised_importState_iff {records : List Record} (now : ℚ) :
    (S.importState records now).raised = false ↔ ∀ r ∈ records, ¬ S.Stops r := by
  constructor
  · intro h r hr hs
    exact absurd (importLoop_stops now records ⟨S, 0, 0, false⟩ ⟨r, hr, hs⟩) (by simpa [importState] using h)
  · exact fun h => (S.importState_of_pass now h 0).1

/-- The last value of a `filterMap` is that of the last element that has one. -/
theorem getLast?_filterMap_eq_some_iff {α β : Type*} {f : α → Option β} {l : List α} {b : β} :
    (l.filterMap f).getLast? = some b ↔
      ∃ pre x post, l = pre ++ x :: post ∧ f x = some b ∧ ∀ y ∈ post, f y = none := by
  constructor
  · intro h
    induction l using List.reverseRecOn with
    | nil => simp at h
    | append_singleton l x ih =>
      rw [List.filterMap_append] at h
      cases hx : f x with
      | none =>
        rw [List.filterMap_cons_none hx, List.filterMap_nil, List.append_nil] at h
        obtain ⟨pre, y, post, rfl, hy, hpost⟩ := ih h
        refine ⟨pre, y, post ++ [x], by simp, hy, fun z hz => ?_⟩
        rcases List.mem_append.mp hz with hz | hz
        · exact hpost z hz
        · rw [List.mem_singleton.mp hz, hx]
      | some c =>
        rw [List.filterMap_cons_some hx, List.filterMap_nil, List.getLast?_concat] at h
        exact ⟨l, x, [], rfl, hx.trans h, by simp⟩
  · rintro ⟨pre, x, post, rfl, hx, hpost⟩
    rw [List.filterMap_append, List.filterMap_cons_some hx, List.filterMap_eq_nil_iff.mpr hpost,
      List.getLast?_concat]

theorem written_eq_none_iff {q : ℕ} {r : Record} :
    S.written q r = none ↔ (S.target r = some q → ∀ c, ¬ WellTyped r c) := by
  rw [Option.eq_none_iff_forall_ne_some]
  simp only [ne_eq, written_eq_some_iff, not_and]
  exact ⟨fun h ht c => h c ht, fun h c ht => h ht c⟩

/-- The last record that was written into a node. -/
theorem lastOf_target_iff {records : List Record} {q : ℕ} {c : Carried} :
    Record.LastOf (S.target · = some q) records c ↔ (records.filterMap (S.written q)).getLast? = some c := by
  simp only [getLast?_filterMap_eq_some_iff, written_eq_some_iff, written_eq_none_iff, Record.LastOf, and_assoc]

/-- What an import that does not raise leaves in a node: the last record written into it, if there is one. -/
theorem importState_spec {records : List Record} (now : ℚ) (h : ∀ r ∈ records, ¬ S.Stops r) (q : ℕ) :
    (∃ c, Record.LastOf (S.target · = some q) records c ∧
        (S.importState records now).sched.objs q = { S.objs q with state := restoreState c now (S.objs q).state }) ∨
      ((∀ c, ¬ Record.LastOf (S.target · = some q) records c) ∧
        (∀ r ∈ records, S.target r = some q → ∀ c, ¬ WellTyped r c) ∧
        (S.importState records now).sched.objs q = S.objs q) := by
  simp only [lastOf_target_iff]
  rw [(S.importState_of_pass now h q).2]
  cases hl : (records.filterMap (S.written q)).getLast? with
  | none =>
    rw [List.getLast?_eq_none_iff, List.filterMap_eq_nil_iff] at hl
    exact .inr ⟨by simp, fun r hr => (S.written_eq_none_iff).mp (hl r hr), rfl⟩
  | some c => exact .inl ⟨c, rfl, rfl⟩

end Sched

/-! ### Isolation -/

/-- **Records are restored independently** exactly if none of them has a key that cannot be hashed, or the key of a
scheduled node and a timestamp that overflows. -/
theorem import_isolated_iff (S : Sched) (records : List Record) (now : ℚ) :
    ((S.importState records now).raised = false ∧
      ∀ q ∈ S.scheduled, (∀ p ∈ S.scheduled, S.keyOf p = S.keyOf q → p = q) →
        let before := (S.objs q).state.toCarried
        let after := ((S.importState records now).sched.objs q).state.toCarried
        let key := fun r : Record => r.HasKey (S.objs q).node
        Record.LastOf key records after ∨ ((∀ r ∈ records, key r → ∀ c, ¬ WellTyped r c) ∧ after = before)) ↔
    ∀ r ∈ records, r.Hashable ∧ ¬ ((∃ q ∈ S.scheduled, r.HasKey (S.objs q).node) ∧ Overflows r) := by
  have hstops : (∀ r ∈ records, ¬ S.Stops r) ↔
      ∀ r ∈ records, r.Hashable ∧ ¬ ((∃ q ∈ S.scheduled, r.HasKey (S.objs q).node) ∧ Overflows r) := by
    unfold Sched.Stops
    simp only [not_or, not_not]
  rw [← hstops]
  constructor
  · exact fun h => (S.raised_importState_iff now).mp h.1
  · intro h
    refine ⟨(S.raised_importState_iff now).mpr h, fun q hq huniq => ?_⟩
    have hkey : (S.target · = some q) = fun r : Record => r.HasKey (S.objs q).node :=
      funext fun r => propext (S.target_eq_some_iff hq huniq)
    dsimp only
    rcases S.importState_spec now h q with ⟨c, hlast, hobj⟩ | ⟨-, hno, hobj⟩
    · rw [hkey] at hlast
      rw [hobj]
      exact .inl hlast
    · rw [hobj]
      exact .inr ⟨fun r hr hk => hno r hr ((S.target_eq_some_iff hq huniq).mpr hk), rfl⟩

/-- A record of the router of `gatewayForest`. -/
def routerRecord (lastcheck downct : ℤ) (contacted : Bool) (lastUp : Json) : Record :=
  [("hostname".toList, .str "gw".toList), ("type".toList, .str "ping".toList), ("port".toList, .int 0),
    ("lastcheck".toList, .int lastcheck), ("downct".toList, .int downct), ("contacted".toList, .bool contacted),
    ("deathtime".toList, .int 50), ("last_up".toList, lastUp), ("acked".toList, .bool false), ("note".toList, .null)]

/-- A record whose hostname is a list stops the import: the router's own record, which stands behind it, is not
restored. -/
theorem import_unhashable :
    let out := (Sched.init {} gatewayForest (fun _ => 0) 0 true).importState
      [[("hostname".toList, .arr [])], routerRecord 6 3 true (.int 40)] 0
    out.raised = true ∧ (out.sched.objs 0).state.downct = 0 := by
  decide +kernel

/-! ### Paging after a restore -/

/-- The state after `j` further results `e`. -/
def again (pod : Bool) (s : NodeState) (e : ℤ) (wall : ℕ → ℚ) : ℕ → NodeState
  | 0 => s
  | j + 1 => (applyResult (again pod s e wall j) e (wall j) pod).1

/-- Of `max_down` results `e` in a row, some result emits `DOWN`. -/
def PagesInTime (pod : Bool) (s : NodeState) (e : ℤ) : Prop :=
  ∀ wall : ℕ → ℚ, ∃ j : ℕ, j < s.maxDown ∧ (applyResult (again pod s e wall j) e (wall j) pod).2.intent = .down

/-- The count that a result `e` goes on from. -/
def NodeState.countBefore (s : NodeState) (e : ℤ) : ℤ := if s.lastcheck = e then s.downct else 0

section Again

variable {pod : Bool} {s : NodeState} {e : ℤ}

theorem Applied.countBefore_eq {s' : NodeState} {w : ℚ} {i : PageIntent} (ha : Applied pod s e w s' i)
    (he : PagingError pod e) : s'.countBefore e = s.countBefore e + 1 ∧ s'.contacted = s.contacted := by
  rcases ha.eq_of_error he with ⟨hl, rfl, -⟩ | ⟨hl, rfl, -⟩
  · simp [NodeState.countBefore, hl]
  · simp [NodeState.countBefore, hl]

/-- Equal errors count up, and leave the rest of the paging state alone. -/
theorem again_spec (he : PagingError pod e) (wall : ℕ → ℚ) (j : ℕ) :
    (again pod s e wall j).countBefore e = s.countBefore e + j ∧
      (again pod s e wall j).contacted = s.contacted ∧ (again pod s e wall j).maxDown = s.maxDown := by
  induction j with
  | zero => simp [again]
  | succ j ih =>
    obtain ⟨hct, hco, hmax⟩ := ih
    have ha := applied_applyResult pod (again pod s e wall j) e (wall j)
    obtain ⟨hct', hco'⟩ := ha.countBefore_eq he
    refine ⟨hct'.trans ?_, hco'.trans hco, ha.maxDown_eq.trans hmax⟩
    rw [hct]
    push_cast
    ring

/-- **Paging in time**: the outage is not marked already, and its count does not start below zero. -/
theorem pagesInTime_iff (he : PagingError pod e) (hmax : 1 ≤ s.maxDown) :
    PagesInTime pod s e ↔ s.contacted = false ∧ 0 ≤ s.countBefore e := by
  have hdown : ∀ (wall : ℕ → ℚ) (j : ℕ), (applyResult (again pod s e wall j) e (wall j) pod).2.intent = .down ↔
      s.maxDown ≤ s.countBefore e + (j + 1) ∧ s.contacted = false := by
    intro wall j
    obtain ⟨hct, -, hmax⟩ := again_spec (s := s) he wall (j + 1)
    obtain ⟨-, hco, -⟩ := again_spec (s := s) he wall j
    have ha := applied_applyResult pod (again pod s e wall j) e (wall j)
    have hlast : (again pod s e wall (j + 1)).countBefore e = (again pod s e wall (j + 1)).downct :=
      if_pos ha.lastcheck_eq
    rw [hlast] at hct
    have hi := ha.intent_iff.1
    rw [hco] at hi
    refine hi.trans ?_
    rw [show (applyResult (again pod s e wall j) e (wall j) pod).1 = again pod s e wall (j + 1) from rfl, hct, hmax]
    push_cast
    simp [he]
  constructor
  · intro h
    obtain ⟨j, hj, hi⟩ := h fun _ => 0
    obtain ⟨hle, hco⟩ := (hdown _ j).mp hi
    exact ⟨hco, by omega⟩
  · rintro ⟨hco, hct⟩ wall
    refine ⟨(s.maxDown - 1).toNat, by omega, (hdown wall _).mpr ⟨by omega, hco⟩⟩

end Again

/-- **A restored node pages in time** exactly if the last record restored into it has no `contacted` set for a node
that is up, and no negative count for an error that is not marked. -/
theorem restored_pages_iff (settings : Settings) (F : Forest) (wall : ℕ → ℚ) (start : ℚ) (stagger : Bool)
    (records : List Record) (now : ℚ) (pod : Bool) (q : ℕ) :
    let S := Sched.init settings F wall start stagger
    let s := ((S.importState records now).sched.objs q).state
    (S.importState records now).raised = false → q ∈ S.scheduled → 1 ≤ s.maxDown →
    (((s.lastcheck = Status.ok.code → ∀ e, PagingError pod e → PagesInTime pod s e) ∧
        (PagingError pod s.lastcheck → s.contacted = false → PagesInTime pod s s.lastcheck)) ↔
      ∀ c, Record.LastOf (S.target · = some q) records c →
        ¬ (c.lastcheck = Status.ok.code ∧ c.contacted = true) ∧
        ¬ (PagingError pod c.lastcheck ∧ c.contacted = false ∧ c.downct < 0)) := by
  intro S s hraised hq hmax
  have hpass := (S.raised_importState_iff now).mp hraised
  -- what the two clauses say of the restored fields
  have hstate : ((s.lastcheck = Status.ok.code → ∀ e, PagingError pod e → PagesInTime pod s e) ∧
      (PagingError pod s.lastcheck → s.contacted = false → PagesInTime pod s s.lastcheck)) ↔
      ¬ (s.lastcheck = Status.ok.code ∧ s.contacted = true) ∧
        ¬ (PagingError pod s.lastcheck ∧ s.contacted = false ∧ s.downct < 0) := by
    refine and_congr ⟨fun h => ?_, fun h hl e he => ?_⟩ ⟨fun h => ?_, fun h he hc => ?_⟩
    · rintro ⟨hl, hc⟩
      have he : PagingError pod 1 := ⟨by decide, by decide, fun h => absurd h (by decide)⟩
      exact absurd hc (by simp [((pagesInTime_iff he hmax).mp (h hl 1 he)).1])
    · have hne : s.lastcheck ≠ e := hl ▸ Ne.symm he.1
      exact (pagesInTime_iff he hmax).mpr ⟨by simpa [hl] using h, (if_neg hne).ge⟩
    · rintro ⟨he, hc, hneg⟩
      have hct := ((pagesInTime_iff he hmax).mp (h he hc)).2
      rw [NodeState.countBefore, if_pos rfl] at hct
      omega
    · refine (pagesInTime_iff he hmax).mpr ⟨hc, ?_⟩
      rw [NodeState.countBefore, if_pos rfl]
      exact not_lt.mp fun hneg => h ⟨he, hc, hneg⟩
  rw [hstate]
  rcases S.importState_spec now hpass q with ⟨c, hlast, hobj⟩ | ⟨hno, -, hobj⟩
  · have hs : s = restoreState c now (S.objs q).state := congrArg Scheduled.state hobj
    rw [hs]
    refine ⟨fun h c' hc' => ?_, fun h => h c hlast⟩
    obtain rfl : c = c' := Option.some.inj ((S.lastOf_target_iff.mp hlast).symm.trans (S.lastOf_target_iff.mp hc'))
    exact h
  · -- no record was written: the node is fresh
    obtain ⟨i, o, ho, rfl⟩ := (Built.init settings F wall start stagger).mem_scheduled.mp hq
    obtain ⟨due, hnew⟩ := Sched.init_obj settings wall start stagger ho
    have hs : s = (S.objs (0 + i)).state := congrArg Scheduled.state hobj
    rw [Nat.zero_add, hnew] at hs
    rw [hs]
    refine iff_of_true ⟨by simp [mkScheduled], ?_⟩ fun c hc => absurd hc (hno c)
    rintro ⟨he, -⟩
    exact he.1 rfl

/-- The router of `gatewayForest`, restored from one record. -/
def restoredRouter (r : Record) : Sched.Imported :=
  (Sched.init {} gatewayForest (fun _ => 0) 0 true).importState [r] 0

/-- A count of one from before the restart: the second failure after it pages. -/
theorem restored_pages_router : (restoredRouter (routerRecord 6 1 false (.int 40))).raised = false ∧
    PagesInTime false ((restoredRouter (routerRecord 6 1 false (.int 40))).sched.objs 0).state 6 := by
  have hraised : (restoredRouter (routerRecord 6 1 false (.int 40))).raised = false := by decide +kernel
  have hstate : ((restoredRouter (routerRecord 6 1 false (.int 40))).sched.objs 0).state.lastcheck = 6 ∧
      ((restoredRouter (routerRecord 6 1 false (.int 40))).sched.objs 0).state.contacted = false ∧
      ((restoredRouter (routerRecord 6 1 false (.int 40))).sched.objs 0).state.maxDown = 2 := by decide +kernel
  obtain ⟨hl, hc, hm⟩ := hstate
  refine ⟨hraised, ?_⟩
  have hiff := restored_pages_iff {} gatewayForest (fun _ => 0) 0 true [routerRecord 6 1 false (.int 40)] 0 false 0
    hraised (by decide +kernel) (hm.symm ▸ by decide)
  have hlast : ∀ c, Record.LastOf ((Sched.init {} gatewayForest (fun _ => 0) 0 true).target · = some 0)
      [routerRecord 6 1 false (.int 40)] c → c.lastcheck = 6 ∧ c.downct = 1 := by
    rintro c ⟨pre, r, post, hr, -, hw, -⟩
    have hmem : r ∈ [routerRecord 6 1 false (.int 40)] := by rw [hr]; simp
    obtain rfl := List.mem_singleton.mp hmem
    have h1 : (routerRecord 6 1 false (.int 40)).lookup "lastcheck".toList = some (.int 6) := rfl
    have h2 : (routerRecord 6 1 false (.int 40)).lookup "downct".toList = some (.int 1) := rfl
    exact ⟨Json.int.inj (Option.some.inj (hw.lastcheck.symm.trans h1)),
      Json.int.inj (Option.some.inj (hw.downct.symm.trans h2))⟩
  have hpages := (hiff.mpr fun c hcl => by
    obtain ⟨h1, h2⟩ := hlast c hcl
    exact ⟨by simp [h1], by simp [h2]⟩).2
  rw [show (((Sched.init {} gatewayForest (fun _ => 0) 0 true).importState
    [routerRecord 6 1 false (.int 40)] 0).sched.objs 0).state =
      ((restoredRouter (routerRecord 6 1 false (.int 40))).sched.objs 0).state from rfl, hl] at hpages
  exact hpages ⟨by decide, by decide, by decide⟩ hc

/-- Records that pass their validation and silence the router: one that marks an outage of a node that is up, and one
whose count starts below zero.  Neither run of two failures pages, with a threshold of two. -/
theorem restored_router_wedged :
    let marked := ((restoredRouter (routerRecord 0 0 true (.int 40))).sched.objs 0).state
    let negative := ((restoredRouter (routerRecord 6 (-5) false (.int 40))).sched.objs 0).state
    (restoredRouter (routerRecord 0 0 true (.int 40))).raised = false ∧
      (restoredRouter (routerRecord 6 (-5) false (.int 40))).raised = false ∧
      marked.lastcheck = 0 ∧ marked.maxDown = 2 ∧ ¬ PagesInTime false marked 6 ∧
      negative.lastcheck = 6 ∧ negative.contacted = false ∧ negative.maxDown = 2 ∧ ¬ PagesInTime false negative 6 := by
  intro marked negative
  have he : PagingError false 6 := ⟨by decide, by decide, by decide⟩
  have hm : marked.lastcheck = 0 ∧ marked.maxDown = 2 ∧ marked.contacted = true := by decide +kernel
  have hn : negative.lastcheck = 6 ∧ negative.contacted = false ∧ negative.maxDown = 2 ∧ negative.downct = -5 := by
    decide +kernel
  obtain ⟨hn1, hn2, hn3, hn4⟩ := hn
  refine ⟨by decide +kernel, by decide +kernel, hm.1, hm.2.1, fun h => ?_, hn1, hn2, hn3, fun h => ?_⟩
  · exact absurd ((pagesInTime_iff he (by omega)).mp h).1 (by simp [hm.2.2])
  · have := ((pagesInTime_iff he (by omega)).mp h).2
    rw [NodeState.countBefore, if_pos hn1, hn4] at this
    omega

end Psysmon
