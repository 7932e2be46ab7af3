import Psysmon.Output.StatusPage

/-!
# Psysmon.Output.Sections — the rows of the status page

* `partition_eq`: the two lists that `_partition` makes.
* `grouped_spec`: the sections that `_grouped` makes: each label once, and under it the rows that have it.
* `mem_labels`: their labels.
* `grouped_perm`: no row is lost and none is doubled.
-/

namespace Psysmon

open Lib

/-- The row is shown as down. -/
def isDownRow (r : Row) : Bool := !r.2.suppressed && !isUp r.2.lastcheck

/-- The row is shown as up, if those are shown. -/
def isUpRow (r : Row) : Bool := !r.2.suppressed && isUp r.2.lastcheck

theorem partition_eq (states : List Row) : partition states = (states.filter isDownRow, states.filter isUpRow) := by
  induction states using List.reverseRecOn with
  | nil => rfl
  | append_singleton states r ih =>
    rw [partition, List.foldl_append, ← partition, ih, List.filter_append, List.filter_append]
    cases hs : r.2.suppressed <;> cases hu : isUp r.2.lastcheck <;> simp_all [isDownRow, isUpRow]

/-- The label of a row: its group, or `Ungrouped` if it has none and some row has one. -/
def labelIn (rows : List Row) (r : Row) : Text :=
  if r.1.group = [] ∧ rows.any (fun q => q.1.group ≠ []) then ungrouped else r.1.group

theorem all_buckets_iff {rows : List Row} :
    ((buckets (fun r : Row => r.1.group) rows).all fun b => b.1 = []) = true ↔ ∀ r ∈ rows, r.1.group = [] := by
  rw [List.all_eq_true]
  constructor
  · intro h r hr
    have hk := (mem_keys_buckets (fun r : Row => r.1.group)).mpr ⟨r, hr, rfl⟩
    obtain ⟨b, hb, hbk⟩ := List.mem_map.mp hk
    exact hbk ▸ of_decide_eq_true (h b hb)
  · intro h b hb
    obtain ⟨r, hr, hrk⟩ := (mem_keys_buckets (fun r : Row => r.1.group)).mp (List.mem_map.mpr ⟨b, hb, rfl⟩)
    exact decide_eq_true (hrk ▸ h r hr)

/-- The groups in use, sorted. -/
def groupsOf (rows : List Row) : List Text :=
  (((buckets (fun r : Row => r.1.group) rows).map Prod.fst).filter (· ≠ [])).insertionSort (· ≤ ·)

theorem mem_groupsOf {rows : List Row} {g : Text} : g ∈ groupsOf rows ↔ g ≠ [] ∧ ∃ r ∈ rows, r.1.group = g := by
  rw [groupsOf, (List.perm_insertionSort _ _).mem_iff, List.mem_filter, mem_keys_buckets]
  simp [and_comm]

theorem nodup_groupsOf (rows : List Row) : (groupsOf rows).Nodup :=
  (List.perm_insertionSort _ _).nodup_iff.mpr ((nodup_keys_buckets _ rows).filter _)

/-- The rows of no group. -/
def noGroupRows (rows : List Row) : List Row := rows.filter fun r => r.1.group = []

/-- The rows under a label; those of no group join a group named `Ungrouped`. -/
def groupRows (rows : List Row) (g : Text) : List Row :=
  rows.filter (fun r => r.1.group = g) ++ if g = ungrouped then noGroupRows rows else []

section Grouped

variable {rows : List Row}

/-- The buckets of the groups. -/
abbrev groupBuckets (rows : List Row) : List (Text × List Row) := buckets (fun r : Row => r.1.group) rows

theorem keys_named (bs : List (Text × List Row)) :
    (bs.filter fun b => b.1 ≠ []).map Prod.fst = (bs.map Prod.fst).filter (· ≠ []) := by
  rw [List.filter_map]
  rfl

theorem lookup_named {g : Text} (hg : g ≠ []) :
    ((groupBuckets rows).filter fun b => b.1 ≠ []).lookup g = (groupBuckets rows).lookup g := by
  rw [lookup_filter_key (fun k => decide (k ≠ [])), if_pos (decide_eq_true hg)]

/-- The sections of buckets whose keys are the groups. -/
theorem sectionsOf_eq {bs : List (Text × List Row)} {f : Text → List Row}
    (hkeys : bs.map Prod.fst = ((groupBuckets rows).map Prod.fst).filter (· ≠ []))
    (hlookup : ∀ g ∈ groupsOf rows, (bs.lookup g).getD [] = f g) :
    sectionsOf bs = (groupsOf rows).map fun g => (g, f g) := by
  rw [sectionsOf, hkeys]
  exact List.map_congr_left fun g hg => by rw [hlookup g hg]

/-- The sections, where some row has a group. -/
theorem grouped_eq (h : ∃ r ∈ rows, r.1.group ≠ []) :
    grouped rows =
      (groupsOf rows).map (fun g => (g, groupRows rows g)) ++
        if noGroupRows rows ≠ [] ∧ ungrouped ∉ groupsOf rows then [(ungrouped, noGroupRows rows)] else [] := by
  have hall : ¬ ((groupBuckets rows).all fun b => b.1 = []) = true := by
    rw [all_buckets_iff]
    obtain ⟨r, hr, hg⟩ := h
    exact fun hc => hg (hc r hr)
  have hmem : ungrouped ∈ ((groupBuckets rows).filter fun b => b.1 ≠ []).map Prod.fst ↔ ungrouped ∈ groupsOf rows := by
    rw [keys_named, groupsOf, (List.perm_insertionSort _ _).mem_iff]
  have hne : ∀ g ∈ groupsOf rows, g ≠ [] := fun g hg => (mem_groupsOf.mp hg).1
  have hlookup : ∀ g ∈ groupsOf rows, g ≠ ungrouped ∨ noGroupRows rows = [] →
      (((groupBuckets rows).filter fun b => b.1 ≠ []).lookup g).getD [] = groupRows rows g := by
    intro g hg hjoin
    rw [lookup_named (hne g hg), getD_lookup_buckets, groupRows]
    rcases hjoin with hjoin | hjoin
    · rw [if_neg hjoin, List.append_nil]
    · rw [hjoin, ite_self, List.append_nil]
  unfold grouped
  dsimp only
  rw [if_neg hall, getD_lookup_buckets, ← noGroupRows]
  by_cases hno : noGroupRows rows = []
  · rw [if_neg (fun hc => hc.1 hno), if_neg (fun hc => hc hno), if_neg (fun hc => hc.1 hno), List.append_nil]
    exact sectionsOf_eq (keys_named _) fun g hg => hlookup g hg (.inr hno)
  by_cases hu : ungrouped ∈ groupsOf rows
  · -- rows of no group join the group of that name
    rw [if_pos ⟨hno, hmem.mpr hu⟩, if_neg (fun hc => hc.2 hu), List.append_nil]
    refine sectionsOf_eq (by rw [List.map_map, ← keys_named]; rfl) fun g hg => ?_
    rw [lookup_map_snd (fun k l => if k = ungrouped then l ++ noGroupRows rows else l), lookup_named (hne g hg)]
    obtain ⟨l, hl⟩ : ∃ l, (groupBuckets rows).lookup g = some l :=
      Option.isSome_iff_exists.mp (lookup_isSome_iff.mpr ((mem_keys_buckets _).mpr (mem_groupsOf.mp hg).2))
    have hrows := getD_lookup_buckets (fun r : Row => r.1.group) rows g
    rw [hl, Option.getD_some] at hrows
    rw [hl, Option.map_some, Option.getD_some, groupRows, ← hrows]
    split_ifs
    · rfl
    · rw [List.append_nil]
  · rw [if_neg (fun hc => hu (hmem.mp hc.2)), if_pos hno, if_pos ⟨hno, hu⟩]
    congr 1
    exact sectionsOf_eq (keys_named _) fun g hg => hlookup g hg (.inl fun hg' => hu (hg' ▸ hg))

theorem grouped_flat (h : ∀ r ∈ rows, r.1.group = []) : grouped rows = [([], rows)] := by
  unfold grouped
  dsimp only
  rw [if_pos (all_buckets_iff.mpr h)]

theorem labelIn_flat (h : ∀ r ∈ rows, r.1.group = []) (r : Row) : labelIn rows r = r.1.group := by
  have hany : rows.any (fun q => q.1.group ≠ []) = false := by
    rw [List.any_eq_false]
    exact fun q hq => by simpa using h q hq
  rw [labelIn, hany, if_neg (fun hc => Bool.false_ne_true hc.2)]

theorem labelIn_grouped (h : ∃ r ∈ rows, r.1.group ≠ []) (r : Row) :
    labelIn rows r = if r.1.group = [] then ungrouped else r.1.group := by
  have hany : rows.any (fun q => q.1.group ≠ []) = true := by
    obtain ⟨q, hq, hg⟩ := h
    exact List.any_eq_true.mpr ⟨q, hq, decide_eq_true hg⟩
  rw [labelIn, hany]
  simp

/-- The rows under a group's label are those that have it. -/
theorem groupRows_perm (h : ∃ r ∈ rows, r.1.group ≠ []) {g : Text} (hg : g ∈ groupsOf rows) :
    (groupRows rows g).Perm (rows.filter fun r => labelIn rows r = g) := by
  have hne := (mem_groupsOf.mp hg).1
  unfold groupRows
  by_cases hu : g = ungrouped
  · subst hu
    rw [if_pos rfl]
    refine (filter_or_perm fun r _ hr => ?_).trans (.of_eq (List.filter_congr fun r _ => ?_))
    · have hr := of_decide_eq_true hr
      exact decide_eq_false fun h0 => hne (hr.symm.trans h0)
    · rw [labelIn_grouped h]
      by_cases h0 : r.1.group = [] <;> simp [h0, hne.symm]
  · rw [if_neg hu, List.append_nil]
    refine .of_eq (List.filter_congr fun r _ => ?_)
    rw [labelIn_grouped h]
    by_cases h0 : r.1.group = [] <;> simp [h0, hne.symm, Ne.symm hu]

/-- **Sections**: each label stands once, every row has one of them, and under each label are the rows that have it. -/
theorem grouped_spec (rows : List Row) :
    ((grouped rows).map Prod.fst).Nodup ∧ (∀ r ∈ rows, labelIn rows r ∈ (grouped rows).map Prod.fst) ∧
      ∀ s ∈ grouped rows, s.2.Perm (rows.filter fun r => labelIn rows r = s.1) := by
  by_cases h : ∀ r ∈ rows, r.1.group = []
  · rw [grouped_flat h]
    refine ⟨List.nodup_singleton _, fun r hr => ?_, fun s hs => ?_⟩
    · rw [labelIn_flat h, h r hr]
      exact List.mem_singleton_self _
    · obtain rfl := List.mem_singleton.mp hs
      refine .of_eq (List.filter_eq_self.mpr fun r hr => ?_).symm
      rw [labelIn_flat h, h r hr]
      rfl
  · simp only [not_forall] at h
    obtain ⟨q, hq, hqg⟩ := h
    have h : ∃ r ∈ rows, r.1.group ≠ [] := ⟨q, hq, hqg⟩
    have hmap : ((groupsOf rows).map fun g => (g, groupRows rows g)).map Prod.fst = groupsOf rows := by
      rw [List.map_map]
      exact List.map_id _
    have hlabel : ∀ r ∈ rows, r.1.group ≠ [] → labelIn rows r ∈ groupsOf rows := fun r hr hg => by
      rw [labelIn_grouped h, if_neg hg]
      exact mem_groupsOf.mpr ⟨hg, r, hr, rfl⟩
    rw [grouped_eq h, List.map_append, hmap]
    split_ifs with hlast
    · refine ⟨?_, fun r hr => ?_, fun s hs => ?_⟩
      · rw [List.map_singleton]
        refine List.nodup_append.mpr ⟨nodup_groupsOf rows, List.nodup_singleton _, ?_⟩
        rintro g hg _ hb rfl
        obtain rfl := List.mem_singleton.mp hb
        exact hlast.2 hg
      · by_cases hg : r.1.group = []
        · rw [labelIn_grouped h, if_pos hg]
          exact List.mem_append_right _ (List.mem_singleton_self _)
        · exact List.mem_append_left _ (hlabel r hr hg)
      · rcases List.mem_append.mp hs with hs | hs
        · obtain ⟨g, hg, rfl⟩ := List.mem_map.mp hs
          exact groupRows_perm h hg
        · obtain rfl := List.mem_singleton.mp hs
          refine .of_eq (List.filter_congr fun r hr => ?_)
          rw [labelIn_grouped h]
          by_cases hg : r.1.group = []
          · simp [hg]
          · have hne : r.1.group ≠ ungrouped := fun hu => hlast.2 (mem_groupsOf.mpr ⟨hu ▸ hg, r, hr, hu⟩)
            simp [hg, hne]
    · rw [List.map_nil, List.append_nil, List.append_nil]
      refine ⟨nodup_groupsOf rows, fun r hr => ?_, fun s hs => ?_⟩
      · by_cases hg : r.1.group = []
        · rw [labelIn_grouped h, if_pos hg]
          by_contra hu
          exact hlast ⟨List.ne_nil_of_mem (List.mem_filter.mpr ⟨hr, decide_eq_true hg⟩), hu⟩
        · exact hlabel r hr hg
      · obtain ⟨g, hg, rfl⟩ := List.mem_map.mp hs
        exact groupRows_perm h hg

/-- The labels are those of the rows, but for the empty one. -/
theorem mem_labels {label : Text} (hl : label ≠ []) :
    label ∈ (grouped rows).map Prod.fst ↔ ∃ r ∈ rows, labelIn rows r = label := by
  constructor
  · intro hm
    by_cases h : ∀ r ∈ rows, r.1.group = []
    · rw [grouped_flat h] at hm
      exact absurd (List.mem_singleton.mp hm) hl
    · simp only [not_forall] at h
      obtain ⟨q, hq, hqg⟩ := h
      have h : ∃ r ∈ rows, r.1.group ≠ [] := ⟨q, hq, hqg⟩
      obtain ⟨s, hs, rfl⟩ := List.mem_map.mp hm
      rw [grouped_eq h] at hs
      rcases List.mem_append.mp hs with hs | hs
      · obtain ⟨g, hg, rfl⟩ := List.mem_map.mp hs
        obtain ⟨hne, r, hr, rfl⟩ := mem_groupsOf.mp hg
        exact ⟨r, hr, by rw [labelIn_grouped h, if_neg hne]⟩
      · split_ifs at hs with hlast
        · obtain rfl := List.mem_singleton.mp hs
          obtain ⟨r, hr⟩ := List.exists_mem_of_ne_nil _ hlast.1
          obtain ⟨hr, hg⟩ := List.mem_filter.mp hr
          exact ⟨r, hr, by rw [labelIn_grouped h, if_pos (of_decide_eq_true hg)]⟩
        · cases hs
  · rintro ⟨r, hr, rfl⟩
    exact (grouped_spec rows).2.1 r hr

/-- Rows that change, but not their groups, stay in their sections. -/
theorem grouped_map {f : Row → Row} (hf : ∀ r, (f r).1.group = r.1.group) :
    grouped (rows.map f) = (grouped rows).map fun s => (s.1, s.2.map f) := by
  have hfilter (g : Text) : (rows.map f).filter (fun r => r.1.group = g) = (rows.filter fun r => r.1.group = g).map f := by
    rw [List.filter_map]
    simp only [Function.comp_def, hf]
  have hgroups : groupsOf (rows.map f) = groupsOf rows := by
    rw [groupsOf, keys_buckets_map (fun r : Row => r.1.group) hf, groupsOf]
  have hrows (g : Text) : groupRows (rows.map f) g = (groupRows rows g).map f := by
    rw [groupRows, noGroupRows, hfilter, hfilter, groupRows, List.map_append, ← noGroupRows]
    split_ifs <;> rfl
  have hno : noGroupRows (rows.map f) = (noGroupRows rows).map f := hfilter []
  by_cases h : ∀ r ∈ rows, r.1.group = []
  · have h' : ∀ r ∈ rows.map f, r.1.group = [] := by
      intro r hr
      obtain ⟨q, hq, rfl⟩ := List.mem_map.mp hr
      rw [hf]
      exact h q hq
    rw [grouped_flat h, grouped_flat h']
    rfl
  · simp only [not_forall] at h
    obtain ⟨q, hq, hqg⟩ := h
    have h' : ∃ r ∈ rows.map f, r.1.group ≠ [] := ⟨f q, List.mem_map_of_mem hq, by rw [hf]; exact hqg⟩
    rw [grouped_eq ⟨q, hq, hqg⟩, grouped_eq h', hgroups, hno, List.map_append, List.map_map]
    congr 1
    · exact List.map_congr_left fun g _ => by rw [hrows]; rfl
    · simp only [ne_eq, List.map_eq_nil_iff]
      split_ifs <;> rfl

end Grouped

/-- **No row is lost and none is doubled.** -/
theorem grouped_perm (rows : List Row) : ((grouped rows).flatMap Prod.snd).Perm rows := by
  obtain ⟨hnodup, hcover, hrows⟩ := grouped_spec rows
  have hlists : ((grouped rows).flatMap Prod.snd).Perm
      (((grouped rows).map Prod.fst).flatMap fun g => rows.filter fun r => labelIn rows r = g) := by
    rw [List.flatMap_map]
    exact .flatMap_left _ hrows
  exact hlists.trans (flatMap_filter_perm (labelIn rows) hnodup hcover)

end Psysmon
