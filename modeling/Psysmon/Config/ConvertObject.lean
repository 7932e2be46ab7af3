import Psysmon.Config.LegacyRange
import Psysmon.Config.ReadBack
import Psysmon.Config.Serialised

/-!
# Psysmon.Config.ConvertObject — a converted object, read by the modern parser

The attributes that the converter writes for a node of a legacy file are the ones `_build_node` makes the node from again.
The one exception are two ping counts that do not go together, `min_pings` above `send_pings`: the legacy parser takes
them, the modern one drops both (`reread`).

* `lookup_written`: the values that `_build_node` sees.
* `typeFields_written`, `overridden_written`: the fields of the type, and the others.
* `buildNode_written`: the object.
-/

namespace Psysmon.Convert

open Lib Text Number Modern

/-! ### Attributes -/

/-- A written line as the parser collects it. -/
def Row.attr (r : Row) : Option Attr := r.value.map fun v => { key := r.key, line := 0, value := some v.value.text }

/-- The attributes of a written object. -/
def written (seed : ℤ) (p : Placed) : List Attr := (attrs seed p).filterMap Row.attr

/-- The keys of `attrs`. -/
def attrKeys : List Text :=
  ["host".toList, "type".toList, "port".toList, "url".toList, "urltext".toList, "username".toList, "password".toList,
    "dns-query".toList, "desc".toList, "contact".toList, "group".toList, "contact_on".toList, "numfailures".toList,
    "queuetime".toList, "send_pings".toList, "min_pings".toList, "source".toList, "dep".toList]

theorem keys_attrs (seed : ℤ) (p : Placed) : (attrs seed p).map Row.key = attrKeys := rfl

theorem nodup_attrKeys : attrKeys.Nodup := by decide

theorem isWord_attrKeys : ∀ k ∈ attrKeys, IsWord k := by decide

/-- Lines with different keys are collected one by one. -/
theorem foldl_addItem (rows : List Row) (acc : List Attr) (hn : (acc.map Attr.key ++ rows.map Row.key).Nodup)
    (hw : ∀ r ∈ rows, IsWord r.key) :
    (rows.filterMap Row.item).foldl (addItem .object) acc = acc ++ rows.filterMap Row.attr := by
  induction rows generalizing acc with
  | nil => exact (List.append_nil acc).symm
  | cons r rows ih =>
    have hw' : ∀ r ∈ rows, IsWord r.key := fun x hx => hw x (by simp [hx])
    rw [List.map_cons] at hn
    cases hv : r.value with
    | none =>
      have hitem : r.item = none := by rw [Row.item, hv]; rfl
      have hattr : r.attr = none := by rw [Row.attr, hv]; rfl
      rw [List.filterMap_cons_none hitem, List.filterMap_cons_none hattr]
      refine ih acc ?_ hw'
      exact hn.sublist ((List.sublist_cons_self _ _).append_left _)
    | some v =>
      have hitem : r.item = some (.attr (wordOf r.key) false v.value none) := by rw [Row.item, hv]; rfl
      have hattr : r.attr = some { key := r.key, line := 0, value := some v.value.text } := by rw [Row.attr, hv]; rfl
      have hnew : acc.any (·.key = r.key) = false := by
        rw [List.any_eq_false]
        intro a ha
        have := (List.nodup_append.mp hn).2.2 a.key (List.mem_map_of_mem ha) r.key (by simp)
        simpa using this
      have hadd : addItem .object acc (.attr (wordOf r.key) false v.value none) =
          acc ++ [{ key := r.key, line := 0, value := some v.value.text }] := by
        rw [addItem, text_wordOf (hw r (by simp)), addAttr, if_neg (by simpa using hnew)]
        rfl
      rw [List.filterMap_cons_some hitem, List.filterMap_cons_some hattr, List.foldl_cons, hadd, ih _ ?_ hw',
        List.append_assoc, List.singleton_append]
      rw [List.map_append, List.append_assoc]
      exact hn

theorem foldl_written (seed : ℤ) (p : Placed) :
    ((attrs seed p).filterMap Row.item).foldl (addItem .object) [] = written seed p := by
  refine foldl_addItem (attrs seed p) [] ?_ fun r hr => ?_
  · rw [keys_attrs]
    exact nodup_attrKeys
  · exact isWord_attrKeys _ (keys_attrs seed p ▸ List.mem_map_of_mem hr)

theorem find?_filterMap_attr {rows : List Row} (hn : (rows.map Row.key).Nodup) (key : Text) :
    (rows.filterMap Row.attr).find? (·.key = key) = (rows.find? (·.key = key)).bind Row.attr := by
  induction rows with
  | nil => rfl
  | cons r rows ih =>
    rw [List.map_cons, List.nodup_cons] at hn
    by_cases hk : r.key = key
    · rw [List.find?_cons_of_pos (by simpa using hk), Option.bind_some]
      cases hv : r.attr with
      | none =>
        rw [List.filterMap_cons_none hv, ih hn.2, List.find?_eq_none.mpr]
        · rfl
        · intro x hx
          simp only [decide_eq_true_eq]
          rintro rfl
          exact hn.1 (hk ▸ List.mem_map_of_mem hx)
      | some a =>
        have ha : a.key = r.key := by
          obtain ⟨v, -, rfl⟩ := Option.map_eq_some_iff.mp hv
          rfl
        rw [List.filterMap_cons_some hv, List.find?_cons_of_pos (by simpa [ha] using hk)]
    · rw [List.find?_cons_of_neg (by simpa using hk), ← ih hn.2]
      cases hv : r.attr with
      | none => rw [List.filterMap_cons_none hv]
      | some a =>
        have ha : a.key = r.key := by
          obtain ⟨v, -, rfl⟩ := Option.map_eq_some_iff.mp hv
          rfl
        rw [List.filterMap_cons_some hv, List.find?_cons_of_neg (by simpa [ha] using hk)]

/-- What is written under a key. -/
def valueAt (seed : ℤ) (p : Placed) (key : Text) : Option Piece :=
  ((attrs seed p).find? (·.key = key)).bind Row.value

theorem find?_written (seed : ℤ) (p : Placed) (key : Text) : (written seed p).find? (·.key = key) =
    (valueAt seed p key).map fun v => { key := key, line := 0, value := some v.value.text } := by
  rw [written, find?_filterMap_attr (by rw [keys_attrs]; exact nodup_attrKeys), valueAt]
  cases hf : (attrs seed p).find? (·.key = key) with
  | none => rfl
  | some r =>
    have hk : r.key = key := by simpa using List.find?_some hf
    rw [Option.bind_some, Option.bind_some, Row.attr, hk]

/-! ### Values -/

/-- The text that a value is meant to be read back as. -/
def Piece.meant : Piece → Text
  | .quoted value => value
  | .int z => intText z
  | .word t => t

theorem strip_intText (z : ℤ) : strip (intText z) = intText z :=
  stripBy_eq_self fun c hc => ((isWord_intText z).2 c hc).2

theorem intText_of_nonneg {z : ℤ} (hz : 0 ≤ z) : intText z = natText z.natAbs := by
  rw [intText, if_neg hz.not_gt]

theorem port_intText (line : ℕ) (name : Text) {z : ℤ} (hpos : 0 < z) (hz : z ≤ 65535) (hp : Printable z) :
    port line name (some (intText z)) = .ok (pure (some z)) := by
  have hdigit : isdigit (intText z) = true := intText_of_nonneg hpos.le ▸ isdigit_natText _
  unfold port
  dsimp only
  rw [strip_intText, if_pos hdigit, int_intText hp]
  exact congrArg Except.ok (if_pos ⟨hpos, hz⟩)

/-- A port that is not written is the one of the type. -/
theorem port_unwritten {t : CheckType} {z : ℤ} (hz : 1 ≤ z) (h : ¬ (z ≠ 0 ∧ some z ≠ defaultPort t)) :
    (defaultPort t).getD 0 = z := by
  have hdefault : some z = defaultPort t := by
    by_contra hne
    exact h ⟨by omega, hne⟩
  rw [← hdefault, Option.getD_some]

theorem numberInt_intText {z : ℤ} (hpos : 0 < z) (hp : Printable z) : numberInt (intText z) = some z := by
  have hminus : ∀ c ∈ intText z, c ≠ '-' := by
    rw [intText_of_nonneg hpos.le]
    intro c hc
    obtain ⟨d, hd, rfl⟩ := List.mem_map.mp hc
    exact (digitChar_ne d ((natDigits_isDigits _).lt d hd)).2.1
  have hdrop : (intText z).dropWhile (· = '-') = intText z :=
    List.dropWhile_eq_self_iff.mpr fun hl => by simpa using hminus _ (List.getElem_mem hl)
  have hdigit : isdigit (intText z) = true := intText_of_nonneg hpos.le ▸ isdigit_natText _
  rw [numberInt, strip_intText, hdrop, if_pos hdigit, int_intText hp]

theorem countFrom_intText {z : ℤ} (hpos : 1 ≤ z) (hp : Printable z) : countFrom (some (intText z)) = some z := by
  rw [countFrom, Option.bind_some, numberInt_intText (by omega) hp, Option.filter_some, if_pos (decide_eq_true hpos)]

theorem numberFloat_fmtNum {q : ℚ} (hq : 0 < q) (h : Binary64.IsDouble q) : numberFloat (fmtNum (.finite q)) = some q := by
  have hfloat : Number.float (fmtNum (.finite q)) = some (.finite q) := by
    unfold fmtNum
    dsimp only
    split
    · rename_i hden
      have hnum : (q.num.toNat : ℚ) = q := by
        have hn : ((q.num.toNat : ℤ) : ℚ) = q.num := by rw [Int.toNat_of_nonneg (Rat.num_nonneg.mpr hq.le)]
        rw [← Int.cast_natCast, hn]
        exact Rat.den_eq_one_iff q |>.mp hden
      have := float_intText (n := q.num.toNat) (hnum.symm ▸ h)
      rwa [Int.toNat_of_nonneg (Rat.num_nonneg.mpr hq.le), hnum] at this
    · rw [Number.repr, if_neg hq.not_gt]
      exact float_reprPos hq h
  rw [numberFloat, hfloat]

theorem lookup_typeKw (t : CheckType) : typeKeywords.lookup (typeKw t) = some t := by
  cases t <;> decide

theorem contactOnOf_value (c : ContactOn) : contactOnOf c.value = some c := by
  cases c <;> decide

theorem countsFrom_intText {send minp : Option ℤ} (hs : ∀ c, send = some c → 1 ≤ c ∧ Printable c)
    (hm : ∀ c, minp = some c → 1 ≤ c ∧ Printable c) :
    countsFrom (send.map intText) (minp.map intText) (none, none) = orderedCounts send minp := by
  have hcount {o : Option ℤ} (h : ∀ c, o = some c → 1 ≤ c ∧ Printable c) : countFrom (o.map intText) = o := by
    cases o with
    | none => rfl
    | some c => exact countFrom_intText (h c rfl).1 (h c rfl).2
  unfold countsFrom
  rw [hcount hs, hcount hm]
  dsimp only
  cases send with
  | none => cases minp <;> simp [orderedCounts]
  | some s =>
    cases minp with
    | none => simp [orderedCounts]
    | some m => by_cases hlt : s < m <;> simp [orderedCounts, hlt]

/-- The node that is built from the attributes written for one. -/
def reread (n : Node) : Node :=
  let counts := orderedCounts n.sendPings n.minPings
  { n with sendPings := counts.1, minPings := counts.2 }

variable [Python]

/-- Variables are left alone where none is set. -/
theorem expand_nil (t : Text) : (expand [] t).1 = t := by
  fun_induction expand [] t with
  | case1 _ _ _ _ _ _ h => cases h
  | case2 c cs _ _ _ _ ih =>
    change '$' :: c :: cs.takeWhile Python.isWord ++ (expand [] (cs.dropWhile Python.isWord)).1 = _
    rw [ih, List.cons_append, List.cons_append, List.takeWhile_append_dropWhile]
  | case3 c cs _ _ ih => exact congrArg ('$' :: ·) ih
  | case4 c cs _ _ ih => exact congrArg (c :: ·) ih
  | case5 => rfl

/-- A value that is written without a warning, and an integer only if it can be. -/
structure Piece.Clean (v : Piece) : Prop where
  warnings : v.warnings = []
  wellFormed : v.WellFormed
  ints : ∀ z ∈ v.ints, Printable z

theorem Piece.Clean.text_value {v : Piece} (h : v.Clean) : v.value.text = v.meant := by
  cases v with
  | quoted value =>
    have hq : ¬ Unquotable value := fun hq => by simpa [Piece.warnings, hq] using h.warnings
    exact if_neg hq
  | int z => rfl
  | word t => exact text_wordOf h.wellFormed

/-- A line that is written without a warning. -/
def Row.Clean (r : Row) : Prop := ∀ v, r.value = some v → r.notice = [] ∧ v.Clean

/-- A source that a legacy file can set is read back. -/
theorem sourceFrom_self {n : Node} (hn : Legacy.Sticky n) {src : Text} (hsrc : n.source = some src) :
    sourceFrom n.checkType src none = some src := by
  have hparse : (parseSource 0 [] src).val = some src := by
    unfold parseSource
    rcases hn.source src hsrc with rfl | ⟨hspace, hlower, hversion⟩
    · have hascii : strip sourceAuto = sourceAuto ∧ sourceAuto.all (·.toNat < 128) = true ∧
          Text.lower sourceAuto = sourceAuto := by decide
      have hlower : Python.lower (strip sourceAuto) = sourceAuto := by
        rw [hascii.1, Python.lower_ascii _ fun c hc => by simpa using List.all_eq_true.mp hascii.2.1 c hc, hascii.2.2]
      dsimp only
      rw [if_pos hlower]
      rfl
    · have hstrip : strip src = src := stripBy_eq_self hspace
      dsimp only
      rw [hstrip, if_neg hlower, if_pos (by rw [hversion]; rfl)]
      rfl
  have hfits : sourceFamilyOk n.checkType src = true := by
    unfold sourceFamilyOk
    rcases hn.source src hsrc with hauto | ⟨-, -, hversion⟩
    · simp [hauto]
    · simp [hversion]
  rw [sourceFrom, hparse]
  exact if_pos hfits

section Object

variable {seed : ℤ} {p : Placed} (hclean : ∀ r ∈ attrs seed p, r.Clean)

include hclean

theorem clean_of_valueAt {key : Text} {v : Piece} (h : valueAt seed p key = some v) : v.Clean := by
  obtain ⟨r, hr, hv⟩ := Option.bind_eq_some_iff.mp h
  exact (hclean r (List.mem_of_find?_eq_some hr) v hv).2

/-- **The values that are read back.** -/
theorem lookup_written {key : Text} (hk : key ≠ "dep".toList) :
    (resolvedOf [] (written seed p)).lookup key = (valueAt seed p key).map Piece.meant := by
  rw [lookup_resolvedOf _ _ hk, valueIn, find?_written]
  cases hv : valueAt seed p key with
  | none => rfl
  | some v =>
    simp only [Option.map_some, Option.getD_some, expand_nil, (clean_of_valueAt hclean hv).text_value]

theorem deps_written (hparent : ∀ name, p.parent = some name → name ≠ []) :
    (objectDeps [] (written seed p)).val = p.parent.toList := by
  have hrow : valueAt seed p "dep".toList = p.parent.map .quoted := rfl
  unfold objectDeps
  rw [find?_written]
  cases hp : p.parent with
  | none => rw [hrow, hp]; rfl
  | some name =>
    rw [hp] at hrow
    have htext := (clean_of_valueAt hclean hrow).text_value
    rw [hrow]
    simp only [Option.map_some, htext, depNames, Log.val_bind, Log.val_pure, val_subst, expand_nil]
    rw [if_pos ⟨hparent name hp, List.not_mem_nil⟩]
    rfl

/-- A port that is written is a good one. -/
theorem port_written (hw : p.node.port ≠ 0 ∧ some p.node.port ≠ defaultPort p.node.checkType) :
    Printable p.node.port ∧
      (p.node.checkType = .tcp ∨ p.node.checkType = .udp → 1 ≤ p.node.port ∧ p.node.port ≤ 65535) := by
  have hrow := List.mem_of_getElem? (show (attrs seed p)[2]? = some _ from rfl)
  obtain ⟨hnotice, hint⟩ := hclean _ hrow (.int p.node.port) (if_pos hw)
  refine ⟨hint.ints _ (List.mem_singleton_self _), fun ht => ?_⟩
  by_contra hrange
  exact List.cons_ne_nil _ _ ((if_pos ⟨ht, hrange⟩).symm.trans hnotice)

/-- **The fields of the type.** -/
theorem typeFields_written (hfields : Legacy.TypeFields p.node) (kw : Text) :
    (typeFields 0 [] kw (resolvedOf [] (written seed p)) (startNode seed p.node.hostname p.node.checkType)).map Log.val =
      .ok (some { startNode seed p.node.hostname p.node.checkType with
        port := p.node.port, username := p.node.username, password := p.node.password, url := p.node.url,
        urlText := p.node.urlText }) := by
  have hread {key : Text} (hk : key ≠ "dep".toList) := lookup_written hclean hk
  have hwritten := port_written hclean
  obtain ⟨node, name, parent⟩ := p
  dsimp only at hwritten hfields ⊢
  have hport : (resolvedOf [] (written seed ⟨node, name, parent⟩)).lookup "port".toList =
      if node.port ≠ 0 ∧ some node.port ≠ defaultPort node.checkType then some (intText node.port) else none :=
    (hread (by decide)).trans (apply_ite ..)
  have hurl : (resolvedOf [] (written seed ⟨node, name, parent⟩)).lookup "url".toList =
      if hasUrl node.checkType then some node.url else none := (hread (by decide)).trans (apply_ite ..)
  have hurlText : (resolvedOf [] (written seed ⟨node, name, parent⟩)).lookup "urltext".toList =
      if hasUrl node.checkType then node.urlText else none := by
    refine (hread (by decide)).trans ((apply_ite ..).trans ?_)
    cases node.urlText <;> rfl
  have hlogin (key v : Text) (hk : key ≠ "dep".toList) (hv : valueAt seed ⟨node, name, parent⟩ key =
        if hasLogin node.checkType && node.username ≠ [] && node.password ≠ [] then some (.quoted v) else none) :
      (resolvedOf [] (written seed ⟨node, name, parent⟩)).lookup key =
        if hasLogin node.checkType && node.username ≠ [] && node.password ≠ [] then some v else none :=
    (hread hk).trans ((congrArg _ hv).trans (apply_ite ..))
  have huser := hlogin "username".toList node.username (by decide) rfl
  have hpass := hlogin "password".toList node.password (by decide) rfl
  have hquery : (resolvedOf [] (written seed ⟨node, name, parent⟩)).lookup "dns-query".toList =
      if node.checkType = .dns then some node.username else none := (hread (by decide)).trans (apply_ite ..)
  have hcontact : (resolvedOf [] (written seed ⟨node, name, parent⟩)).lookup "contact".toList =
      if node.contact = [] then none else some node.contact := (hread (by decide)).trans (apply_ite ..)
  clear hlogin hread hclean
  generalize resolvedOf [] (written seed ⟨node, name, parent⟩) = r at *
  unfold Legacy.TypeFields at hfields
  unfold typeFields
  cases ht : node.checkType <;> rw [ht] at hport hwritten hfields hurl hurlText huser hpass hquery <;>
    dsimp only [startNode] at hfields ⊢
  case tcp | udp =>
    obtain ⟨hpos, huser', hpass', hurl', htext'⟩ := hfields
    have hw : node.port ≠ 0 ∧ some node.port ≠ none := ⟨by omega, by simp⟩
    obtain ⟨hp, hrange⟩ := hwritten hw
    rw [hport.trans (if_pos hw), port_intText _ _ hpos (hrange (by simp)).2 hp, huser', hpass', hurl', htext']
    rfl
  case http | https =>
    obtain ⟨hstd, hne, huser', hpass'⟩ := hfields
    simp only [hurl, hurlText]
    simp [hasUrl, hne, hstd, huser', hpass', Except.map]
  case pop3 | pop3s | imap | imaps | ftp | ftps =>
    obtain ⟨hstd, hboth, hurl', htext'⟩ := hfields
    simp only [huser, hpass]
    by_cases hu : node.username = []
    · simp [hu, hboth.mp hu, hstd, hurl', htext', Except.map]
    · simp [hu, hboth.not.mp hu, hstd, hurl', htext', Except.map, hasLogin]
  case dns =>
    obtain ⟨hstd, hu, hc, hpass', hurl', htext'⟩ := hfields
    simp only [hquery, hcontact]
    simp [hu, hc, hstd, hpass', hurl', htext', Except.map]
  case ssh | mysql | telnet =>
    obtain ⟨hpos, hle, huser', hpass', hurl', htext'⟩ := hfields
    rw [huser', hpass', hurl', htext', hport]
    by_cases hw : node.port ≠ 0 ∧ some node.port ≠ defaultPort node.checkType
    · rw [ht] at hw
      rw [if_pos hw]
      dsimp only
      rw [port_intText _ _ (by omega) hle (hwritten hw).1]
      rfl
    · have hstd := port_unwritten hpos hw
      rw [ht] at hw hstd
      rw [if_neg hw]
      dsimp only
      rw [hstd]
      rfl
  case ping | ping6 | smtp =>
    obtain ⟨hstd, huser', hpass', hurl', htext'⟩ := hfields
    rw [hport, huser', hpass', hurl', htext', if_neg (by simp [hstd, defaultPort]), hstd]
    rfl

theorem maxDown_written (hw : p.node.maxDown ≠ seed) : maxDownFrom (intText p.node.maxDown) seed = p.node.maxDown := by
  have hrow := List.mem_of_getElem? (show (attrs seed p)[12]? = some _ from rfl)
  obtain ⟨hnotice, hint⟩ := hclean _ hrow (.int p.node.maxDown) (if_pos hw)
  have hpos : ¬ p.node.maxDown < 1 := fun h => List.cons_ne_nil _ _ ((if_pos h).symm.trans hnotice)
  rw [maxDownFrom, numberInt_intText (by omega) (hint.ints _ (List.mem_singleton_self _))]
  exact if_neg hpos

/-- **The fields of every type.** -/
theorem overridden_written (hpos : Legacy.Positional p.node) (hsticky : Legacy.Sticky p.node) :
    overridden (resolvedOf [] (written seed p)) (described (resolvedOf [] (written seed p))
      { startNode seed p.node.hostname p.node.checkType with
        port := p.node.port, username := p.node.username, password := p.node.password, url := p.node.url,
        urlText := p.node.urlText }) = reread p.node := by
  have hread {key : Text} (hk : key ≠ "dep".toList) := lookup_written hclean hk
  have hprintable {key : Text} {z : ℤ} (h : valueAt seed p key = some (.int z)) : Printable z :=
    (clean_of_valueAt hclean h).ints z (List.mem_singleton_self z)
  have hlabel : ((resolvedOf [] (written seed p)).lookup "desc".toList).getD [] = p.node.label := by
    rw [hread (by decide), show valueAt seed p "desc".toList = nonempty p.node.label from rfl, nonempty]
    split
    · exact Eq.symm ‹_›
    · rfl
  have hcontact : ((resolvedOf [] (written seed p)).lookup "contact".toList).getD [] = p.node.contact := by
    rw [hread (by decide), show valueAt seed p "contact".toList = nonempty p.node.contact from rfl, nonempty]
    split
    · exact Eq.symm ‹_›
    · rfl
  have hgroup : ((resolvedOf [] (written seed p)).lookup "group".toList).elim [] strip = p.node.group := by
    rw [hread (by decide), show valueAt seed p "group".toList = nonempty p.node.group from rfl, nonempty,
      if_pos hpos.group, hpos.group]
    rfl
  have hcontactOn : ((resolvedOf [] (written seed p)).lookup "contact_on".toList).elim none (contactOnFrom · none) =
      p.node.contactOn := by
    rw [hread (by decide), show valueAt seed p "contact_on".toList = p.node.contactOn.map (.quoted ·.value) from rfl]
    cases p.node.contactOn with
    | none => rfl
    | some c => exact (congrArg (Option.or · none) (contactOnOf_value c)).trans (Option.or_none)
  have hfail : ((resolvedOf [] (written seed p)).lookup "numfailures".toList).elim seed (maxDownFrom · seed) =
      p.node.maxDown := by
    rw [hread (by decide), show valueAt seed p "numfailures".toList =
      if p.node.maxDown ≠ seed then some (.int p.node.maxDown) else none from rfl]
    split
    · exact maxDown_written hclean ‹_›
    · exact Eq.symm (not_not.mp ‹_›)
  have hqueue : ((resolvedOf [] (written seed p)).lookup "queuetime".toList).elim none (intervalFrom · none) =
      p.node.interval := by
    rw [hread (by decide), show valueAt seed p "queuetime".toList =
      p.node.interval.map (fun q => .word (fmtNum (.finite q))) from rfl]
    cases hi : p.node.interval with
    | none => rfl
    | some q =>
      obtain ⟨hq, hdouble⟩ := hsticky.interval q hi
      change intervalFrom (fmtNum (.finite q)) none = some q
      rw [intervalFrom, numberFloat_fmtNum hq hdouble]
      exact if_neg hq.not_ge
  have hsource : ((resolvedOf [] (written seed p)).lookup "source".toList).elim none
      (sourceFrom p.node.checkType · none) = p.node.source := by
    rw [hread (by decide), show valueAt seed p "source".toList = p.node.source.map .quoted from rfl]
    cases hs : p.node.source with
    | none => rfl
    | some src => exact sourceFrom_self hsticky hs
  have hcounts : countsFrom ((resolvedOf [] (written seed p)).lookup "send_pings".toList)
      ((resolvedOf [] (written seed p)).lookup "min_pings".toList) (none, none) =
        orderedCounts p.node.sendPings p.node.minPings := by
    have hsend : valueAt seed p "send_pings".toList = p.node.sendPings.map .int := rfl
    have hmin : valueAt seed p "min_pings".toList = p.node.minPings.map .int := rfl
    rw [hread (by decide), hread (by decide), hsend, hmin, Option.map_map, Option.map_map]
    refine countsFrom_intText (fun c hc => ⟨hsticky.sendPings c hc, hprintable (hsend.trans ?_)⟩)
      fun c hc => ⟨hsticky.minPings c hc, hprintable (hmin.trans ?_)⟩
    · rw [hc]; rfl
    · rw [hc]; rfl
  unfold overridden described reread startNode
  dsimp only
  rw [hlabel, hcontact, hgroup, hcontactOn, hfail, hqueue, hsource, hcounts]

/-- **The object.** -/
theorem buildNode_written (hpos : Legacy.Positional p.node) (hsticky : Legacy.Sticky p.node)
    (hparent : ∀ name, p.parent = some name → name ≠ []) :
    (buildNode seed [] 0 p.name (written seed p)).map Log.val = .ok (some (reread p.node, p.parent.toList)) := by
  have hread {key : Text} (hk : key ≠ "dep".toList) := lookup_written hclean hk
  have hhost : hostOf (resolvedOf [] (written seed p)) = p.node.hostname := by
    rw [hostOf, hread (by decide)]
    exact if_pos hpos.hostname
  have htype : (resolvedOf [] (written seed p)).lookup "type".toList = some (typeKw p.node.checkType) := hread (by decide)
  have hcomp {α β : Type} (x : Except Failure (Log α)) (g : α → β) :
      x.map (fun l => g l.val) = (x.map Log.val).map g := by
    cases x <;> rfl
  rw [val_buildNode, hhost, if_neg hpos.hostname, typeOf, htype, Option.bind_some, lookup_typeKw]
  dsimp only
  rw [hcomp _ (Option.map _), Option.getD_some, typeFields_written hclean hpos.fields]
  simp only [Except.map, Option.map_some, overridden_written hclean hpos hsticky, deps_written hclean hparent]

end Object

end Psysmon.Convert
