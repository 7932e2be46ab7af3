import Psysmon.Config.Detect
import Psysmon.Config.Grammar

/-!
# Psysmon.Config.Recognise — which modern files `detect` recognises

`detect` reads lines, not statements.  For a printed file it comes down to what the statements say one after the
other (`Stmt.opens`): an object, a `set` or a `root` says modern, a `group` block says legacy, and a comment or a
`config` statement says nothing, unless one of Python's other line boundaries (a form feed, say) stands inside it.

* `findSome_detectLine`: the lines of one printed statement.
* `detect_printAll`: the first statement that says something decides.
-/

namespace Psysmon.Modern

open Lib Text

/-! ### One line -/

/-- What `detect` makes of a line, by its first field. -/
theorem detectLine_field {c : Char} {w : Text} (hw : IsField (c :: w)) (hc : c ≠ ';' ∧ c ≠ '#') (t : Text) :
    detectLine (c :: w ++ ' ' :: t) = if c :: w = "config".toList then none
      else if isModernLine (c :: w ++ ' ' :: t) (c :: w) then some .modern else some .legacy := by
  obtain ⟨cs, hstrip, hsplit⟩ := strip_cons (hw.2 c (by simp)) (w ++ ' ' :: t)
  rw [hstrip] at hsplit
  have hfirst : (split (c :: cs)).headD [] = c :: w := by
    rw [hsplit, ← List.cons_append, split_word hw, List.headD_cons]
  have hmodern : isModernLine (c :: cs) (c :: w) = isModernLine (c :: w ++ ' ' :: t) (c :: w) := by
    unfold isModernLine
    rw [hsplit]
    rfl
  unfold detectLine
  rw [List.cons_append, hstrip]
  dsimp only
  rw [if_neg (by simpa using hc), hfirst, hmodern]
  rfl

theorem detectLine_config (t : Text) : detectLine ("config ".toList ++ t) = none :=
  (detectLine_field (by decide : IsField "config".toList) (by decide) t).trans (if_pos rfl)

theorem detectLine_group (t : Text) : detectLine ("group ".toList ++ t) = some .legacy :=
  (detectLine_field (by decide : IsField "group".toList) (by decide) t).trans rfl

/-- `object NAME \x7b`. -/
theorem detectLine_object {name : Text} (hn : IsField name) :
    detectLine ("object ".toList ++ (name ++ " \x7b".toList)) = some .modern := by
  have hw : IsField "object".toList := by decide
  have hb : IsField ['\x7b'] := by decide
  have hmodern : isModernLine ("object".toList ++ ' ' :: (name ++ ' ' :: ['\x7b'])) "object".toList = true := by
    rw [isModernLine, if_pos]
    rw [split_word hw, split_word hn, split_field hb]
    exact ⟨rfl, Nat.le_refl 3, rfl⟩
  refine (detectLine_field hw (by decide) (name ++ ' ' :: ['\x7b'])).trans ?_
  rw [if_neg (by decide)]
  exact if_pos hmodern

/-- A `set` or `root` line with a standalone `=`. -/
theorem detectLine_assignment {w : Text} (hw : w = "set".toList ∨ w = "root".toList) {t : Text}
    (ht : "=".toList ∈ split t) : detectLine (w ++ ' ' :: t) = some .modern := by
  have hfield : IsField w := by rcases hw with rfl | rfl <;> decide
  have hmodern : isModernLine (w ++ ' ' :: t) w = true := by
    have hobject : w ≠ "object".toList := by rcases hw with rfl | rfl <;> decide
    rw [isModernLine, split_word hfield, if_neg fun h => hobject h.1,
      if_pos ⟨hw.symm, List.mem_cons_of_mem _ ht⟩]
  rcases hw with rfl | rfl
  · exact (detectLine_field hfield (by decide) t).trans (if_pos hmodern)
  · exact (detectLine_field hfield (by decide) t).trans (if_pos hmodern)

theorem detectLine_comment {c : Char} (hc : c = ';' ∨ c = '#') (t : Text) : detectLine (c :: t) = none := by
  have hs : isSpace c = false := by rcases hc with rfl | rfl <;> decide
  obtain ⟨cs, hstrip, -⟩ := strip_cons hs t
  unfold detectLine
  rw [hstrip]
  exact if_pos hc

/-! ### One statement -/

/-- What a statement says about the format.  The lines of a comment or a `config` statement after the first are what
stands behind another line boundary than a newline. -/
def Stmt.opens : Stmt → Option ConfigFormat
  | .set _ _ _ | .root _ _ | .object _ _ _ => some .modern
  | .group _ _ _ => some .legacy
  | s => (splitlines s.print).tail.findSome? detectLine

/-- A text whose first line is judged by how it starts. -/
theorem findSome_splitlines {l rest : Text} (hne : l ≠ []) (hl : OneLine l) {f : Option ConfigFormat}
    (h : ∀ t, detectLine (l ++ t) = f) :
    (splitlines (l ++ rest)).findSome? detectLine =
      f.or ((splitlines (l ++ rest)).tail.findSome? detectLine) := by
  obtain ⟨l', ls, hs⟩ := splitlines_append hne hl rest
  rw [hs, List.findSome?_cons, h, List.tail_cons]
  cases f <;> rfl

theorem findSome_splitlines_some {l : Text} (hne : l ≠ []) (hl : OneLine l) {f : ConfigFormat}
    (h : ∀ t, detectLine (l ++ t) = some f) (rest : Text) :
    (splitlines (l ++ rest)).findSome? detectLine = some f :=
  findSome_splitlines hne hl h

/-- The lines of a printed statement. -/
theorem findSome_detectLine (s : Stmt) : (splitlines s.print).findSome? detectLine = s.opens := by
  cases s with
  | blank => rfl
  | comment semi note =>
    have hc : (if semi then ';' else '#') = ';' ∨ (if semi then ';' else '#') = '#' := by cases semi <;> decide
    have hl : OneLine [if semi then ';' else '#'] := by cases semi <;> decide
    exact findSome_splitlines (List.cons_ne_nil _ _) hl (detectLine_comment hc)
  | config name values note =>
    have hprint : (Stmt.config name values note).print =
        "config ".toList ++ (printRow (.value (.word name) :: values.map .value) ++ ';' :: printEnd note) := by
      rw [Stmt.print, configRow, printRow_cons]
      rfl
    change _ = (splitlines (Stmt.config name values note).print).tail.findSome? detectLine
    rw [hprint]
    exact findSome_splitlines (by decide) (by decide) detectLine_config
  | set name value note =>
    have hname := name.isWord.isField
    have hprint : (Stmt.set name value note).print =
        ("set ".toList ++ (name.text ++ " = ".toList)) ++ (value.print ++ ';' :: printEnd note) := by
      rw [Stmt.print, setRow, printRow_cons, printRow_cons, printRow_cons, printRow_singleton]
      simp [Lexeme.print, Value.print]
    have hl : OneLine ("set ".toList ++ (name.text ++ " = ".toList)) :=
      .append (by decide) (hname.oneLine.append (by decide))
    rw [hprint]
    refine findSome_splitlines_some (by simp) hl (fun t => ?_) _
    have hmem : "=".toList ∈ split (name.text ++ ' ' :: ("=".toList ++ ' ' :: t)) := by
      rw [split_word hname, split_word (by decide : IsField "=".toList)]
      exact List.mem_cons_of_mem _ List.mem_cons_self
    simpa using detectLine_assignment (.inl rfl) hmem
  | root value note =>
    have hprint : (Stmt.root value note).print = "root = ".toList ++ (value.print ++ ';' :: printEnd note) := by
      rw [Stmt.print, rootRow, printRow_cons, printRow_cons, printRow_singleton]
      rfl
    rw [hprint]
    refine findSome_splitlines_some (by decide) (by decide) (fun t => ?_) _
    have hmem : "=".toList ∈ split ("=".toList ++ ' ' :: t) := by
      rw [split_word (by decide : IsField "=".toList)]
      exact List.mem_cons_self
    exact detectLine_assignment (.inr rfl) hmem
  | group name body semi =>
    obtain ⟨rest, hrest⟩ : ∃ rest, (Stmt.group name body semi).print = "group ".toList ++ rest := by
      rw [Stmt.print, printBlock, groupRow, printRow_cons]
      exact ⟨_, rfl⟩
    rw [hrest]
    exact findSome_splitlines_some (by decide) (by decide) detectLine_group rest
  | object name body semi =>
    have hname := name.isWord.isField
    obtain ⟨rest, hrest⟩ : ∃ rest, (Stmt.object name body semi).print =
        "object ".toList ++ (name.text ++ " \x7b".toList) ++ '\n' :: rest := by
      rw [Stmt.print, printBlock, objectRow, printRow_cons, printRow_singleton]
      exact ⟨body.flatMap Item.print ++ (if semi then "\x7d;\n" else "\x7d\n").toList,
        by simp [Lexeme.print, Value.print]⟩
    have hl : OneLine ("object ".toList ++ (name.text ++ " \x7b".toList)) :=
      .append (by decide) (hname.oneLine.append (by decide))
    rw [hrest, splitlines_line hl, List.findSome?_cons, detectLine_object hname]
    rfl

/-! ### The file -/

theorem findSome_printAll (ss : List Stmt) :
    (splitlines (printAll ss)).findSome? detectLine = ss.findSome? Stmt.opens := by
  induction ss with
  | nil => rfl
  | cons s ss ih =>
    obtain ⟨t, ht⟩ : ∃ t, s.print = t ++ ['\n'] := s.print_eq_concat
    rw [printAll, List.flatMap_cons, ht, List.append_assoc, List.singleton_append, splitlines_newline,
      List.findSome?_append, ← ht, findSome_detectLine, List.findSome?_cons, ← printAll, ih]
    cases s.opens <;> rfl

/-- A printed file is recognised as modern if and only if the first of its statements that says anything is an object,
a `set` or a `root`, and not a `group` block. -/
theorem detect_printAll (ss : List Stmt) :
    detect (printAll ss) = .modern ↔ ss.findSome? Stmt.opens = some .modern := by
  rw [detect, findSome_printAll]
  cases ss.findSome? Stmt.opens with
  | none => simp
  | some f => simp

/-- A group block before its only member. -/
def groupFirst : List Stmt :=
  let word (w : Text) (h : IsWord w) : Word := ⟨w, h⟩
  [.group (.word (word "dmz".toList (by decide)))
      [.attr (word "contact".toList (by decide)) false (.word (word "noc".toList (by decide))) none] true,
    .object (word "mail".toList (by decide))
      [.attr (word "host".toList (by decide)) false (.word (word "192.0.2.2".toList (by decide))) none,
        .attr (word "type".toList (by decide)) false (.word (word "smtp".toList (by decide))) none,
        .attr (word "group".toList isWord_group) false (.word (word "dmz".toList (by decide))) none] true]

/-- The modern parser reads the file without a warning, and `detect` does not send it there. -/
theorem detect_groupFirst : detect (printAll groupFirst) = .legacy ∧
    ((@parse Python.ascii (printAll groupFirst) 2).toOption.map fun r =>
      (r.roots.objs.map (·.1.contact), r.warnings)) = some (["noc".toList], []) := by
  constructor <;> decide +kernel

end Psysmon.Modern
