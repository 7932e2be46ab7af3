import Psysmon.Lib.Text

/-!
# Psysmon.Lib.Path — file paths and the names of temporary files (`posixpath`, `tempfile`)

`basename`, `dirname` and `join` are those of Python.  `tempName path r` is the name that
`mkstemp(dir=dirname(path) or ".", prefix=basename(path) + ".", suffix=".tmp")` makes of the random characters `r`, and
`isTemp path` recognises these names.

* `basename_join`: the last component of a joined path.
* `basename_of_isTemp`: a temporary file of `path` lies beside it, under a longer name.
-/

namespace Psysmon.Lib

/-- `os.path.basename`. -/
def basename (p : Text) : Text := (p.reverse.takeWhile (· ≠ '/')).reverse

/-- `os.path.dirname`. -/
def dirname (p : Text) : Text :=
  let head := (p.reverse.dropWhile (· ≠ '/')).reverse
  if head.all (· = '/') then head else (head.reverse.dropWhile (· = '/')).reverse

/-- `os.path.join`, of two parts. -/
def join (a b : Text) : Text :=
  if b.head? = some '/' then b
  else if a = [] ∨ a.getLast? = some '/' then a ++ b
  else a ++ '/' :: b

/-- `os.path.dirname(path) or "."`. -/
def directory (p : Text) : Text := if dirname p = [] then ['.'] else dirname p

/-- The characters that `tempfile` draws from. -/
def randomChar (c : Char) : Bool := c.isLower || c.isDigit || c = '_'

/-- The temporary file beside `path` with the random characters `r`. -/
def tempName (path r : Text) : Text := join (directory path) (basename path ++ '.' :: r ++ ".tmp".toList)

/-- The names that `mkstemp` can give to a temporary file of `path`. -/
def isTemp (path n : Text) : Bool :=
  let r := ((n.reverse.drop 4).take 8).reverse
  r.length = 8 ∧ r.all randomChar = true ∧ n = tempName path r

theorem directory_ne_nil (p : Text) : directory p ≠ [] := by
  unfold directory
  split
  · exact List.cons_ne_nil '.' []
  · assumption

theorem slash_not_mem_basename (p : Text) : '/' ∉ basename p := by
  intro h
  simpa using List.mem_takeWhile_imp (List.mem_reverse.mp h)

theorem basename_append_slash (a : Text) {b : Text} (hb : '/' ∉ b) : basename (a ++ '/' :: b) = b := by
  have hall : ∀ c ∈ b.reverse, decide (c ≠ '/') = true := fun c hc =>
    decide_eq_true fun h => hb (h ▸ List.mem_reverse.mp hc)
  rw [basename, List.reverse_append, List.reverse_cons, List.append_assoc, List.takeWhile_append_of_pos hall]
  simp

/-- The last component of a joined path. -/
theorem basename_join {a b : Text} (ha : a ≠ []) (hb : '/' ∉ b) : basename (join a b) = b := by
  have hhead : b.head? ≠ some '/' := fun h => hb (List.mem_of_mem_head? h)
  rw [join, if_neg hhead]
  split
  · rename_i h
    obtain ⟨a', rfl⟩ := List.getLast?_eq_some_iff.mp (h.resolve_left ha)
    rw [List.append_assoc]
    exact basename_append_slash a' hb
  · exact basename_append_slash a hb

/-- A temporary file of `path` has the name of `path` with thirteen characters more, of which the last is a `p`. -/
theorem basename_of_isTemp {path n : Text} (h : isTemp path n = true) :
    (basename n).length = (basename path).length + 13 ∧ (basename n).getLast? = some 'p' := by
  obtain ⟨hlen, hrandom, heq⟩ := of_decide_eq_true h
  generalize ((n.reverse.drop 4).take 8).reverse = r at hlen hrandom heq
  have hslash : '/' ∉ basename path ++ '.' :: r ++ ".tmp".toList := by
    have hr : '/' ∉ r := fun h => absurd (List.all_eq_true.mp hrandom _ h) (by decide)
    simp [slash_not_mem_basename, hr]
  rw [heq, tempName, basename_join (directory_ne_nil path) hslash]
  constructor
  · simp only [List.length_append, List.length_cons, hlen]
    rfl
  · exact List.getLast?_append_of_ne_nil _ (List.cons_ne_nil _ _)

theorem isTemp_self (path : Text) : isTemp path path = false := by
  by_contra h
  have := (basename_of_isTemp (Bool.not_eq_false _ ▸ h)).1
  omega

end Psysmon.Lib
