import Psysmon.Config.LegacyDefaults

/-!
# Psysmon.Config.LegacyFlat — nested blocks, read line by line

`_Parser.parse_block` calls itself at every `\x7b`, also for blocks whose content it throws away (`loop`).  What comes out
is a flat reading of the file: the lines that opened the blocks around a line (`openBlocks`) say whether it is kept and
what its parent is, and the `config` lines before it what its defaults are.

* `parseBlock_eq_loop`: the recursion and the explicit stack agree.
* `step_kept`, `run_kept`: the invariant of the reading (`Reading`), over one line and over the file.
* `parse_flat`: the whole file.
-/

namespace Psysmon.Legacy

open Lib Text Number

/-! ### Braces -/

/-- A line whose first token is a `\x7d`. -/
def closesBlock (raw : Text) : Bool := (split raw).head? = some "\x7d".toList

/-- A line, neither blank nor a comment nor a `\x7d`, whose last token is a `\x7b`. -/
def opensBlock (raw : Text) : Bool :=
  match split raw with
  | [] => false
  | first :: rest =>
    !decide (first.head? = some ';' ∨ first.head? = some '#') && !decide (first = "\x7d".toList) &&
      decide ((first :: rest).getLast? = some "\x7b".toList)

/-- The blocks open after one more line, by the lines that opened them. -/
def openStep (blocks : List (Text × ℕ)) (l : Text × ℕ) : List (Text × ℕ) :=
  if closesBlock l.1 then blocks.tail else if opensBlock l.1 then l :: blocks else blocks

/-- The blocks open after these lines, the innermost first. -/
def openBlocks (before : List (Text × ℕ)) : List (Text × ℕ) := before.foldl openStep []

theorem openBlocks_concat (before : List (Text × ℕ)) (l : Text × ℕ) :
    openBlocks (before ++ [l]) = openStep (openBlocks before) l := by
  simp [openBlocks]

/-! ### Numbers of nodes in a half-read forest -/

/-- The number of the node whose block is innermost. -/
def topNumber : List Outer → Option ℕ
  | [] => none
  | (_, before) :: outer => some (closeAll outer before).size

/-- The number of the first node of the innermost block. -/
def baseNumber : List Outer → ℕ
  | [] => 0
  | (_, before) :: outer => (closeAll outer before).size + 1

theorem size_append (s t : Siblings) : (s.append t).size = s.size + t.size := by
  rw [← Siblings.length_nodes, Siblings.nodes_append, List.length_append, Siblings.length_nodes, Siblings.length_nodes]

theorem size_closeAll {outer : List Outer} (h : (keeps outer).all id = true) (cur : Siblings) :
    (closeAll outer cur).size = baseNumber outer + cur.size := by
  induction outer generalizing cur with
  | nil => exact (Nat.zero_add _).symm
  | cons o outer ih =>
    obtain ⟨node, before⟩ := o
    cases node with
    | none => cases h
    | some n =>
      have hsize := ih h
      rw [closeAll, hsize, baseNumber, hsize, closeBlock, size_append]
      simp only [Siblings.size]
      omega

/-- Nodes at the end of the innermost block come last in the forest, with the parent of that block. -/
theorem parents_closeAll {outer : List Outer} (h : (keeps outer).all id = true) {cur cur' : Siblings}
    {more : List (Node × Option ℕ)} (hcur : cur'.parents (topNumber outer) (baseNumber outer) =
      cur.parents (topNumber outer) (baseNumber outer) ++ more) :
    (closeAll outer cur').parents none 0 = (closeAll outer cur).parents none 0 ++ more := by
  induction outer generalizing cur cur' with
  | nil => exact hcur
  | cons o outer ih =>
    obtain ⟨node, before⟩ := o
    cases node with
    | none => cases h
    | some n =>
      have hk : (keeps outer).all id = true := h
      refine ih hk ?_
      rw [topNumber, baseNumber, size_closeAll hk] at hcur
      simp only [closeBlock, Siblings.parents_append, Siblings.parents, hcur, List.append_nil, List.append_assoc,
        List.cons_append]

/-- What stands in a discarded block does not matter. -/
theorem closeAll_of_discarded {outer : List Outer} (h : (keeps outer).all id = false) (cur cur' : Siblings) :
    closeAll outer cur' = closeAll outer cur := by
  induction outer generalizing cur cur' with
  | nil => cases h
  | cons o outer ih =>
    obtain ⟨node, before⟩ := o
    cases node with
    | none => rfl
    | some n => exact ih h _ _

/-- More lines do not change the ones that were found. -/
theorem map_getElem?_append {lines m : List ℕ} {p inner : Option ℕ} (h : p.map (lines[·]?) = inner.map some) :
    p.map ((lines ++ m)[·]?) = inner.map some := by
  cases p with
  | none => exact h
  | some q =>
    cases inner with
    | none => cases h
    | some line =>
      have hq : lines[q]? = some line := Option.some.inj h
      rw [Option.map_some, List.getElem?_append_left (List.getElem?_eq_some_iff.mp hq).1, hq]
      rfl

/-- A line is found by its number. -/
theorem split_unique {lines xs ys xs' ys' : List (Text × ℕ)} {l l' : Text × ℕ} (hn : (lines.map Prod.snd).Nodup)
    (h : lines = xs ++ l :: ys) (h' : lines = xs' ++ l' :: ys') (hl : l.2 = l'.2) : xs = xs' ∧ l = l' := by
  have hget : (lines.map Prod.snd)[xs.length]? = some l.2 := by rw [h]; simp
  have hget' : (lines.map Prod.snd)[xs'.length]? = some l'.2 := by rw [h']; simp
  have hlen : xs.length = xs'.length := by
    refine (List.getElem?_inj (List.getElem?_eq_some_iff.mp hget).1 hn).mp ?_
    rw [hget, hget', hl]
  obtain ⟨hxs, hrest⟩ := List.append_inj (h.symm.trans h') hlen
  exact ⟨hxs, (List.cons.inj hrest).1⟩

/-- The node of an accepted stanza. -/
def Action.accepted : Action → Option Node
  | .stanza node _ => node
  | _ => none

theorem closeAll_blockStep {line : ℕ} {outer : List Outer} {cur : Siblings} {p : Action × State}
    {b : List Outer × Siblings × State} (h : blockStep line outer cur p = .ok b) :
    closeAll b.1 b.2.1 = closeAll outer (addNode cur p.1.accepted) := by
  obtain ⟨a, st⟩ := p
  rcases a with _ | _ | ⟨node, _ | _⟩
  · cases h
    rfl
  · cases outer <;> cases h <;> rfl
  · cases h
    rfl
  · dsimp only [blockStep] at h
    split at h
    · cases h
    cases node with
    | none => cases h; rfl
    | some n =>
      dsimp only at h
      split at h <;> cases h <;> rfl

/-- An accepted stanza in blocks that are kept is the last node; in discarded ones it is lost. -/
theorem parents_addNode (outer : List Outer) (cur : Siblings) (node : Option Node) :
    (closeAll outer (addNode cur node)).parents none 0 = (closeAll outer cur).parents none 0 ++
      (node.toList.filter fun _ => (keeps outer).all id).map (·, topNumber outer) := by
  cases node with
  | none => exact (List.append_nil _).symm
  | some n =>
    cases hk : (keeps outer).all id with
    | false =>
      rw [closeAll_of_discarded hk cur]
      simp
    | true =>
      refine parents_closeAll hk ?_
      simp [addNode, Siblings.parents_append, Siblings.parents]

/-- The state after the braces of a line has the same defaults. -/
theorem defaults_state (a : Action) (line : ℕ) (blocks : List Bool) (st : State) :
    (a.state line blocks st).defaults = st.defaults := by
  rcases a with _ | _ | ⟨_ | n, _ | _⟩
  case stanza.some.true => exact ite_defaults (fun _ => rfl) fun _ => rfl
  case close => cases blocks <;> rfl
  all_goals rfl

/-- Only a block too many is an error. -/
theorem blockStep_error_iff {line : ℕ} {outer : List Outer} {cur : Siblings} {p : Action × State} :
    (∃ e, blockStep line outer cur p = .error e) ↔
      (∃ node, p.1 = .stanza node true) ∧ maxNestingDepth < outer.length + 1 := by
  obtain ⟨a, st⟩ := p
  rcases a with _ | _ | ⟨node, _ | _⟩
  · simp [blockStep]
  · cases outer <;> simp [blockStep]
  · simp [blockStep]
  · dsimp only [blockStep]
    by_cases hdeep : maxNestingDepth < outer.length + 1
    · rw [if_pos hdeep]
      exact ⟨fun _ => ⟨⟨node, rfl⟩, hdeep⟩, fun _ => ⟨_, rfl⟩⟩
    · rw [if_neg hdeep]
      cases node with
      | none => simp [hdeep]
      | some n =>
        dsimp only
        split <;> simp [hdeep]

variable [Python]

theorem lineAction_cases (raw : Text) :
    (lineAction raw = .skip ∧ closesBlock raw = false ∧ opensBlock raw = false) ∨
      (lineAction raw = .close ∧ closesBlock raw = true) ∨
      ∃ node, lineAction raw = .stanza node (opensBlock raw) ∧ closesBlock raw = false := by
  unfold lineAction parseLine closesBlock opensBlock
  cases split raw with
  | nil => exact .inl ⟨rfl, rfl, rfl⟩
  | cons first rest =>
    dsimp only [List.head?_cons]
    by_cases hcomment : first.head? = some ';' ∨ first.head? = some '#'
    · refine .inl ⟨by rw [if_pos hcomment], decide_eq_false fun h => ?_, by rw [decide_eq_true hcomment]; rfl⟩
      rw [Option.some.inj h] at hcomment
      exact absurd hcomment (by decide)
    by_cases hclose : first = "\x7d".toList
    · refine .inr (.inl ⟨by rw [if_neg hcomment, if_pos hclose], decide_eq_true (congrArg some hclose)⟩)
    refine .inr (.inr ?_)
    rw [if_neg hcomment, if_neg hclose, decide_eq_false hcomment, decide_eq_false hclose]
    have hbrace : some first ≠ some "\x7d".toList := fun h => hclose (Option.some.inj h)
    split
    · exact ⟨_, rfl, decide_eq_false hbrace⟩
    split
    · exact ⟨_, rfl, decide_eq_false hbrace⟩
    split <;> exact ⟨_, rfl, decide_eq_false hbrace⟩

/-! ### The recursion -/

/-- The loop of `parse_block` at nesting level `depth`: the siblings it returns, and the lines that are left.  A bound of
as many rounds as there are lines is never reached. -/
def loop : ℕ → ℕ → Siblings → List (Text × ℕ) → State → Except ParseError (Siblings × List (Text × ℕ) × State)
  | _, _, siblings, [], st => .ok (siblings, [], st)
  | 0, _, siblings, lines, st => .ok (siblings, lines, st)
  | fuel + 1, depth, siblings, (raw, line) :: rest, st =>
    match parseLine line raw st with
    | (.skip, st) => loop fuel depth siblings rest st
    | (.close, st) =>
      if 0 < depth then .ok (siblings, rest, st)
      else loop fuel depth siblings rest (st.warn line "unexpected '\x7d' at top level; ignoring".toList)
    | (.stanza node false, st) => loop fuel depth (addNode siblings node) rest st
    | (.stanza node true, st) =>
      -- the check at the start of the inner call
      if maxNestingDepth < depth + 1 then
        .error ⟨"configuration nesting exceeds the maximum depth of ".toList ++ natText maxNestingDepth⟩
      else match node with
        | none => do
          let r ← loop fuel (depth + 1) .nil rest st
          loop fuel depth siblings r.2.1 r.2.2
        | some n =>
          if pingLike n.checkType then do
            let r ← loop fuel (depth + 1) .nil rest st
            loop fuel depth (siblings.append (.cons n r.1 .nil)) r.2.1 r.2.2
          else do
            let r ← loop fuel (depth + 1) .nil rest
              (st.warn line (n.checkType.value ++ " cannot have children; ignoring block".toList))
            loop fuel depth (addNode siblings node) r.2.1 r.2.2

/-- `parse`, with the recursion of `parse_block`. -/
def parseNested (text : Text) (numfailures : ℤ) : Except ParseError (ParseResult Siblings) :=
  let lines := (splitlines text).zipIdx 1
  (loop lines.length 0 .nil lines { numfailures }).map fun r =>
    { roots := r.1, overrides := r.2.2.overrides, warnings := r.2.2.warnings }

/-- What the callers of `parse_block` do with its result. -/
def resume : List Outer → Siblings × List (Text × ℕ) × State → Except ParseError (Siblings × State)
  | [], r => .ok (r.1, r.2.2)
  | o :: outer, r => parseBlock r.2.1 outer (closeBlock o r.1) r.2.2

theorem length_loop {fuel depth : ℕ} {siblings : Siblings} {lines : List (Text × ℕ)} {st : State}
    {r : Siblings × List (Text × ℕ) × State} (h : loop fuel depth siblings lines st = .ok r) :
    r.2.1.length ≤ lines.length := by
  induction fuel generalizing depth siblings lines st r with
  | zero =>
    cases lines <;> cases h <;> exact le_rfl
  | succ fuel ih =>
    cases lines with
    | nil => cases h; exact le_rfl
    | cons x rest =>
      obtain ⟨raw, line⟩ := x
      -- an inner block leaves a rest, and the loop goes on from there
      have hinner {inner : Except ParseError (Siblings × List (Text × ℕ) × State)}
          {next : Siblings × List (Text × ℕ) × State → Siblings} (hin : ∀ r₁, inner = .ok r₁ → r₁.2.1.length ≤ rest.length)
          (h : (inner >>= fun r₁ => loop fuel depth (next r₁) r₁.2.1 r₁.2.2) = .ok r) :
          r.2.1.length ≤ ((raw, line) :: rest).length := by
        cases hr : inner with
        | error e => rw [hr] at h; cases h
        | ok r₁ =>
          rw [hr] at h
          exact (ih h).trans ((hin r₁ hr).trans (Nat.le_succ _))
      rw [loop] at h
      generalize parseLine line raw st = p at h
      obtain ⟨a, st'⟩ := p
      rcases a with _ | _ | ⟨node, _ | _⟩
      · exact (ih h).trans (Nat.le_succ _)
      · dsimp only at h
        split at h
        · cases h
          exact Nat.le_succ _
        · exact (ih h).trans (Nat.le_succ _)
      · exact (ih h).trans (Nat.le_succ _)
      · dsimp only at h
        split at h
        · cases h
        cases node with
        | none => exact hinner (fun _ hr => ih hr) h
        | some n =>
          dsimp only at h
          split at h
          · exact hinner (fun _ hr => ih hr) h
          · exact hinner (fun _ hr => ih hr) h

/-- **The recursion and the explicit stack agree.** -/
theorem parseBlock_eq_loop (fuel : ℕ) {lines : List (Text × ℕ)} (hfuel : lines.length ≤ fuel) (outer : List Outer)
    (cur : Siblings) (st : State) :
    parseBlock lines outer cur st = (loop fuel outer.length cur lines st).bind (resume outer) := by
  induction fuel generalizing lines outer cur st with
  | zero =>
    obtain rfl := List.length_eq_zero_iff.mp (Nat.le_zero.mp hfuel)
    cases outer <;> rfl
  | succ fuel ih =>
    cases lines with
    | nil => cases outer <;> rfl
    | cons x rest =>
      obtain ⟨raw, line⟩ := x
      have hrest : rest.length ≤ fuel := Nat.le_of_succ_le_succ hfuel
      rw [parseBlock_cons, loop]
      generalize parseLine line raw st = p
      obtain ⟨a, st'⟩ := p
      -- the inner call returns, and the loop goes on with what it has left
      have hinner (o : Outer) (st' : State) (next : Siblings × List (Text × ℕ) × State → Siblings)
          (hnext : ∀ r, next r = closeBlock o r.1) : parseBlock rest (o :: outer) .nil st' =
            (loop fuel (outer.length + 1) .nil rest st' >>=
              fun r => loop fuel outer.length (next r) r.2.1 r.2.2).bind (resume outer) := by
        rw [ih hrest, List.length_cons]
        cases hr : loop fuel (outer.length + 1) .nil rest st' with
        | error e => rfl
        | ok r =>
          have hlen : r.2.1.length ≤ fuel := (length_loop hr).trans hrest
          change parseBlock r.2.1 outer (closeBlock o r.1) r.2.2 = (loop fuel outer.length (next r) r.2.1 r.2.2).bind _
          rw [ih hlen, hnext]
      rcases a with _ | _ | ⟨node, _ | _⟩
      · exact ih hrest outer cur st'
      · cases outer with
        | nil => exact ih hrest [] cur _
        | cons o outer => rfl
      · exact ih hrest outer (addNode cur node) st'
      · dsimp only [blockStep]
        split
        · rfl
        cases node with
        | none => exact hinner (none, cur) st' _ fun _ => rfl
        | some n =>
          dsimp only
          split
          · exact hinner (some n, cur) st' _ fun _ => rfl
          · exact hinner (none, addNode cur (some n)) _ _ fun _ => rfl

/-! ### The flat reading -/

/-- The node of an accepted host line, with blank defaults. -/
def hostNode (raw : Text) : Option Node := (lineAction raw).accepted

/-- An accepted `ping`, `ping6` or `smtp` line. -/
def holdsChildren (raw : Text) : Bool := (hostNode raw).any (pingLike ·.checkType)

/-- A line that is kept: its number, its node, and the line that opened the innermost block around it. -/
structure Kept where
  line : ℕ
  node : Node
  inner : Option ℕ

/-- What is kept of a line, after these lines. -/
def keptAt (z : ℤ) (before : List (Text × ℕ)) (l : Text × ℕ) : Option Kept :=
  if (openBlocks before).all (holdsChildren ·.1) then
    (hostNode l.1).map fun n => ⟨l.2, (defaultsAt z before).stamp n, (openBlocks before).head?.map Prod.snd⟩
  else none

def keptFrom (z : ℤ) (before : List (Text × ℕ)) : List (Text × ℕ) → List Kept
  | [] => []
  | l :: rest => (keptAt z before l).toList ++ keptFrom z (before ++ [l]) rest

/-- The open blocks are those that the lines `blocks` opened, and the node of each is numbered by its line. -/
def Stacked (lines : List ℕ) : List Outer → List (Text × ℕ) → Prop
  | [], [] => True
  | o :: outer, l :: blocks => o.1.isSome = holdsChildren l.1 ∧
    (o.1.isSome → (keeps outer).all id → lines[(closeAll outer o.2).size]? = some l.2) ∧ Stacked lines outer blocks
  | _, _ => False

namespace Stacked

variable {lines : List ℕ} {outer : List Outer} {blocks : List (Text × ℕ)}

theorem length (h : Stacked lines outer blocks) : outer.length = blocks.length := by
  induction outer generalizing blocks with
  | nil =>
    cases blocks with
    | nil => rfl
    | cons l blocks => exact h.elim
  | cons o outer ih =>
    cases blocks with
    | nil => exact h.elim
    | cons l blocks => exact congrArg (· + 1) (ih h.2.2)

theorem keeps_eq (h : Stacked lines outer blocks) : keeps outer = blocks.map (holdsChildren ·.1) := by
  induction outer generalizing blocks with
  | nil =>
    cases blocks with
    | nil => rfl
    | cons l blocks => exact h.elim
  | cons o outer ih =>
    cases blocks with
    | nil => exact h.elim
    | cons l blocks => exact congrArg₂ List.cons h.1 (ih h.2.2)

theorem append (h : Stacked lines outer blocks) (more : List ℕ) : Stacked (lines ++ more) outer blocks := by
  induction outer generalizing blocks with
  | nil => cases blocks <;> exact h
  | cons o outer ih =>
    cases blocks with
    | nil => exact h
    | cons l blocks =>
      refine ⟨h.1, fun ho hk => ?_, ih h.2.2⟩
      have := h.2.1 ho hk
      rw [List.getElem?_append_left (List.getElem?_eq_some_iff.mp this).1, this]

/-- The innermost block, by its number and by its line. -/
theorem top (h : Stacked lines outer blocks) (hk : (keeps outer).all id = true) :
    (topNumber outer).map (lines[·]?) = (blocks.head?.map Prod.snd).map some := by
  cases outer with
  | nil =>
    cases blocks with
    | nil => rfl
    | cons l blocks => exact h.elim
  | cons o outer =>
    cases blocks with
    | nil => exact h.elim
    | cons l blocks =>
      obtain ⟨ho, hrest⟩ : o.1.isSome = true ∧ (keeps outer).all id = true := by simpa [keeps] using hk
      exact congrArg some (h.2.1 ho hrest)

end Stacked

/-- After the lines `before`: the defaults, the open blocks, and the forest so far, whose nodes are the kept lines. -/
structure Reading (z : ℤ) (before : List (Text × ℕ)) (rows : List Kept) (outer : List Outer) (cur : Siblings)
    (st : State) : Prop where
  defaults : st.defaults = defaultsAt z before
  stacked : Stacked (rows.map Kept.line) outer (openBlocks before)
  rows : List.Forall₂ (fun (x : Node × Option ℕ) k => x.1 = k.node ∧
    x.2.map ((rows.map Kept.line)[·]?) = k.inner.map some) ((closeAll outer cur).parents none 0) rows

theorem Reading.size {z : ℤ} {before : List (Text × ℕ)} {rows : List Kept} {outer : List Outer} {cur : Siblings}
    {st : State} (h : Reading z before rows outer cur st) : (closeAll outer cur).size = rows.length := by
  rw [← h.rows.length_eq, Siblings.length_parents]

section Step

variable {z : ℤ} {before : List (Text × ℕ)} {rows : List Kept} {outer : List Outer} {cur : Siblings} {st : State}
  {raw : Text} {line : ℕ}

/-- The line asks to open a block exactly if it says so. -/
theorem opens_iff : (∃ node, (parseLine line raw st).1 = .stanza node true) ↔
    closesBlock raw = false ∧ opensBlock raw = true := by
  rw [(parseLine_spec line raw st).1]
  rcases lineAction_cases raw with ⟨h, hc, ho⟩ | ⟨h, hc⟩ | ⟨node, h, hc⟩
  · simp [h, hc, ho, Action.map]
  · simp [h, hc, Action.map]
  · simp [h, hc, Action.map]

theorem accepted_parseLine : (parseLine line raw st).1.accepted = (hostNode raw).map st.stamp := by
  rw [(parseLine_spec line raw st).1, hostNode]
  cases lineAction raw <;> rfl

theorem keptAt_eq (h : Stacked (rows.map Kept.line) outer (openBlocks before)) (l : Text × ℕ) :
    keptAt z before l = if (keeps outer).all id then
      (hostNode l.1).map fun n => ⟨l.2, (defaultsAt z before).stamp n, (openBlocks before).head?.map Prod.snd⟩
    else none := by
  have hkeeps : (openBlocks before).all (holdsChildren ·.1) = (keeps outer).all id := by
    rw [h.keeps_eq, List.all_map]
    rfl
  rw [keptAt, hkeeps]

theorem Reading.stacked_step (h : Reading z before rows outer cur st) {b : List Outer × Siblings × State}
    (hb : blockStep line outer cur (parseLine line raw st) = .ok b) :
    Stacked ((rows ++ (keptAt z before (raw, line)).toList).map Kept.line) b.1 (openBlocks (before ++ [(raw, line)])) := by
  have hold := h.stacked.append ((keptAt z before (raw, line)).toList.map Kept.line)
  rw [← List.map_append] at hold
  have ha := (parseLine_spec line raw st).1
  have haccepted : (parseLine line raw st).1.accepted = (hostNode raw).map st.stamp := accepted_parseLine
  rw [openBlocks_concat, openStep]
  generalize parseLine line raw st = p at hb ha haccepted
  obtain ⟨a, st'⟩ := p
  dsimp only at ha haccepted
  rcases lineAction_cases raw with ⟨hact, hc, ho⟩ | ⟨hact, hc⟩ | ⟨node, hact, hc⟩
  · rw [hact] at ha
    subst ha
    cases hb
    simpa [hc, ho] using hold
  · rw [hact] at ha
    subst ha
    rw [hc, if_pos rfl]
    generalize openBlocks before = blocks at hold
    cases outer with
    | nil =>
      cases hb
      cases blocks with
      | nil => exact trivial
      | cons l blocks => exact hold.elim
    | cons o outer =>
      cases hb
      cases blocks with
      | nil => exact hold.elim
      | cons l blocks => exact hold.2.2
  · rw [hact] at ha
    subst ha
    rw [hc, if_neg Bool.false_ne_true]
    cases hopens : opensBlock raw with
    | false =>
      rw [hopens] at hb
      cases hb
      exact hold
    | true =>
      rw [if_pos rfl]
      rw [hopens] at hb haccepted
      have hnode : node.map st.stamp = (hostNode raw).map st.stamp := haccepted
      have hholds : holdsChildren raw = (node.map st.stamp).any (pingLike ·.checkType) := by
        rw [hnode, holdsChildren]
        cases hostNode raw <;> rfl
      dsimp only [Action.map, blockStep] at hb
      split at hb
      · cases hb
      -- the number of a node whose block is kept is that of the line
      have hnumber (hk : (keeps outer).all id = true) (hsome : (hostNode raw).isSome = true) :
          ((rows ++ (keptAt z before (raw, line)).toList).map Kept.line)[(closeAll outer cur).size]? = some line := by
        obtain ⟨n, hn⟩ := Option.isSome_iff_exists.mp hsome
        rw [keptAt_eq h.stacked, if_pos hk, h.size]
        simp [hn]
      cases node with
      | none =>
        cases hb
        exact ⟨hholds.symm, fun h => (nomatch h), hold⟩
      | some n =>
        have hsome : (hostNode raw).isSome = true := by
          cases hh : hostNode raw with
          | none => rw [hh] at hnode; cases hnode
          | some m => rfl
        dsimp only [Option.map_some] at hb
        split at hb
        · rename_i hping
          cases hb
          exact ⟨(hholds.trans hping).symm, fun _ hk => hnumber hk hsome, hold⟩
        · rename_i hping
          cases hb
          exact ⟨(hholds.trans (by simpa using hping)).symm, fun h => (nomatch h), hold⟩

theorem Reading.rows_step (h : Reading z before rows outer cur st) {b : List Outer × Siblings × State}
    (hb : blockStep line outer cur (parseLine line raw st) = .ok b) :
    List.Forall₂ (fun (x : Node × Option ℕ) k => x.1 = k.node ∧
      x.2.map (((rows ++ (keptAt z before (raw, line)).toList).map Kept.line)[·]?) = k.inner.map some)
      ((closeAll b.1 b.2.1).parents none 0) (rows ++ (keptAt z before (raw, line)).toList) := by
  have hstamp : st.stamp = (defaultsAt z before).stamp := by rw [← h.defaults, stamp_defaults]
  rw [closeAll_blockStep hb, parents_addNode, accepted_parseLine, keptAt_eq h.stacked]
  have hold (more : List Kept) : List.Forall₂ (fun (x : Node × Option ℕ) k => x.1 = k.node ∧
      x.2.map (((rows ++ more).map Kept.line)[·]?) = k.inner.map some) ((closeAll outer cur).parents none 0) rows := by
    refine h.rows.imp fun x k hx => ⟨hx.1, ?_⟩
    rw [List.map_append]
    exact map_getElem?_append hx.2
  refine List.rel_append (hold _) ?_
  cases hk : (keeps outer).all id with
  | false => simp
  | true =>
    cases hostNode raw with
    | none => simp
    | some n =>
      have htop := h.stacked.top hk
      have hnew := map_getElem?_append (m := [line]) htop
      simp only [if_true, Option.map_some, Option.toList_some, List.filter_cons_of_pos, List.filter_nil, List.map_cons,
        List.map_nil, List.map_append]
      exact .cons ⟨congrFun hstamp n, hnew⟩ .nil

/-- **One line.** -/
theorem Reading.step (h : Reading z before rows outer cur st) {b : List Outer × Siblings × State}
    (hb : blockStep line outer cur (parseLine line raw st) = .ok b) :
    Reading z (before ++ [(raw, line)]) (rows ++ (keptAt z before (raw, line)).toList) b.1 b.2.1 b.2.2 := by
  refine ⟨?_, h.stacked_step hb, h.rows_step hb⟩
  rw [(blockStep_spec hb).2.1, defaults_state, (parseLine_spec line raw st).2, h.defaults, defaultsAt_concat]

end Step

theorem keptFrom_append (z : ℤ) (before xs ys : List (Text × ℕ)) :
    keptFrom z before (xs ++ ys) = keptFrom z before xs ++ keptFrom z (before ++ xs) ys := by
  induction xs generalizing before with
  | nil => rw [List.append_nil]; rfl
  | cons l xs ih => rw [List.cons_append, keptFrom, keptFrom, ih, List.append_assoc, List.append_assoc]; rfl

/-- **The rest of the file.**  Either the blocks get too many, or they never do and the forest is that of the kept
lines. -/
theorem Reading.run {z : ℤ} {before : List (Text × ℕ)} {rows : List Kept} {outer : List Outer} {cur : Siblings}
    {st : State} (h : Reading z before rows outer cur st) (hdepth : outer.length ≤ maxNestingDepth)
    (rest : List (Text × ℕ)) :
    ((∃ e, parseBlock rest outer cur st = .error e) ∧
      ∃ more, more <+: rest ∧ (openBlocks (before ++ more)).length = maxNestingDepth + 1) ∨
    ((∀ more, more <+: rest → (openBlocks (before ++ more)).length ≤ maxNestingDepth) ∧
      ∃ outer' cur' st', parseBlock rest outer cur st = .ok (closeAll outer' cur', st') ∧
        Reading z (before ++ rest) (rows ++ keptFrom z before rest) outer' cur' st') := by
  induction rest generalizing before rows outer cur st with
  | nil =>
    refine .inr ⟨fun more hmore => ?_, outer, cur, st, rfl, ?_⟩
    · rw [List.prefix_nil.mp hmore, List.append_nil, ← h.stacked.length]
      exact hdepth
    · rw [keptFrom, List.append_nil, List.append_nil]
      exact h
  | cons l rest ih =>
    obtain ⟨raw, line⟩ := l
    rw [parseBlock_cons]
    cases hb : blockStep line outer cur (parseLine line raw st) with
    | error e =>
      obtain ⟨hopens, hdeep⟩ := blockStep_error_iff.mp ⟨e, hb⟩
      obtain ⟨hc, ho⟩ := opens_iff.mp hopens
      refine .inl ⟨⟨e, rfl⟩, [(raw, line)], by simp, ?_⟩
      rw [openBlocks_concat, openStep, hc, if_neg Bool.false_ne_true, if_pos ho, List.length_cons, ← h.stacked.length]
      omega
    | ok b =>
      have hstep := h.step hb
      have hdepth' : b.1.length ≤ maxNestingDepth := by
        rw [hstep.stacked.length, openBlocks_concat, openStep]
        rw [h.stacked.length] at hdepth
        split
        · rw [List.length_tail]
          omega
        split
        · rename_i hc ho
          by_contra hdeep
          rw [List.length_cons, ← h.stacked.length] at hdeep
          obtain ⟨e, he⟩ := blockStep_error_iff.mpr
            ⟨opens_iff.mpr ⟨by simpa using hc, ho⟩, Nat.lt_of_not_le hdeep⟩
          rw [hb] at he
          cases he
        · exact hdepth
      have happend : before ++ [(raw, line)] ++ rest = before ++ (raw, line) :: rest := by simp
      rcases ih hstep hdepth' with ⟨⟨e, he⟩, more, hmore, hlen⟩ | ⟨hall, outer', cur', st', hrun, hread⟩
      · refine .inl ⟨⟨e, he⟩, (raw, line) :: more, List.cons_prefix_cons.mpr ⟨rfl, hmore⟩, ?_⟩
        rw [← hlen, List.append_assoc]
        rfl
      · refine .inr ⟨fun more hmore => ?_, outer', cur', st', hrun, ?_⟩
        · cases more with
          | nil =>
            rw [List.append_nil, ← h.stacked.length]
            exact hdepth
          | cons x more =>
            obtain ⟨rfl, hmore'⟩ := List.cons_prefix_cons.mp hmore
            have := hall more hmore'
            rwa [List.append_assoc] at this
        · rw [happend, List.append_assoc] at hread
          exact hread

theorem mem_keptFrom {z : ℤ} {before lines : List (Text × ℕ)} {k : Kept} : k ∈ keptFrom z before lines ↔
    ∃ xs l ys, lines = xs ++ l :: ys ∧ keptAt z (before ++ xs) l = some k := by
  constructor
  · intro h
    induction lines generalizing before with
    | nil => cases h
    | cons l lines ih =>
      rcases List.mem_append.mp h with h | h
      · exact ⟨[], l, lines, rfl, by rw [List.append_nil]; exact Option.mem_toList.mp h⟩
      · obtain ⟨xs, l', ys, rfl, hk⟩ := ih h
        exact ⟨l :: xs, l', ys, rfl, by rwa [List.append_assoc] at hk⟩
  · rintro ⟨xs, l, ys, rfl, hk⟩
    rw [keptFrom_append]
    refine List.mem_append_right _ (List.mem_append_left _ ?_)
    rw [hk]
    exact List.mem_singleton_self k


/-! ### The whole file -/

/-- The forest is the flat reading of the lines; `K` are the numbers of those that are kept, in file order.  A line is kept
if it is an accepted stanza and every block around it was opened by an accepted `ping`, `ping6` or `smtp` line.  Its node
has the defaults of its place; it is a root if no block is open around it, and else a child of the innermost one's line. -/
structure Flat (z : ℤ) (lines : List (Text × ℕ)) (K : List ℕ) (F : Forest) : Prop where
  increasing : K.Pairwise (· < ·)
  length : K.length = F.objs.length
  mem_lines : ∀ m ∈ K, ∃ raw, (raw, m) ∈ lines
  kept_iff : ∀ before raw line after, lines = before ++ (raw, line) :: after →
    (line ∈ K ↔ (hostNode raw).isSome ∧ ∀ o ∈ openBlocks before, holdsChildren o.1)
  node : ∀ before raw line after, lines = before ++ (raw, line) :: after → ∀ j, K[j]? = some line →
    (hostNode raw).map (defaultsAt z before).stamp = some (F.node j)
  root_iff : ∀ before raw line after, lines = before ++ (raw, line) :: after → ∀ j, K[j]? = some line →
    (j ∈ F.roots ↔ openBlocks before = [])
  child_iff : ∀ before raw line after, lines = before ++ (raw, line) :: after → ∀ j, K[j]? = some line →
    ∀ q, j ∈ F.children q ↔ ∃ o, (openBlocks before).head? = some o ∧ K[q]? = some o.2
  roots : F.roots.Pairwise (· < ·)
  children : ∀ q, (F.children q).Pairwise (· < ·)

theorem lines_keptFrom (z : ℤ) (before lines : List (Text × ℕ)) :
    ((keptFrom z before lines).map Kept.line).Sublist (lines.map Prod.snd) := by
  induction lines generalizing before with
  | nil => exact List.Sublist.refl _
  | cons l lines ih =>
    rw [keptFrom, List.map_append, List.map_cons]
    have hat : ((keptAt z before l).toList.map Kept.line).Sublist [l.2] := by
      unfold keptAt
      split
      · cases hostNode l.1 with
        | none => exact List.nil_sublist _
        | some n => exact List.Sublist.refl _
      · exact List.nil_sublist _
    exact hat.append (ih (before ++ [l]))

theorem keptAt_eq_some_iff {z : ℤ} {before : List (Text × ℕ)} {l : Text × ℕ} {k : Kept} : keptAt z before l = some k ↔
    (∀ o ∈ openBlocks before, holdsChildren o.1) ∧ ∃ n, hostNode l.1 = some n ∧
      k = ⟨l.2, (defaultsAt z before).stamp n, (openBlocks before).head?.map Prod.snd⟩ := by
  unfold keptAt
  split
  · rename_i hall
    rw [Option.map_eq_some_iff]
    constructor
    · rintro ⟨n, hn, rfl⟩
      exact ⟨List.all_eq_true.mp hall, n, hn, rfl⟩
    · rintro ⟨-, n, hn, rfl⟩
      exact ⟨n, hn, rfl⟩
  · rename_i hall
    simp only [reduceCtorEq, false_iff, not_and]
    exact fun h => absurd (List.all_eq_true.mpr h) hall

section Assemble

variable {z : ℤ} {lines : List (Text × ℕ)} {outer : List Outer} {cur : Siblings} {st : State}

/-- The row of a kept line. -/
theorem row_of_line (hlines : (lines.map Prod.snd).Pairwise (· < ·)) {before after : List (Text × ℕ)} {raw : Text}
    {line j : ℕ} (hsplit : lines = before ++ (raw, line) :: after)
    (hj : ((keptFrom z [] lines).map Kept.line)[j]? = some line) :
    ∃ k, (keptFrom z [] lines)[j]? = some k ∧ keptAt z before (raw, line) = some k := by
  rw [List.getElem?_map] at hj
  obtain ⟨k, hk, hline⟩ := Option.map_eq_some_iff.mp hj
  obtain ⟨xs, l, ys, hxs, hat⟩ := mem_keptFrom.mp (List.mem_of_getElem? hk)
  have hl : l.2 = line := by
    obtain ⟨-, n, -, rfl⟩ := keptAt_eq_some_iff.mp hat
    exact hline
  obtain ⟨rfl, rfl⟩ := split_unique (hlines.imp (fun h => Nat.ne_of_lt h)) hxs hsplit hl
  exact ⟨k, hk, hat⟩

/-- The node and the parent of a row. -/
theorem Reading.row (h : Reading z lines (keptFrom z [] lines) outer cur st) {j : ℕ} {k : Kept}
    (hk : (keptFrom z [] lines)[j]? = some k) : ∃ x, ((closeAll outer cur).parents none 0)[j]? = some x ∧ x.1 = k.node ∧
      x.2.map (((keptFrom z [] lines).map Kept.line)[·]?) = k.inner.map some := by
  obtain ⟨hlt, rfl⟩ := List.getElem?_eq_some_iff.mp hk
  obtain ⟨hlen, hrel⟩ := List.forall₂_iff_get.mp h.rows
  have hlt' : j < ((closeAll outer cur).parents none 0).length := hlen ▸ hlt
  exact ⟨_, List.getElem?_eq_getElem hlt', hrel j hlt' hlt⟩

/-- The kept lines and the forest they make. -/
theorem flat_of_reading (hlines : (lines.map Prod.snd).Pairwise (· < ·))
    (h : Reading z lines (keptFrom z [] lines) outer cur st) :
    Flat z lines ((keptFrom z [] lines).map Kept.line) (closeAll outer cur).toForest := by
  have hroots : (closeAll outer cur).toForest.roots = Siblings.childrenOf none 0 ((closeAll outer cur).parents none 0) :=
    Siblings.numbers_eq_childrenOf _ fun q hq => (nomatch hq)
  have hchildren (q : ℕ) : (closeAll outer cur).toForest.children q =
      Siblings.childrenOf (some q) 0 ((closeAll outer cur).parents none 0) :=
    Siblings.children_eq_childrenOf (q := q) _ (fun q hq => (nomatch hq)) (Nat.zero_le q)
  have hincreasing : ((keptFrom z [] lines).map Kept.line).Pairwise (· < ·) := hlines.sublist (lines_keptFrom z [] lines)
  refine ⟨hincreasing, ?_, fun m hm => ?_, fun before raw line after hsplit => ?_,
    fun before raw line after hsplit j hj => ?_, fun before raw line after hsplit j hj => ?_,
    fun before raw line after hsplit j hj q => ?_, ?_, fun q => ?_⟩
  · rw [List.length_map, ← h.size]
    exact (Siblings.length_objects 0 _).symm
  · obtain ⟨l, hl, rfl⟩ := List.mem_map.mp ((lines_keptFrom z [] lines).subset hm)
    exact ⟨l.1, hl⟩
  · constructor
    · intro hmem
      obtain ⟨j, hj⟩ := List.getElem?_of_mem hmem
      obtain ⟨k, -, hat⟩ := row_of_line hlines hsplit hj
      obtain ⟨hall, n, hn, -⟩ := keptAt_eq_some_iff.mp hat
      exact ⟨by rw [hn]; rfl, hall⟩
    · rintro ⟨hsome, hall⟩
      obtain ⟨n, hn⟩ := Option.isSome_iff_exists.mp hsome
      have hat : keptAt z ([] ++ before) (raw, line) = some _ := keptAt_eq_some_iff.mpr ⟨hall, n, hn, rfl⟩
      exact List.mem_map.mpr ⟨_, mem_keptFrom.mpr ⟨before, _, after, hsplit, hat⟩, rfl⟩
  · obtain ⟨k, hk, hat⟩ := row_of_line hlines hsplit hj
    obtain ⟨x, hx, hnode, -⟩ := h.row hk
    obtain ⟨-, n, hn, rfl⟩ := keptAt_eq_some_iff.mp hat
    have hobj : ((closeAll outer cur).toForest.objs.map Prod.fst)[j]? = some x.1 := by
      change ((Siblings.objects 0 _).map Prod.fst)[j]? = _
      rw [Siblings.map_objects, ← Siblings.map_parents none 0, List.getElem?_map, hx]
      rfl
    rw [hn, Forest.node, ← List.getElem?_map, hobj, hnode]
    rfl
  · obtain ⟨k, hk, hat⟩ := row_of_line hlines hsplit hj
    obtain ⟨x, hx, -, hparent⟩ := h.row hk
    obtain ⟨-, n, -, rfl⟩ := keptAt_eq_some_iff.mp hat
    have hnone : x.2 = none ↔ openBlocks before = [] := by
      rw [← Option.map_eq_none_iff (f := (((keptFrom z [] lines).map Kept.line)[·]?)), hparent, Option.map_eq_none_iff,
        Option.map_eq_none_iff, List.head?_eq_none_iff]
    rw [hroots, Siblings.mem_childrenOf, ← hnone]
    simp [hx]
  · obtain ⟨k, hk, hat⟩ := row_of_line hlines hsplit hj
    obtain ⟨x, hx, -, hparent⟩ := h.row hk
    obtain ⟨-, n, -, rfl⟩ := keptAt_eq_some_iff.mp hat
    rw [hchildren, Siblings.mem_childrenOf]
    dsimp only at hparent
    constructor
    · rintro ⟨y, -, hy, hq⟩
      obtain rfl := Option.some.inj (hx.symm.trans hy)
      rw [hq, Option.map_some] at hparent
      cases ho : (openBlocks before).head? with
      | none => rw [ho] at hparent; cases hparent
      | some o =>
        rw [ho] at hparent
        exact ⟨o, rfl, Option.some.inj hparent⟩
    · rintro ⟨o, ho, hq⟩
      rw [ho, Option.map_some, Option.map_some] at hparent
      obtain ⟨q', hq', heq⟩ := Option.map_eq_some_iff.mp hparent
      refine ⟨x, Nat.zero_le j, hx, hq'.trans (congrArg some ?_)⟩
      exact (List.getElem?_inj (List.getElem?_eq_some_iff.mp heq).1 (hincreasing.imp fun h => Nat.ne_of_lt h)).mp
        (heq.trans hq.symm)
  · rw [hroots]
    exact Siblings.pairwise_childrenOf ..
  · rw [hchildren]
    exact Siblings.pairwise_childrenOf ..

end Assemble

/-- **A legacy config is a flat reading of its lines.**  The recursion of `parse_block` gives the same as the explicit
stack; it raises exactly if 65 blocks are open at some point; and otherwise the forest is that of the kept lines. -/
theorem parse_flat (text : Text) (z : ℤ) :
    parseNested text z = parse text z ∧
    ((∃ e, parse text z = .error e) ↔
      ∃ before, before <+: (splitlines text).zipIdx 1 ∧ (openBlocks before).length = maxNestingDepth + 1) ∧
    ∀ res, parse text z = .ok res → ∃ K, Flat z ((splitlines text).zipIdx 1) K res.roots.toForest := by
  generalize hL : (splitlines text).zipIdx 1 = lines
  have hlines : (lines.map Prod.snd).Pairwise (· < ·) := by
    rw [← hL, List.zipIdx_map_snd]
    exact List.pairwise_lt_range' ..
  have hstart : Reading z [] [] [] .nil { numfailures := z } := ⟨rfl, trivial, .nil⟩
  refine ⟨?_, ?_⟩
  · unfold parseNested parse
    rw [hL, parseBlock_eq_loop lines.length le_rfl]
    dsimp only
    change _ = ((loop lines.length 0 .nil lines { numfailures := z }).bind (resume [])).map _
    cases loop lines.length 0 .nil lines { numfailures := z } <;> rfl
  · unfold parse
    rw [hL]
    rcases hstart.run (Nat.zero_le _) lines with ⟨⟨e, he⟩, more, hmore, hlen⟩ | ⟨hall, outer, cur, st, hrun, hread⟩
    · rw [he]
      exact ⟨⟨fun _ => ⟨more, hmore, hlen⟩, fun _ => ⟨e, rfl⟩⟩, fun res h => (nomatch h)⟩
    · rw [hrun]
      refine ⟨⟨fun ⟨e, h⟩ => (nomatch h), fun ⟨more, hmore, hlen⟩ => ?_⟩, fun res h => ?_⟩
      · have := hall more hmore
        rw [List.nil_append] at this
        omega
      · cases h
        exact ⟨_, flat_of_reading hlines hread⟩

end Psysmon.Legacy
