import Psysmon.Config.Legacy

/-!
# Psysmon.Config.LegacyBlocks — the nodes that nested blocks keep

`parseBlock` is a left-to-right reading with a stack of open blocks: `blockStep` is what one line does to the stack.
An accepted stanza reaches the forest exactly if the content of every block around it is kept; `kept` lists these
stanzas in file order, each with the state it was read in, and `nodes_parseBlock` says that they are the forest's nodes.
-/

namespace Psysmon.Legacy

open Lib Text Number

/-! ### Open blocks -/

/-- What the braces of one line do to the open blocks. -/
def blockStep (line : ℕ) (outer : List Outer) (cur : Siblings) : Action × State →
    Except ParseError (List Outer × Siblings × State)
  | (.skip, st) => .ok (outer, cur, st)
  | (.close, st) =>
    match outer with
    | [] => .ok ([], cur, st.warn line "unexpected '\x7d' at top level; ignoring".toList)
    | o :: outer => .ok (outer, closeBlock o cur, st)
  | (.stanza node false, st) => .ok (outer, addNode cur node, st)
  | (.stanza node true, st) =>
    if maxNestingDepth < outer.length + 1 then
      .error ⟨"configuration nesting exceeds the maximum depth of ".toList ++ natText maxNestingDepth⟩
    else match node with
      | none => .ok ((none, cur) :: outer, .nil, st)
      | some n =>
        if pingLike n.checkType then .ok ((some n, cur) :: outer, .nil, st)
        else .ok ((none, addNode cur node) :: outer, .nil,
          st.warn line (n.checkType.value ++ " cannot have children; ignoring block".toList))

/-- For every open block, the innermost first, whether its content is kept. -/
def keeps (outer : List Outer) : List Bool := outer.map (·.1.isSome)

/-- `keeps` after the braces of one line. -/
def Action.keeps : Action → List Bool → List Bool
  | .skip, blocks => blocks
  | .close, blocks => blocks.tail
  | .stanza _ false, blocks => blocks
  | .stanza none true, blocks => false :: blocks
  | .stanza (some n) true, blocks => pingLike n.checkType :: blocks

/-- The state after the braces of one line. -/
def Action.state (line : ℕ) : Action → List Bool → State → State
  | .close, [], st => st.warn line "unexpected '\x7d' at top level; ignoring".toList
  | .stanza (some n) true, _, st => if pingLike n.checkType then st
    else st.warn line (n.checkType.value ++ " cannot have children; ignoring block".toList)
  | _, _, st => st

/-- The node that one line adds to the forest, if every block around is kept. -/
def Action.node : Action → List Bool → Option Node
  | .stanza (some n) _, blocks => if blocks.all id then some n else none
  | _, _ => none

/-- Nodes at the end of the innermost block come last in the forest, if every block around is kept. -/
theorem nodes_closeAll {outer : List Outer} {cur cur' : Siblings} {more : List Node}
    (h : cur'.nodes = cur.nodes ++ more) : (closeAll outer cur').nodes =
      (closeAll outer cur).nodes ++ if (keeps outer).all id then more else [] := by
  induction outer generalizing cur cur' more with
  | nil => exact h
  | cons o outer ih =>
    obtain ⟨node, before⟩ := o
    cases node with
    | none => exact (List.append_nil _).symm
    | some n =>
      have hn : (before.append (.cons n cur' .nil)).nodes = (before.append (.cons n cur .nil)).nodes ++ more := by
        simp [Siblings.nodes, h]
      exact ih hn

theorem nodes_closeAll_addNode (outer : List Outer) (cur : Siblings) (n : Node) :
    (closeAll outer (addNode cur (some n))).nodes =
      (closeAll outer cur).nodes ++ if (keeps outer).all id then [n] else [] :=
  nodes_closeAll (by simp [addNode, Siblings.nodes])

/-- What the braces of a line do to the nodes, the open blocks and the state. -/
theorem blockStep_spec {line : ℕ} {outer : List Outer} {cur : Siblings} {p : Action × State}
    {b : List Outer × Siblings × State} (h : blockStep line outer cur p = .ok b) :
    keeps b.1 = p.1.keeps (keeps outer) ∧ b.2.2 = p.1.state line (keeps outer) p.2 ∧
      (closeAll b.1 b.2.1).nodes = (closeAll outer cur).nodes ++ (p.1.node (keeps outer)).toList := by
  have hnode (n : Node) : (closeAll outer (addNode cur (some n))).nodes =
      (closeAll outer cur).nodes ++ (if (keeps outer).all id then some n else none).toList := by
    rw [nodes_closeAll_addNode]
    split <;> rfl
  obtain ⟨a, st⟩ := p
  cases a with
  | skip =>
    cases h
    exact ⟨rfl, rfl, (List.append_nil _).symm⟩
  | close =>
    cases outer with
    | nil =>
      cases h
      exact ⟨rfl, rfl, (List.append_nil _).symm⟩
    | cons o outer =>
      cases h
      exact ⟨rfl, rfl, (List.append_nil _).symm⟩
  | stanza node opens =>
    cases opens with
    | false =>
      cases h
      cases node with
      | none => exact ⟨rfl, rfl, (List.append_nil _).symm⟩
      | some n => exact ⟨rfl, rfl, hnode n⟩
    | true =>
      dsimp only [blockStep] at h
      split at h
      · cases h
      cases node with
      | none =>
        cases h
        exact ⟨rfl, rfl, (List.append_nil _).symm⟩
      | some n =>
        dsimp only at h
        split at h
        · rename_i hp
          cases h
          exact ⟨congrArg (· :: keeps outer) hp.symm, (if_pos hp).symm, hnode n⟩
        · rename_i hp
          cases h
          exact ⟨congrArg (· :: keeps outer) (by simpa using hp), (if_neg hp).symm, hnode n⟩

/-! ### Other nodes -/

/-- The action with another node. -/
def Action.map (f : Node → Node) : Action → Action
  | .skip => .skip
  | .close => .close
  | .stanza node opens => .stanza (node.map f) opens

/-- The open blocks with other nodes. -/
def mapOuter (f : Node → Node) (outer : List Outer) : List Outer := outer.map fun o => (o.1.map f, o.2.map f)

section Map

variable {f : Node → Node}

theorem Action.node_map (a : Action) (blocks : List Bool) : (a.map f).node blocks = (a.node blocks).map f := by
  rcases a with _ | _ | ⟨_ | n, opens⟩
  · rfl
  · rfl
  · rfl
  · unfold Action.map Action.node
    dsimp only [Option.map_some]
    split <;> rfl

theorem map_closeBlock (o : Outer) (cur : Siblings) :
    (closeBlock o cur).map f = closeBlock (o.1.map f, o.2.map f) (cur.map f) := by
  obtain ⟨node, before⟩ := o
  cases node with
  | none => rfl
  | some n => exact Siblings.map_append f _ _

theorem map_addNode (cur : Siblings) (node : Option Node) :
    (addNode cur node).map f = addNode (cur.map f) (node.map f) := by
  cases node with
  | none => rfl
  | some n => exact Siblings.map_append f _ _

theorem map_closeAll (outer : List Outer) (cur : Siblings) :
    (closeAll outer cur).map f = closeAll (mapOuter f outer) (cur.map f) := by
  induction outer generalizing cur with
  | nil => rfl
  | cons o outer ih =>
    rw [closeAll, ih, map_closeBlock]
    rfl

variable (hf : ∀ n, (f n).checkType = n.checkType)

include hf

theorem Action.keeps_map (a : Action) (blocks : List Bool) : (a.map f).keeps blocks = a.keeps blocks := by
  rcases a with _ | _ | ⟨_ | n, _ | _⟩
  all_goals first | rfl | exact congrArg (pingLike · :: blocks) (hf n)

theorem Action.state_map (a : Action) (line : ℕ) (blocks : List Bool) (st : State) :
    (a.map f).state line blocks st = a.state line blocks st := by
  rcases a with _ | _ | ⟨_ | n, _ | _⟩
  all_goals try rfl
  unfold Action.map Action.state
  dsimp only [Option.map_some]
  rw [hf]

/-- The braces of a line do the same to blocks with other nodes. -/
theorem blockStep_map (line : ℕ) (outer : List Outer) (cur : Siblings) (a : Action) (st : State) :
    blockStep line (mapOuter f outer) (cur.map f) (a.map f, st) =
      (blockStep line outer cur (a, st)).map fun b => (mapOuter f b.1, b.2.1.map f, b.2.2) := by
  cases a with
  | skip => rfl
  | close =>
    cases outer with
    | nil => rfl
    | cons o outer => exact congrArg (fun c => Except.ok (mapOuter f outer, c, st)) (map_closeBlock o cur).symm
  | stanza node opens =>
    cases opens with
    | false => exact congrArg (fun c => Except.ok (mapOuter f outer, c, st)) (map_addNode cur node).symm
    | true =>
      have hlen : (mapOuter f outer).length = outer.length := by simp [mapOuter]
      dsimp only [Action.map, blockStep]
      rw [hlen]
      split
      · rfl
      cases node with
      | none => rfl
      | some n =>
        dsimp only [Option.map_some]
        rw [hf]
        split
        · rfl
        · simp only [Except.map, mapOuter, List.map_cons, Option.map_none, map_addNode, Option.map_some]
          rfl

end Map

variable [Python]

/-! ### The whole file -/

theorem parseBlock_cons (raw : Text) (line : ℕ) (rest : List (Text × ℕ)) (outer : List Outer) (cur : Siblings)
    (st : State) : parseBlock ((raw, line) :: rest) outer cur st =
      (blockStep line outer cur (parseLine line raw st)).bind fun b => parseBlock rest b.1 b.2.1 b.2.2 := by
  rw [parseBlock]
  generalize parseLine line raw st = p
  obtain ⟨a, st⟩ := p
  cases a with
  | skip => rfl
  | close => cases outer <;> rfl
  | stanza node opens =>
    cases opens with
    | false => rfl
    | true =>
      dsimp only [blockStep]
      rw [if_neg (by decide)]
      split
      · rfl
      · cases node with
        | none => rfl
        | some n =>
          dsimp only
          split <;> rfl

/-- The accepted stanzas that reach the forest, in file order, each with the state it was read in. -/
def kept : List (Text × ℕ) → List Bool → State → List (Node × State)
  | [], _, _ => []
  | (raw, line) :: rest, blocks, st =>
    let p := parseLine line raw st
    (p.1.node blocks).toList.map (·, st) ++ kept rest (p.1.keeps blocks) (p.1.state line blocks p.2)

/-- **The nodes of the forest are the kept stanzas.** -/
theorem nodes_parseBlock {lines : List (Text × ℕ)} {outer : List Outer} {cur t : Siblings} {st st' : State}
    (h : parseBlock lines outer cur st = .ok (t, st')) :
    t.nodes = (closeAll outer cur).nodes ++ (kept lines (keeps outer) st).map Prod.fst := by
  induction lines generalizing outer cur st with
  | nil =>
    obtain ⟨rfl, -⟩ := Prod.mk.inj (Except.ok.inj h)
    simp [kept]
  | cons x lines ih =>
    obtain ⟨raw, line⟩ := x
    rw [parseBlock_cons] at h
    cases hb : blockStep line outer cur (parseLine line raw st) with
    | error e => rw [hb] at h; cases h
    | ok b =>
      rw [hb] at h
      obtain ⟨hk, hst, hn⟩ := blockStep_spec hb
      have hfst (o : Option Node) : (o.toList.map (·, st)).map Prod.fst = o.toList := by cases o <;> rfl
      rw [ih h, hn, hk, hst, kept, List.map_append, List.append_assoc, hfst]

end Psysmon.Legacy
