import DocumentRelay.Firebase.ImmutableTree
import DocumentRelay.Firebase.KeyOrder

/-!
# Writes collected in a tree

`FCompoundWrite`: many writes at once, as a tree with the written nodes at its ends.
A write below one that is already there goes into the node that is there; a write
above others takes their place.  So the tree is never larger than what there is to
write, and `applyToNode:` makes each of its writes once.

`writeAt` is what the tree holds; all that the client asks a compound write depends on
it alone.  Two histories of writes that differ in one write leave trees that differ at
and below it at most (`SameOutside`), until a write covers the difference
(`SameOutside.addWrites`).

The keys are those of a `KeySet`, which both comparators tell apart.  Priorities are left
out, as in `FNode`.
-/

namespace DocumentRelay

/-- `[FPath relativePathFrom:outer to:inner]`.  It throws unless `inner` is within
`outer`, which it is wherever the client asks. -/
def FPath.relativePathFrom {κ : Type} (outer inner : FPath κ) :
    FPath κ := inner.drop outer.length

/-- `[path contains:other]`. -/
def FPath.contains {κ : Type} [DecidableEq κ] (path other : FPath κ) :
    Bool := path.isPrefixOf other

@[simp] theorem FPath.contains_iff {κ : Type} [DecidableEq κ] {path other : FPath κ} :
    path.contains other = true ↔ path <+: other := List.isPrefixOf_iff_prefix

@[simp] theorem FPath.relativePathFrom_append {κ : Type} (outer rest : FPath κ) :
    outer.relativePathFrom (outer ++ rest) = rest := List.drop_left

variable {κ : Type} [DecidableEq κ] {keys : KeySet κ}

/-! ## Collecting -/

namespace FImmutableTree

/-- `addWrite:atPath:`, on the tree of a compound write. -/
def addWrite (keys : KeySet κ) (tree : FImmutableTree κ (FNode κ)) (path : FPath κ)
    (node : FNode κ) : FImmutableTree κ (FNode κ) :=
  if path = [] then .ofValue node
  else
    match tree.findRootMostValueAndPath keys.cmp path with
    | some rootMost =>
        tree.setValue keys.cmp
          (keys.updateChild rootMost.2 (rootMost.1.relativePathFrom path) node)
          rootMost.1
    | none => tree.setTree keys.cmp (.ofValue node) path

variable {tree : FImmutableTree κ (FNode κ)}

/-- Adding a write keeps the tree in order. -/
theorem Ordered.addWrite (ordered : tree.Ordered keys.cmp) (path : FPath κ) (node : FNode κ) :
    (tree.addWrite keys path node).Ordered keys.cmp := by
  rw [FImmutableTree.addWrite]
  split
  · exact ordered_ofValue node
  · split
    · exact ordered.setValue _ _
    · exact ordered.setTree (ordered_ofValue node) path


/-- A write below another changes the node that is there. -/
theorem valueAtPath_addWrite_of_value (ordered : tree.Ordered keys.cmp)
    (leaves : tree.Leaves keys.cmp)
    {place : FPath κ} {value : FNode κ} (holds : tree.valueAtPath keys.cmp place = some value)
    (rest : FPath κ) (node : FNode κ) (path : FPath κ) :
    (tree.addWrite keys (place ++ rest) node).valueAtPath keys.cmp path =
      if path = place then some (keys.updateChild value rest node)
      else tree.valueAtPath keys.cmp path := by
  rw [addWrite]
  split
  case isTrue nil =>
    -- Both are at the root, so the new write is the only one.
    obtain ⟨rfl, rfl⟩ := List.append_eq_nil_iff.mp nil
    rw [valueAtPath_ofValue]
    split
    · rfl
    case isFalse below =>
      cases other : tree.valueAtPath keys.cmp path with
      | none => rfl
      | some w => exact absurd (leaves [] path value w holds other) below
  case isFalse =>
    have rootMost := leaves.findRootMostValueAndPath (List.prefix_append place rest) holds
    rw [rootMost]
    simp only [FPath.relativePathFrom_append]
    exact valueAtPath_setValue ordered _ place path

/-- Any other write takes the place of those below it. -/
theorem valueAtPath_addWrite_of_none (ordered : tree.Ordered keys.cmp) {place : FPath κ}
    (free : ∀ q, q <+: place → tree.valueAtPath keys.cmp q = none) (node : FNode κ)
    (path : FPath κ) :
    (tree.addWrite keys place node).valueAtPath keys.cmp path =
      if place <+: path then if path = place then some node else none
      else tree.valueAtPath keys.cmp path := by
  have ends : ∀ path, place <+: path →
      (if path.drop place.length = [] then some node else none) =
        if path = place then some node else none := by
    rintro _ ⟨rest, rfl⟩
    simp
  rw [addWrite]
  split
  case isTrue nil =>
    subst nil
    simp
  case isFalse =>
    rw [findRootMostValueAndPath_eq_none.mpr free]
    simp only
    rw [valueAtPath_setTree ordered]
    split
    case isTrue before => rw [valueAtPath_ofValue, ends path before]
    · rfl

/-- Adding a write keeps "a write there is always a leaf": below a write it goes into the node,
and above others it takes their place. -/
theorem Leaves.addWrite (ordered : tree.Ordered keys.cmp) (leaves : tree.Leaves keys.cmp)
    (path : FPath κ)
    (node : FNode κ) : (tree.addWrite keys path node).Leaves keys.cmp := by
  cases found : tree.findRootMostValueAndPath keys.cmp path with
  | some rootMost =>
      obtain ⟨⟨rest, rfl⟩, holds⟩ := findRootMostValueAndPath_eq_some found
      have written := fun q => valueAtPath_addWrite_of_value ordered leaves holds rest node q
      have same : ∀ q v,
        (tree.addWrite keys (rootMost.1 ++ rest) node).valueAtPath keys.cmp q = some v →
          ∃ w, tree.valueAtPath keys.cmp q = some w := by
        intro q v known
        rw [written] at known
        split at known
        case isTrue eq => exact ⟨_, eq ▸ holds⟩
        · exact ⟨v, known⟩
      intro place below v w first second
      obtain ⟨v', first'⟩ := same _ _ first
      obtain ⟨w', second'⟩ := same _ _ second
      exact leaves place below v' w' first' second'
  | none =>
      have free := findRootMostValueAndPath_eq_none.mp found
      have written := valueAtPath_addWrite_of_none ordered free node
      intro place below v w first second
      rw [written] at first second
      by_cases under : path <+: place
      · have under' := under.trans (List.prefix_append place below)
        rw [if_pos under] at first
        rw [if_pos under'] at second
        split at first
        case isTrue eq =>
          subst eq
          split at second
          case isTrue eq => simpa using eq
          · cases second
        · cases first
      · rw [if_neg under] at first
        by_cases under' : path <+: place ++ below
        · -- The new write would be below an old one, on whose path there was none.
          rcases List.prefix_or_prefix_of_prefix under' (List.prefix_append place below) with
            above | above
          · exact absurd above under
          · rw [free place above] at first
            cases first
        · rw [if_neg under'] at second
          exact leaves place below v w first second

end FImmutableTree

/-- **Many writes at once.**  The tree is in order, and "a write there is always a
leaf". -/
structure FCompoundWrite {κ : Type} (keys : KeySet κ) where
  writeTree : FImmutableTree κ (FNode κ)
  ordered : writeTree.Ordered keys.cmp
  leaves : writeTree.Leaves keys.cmp

namespace FCompoundWrite

/-- The node that is written at exactly this path. -/
def writeAt (write : FCompoundWrite keys) (path : FPath κ) : Option (FNode κ) :=
  write.writeTree.valueAtPath keys.cmp path

/-- `emptyWrite`. -/
def emptyWrite : FCompoundWrite keys where
  writeTree := .empty
  ordered := FImmutableTree.ordered_empty
  leaves := FImmutableTree.leaves_empty

/-- `enumerateWrites:`, as the list of what it meets. -/
def writes (write : FCompoundWrite keys) : List (FPath κ × FNode κ) := write.writeTree.forEach

/-- `isEmpty`. -/
def isEmpty (write : FCompoundWrite keys) : Bool := write.writeTree.isEmpty

/-- `completeNodeAtPath:`. -/
def completeNodeAtPath (write : FCompoundWrite keys) (path : FPath κ) : Option (FNode κ) :=
  (write.writeTree.findRootMostValueAndPath keys.cmp path).map fun rootMost =>
    rootMost.2.getChild (rootMost.1.relativePathFrom path)

/-- `hasCompleteWriteAtPath:`. -/
def hasCompleteWriteAtPath (write : FCompoundWrite keys) (path : FPath κ) : Bool :=
  (write.completeNodeAtPath path).isSome

section Applying

variable (keys)

mutual

/-- `applySubtreeWrite:atPath:toNode:`.  A key of the tree is a piece of a path, so
`childFromString:` appends it as it is. -/
def applySubtreeWrite : FImmutableTree κ (FNode κ) → FPath κ → FNode κ → FNode κ
  | .mk (some value) _, relativePath, node => keys.updateChild node relativePath value
  | .mk none children, relativePath, node => applyChildWrites children relativePath node

def applyChildWrites : List (κ × FImmutableTree κ (FNode κ)) → FPath κ → FNode κ → FNode κ
  | [], _, node => node
  | (childKey, childTree) :: rest, relativePath, node =>
      applyChildWrites rest relativePath
        (applySubtreeWrite childTree (relativePath ++ [childKey]) node)

end

end Applying

/-- `applyToNode:`. -/
def applyToNode (write : FCompoundWrite keys) (node : FNode κ) : FNode κ :=
  applySubtreeWrite keys write.writeTree [] node

section Operations


/-- `addWrite:atPath:`. -/
def addWrite (write : FCompoundWrite keys) (node : FNode κ) (path : FPath κ) :
    FCompoundWrite keys where
  writeTree := write.writeTree.addWrite keys path node
  ordered := write.ordered.addWrite path node
  leaves := write.leaves.addWrite write.ordered path node

/-- `addCompoundWrite:atPath:`. -/
def addCompoundWrite (write compoundWrite : FCompoundWrite keys) (path : FPath κ) :
    FCompoundWrite keys :=
  compoundWrite.writes.foldl (fun newWrite w => newWrite.addWrite w.2 (path ++ w.1)) write

/-- Cutting a part out leaves no write above another. -/
theorem leaves_setTree_empty (write : FCompoundWrite keys) (path : FPath κ) :
    (write.writeTree.setTree keys.cmp .empty path).Leaves keys.cmp := by
  intro place rest v w first second
  rw [FImmutableTree.valueAtPath_setTree write.ordered] at first second
  split at first
  · rw [FImmutableTree.valueAtPath_empty] at first
    cases first
  · split at second
    · rw [FImmutableTree.valueAtPath_empty] at second
      cases second
    · exact write.leaves place rest v w first second

/-- `removeWriteAtPath:`. -/
def removeWriteAtPath (write : FCompoundWrite keys) (path : FPath κ) : FCompoundWrite keys :=
  if path = [] then emptyWrite
  else
    { writeTree := write.writeTree.setTree keys.cmp .empty path
      ordered := write.ordered.setTree FImmutableTree.ordered_empty path
      leaves := write.leaves_setTree_empty path }

/-- `childCompoundWriteAtPath:`. -/
def childCompoundWriteAtPath (write : FCompoundWrite keys) (path : FPath κ) :
    FCompoundWrite keys :=
  if path = [] then write
  else
    match write.completeNodeAtPath path with
    | some shadowingNode =>
        { writeTree := .ofValue shadowingNode
          ordered := FImmutableTree.ordered_ofValue shadowingNode
          leaves := FImmutableTree.leaves_ofValue shadowingNode }
    | none =>
        { writeTree := write.writeTree.subtreeAtPath keys.cmp path
          ordered := write.ordered.subtreeAtPath path
          leaves := by
            intro place rest v w first second
            rw [FImmutableTree.valueAtPath_subtreeAtPath] at first second
            rw [← List.append_assoc] at second
            exact write.leaves (path ++ place) rest v w first second }

end Operations

/-! ## What is written where -/

section Writes

variable {write write' : FCompoundWrite keys}

omit [DecidableEq κ] in
/-- The writes that are enumerated are those the tree holds. -/
theorem mem_writes {path : FPath κ} {node : FNode κ} :
    (path, node) ∈ write.writes ↔ write.writeAt path = some node :=
  FImmutableTree.mem_forEach write.ordered

theorem completeNodeAtPath_of_writeAt {place : FPath κ} {node : FNode κ}
    (holds : write.writeAt place = some node) (rest : FPath κ) :
    write.completeNodeAtPath (place ++ rest) = some (node.getChild rest) := by
  have rootMost := write.leaves.findRootMostValueAndPath (List.prefix_append place rest) holds
  rw [completeNodeAtPath, rootMost]
  simp

/-- A node is complete unless nothing is written on the way to it. -/
theorem completeNodeAtPath_eq_none {path : FPath κ} :
    write.completeNodeAtPath path = none ↔ ∀ q, q <+: path → write.writeAt q = none := by
  rw [completeNodeAtPath, Option.map_eq_none_iff]
  exact FImmutableTree.findRootMostValueAndPath_eq_none

/-- A complete node is below a write. -/
theorem exists_of_completeNodeAtPath {path : FPath κ} {node : FNode κ}
    (complete : write.completeNodeAtPath path = some node) :
    ∃ place rest value, path = place ++ rest ∧ write.writeAt place = some value ∧
      node = value.getChild rest := by
  obtain ⟨⟨place, value⟩, found, rfl⟩ := Option.map_eq_some_iff.mp complete
  obtain ⟨⟨rest, rfl⟩, holds⟩ := FImmutableTree.findRootMostValueAndPath_eq_some found
  exact ⟨place, rest, value, rfl, holds, by simp⟩

theorem writeAt_addWrite_of_writeAt {place : FPath κ} {value : FNode κ}
    (holds : write.writeAt place = some value) (rest : FPath κ) (node : FNode κ)
    (path : FPath κ) :
    (write.addWrite node (place ++ rest)).writeAt path =
      if path = place then some (keys.updateChild value rest node) else write.writeAt path :=
  FImmutableTree.valueAtPath_addWrite_of_value write.ordered write.leaves holds rest node path

theorem writeAt_addWrite_of_free {place : FPath κ}
    (free : ∀ q, q <+: place → write.writeAt q = none) (node : FNode κ) (path : FPath κ) :
    (write.addWrite node place).writeAt path =
      if place <+: path then if path = place then some node else none else write.writeAt path :=
  FImmutableTree.valueAtPath_addWrite_of_none write.ordered free node path

/-- Taken to a place that no write covers, a compound write holds what it holds below. -/
theorem writeAt_childCompoundWriteAtPath {place : FPath κ}
    (free : write.completeNodeAtPath place = none) (path : FPath κ) :
    (write.childCompoundWriteAtPath place).writeAt path = write.writeAt (place ++ path) := by
  rw [childCompoundWriteAtPath]
  split
  case isTrue root =>
    subst root
    rfl
  case isFalse =>
    rw [free]
    exact FImmutableTree.valueAtPath_subtreeAtPath place path

/-- Taken to a place that a write covers, it holds the one node there. -/
theorem childCompoundWriteAtPath_of_complete {place : FPath κ} {node : FNode κ}
    (complete : write.completeNodeAtPath place = some node) :
    (write.childCompoundWriteAtPath place).writeAt [] = some node := by
  rw [childCompoundWriteAtPath]
  split
  case isTrue root =>
    subst root
    obtain ⟨top, rest, value, eq, holds, rfl⟩ := exists_of_completeNodeAtPath complete
    obtain ⟨rfl, rfl⟩ := List.append_eq_nil_iff.mp eq.symm
    exact holds
  case isFalse =>
    rw [complete]
    rfl

/-! ## One write after the other -/

/-- Writes collected one after the other. -/
def addWrites (write : FCompoundWrite keys) (ws : List (FPath κ × FNode κ)) :
    FCompoundWrite keys :=
  ws.foldl (fun write w => write.addWrite w.2 w.1) write

@[simp] theorem addWrites_nil : write.addWrites [] = write := rfl

@[simp] theorem addWrites_cons (w : FPath κ × FNode κ) (ws : List (FPath κ × FNode κ)) :
    write.addWrites (w :: ws) = (write.addWrite w.2 w.1).addWrites ws := rfl

theorem addWrites_append (ws ws' : List (FPath κ × FNode κ)) :
    write.addWrites (ws ++ ws') = (write.addWrites ws).addWrites ws' := List.foldl_append

/-- Adding a compound write is adding its writes, moved to the place. -/
theorem addCompoundWrite_eq_addWrites (compoundWrite : FCompoundWrite keys) (path : FPath κ) :
    write.addCompoundWrite compoundWrite path =
      write.addWrites (compoundWrite.writes.map fun w => (path ++ w.1, w.2)) := by
  rw [addCompoundWrite, addWrites, List.foldl_map]

/-- What a write leaves at a place depends on what was there and on the writes it goes
into. -/
theorem writeAt_addWrite_congr {place path : FPath κ}
    (above : ∀ q, q <+: place → write.writeAt q = write'.writeAt q)
    (here : write.writeAt path = write'.writeAt path) (node : FNode κ) :
    (write.addWrite node place).writeAt path = (write'.addWrite node place).writeAt path := by
  cases complete : write.completeNodeAtPath place with
  | some c =>
      obtain ⟨top, rest, value, rfl, holds, -⟩ := exists_of_completeNodeAtPath complete
      have holds' := (above top (List.prefix_append top rest)).symm.trans holds
      rw [writeAt_addWrite_of_writeAt holds, writeAt_addWrite_of_writeAt holds', here]
  | none =>
      have free := completeNodeAtPath_eq_none.mp complete
      have free' : ∀ q, q <+: place → write'.writeAt q = none := fun q near =>
        (above q near).symm.trans (free q near)
      rw [writeAt_addWrite_of_free free, writeAt_addWrite_of_free free', here]

theorem writeAt_addWrites_congr (same : write.writeAt = write'.writeAt)
    (ws : List (FPath κ × FNode κ)) :
    (write.addWrites ws).writeAt = (write'.addWrites ws).writeAt := by
  induction ws generalizing write write' with
  | nil => exact same
  | cons w rest ih =>
      refine ih ?_
      funext path
      exact writeAt_addWrite_congr (fun q _ => congrFun same q) (congrFun same path) w.2

/-- A write changes what is written at its place, below, or where it goes into. -/
theorem writeAt_addWrite_of_ne {place path : FPath κ} (apart : ¬ place <+: path)
    (other : path <+: place → write.writeAt path = none) (node : FNode κ) :
    (write.addWrite node place).writeAt path = write.writeAt path := by
  cases complete : write.completeNodeAtPath place with
  | some c =>
      obtain ⟨top, rest, value, rfl, holds, -⟩ := exists_of_completeNodeAtPath complete
      rw [writeAt_addWrite_of_writeAt holds, if_neg]
      rintro rfl
      rw [other (List.prefix_append path rest)] at holds
      cases holds
  | none => rw [writeAt_addWrite_of_free (completeNodeAtPath_eq_none.mp complete), if_neg apart]

/-- A write with none above it takes the place of what is below. -/
theorem writeAt_addWrite_of_bare {place : FPath κ}
    (bare : ∀ q, q <+: place → q ≠ place → write.writeAt q = none) (node : FNode κ)
    {path : FPath κ}
    (under : place <+: path) :
    (write.addWrite node place).writeAt path = if path = place then some node else none := by
  cases here : write.writeAt place with
  | some value =>
      have written := writeAt_addWrite_of_writeAt here [] node path
      rw [List.append_nil] at written
      rw [written]
      split
      · rfl
      case isFalse below =>
        obtain ⟨rest, rfl⟩ := under
        cases further : write.writeAt (place ++ rest) with
        | none => rfl
        | some w =>
            rw [write.leaves place rest value w here further, List.append_nil] at below
            exact absurd rfl below
  | none =>
      have free : ∀ q, q <+: place → write.writeAt q = none := by
        intro q near
        by_cases same : q = place
        · rw [same, here]
        · exact bare q near same
      rw [writeAt_addWrite_of_free free, if_pos under]

/-- Only what was written is there. -/
theorem writeAt_addWrite_of_unwritten {place path : FPath κ} (other : place ≠ path)
    (free : write.writeAt path = none) (node : FNode κ) :
    (write.addWrite node place).writeAt path = none := by
  cases complete : write.completeNodeAtPath place with
  | some c =>
      obtain ⟨top, rest, value, rfl, holds, -⟩ := exists_of_completeNodeAtPath complete
      rw [writeAt_addWrite_of_writeAt holds, if_neg, free]
      rintro rfl
      rw [free] at holds
      cases holds
  | none =>
      rw [writeAt_addWrite_of_free (completeNodeAtPath_eq_none.mp complete)]
      simp [Ne.symm other, free]

/-- Where neither a tree nor the writes that are added hold anything, nothing is held. -/
theorem writeAt_addWrites_of_unwritten {ws : List (FPath κ × FNode κ)} {path : FPath κ}
    (other : ∀ w ∈ ws, w.1 ≠ path) (free : write.writeAt path = none) :
    (write.addWrites ws).writeAt path = none := by
  induction ws generalizing write with
  | nil => exact free
  | cons w rest ih =>
      refine ih (fun w' mem => other w' (List.mem_cons_of_mem _ mem)) ?_
      exact writeAt_addWrite_of_unwritten (other w List.mem_cons_self) free w.2

/-! ## Histories that differ below a place -/

/-- Two compound writes that are the same outside a place, with nothing above it. -/
structure SameOutside (root : FPath κ) (write write' : FCompoundWrite keys) : Prop where
  outside : ∀ path, ¬ root <+: path → write.writeAt path = write'.writeAt path
  bare : ∀ path, path <+: root → path ≠ root → write.writeAt path = none

namespace SameOutside

variable {root : FPath κ}

omit [DecidableEq κ] in
theorem bare' (same : SameOutside root write write') (path : FPath κ) (above : path <+: root)
    (strict : path ≠ root) : write'.writeAt path = none := by
  rw [← same.outside path fun below => strict (above.eq_of_length_le below.length_le),
    same.bare path above strict]

/-- A write at or below the place changes nothing outside. -/
theorem addWrite_below (bare : ∀ path, path <+: root → path ≠ root → write.writeAt path = none)
    {place : FPath κ} (under : root <+: place) (node : FNode κ) {path : FPath κ}
    (outside : ¬ root <+: path) :
    (write.addWrite node place).writeAt path = write.writeAt path := by
  refine writeAt_addWrite_of_ne (fun below => outside (under.trans below)) ?_ node
  intro above
  rcases List.prefix_or_prefix_of_prefix above under with near | near
  · exact bare path near fun same => outside (same ▸ List.prefix_refl _)
  · exact absurd near outside

/-- A write that does not cover the place keeps the difference within it. -/
theorem addWrite (same : SameOutside root write write') {place : FPath κ}
    (uncovered : ¬ place <+: root) (node : FNode κ) :
    SameOutside root (write.addWrite node place) (write'.addWrite node place) where
  outside path away := by
    by_cases under : root <+: place
    · rw [addWrite_below same.bare under node away, addWrite_below same.bare' under node away,
        same.outside path away]
    · exact writeAt_addWrite_congr
        (fun q near => same.outside q fun below => under (below.trans near))
        (same.outside path away) node
  bare path above strict :=
    writeAt_addWrite_of_unwritten (by rintro rfl; exact uncovered above)
      (same.bare path above strict) node

/-- Writes at or below the place make a difference within it. -/
theorem addWrites_below (same : SameOutside root write write') {ws : List (FPath κ × FNode κ)}
    (under : ∀ w ∈ ws, root <+: w.1) : SameOutside root (write.addWrites ws) write' := by
  induction ws generalizing write with
  | nil => exact same
  | cons w rest ih =>
      have first : ∀ path, ¬ root <+: path →
          (write.addWrite w.2 w.1).writeAt path = write.writeAt path := fun path =>
        addWrite_below same.bare (under w List.mem_cons_self) w.2
      refine ih ⟨?_, ?_⟩ fun w' mem => under w' (List.mem_cons_of_mem _ mem)
      · intro path away
        exact (first path away).trans (same.outside path away)
      · intro path above strict
        rw [first path fun below => strict (above.eq_of_length_le below.length_le),
          same.bare path above strict]

/-- A write that covers the place ends the difference. -/
theorem addWrite_covering (same : SameOutside root write write') {place : FPath κ}
    (covers : place <+: root) (node : FNode κ) :
    (write.addWrite node place).writeAt = (write'.addWrite node place).writeAt := by
  have strict : ∀ q, q <+: place → q ≠ place → q ≠ root := by
    rintro q near other rfl
    exact other (near.eq_of_length_le covers.length_le)
  have bare : ∀ q, q <+: place → q ≠ place → write.writeAt q = none := fun q near other =>
    same.bare q (near.trans covers) (strict q near other)
  have bare' : ∀ q, q <+: place → q ≠ place → write'.writeAt q = none := fun q near other =>
    same.bare' q (near.trans covers) (strict q near other)
  funext path
  by_cases under : place <+: path
  · rw [writeAt_addWrite_of_bare bare node under, writeAt_addWrite_of_bare bare' node under]
  · have other : path ≠ place := fun eq => under (eq ▸ List.prefix_refl _)
    rw [writeAt_addWrite_of_ne under (fun above => bare path above other) node,
      writeAt_addWrite_of_ne under (fun above => bare' path above other) node,
      same.outside path fun below => under (covers.trans below)]

/-- **Once a later write covers the place, the histories agree.** -/
theorem addWrites (same : SameOutside root write write') {ws : List (FPath κ × FNode κ)}
    (covered : ∃ w ∈ ws, w.1 <+: root) :
    (write.addWrites ws).writeAt = (write'.addWrites ws).writeAt := by
  induction ws generalizing write write' with
  | nil => simp at covered
  | cons w rest ih =>
      rw [addWrites_cons, addWrites_cons]
      by_cases first : w.1 <+: root
      · exact writeAt_addWrites_congr (same.addWrite_covering first w.2) rest
      · refine ih (same.addWrite first w.2) ?_
        obtain ⟨w', mem, covers⟩ := covered
        rcases List.mem_cons.mp mem with rfl | later
        · exact absurd covers first
        · exact ⟨w', later, covers⟩

end SameOutside

/-! ## Taking writes out again -/

/-- What is held after `removeWriteAtPath:` is what was held elsewhere. -/
theorem writeAt_removeWriteAtPath (place path : FPath κ) :
    (write.removeWriteAtPath place).writeAt path =
      if place <+: path then none else write.writeAt path := by
  rw [removeWriteAtPath]
  split
  case isTrue root =>
    subst root
    simp [writeAt, emptyWrite]
  case isFalse =>
    show (write.writeTree.setTree keys.cmp .empty place).valueAtPath keys.cmp path = _
    rw [FImmutableTree.valueAtPath_setTree write.ordered, FImmutableTree.valueAtPath_empty]
    rfl

/-- A compound write with writes at some places, beside one with nothing above or below
them and the same elsewhere. -/
structure Beside (places : List (FPath κ)) (write write' : FCompoundWrite keys) : Prop where
  outside : ∀ path, (∀ p ∈ places, ¬ p <+: path) → write.writeAt path = write'.writeAt path
  free : ∀ p ∈ places, ∀ q, p <+: q ∨ q <+: p → write'.writeAt q = none

namespace Beside

variable {places : List (FPath κ)}

/-- One more of the writes. -/
theorem addWrite_mem (beside : Beside places write write') {place : FPath κ}
    (mem : place ∈ places)
    (node : FNode κ) : Beside places (write.addWrite node place) write' where
  outside path away := by
    rw [writeAt_addWrite_of_ne (away place mem) ?_ node, beside.outside path away]
    intro above
    rw [beside.outside path away, beside.free place mem path (Or.inr above)]
  free := beside.free

/-- A write elsewhere. -/
theorem addWrite (beside : Beside places write write') {place : FPath κ}
    (apart : ∀ p ∈ places, ¬ p <+: place ∧ ¬ place <+: p) (node : FNode κ) :
    Beside places (write.addWrite node place) (write'.addWrite node place) where
  outside path away :=
    writeAt_addWrite_congr
      (fun q near => beside.outside q fun p mem below => (apart p mem).1 (below.trans near))
      (beside.outside path away) node
  free p mem q near := by
    refine writeAt_addWrite_of_unwritten ?_ (beside.free p mem q near) node
    rintro rfl
    exact near.elim (apart p mem).1 (apart p mem).2

theorem addWrites_mem (beside : Beside places write write') {ws : List (FPath κ × FNode κ)}
    (mem : ∀ w ∈ ws, w.1 ∈ places) : Beside places (write.addWrites ws) write' := by
  induction ws generalizing write with
  | nil => exact beside
  | cons w rest ih =>
      exact ih (beside.addWrite_mem (mem w List.mem_cons_self) w.2)
        fun w' later => mem w' (List.mem_cons_of_mem _ later)

theorem addWrites (beside : Beside places write write') {ws : List (FPath κ × FNode κ)}
    (apart : ∀ w ∈ ws, ∀ p ∈ places, ¬ p <+: w.1 ∧ ¬ w.1 <+: p) :
    Beside places (write.addWrites ws) (write'.addWrites ws) := by
  induction ws generalizing write write' with
  | nil => exact beside
  | cons w rest ih =>
      exact ih (beside.addWrite (apart w List.mem_cons_self) w.2)
        fun w' later => apart w' (List.mem_cons_of_mem _ later)

/-- **Cutting the writes out leaves the rest.** -/
theorem remove (beside : Beside places write write') :
    (places.foldl removeWriteAtPath write).writeAt = write'.writeAt := by
  have cut : ∀ (ps : List (FPath κ)) (w : FCompoundWrite keys) (path : FPath κ),
      (ps.foldl removeWriteAtPath w).writeAt path =
        if ∃ p ∈ ps, p <+: path then none else w.writeAt path := by
    intro ps w path
    induction ps generalizing w with
    | nil => simp
    | cons p rest ih =>
        rw [List.foldl_cons, ih, writeAt_removeWriteAtPath]
        by_cases here : p <+: path <;> simp [here]
  funext path
  rw [cut]
  split
  case isTrue under =>
    obtain ⟨p, mem, below⟩ := under
    exact (beside.free p mem path (Or.inl below)).symm
  case isFalse away =>
    push Not at away
    exact beside.outside path away

end Beside

end Writes

end FCompoundWrite

end DocumentRelay
