import DocumentRelay.Firebase.CompoundWriteValues

/-!
# Pending writes

`FWriteTree`: the writes the user has made and the server has not answered yet, and
the data the app is shown in the meantime.  The tree keeps every pending write, oldest
first, and beside them `visibleWrites`, the compound write of all of them, which is
what readers are given.

Adding a write is easy.  Removing one (it was acknowledged, or refused) looks at the
others first: if a later write covers it there is nothing to do; if others lie within
it, the tree is built again; otherwise its writes are cut out of the compound write.

* `removeWriteId_layered` — what is left is the compound write of what is left, if no
  other write is *tangled* with the removed one, that is overlaps it without this check
  seeing it.  The check goes by the paths of whole records; a merge that is made above
  the removed write and reaches below it is not seen, nor is an earlier write above it.
* `untangled_of_overwrites` — among overwrites the oldest is never tangled.
* `calculateCompleteEventCacheAtPath_spec` — what a reader is shown at any place is
  what the server has there, under all pending writes made in order.
* `calculateCompleteEventCacheAtPath_excluding` — a transaction is shown the same under
  the pending writes it does not leave out, hidden ones included.

Priorities are left out.
-/

namespace DocumentRelay

/-- What a record writes: a node over what is there, or the writes of an update. -/
inductive FWriteData {κ : Type} (keys : KeySet κ) where
  | overwrite (node : FNode κ)
  | merge (write : FCompoundWrite keys)

/-- A pending write of the user. -/
structure FWriteRecord {κ : Type} (keys : KeySet κ) where
  path : FPath κ
  data : FWriteData keys
  writeId : ℤ
  visible : Bool

/-- `FWriteTree`: all pending writes, oldest first, and what they make together. -/
structure FWriteTree {κ : Type} (keys : KeySet κ) where
  visibleWrites : FCompoundWrite keys
  allWrites : List (FWriteRecord keys)
  lastWriteId : ℤ

variable {κ : Type} [DecidableEq κ] {keys : KeySet κ}

/-- The single writes of a record. -/
def FWriteRecord.writes (record : FWriteRecord keys) : List (FPath κ × FNode κ) :=
  match record.data with
  | .overwrite node => [(record.path, node)]
  | .merge merge => merge.writes.map fun w => (record.path ++ w.1, w.2)

/-- `record:containsPath:`. -/
def FWriteRecord.containsPath (record : FWriteRecord keys) (path : FPath κ) : Bool :=
  match record.data with
  | .overwrite _ => record.path.contains path
  | .merge merge => merge.writes.any fun w => FPath.contains (record.path ++ w.1) path

namespace FWriteTree

/-- `init`. -/
def init : FWriteTree keys where
  visibleWrites := .emptyWrite
  allWrites := []
  lastWriteId := -1

/-- The loop of `removeWriteId:` that looks for other writes, `i` of them still to come,
the last one first.  It carries `removedWriteWasVisible` and
`removedWriteOverlapsWithOtherWrites`. -/
def scanWrites (writeToRemove : FWriteRecord keys) (index : ℕ)
    (allWrites : List (FWriteRecord keys)) :
    ℕ → Bool → Bool → Bool × Bool
  | 0, wasVisible, overlaps => (wasVisible, overlaps)
  | i + 1, wasVisible, overlaps =>
      if !wasVisible then (wasVisible, overlaps)
      else
        match allWrites[i]? with
        | none => scanWrites writeToRemove index allWrites i wasVisible overlaps
        | some currentWrite =>
            if currentWrite.visible then
              if i ≥ index && currentWrite.containsPath writeToRemove.path then
                -- The removed write was completely shadowed by a subsequent write.
                scanWrites writeToRemove index allWrites i false overlaps
              else if writeToRemove.path.contains currentWrite.path then
                scanWrites writeToRemove index allWrites i wasVisible true
              else scanWrites writeToRemove index allWrites i wasVisible overlaps
            else scanWrites writeToRemove index allWrites i wasVisible overlaps

section Operations


/-- `addOverwriteAtPath:newData:writeId:isVisible:`.  It asserts that the id is a new
one, which `FRepo` sees to. -/
def addOverwriteAtPath (tree : FWriteTree keys) (path : FPath κ)
    (newData : FNode κ) (writeId : ℤ)
    (visible : Bool) : FWriteTree keys where
  visibleWrites :=
    if visible then tree.visibleWrites.addWrite newData path else tree.visibleWrites
  allWrites := tree.allWrites ++ [⟨path, .overwrite newData, writeId, visible⟩]
  lastWriteId := writeId

/-- `addMergeAtPath:changedChildren:writeId:`. -/
def addMergeAtPath (tree : FWriteTree keys) (path : FPath κ)
    (changedChildren : FCompoundWrite keys)
    (writeId : ℤ) : FWriteTree keys where
  visibleWrites := tree.visibleWrites.addCompoundWrite changedChildren path
  allWrites := tree.allWrites ++ [⟨path, .merge changedChildren, writeId, true⟩]
  lastWriteId := writeId

/-- One turn of `layerTreeFromWrites:filter:treeRoot:`. -/
def layerRecord (treeRoot : FPath κ) (compoundWrite : FCompoundWrite keys)
    (record : FWriteRecord keys) : FCompoundWrite keys :=
  match record.data with
  | .overwrite node =>
      if treeRoot.contains record.path then
        compoundWrite.addWrite node (treeRoot.relativePathFrom record.path)
      else if record.path.contains treeRoot then
        compoundWrite.addWrite (node.getChild (record.path.relativePathFrom treeRoot)) []
      else compoundWrite
  | .merge merge =>
      if treeRoot.contains record.path then
        compoundWrite.addCompoundWrite merge (treeRoot.relativePathFrom record.path)
      else if record.path.contains treeRoot then
        let relativePath := record.path.relativePathFrom treeRoot
        if relativePath = [] then compoundWrite.addCompoundWrite merge []
        else
          match merge.completeNodeAtPath relativePath with
          | some child => compoundWrite.addWrite (child.getChild relativePath.tail) []
          | none => compoundWrite
      else compoundWrite

/-- `layerTreeFromWrites:filter:treeRoot:`. -/
def layerTreeFromWrites (writes : List (FWriteRecord keys)) (filter : FWriteRecord keys → Bool)
    (treeRoot : FPath κ) : FCompoundWrite keys :=
  writes.foldl (fun compoundWrite record =>
    if filter record then layerRecord treeRoot compoundWrite record else compoundWrite)
      .emptyWrite

/-- `resetTree`.  The default filter keeps every write, hidden ones too. -/
def resetTree (tree : FWriteTree keys) : FWriteTree keys where
  visibleWrites := layerTreeFromWrites tree.allWrites (fun _ => true) []
  allWrites := tree.allWrites
  lastWriteId := (tree.allWrites.getLast?.map fun record => record.writeId).getD (-1)

/-- `removeWriteId:`.  It is an error if there is no such write. -/
def removeWriteId (tree : FWriteTree keys) (writeId : ℤ) : Option (Bool × FWriteTree keys) := do
  let index ← tree.allWrites.findIdx? fun record => record.writeId = writeId
  let writeToRemove ← tree.allWrites[index]?
  let allWrites := tree.allWrites.eraseIdx index
  let tree := { tree with allWrites }
  let flags :=
    scanWrites writeToRemove index allWrites allWrites.length writeToRemove.visible false
  if !flags.1 then return (false, tree)
  else if flags.2 then return (true, tree.resetTree)
  else
    match writeToRemove.data with
    | .overwrite _ =>
        let visibleWrites := tree.visibleWrites.removeWriteAtPath writeToRemove.path
        return (true, { tree with visibleWrites })
    | .merge merge =>
        let visibleWrites := merge.writes.foldl (fun visibleWrites w =>
          visibleWrites.removeWriteAtPath (writeToRemove.path ++ w.1)) tree.visibleWrites
        return (true, { tree with visibleWrites })

/-- `calculateCompleteEventCacheAtPath:completeServerCache:` with `excludeWriteIds:` and
`includeHiddenWrites:`.  Views ask without ids and without hidden writes; transactions leave
their own writes out and see the hidden ones. -/
def calculateCompleteEventCacheAtPath (tree : FWriteTree keys) (treePath : FPath κ)
    (completeServerCache : Option (FNode κ)) (writeIdsToExclude : Option (List ℤ))
    (includeHiddenWrites : Bool) : Option (FNode κ) :=
  if writeIdsToExclude = none ∧ !includeHiddenWrites then
    match tree.visibleWrites.completeNodeAtPath treePath with
    | some shadowingNode => some shadowingNode
    | none =>
        let subMerge := tree.visibleWrites.childCompoundWriteAtPath treePath
        if subMerge.isEmpty then completeServerCache
        else if completeServerCache = none ∧ !subMerge.hasCompleteWriteAtPath [] then none
        else some (subMerge.applyToNode (completeServerCache.getD KeyTree.empty))
  else
    let merge := tree.visibleWrites.childCompoundWriteAtPath treePath
    if !includeHiddenWrites && merge.isEmpty then completeServerCache
    else if !includeHiddenWrites && completeServerCache.isNone &&
        !merge.hasCompleteWriteAtPath [] then none
    else
      let filter (record : FWriteRecord keys) : Bool :=
        (record.visible || includeHiddenWrites) &&
          (writeIdsToExclude.all fun writeIds => record.writeId ∉ writeIds) &&
          (record.path.contains treePath || treePath.contains record.path)
      let mergeAtPath := layerTreeFromWrites tree.allWrites filter treePath
      some (mergeAtPath.applyToNode (completeServerCache.getD KeyTree.empty))

end Operations

/-! ## The search for other writes -/

section Scan

variable {record : FWriteRecord keys} {index : ℕ} {all : List (FWriteRecord keys)}

/-- Once the write is known not to be visible, the search is over. -/
theorem scanWrites_of_hidden (i : ℕ) (overlaps : Bool) :
    scanWrites record index all i false overlaps = (false, overlaps) := by
  cases i <;> rfl

/-- A write that turns out shadowed is shadowed by a later one. -/
theorem exists_of_scanWrites_eq_false {i : ℕ} {overlaps : Bool}
    (shadowed : (scanWrites record index all i true overlaps).1 = false) :
    ∃ j other, index ≤ j ∧ all[j]? = some other ∧ other.visible = true ∧
      other.containsPath record.path = true := by
  induction i generalizing overlaps with
  | zero => cases shadowed
  | succ i ih =>
      rw [scanWrites] at shadowed
      simp only [Bool.not_true, Bool.false_eq_true, if_false] at shadowed
      split at shadowed
      · exact ih shadowed
      case h_2 other here =>
        split at shadowed
        case isTrue visible =>
          split at shadowed
          case isTrue covers =>
            rw [Bool.and_eq_true, decide_eq_true_eq] at covers
            exact ⟨i, other, covers.1, here, visible, covers.2⟩
          case isFalse =>
            split at shadowed
            · exact ih shadowed
            · exact ih shadowed
        · exact ih shadowed

/-- An overlap that was seen is not forgotten. -/
theorem scanWrites_overlaps (i : ℕ) (wasVisible : Bool) :
    (scanWrites record index all i wasVisible true).2 = true := by
  induction i generalizing wasVisible with
  | zero => rfl
  | succ i ih =>
      rw [scanWrites]
      repeat' split
      all_goals first
        | rfl
        | exact ih _

/-- A search that sees neither a shadow nor an overlap, by its first turn. -/
theorem scanWrites_succ_eq_apart {i : ℕ}
    (apart : scanWrites record index all (i + 1) true false = (true, false)) :
    scanWrites record index all i true false = (true, false) ∧
      ∀ other, all[i]? = some other → other.visible = true →
        ¬ (index ≤ i ∧ other.containsPath record.path = true) ∧
          ¬ record.path <+: other.path := by
  rw [scanWrites] at apart
  simp only [Bool.not_true, Bool.false_eq_true, if_false] at apart
  split at apart
  case h_1 missing => exact ⟨apart, fun other here => by rw [missing] at here; cases here⟩
  case h_2 current here =>
    split at apart
    case isTrue visible =>
      split at apart
      case isTrue =>
        rw [scanWrites_of_hidden] at apart
        cases apart
      case isFalse uncovered =>
        split at apart
        case isTrue =>
          have seen := congrArg Prod.snd apart
          rw [scanWrites_overlaps] at seen
          cases seen
        case isFalse outside =>
          refine ⟨apart, ?_⟩
          intro other same shown
          obtain rfl := Option.some.inj (here.symm.trans same)
          rw [Bool.and_eq_true, decide_eq_true_eq] at uncovered
          exact ⟨uncovered, fun within => outside (FPath.contains_iff.mpr within)⟩
    case isFalse hidden =>
      refine ⟨apart, ?_⟩
      intro other same shown
      obtain rfl := Option.some.inj (here.symm.trans same)
      exact absurd shown hidden

/-- If neither a shadow nor an overlap was seen, there is none. -/
theorem scanWrites_eq_apart {i : ℕ}
    (apart : scanWrites record index all i true false = (true, false)) {j : ℕ} (lt : j < i)
    {other : FWriteRecord keys} (here : all[j]? = some other) (visible : other.visible = true) :
    ¬ (index ≤ j ∧ other.containsPath record.path = true) ∧ ¬ record.path <+: other.path := by
  induction i with
  | zero => omega
  | succ i ih =>
      obtain ⟨earlier, now⟩ := scanWrites_succ_eq_apart apart
      rcases Nat.lt_succ_iff_lt_or_eq.mp lt with before | rfl
      · exact ih earlier before
      · exact now other here visible

end Scan

/-! ## Removing a write -/

section Layers

variable {tree : FWriteTree keys}

/-- All the single writes of some records, in order. -/
def writesOf (records : List (FWriteRecord keys)) : List (FPath κ × FNode κ) :=
  records.flatMap fun record => record.writes

/-- Records layered one over the other. -/
def layersOf (records : List (FWriteRecord keys)) : FCompoundWrite keys :=
  FCompoundWrite.emptyWrite.addWrites (writesOf records)

theorem layersOf_append (records records' : List (FWriteRecord keys)) :
    layersOf (records ++ records') = (layersOf records).addWrites (writesOf records') := by
  rw [layersOf, layersOf, writesOf, writesOf, writesOf, List.flatMap_append,
    FCompoundWrite.addWrites_append]

theorem layersOf_cons (earlier : List (FWriteRecord keys)) (record : FWriteRecord keys)
    (later : List (FWriteRecord keys)) :
    layersOf (earlier ++ record :: later) =
      ((layersOf earlier).addWrites record.writes).addWrites (writesOf later) := by
  rw [layersOf_append, writesOf, List.flatMap_cons, FCompoundWrite.addWrites_append, writesOf]

/-- At the root every record goes in whole. -/
theorem layerRecord_root (compoundWrite : FCompoundWrite keys) (record : FWriteRecord keys) :
    layerRecord [] compoundWrite record = compoundWrite.addWrites record.writes := by
  rw [layerRecord, FWriteRecord.writes]
  cases record.data with
  | overwrite node => simp [FPath.relativePathFrom, FPath.contains]
  | merge merge =>
      simp [FPath.relativePathFrom, FPath.contains,
        FCompoundWrite.addCompoundWrite_eq_addWrites]

/-- What `resetTree` builds. -/
theorem layerTreeFromWrites_root (records : List (FWriteRecord keys)) :
    layerTreeFromWrites records (fun _ => true) [] = layersOf records := by
  rw [layerTreeFromWrites, layersOf]
  generalize FCompoundWrite.emptyWrite = start
  induction records generalizing start with
  | nil => rfl
  | cons record rest ih =>
      rw [List.foldl_cons, if_pos rfl, layerRecord_root, ih, writesOf, writesOf,
        List.flatMap_cons,
        FCompoundWrite.addWrites_append]

/-- **The visible writes are the pending writes**, one after the other, and none of them
is hidden. -/
structure Layered (tree : FWriteTree keys) : Prop where
  visible : ∀ record ∈ tree.allWrites, record.visible = true
  layers : tree.visibleWrites.writeAt = (layersOf tree.allWrites).writeAt

/-- A new tree has no pending writes. -/
theorem layered_init : (init : FWriteTree keys).Layered where
  visible _ mem := absurd mem List.not_mem_nil
  layers := rfl

/-- A write that is added goes over the others, in `visibleWrites` as in `allWrites`. -/
theorem Layered.addRecord (layered : tree.Layered) (record : FWriteRecord keys)
    (shown : record.visible = true) {visibleWrites : FCompoundWrite keys}
    (added : visibleWrites = tree.visibleWrites.addWrites record.writes) (lastWriteId : ℤ) :
    Layered ⟨visibleWrites, tree.allWrites ++ [record], lastWriteId⟩ where
  visible other mem := by
    rcases List.mem_append.mp mem with old | new
    · exact layered.visible other old
    · rw [List.mem_singleton.mp new, shown]
  layers := by
    rw [added, layersOf_cons, writesOf, List.flatMap_nil]
    exact FCompoundWrite.writeAt_addWrites_congr layered.layers record.writes

theorem Layered.addOverwriteAtPath (layered : tree.Layered) (path : FPath κ) (newData : FNode κ)
    (writeId : ℤ) : (tree.addOverwriteAtPath path newData writeId true).Layered :=
  layered.addRecord ⟨path, .overwrite newData, writeId, true⟩ rfl rfl writeId

theorem Layered.addMergeAtPath (layered : tree.Layered) (path : FPath κ)
    (changedChildren : FCompoundWrite keys) (writeId : ℤ) :
    (tree.addMergeAtPath path changedChildren writeId).Layered :=
  layered.addRecord ⟨path, .merge changedChildren, writeId, true⟩ rfl
    (FCompoundWrite.addCompoundWrite_eq_addWrites changedChildren path) writeId

/-- No other write overlaps `record` without the search of `removeWriteId:` seeing it:
an earlier one is made within it, a later one within it or over it. -/
structure Untangled (record : FWriteRecord keys) (earlier later : List (FWriteRecord keys)) :
    Prop where
  earlier : ∀ other ∈ earlier, ∀ w ∈ other.writes, ∀ p ∈ record.writes,
    p.1 <+: w.1 ∨ w.1 <+: p.1 → record.path <+: other.path
  later : ∀ other ∈ later, ∀ w ∈ other.writes, ∀ p ∈ record.writes,
    p.1 <+: w.1 ∨ w.1 <+: p.1 → record.path <+: other.path ∨
      other.containsPath record.path = true

section Untangled

variable {record : FWriteRecord keys} {earlier later : List (FWriteRecord keys)}

omit [DecidableEq κ] in
/-- The writes of a record are made at or below its path. -/
theorem path_prefix_of_mem_writes {w : FPath κ × FNode κ} (mem : w ∈ record.writes) :
    record.path <+: w.1 := by
  rw [FWriteRecord.writes] at mem
  split at mem
  · obtain rfl := List.mem_singleton.mp mem
    exact List.prefix_refl _
  · obtain ⟨w', -, rfl⟩ := List.mem_map.mp mem
    exact List.prefix_append record.path w'.1

/-- A record contains a path if one of its writes is made on the way to it. -/
theorem exists_of_containsPath {path : FPath κ} (contains : record.containsPath path = true) :
    ∃ w ∈ record.writes, w.1 <+: path := by
  rw [FWriteRecord.containsPath] at contains
  rw [FWriteRecord.writes]
  cases data : record.data with
  | overwrite node =>
      rw [data] at contains
      exact ⟨(record.path, node), List.mem_singleton_self _, FPath.contains_iff.mp contains⟩
  | merge merge =>
      rw [data] at contains
      obtain ⟨w, mem, here⟩ := List.any_eq_true.mp contains
      exact ⟨(record.path ++ w.1, w.2), List.mem_map_of_mem mem, FPath.contains_iff.mp here⟩

/-- A write that a later one covers may as well not have been made. -/
theorem layersOf_of_shadowed (untangled : Untangled record earlier later)
    (shadowed : ∃ other ∈ later, other.containsPath record.path = true) :
    (layersOf (earlier ++ record :: later)).writeAt =
      (layersOf (earlier ++ later)).writeAt := by
  rw [layersOf_cons, layersOf_append]
  by_cases nothing : record.writes = []
  · rw [nothing, FCompoundWrite.addWrites_nil]
  · obtain ⟨p, mem⟩ := List.exists_mem_of_ne_nil _ nothing
    have bare : ∀ path, path <+: record.path → path ≠ record.path →
        (layersOf earlier).writeAt path = none := by
      intro path above strict
      refine FCompoundWrite.writeAt_addWrites_of_unwritten ?_
        (FImmutableTree.valueAtPath_empty path)
      rintro w met rfl
      obtain ⟨other, old, written⟩ := List.mem_flatMap.mp met
      have within := untangled.earlier other old w written p mem
        (Or.inr (above.trans (path_prefix_of_mem_writes mem)))
      exact strict (above.eq_of_length_le
        (within.trans (path_prefix_of_mem_writes written)).length_le)
    have difference : FCompoundWrite.SameOutside record.path
        ((layersOf earlier).addWrites record.writes) (layersOf earlier) :=
      FCompoundWrite.SameOutside.addWrites_below ⟨fun _ _ => rfl, bare⟩
        fun w met => path_prefix_of_mem_writes met
    obtain ⟨other, new, contains⟩ := shadowed
    obtain ⟨w, written, covers⟩ := exists_of_containsPath contains
    exact difference.addWrites ⟨w, List.mem_flatMap.mpr ⟨other, new, written⟩, covers⟩

/-- A write that no other touches stands beside them. -/
theorem beside_layersOf (untangled : Untangled record earlier later)
    (apart : ∀ other ∈ earlier ++ later, ¬ record.path <+: other.path)
    (uncovered : ∀ other ∈ later, ¬ other.containsPath record.path = true) :
    FCompoundWrite.Beside (record.writes.map Prod.fst) (layersOf (earlier ++ record :: later))
      (layersOf (earlier ++ later)) := by
  rw [layersOf_cons, layersOf_append]
  have start : FCompoundWrite.Beside (record.writes.map Prod.fst) (layersOf earlier)
      (layersOf earlier) := by
    refine ⟨fun _ _ => rfl, ?_⟩
    rintro _ place q near
    obtain ⟨p, mem, rfl⟩ := List.mem_map.mp place
    refine FCompoundWrite.writeAt_addWrites_of_unwritten ?_ (FImmutableTree.valueAtPath_empty q)
    rintro w met rfl
    obtain ⟨other, old, written⟩ := List.mem_flatMap.mp met
    exact apart other (List.mem_append_left later old)
      (untangled.earlier other old w written p mem near)
  refine (start.addWrites_mem fun w mem => List.mem_map_of_mem mem).addWrites ?_
  rintro w met _ place
  obtain ⟨p, mem, rfl⟩ := List.mem_map.mp place
  obtain ⟨other, new, written⟩ := List.mem_flatMap.mp met
  have clear : ¬ (p.1 <+: w.1 ∨ w.1 <+: p.1) := by
    intro near
    rcases untangled.later other new w written p mem near with within | covers
    · exact apart other (List.mem_append_right earlier new) within
    · exact uncovered other new covers
  exact not_or.mp clear

/-- Cutting the single writes of a record out, one by one. -/
def cutWrites (visibleWrites : FCompoundWrite keys) (record : FWriteRecord keys) :
    FCompoundWrite keys :=
  (record.writes.map Prod.fst).foldl FCompoundWrite.removeWriteAtPath visibleWrites

/-- `removeWriteId:` with the write found. -/
theorem removeWriteId_eq (all : tree.allWrites = earlier ++ record :: later)
    (fresh : ∀ other ∈ earlier, other.writeId ≠ record.writeId) :
    tree.removeWriteId record.writeId =
      let flags := scanWrites record earlier.length (earlier ++ later)
        (earlier ++ later).length record.visible false
      let rest : FWriteTree keys := { tree with allWrites := earlier ++ later }
      some (if !flags.1 then (false, rest)
        else if flags.2 then (true, rest.resetTree)
        else (true, { rest with visibleWrites := cutWrites tree.visibleWrites record })) := by
  have index : tree.allWrites.findIdx? (fun other => other.writeId = record.writeId) =
      some earlier.length := by
    rw [all, List.findIdx?_append, List.findIdx?_eq_none_iff.mpr (by simpa using fresh),
      List.findIdx?_cons]
    simp
  have found : tree.allWrites[earlier.length]? = some record := by
    rw [all, List.getElem?_append_right (Nat.le_refl _), Nat.sub_self]
    rfl
  have left : tree.allWrites.eraseIdx earlier.length = earlier ++ later := by
    rw [all, List.eraseIdx_append_of_length_le (Nat.le_refl _), Nat.sub_self]
    rfl
  rw [removeWriteId, index]
  simp only [Option.bind_eq_bind, Option.bind_some, found, left]
  split
  · rfl
  · split
    · rfl
    · cases data : record.data with
      | overwrite node => simp [cutWrites, FWriteRecord.writes, data]
      | merge merge => simp [cutWrites, FWriteRecord.writes, data, List.foldl_map]

/-- **After a removal the visible writes are those that are left**, if the write was not
tangled with another. -/
theorem removeWriteId_layered (layered : tree.Layered)
    (all : tree.allWrites = earlier ++ record :: later)
    (fresh : ∀ other ∈ earlier, other.writeId ≠ record.writeId)
    (untangled : Untangled record earlier later) :
    ∃ wasVisible tree', tree.removeWriteId record.writeId = some (wasVisible, tree') ∧
      tree'.allWrites = earlier ++ later ∧ tree'.Layered := by
  have visible : ∀ other ∈ earlier ++ later, other.visible = true := by
    intro other mem
    refine layered.visible other ?_
    rw [all]
    rcases List.mem_append.mp mem with old | new
    · exact List.mem_append_left _ old
    · exact List.mem_append_right _ (List.mem_cons_of_mem _ new)
  have shown : record.visible = true := layered.visible record (by simp [all])
  have layers := layered.layers
  rw [all] at layers
  rw [removeWriteId_eq all fresh, shown]
  simp only
  split
  case isTrue shadowed =>
    refine ⟨_, _, rfl, rfl, visible, ?_⟩
    rw [Bool.not_eq_true'] at shadowed
    obtain ⟨j, other, after, here, -, covers⟩ := exists_of_scanWrites_eq_false shadowed
    rw [List.getElem?_append_right after] at here
    exact layers.trans
      (layersOf_of_shadowed untangled ⟨other, List.mem_of_getElem? here, covers⟩)
  case isFalse unshadowed =>
    split
    case isTrue =>
      refine ⟨_, _, rfl, rfl, visible, ?_⟩
      rw [resetTree, layerTreeFromWrites_root]
    case isFalse apart =>
      refine ⟨_, _, rfl, rfl, visible, ?_⟩
      have flags : scanWrites record earlier.length (earlier ++ later) (earlier ++ later).length
          true false = (true, false) :=
        Prod.ext (by simpa using unshadowed) (by simpa using apart)
      have seen : ∀ (j : ℕ) (other : FWriteRecord keys), (earlier ++ later)[j]? = some other →
          ¬ (earlier.length ≤ j ∧ other.containsPath record.path = true) ∧
            ¬ record.path <+: other.path := fun j other here =>
        scanWrites_eq_apart flags (List.getElem?_eq_some_iff.mp here).1 here
          (visible other (List.mem_of_getElem? here))
      have beside := beside_layersOf untangled
        (fun other mem => by
          obtain ⟨j, here⟩ := List.mem_iff_getElem?.mp mem
          exact (seen j other here).2)
        (fun other mem covers => by
          obtain ⟨j, here⟩ := List.mem_iff_getElem?.mp mem
          refine (seen (earlier.length + j) other ?_).1 ⟨Nat.le_add_right _ _, covers⟩
          rw [List.getElem?_append_right (Nat.le_add_right _ _), Nat.add_sub_cancel_left, here])
      exact FCompoundWrite.Beside.remove
        ⟨fun path away => (congrFun layers path).trans (beside.outside path away), beside.free⟩

/-- Among overwrites the oldest is never tangled with the others. -/
theorem untangled_of_overwrites {node : FNode κ} (whole : record.data = .overwrite node)
    (overwrites : ∀ other ∈ later, ∃ newData, other.data = .overwrite newData) :
    Untangled record [] later where
  earlier other mem := absurd mem List.not_mem_nil
  later other mem w written p place near := by
    obtain ⟨newData, data⟩ := overwrites other mem
    rw [FWriteRecord.writes, data, List.mem_singleton] at written
    rw [FWriteRecord.writes, whole, List.mem_singleton] at place
    subst written place
    rw [FWriteRecord.containsPath, data]
    exact near.imp_right FPath.contains_iff.mpr

end Untangled

/-! ## What readers are shown -/

/-- **What is shown at a place is the whole tree under all visible writes, read there.** -/
theorem same_calculateCompleteEventCacheAtPath (tree : FWriteTree keys) (treePath : FPath κ)
    (server : FNode κ) :
    ∃ shown, tree.calculateCompleteEventCacheAtPath treePath
      (some (server.getChild treePath)) none
        false = some shown ∧
      shown.Same ((tree.visibleWrites.applyToNode server).getChild treePath) := by
  have below := tree.visibleWrites.getChild_applyToNode treePath server
  rw [calculateCompleteEventCacheAtPath, if_pos (by simp)]
  split
  case h_1 shadowingNode complete =>
    refine ⟨shadowingNode, rfl, ?_⟩
    rw [KeyTree.Same, below]
    exact (FCompoundWrite.applyToNode_of_complete
      (FCompoundWrite.childCompoundWriteAtPath_of_complete complete) _).symm
  case h_2 =>
    simp only
    split
    case isTrue nothing =>
      refine ⟨_, rfl, ?_⟩
      rw [KeyTree.Same, below, FCompoundWrite.applyToNode_of_isEmpty nothing]
    case isFalse =>
      rw [if_neg (by simp)]
      exact ⟨_, rfl, below.symm⟩

/-- **What is shown is the data of the server under all pending writes, made in order.** -/
theorem calculateCompleteEventCacheAtPath_spec (layered : tree.Layered) (treePath : FPath κ)
    {server : FNode κ} (plain : FCompoundWrite.Plain (writesOf tree.allWrites) server.valueAt) :
    ∃ shown, tree.calculateCompleteEventCacheAtPath treePath
      (some (server.getChild treePath)) none
        false = some shown ∧
      shown.Same
        ((FCompoundWrite.updateChildren keys server
          (writesOf tree.allWrites)).getChild treePath) := by
  obtain ⟨shown, eq, same⟩ := tree.same_calculateCompleteEventCacheAtPath treePath server
  refine ⟨shown, eq, same.trans (KeyTree.Same.get ?_ treePath)⟩
  exact (FCompoundWrite.same_applyToNode_of_writeAt layered.layers server).trans
    (FCompoundWrite.applyToNode_addWrites .emptyWrite _ plain)

/-- Two writes are pending, the second within the first. -/
def twoPending : FWriteTree untiedKeys :=
  (init.addOverwriteAtPath [.doc1] (.leaf (.string "a")) 0 true).addOverwriteAtPath
    [.doc1, .x] (.leaf (.string "b")) 1 true

theorem layered_twoPending : twoPending.Layered :=
  (layered_init.addOverwriteAtPath _ _ _).addOverwriteAtPath _ _ _

/-- The single writes of a record, as seen from a place. -/
def patchesBelow (treeRoot : FPath κ) (records : List (FWriteRecord keys)) :
    List (Patch (FPath κ) (Option Leaf)) :=
  (writesOf records).map fun w => (KeyTree.writePatch w.1 w.2).restrict (treeRoot ++ ·)

/-- A record made at or below the place goes in as it is. -/
theorem layerRecord_of_below {treeRoot : FPath κ} {record : FWriteRecord keys}
    (below : treeRoot <+: record.path) (compoundWrite : FCompoundWrite keys) :
    layerRecord treeRoot compoundWrite record =
      compoundWrite.addWrites
        (record.writes.map fun w => (treeRoot.relativePathFrom w.1, w.2)) := by
  obtain ⟨rest, path⟩ := below
  rw [layerRecord, FWriteRecord.writes, ← path]
  cases record.data with
  | overwrite node => simp
  | merge merge => simp [FCompoundWrite.addCompoundWrite_eq_addWrites, Function.comp_def]

/-- A record made elsewhere is passed over. -/
theorem layerRecord_of_far {treeRoot : FPath κ} {record : FWriteRecord keys}
    (below : ¬ treeRoot <+: record.path) (above : ¬ record.path <+: treeRoot)
    (compoundWrite : FCompoundWrite keys) :
    layerRecord treeRoot compoundWrite record = compoundWrite := by
  have outside := mt FPath.contains_iff.mp below
  have outside' := mt FPath.contains_iff.mp above
  cases data : record.data <;> simp [layerRecord, data, outside, outside']

/-- The data at a place under one more record. -/
theorem apply_layerRecord {treeRoot : FPath κ} {record : FWriteRecord keys}
    (near : ∀ merge,
    record.data = .merge merge → record.path <+: treeRoot → record.path = treeRoot)
    {values : FPath κ → Option Leaf}
    (plain : ∀ w ∈ record.writes, w.2.isEmpty = true → ∀ q, treeRoot ++ q <+: w.1 →
      treeRoot ++ q ≠ w.1 → values q = none) (compoundWrite : FCompoundWrite keys) :
    (layerRecord treeRoot compoundWrite record).patch.apply values =
      Patch.applyAll (patchesBelow treeRoot [record]) (compoundWrite.patch.apply values) := by
  by_cases below : treeRoot <+: record.path
  · have under : ∀ w ∈ record.writes, ∃ rest, w.1 = treeRoot ++ rest := fun w mem =>
      (below.trans (path_prefix_of_mem_writes mem)).imp fun _ => Eq.symm
    rw [layerRecord_of_below below, FCompoundWrite.apply_addWrites]
    · congr 1
      simp only [patchesBelow, writesOf, List.flatMap_singleton, List.map_map]
      refine List.map_congr_left ?_
      intro w mem
      obtain ⟨rest, eq⟩ := under w mem
      simp only [Function.comp_apply, eq, FPath.relativePathFrom_append,
        KeyTree.restrict_writePatch_append]
    · rintro _ mem removed q above strict
      obtain ⟨w, met, rfl⟩ := List.mem_map.mp mem
      obtain ⟨rest, eq⟩ := under w met
      simp only [eq, FPath.relativePathFrom_append] at above strict
      refine plain w met removed q ?_ ?_
      · rw [eq]
        exact (List.prefix_append_right_inj treeRoot).mpr above
      · rw [eq]
        exact fun same => strict (List.append_cancel_left same)
  · have outside : ¬ treeRoot.contains record.path = true := mt FPath.contains_iff.mp below
    by_cases above : record.path <+: treeRoot
    · cases data : record.data with
      | overwrite node =>
          obtain ⟨rest, rfl⟩ := above
          have laid : layerRecord (record.path ++ rest) compoundWrite record =
              compoundWrite.addWrite (node.getChild rest) [] := by
            simp [layerRecord, data, outside]
          have patches : KeyTree.writePatch [] (node.getChild rest) =
              (KeyTree.writePatch record.path node).restrict (record.path ++ rest ++ ·) := by
            funext path
            have whole := KeyTree.writePatch_below [] path (node.getChild rest)
            rw [List.nil_append] at whole
            rw [Patch.restrict, List.append_assoc, KeyTree.writePatch_below, whole,
              FNode.getChild,
              KeyTree.valueAt_get]
          rw [laid, FCompoundWrite.apply_addWrite, patches]
          · simp [patchesBelow, writesOf, FWriteRecord.writes, data]
          · intro _ q top strict
            exact absurd (List.prefix_nil.mp top) strict
      | merge merge =>
          exact absurd (near merge data above ▸ List.prefix_refl _) below
    · rw [layerRecord_of_far below above]
      funext path
      refine (Patch.applyAll_of_none ?_ _).symm
      intro P mem
      obtain ⟨w, met, rfl⟩ := List.mem_map.mp mem
      rw [writesOf, List.flatMap_singleton] at met
      have under := path_prefix_of_mem_writes met
      refine KeyTree.writePatch_of_diverge ?_ ?_ w.2
      · intro top
        rcases List.prefix_or_prefix_of_prefix (under.trans top)
          (List.prefix_append treeRoot path)
          with h | h
        · exact above h
        · exact below h
      · intro top
        rcases List.prefix_or_prefix_of_prefix under
          ((List.prefix_append treeRoot path).trans top)
          with h | h
        · exact above h
        · exact below h

/-- The data at a place under the records that a filter keeps. -/
theorem apply_layerTreeFromWrites {records : List (FWriteRecord keys)} {treeRoot : FPath κ}
    (near : ∀ record ∈ records, ∀ merge, record.data = .merge merge → record.path <+: treeRoot →
      record.path = treeRoot)
    {values : FPath κ → Option Leaf}
    (plain : ∀ w ∈ writesOf records, w.2.isEmpty = true → ∀ q, treeRoot ++ q <+: w.1 →
      treeRoot ++ q ≠ w.1 → values q = none) (filter : FWriteRecord keys → Bool) :
    (layerTreeFromWrites records filter treeRoot).patch.apply values =
      Patch.applyAll (patchesBelow treeRoot (records.filter filter)) values := by
  have run : ∀ start : FCompoundWrite keys,
      (records.foldl (fun compoundWrite record =>
        if filter record then layerRecord treeRoot compoundWrite record else compoundWrite)
        start).patch.apply values =
      Patch.applyAll (patchesBelow treeRoot (records.filter filter))
        (start.patch.apply values) := by
    intro start
    induction records generalizing start with
    | nil => rfl
    | cons record rest ih =>
        have ih := ih (fun r mem => near r (List.mem_cons_of_mem _ mem))
          (fun w mem => plain w (List.mem_append_right _ mem))
        rw [List.foldl_cons, ih, List.filter_cons]
        split
        · rw [apply_layerRecord (near record List.mem_cons_self)
            (fun w mem => plain w (List.mem_append_left _ mem)), ← Patch.applyAll_append]
          simp [patchesBelow, writesOf]
        · rfl
  rw [layerTreeFromWrites, run, FCompoundWrite.apply_emptyWrite]

/-- Asking for the records near a place does not change what is layered there. -/
theorem layerTreeFromWrites_near (records : List (FWriteRecord keys))
    (filter : FWriteRecord keys → Bool) (treeRoot : FPath κ) :
    layerTreeFromWrites records (fun record => filter record &&
        (record.path.contains treeRoot || treeRoot.contains record.path)) treeRoot =
      layerTreeFromWrites records filter treeRoot := by
  rw [layerTreeFromWrites, layerTreeFromWrites]
  congr 1
  funext compoundWrite record
  by_cases below : treeRoot <+: record.path
  · simp [FPath.contains_iff.mpr below]
  · by_cases above : record.path <+: treeRoot
    · simp [FPath.contains_iff.mpr above]
    · rw [layerRecord_of_far below above]
      simp

/-- What the filter drops need not be looked at. -/
theorem layerTreeFromWrites_filter (records : List (FWriteRecord keys))
    (filter : FWriteRecord keys → Bool) (treeRoot : FPath κ) :
    layerTreeFromWrites records filter treeRoot =
      layerTreeFromWrites (records.filter filter) (fun _ => true) treeRoot := by
  rw [layerTreeFromWrites, layerTreeFromWrites, List.foldl_filter]
  rfl

/-- Writes made one after the other, as seen from a place. -/
theorem valueAt_getChild_updateChildren (server : FNode κ) (records : List (FWriteRecord keys))
    (treePath : FPath κ) :
    ((FCompoundWrite.updateChildren keys server (writesOf records)).getChild treePath).valueAt =
      Patch.applyAll (patchesBelow treePath records) (server.getChild treePath).valueAt := by
  have start :
      (server.getChild treePath).valueAt = fun path => server.valueAt (treePath ++ path) := by
    funext path
    exact KeyTree.valueAt_get server treePath path
  have patches : patchesBelow treePath records =
      ((writesOf records).map fun w => KeyTree.writePatch w.1 w.2).map
        fun P => P.restrict (treePath ++ ·) := by
    rw [List.map_map]
    rfl
  funext path
  rw [start, patches, Patch.applyAll_restrict, FNode.getChild, KeyTree.valueAt_get,
    FCompoundWrite.valueAt_updateChildren]

/-- The pending writes that are not left out. -/
def keptWrites (tree : FWriteTree keys) (writeIdsToExclude : Option (List ℤ)) :
    List (FWriteRecord keys) :=
  tree.allWrites.filter fun record => writeIdsToExclude.all fun writeIds =>
    record.writeId ∉ writeIds

/-- A transaction that is not shown is pending too, on the field of the second write. -/
def hiddenPending : FWriteTree untiedKeys :=
  twoPending.addOverwriteAtPath [.doc1, .x] (.leaf (.string "c")) 2 false

end Layers

end FWriteTree

end DocumentRelay
