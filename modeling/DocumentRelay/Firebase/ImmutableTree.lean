import DocumentRelay.Firebase.Path
import DocumentRelay.Lib.SortedAssoc

/-!
# Trees of values along paths

`FImmutableTree`: a tree that may hold a value at every path, and not only at its
ends.  The client keeps its pending writes in one.

The children of a node are an `FImmutableSortedDictionary` under
`[FUtilities stringComparator]`, which is `compare:` of Foundation; it is the
parameter `cmp` here, over any type `κ` of keys.  That it tells different keys apart
is `Std.LawfulEqCmp cmp`.  It is not true of all strings, since canonically equivalent
spellings of one text are the same to it, but of the keys of a `KeySet`.

A tree is known by its values (`valueAtPath`), and every operation by what it does
to them.
-/

namespace DocumentRelay

inductive FImmutableTree (κ α : Type) where
  | mk (value : Option α) (children : List (κ × FImmutableTree κ α))

namespace FImmutableTree

variable {κ α : Type}

def value : FImmutableTree κ α → Option α
  | .mk value _ => value

def children : FImmutableTree κ α → List (κ × FImmutableTree κ α)
  | .mk _ children => children

def empty : FImmutableTree κ α := .mk none []

/-- `initWithValue:`. -/
def ofValue (value : α) : FImmutableTree κ α := .mk (some value) []

/-- `isEmpty`: neither a value nor children. -/
def isEmpty : FImmutableTree κ α → Bool
  | .mk none [] => true
  | _ => false

section Operations

variable (cmp : κ → κ → Ordering)

/-- `[self.children get:key]`, with the empty tree for `nil`. -/
def child (key : κ) (tree : FImmutableTree κ α) : FImmutableTree κ α :=
  (SortedAssoc.find cmp key tree.children).getD empty

/-- `findRootMostValueAndPath:`, the first value on the way along a path. -/
def findRootMostValueAndPath : FPath κ → FImmutableTree κ α → Option (FPath κ × α)
  | _, .mk (some value) _ => some ([], value)
  | [], .mk none _ => none
  | front :: relativePath, .mk none children =>
      match SortedAssoc.find cmp front children with
      | none => none
      | some child =>
          (findRootMostValueAndPath relativePath child).map fun found =>
            (front :: found.1, found.2)

/-- `subtreeAtPath:`. -/
def subtreeAtPath : FPath κ → FImmutableTree κ α → FImmutableTree κ α
  | [], tree => tree
  | front :: relativePath, tree =>
      match SortedAssoc.find cmp front tree.children with
      | some childTree => subtreeAtPath relativePath childTree
      | none => empty

/-- `valueAtPath:`. -/
def valueAtPath : FPath κ → FImmutableTree κ α → Option α
  | [], tree => tree.value
  | front :: relativePath, tree =>
      match SortedAssoc.find cmp front tree.children with
      | some child => valueAtPath relativePath child
      | none => none

/-- `setValue:atPath:`. -/
def setValue (newValue : α) : FPath κ → FImmutableTree κ α → FImmutableTree κ α
  | [], tree => .mk (some newValue) tree.children
  | front :: relativePath, tree =>
      .mk tree.value
        (SortedAssoc.insert cmp front (setValue newValue relativePath (tree.child cmp front))
          tree.children)

/-- `setTree:atPath:`; a child that becomes empty goes. -/
def setTree : FImmutableTree κ α → FImmutableTree κ α → FPath κ → FImmutableTree κ α
  | _, newTree, [] => newTree
  | tree, newTree, front :: relativePath =>
      let newChild := setTree (tree.child cmp front) newTree relativePath
      .mk tree.value
        (if newChild.isEmpty then SortedAssoc.erase cmp front tree.children
        else SortedAssoc.insert cmp front newChild tree.children)

end Operations

mutual

/-- The values in the order of `forEach:`, children first. -/
def forEach : FImmutableTree κ α → List (FPath κ × α)
  | .mk value children => forEachChild children ++ value.toList.map fun v => ([], v)

def forEachChild : List (κ × FImmutableTree κ α) → List (FPath κ × α)
  | [] => []
  | (childKey, childTree) :: rest =>
      (forEach childTree).map (fun w => (childKey :: w.1, w.2)) ++ forEachChild rest

end

/-! ## Order -/

/-- The children of every node are in order. -/
inductive Ordered (cmp : κ → κ → Ordering) : FImmutableTree κ α → Prop
  | mk {value : Option α} {children : List (κ × FImmutableTree κ α)}
      (sorted : SortedAssoc.Sorted cmp children) (below : ∀ e ∈ children, Ordered cmp e.2) :
      Ordered cmp (.mk value children)

section Order

variable {cmp : κ → κ → Ordering} {tree newTree : FImmutableTree κ α}

theorem ordered_empty : Ordered cmp (empty : FImmutableTree κ α) :=
  .mk SortedAssoc.Sorted.nil fun _ mem => absurd mem List.not_mem_nil

theorem ordered_ofValue (value : α) : Ordered cmp (ofValue value) :=
  .mk SortedAssoc.Sorted.nil fun _ mem => absurd mem List.not_mem_nil

theorem Ordered.sorted (ordered : Ordered cmp tree) : SortedAssoc.Sorted cmp tree.children := by
  cases ordered with
  | mk sorted below => exact sorted

theorem Ordered.of_mem (ordered : Ordered cmp tree) {e : κ × FImmutableTree κ α}
    (mem : e ∈ tree.children) : Ordered cmp e.2 := by
  cases ordered with
  | mk sorted below => exact below e mem

/-- What is found among the children of an ordered tree is ordered. -/
theorem Ordered.of_find (ordered : Ordered cmp tree) {key : κ} {child : FImmutableTree κ α}
    (found : SortedAssoc.find cmp key tree.children = some child) : Ordered cmp child := by
  obtain ⟨e, entry, rfl⟩ := Option.map_eq_some_iff.mp found
  exact ordered.of_mem (SortedAssoc.mem_of_findEntry entry).1

theorem Ordered.child (ordered : Ordered cmp tree) (key : κ) :
    Ordered cmp (tree.child cmp key) := by
  cases found : SortedAssoc.find cmp key tree.children with
  | none =>
      rw [FImmutableTree.child, found]
      exact ordered_empty
  | some child =>
      rw [FImmutableTree.child, found]
      exact ordered.of_find found

theorem Ordered.subtreeAtPath (ordered : Ordered cmp tree) (path : FPath κ) :
    Ordered cmp (tree.subtreeAtPath cmp path) := by
  induction path generalizing tree with
  | nil => exact ordered
  | cons front path ih =>
      rw [FImmutableTree.subtreeAtPath]
      split
      case h_1 found => exact ih (ordered.of_find found)
      · exact ordered_empty

variable [Std.TransCmp cmp]

theorem Ordered.insert (ordered : Ordered cmp tree) {newChild : FImmutableTree κ α}
    (new : Ordered cmp newChild) (value : Option α) (key : κ) :
    Ordered cmp (.mk value (SortedAssoc.insert cmp key newChild tree.children)) := by
  refine .mk (ordered.sorted.insert key newChild) ?_
  intro e mem
  rcases SortedAssoc.mem_of_mem_insert mem with rfl | old
  · exact new
  · exact ordered.of_mem old

theorem Ordered.setValue (ordered : Ordered cmp tree) (newValue : α) (path : FPath κ) :
    Ordered cmp (tree.setValue cmp newValue path) := by
  induction path generalizing tree with
  | nil => exact .mk ordered.sorted fun _ => ordered.of_mem
  | cons front path ih => exact ordered.insert (ih (ordered.child front)) _ front

/-- `setTree:atPath:` keeps the order, whether a child is put in or becomes empty and goes. -/
theorem Ordered.setTree (ordered : Ordered cmp tree) (new : Ordered cmp newTree)
    (path : FPath κ) :
    Ordered cmp (tree.setTree cmp newTree path) := by
  induction path generalizing tree with
  | nil => exact new
  | cons front path ih =>
      rw [FImmutableTree.setTree]
      split
      · exact .mk (ordered.sorted.erase front) fun e mem =>
          ordered.of_mem ((SortedAssoc.erase_sublist front _).subset mem)
      · exact ordered.insert (ih (ordered.child front)) _ front

end Order

/-! ## Values -/

section Values

variable {cmp : κ → κ → Ordering} {tree newTree : FImmutableTree κ α}

@[simp] theorem valueAtPath_nil : tree.valueAtPath cmp [] = tree.value := rfl

/-- An empty tree holds nothing. -/
@[simp] theorem valueAtPath_empty (path : FPath κ) :
    (empty : FImmutableTree κ α).valueAtPath cmp path = none := by
  cases path <;> rfl

theorem eq_empty_of_isEmpty (nothing : tree.isEmpty = true) : tree = empty := by
  match tree with
  | .mk none [] => rfl

/-- So does one that says it is empty. -/
theorem valueAtPath_of_isEmpty (nothing : tree.isEmpty = true) (path : FPath κ) :
    tree.valueAtPath cmp path = none := by
  rw [eq_empty_of_isEmpty nothing, valueAtPath_empty]

theorem valueAtPath_cons (key : κ) (path : FPath κ) :
    tree.valueAtPath cmp (key :: path) = (tree.child cmp key).valueAtPath cmp path := by
  rw [valueAtPath, child]
  cases SortedAssoc.find cmp key tree.children with
  | none => exact (valueAtPath_empty path).symm
  | some child => rfl

@[simp] theorem valueAtPath_ofValue (value : α) (path : FPath κ) :
    (ofValue value).valueAtPath cmp path = if path = [] then some value else none := by
  cases path <;> rfl

/-- The values of a subtree are those below its place. -/
theorem valueAtPath_subtreeAtPath (path rest : FPath κ) :
    (tree.subtreeAtPath cmp path).valueAtPath cmp rest =
      tree.valueAtPath cmp (path ++ rest) := by
  induction path generalizing tree with
  | nil => rfl
  | cons front path ih =>
      rw [subtreeAtPath, List.cons_append, valueAtPath]
      cases SortedAssoc.find cmp front tree.children with
      | none => exact valueAtPath_empty rest
      | some child => exact ih

/-- **The first value on the way.** -/
theorem findRootMostValueAndPath_eq_some {path place : FPath κ} {value : α}
    (found : tree.findRootMostValueAndPath cmp path = some (place, value)) :
    place <+: path ∧ tree.valueAtPath cmp place = some value := by
  induction path generalizing tree place with
  | nil =>
      match tree with
      | .mk (some v) _ =>
          obtain ⟨rfl, rfl⟩ := Prod.mk.inj (Option.some.inj found)
          exact ⟨List.nil_prefix, rfl⟩
  | cons front path ih =>
      match tree with
      | .mk (some v) _ =>
          obtain ⟨rfl, rfl⟩ := Prod.mk.inj (Option.some.inj found)
          exact ⟨List.nil_prefix, rfl⟩
      | .mk none children =>
          rw [findRootMostValueAndPath] at found
          split at found
          · cases found
          case h_2 child known =>
            obtain ⟨⟨below, v⟩, inside, eq⟩ := Option.map_eq_some_iff.mp found
            obtain ⟨rfl, rfl⟩ := Prod.mk.inj eq
            obtain ⟨before, holds⟩ := ih inside
            refine ⟨List.cons_prefix_cons.mpr ⟨rfl, before⟩, ?_⟩
            rw [valueAtPath, FImmutableTree.children, known]
            exact holds

/-- No root-most value is found exactly if there is none on the way. -/
theorem findRootMostValueAndPath_eq_none {path : FPath κ} :
    tree.findRootMostValueAndPath cmp path = none ↔
      ∀ place, place <+: path → tree.valueAtPath cmp place = none := by
  induction path generalizing tree with
  | nil =>
      match tree with
      | .mk (some v) _ => simp [findRootMostValueAndPath, value]
      | .mk none _ => simp [findRootMostValueAndPath, value]
  | cons front path ih =>
      match tree with
      | .mk (some v) _ =>
          simp only [findRootMostValueAndPath, reduceCtorEq, false_iff, not_forall]
          exact ⟨[], List.nil_prefix, by simp [value]⟩
      | .mk none children =>
          rw [findRootMostValueAndPath]
          constructor
          · intro missing place before
            rcases List.prefix_cons_iff.mp before with rfl | ⟨place, rfl, inside⟩
            · rfl
            · rw [valueAtPath, FImmutableTree.children]
              split at missing
              case h_1 absent => rw [absent]
              case h_2 child known =>
                rw [known]
                exact ih.mp (Option.map_eq_none_iff.mp missing) place inside
          · intro missing
            split
            · rfl
            case h_2 child known =>
              refine Option.map_eq_none_iff.mpr (ih.mpr ?_)
              intro place before
              have absent := missing (front :: place) (List.cons_prefix_cons.mpr ⟨rfl, before⟩)
              rwa [valueAtPath, FImmutableTree.children, known] at absent

variable [Std.TransCmp cmp] [Std.LawfulEqCmp cmp]

section Updates

variable [DecidableEq κ]

/-- The children after an insertion. -/
theorem child_insert (sorted : SortedAssoc.Sorted cmp tree.children) (value : Option α)
    (key key' : κ) (newChild : FImmutableTree κ α) :
    (FImmutableTree.mk value
      (SortedAssoc.insert cmp key newChild tree.children)).child cmp key' =
      if key' = key then newChild else tree.child cmp key' := by
  rw [child, children, SortedAssoc.find_insert sorted]
  by_cases same : key' = key
  · rw [if_pos (Std.LawfulEqCmp.compare_eq_iff_eq.mpr same), if_pos same]
    rfl
  · rw [if_neg (mt Std.LawfulEqCmp.compare_eq_iff_eq.mp same), if_neg same, child]

/-- The children after a removal. -/
theorem child_erase (sorted : SortedAssoc.Sorted cmp tree.children) (value : Option α)
    (key key' : κ) :
    (FImmutableTree.mk value (SortedAssoc.erase cmp key tree.children)).child cmp key' =
      if key' = key then empty else tree.child cmp key' := by
  rw [child, children, SortedAssoc.find_erase sorted]
  by_cases same : key' = key
  · rw [if_pos (Std.LawfulEqCmp.compare_eq_iff_eq.mpr same), if_pos same]
    rfl
  · rw [if_neg (mt Std.LawfulEqCmp.compare_eq_iff_eq.mp same), if_neg same, child]

/-- **The values after `setValue:atPath:`.** -/
theorem valueAtPath_setValue (ordered : Ordered cmp tree) (newValue : α)
    (place path : FPath κ) :
    (tree.setValue cmp newValue place).valueAtPath cmp path =
      if path = place then some newValue else tree.valueAtPath cmp path := by
  induction place generalizing tree path with
  | nil =>
      cases path with
      | nil => simp [setValue, value]
      | cons key path => simp [setValue, valueAtPath, children]
  | cons front place ih =>
      cases path with
      | nil => simp [setValue, value]
      | cons key path =>
          rw [setValue, valueAtPath_cons, child_insert ordered.sorted, valueAtPath_cons]
          by_cases same : key = front
          · subst same
            rw [if_pos rfl, ih (ordered.child key)]
            simp
          · simp [same]

/-- **The values after `setTree:atPath:`.** -/
theorem valueAtPath_setTree (ordered : Ordered cmp tree) (place path : FPath κ) :
    (tree.setTree cmp newTree place).valueAtPath cmp path =
      if place <+: path then newTree.valueAtPath cmp (path.drop place.length)
      else tree.valueAtPath cmp path := by
  induction place generalizing tree path with
  | nil => simp [setTree]
  | cons front place ih =>
      cases path with
      | nil => simp [setTree, value]
      | cons key path =>
          -- Whether or not the child is kept, its values are the same.
          have newChild :
              (tree.setTree cmp newTree (front :: place)).valueAtPath cmp (key :: path) =
              if key = front then
                ((tree.child cmp front).setTree cmp newTree place).valueAtPath cmp path
              else (tree.child cmp key).valueAtPath cmp path := by
            rw [setTree, valueAtPath_cons]
            split
            case isTrue gone =>
              rw [child_erase ordered.sorted]
              split
              · rw [valueAtPath_empty, valueAtPath_of_isEmpty gone]
              · rfl
            case isFalse kept =>
              rw [child_insert ordered.sorted]
              split <;> rfl
          rw [newChild, valueAtPath_cons]
          by_cases same : key = front
          · subst same
            rw [if_pos rfl, ih (ordered.child key)]
            simp
          · have apart : ¬ front :: place <+: key :: path := fun before =>
              same (List.cons_prefix_cons.mp before).1.symm
            rw [if_neg same, if_neg apart]

end Updates

omit [Std.LawfulEqCmp cmp] in
theorem valueAtPath_cons_of_mem (ordered : Ordered cmp tree) {e : κ × FImmutableTree κ α}
    (mem : e ∈ tree.children) (path : FPath κ) :
    tree.valueAtPath cmp (e.1 :: path) = e.2.valueAtPath cmp path := by
  have found : SortedAssoc.find cmp e.1 tree.children = some e.2 := by
    rw [SortedAssoc.find, SortedAssoc.findEntry_of_mem ordered.sorted mem]
    rfl
  rw [valueAtPath, found]

/-- What `forEach:` meets among some children is met in one of them. -/
theorem mem_forEachChild {children : List (κ × FImmutableTree κ α)} {path : FPath κ} {v : α} :
    (path, v) ∈ forEachChild children ↔
      ∃ e ∈ children, ∃ rest, path = e.1 :: rest ∧ (rest, v) ∈ e.2.forEach := by
  induction children with
  | nil => simp [forEachChild]
  | cons first rest ih =>
      obtain ⟨childKey, childTree⟩ := first
      rw [forEachChild, List.mem_append, ih, List.mem_map]
      constructor
      · rintro (⟨⟨below, w⟩, mem, eq⟩ | ⟨e, mem, later⟩)
        · obtain ⟨rfl, rfl⟩ := Prod.mk.inj eq
          exact ⟨_, List.mem_cons_self, below, rfl, mem⟩
        · exact ⟨e, List.mem_cons_of_mem _ mem, later⟩
      · rintro ⟨e, mem, below, rfl, inside⟩
        rcases List.mem_cons.mp mem with rfl | later
        · exact Or.inl ⟨(below, v), inside, rfl⟩
        · exact Or.inr ⟨e, later, below, rfl, inside⟩

/-- **`forEach:` meets the values of the tree.** -/
theorem mem_forEach (ordered : Ordered cmp tree) {path : FPath κ} {v : α} :
    (path, v) ∈ tree.forEach ↔ tree.valueAtPath cmp path = some v := by
  induction path generalizing tree with
  | nil =>
      obtain ⟨value, children⟩ := tree
      simp [forEach, mem_forEachChild, FImmutableTree.value]
  | cons key path ih =>
      obtain ⟨value, children⟩ := tree
      have inChildren : (key :: path, v) ∈ (FImmutableTree.mk value children).forEach ↔
          (key :: path, v) ∈ forEachChild children := by
        simp [forEach]
      rw [inChildren, mem_forEachChild]
      constructor
      · rintro ⟨e, mem, rest, eq, inside⟩
        obtain ⟨rfl, rfl⟩ := List.cons.inj eq
        rw [valueAtPath_cons_of_mem ordered mem]
        exact (ih (ordered.of_mem mem)).mp inside
      · intro holds
        rw [valueAtPath, FImmutableTree.children] at holds
        split at holds
        case h_1 child found =>
          obtain ⟨e, entry, rfl⟩ := Option.map_eq_some_iff.mp found
          obtain ⟨mem, same⟩ := SortedAssoc.mem_of_findEntry entry
          refine ⟨e, mem, path, ?_, (ih (ordered.of_mem mem)).mpr holds⟩
          rw [Std.LawfulEqCmp.compare_eq_iff_eq.mp same]
        · cases holds

/-! ## Trees with values at their ends only -/

/-- No value stands above another. -/
def Leaves (cmp : κ → κ → Ordering) (tree : FImmutableTree κ α) : Prop :=
  ∀ place rest v w, tree.valueAtPath cmp place = some v →
    tree.valueAtPath cmp (place ++ rest) = some w → rest = []

omit [Std.TransCmp cmp] [Std.LawfulEqCmp cmp] in
theorem leaves_empty : Leaves cmp (empty : FImmutableTree κ α) := by
  intro place rest v w holds
  rw [valueAtPath_empty] at holds
  cases holds

omit [Std.TransCmp cmp] [Std.LawfulEqCmp cmp] in
/-- A single value has nothing below it. -/
theorem leaves_ofValue (value : α) : Leaves cmp (ofValue value) := by
  intro place rest v w holds below
  rw [valueAtPath_ofValue] at holds below
  split at below
  case isTrue nil => exact (List.append_eq_nil_iff.mp nil).2
  · cases below

omit [Std.TransCmp cmp] [Std.LawfulEqCmp cmp] in
/-- Of two values on one path there is only one. -/
theorem Leaves.eq_of_prefix (leaves : Leaves cmp tree) {p q path : FPath κ} {v w : α}
    (first : p <+: path) (second : q <+: path) (holds : tree.valueAtPath cmp p = some v)
    (holds' : tree.valueAtPath cmp q = some w) : p = q ∧ v = w := by
  have same : p = q := by
    rcases List.prefix_or_prefix_of_prefix first second with ⟨rest, rfl⟩ | ⟨rest, rfl⟩
    · rw [leaves p rest v w holds holds', List.append_nil]
    · rw [leaves q rest w v holds' holds, List.append_nil]
  subst same
  exact ⟨rfl, Option.some.inj (holds.symm.trans holds')⟩

omit [Std.LawfulEqCmp cmp] in
theorem Leaves.of_mem (leaves : Leaves cmp tree) (ordered : Ordered cmp tree)
    {e : κ × FImmutableTree κ α} (mem : e ∈ tree.children) : Leaves cmp e.2 := by
  intro place rest v w first second
  rw [← valueAtPath_cons_of_mem ordered mem] at first second
  exact leaves (e.1 :: place) rest v w first second

/-- Below a value `forEach:` meets nothing. -/
theorem Leaves.forEachChild_eq_nil {value : α} {children : List (κ × FImmutableTree κ α)}
    (leaves : Leaves cmp (.mk (some value) children))
    (ordered : Ordered cmp (.mk (some value) children)) :
    forEachChild children = [] := by
  refine List.eq_nil_iff_forall_not_mem.mpr ?_
  rintro ⟨path, v⟩ mem
  have met : (path, v) ∈ (FImmutableTree.mk (some value) children).forEach := by
    simp [forEach, mem]
  obtain rfl := leaves [] path value v rfl ((mem_forEach ordered).mp met)
  simp [mem_forEachChild] at mem

omit [Std.TransCmp cmp] [Std.LawfulEqCmp cmp] in
/-- In such a tree the first value on the way is any value on the way. -/
theorem Leaves.findRootMostValueAndPath (leaves : Leaves cmp tree)
    {place path : FPath κ} {v : α}
    (before : place <+: path) (holds : tree.valueAtPath cmp place = some v) :
    tree.findRootMostValueAndPath cmp path = some (place, v) := by
  cases found : tree.findRootMostValueAndPath cmp path with
  | none =>
      rw [findRootMostValueAndPath_eq_none.mp found place before] at holds
      cases holds
  | some first =>
      obtain ⟨before', holds'⟩ := findRootMostValueAndPath_eq_some found
      obtain ⟨rfl, rfl⟩ := leaves.eq_of_prefix before' before holds' holds
      rfl

end Values

end FImmutableTree

end DocumentRelay
