import Mathlib.Data.List.Induction
import DocumentRelay.Operations

/-!
# Sharing and downloading through the database

`shareDoucment` writes a document piece by piece: one `setValue` at the root of
the document, which drops everything an earlier version left there, then three
for each field under the generated keys `field0`, `field1`, ….  `downloadDocument`
walks whatever children it finds.

* `shareDoucment_eq` — the writes of a share, by their place below the document.
* `shareNode` — the node they build.  It depends on the document alone: nothing
  that was there before shows through (`getChild_applyWrites_share`).
* `sameVersion_decode` — decoding that node gives the document back.
* `download_after_shares` — so a download gives the last version shared under its
  key, after any history of shares.
-/

namespace DocumentRelay

/-! ## Writes below a place -/

/-- The same write, below a place. -/
def Write.under (root : FPath) (write : Write) : Write := ⟨root ++ write.path, write.value⟩

@[simp] theorem applyWrites_nil (server : FNode) : applyWrites server [] = server := rfl

@[simp] theorem applyWrites_cons (server : FNode) (write : Write) (rest : List Write) :
    applyWrites server (write :: rest) = applyWrites (applyWrite server write) rest := rfl

theorem applyWrites_append (server : FNode) (first second : List Write) :
    applyWrites server (first ++ second) = applyWrites (applyWrites server first) second :=
  List.foldl_append

/-- Writes below a place act on the node there. -/
theorem getChild_applyWrites_under (root : FPath) (writes : List Write) (server : FNode) :
    (applyWrites server (writes.map (Write.under root))).getChild root =
      applyWrites (server.getChild root) writes := by
  induction writes generalizing server with
  | nil => rfl
  | cons write rest ih =>
      rw [List.map_cons, applyWrites_cons, ih, applyWrites_cons]
      exact congrArg (applyWrites · rest)
        (KeyTree.get_set_append keyBefore root write.path server write.value)

/-- Writes elsewhere do not. -/
theorem getChild_applyWrites_of_diverge {path : FPath} {writes : List Write}
    (parted : ∀ write ∈ writes, KeyTree.Diverge path write.path) (server : FNode) :
    (applyWrites server writes).getChild path = server.getChild path := by
  induction writes generalizing server with
  | nil => rfl
  | cons write rest ih =>
      rw [applyWrites_cons, ih fun other mem => parted other (List.mem_cons_of_mem _ mem)]
      exact KeyTree.get_set_of_diverge keyBefore
        (parted write List.mem_cons_self) server write.value

/-- The children after writes below one of them. -/
theorem entries_applyWrites_under (key : String) {writes : List Write}
    (some_write : writes ≠ [])
    (present : ∀ write ∈ writes, write.value.isEmpty = false) (node : FNode) :
    (applyWrites node (writes.map (Write.under [key]))).entries.Perm
      ((key, applyWrites (node.child key) writes) :: KeyTree.dropKey key node.entries) := by
  induction writes generalizing node with
  | nil => exact absurd rfl some_write
  | cons write rest ih =>
      have written : (applyWrite node (write.under [key])).entries.Perm
          ((key, applyWrite (node.child key) write) :: KeyTree.dropKey key node.entries) :=
        KeyTree.entries_setChild_perm keyBefore key node
          (KeyTree.isEmpty_set keyBefore write.path _ (present write List.mem_cons_self))
      have child : (applyWrite node (write.under [key])).child key =
          applyWrite (node.child key) write :=
        KeyTree.child_setChild_self keyBefore key node _
      rw [List.map_cons, applyWrites_cons, applyWrites_cons]
      by_cases last : rest = []
      · subst last
        exact written
      · have more := ih last (fun other mem => present other (List.mem_cons_of_mem _ mem))
          (applyWrite node (write.under [key]))
        rw [child] at more
        refine more.trans (List.Perm.cons _ ?_)
        refine (written.filter _).trans (List.Perm.of_eq ?_)
        simp [KeyTree.dropKey]

/-! ## The writes of a share -/

/-- The generated key of a field. -/
def fieldKey (cnt : ℕ) : String := "field" ++ toString cnt

theorem fieldKey_injective : Function.Injective fieldKey := by
  intro n m same
  have digits := congrArg String.toList same
  simp only [fieldKey, String.toList_append, List.append_cancel_left_eq,
    Foundation.toList_toString_nat] at digits
  rw [← Nat.ofDigitChars_ten_toDigits (n := n), digits, Nat.ofDigitChars_ten_toDigits]

/-- The three writes of a field, below its key. -/
def attributeWrites (field : DocumentField) : List Write :=
  [⟨["desc"], .leaf (.string field.description)⟩,
    ⟨["type"], .leaf (.string (stringFromFieldType field.type))⟩,
    ⟨["rect"], rectNode field.rect⟩]

/-- The writes of all fields, below `fields`. -/
def fieldsWrites : ℕ → List DocumentField → List Write
  | _, [] => []
  | cnt, field :: rest =>
      (attributeWrites field).map (Write.under [fieldKey cnt]) ++ fieldsWrites (cnt + 1) rest

/-- The value of the first write. -/
def documentNode (document : DocumentModel) : FNode :=
  nodeFrom [("name", some (.string document.name)), ("url", document.url.map .string)]

/-- The writes of a document, below its root. -/
def documentWrites (document : DocumentModel) : List Write :=
  ⟨[], documentNode document⟩ ::
    (fieldsWrites 0 document.fieldsToFill).map (Write.under ["fields"])

/-- Where a document id is shared. -/
def sharedPath (id : String) : FPath := "shared" :: pathPieces id

/-- The writes of a share. -/
def shareWrites (document : DocumentModel) : List Write :=
  (documentWrites document).map (Write.under (sharedPath document.id))

theorem child_fieldPath {id : String} (clean : PathChars id) (cnt : ℕ) {attr : String}
    (attrClean : PathChars attr) (attrPiece : pathPieces attr = [attr]) :
    dbReference.child (fieldPath id cnt attr) =
      .ok (sharedPath id ++ ["fields", fieldKey cnt, attr]) := by
  have digits : ∀ c ∈ (toString cnt).toList, c.isDigit = true := by
    rw [Foundation.toList_toString_nat]
    exact fun c => Foundation.isDigit_of_mem_toDigits_ten
  have keyClean : PathChars (fieldKey cnt) := by
    have noDigit : ∀ c ∈ FValidation.kInvalidPathCharacters, c.isDigit = false := by
      simp [FValidation.kInvalidPathCharacters]
    refine pathChars_append.mpr ⟨by decide, ?_⟩
    intro c mem bad
    exact absurd (digits c mem) (by simp [noDigit c bad])
  have keyPiece : pathPieces (fieldKey cnt) = [fieldKey cnt] := by
    refine pathPieces_of_noSlash (by simp [fieldKey, String.append_eq_empty_iff]) ?_
    rw [fieldKey, String.toList_append, List.mem_append, not_or]
    exact ⟨by decide, fun slash => absurd (digits '/' slash) (by decide)⟩
  have regroup : fieldPath id cnt attr =
      "/shared/" ++ (id ++ "/" ++ "fields" ++ "/" ++ fieldKey cnt ++ "/" ++ attr) := by
    simp only [fieldPath, fieldKey, String.append_assoc]
    rfl
  have pieces : pathPieces (id ++ "/" ++ "fields" ++ "/" ++ fieldKey cnt ++ "/" ++ attr) =
      pathPieces id ++ ["fields", fieldKey cnt, attr] := by
    rw [pathPieces_append_slash, pathPieces_append_slash, pathPieces_append_slash, keyPiece,
      attrPiece, show pathPieces "fields" = ["fields"] by decide]
    simp
  rw [regroup, child_shared, if_pos, pieces]
  · rfl
  · simp only [pathChars_append]
    exact ⟨⟨⟨⟨⟨⟨clean, by decide⟩, by decide⟩, by decide⟩, keyClean⟩, by decide⟩, attrClean⟩

theorem shareFields_eq {id : String} (clean : PathChars id) (cnt : ℕ)
    (fields : List DocumentField) :
    shareFields id cnt fields =
      .ok (((fieldsWrites cnt fields).map (Write.under ["fields"])).map
        (Write.under (sharedPath id))) := by
  induction fields generalizing cnt with
  | nil => rfl
  | cons field rest ih =>
      rw [shareFields, shareField, child_fieldPath clean cnt (by decide) (by decide),
        child_fieldPath clean cnt (by decide) (by decide),
        child_fieldPath clean cnt (by decide) (by decide), ih]
      simp [bind, Except.bind, pure, Except.pure, fieldsWrites, attributeWrites, Write.under]

/-- **The writes of a share**; an id without forbidden characters never raises. -/
theorem shareDoucment_eq {document : DocumentModel} (clean : PathChars document.id) :
    shareDoucment document = .ok (shareWrites document) := by
  rw [shareDoucment, child_shared, if_pos clean, shareFields_eq clean]
  simp [bind, Except.bind, pure, Except.pure, shareWrites, documentWrites, Write.under,
    documentNode, sharedPath]

/-- Whatever a share issues are these writes. -/
theorem writes_of_shareDoucment {document : DocumentModel} {writes : List Write}
    (shared : shareDoucment document = .ok writes) : writes = shareWrites document := by
  by_cases clean : PathChars document.id
  · rw [shareDoucment_eq clean] at shared
    exact (Except.ok.inj shared).symm
  · rw [shareDoucment, child_shared, if_neg clean] at shared
    cases shared

/-! ## The node a share builds -/

/-- The node of one field. -/
def fieldNode (field : DocumentField) :
    FNode := applyWrites KeyTree.empty (attributeWrites field)

/-- The node of a document. -/
def shareNode (document : DocumentModel) : FNode :=
  applyWrites KeyTree.empty (documentWrites document)

/-- **A share replaces what was there**, whatever it was. -/
theorem getChild_applyWrites_share (document : DocumentModel) (server : FNode) :
    (applyWrites server (shareWrites document)).getChild (sharedPath document.id) =
      shareNode document := by
  rw [shareWrites, getChild_applyWrites_under]
  rfl

theorem isEmpty_rectNode (rect : CGRect) : (rectNode rect).isEmpty = false := by
  simp only [rectNode, nodeFrom, List.foldl_cons, List.foldl_nil]
  exact KeyTree.isEmpty_setChild keyBefore "y" _ (KeyTree.isEmpty_leaf _)

theorem isEmpty_attributeWrites {field : DocumentField} {write : Write}
    (mem : write ∈ attributeWrites field) : write.value.isEmpty = false := by
  simp only [attributeWrites, List.mem_cons, List.not_mem_nil, or_false] at mem
  rcases mem with rfl | rfl | rfl
  · rfl
  · rfl
  · exact isEmpty_rectNode field.rect

/-- The generated keys keep the fields apart: after the loop there is one child
for each field, next to those with smaller numbers. -/
theorem entries_fieldsWrites (cnt : ℕ) (fields : List DocumentField) {node : FNode}
    (below : ∀ e ∈ node.entries, ∃ j, j < cnt ∧ e.1 = fieldKey j) :
    (applyWrites node (fieldsWrites cnt fields)).entries.Perm
      ((fields.zipIdx cnt).map (fun p => (fieldKey p.2, fieldNode p.1)) ++ node.entries) := by
  -- `below` is the invariant of the loop: only smaller numbers are taken.
  induction fields generalizing cnt node with
  | nil => exact List.Perm.refl _
  | cons field rest ih =>
      have absent : ∀ e ∈ node.entries, e.1 ≠ fieldKey cnt := by
        intro e mem same
        obtain ⟨j, lt, known⟩ := below e mem
        have := fieldKey_injective (known.symm.trans same)
        omega
      have some_write : attributeWrites field ≠ [] := List.cons_ne_nil _ _
      have written := entries_applyWrites_under (fieldKey cnt) some_write
        (fun _ => isEmpty_attributeWrites) node
      rw [KeyTree.child_eq_empty_of_absent absent, KeyTree.dropKey_of_absent absent] at written
      have below' : ∀ e ∈ (applyWrites node ((attributeWrites field).map
          (Write.under [fieldKey cnt]))).entries, ∃ j, j < cnt + 1 ∧ e.1 = fieldKey j := by
        intro e mem
        rcases List.mem_cons.mp (written.mem_iff.mp mem) with rfl | old
        · exact ⟨cnt, Nat.lt_succ_self _, rfl⟩
        · obtain ⟨j, lt, known⟩ := below e old
          exact ⟨j, by omega, known⟩
      rw [fieldsWrites, applyWrites_append]
      refine (ih (cnt + 1) below').trans ?_
      refine (written.append_left _).trans ?_
      rw [List.zipIdx_cons, List.map_cons, List.cons_append]
      exact List.perm_middle

/-- The node a download reads the fields of a shared document from. -/
def fieldsNode (document : DocumentModel) : FNode :=
  (shareNode document).getChild (pathPieces "fields")

theorem fieldsNode_eq (document : DocumentModel) :
    fieldsNode document = applyWrites KeyTree.empty (fieldsWrites 0 document.fieldsToFill) := by
  have inside : (shareNode document).getChild ["fields"] =
      applyWrites ((documentNode document).getChild ["fields"])
        (fieldsWrites 0 document.fieldsToFill) :=
    getChild_applyWrites_under ["fields"] _ _
  have none : (documentNode document).getChild ["fields"] = KeyTree.empty := by
    cases url : document.url <;>
      simp [FNode.getChild, documentNode, nodeFrom, url, KeyTree.child_setChild_of_ne]
  rw [fieldsNode, show pathPieces "fields" = ["fields"] by decide, inside, none]

/-- Its children, up to order. -/
theorem entries_fieldsNode (document : DocumentModel) :
    (fieldsNode document).entries.Perm
      (document.fieldsToFill.zipIdx.map fun p => (fieldKey p.2, fieldNode p.1)) := by
  have below : ∀ e ∈ (KeyTree.empty : FNode).entries, ∃ j, j < 0 ∧ e.1 = fieldKey j := by simp
  have entries := entries_fieldsWrites 0 document.fieldsToFill below
  rw [KeyTree.entries_empty, List.append_nil] at entries
  rw [fieldsNode_eq]
  exact entries

/-- The children of `fields`, up to order. -/
theorem fieldSnapshots_shareNode (document : DocumentModel) :
    (fieldSnapshots (shareNode document)).Perm (document.fieldsToFill.map fieldNode) := by
  refine ((entries_fieldsNode document).map Prod.snd).trans (List.Perm.of_eq ?_)
  have second : (Prod.snd ∘ fun p : DocumentField × ℕ => (fieldKey p.2, fieldNode p.1)) =
      fieldNode ∘ Prod.fst := by
    funext p
    simp only [Function.comp_apply]
  rw [List.map_map, second, ← List.map_map, List.zipIdx_map_fst]

/-! ## Decoding it -/

section Casts

variable {node : FNode} {textName : String}

/-- On a node with a text key, the attributes are the children. -/
theorem stringAttribute_eq (textKey : integerKey textName = none)
    (present : node.child textName ≠ KeyTree.empty) (key : String) :
    stringAttribute node.asDictionary key = (FNode.asString (node.child key)).getD "" := by
  rw [stringAttribute, subscriptValue_asDictionary textKey present,
    bind_lookup_eq_child FNode.asString rfl]

theorem doubleAttribute_eq (textKey : integerKey textName = none)
    (present : node.child textName ≠ KeyTree.empty) (key : String) :
    doubleAttribute node.asDictionary key = (FNode.asDouble (node.child key)).getD 0 := by
  rw [doubleAttribute, subscriptValue_asDictionary textKey present,
    bind_lookup_eq_child FNode.asDouble rfl]

theorem rectDictionary_eq (textKey : integerKey textName = none)
    (present : node.child textName ≠ KeyTree.empty) :
    rectDictionary node = FNode.asDictionary (node.child "rect") := by
  rw [rectDictionary, subscriptValue_asDictionary textKey present,
    bind_lookup_eq_child FNode.asDictionary rfl]

end Casts

/-- What a share sends of a rectangle is read back as its accessors give it. -/
theorem doubleAttribute_rectNode (rect : CGRect) :
    doubleAttribute (rectNode rect).asDictionary "x" = rect.origin.x ∧
      doubleAttribute (rectNode rect).asDictionary "y" = rect.origin.y ∧
      doubleAttribute (rectNode rect).asDictionary "width" = rect.width ∧
      doubleAttribute (rectNode rect).asDictionary "height" = rect.height := by
  have x : (rectNode rect).child "x" = .leaf (.number rect.origin.x) := by
    simp [rectNode, nodeFrom, KeyTree.child_setChild_of_ne]
  have y : (rectNode rect).child "y" = .leaf (.number rect.origin.y) := by
    simp [rectNode, nodeFrom]
  have width : (rectNode rect).child "width" = .leaf (.number rect.width) := by
    simp [rectNode, nodeFrom, KeyTree.child_setChild_of_ne]
  have height : (rectNode rect).child "height" = .leaf (.number rect.height) := by
    simp [rectNode, nodeFrom, KeyTree.child_setChild_of_ne]
  have textKey : integerKey "x" = none := by decide
  have present : (rectNode rect).child "x" ≠ KeyTree.empty := by
    rw [x]
    exact KeyTree.leaf_ne_empty _
  simp only [doubleAttribute_eq textKey present, x, y, width, height]
  exact ⟨rfl, rfl, rfl, rfl⟩

/-- **A field comes back from its node** with the rectangle its accessors
describe. -/
theorem content_decodeField_fieldNode (field : DocumentField) :
    (decodeField (fieldNode field)).content =
      (field.description, field.type,
        CGRect.make field.rect.origin.x field.rect.origin.y field.rect.width
          field.rect.height) := by
  have desc : (fieldNode field).child "desc" = .leaf (.string field.description) := by
    simp [fieldNode, attributeWrites, applyWrite, FNode.updateChild,
      KeyTree.child_setChild_of_ne]
  have type : (fieldNode field).child "type" =
      .leaf (.string (stringFromFieldType field.type)) := by
    simp [fieldNode, attributeWrites, applyWrite, FNode.updateChild,
      KeyTree.child_setChild_of_ne]
  have rect : (fieldNode field).child "rect" = rectNode field.rect := by
    simp [fieldNode, attributeWrites, applyWrite, FNode.updateChild]
  have textKey : integerKey "desc" = none := by decide
  have present : (fieldNode field).child "desc" ≠ KeyTree.empty := by
    rw [desc]
    exact KeyTree.leaf_ne_empty _
  obtain ⟨x, y, width, height⟩ := doubleAttribute_rectNode field.rect
  simp [decodeField, DocumentField.content, stringAttribute_eq textKey present,
    rectDictionary_eq textKey present, desc, type, rect, x, y, width, height, FNode.asString]

/-- A downloaded document has the name, url and fields of a version. -/
structure SameVersion (version document : DocumentModel) : Prop where
  name : document.name = version.name
  url : document.url = version.url
  fields : (document.fieldsToFill.map DocumentField.content).Perm
    (version.fieldsToFill.map DocumentField.content)

/-- The attributes of a shared document. -/
theorem attributes_shareNode (document : DocumentModel) :
    stringAttribute (shareNode document).asDictionary "name" = document.name ∧
      stringAttribute (shareNode document).asDictionary "url" = document.url.getD "" := by
  have outside (key : String) (ne : key ≠ "fields") :
      (shareNode document).child key = (documentNode document).child key := by
    have parted : ∀ write ∈ (fieldsWrites 0 document.fieldsToFill).map (Write.under ["fields"]),
        KeyTree.Diverge [key] write.path := by
      intro write mem
      obtain ⟨inner, -, rfl⟩ := List.mem_map.mp mem
      exact ⟨[], key, "fields", [], inner.path, ne, rfl, rfl⟩
    exact getChild_applyWrites_of_diverge parted (documentNode document)
  have name : (documentNode document).child "name" = .leaf (.string document.name) := by
    cases url : document.url <;>
      simp [documentNode, nodeFrom, url, KeyTree.child_setChild_of_ne]
  have url : FNode.asString ((documentNode document).child "url") = document.url := by
    cases url : document.url <;>
      simp [documentNode, nodeFrom, url, KeyTree.child_setChild_of_ne, FNode.asString]
    rfl
  have textKey : integerKey "name" = none := by decide
  have present : (shareNode document).child "name" ≠ KeyTree.empty := by
    rw [outside "name" (by decide), name]
    exact KeyTree.leaf_ne_empty _
  rw [stringAttribute_eq textKey present, stringAttribute_eq textKey present,
    outside "name" (by decide), outside "url" (by decide), name, url]
  exact ⟨rfl, rfl⟩

/-- **Decode undoes encode**, for documents with a url and without negative
sizes. -/
theorem sameVersion_decode {document : DocumentModel} {url : String}
    (known : document.url = some url)
    (standard : ∀ field ∈ document.fieldsToFill, field.rect.Standardized) (key cdID : String) :
    SameVersion document (decodeDocument key (shareNode document) cdID) where
  name := (attributes_shareNode document).1
  url := by
    rw [decodeDocument, (attributes_shareNode document).2, known]
    rfl
  fields := by
    have decoded := ((fieldSnapshots_shareNode document).map decodeField).map
      DocumentField.content
    refine decoded.trans (List.Perm.of_eq ?_)
    rw [List.map_map, List.map_map]
    refine List.map_congr_left ?_
    intro field mem
    have rect := (CGRect.make_accessors_eq_iff field.rect).mpr (standard field mem)
    simp only [Function.comp_apply, content_decodeField_fieldNode, rect]
    rfl

/-! ## Histories of shares -/

/-- The writes of a sequence of shares, in the order issued. -/
def shareAll : List DocumentModel → Except NSException (List Write)
  | [] => return []
  | document :: rest => do
      let writes ← shareDoucment document
      let more ← shareAll rest
      return writes ++ more

theorem shareAll_eq {history : List DocumentModel}
    (clean : ∀ document ∈ history, PathChars document.id) :
    shareAll history = .ok (history.flatMap shareWrites) := by
  induction history with
  | nil => rfl
  | cons document rest ih =>
      rw [shareAll, shareDoucment_eq (clean document List.mem_cons_self),
        ih fun other mem => clean other (List.mem_cons_of_mem _ mem)]
      simp [bind, Except.bind, pure, Except.pure]

/-- The last version shared under a key. -/
def lastVersion (key : String) (history : List DocumentModel) : Option DocumentModel :=
  (history.filter fun document => document.id = key).getLast?

/-- **The node under a key after a history of shares** is that of the last
version, or what was there if there is none. -/
theorem getChild_applyWrites_history {key : String} {history : List DocumentModel}
    (parted : ∀ document ∈ history, document.id ≠ key →
      ∀ write ∈ shareWrites document, KeyTree.Diverge (sharedPath key) write.path)
    (server : FNode) :
    (applyWrites server (history.flatMap shareWrites)).getChild (sharedPath key) =
      (lastVersion key history).elim (server.getChild (sharedPath key)) shareNode := by
  -- By the last share: it replaces the node under its own id, and no other.
  induction history using List.reverseRecOn with
  | nil => rfl
  | append_singleton history document ih =>
      have before := ih fun other mem => parted other (List.mem_append_left _ mem)
      rw [List.flatMap_append, List.flatMap_singleton, applyWrites_append]
      by_cases own : document.id = key
      · subst own
        rw [getChild_applyWrites_share]
        simp [lastVersion]
      · have away := parted document (List.mem_append_right _ List.mem_cons_self) own
        rw [getChild_applyWrites_of_diverge away, before]
        simp [lastVersion, own]

/-- Valid keys name different children. -/
theorem diverge_of_isValidKey {key : String} (valid : FValidation.isValidKey key = true)
    {document : DocumentModel} (validId : FValidation.isValidKey document.id = true)
    (ne : document.id ≠ key) :
    ∀ write ∈ shareWrites document, KeyTree.Diverge (sharedPath key) write.path := by
  have single {id : String} (valid : FValidation.isValidKey id = true) :
      sharedPath id = ["shared", id] := by
    obtain ⟨-, nonempty, noSlash⟩ := (isValidKey_iff id).mp valid
    rw [sharedPath, pathPieces_of_noSlash nonempty noSlash]
  intro write mem
  obtain ⟨inner, -, rfl⟩ := List.mem_map.mp mem
  rw [single valid, Write.under, single validId]
  exact ⟨["shared"], key, document.id, [], inner.path, Ne.symm ne, rfl, rfl⟩

/-- A document as it is shared: a valid key as id, a url, and no negative size. -/
structure Shareable (document : DocumentModel) : Prop where
  id : FValidation.isValidKey document.id = true
  url : ∃ url, document.url = some url ∧ url ≠ ""
  sizes : ∀ field ∈ document.fieldsToFill, field.rect.Standardized

variable (F : Foundation)

/-- A download appends one document, and it is this version. -/
def Downloads (key : String) (server : FNode) (ok : ℕ → Bool) (env : GlobalEnviroment)
    (version : DocumentModel) : Prop :=
  ∃ download document, downloadDocument F key server ok env = .ok download ∧
    download.env.loadedDocuments = env.loadedDocuments ++ [document] ∧
    document.id = key ∧ SameVersion version document

/-- A download of the node of a version appends that version. -/
theorem downloads_of_getChild {key : String} (clean : PathChars key) {server : FNode}
    {version : DocumentModel} (node : server.getChild (sharedPath key) = shareNode version)
    (url : ∃ url, version.url = some url ∧ url ≠ "")
    (sizes : ∀ field ∈ version.fieldsToFill, field.rect.Standardized)
    (ok : ℕ → Bool) (env : GlobalEnviroment) : Downloads F key server ok env version := by
  obtain ⟨url, known, nonempty⟩ := url
  have snapshot : Operation.snapshot server key = shareNode version := node
  have found : stringAttribute (shareNode version).asDictionary "url" ≠ "" := by
    rw [(attributes_shareNode version).2, known]
    exact nonempty
  refine ⟨_, decodeDocument key (shareNode version) (F.uuidString env.uuidCount),
    downloadDocument_of_pathChars F clean server ok env, ?_, rfl,
    sameVersion_decode known sizes key _⟩
  simp [downloadCallback, snapshot, found, GlobalEnviroment.perform]

/-- **Decode undoes encode, over any sharing history.**  No share raises, and once
all writes are applied a download of a key appends the last version shared under
it; a key that was not shared downloads to what it did before. -/
theorem download_after_shares {history : List DocumentModel}
    (shareable : ∀ document ∈ history, Shareable document) (server : FNode) :
    ∃ writes, shareAll history = .ok writes ∧
      ∀ key, FValidation.isValidKey key = true → ∀ (ok : ℕ → Bool) (env : GlobalEnviroment),
        (∀ version, lastVersion key history = some version →
          Downloads F key (applyWrites server writes) ok env version) ∧
        (lastVersion key history = none →
          downloadDocument F key (applyWrites server writes) ok env =
            downloadDocument F key server ok env) := by
  have clean : ∀ document ∈ history, PathChars document.id := fun document mem =>
    ((isValidKey_iff _).mp (shareable document mem).id).1
  refine ⟨history.flatMap shareWrites, shareAll_eq clean, ?_⟩
  intro key valid ok env
  have keyClean : PathChars key := ((isValidKey_iff key).mp valid).1
  have node := getChild_applyWrites_history
    (fun document mem ne => diverge_of_isValidKey valid (shareable document mem).id ne) server
  refine ⟨fun version last => ?_, fun none => ?_⟩
  · have mem : version ∈ history :=
      (List.mem_filter.mp (List.mem_of_getLast? last)).1
    rw [last] at node
    exact downloads_of_getChild F keyClean node (shareable version mem).url
      (shareable version mem).sizes ok env
  · rw [none] at node
    rw [downloadDocument_of_pathChars F keyClean, downloadDocument_of_pathChars F keyClean]
    have same : Operation.snapshot (applyWrites server (history.flatMap shareWrites)) key =
        Operation.snapshot server key := node
    rw [same]

/-- A document with two fields of one description, and the same with one field
after a removal. -/
def twoFields : DocumentModel where
  id := "doc1"
  name := "Заявление"
  url := some "a.pdf"
  cdID := "00000000-0000-4000-8000-000000000000"
  fieldsToFill :=
    [{ rect := CGRect.make 10 20 100 15, description := "Имя", type := .name },
      { rect := CGRect.make 10 40 100 15, description := "Имя", type := .surname }]

def oneField : DocumentModel :=
  { twoFields with fieldsToFill := twoFields.fieldsToFill.take 1 }

theorem shareable_twoFields : Shareable twoFields :=
  ⟨by decide, ⟨"a.pdf", rfl, by decide⟩, by decide +kernel⟩

theorem shareable_oneField : Shareable oneField :=
  ⟨by decide, ⟨"a.pdf", rfl, by decide⟩, by decide +kernel⟩

theorem download_after_reshare :
    ∃ writes, shareAll [twoFields, oneField] = .ok writes ∧
      Downloads Foundation.numbered "doc1" (applyWrites KeyTree.empty writes) (fun _ => true)
        .initial oneField := by
  have shareable : ∀ document ∈ [twoFields, oneField], Shareable document := by
    intro document mem
    rcases List.mem_pair.mp mem with rfl | rfl
    · exact shareable_twoFields
    · exact shareable_oneField
  obtain ⟨writes, shared, downloads⟩ :=
    download_after_shares Foundation.numbered shareable KeyTree.empty
  exact ⟨writes, shared, (downloads "doc1" (by decide) _ _).1 oneField (by decide +kernel)⟩

/-! ## What shares never write -/

/-- Below a node that stands under `name`, no `width` and no `height` is a negative
number. -/
inductive NonnegativeBelow : String → FNode → Prop
  | leaf {name : String} {value : Leaf}
      (sizes : ∀ x, value = .number x → name = "width" ∨ name = "height" → 0 ≤ x) :
      NonnegativeBelow name (.leaf value)
  | node {name : String} {entries : List (String × FNode)}
      (children : ∀ e ∈ entries, NonnegativeBelow e.1 e.2) :
      NonnegativeBelow name (.node entries)

namespace NonnegativeBelow

variable {name key : String} {node c : FNode}

theorem empty (name : String) : NonnegativeBelow name KeyTree.empty :=
  .node fun _ mem => absurd mem List.not_mem_nil

theorem text (name text : String) : NonnegativeBelow name (.leaf (.string text)) :=
  .leaf fun _ number => by cases number

theorem entry (below : NonnegativeBelow name node) {e : String × FNode}
    (mem : e ∈ node.entries) : NonnegativeBelow e.1 e.2 := by
  cases below with
  | leaf sizes => exact absurd mem List.not_mem_nil
  | node children => exact children e mem

theorem lookup (below : NonnegativeBelow name node) (found : node.entries.lookup key = some c) :
    NonnegativeBelow key c := by
  obtain ⟨front, back, eq, -⟩ := List.lookup_eq_some_iff.mp found
  have mem : (key, c) ∈ node.entries := by simp [eq]
  exact below.entry mem

theorem child (below : NonnegativeBelow name node) (key : String) :
    NonnegativeBelow key (node.child key) := by
  cases found : node.entries.lookup key with
  | none =>
      rw [KeyTree.child, found]
      exact empty key
  | some c =>
      rw [KeyTree.child, found]
      exact below.lookup found

theorem setChild (below : NonnegativeBelow name node) (written : NonnegativeBelow key c) :
    NonnegativeBelow name (node.setChild keyBefore key c) := by
  cases present : c.isEmpty with
  | true =>
      cases below with
      | leaf sizes =>
          rw [KeyTree.setChild, if_pos present]
          exact .leaf sizes
      | node children =>
          rw [KeyTree.setChild, if_pos present]
          exact .node fun e mem => children e (List.mem_filter.mp mem).1
  | false =>
      have entries := KeyTree.entries_setChild_perm keyBefore key node present
      cases replaced : node.setChild keyBefore key c with
      | leaf value =>
          rw [replaced] at entries
          exact absurd entries.length_eq (by simp [KeyTree.entries])
      | node es =>
          rw [replaced] at entries
          refine .node ?_
          intro e mem
          rcases List.mem_cons.mp (entries.mem_iff.mp mem) with rfl | old
          · exact written
          · exact below.entry (List.mem_filter.mp old).1

theorem updateChild (path : FPath) (below : NonnegativeBelow name node)
    (written : ∀ name, NonnegativeBelow name c) :
    NonnegativeBelow name (node.updateChild path c) := by
  induction path generalizing name node with
  | nil => exact written name
  | cons key path ih => exact below.setChild (ih (below.child key))

theorem getChild (path : FPath) (below : NonnegativeBelow name node) :
    ∃ name, NonnegativeBelow name (node.getChild path) := by
  induction path generalizing name node with
  | nil => exact ⟨name, below⟩
  | cons key path ih => exact ih (below.child key)

/-- Subscripting a snapshot stays below it. -/
theorem subscript (below : NonnegativeBelow name node)
    (found : subscriptValue node.asDictionary key = some c) : NonnegativeBelow key c := by
  cases node with
  | leaf value => simp [subscriptValue, FNode.asDictionary] at found
  | node entries =>
      have inside : entries.lookup key = some c := by
        cases entries with
        | nil => simp [subscriptValue, FNode.asDictionary] at found
        | cons e rest =>
            simp only [subscriptValue, FNode.asDictionary, Option.bind_eq_some_iff] at found
            obtain ⟨exported, eq, found⟩ := found
            split at eq
            · cases eq
            · obtain rfl := Option.some.inj eq
              exact found
      exact below.lookup inside

theorem doubleAttribute (below : NonnegativeBelow name node)
    (size : key = "width" ∨ key = "height") : 0 ≤ doubleAttribute node.asDictionary key := by
  cases found : subscriptValue node.asDictionary key with
  | none => simp [DocumentRelay.doubleAttribute, found]
  | some c =>
      have inside := below.subscript found
      cases inside with
      | @leaf _ value sizes =>
          cases value with
          | string text => simp [DocumentRelay.doubleAttribute, found, FNode.asDouble]
          | number x =>
              have nonnegative : 0 ≤ x := sizes x rfl size
              simpa [DocumentRelay.doubleAttribute, found, FNode.asDouble] using nonnegative
          | bool b => cases b <;> simp [DocumentRelay.doubleAttribute, found, FNode.asDouble]
      | node children => simp [DocumentRelay.doubleAttribute, found, FNode.asDouble]

end NonnegativeBelow

/-- **Data written by shares**: the state of a database that only ever applied
writes of shares, of any documents, in any order. -/
def SharedData (server : FNode) : Prop :=
  ∃ writes : List Write, server = applyWrites KeyTree.empty writes ∧
    ∀ write ∈ writes, ∃ document issued, shareDoucment document = .ok issued ∧ write ∈ issued

theorem nonnegativeBelow_nodeFrom (dictionary : List (String × Option Leaf))
    (sizes : ∀ e ∈ dictionary, ∀ x, e.2 = some (.number x) →
      e.1 = "width" ∨ e.1 = "height" → 0 ≤ x) (name : String) :
    NonnegativeBelow name (nodeFrom dictionary) := by
  refine List.foldlRecOn dictionary _ (.empty name) ?_
  intro node below e mem
  obtain ⟨key, value⟩ := e
  cases value with
  | none => exact below
  | some leaf =>
      refine below.setChild (.leaf fun x number => ?_)
      exact sizes (key, some leaf) mem x (by rw [number])

/-- No write of a share brings a negative size: the accessors are not negative. -/
theorem nonnegativeBelow_of_mem_share {document : DocumentModel} {issued : List Write}
    (shared : shareDoucment document = .ok issued) {write : Write} (mem : write ∈ issued)
    (name : String) : NonnegativeBelow name write.value := by
  have clean : PathChars document.id := by
    by_contra raises
    rw [shareDoucment, child_shared, if_neg raises] at shared
    exact absurd shared (by simp [bind, Except.bind])
  rw [shareDoucment_eq clean] at shared
  obtain rfl := Except.ok.inj shared
  have attributes (field : DocumentField) :
      ∀ w ∈ attributeWrites field, NonnegativeBelow name w.value := by
    intro w inField
    simp only [attributeWrites, List.mem_cons, List.not_mem_nil, or_false] at inField
    rcases inField with rfl | rfl | rfl
    · exact .text name _
    · exact .text name _
    · refine nonnegativeBelow_nodeFrom _ (fun e inDictionary x number size => ?_) name
      simp only [List.mem_cons, List.not_mem_nil, or_false] at inDictionary
      rcases inDictionary with rfl | rfl | rfl | rfl
      · obtain rfl : field.rect.width = x := by simpa using number
        exact abs_nonneg _
      · obtain rfl : field.rect.height = x := by simpa using number
        exact abs_nonneg _
      · simp at size
      · simp at size
  have fields (cnt : ℕ) (l : List DocumentField) :
      ∀ w ∈ fieldsWrites cnt l, NonnegativeBelow name w.value := by
    induction l generalizing cnt with
    | nil => exact fun w mem => absurd mem List.not_mem_nil
    | cons field rest ih =>
        intro w inFields
        rcases List.mem_append.mp inFields with own | later
        · obtain ⟨inner, known, rfl⟩ := List.mem_map.mp own
          exact attributes field inner known
        · exact ih (cnt + 1) w later
  obtain ⟨local_write, known, rfl⟩ := List.mem_map.mp mem
  rcases List.mem_cons.mp known with rfl | inFields
  · refine nonnegativeBelow_nodeFrom _ (fun e inDictionary x number size => ?_) name
    simp only [List.mem_cons, List.not_mem_nil, or_false] at inDictionary
    rcases inDictionary with rfl | rfl <;> simp at size
  · obtain ⟨inner, inner_mem, rfl⟩ := List.mem_map.mp inFields
    exact fields 0 _ inner inner_mem

/-- **Shared data has no negative size anywhere.** -/
theorem SharedData.nonnegativeBelow {server : FNode} (shared : SharedData server) :
    NonnegativeBelow "" server := by
  obtain ⟨writes, rfl, origin⟩ := shared
  suffices general : ∀ node, NonnegativeBelow "" node →
      NonnegativeBelow "" (applyWrites node writes) from general _ (.empty "")
  induction writes with
  | nil => exact fun node below => below
  | cons write rest ih =>
      intro node below
      obtain ⟨document, issued, ran, mem⟩ := origin write List.mem_cons_self
      exact ih (fun other known => origin other (List.mem_cons_of_mem _ known)) _
        (below.updateChild write.path fun name => nonnegativeBelow_of_mem_share ran mem name)

end DocumentRelay
