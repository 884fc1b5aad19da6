import Mathlib.Data.List.Sort
import GroovyIndex.Proofs.EditBatch

/-!
# Canonical batches

What calls make of the empty batch, put in order, is canonical: no document is without edits, and
the edits of a document come by their starts. A canonical batch is determined by its edits at each
place, which are those of the first calls. So calls for different places may come in any order.
-/

namespace GroovyIndex

namespace UriMap

variable {α : Type} {m other : UriMap α}

/-- Maps that agree on every document are the same. -/
theorem ext_get? (hget : ∀ uri, m.get? uri = other.get? uri) : m = other := by
  have hmem (entry : Uri × α) : entry ∈ m.entries ↔ entry ∈ other.entries := by
    rw [← get?_eq_some_iff, ← get?_eq_some_iff, hget]
  have irrefl : Std.Irrefl fun a b : Uri × α => a.1.text < b.1.text :=
    ⟨fun a => String.lt_irrefl a.1.text⟩
  have antisymm : Std.Antisymm fun a b : Uri × α => a.1.text < b.1.text :=
    ⟨fun _ _ hab hba => absurd hba (String.lt_asymm hab)⟩
  exact UriMap.ext (m.ordered.eq_of_mem_iff other.ordered hmem)

/-- To write what is there changes nothing. -/
theorem put_of_get? {uri : Uri} {value : α} (hget : m.get? uri = some value) :
    m.put uri value = m := by
  apply ext_get?
  intro doc
  rw [get?_put]
  split
  · next heq => rw [heq, hget]
  · rfl

end UriMap

namespace TextEdit

instance : Std.Irrefl StartsBefore := ⟨fun a => Position.lt_irrefl a.range.start⟩

instance : Std.Antisymm StartsBefore :=
  ⟨fun _ _ hab hba => absurd (Position.lt_trans hab hba) (Position.lt_irrefl _)⟩

/-- An edit that comes behind all others is put at the end. -/
private theorem insertSorted_of_forall {e : TextEdit} {edits : List TextEdit}
    (h : ∀ f ∈ edits, Ordered f e) : insertSorted e edits = edits ++ [e] := by
  induction edits with
  | nil => rfl
  | cons f rest ih =>
    have hf : f.atMost e = true := atMost_iff.mpr (h f List.mem_cons_self)
    have hrest := ih fun g hg => h g (List.mem_cons_of_mem f hg)
    rw [insertSorted, if_pos hf, hrest, List.cons_append]

/-- Edits in order stay as they are. -/
theorem sort_of_ordered {edits : List TextEdit} (h : edits.Pairwise Ordered) :
    sort edits = edits := by
  -- What is sorted so far stands in front of what is still to come.
  have hfold (done rest : List TextEdit) (h : (done ++ rest).Pairwise Ordered) :
      rest.foldl (fun sorted e => insertSorted e sorted) done = done ++ rest := by
    induction rest generalizing done with
    | nil => exact (List.append_nil done).symm
    | cons e rest ih =>
      have hlast : ∀ f ∈ done, Ordered f e := by
        intro f hf
        exact (List.pairwise_append.mp h).2.2 f hf e List.mem_cons_self
      rw [List.append_cons] at h
      rw [List.foldl_cons, insertSorted_of_forall hlast, List.append_cons done e rest]
      exact ih (done ++ [e]) h
  exact hfold [] edits h

end TextEdit

namespace EditBatch

variable {batch other : EditBatch}

/-! ### One call -/

theorem editsFor_put (batch : EditBatch) (uri : Uri) (edits : List TextEdit) (doc : Uri) :
    (batch.put uri edits).editsFor doc = if doc = uri then edits else batch.editsFor doc := by
  rw [editsFor, put, UriMap.get?_put]
  split
  · rfl
  · rfl

/-- A document with edits has a list. -/
theorem get?_of_editsFor_ne_nil {uri : Uri} (h : batch.editsFor uri ≠ []) :
    batch.changes.get? uri = some (batch.editsFor uri) := by
  unfold editsFor at *
  cases hget : batch.changes.get? uri with
  | none => simp [hget] at h
  | some edits => rfl

/-- A call adds the edit as `add` does, and answers whether none was there; a refusal
opens no list. -/
theorem addEdit_eq (batch : EditBatch) (uri : Uri) (edit : TextEdit) :
    batch.addEdit uri edit = (batch.add uri edit, !batch.clashes uri edit) := by
  have hedits : (batch.put uri (batch.editsFor uri)).editsFor uri = batch.editsFor uri := by
    rw [editsFor_put, if_pos rfl]
  have hclash : (batch.put uri (batch.editsFor uri)).clashes uri edit = batch.clashes uri edit := by
    rw [clashes, clashes, hedits]
  rw [addEdit, add]
  simp only [hclash, hedits]
  cases hc : batch.clashes uri edit with
  | true =>
    have hne : batch.editsFor uri ≠ [] := by
      intro hnil
      simp [clashes, hnil] at hc
    have hopened : batch.put uri (batch.editsFor uri) = batch := by
      rw [put, UriMap.put_of_get? (get?_of_editsFor_ne_nil hne)]
    simp [hopened]
  | false => simp [put]

private theorem length_putIn (uri : Uri) (edits : List TextEdit)
    {entries : List (Uri × List TextEdit)} (h : entries.Pairwise (·.1.text < ·.1.text)) :
    ((UriMap.putIn uri edits entries).flatMap (·.2)).length +
        ((UriMap.find? uri entries).getD []).length =
      (entries.flatMap (·.2)).length + edits.length := by
  induction entries with
  | nil => simp [UriMap.putIn, UriMap.find?]
  | cons first rest ih =>
    obtain ⟨key, old⟩ := first
    obtain ⟨hfirst, hrest⟩ := List.pairwise_cons.mp h
    have hcount := ih hrest
    rw [UriMap.putIn, UriMap.find?, List.flatMap_cons, List.length_append]
    by_cases heq : uri = key
    · simp only [heq, if_true, List.flatMap_cons, List.length_append, Option.getD_some]
      omega
    · by_cases hlt : uri.text < key.text
      · -- All documents that follow come later.
        have hnone : UriMap.find? uri rest = none := by
          apply UriMap.find?_eq_none_iff.mpr
          intro entry hentry hsame
          have hlater := String.lt_trans hlt (hfirst entry hentry)
          exact String.lt_irrefl _ (hsame ▸ hlater)
        simp only [if_neg heq, if_pos hlt, hnone, List.flatMap_cons, List.length_append,
          Option.getD_none, List.length_nil]
        omega
      · simp only [if_neg heq, if_neg hlt, List.flatMap_cons, List.length_append]
        omega

/-- A write replaces the edits of its document in the count. -/
theorem editCount_put (batch : EditBatch) (uri : Uri) (edits : List TextEdit) :
    (batch.put uri edits).editCount + (batch.editsFor uri).length =
      batch.editCount + edits.length :=
  length_putIn uri edits batch.changes.ordered

/-- An edit that is added counts one. -/
theorem editCount_add (batch : EditBatch) (uri : Uri) (edit : TextEdit) :
    (batch.add uri edit).editCount =
      batch.editCount + if batch.clashes uri edit then 0 else 1 := by
  have hcount := batch.editCount_put uri (batch.editsFor uri ++ [edit])
  rw [List.length_append, List.length_singleton] at hcount
  unfold add
  split
  · rfl
  · omega

/-! ### Calls in sequence -/

/-- Adds edits one by one, with the answer of each call. -/
def addEdits (batch : EditBatch) : List (Uri × TextEdit) → EditBatch × List Bool
  | [] => (batch, [])
  | (uri, edit) :: rest =>
    let (next, added) := batch.addEdit uri edit
    let (last, answers) := next.addEdits rest
    (last, added :: answers)

theorem addEdits_cons (batch : EditBatch) (uri : Uri) (edit : TextEdit)
    (rest : List (Uri × TextEdit)) :
    batch.addEdits ((uri, edit) :: rest) = (((batch.add uri edit).addEdits rest).1,
      (!batch.clashes uri edit) :: ((batch.add uri edit).addEdits rest).2) := by
  simp only [addEdits, addEdit_eq]

/-- What the calls make is what `addEach` makes. -/
theorem addEdits_fst (batch : EditBatch) (calls : List (Uri × TextEdit)) :
    (batch.addEdits calls).1 = batch.addEach calls := by
  induction calls generalizing batch with
  | nil => rfl
  | cons call rest ih =>
    obtain ⟨uri, edit⟩ := call
    rw [addEdits_cons]
    exact ih (batch.add uri edit)

/-- The edits of a batch are those it had and those whose calls said so. -/
theorem editCount_addEdits (batch : EditBatch) (calls : List (Uri × TextEdit)) :
    (batch.addEdits calls).1.editCount = batch.editCount + (batch.addEdits calls).2.count true := by
  induction calls generalizing batch with
  | nil => rfl
  | cons call rest ih =>
    obtain ⟨uri, edit⟩ := call
    have hrest := ih (batch.add uri edit)
    rw [editCount_add] at hrest
    rw [addEdits_cons, List.count_cons, hrest]
    cases batch.clashes uri edit with
    | true => simp
    | false => simp; omega

/-! ### The edits at a place -/

/-- Where a call adds its edit: the document and the start. -/
def place (call : Uri × TextEdit) : Uri × Position := (call.1, call.2.range.start)

/-- The edits of a document that start at a position. -/
def editsAt (batch : EditBatch) (uri : Uri) (start : Position) : List TextEdit :=
  (batch.editsFor uri).filter (·.range.start == start)

/-- The edit of the first call for a place. -/
def firstAt? (calls : List (Uri × TextEdit)) (uri : Uri) (start : Position) : Option TextEdit :=
  (calls.find? (place · == (uri, start))).map Prod.snd

theorem mem_editsAt {uri : Uri} {start : Position} {edit : TextEdit} :
    edit ∈ batch.editsAt uri start ↔ edit ∈ batch.editsFor uri ∧ edit.range.start = start := by
  simp [editsAt]

theorem clashes_eq_false_iff {uri : Uri} {edit : TextEdit} :
    batch.clashes uri edit = false ↔ batch.editsAt uri edit.range.start = [] := by
  rw [clashes, List.any_eq_false, editsAt, List.filter_eq_nil_iff]

/-- An edit is added at its place if there is none, and nowhere else. -/
theorem editsAt_add (uri : Uri) (edit : TextEdit) (doc : Uri) (start : Position) :
    (batch.add uri edit).editsAt doc start =
      if place (uri, edit) = (doc, start) ∧ batch.editsAt doc start = [] then [edit]
      else batch.editsAt doc start := by
  by_cases hplace : place (uri, edit) = (doc, start)
  · obtain ⟨rfl, rfl⟩ := Prod.mk.inj hplace
    cases hc : batch.clashes uri edit with
    | true =>
      have hne : batch.editsAt uri edit.range.start ≠ [] := by
        intro hnil
        rw [clashes_eq_false_iff.mpr hnil] at hc
        cases hc
      rw [if_neg fun h => hne h.2, add, if_pos hc]
    | false =>
      have hnil := clashes_eq_false_iff.mp hc
      rw [if_pos ⟨hplace, hnil⟩, editsAt, editsFor_add, if_pos ⟨rfl, hc⟩, List.filter_append]
      change batch.editsAt uri edit.range.start ++ _ = _
      simp [hnil]
  · rw [if_neg fun h => hplace h.1, editsAt, editsFor_add]
    split
    · next hdoc =>
      have hstart : edit.range.start ≠ start := by
        intro hstart
        exact hplace (by rw [place, hdoc.1, hstart])
      simp [editsAt, hstart]
    · rfl

/-- At each place stands what was there, or else the edit of the first call for it. -/
theorem editsAt_addEach (calls : List (Uri × TextEdit)) (uri : Uri) (start : Position) :
    (batch.addEach calls).editsAt uri start =
      if batch.editsAt uri start = [] then (firstAt? calls uri start).toList
      else batch.editsAt uri start := by
  induction calls generalizing batch with
  | nil =>
    change batch.editsAt uri start = _
    split
    · next hnil => exact hnil
    · rfl
  | cons call rest ih =>
    change ((batch.add call.1 call.2).addEach rest).editsAt uri start = _
    rw [ih, editsAt_add]
    by_cases hplace : place call = (uri, start)
    · cases hat : batch.editsAt uri start with
      | nil => simp [firstAt?, hplace]
      | cons first others => simp
    · simp [firstAt?, hplace]

/-- Of calls for different places, each is the first for its place. -/
theorem firstAt?_eq_some_iff {calls : List (Uri × TextEdit)} (h : (calls.map place).Nodup)
    {uri : Uri} {start : Position} {edit : TextEdit} :
    firstAt? calls uri start = some edit ↔ (uri, edit) ∈ calls ∧ edit.range.start = start := by
  constructor
  · intro hfirst
    obtain ⟨⟨doc, first⟩, hfind, rfl⟩ := Option.map_eq_some_iff.mp hfirst
    have hfound := List.find?_some hfind
    have hplace : place (doc, first) = (uri, start) := beq_iff_eq.mp hfound
    obtain ⟨rfl, rfl⟩ := Prod.mk.inj hplace
    exact ⟨List.mem_of_find?_eq_some hfind, rfl⟩
  · rintro ⟨hmem, rfl⟩
    cases hfind : calls.find? (place · == (uri, edit.range.start)) with
    | none =>
      have hnot := List.find?_eq_none.mp hfind (uri, edit) hmem
      simp [place] at hnot
    | some first =>
      have hfound := List.find?_some hfind
      have hplace : place first = place (uri, edit) := beq_iff_eq.mp hfound
      have hsame := List.inj_on_of_nodup_map h (List.mem_of_find?_eq_some hfind) hmem hplace
      rw [firstAt?, hfind, hsame]
      rfl

/-- Calls for different places may come in any order. -/
theorem firstAt?_of_perm {calls calls' : List (Uri × TextEdit)} (h : (calls.map place).Nodup)
    (hperm : calls'.Perm calls) (uri : Uri) (start : Position) :
    firstAt? calls' uri start = firstAt? calls uri start := by
  have h' : (calls'.map place).Nodup := (hperm.map place).nodup_iff.mpr h
  apply Option.ext
  intro edit
  rw [firstAt?_eq_some_iff h', firstAt?_eq_some_iff h, hperm.mem_iff]

/-! ### Putting in order -/

theorem filled_normalize (batch : EditBatch) : batch.normalize.Filled := by
  intro entry hentry
  simpa using (List.mem_filter.mp hentry).2

theorem ordered_of_mem_normalize {entry : Uri × List TextEdit}
    (h : entry ∈ batch.normalize.changes.entries) : entry.2.Pairwise TextEdit.Ordered := by
  obtain ⟨old, -, rfl⟩ := List.mem_map.mp (List.mem_filter.mp h).1
  exact TextEdit.ordered_sort old.2

/-- A batch in order stays as it is. -/
theorem normalize_normalize (batch : EditBatch) : batch.normalize.normalize = batch.normalize := by
  apply congrArg EditBatch.mk
  apply UriMap.ext_get?
  intro uri
  simp only [normalize, UriMap.get?_filter, UriMap.get?_map]
  cases batch.changes.get? uri with
  | none => rfl
  | some edits =>
    have hsorted := TextEdit.sort_of_ordered (TextEdit.ordered_sort edits)
    rw [Option.map_some, Option.filter_some]
    split
    · next hne => rw [Option.map_some, hsorted, Option.filter_some, if_pos hne]
    · rfl

private theorem length_normalize (entries : List (Uri × List TextEdit)) :
    (((entries.map fun entry => (entry.1, TextEdit.sort entry.2)).filter
      (!·.2.isEmpty)).flatMap (·.2)).length = (entries.flatMap (·.2)).length := by
  induction entries with
  | nil => rfl
  | cons first rest ih =>
    have hlength := (TextEdit.sort_perm first.2).length_eq
    rw [List.map_cons, List.filter_cons, List.flatMap_cons, List.length_append, ← ih, ← hlength]
    cases TextEdit.sort first.2 with
    | nil => simp
    | cons e sorted =>
      simp only [List.isEmpty_cons, Bool.not_false, if_true, List.flatMap_cons, List.length_append]

/-- No edit is lost, and none is made. -/
theorem editCount_normalize (batch : EditBatch) : batch.normalize.editCount = batch.editCount :=
  length_normalize batch.changes.entries

/-! ### Canonical batches -/

/-- No document is without edits, and the edits of each come by their starts. -/
structure Canonical (batch : EditBatch) : Prop where
  filled : batch.Filled
  ascending : ∀ uri, (batch.editsFor uri).Pairwise TextEdit.StartsBefore

/-- A document has a list exactly if it has edits. -/
theorem Canonical.get?_eq (h : batch.Canonical) (uri : Uri) :
    batch.changes.get? uri =
      if batch.editsFor uri = [] then none else some (batch.editsFor uri) := by
  split
  · next hnil =>
    cases hget : batch.changes.get? uri with
    | none => rfl
    | some edits =>
      have hne := h.filled _ (UriMap.get?_eq_some_iff.mp hget)
      rw [editsFor, hget] at hnil
      exact absurd hnil hne
  · next hne => exact get?_of_editsFor_ne_nil hne

/-- The edits of a document are determined by those at each place. -/
theorem Canonical.editsFor_eq (h : batch.Canonical) (h' : other.Canonical) {uri : Uri}
    (hat : ∀ start, batch.editsAt uri start = other.editsAt uri start) :
    batch.editsFor uri = other.editsFor uri := by
  have hmem (edit : TextEdit) : edit ∈ batch.editsFor uri ↔ edit ∈ other.editsFor uri := by
    have hplace := @mem_editsAt batch uri edit.range.start edit
    rw [hat, mem_editsAt] at hplace
    simpa using hplace.symm
  exact (h.ascending uri).eq_of_mem_iff (h'.ascending uri) hmem

/-- A canonical batch is determined by its edits at each place. -/
theorem Canonical.ext (h : batch.Canonical) (h' : other.Canonical)
    (hat : ∀ uri start, batch.editsAt uri start = other.editsAt uri start) : batch = other := by
  have hchanges : batch.changes = other.changes := by
    apply UriMap.ext_get?
    intro uri
    rw [h.get?_eq, h'.get?_eq, h.editsFor_eq h' (hat uri)]
  exact congrArg EditBatch.mk hchanges

theorem canonical_normalize (calls : List (Uri × TextEdit)) :
    (empty.addEach calls).normalize.Canonical where
  filled := filled_normalize _
  ascending := pairwise_editsFor_normalize calls

/-- At each place stands the edit of the first call for it, and no other. -/
theorem editsAt_normalize (calls : List (Uri × TextEdit)) (uri : Uri) (start : Position) :
    (empty.addEach calls).normalize.editsAt uri start = (firstAt? calls uri start).toList := by
  have hperm : ((empty.addEach calls).normalize.editsAt uri start).Perm
      ((empty.addEach calls).editsAt uri start) := by
    rw [editsAt, editsFor_normalize]
    exact (TextEdit.sort_perm _).filter _
  have hempty : empty.editsAt uri start = [] := rfl
  rw [editsAt_addEach, if_pos hempty] at hperm
  cases hfirst : firstAt? calls uri start with
  | none =>
    rw [hfirst] at hperm
    exact hperm.eq_nil
  | some edit =>
    rw [hfirst] at hperm
    exact List.perm_singleton.mp hperm

/-- What calls make is canonical once it is put in order, whatever the order of calls
for different places. -/
theorem addEdits_canonical :
    (∀ calls : List (Uri × TextEdit),
      (empty.addEdits calls).1.normalize.Canonical ∧
      -- At each place stands the edit of the first call for it.
      (∀ uri start, (empty.addEdits calls).1.normalize.editsAt uri start =
        (firstAt? calls uri start).toList) ∧
      (empty.addEdits calls).1.normalize.editCount = (empty.addEdits calls).2.count true ∧
      (empty.addEdits calls).1.editCount = (empty.addEdits calls).2.count true ∧
      -- A call that is refused leaves the batch as it is.
      ∀ uri edit, ((empty.addEdits calls).1.addEdit uri edit).2 = false →
        ((empty.addEdits calls).1.addEdit uri edit).1 = (empty.addEdits calls).1) ∧
    (∀ calls calls' : List (Uri × TextEdit), (calls.map place).Nodup → calls'.Perm calls →
      (empty.addEdits calls').1.normalize = (empty.addEdits calls).1.normalize) ∧
    -- Putting any batch in order is idempotent, sorts its edits and keeps them.
    ∀ batch : EditBatch,
      batch.normalize.normalize = batch.normalize ∧
      (∀ entry ∈ batch.normalize.changes.entries, entry.2.Pairwise TextEdit.Ordered) ∧
      ∀ uri, (batch.normalize.editsFor uri).Perm (batch.editsFor uri) := by
  refine ⟨?_, ?_, ?_⟩
  · intro calls
    have hcount : (empty.addEdits calls).1.editCount = (empty.addEdits calls).2.count true := by
      rw [editCount_addEdits]
      exact Nat.zero_add _
    refine ⟨?_, ?_, ?_, hcount, ?_⟩
    · rw [addEdits_fst]
      exact canonical_normalize calls
    · rw [addEdits_fst]
      exact editsAt_normalize calls
    · rw [editCount_normalize, hcount]
    · rw [addEdits_fst]
      intro uri edit hrefused
      rw [addEdit_eq] at hrefused ⊢
      have hclash : (empty.addEach calls).clashes uri edit = true := by simpa using hrefused
      exact if_pos hclash
  · intro calls calls' hplaces hperm
    rw [addEdits_fst, addEdits_fst]
    apply (canonical_normalize calls').ext (canonical_normalize calls)
    intro uri start
    rw [editsAt_normalize, editsAt_normalize, firstAt?_of_perm hplaces hperm]
  · intro batch
    refine ⟨normalize_normalize batch, fun entry => ordered_of_mem_normalize, ?_⟩
    intro uri
    rw [editsFor_normalize]
    exact TextEdit.sort_perm _

private def app : Uri := ⟨"file:///app.groovy"⟩

private def lib : Uri := ⟨"file:///lib.groovy"⟩

private def short : TextEdit := ⟨.ofCorners 1 0 1 3, "run"⟩

private def long : TextEdit := ⟨.ofCorners 1 0 1 5, "start"⟩

private def early : TextEdit := ⟨.ofCorners 0 4 0 7, "run"⟩

/-- Calls for three places, and in between one for the place of the first. -/
private def calls : List (Uri × TextEdit) := [(lib, short), (app, early), (lib, long), (lib, early)]

/-- The calls for different places. -/
private def apart : List (Uri × TextEdit) := [(lib, short), (app, early), (lib, early)]

/-- A batch with a document without edits, and one with edits that start together. -/
private def loose : EditBatch := (empty.put app []).put lib [long, short, early]

/-- The third call is refused, and the longer edit is nowhere in the batch. -/
theorem addEdits_canonical_lib :
    (empty.addEdits calls).2 = [true, true, false, true] ∧
    (empty.addEdits calls).1.normalize.editCount = 3 ∧
    (empty.addEdits calls).1.normalize.editsAt lib ⟨1, 0⟩ = [short] ∧
    ((empty.addEdits calls).1.addEdit lib long).1 = (empty.addEdits calls).1 ∧
    (empty.addEdits apart.reverse).1.normalize = (empty.addEdits apart).1.normalize ∧
    (loose.normalize.editsFor lib).Perm [long, short, early] := by
  obtain ⟨hcalls, hperm, hbatch⟩ := addEdits_canonical
  obtain ⟨-, hfirst, hcount, -, hrefused⟩ := hcalls calls
  obtain ⟨-, -, hkept⟩ := hbatch loose
  have hanswers : (empty.addEdits calls).2 = [true, true, false, true] := by decide +kernel
  refine ⟨hanswers, ?_, ?_, ?_, ?_, ?_⟩
  · rw [hcount, hanswers]
    rfl
  · rw [hfirst]
    decide +kernel
  · exact hrefused lib long (by decide +kernel)
  · exact hperm apart apart.reverse (by decide +kernel) apart.reverse_perm
  · exact hkept lib

end EditBatch

end GroovyIndex
