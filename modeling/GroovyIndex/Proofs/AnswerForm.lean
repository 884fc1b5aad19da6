import GroovyIndex.Encoding.Answer
import GroovyIndex.Encoding.Config
import GroovyIndex.Proofs.JsonForm

/-!
# Forms of answers and settings

The records that the service hands out, and its configuration, keep to their forms. Each record is
opened by one law about records, and its parts are read by the laws of their own types.
-/

namespace GroovyIndex

/-! ### Places and names -/

instance : Formatted Range where
  form r := .record [
    ("start_line", form r.start.line), ("start_col", form r.start.col),
    ("end_line", form r.stop.line), ("end_col", form r.stop.col)]
  Fits r := Fits r.start.line ∧ Fits r.start.col ∧ Fits r.stop.line ∧ Fits r.stop.col
  spells_encode r := .ofRecord (by simp)
  decode?_of_spells {r j levels} hfits h hn := by
    obtain ⟨below, value, rfl, hrec, -, hparts⟩ := h.record? (by simp) hn
    simp only [List.forall_mem_cons, List.map_cons, List.map_nil] at hrec hparts
    obtain ⟨hstartLine, hstartCol, hstopLine, hstopCol, -⟩ := hparts
    simp [decode?, hrec, required_eq hfits.1 hstartLine, required_eq hfits.2.1 hstartCol,
      required_eq hfits.2.2.1 hstopLine, required_eq hfits.2.2.2 hstopCol, Range.ofCorners]

instance : RefusesNull Range := ⟨fun levels => by cases levels <;> rfl⟩

instance : Formatted NodeId where
  form id := .integer id.val
  Fits id := id.val < UInt32.size
  spells_encode id := .integer id.val
  decode?_of_spells {id j levels} hfits h hn := by
    cases h
    simp [decode?, Json.natBelow?, hfits]

instance : RefusesNull NodeId := ⟨fun _ => rfl⟩

instance : Formatted Uri where
  form uri := .text uri.text
  Fits uri := uri.IsNormal
  spells_encode uri := .text uri.text
  decode?_of_spells {uri j levels} hfits h hn := by
    cases h
    exact hfits

instance : Formatted SymbolKind :=
  .ofText SymbolKind.text (fun _ => rfl) fun _ kind => by cases kind <;> rfl

/-! ### Definitions and outlines -/

instance : Formatted Definition where
  form d := .record [
    ("uri", form d.uri), ("node", form d.node), ("name", form d.name), ("kind", form d.kind),
    ("range", form d.range), ("selection_range", form d.selectionRange),
    ("type_name", form d.typeName), ("owner", form d.owner)]
  Fits d := Fits d.uri ∧ Fits d.node ∧ Fits d.range ∧ Fits d.selectionRange ∧ Fits d.owner
  spells_encode d := .ofRecord (by simp)
  decode?_of_spells {d j levels} hfits h hn := by
    obtain ⟨below, value, rfl, hrec, -, hparts⟩ := h.record? (by simp) hn
    simp only [List.forall_mem_cons, List.map_cons, List.map_nil] at hrec hparts
    obtain ⟨huri, hnode, hname, hkind, hrange, hselection, htype, howner, -⟩ := hparts
    obtain ⟨huriFits, hnodeFits, hrangeFits, hselectionFits, hownerFits⟩ := hfits
    simp [decode?, hrec, required_eq huriFits huri, required_eq hnodeFits hnode,
      required_eq trivial hname, required_eq trivial hkind, required_eq hrangeFits hrange,
      required_eq hselectionFits hselection, optional_eq (fun _ _ => trivial) htype,
      optional_eq hownerFits howner]

namespace OutlineSymbol

mutual
/-- The form of an outline symbol. -/
def toForm : OutlineSymbol → Form
  | ⟨name, kind, detail, range, selectionRange, children⟩ => .record [
    ("name", form name), ("kind", form kind), ("detail", form detail), ("range", form range),
    ("selection_range", form selectionRange), ("children", .list (toForms children))]
/-- The forms of outline symbols side by side. -/
def toForms : List OutlineSymbol → List Form
  | [] => []
  | symbol :: rest => symbol.toForm :: toForms rest
end

theorem toForms_eq_map (symbols : List OutlineSymbol) : toForms symbols = symbols.map toForm := by
  induction symbols with
  | nil => rfl
  | cons symbol rest ih => rw [toForms, ih, List.map_cons]

mutual
theorem spells_toJson : ∀ symbol : OutlineSymbol, symbol.toForm.Spells symbol.toJson
  | ⟨name, kind, detail, range, selectionRange, children⟩ => by
    have hchildren := spells_toJsonAll children
    exact .ofRecord (by simp [Form.Spells.list hchildren])
theorem spells_toJsonAll : ∀ symbols : List OutlineSymbol,
    List.Forall₂ Form.Spells (toForms symbols) (toJsonAll symbols)
  | [] => .nil
  | symbol :: rest => .cons (spells_toJson symbol) (spells_toJsonAll rest)
end

/-- The ranges of the symbol, and of those below it, fit. -/
inductive RangesFit : OutlineSymbol → Prop where
  | intro {symbol : OutlineSymbol} (range : Fits symbol.range)
      (selectionRange : Fits symbol.selectionRange)
      (children : ∀ child ∈ symbol.children, RangesFit child) : RangesFit symbol

theorem ofJson?_of_spells {symbol : OutlineSymbol} {j : Json} {levels : Nat}
    (hfits : symbol.RangesFit) (h : symbol.toForm.Spells j) (hn : j.nesting ≤ levels) :
    ofJson? levels j = some symbol := by
  induction hfits generalizing j levels with
  | @intro symbol hrangeFits hselectionFits _ ih =>
    obtain ⟨name, kind, detail, range, selectionRange, children⟩ := symbol
    obtain ⟨below, value, rfl, hrec, -, hparts⟩ := h.record? (by simp) hn
    simp only [List.forall_mem_cons, List.map_cons, List.map_nil] at hrec hparts
    obtain ⟨hname, hkind, hdetail, hrange, hselection, hchildren, -⟩ := hparts
    rw [toForms_eq_map] at hchildren
    obtain ⟨inner, js, rfl, hitems, hread⟩ := hchildren.1.mapM_items hchildren.2 ih
    simp [ofJson?, hrec, hitems, hread, required_eq trivial hname, required_eq trivial hkind,
      optional_eq (fun _ _ => trivial) hdetail, required_eq hrangeFits hrange,
      required_eq hselectionFits hselection]

end OutlineSymbol

instance : Formatted OutlineSymbol where
  form := OutlineSymbol.toForm
  Fits := OutlineSymbol.RangesFit
  spells_encode := OutlineSymbol.spells_toJson
  decode?_of_spells := OutlineSymbol.ofJson?_of_spells

/-! ### Edits -/

instance : Formatted TextEdit where
  form e := .record [("range", form e.range), ("new_text", form e.newText)]
  Fits e := Fits e.range
  spells_encode e := .ofRecord (by simp)
  decode?_of_spells {e j levels} hfits h hn := by
    obtain ⟨below, value, rfl, hrec, -, hparts⟩ := h.record? (by simp) hn
    simp only [List.forall_mem_cons, List.map_cons, List.map_nil] at hrec hparts
    obtain ⟨hrange, htext, -⟩ := hparts
    simp [decode?, hrec, required_eq hfits hrange, required_eq trivial htext]

/-- A URI that comes after all others is put at the end. -/
theorem UriMap.putIn_of_forall_lt {α : Type} {uri : Uri} {value : α} {entries : List (Uri × α)}
    (h : ∀ entry ∈ entries, entry.1.text < uri.text) :
    putIn uri value entries = entries ++ [(uri, value)] := by
  induction entries with
  | nil => rfl
  | cons entry rest ih =>
    simp only [List.mem_cons, forall_eq_or_imp] at h
    have hne : uri ≠ entry.1 := by
      rintro rfl
      exact String.lt_irrefl _ h.1
    rw [putIn, if_neg hne, if_neg (String.lt_asymm h.1), ih h.2, List.cons_append]

namespace EditBatch

/-- Steps that put the last entries of a batch, in the order of their URIs, complete the batch. -/
private theorem foldlM_put {β : Type} {step : EditBatch → β → Option EditBatch}
    {rest : List (Uri × List TextEdit)} {fields : List β}
    (h : List.Forall₂ (fun entry field => ∀ batch, step batch field =
      some (batch.put entry.1 entry.2)) rest fields) :
    ∀ {done batch : EditBatch}, batch.changes.entries = done.changes.entries ++ rest →
      fields.foldlM step done = some batch := by
  induction h with
  | nil =>
    intro done batch hentries
    rw [List.append_nil] at hentries
    have hsame : done = batch := congrArg EditBatch.mk (UriMap.ext hentries.symm)
    rw [hsame]
    rfl
  | @cons entry field rest fields hstep _ ih =>
    intro done batch hentries
    have hordered := batch.changes.ordered
    rw [hentries] at hordered
    have hlast : ∀ other ∈ done.changes.entries, other.1.text < entry.1.text := by
      intro other hother
      exact (List.pairwise_append.mp hordered).2.2 other hother entry List.mem_cons_self
    have hput : (done.put entry.1 entry.2).changes.entries = done.changes.entries ++ [entry] :=
      UriMap.putIn_of_forall_lt hlast
    rw [List.foldlM_cons, hstep]
    apply ih
    rw [hput, hentries, List.append_cons]

end EditBatch

instance : Formatted EditBatch where
  form batch := .record [
    ("changes", .dict (batch.changes.entries.map fun (uri, edits) => (uri.text, form edits)))]
  Fits batch := ∀ entry ∈ batch.changes.entries, Fits entry.1 ∧ Fits entry.2
  spells_encode batch := by
    have hchanges : (Form.dict (batch.changes.entries.map fun (uri, edits) =>
        (uri.text, form edits))).Spells (.ofFields (batch.changes.entries.map fun (uri, edits) =>
          (uri.text, encode edits))) :=
      .ofDict (by simp [List.forall₂_same])
    exact .ofRecord (by simp [hchanges])
  decode?_of_spells {batch j levels} hfits h hn := by
    obtain ⟨below, value, rfl, hrec, -, hparts⟩ := h.record? (by simp) hn
    simp only [List.forall_mem_cons, List.map_cons, List.map_nil] at hrec hparts
    obtain ⟨inner, fields, rfl, hobject, hfields⟩ := hparts.1.1.fields hparts.1.2
    rw [List.forall₂_map_left_iff] at hfields
    have hread : EditBatch.ofFields? inner fields = some batch := by
      refine EditBatch.foldlM_put ?_ rfl
      apply ((List.forall₂_and_left _ fields).mpr ⟨hfits, hfields⟩).imp
      rintro ⟨uri, edits⟩ ⟨name, v⟩ ⟨⟨huri, hedits⟩, rfl, hv, hnv⟩ batch
      have hnormal : Uri.ofText? uri.text = some uri := huri
      simp [hnormal, decode?_of_spells hedits hv hnv]
    simp [decode?, hrec, hobject, hread]

/-! ### Signatures -/

instance : Formatted ParameterInfo where
  form p := .record [
    ("name", form p.name), ("type_name", form p.typeName), ("has_default", form p.hasDefault)]
  Fits _ := True
  spells_encode p := .ofRecord (by simp)
  decode?_of_spells {p j levels} _ h hn := by
    obtain ⟨below, value, rfl, hrec, -, hparts⟩ := h.record? (by simp) hn
    simp only [List.forall_mem_cons, List.map_cons, List.map_nil] at hrec hparts
    obtain ⟨hname, htype, hdefault, -⟩ := hparts
    simp [decode?, hrec, required_eq trivial hname, optional_eq (fun _ _ => trivial) htype,
      required_eq trivial hdefault]

instance : Formatted SignatureInfo where
  form s := .record [
    ("name", form s.name), ("return_type", form s.returnType), ("parameters", form s.parameters)]
  Fits _ := True
  spells_encode s := .ofRecord (by simp)
  decode?_of_spells {s j levels} _ h hn := by
    obtain ⟨below, value, rfl, hrec, -, hparts⟩ := h.record? (by simp) hn
    simp only [List.forall_mem_cons, List.map_cons, List.map_nil] at hrec hparts
    obtain ⟨hname, hreturn, hparameters, -⟩ := hparts
    simp [decode?, hrec, required_eq trivial hname, optional_eq (fun _ _ => trivial) hreturn,
      required_eq (fun _ _ => trivial) hparameters]

instance : Formatted SignatureHelp where
  form help := .record [
    ("signatures", form help.signatures), ("active_signature", form help.activeSignature),
    ("active_parameter", form help.activeParameter)]
  Fits help := Fits help.activeSignature ∧ Fits help.activeParameter
  spells_encode help := .ofRecord (by simp)
  decode?_of_spells {help j levels} hfits h hn := by
    obtain ⟨below, value, rfl, hrec, -, hparts⟩ := h.record? (by simp) hn
    simp only [List.forall_mem_cons, List.map_cons, List.map_nil] at hrec hparts
    obtain ⟨hsignatures, hsignature, hparameter, -⟩ := hparts
    simp [decode?, hrec, required_eq (fun _ _ => trivial) hsignatures,
      required_eq hfits.1 hsignature, required_eq hfits.2 hparameter]

/-! ### Settings -/

instance : Formatted LoggingConfig where
  form c := .record [("filter", form c.filter), ("directory", form c.directory)]
  Fits _ := True
  spells_encode c := .ofRecord (by simp)
  decode?_of_spells {c j levels} _ h hn := by
    obtain ⟨below, value, rfl, -, hopen, hparts⟩ := h.record? (by simp) hn
    simp only [List.forall_mem_cons, List.map_cons, List.map_nil] at hopen hparts
    obtain ⟨hfilter, hdirectory, -⟩ := hparts
    simp [decode?, hopen, defaulting_eq _ trivial hfilter,
      defaulting_eq _ (fun _ _ => trivial) hdirectory]

instance : Formatted ServiceConfig where
  form c := .record [
    ("synthesize_accessors", form c.synthesizeAccessors),
    ("builtin_types", form c.builtinTypes), ("logging", form c.logging)]
  Fits _ := True
  spells_encode c := .ofRecord (by simp)
  decode?_of_spells {c j levels} _ h hn := by
    obtain ⟨below, value, rfl, -, hopen, hparts⟩ := h.record? (by simp) hn
    simp only [List.forall_mem_cons, List.map_cons, List.map_nil] at hopen hparts
    obtain ⟨haccessors, htypes, hlogging, -⟩ := hparts
    simp [decode?, hopen, defaulting_eq _ trivial haccessors,
      defaulting_eq _ (fun _ _ => trivial) htypes, defaulting_eq _ trivial hlogging]

end GroovyIndex
