import GroovyIndex.Encoding.Tree
import GroovyIndex.Proofs.AnswerForm

/-!
# Reading back what was written

Parsed documents keep to their forms, like the answers about them. So every value of the data model
is read back from its text, and from any text that writes some of its records as arrays.
-/

namespace GroovyIndex

/-! ### Kinds -/

instance : Formatted Literal :=
  .ofText Literal.text (fun _ => rfl) fun _ kind => by cases kind <;> rfl

namespace Kind

/-- A kind with parts: an object that names the kind and holds the record of the parts. -/
def taggedForm (tag : String) (parts : List (String × Form)) : Form :=
  .dict [(tag, .record parts)]

/-- The form of a kind. -/
def toForm : Kind → Form
  | moduleRoot => .text "Module"
  | classDecl name nameRange synthetic => taggedForm "ClassDecl" [
    ("name", form name), ("name_range", form nameRange), ("synthetic", form synthetic)]
  | methodDecl name nameRange returnType isConstructor => taggedForm "MethodDecl" [
    ("name", form name), ("name_range", form nameRange), ("return_type", form returnType),
    ("is_constructor", form isConstructor)]
  | fieldDecl name nameRange typeName => taggedForm "FieldDecl" [
    ("name", form name), ("name_range", form nameRange), ("type_name", form typeName)]
  | propertyDecl name nameRange typeName => taggedForm "PropertyDecl" [
    ("name", form name), ("name_range", form nameRange), ("type_name", form typeName)]
  | parameter name nameRange typeName hasDefault => taggedForm "Parameter" [
    ("name", form name), ("name_range", form nameRange), ("type_name", form typeName),
    ("has_default", form hasDefault)]
  | importDecl path asName isStatic isStar => taggedForm "Import" [
    ("path", form path), ("alias", form asName), ("is_static", form isStatic),
    ("is_star", form isStar)]
  | declaration typeName => taggedForm "Declaration" [("type_name", form typeName)]
  | block => .text "Block"
  | closure => .text "Closure"
  | variableRef name => taggedForm "VariableRef" [("name", form name)]
  | propertyRef name nameRange => taggedForm "PropertyRef" [
    ("name", form name), ("name_range", form nameRange)]
  | call name nameRange implicitThis => taggedForm "Call" [
    ("name", form name), ("name_range", form nameRange), ("implicit_this", form implicitThis)]
  | constructorCall typeName nameRange => taggedForm "ConstructorCall" [
    ("type_name", form typeName), ("name_range", form nameRange)]
  | argumentList => .text "ArgumentList"
  | classRef name => taggedForm "ClassRef" [("name", form name)]
  | literal kind => taggedForm "Literal" [("kind", form kind)]
  | binary op => taggedForm "Binary" [("op", form op)]
  | expressionStatement => .text "ExpressionStatement"
  | ifStatement => .text "If"
  | whileLoop => .text "While"
  | forLoop => .text "For"
  | returnStatement => .text "Return"
  | recovered => .text "Error"

theorem spells_tagged {tag : String} {parts : List (String × Form)}
    {fields : List (String × Json)}
    (h : List.Forall₂ (fun p field => p.1 = field.1 ∧ p.2.Spells field.2) parts fields) :
    (taggedForm tag parts).Spells (.ofFields [(tag, .ofFields fields)]) :=
  .ofDict (.cons ⟨rfl, .ofRecord h⟩ .nil)

theorem spells_toJson (kind : Kind) : kind.toForm.Spells kind.toJson := by
  cases kind with
  | moduleRoot | block | closure | argumentList | expressionStatement | ifStatement | whileLoop
  | forLoop | returnStatement | recovered => exact .text _
  | _ => exact spells_tagged (by simp)

/-- A kind with parts is opened by its name, and then its record is. -/
theorem ofJson?_tagged {tag : String} {parts : List (String × Form)} {j : Json} {levels : Nat}
    (h : (taggedForm tag parts).Spells j) (hnames : (parts.map Prod.fst).Nodup)
    (hn : j.nesting ≤ levels) :
    ∃ (below : Nat) (record : Json) (value : String → Json),
      ofJson? levels j = withParts? (below + 1) tag record ∧
      record.record? (parts.map Prod.fst) (below + 1) =
        some (below, (parts.map Prod.fst).map fun name => some (value name)) ∧
      ∀ p ∈ parts, p.2.Spells (value p.1) ∧ (value p.1).nesting ≤ below := by
  obtain ⟨outer, fields, rfl, rfl, hfields⟩ := h.fields hn
  cases hfields with
  | @cons _ field _ _ hfield hnil =>
    cases hnil
    obtain ⟨name, record⟩ := field
    obtain ⟨rfl, hrecord, hlevels⟩ := hfield
    obtain ⟨below, value, rfl, hrec, -, hparts⟩ := hrecord.record? hnames hlevels
    refine ⟨below, record, value, ?_, hrec, hparts⟩
    -- The record is not null, so it does not stand for a kind without parts.
    cases hrecord <;> rfl

theorem ofJson?_of_spells {kind : Kind} {j : Json} {levels : Nat} (hfits : Fits kind.nameRange?)
    (h : kind.toForm.Spells j) (hn : j.nesting ≤ levels) : ofJson? levels j = some kind := by
  cases kind with
  | moduleRoot | block | closure | argumentList | expressionStatement | ifStatement | whileLoop
  | forLoop | returnStatement | recovered =>
    cases h
    rfl
  | variableRef part | classRef part | literal part | binary part =>
    obtain ⟨below, record, value, hof, hrec, hparts⟩ := ofJson?_tagged h (by simp) hn
    simp only [List.forall_mem_cons, List.map_cons, List.map_nil] at hrec hparts
    simp [hof, withParts?, hrec, required_eq trivial hparts.1]
  | declaration typeName =>
    obtain ⟨below, record, value, hof, hrec, hparts⟩ := ofJson?_tagged h (by simp) hn
    simp only [List.forall_mem_cons, List.map_cons, List.map_nil] at hrec hparts
    simp [hof, withParts?, hrec, optional_eq (fun _ _ => trivial) hparts.1]
  | importDecl path asName isStatic isStar =>
    obtain ⟨below, record, value, hof, hrec, hparts⟩ := ofJson?_tagged h (by simp) hn
    simp only [List.forall_mem_cons, List.map_cons, List.map_nil] at hrec hparts
    obtain ⟨hpath, hname, hstatic, hstar, -⟩ := hparts
    simp [hof, withParts?, hrec, required_eq trivial hpath, optional_eq (fun _ _ => trivial) hname,
      required_eq trivial hstatic, required_eq trivial hstar]
  | propertyRef name nameRange | constructorCall name nameRange =>
    obtain ⟨below, record, value, hof, hrec, hparts⟩ := ofJson?_tagged h (by simp) hn
    simp only [List.forall_mem_cons, List.map_cons, List.map_nil] at hrec hparts
    obtain ⟨hname, hrange, -⟩ := hparts
    simp [hof, withParts?, hrec, required_eq trivial hname, optional_eq hfits hrange, nameRange?]
  | classDecl name nameRange flag | call name nameRange flag =>
    obtain ⟨below, record, value, hof, hrec, hparts⟩ := ofJson?_tagged h (by simp) hn
    simp only [List.forall_mem_cons, List.map_cons, List.map_nil] at hrec hparts
    obtain ⟨hname, hrange, hflag, -⟩ := hparts
    simp [hof, withParts?, hrec, required_eq trivial hname, optional_eq hfits hrange, nameRange?,
      required_eq trivial hflag]
  | fieldDecl name nameRange type | propertyDecl name nameRange type =>
    obtain ⟨below, record, value, hof, hrec, hparts⟩ := ofJson?_tagged h (by simp) hn
    simp only [List.forall_mem_cons, List.map_cons, List.map_nil] at hrec hparts
    obtain ⟨hname, hrange, htype, -⟩ := hparts
    simp [hof, withParts?, hrec, required_eq trivial hname, optional_eq hfits hrange, nameRange?,
      optional_eq (fun _ _ => trivial) htype]
  | methodDecl name nameRange type flag | parameter name nameRange type flag =>
    obtain ⟨below, record, value, hof, hrec, hparts⟩ := ofJson?_tagged h (by simp) hn
    simp only [List.forall_mem_cons, List.map_cons, List.map_nil] at hrec hparts
    obtain ⟨hname, hrange, htype, hflag, -⟩ := hparts
    simp [hof, withParts?, hrec, required_eq trivial hname, optional_eq hfits hrange, nameRange?,
      optional_eq (fun _ _ => trivial) htype, required_eq trivial hflag]

end Kind

instance : Formatted Kind where
  form := Kind.toForm
  Fits kind := Fits kind.nameRange?
  spells_encode := Kind.spells_toJson
  decode?_of_spells := Kind.ofJson?_of_spells

/-! ### Trees -/

namespace Node

mutual
/-- The form of a tree. -/
def toForm : Node → Form
  | ⟨id, kind, range, children⟩ => .record [
    ("id", form id), ("kind", form kind), ("range", form range),
    ("children", .list (forestToForms children))]
/-- The forms of trees side by side. -/
def forestToForms : Forest → List Form
  | [] => []
  | n :: rest => n.toForm :: forestToForms rest
end

theorem forestToForms_eq_map (forest : Forest) : forestToForms forest = forest.map toForm := by
  induction forest with
  | nil => rfl
  | cons n rest ih => rw [forestToForms, ih, List.map_cons]

mutual
theorem spells_toJson : ∀ n : Node, n.toForm.Spells n.toJson
  | ⟨id, kind, range, children⟩ => by
    have hchildren := spells_forestToJson children
    exact .ofRecord (by simp [Form.Spells.list hchildren])
theorem spells_forestToJson : ∀ forest : Forest,
    List.Forall₂ Form.Spells (forestToForms forest) (forestToJson forest)
  | [] => .nil
  | n :: rest => .cons (spells_toJson n) (spells_forestToJson rest)
end

/-- The identities and ranges of the nodes of a tree fit. -/
inductive NumbersFit : Node → Prop where
  | intro {n : Node} (id : Fits n.id) (kind : Fits n.kind) (range : Fits n.range)
      (children : ∀ child ∈ n.children, NumbersFit child) : NumbersFit n

theorem ofJson?_of_spells {n : Node} {j : Json} {levels : Nat} (hfits : n.NumbersFit)
    (h : n.toForm.Spells j) (hn : j.nesting ≤ levels) : ofJson? levels j = some n := by
  induction hfits generalizing j levels with
  | @intro n hidFits hkindFits hrangeFits _ ih =>
    obtain ⟨id, kind, range, children⟩ := n
    obtain ⟨below, value, rfl, hrec, -, hparts⟩ := h.record? (by simp) hn
    simp only [List.forall_mem_cons, List.map_cons, List.map_nil] at hrec hparts
    obtain ⟨hid, hkind, hrange, hchildren, -⟩ := hparts
    rw [forestToForms_eq_map] at hchildren
    obtain ⟨inner, js, rfl, hitems, hread⟩ := hchildren.1.mapM_items hchildren.2 ih
    simp [ofJson?, hrec, hitems, hread, required_eq hidFits hid, required_eq hkindFits hkind,
      optional_eq hrangeFits hrange]

end Node

instance : Formatted Node where
  form := Node.toForm
  Fits := Node.NumbersFit
  spells_encode := Node.spells_toJson
  decode?_of_spells := Node.ofJson?_of_spells

/-! ### Parsed documents -/

instance : Formatted Severity :=
  .ofText Severity.text (fun _ => rfl) fun _ severity => by cases severity <;> rfl

instance : Formatted Diagnostic where
  form d := .record [
    ("range", form d.range), ("severity", form d.severity), ("message", form d.message)]
  Fits d := Fits d.range
  spells_encode d := .ofRecord (by simp)
  decode?_of_spells {d j levels} hfits h hn := by
    obtain ⟨below, value, rfl, hrec, -, hparts⟩ := h.record? (by simp) hn
    simp only [List.forall_mem_cons, List.map_cons, List.map_nil] at hrec hparts
    obtain ⟨hrange, hseverity, hmessage, -⟩ := hparts
    simp [decode?, hrec, optional_eq hfits hrange, required_eq trivial hseverity,
      required_eq trivial hmessage]

instance : Formatted CompilePhase :=
  .ofText CompilePhase.text (fun _ => rfl) fun _ phase => by cases phase <;> rfl

instance : Formatted Document where
  form d := .record [("uri", form d.uri), ("version", .integer d.version)]
  Fits d := Fits d.uri ∧ -0x80000000 ≤ d.version ∧ d.version < 0x80000000
  spells_encode d := .ofRecord (by simp [Form.Spells.integer])
  decode?_of_spells {d j levels} hfits h hn := by
    obtain ⟨below, value, rfl, hrec, -, hparts⟩ := h.record? (by simp) hn
    simp only [List.forall_mem_cons, List.map_cons, List.map_nil] at hrec hparts
    obtain ⟨huri, hversion, -⟩ := hparts
    have hread : (value "version").version? = some d.version := by
      generalize value "version" = v at hversion
      cases hversion.1
      exact if_pos hfits.2
    simp [decode?, hrec, required_eq hfits.1 huri, hread]

instance : Formatted ParsedModule where
  form m := .record [
    ("document", form m.document), ("root", form m.root), ("diagnostics", form m.diagnostics),
    ("phase", form m.phase)]
  Fits m := Fits m.document ∧ Fits m.root ∧ Fits m.diagnostics
  spells_encode m := .ofRecord (by simp)
  decode?_of_spells {m j levels} hfits h hn := by
    obtain ⟨below, value, rfl, hrec, -, hparts⟩ := h.record? (by simp) hn
    simp only [List.forall_mem_cons, List.map_cons, List.map_nil] at hrec hparts
    obtain ⟨hdocument, hroot, hdiagnostics, hphase, -⟩ := hparts
    simp [decode?, hrec, required_eq hfits.1 hdocument, required_eq hfits.2.1 hroot,
      required_eq hfits.2.2 hdiagnostics, required_eq trivial hphase]

/-! ### The data model -/

/-- A value that fits and keeps the limit of nesting is read back from its text, whichever of its
records are written as objects or arrays. -/
def RoundTrips (α : Type) [Codec α] [Formatted α] : Prop :=
  ∀ a : α, Fits a → (encode a).nesting ≤ nestingLimit →
    Json.decodeText? (encode a).render = some a ∧
      ∀ j, (form a).Spells j → Json.decodeText? j.render = some a

theorem Formatted.roundTrips (α : Type) [Codec α] [Formatted α] : RoundTrips α := by
  intro a hfits hn
  exact ⟨decodeText?_render hfits hn (spells_encode a), fun j => decodeText?_render hfits hn⟩

/-- The types of the data model are read back as they were written, whichever of their records are
written as arrays. -/
theorem dataModel_roundTrips :
    RoundTrips ParsedModule ∧ RoundTrips EditBatch ∧ RoundTrips Definition ∧
      RoundTrips OutlineSymbol ∧ RoundTrips SignatureHelp ∧ RoundTrips ServiceConfig :=
  ⟨Formatted.roundTrips _, Formatted.roundTrips _, Formatted.roundTrips _,
    Formatted.roundTrips _, Formatted.roundTrips _, Formatted.roundTrips _⟩

/-- The class of a document that did not compile. -/
private def shopClass : Node where
  id := ⟨1⟩
  kind := .classDecl "Shop" (some (.ofCorners 1 7 1 11)) false
  range := some (.ofCorners 1 1 3 2)
  children := []

/-- A document that did not compile. -/
private def shop : ParsedModule where
  document := ⟨⟨"memory:/shop"⟩, -3⟩
  root := ⟨⟨0⟩, .moduleRoot, none, [shopClass]⟩
  diagnostics := [⟨none, .warning, "unused"⟩]
  phase := .parsing

/-- The document with its nodes, the parts of the class and the range of its name in arrays. -/
private def shopInArrays : Json := .array [
  encode shop.document,
  .array [.integer 0, .ofString "Module", .null, .array [
    .array [.integer 1,
      .ofFields [("ClassDecl", .array [.ofString "Shop",
        .array [.integer 1, .integer 7, .integer 1, .integer 11], .bool false])],
      encode shopClass.range, .array []]]],
  encode shop.diagnostics,
  encode shop.phase]

private theorem fits_shop : Fits shop := by
  have huri : (Uri.mk "memory:/shop").IsNormal := by decide
  have hrange : Fits (Range.ofCorners 1 1 3 2) := by
    simp [Fits, Range.ofCorners, UInt64.size]
  have hname : Fits (Range.ofCorners 1 7 1 11) := by
    simp [Fits, Range.ofCorners, UInt64.size]
  have hclass : shopClass.NumbersFit := by
    refine .intro (by simp [shopClass, Fits, UInt32.size]) ?_ ?_ (by simp [shopClass])
    · rintro _ ⟨⟩
      exact hname
    · rintro _ ⟨⟩
      exact hrange
  have hroot : shop.root.NumbersFit := by
    refine .intro (by simp [shop, Fits, UInt32.size]) ?_ ?_ (by simpa [shop] using hclass)
    · simp [shop, Fits, Kind.nameRange?]
    · simp [shop, Fits]
  exact ⟨⟨huri, by decide⟩, hroot, by simp [shop, Fits]⟩

private theorem spells_shopInArrays : (form shop).Spells shopInArrays := by
  have hname : (form (Range.ofCorners 1 7 1 11)).Spells
      (.array [.integer 1, .integer 7, .integer 1, .integer 11]) :=
    .positional (.cons (.integer 1) (.cons (.integer 7) (.cons (.integer 1)
      (.cons (.integer 11) .nil))))
  have hkind : (form shopClass.kind).Spells (.ofFields [("ClassDecl", .array [.ofString "Shop",
      .array [.integer 1, .integer 7, .integer 1, .integer 11], .bool false])]) :=
    .ofDict (.cons ⟨rfl, .positional (.cons (.text "Shop") (.cons hname
      (.cons (.bool false) .nil)))⟩ .nil)
  have hclass : shopClass.toForm.Spells _ :=
    .positional (.cons (.integer 1) (.cons hkind (.cons (spells_encode shopClass.range)
      (.cons (.list .nil) .nil))))
  have hroot : shop.root.toForm.Spells _ :=
    .positional (.cons (.integer 0) (.cons (.text "Module") (.cons .null
      (.cons (.list (.cons hclass .nil)) .nil))))
  exact .positional (.cons (spells_encode _) (.cons hroot (.cons (spells_encode _)
    (.cons (spells_encode _) .nil))))

theorem dataModel_roundTrips_shop :
    Fits shop ∧ (encode shop).nesting ≤ nestingLimit ∧ (form shop).Spells shopInArrays ∧
      Json.decodeText? shopInArrays.render = some shop := by
  have hlimit : (encode shop).nesting ≤ nestingLimit := by decide
  exact ⟨fits_shop, hlimit, spells_shopInArrays,
    (dataModel_roundTrips.1 shop fits_shop hlimit).2 _ spells_shopInArrays⟩

end GroovyIndex
