import GroovyIndex.Json.Codec
import GroovyIndex.Proofs.JsonText
import Mathlib.Data.List.Forall2
import Mathlib.Data.List.Nodup

/-!
# Forms of JSON

A record can be written as an object or as an array, and so can each record inside it. A form
leaves these choices open, and a value `Spells` it if it takes one for each record. A `Formatted`
type has a codec that writes one value of the form and reads all of them.
-/

namespace GroovyIndex

/-- What is written as JSON, up to the choice between an object and an array for each record. -/
inductive Form where
  | null
  | bool (value : Bool)
  | integer (value : Int)
  | text (value : String)
  | list (items : List Form)
  /-- An object that stays one: a map, or the name of a choice with what it holds. -/
  | dict (fields : List (String × Form))
  | record (parts : List (String × Form))

namespace Form

/-- The value is one way to write the form. -/
inductive Spells : Form → Json → Prop where
  | null : Spells .null .null
  | bool (value : Bool) : Spells (.bool value) (.bool value)
  | integer (value : Int) : Spells (.integer value) (.integer value)
  | text (value : String) : Spells (.text value) (.ofString value)
  | list {items : List Form} {js : List Json} (h : List.Forall₂ Spells items js) :
      Spells (.list items) (.array js)
  | dict {fields : List (String × Form)} {js : List Json}
      (h : List.Forall₂ Spells (fields.map Prod.snd) js) :
      Spells (.dict fields) (.ofFields ((fields.map Prod.fst).zip js))
  | named {parts : List (String × Form)} {js : List Json}
      (h : List.Forall₂ Spells (parts.map Prod.snd) js) :
      Spells (.record parts) (.ofFields ((parts.map Prod.fst).zip js))
  | positional {parts : List (String × Form)} {js : List Json}
      (h : List.Forall₂ Spells (parts.map Prod.snd) js) :
      Spells (.record parts) (.array js)

/-- Induction over forms: a property of the parts of a form passes to the form. -/
@[elab_as_elim]
theorem induction {motive : Form → Prop} (null : motive .null)
    (bool : ∀ value, motive (.bool value)) (integer : ∀ value, motive (.integer value))
    (text : ∀ value, motive (.text value))
    (list : ∀ items, (∀ f ∈ items, motive f) → motive (.list items))
    (dict : ∀ fields, (∀ f ∈ fields.map Prod.snd, motive f) → motive (.dict fields))
    (record : ∀ parts, (∀ f ∈ parts.map Prod.snd, motive f) → motive (.record parts)) :
    ∀ f, motive f
  | .null => null
  | .bool value => bool value
  | .integer value => integer value
  | .text value => text value
  | .list items => list items fun f _ => induction null bool integer text list dict record f
  | .dict fields => dict fields <| List.forall_mem_map.mpr fun p _ =>
    induction null bool integer text list dict record p.2
  | .record parts => record parts <| List.forall_mem_map.mpr fun p _ =>
    induction null bool integer text list dict record p.2
decreasing_by
  · decreasing_tactic
  all_goals
    have hp := List.sizeOf_lt_of_mem ‹p ∈ _›
    cases p
    simp only [Prod.mk.sizeOf_spec, Form.dict.sizeOf_spec, Form.record.sizeOf_spec] at hp ⊢
    omega

/-- What holds of the values of some forms, one by one, holds of all of them. -/
private theorem forall_of_forall₂ {motive : Json → Prop} {items : List Form} {js : List Json}
    (h : List.Forall₂ Spells items js) (ih : ∀ f ∈ items, ∀ {j}, f.Spells j → motive j) :
    ∀ j ∈ js, motive j := by
  induction h with
  | nil => simp
  | cons hj _ ihRest =>
    simp only [List.mem_cons, forall_eq_or_imp] at ih ⊢
    exact ⟨ih.1 hj, ihRest ih.2⟩

end Form

namespace Json

theorem areExact_iff {items : List Json} :
    areExact items = true ↔ ∀ j ∈ items, j.isExact = true := by
  induction items with
  | nil => simp [areExact]
  | cons item rest ih => simp [areExact, ih]

theorem isExact_ofFields_zip {names : List String} {js : List Json}
    (h : ∀ j ∈ js, j.isExact = true) : (ofFields (names.zip js)).isExact = true := by
  rw [ofFields, isExact]
  induction names generalizing js with
  | nil => rfl
  | cons name names ih =>
    cases js with
    | nil => rfl
    | cons j js =>
      simp only [List.mem_cons, forall_eq_or_imp] at h
      simp [fieldsAreExact, h.1, ih h.2]

end Json

namespace Form

/-- The numbers of a form are integers, so what spells it is read back from its text. -/
theorem Spells.isExact {f : Form} {j : Json} (h : f.Spells j) : j.isExact = true := by
  induction f using Form.induction generalizing j with
  | null | bool | integer | text =>
    cases h
    rfl
  | list items ih =>
    cases h with
    | list h => exact Json.areExact_iff.mpr (forall_of_forall₂ h ih)
  | dict fields ih =>
    cases h with
    | dict h => exact Json.isExact_ofFields_zip (forall_of_forall₂ h ih)
  | record parts ih =>
    cases h with
    | named h => exact Json.isExact_ofFields_zip (forall_of_forall₂ h ih)
    | positional h => exact Json.areExact_iff.mpr (forall_of_forall₂ h ih)

end Form

namespace Json

theorem nesting_le_of_mem {j : Json} {items : List Json} (h : j ∈ items) :
    j.nesting ≤ nestingItems items := by
  induction items with
  | nil => cases h
  | cons item rest ih =>
    rw [nestingItems]
    rcases List.mem_cons.mp h with rfl | h
    · exact Nat.le_max_left _ _
    · exact Nat.le_trans (ih h) (Nat.le_max_right _ _)

/-- What stands in an opened array or object fits the levels below it. -/
theorem nesting_le_below {items : List Json} {levels : Nat}
    (h : nestingItems items + 1 ≤ levels) : ∀ j ∈ items, j.nesting ≤ levels - 1 := by
  intro j hj
  have hle := nesting_le_of_mem hj
  omega

theorem nesting_ofFields_zip {names : List String} {js : List Json}
    (h : names.length = js.length) : (ofFields (names.zip js)).nesting = nestingItems js + 1 := by
  rw [ofFields, nesting, Nat.add_right_cancel_iff]
  induction names generalizing js with
  | nil =>
    cases js with
    | nil => rfl
    | cons j js => cases h
  | cons name names ih =>
    cases js with
    | nil => cases h
    | cons j js => simp [nestingFields, nestingItems, ih (Nat.succ.inj h)]

/-- Values listed by names that differ are the values of the names. -/
theorem exists_map_eq {names : List String} {js : List Json} (hnodup : names.Nodup)
    (h : names.length = js.length) : ∃ value : String → Json, names.map value = js := by
  induction names generalizing js with
  | nil =>
    cases js with
    | nil => exact ⟨fun _ => .null, rfl⟩
    | cons j js => cases h
  | cons name names ih =>
    cases js with
    | nil => cases h
    | cons j js =>
      obtain ⟨hname, hnodup⟩ := List.nodup_cons.mp hnodup
      obtain ⟨value, rfl⟩ := ih hnodup (Nat.succ.inj h)
      refine ⟨fun other => if other = name then j else value other, ?_⟩
      rw [List.map_cons, if_pos rfl]
      congr 1
      apply List.map_congr_left
      intro other hother
      rw [if_neg]
      exact fun heq => hname (heq ▸ hother)

theorem lookup_map {names : List String} (value : String → Json) {name : String}
    (h : name ∈ names) :
    (names.map fun name => (some name, value name)).lookup (some name) = some (value name) := by
  induction names with
  | nil => cases h
  | cons first names ih =>
    by_cases heq : name = first
    · simp [heq]
    · have hmem : name ∈ names := List.mem_of_ne_of_mem heq h
      simp [List.lookup_cons, beq_eq_false_iff_ne.mpr heq, ih hmem]

/-- The fields of an object are found under their names. -/
theorem select?_map {names : List String} (hnodup : names.Nodup) (value : String → Json) :
    select? names (names.map fun name => (some name, value name)) =
      some (names.map fun name => some (value name)) := by
  rw [select?, if_pos]
  · exact congrArg some (List.map_congr_left fun name hname => lookup_map value hname)
  · simp only [Bool.and_eq_true, List.all_eq_true, decide_eq_true_eq, List.countP_map]
    exact ⟨by simp, fun name _ => List.nodup_iff_count_le_one.mp hnodup name⟩

theorem ofFields_zip_map (names : List String) (value : String → Json) :
    ofFields (names.zip (names.map value)) =
      .object (names.map fun name => (some name, value name)) := by
  rw [ofFields, Json.object.injEq]
  induction names with
  | nil => rfl
  | cons name names ih => simpa using ih

end Json

namespace Form

private theorem nestingItems_eq {items : List Form} {js js' : List Json}
    (ih : ∀ f ∈ items, ∀ {j j'}, f.Spells j → f.Spells j' → j.nesting = j'.nesting)
    (h : List.Forall₂ Spells items js) (h' : List.Forall₂ Spells items js') :
    Json.nestingItems js = Json.nestingItems js' := by
  induction h generalizing js' with
  | nil =>
    cases h'
    rfl
  | cons hj _ ihRest =>
    cases h' with
    | cons hj' hrest' =>
      simp only [List.mem_cons, forall_eq_or_imp] at ih
      rw [Json.nestingItems, Json.nestingItems, ih.1 hj hj', ihRest ih.2 hrest']

/-- What spells a record is an object or an array of what spells its parts. -/
theorem Spells.exists_parts {parts : List (String × Form)} {j : Json}
    (h : (record parts).Spells j) :
    ∃ js, List.Forall₂ Spells (parts.map Prod.snd) js ∧
      (j = .ofFields ((parts.map Prod.fst).zip js) ∨ j = .array js) ∧
      j.nesting = Json.nestingItems js + 1 := by
  cases h with
  | named h => exact ⟨_, h, Or.inl rfl, Json.nesting_ofFields_zip (by simpa using h.length_eq)⟩
  | positional h => exact ⟨_, h, Or.inr rfl, rfl⟩

/-- The values that spell a form are nested alike. -/
theorem Spells.nesting_eq {f : Form} {j j' : Json} (h : f.Spells j) (h' : f.Spells j') :
    j.nesting = j'.nesting := by
  induction f using Form.induction generalizing j j' with
  | null | bool | integer | text =>
    cases h
    cases h'
    rfl
  | list items ih =>
    cases h with
    | list h =>
      cases h' with
      | list h' => rw [Json.nesting, Json.nesting, nestingItems_eq ih h h']
  | dict fields ih =>
    cases h with
    | dict h =>
      cases h' with
      | dict h' =>
        rw [Json.nesting_ofFields_zip (by simpa using h.length_eq),
          Json.nesting_ofFields_zip (by simpa using h'.length_eq), nestingItems_eq ih h h']
  | record parts ih =>
    obtain ⟨js, hjs, -, hn⟩ := h.exists_parts
    obtain ⟨js', hjs', -, hn'⟩ := h'.exists_parts
    rw [hn, hn', nestingItems_eq ih hjs hjs']

private theorem forall₂_and {motive : Json → Prop} {items : List Form} {js : List Json}
    (h : List.Forall₂ Spells items js) (hjs : ∀ j ∈ js, motive j) :
    List.Forall₂ (fun f j => f.Spells j ∧ motive j) items js := by
  induction h with
  | nil => exact .nil
  | cons hj _ ih =>
    simp only [List.mem_cons, forall_eq_or_imp] at hjs
    exact .cons ⟨hj, hjs.1⟩ (ih hjs.2)

/-- Fields that agree with some parts in their names and spell them, as names and values apart. -/
private theorem exists_zip {parts : List (String × Form)} {fields : List (String × Json)}
    (h : List.Forall₂ (fun p field => p.1 = field.1 ∧ p.2.Spells field.2) parts fields) :
    List.Forall₂ Spells (parts.map Prod.snd) (fields.map Prod.snd) ∧
      (parts.map Prod.fst).zip (fields.map Prod.snd) = fields := by
  induction h with
  | nil => exact ⟨.nil, rfl⟩
  | cons hfirst _ ih =>
    refine ⟨.cons hfirst.2 ih.1, ?_⟩
    simp [hfirst.1, ih.2]

theorem Spells.ofRecord {parts : List (String × Form)} {fields : List (String × Json)}
    (h : List.Forall₂ (fun p field => p.1 = field.1 ∧ p.2.Spells field.2) parts fields) :
    (record parts).Spells (.ofFields fields) := by
  obtain ⟨hspells, hzip⟩ := exists_zip h
  exact hzip ▸ .named hspells

theorem Spells.ofDict {parts : List (String × Form)} {fields : List (String × Json)}
    (h : List.Forall₂ (fun p field => p.1 = field.1 ∧ p.2.Spells field.2) parts fields) :
    (Form.dict parts).Spells (.ofFields fields) := by
  obtain ⟨hspells, hzip⟩ := exists_zip h
  exact hzip ▸ .dict hspells

/-- An object that stays one is opened and gives what spells its fields. -/
theorem Spells.fields {parts : List (String × Form)} {j : Json} {levels : Nat}
    (h : (Form.dict parts).Spells j) (hn : j.nesting ≤ levels) :
    ∃ below fields, levels = below + 1 ∧ j = .object fields ∧
      List.Forall₂ (fun p field => field.1 = some p.1 ∧ p.2.Spells field.2 ∧
        field.2.nesting ≤ below) parts fields := by
  cases h with
  | @dict _ js h =>
    rw [Json.nesting_ofFields_zip (by simpa using h.length_eq)] at hn
    refine ⟨levels - 1, _, by omega, rfl, ?_⟩
    have hle := Json.nesting_le_below hn
    clear hn
    generalize hforms : parts.map Prod.snd = forms at h
    induction h generalizing parts with
    | nil =>
      cases parts
      · exact .nil
      · cases hforms
    | cons hfirst _ ih =>
      cases parts with
      | nil => cases hforms
      | cons p parts =>
        cases hforms
        simp only [List.mem_cons, forall_eq_or_imp] at hle
        exact .cons ⟨rfl, hfirst, hle.1⟩ (ih hle.2 rfl)

/-- A list is opened and gives what spells its items. -/
theorem Spells.items? {items : List Form} {j : Json} {levels : Nat}
    (h : (Form.list items).Spells j) (hn : j.nesting ≤ levels) :
    ∃ below js, levels = below + 1 ∧ j = .array js ∧
      List.Forall₂ (fun f v => f.Spells v ∧ v.nesting ≤ below) items js := by
  cases h with
  | @list _ js h =>
    rw [Json.nesting] at hn
    exact ⟨levels - 1, js, by omega, rfl, forall₂_and h (Json.nesting_le_below hn)⟩

/-- A record is opened in either form, and gives what spells its parts under their names. -/
theorem Spells.record? {parts : List (String × Form)} {j : Json} {levels : Nat}
    (h : (record parts).Spells j) (hnames : (parts.map Prod.fst).Nodup)
    (hn : j.nesting ≤ levels) :
    ∃ (below : Nat) (value : String → Json), levels = below + 1 ∧
      j.record? (parts.map Prod.fst) levels =
        some (below, (parts.map Prod.fst).map fun name => some (value name)) ∧
      j.openRecord? (parts.map Prod.fst) levels =
        some (below, (parts.map Prod.fst).map fun name => some (value name)) ∧
      ∀ p ∈ parts, p.2.Spells (value p.1) ∧ (value p.1).nesting ≤ below := by
  obtain ⟨js, hjs, hj, hnest⟩ := h.exists_parts
  have hlen : (parts.map Prod.fst).length = js.length := by simpa using hjs.length_eq
  obtain ⟨value, rfl⟩ := Json.exists_map_eq hnames hlen
  have hselect := Json.select?_map hnames value
  cases levels with
  | zero => omega
  | succ below =>
    refine ⟨below, value, rfl, ?_, ?_, ?_⟩
    · rcases hj with rfl | rfl
      · rw [Json.ofFields_zip_map, Json.record?, hselect]
        rfl
      · simp [Json.record?]
    · rcases hj with rfl | rfl
      · rw [Json.ofFields_zip_map, Json.openRecord?, hselect]
        rfl
      · simp [Json.openRecord?]
    · simp only [List.map_map, List.forall₂_map_left_iff, List.forall₂_map_right_iff,
        List.forall₂_same] at hjs
      intro p hp
      have hmem : value p.1 ∈ (parts.map Prod.fst).map value :=
        List.mem_map_of_mem (List.mem_map_of_mem hp)
      exact ⟨hjs p hp, Json.nesting_le_below (hnest ▸ hn) _ hmem⟩

end Form

/-! ### Codecs that keep to forms -/

/-- The codec of the type writes each value in its form, and reads the value back from everything
that spells the form. -/
class Formatted (α : Type) [Codec α] where
  form : α → Form
  /-- The numbers of the value fit their widths, and its URIs are in normal form. -/
  Fits : α → Prop
  spells_encode (a : α) : (form a).Spells (encode a)
  decode?_of_spells {a : α} {j : Json} {levels : Nat} (hfits : Fits a) (h : (form a).Spells j)
    (hn : j.nesting ≤ levels) : decode? levels j = some a

export Formatted (form Fits spells_encode decode?_of_spells)

attribute [simp] spells_encode

/-- No value of the type is written as null. -/
class RefusesNull (α : Type) [Codec α] : Prop where
  decode?_null (levels : Nat) : decode? levels .null = (none : Option α)

/-- A list is opened, and its items are read, if a reader gives each item back at any level. -/
theorem Form.Spells.mapM_items {α : Type} {toForm : α → Form} {read : Nat → Json → Option α}
    {xs : List α} {j : Json} {levels : Nat} (h : (Form.list (xs.map toForm)).Spells j)
    (hn : j.nesting ≤ levels) (hread : ∀ x ∈ xs, ∀ {v below}, (toForm x).Spells v →
      v.nesting ≤ below → read below v = some x) :
    ∃ below js, levels = below + 1 ∧ j = .array js ∧ js.mapM (read below) = some xs := by
  obtain ⟨below, js, rfl, rfl, hjs⟩ := h.items? hn
  refine ⟨below, js, rfl, rfl, ?_⟩
  rw [List.forall₂_map_left_iff] at hjs
  clear h hn
  induction hjs with
  | nil => rfl
  | cons hv _ ih =>
    simp only [List.mem_cons, forall_eq_or_imp] at hread
    simp [hread.1 hv.1 hv.2, ih hread.2]

/-- A type whose values are written as texts of their own. -/
@[reducible]
def Formatted.ofText {α : Type} [Codec α] (text : α → String)
    (hencode : ∀ a, encode a = Json.ofString (text a))
    (hdecode : ∀ levels a, decode? levels (Json.ofString (text a)) = some a) : Formatted α where
  form a := .text (text a)
  Fits _ := True
  spells_encode a := hencode a ▸ .text (text a)
  decode?_of_spells _ h _ := by
    cases h
    exact hdecode _ _

instance : Formatted Bool where
  form b := .bool b
  Fits _ := True
  spells_encode := .bool
  decode?_of_spells _ h _ := by
    cases h
    rfl

instance : Formatted String := .ofText id (fun _ => rfl) (fun _ _ => rfl)

instance : RefusesNull String := ⟨fun _ => rfl⟩

instance : Formatted Nat where
  form n := .integer n
  Fits n := n < UInt64.size
  spells_encode n := .integer n
  decode?_of_spells hfits h _ := by
    cases h
    exact if_pos hfits

section

variable {α : Type} [Codec α] [Formatted α]

instance [RefusesNull α] : Formatted (Option α) where
  form
    | some a => form a
    | none => .null
  Fits a? := ∀ a ∈ a?, Fits a
  spells_encode
    | some a => spells_encode a
    | none => .null
  decode?_of_spells {a? j levels} hfits h hn := by
    cases a? with
    | none =>
      cases h
      rfl
    | some a =>
      have hread := decode?_of_spells (hfits a rfl) h hn
      have hnull : j ≠ .null := by
        rintro rfl
        rw [RefusesNull.decode?_null] at hread
        cases hread
      cases j <;> simp_all [decode?, Json.optional]

instance : Formatted (List α) where
  form xs := .list (xs.map form)
  Fits xs := ∀ x ∈ xs, Fits x
  spells_encode xs := by
    apply Form.Spells.list
    induction xs with
    | nil => exact .nil
    | cons x xs ih => exact .cons (spells_encode x) ih
  decode?_of_spells {xs j levels} hfits h hn := by
    obtain ⟨below, js, rfl, rfl, hread⟩ := h.mapM_items hn fun x hx =>
      decode?_of_spells (hfits x hx)
    exact hread

/-! ### Parts of a record -/

theorem required_eq {a : α} {j : Json} {levels : Nat} (hfits : Fits a)
    (h : (form a).Spells j ∧ j.nesting ≤ levels) : Json.required levels (some j) = some a :=
  decode?_of_spells hfits h.1 h.2

theorem optional_eq [RefusesNull α] {a : Option α} {j : Json} {levels : Nat} (hfits : Fits a)
    (h : (form a).Spells j ∧ j.nesting ≤ levels) : Json.optional levels (some j) = some a :=
  decode?_of_spells hfits h.1 h.2

theorem defaulting_eq {a : α} {j : Json} {levels : Nat} (default : α) (hfits : Fits a)
    (h : (form a).Spells j ∧ j.nesting ≤ levels) :
    Json.defaulting default levels (some j) = some a :=
  decode?_of_spells hfits h.1 h.2

/-- A value is read back from the text of everything that spells its form, if it keeps the
limit of nesting. -/
theorem decodeText?_render {a : α} {j : Json} (hfits : Fits a)
    (hn : (encode a).nesting ≤ nestingLimit) (h : (form a).Spells j) :
    Json.decodeText? j.render = some a := by
  have hparse : Json.parse? j.render = some j := Json.parse?_render h.isExact
  have hlevels : j.nesting ≤ nestingLimit := by rwa [h.nesting_eq (spells_encode a)]
  simp only [Json.decodeText?, hparse, Option.bind_eq_bind, Option.bind_some]
  exact decode?_of_spells hfits h hlevels

end

end GroovyIndex
