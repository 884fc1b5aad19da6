import GroovyIndex.Edit
import GroovyIndex.Encoding.Source
import GroovyIndex.Signature

/-!
# JSON form of edits and signatures
-/

namespace GroovyIndex

instance : Codec TextEdit where
  encode e := .ofFields [("range", encode e.range), ("new_text", encode e.newText)]
  decode? levels j := do
    let (levels, [range, newText]) ← j.record? ["range", "new_text"] levels | none
    return ⟨← Json.required levels range, ← Json.required levels newText⟩

namespace EditBatch

/-- Reads the edits of each document; of a document that is named twice the later edits stay. -/
def ofFields? (levels : Nat) (fields : List (Option String × Json)) : Option EditBatch :=
  fields.foldlM (fun batch (name, value) => do
    let uri ← name.bind Uri.ofText?
    let edits : List TextEdit ← decode? levels value
    return batch.put uri edits) empty

end EditBatch

/-- The changes are an object with a field for each document. -/
instance : Codec EditBatch where
  encode batch := .ofFields [
    ("changes", .ofFields (batch.changes.entries.map fun (uri, edits) =>
      (uri.text, encode edits)))]
  decode? levels j := do
    let (levels, [some (.object fields)]) ← j.record? ["changes"] levels | none
    match levels with
    | below + 1 => EditBatch.ofFields? below fields
    | 0 => none

instance : Codec ParameterInfo where
  encode p := .ofFields [
    ("name", encode p.name), ("type_name", encode p.typeName),
    ("has_default", encode p.hasDefault)]
  decode? levels j := do
    let (levels, [name, typeName, hasDefault]) ←
      j.record? ["name", "type_name", "has_default"] levels | none
    return ⟨← Json.required levels name, ← Json.optional levels typeName,
      ← Json.required levels hasDefault⟩

instance : Codec SignatureInfo where
  encode s := .ofFields [
    ("name", encode s.name), ("return_type", encode s.returnType),
    ("parameters", encode s.parameters)]
  decode? levels j := do
    let (levels, [name, returnType, parameters]) ←
      j.record? ["name", "return_type", "parameters"] levels | none
    return ⟨← Json.required levels name, ← Json.optional levels returnType,
      ← Json.required levels parameters⟩

instance : Codec SignatureHelp where
  encode h := .ofFields [
    ("signatures", encode h.signatures), ("active_signature", encode h.activeSignature),
    ("active_parameter", encode h.activeParameter)]
  decode? levels j := do
    let (levels, [signatures, activeSignature, activeParameter]) ←
      j.record? ["signatures", "active_signature", "active_parameter"] levels | none
    return ⟨← Json.required levels signatures, ← Json.required levels activeSignature,
      ← Json.required levels activeParameter⟩

end GroovyIndex
