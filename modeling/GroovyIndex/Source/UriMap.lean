import GroovyIndex.Source.Document

/-!
# Values by document

A finite map from URIs to values, kept as a list in the order of the URIs. `get?` is the view of a
map: each operation is described by what it does to it.
-/

namespace GroovyIndex

/-- Values for documents, in the order of the URIs, none of them twice. -/
@[ext]
structure UriMap (α : Type) where
  entries : List (Uri × α)
  ordered : entries.Pairwise (·.1.text < ·.1.text)
  deriving DecidableEq, Repr

namespace UriMap

variable {α β : Type}

/-! ### Lists in order -/

/-- The value of a document in a list. -/
def find? (uri : Uri) : List (Uri × α) → Option α
  | [] => none
  | (other, value) :: rest => if uri = other then some value else find? uri rest

/-- Sets the value of a document in a list in order. -/
def putIn (uri : Uri) (value : α) : List (Uri × α) → List (Uri × α)
  | [] => [(uri, value)]
  | (other, old) :: rest =>
    if uri = other then (uri, value) :: rest
    else if uri.text < other.text then (uri, value) :: (other, old) :: rest
    else (other, old) :: putIn uri value rest

theorem find?_eq_none_iff {uri : Uri} {entries : List (Uri × α)} :
    find? uri entries = none ↔ ∀ entry ∈ entries, uri ≠ entry.1 := by
  induction entries with
  | nil => simp [find?]
  | cons entry rest ih =>
    obtain ⟨key, value⟩ := entry
    by_cases heq : uri = key
    · simp [find?, heq]
    · simp [find?, heq, ih]

/-- In order, a value is found exactly if it is there. -/
private theorem find?_eq_some_iff {uri : Uri} {value : α} {entries : List (Uri × α)}
    (h : entries.Pairwise (·.1.text < ·.1.text)) :
    find? uri entries = some value ↔ (uri, value) ∈ entries := by
  induction entries with
  | nil => simp [find?]
  | cons first rest ih =>
    obtain ⟨other, old⟩ := first
    obtain ⟨hfirst, hrest⟩ := List.pairwise_cons.mp h
    by_cases heq : uri = other
    · subst heq
      have hnot : (uri, value) ∉ rest := fun hmem =>
        String.lt_irrefl _ (hfirst (uri, value) hmem)
      simp [find?, hnot, eq_comm]
    · simp [find?, heq, ih hrest]

private theorem find?_putIn (uri other : Uri) (value : α) (entries : List (Uri × α)) :
    find? other (putIn uri value entries) =
      if other = uri then some value else find? other entries := by
  induction entries with
  | nil => rfl
  | cons entry rest ih =>
    obtain ⟨key, old⟩ := entry
    grind [putIn, find?]

private theorem mem_putIn {uri : Uri} {value : α} {entries : List (Uri × α)} {entry : Uri × α}
    (h : entry ∈ putIn uri value entries) : entry = (uri, value) ∨ entry ∈ entries := by
  induction entries with
  | nil => exact Or.inl (List.mem_singleton.mp h)
  | cons first rest ih =>
    rw [putIn] at h
    split at h
    · rcases List.mem_cons.mp h with h | h
      · exact Or.inl h
      · exact Or.inr (List.mem_cons_of_mem _ h)
    · split at h
      · exact List.mem_cons.mp h
      · rcases List.mem_cons.mp h with h | h
        · exact Or.inr (h ▸ List.mem_cons_self)
        · rcases ih h with h | h
          · exact Or.inl h
          · exact Or.inr (List.mem_cons_of_mem _ h)

private theorem text_lt_of_not_lt {a b : Uri} (hne : a ≠ b) (h : ¬ a.text < b.text) :
    b.text < a.text := by
  apply String.not_le.mp
  intro hle
  apply hne
  cases a
  cases b
  exact congrArg Uri.mk (String.le_antisymm hle (String.not_lt.mp h))

private theorem pairwise_putIn (uri : Uri) (value : α) {entries : List (Uri × α)}
    (h : entries.Pairwise (·.1.text < ·.1.text)) :
    (putIn uri value entries).Pairwise (·.1.text < ·.1.text) := by
  induction entries with
  | nil => exact List.pairwise_singleton _ _
  | cons first rest ih =>
    obtain ⟨hfirst, hrest⟩ := List.pairwise_cons.mp h
    rw [putIn]
    split
    · next heq =>
      rw [heq]
      exact List.pairwise_cons.mpr ⟨hfirst, hrest⟩
    · next hne =>
      split
      · next hlt =>
        apply List.pairwise_cons.mpr
        refine ⟨?_, h⟩
        intro entry hentry
        rcases List.mem_cons.mp hentry with rfl | hentry
        · exact hlt
        · exact String.lt_trans hlt (hfirst entry hentry)
      · next hlt =>
        have hbefore := text_lt_of_not_lt hne hlt
        apply List.pairwise_cons.mpr
        refine ⟨?_, ih hrest⟩
        intro entry hentry
        rcases mem_putIn hentry with rfl | hentry
        · exact hbefore
        · exact hfirst entry hentry

private theorem putIn_putIn (uri : Uri) (old new : α) (entries : List (Uri × α)) :
    putIn uri new (putIn uri old entries) = putIn uri new entries := by
  induction entries with
  | nil => simp [putIn]
  | cons first rest ih =>
    obtain ⟨other, value⟩ := first
    by_cases heq : uri = other
    · simp [putIn, heq]
    · by_cases hlt : uri.text < other.text
      · simp [putIn, heq, hlt]
      · simp [putIn, heq, hlt, ih]

/-! ### Maps -/

/-- The map without values. -/
def empty : UriMap α := ⟨[], List.Pairwise.nil⟩

/-- The value of a document. -/
def get? (m : UriMap α) (uri : Uri) : Option α := find? uri m.entries

/-- Sets the value of a document. -/
def put (m : UriMap α) (uri : Uri) (value : α) : UriMap α :=
  ⟨putIn uri value m.entries, pairwise_putIn uri value m.ordered⟩

/-- Drops the value of a document. -/
def erase (m : UriMap α) (uri : Uri) : UriMap α :=
  ⟨m.entries.filter (·.1 != uri), m.ordered.filter _⟩

/-- Changes every value. -/
def map (f : α → β) (m : UriMap α) : UriMap β :=
  ⟨m.entries.map fun entry => (entry.1, f entry.2), List.pairwise_map.mpr m.ordered⟩

/-- Keeps the values that meet a condition. -/
def filter (p : α → Bool) (m : UriMap α) : UriMap α :=
  ⟨m.entries.filter (p ·.2), m.ordered.filter _⟩

/-- The documents that have a value. -/
def uris (m : UriMap α) : List Uri := m.entries.map Prod.fst

/-- The number of documents that have a value. -/
def size (m : UriMap α) : Nat := m.entries.length

/-- A value is found exactly if it is there. -/
theorem get?_eq_some_iff {m : UriMap α} {uri : Uri} {value : α} :
    m.get? uri = some value ↔ (uri, value) ∈ m.entries :=
  find?_eq_some_iff m.ordered

@[simp]
theorem get?_empty (uri : Uri) : (empty : UriMap α).get? uri = none := rfl

/-- A written value is read back, and no other document notices. -/
@[simp]
theorem get?_put (m : UriMap α) (uri other : Uri) (value : α) :
    (m.put uri value).get? other = if other = uri then some value else m.get? other :=
  find?_putIn uri other value m.entries

/-- A dropped value is gone, and no other document notices. -/
@[simp]
theorem get?_erase (m : UriMap α) (uri other : Uri) :
    (m.erase uri).get? other = if other = uri then none else m.get? other := by
  apply Option.ext
  intro value
  rw [get?_eq_some_iff, erase, List.mem_filter, ← get?_eq_some_iff]
  by_cases heq : other = uri
  · simp [heq]
  · simp [heq]

@[simp]
theorem get?_map (f : α → β) (m : UriMap α) (uri : Uri) :
    (m.map f).get? uri = (m.get? uri).map f := by
  apply Option.ext
  intro value
  rw [get?_eq_some_iff, map, List.mem_map, Option.map_eq_some_iff]
  constructor
  · rintro ⟨⟨key, old⟩, hmem, heq⟩
    obtain ⟨rfl, rfl⟩ := Prod.mk.inj heq
    exact ⟨old, get?_eq_some_iff.mpr hmem, rfl⟩
  · rintro ⟨old, hget, rfl⟩
    exact ⟨(uri, old), get?_eq_some_iff.mp hget, rfl⟩

@[simp]
theorem get?_filter (p : α → Bool) (m : UriMap α) (uri : Uri) :
    (m.filter p).get? uri = (m.get? uri).filter p := by
  apply Option.ext
  intro value
  rw [get?_eq_some_iff, filter, List.mem_filter, Option.filter_eq_some_iff, get?_eq_some_iff]

/-- What is in a map after a write was written or was there before. -/
theorem mem_put {m : UriMap α} {uri : Uri} {value : α} {entry : Uri × α}
    (h : entry ∈ (m.put uri value).entries) : entry = (uri, value) ∨ entry ∈ m.entries :=
  mem_putIn h

/-- The last write counts. -/
@[simp]
theorem put_put (m : UriMap α) (uri : Uri) (old new : α) :
    (m.put uri old).put uri new = m.put uri new :=
  UriMap.ext (putIn_putIn uri old new m.entries)

end UriMap

end GroovyIndex
