/-!
# Lists by key

Two ways to order the members of a list by a key: the first member of each key alone, and all
members with those of one key side by side. In both the keys come in the order in which they are
first seen, and the members of one key keep their order.
-/

namespace GroovyIndex

variable {α β : Type} [DecidableEq β]

/-- The first member of each key. -/
def firstPerKey (key : α → β) : List α → List α
  | [] => []
  | x :: rest => x :: (firstPerKey key rest).filter (key · ≠ key x)

/-- The members of a list with those of one key side by side. -/
def groupedBy (key : α → β) (xs : List α) : List α :=
  (firstPerKey key xs).flatMap fun first => xs.filter (key · = key first)

/-- Each key of the list has its first member. -/
theorem exists_mem_firstPerKey (key : α → β) {xs : List α} {x : α} (h : x ∈ xs) :
    ∃ first ∈ firstPerKey key xs, key first = key x := by
  induction xs with
  | nil => simp at h
  | cons y rest ih =>
    by_cases hy : key x = key y
    · exact ⟨y, by simp [firstPerKey], hy.symm⟩
    · have hne : x ≠ y := fun e => hy (congrArg key e)
      obtain ⟨first, hfirst, hkey⟩ := ih (by simpa [hne] using h)
      exact ⟨first, by simp [firstPerKey, hfirst, hkey, hy], hkey⟩

/-- A grouped list has the members of the list. -/
theorem mem_groupedBy {key : α → β} {xs : List α} {x : α} : x ∈ groupedBy key xs ↔ x ∈ xs := by
  constructor
  · intro h
    obtain ⟨_, _, h⟩ := List.mem_flatMap.1 h
    exact (List.mem_filter.1 h).1
  · intro h
    obtain ⟨first, hfirst, hkey⟩ := exists_mem_firstPerKey key h
    exact List.mem_flatMap.2 ⟨first, hfirst, List.mem_filter.2 ⟨h, by simp [hkey]⟩⟩

end GroovyIndex
