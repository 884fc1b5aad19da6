import GroovyIndex.Proofs.IndexStructure
import GroovyIndex.Proofs.Innermost
import GroovyIndex.Proofs.Resolution

/-!
# What a name of a variable refers to

A look-up walks the scopes outward and takes the last listed variable of a scope that starts in
time, else, in a class or the document, the first listed field. In a document that is laid out
that variable starts last, since variables are listed in the order of their identifiers.
-/

namespace GroovyIndex

namespace Index

/-- The first entry is listed before the second. -/
def Before (idx : Index) (x y : Entry) : Prop := idx.entries.idxOf x < idx.entries.idxOf y

instance (idx : Index) (x y : Entry) : Decidable (idx.Before x y) :=
  inferInstanceAs (Decidable (idx.entries.idxOf x < idx.entries.idxOf y))

variable {idx : Index}

/-! ### Listed order -/

theorem Before.trans {x y z : Entry} (hxy : idx.Before x y) (hyz : idx.Before y z) :
    idx.Before x z :=
  Nat.lt_trans hxy hyz

theorem Before.not_before {x y : Entry} (h : idx.Before x y) : ¬ idx.Before y x :=
  Nat.lt_asymm h

/-- What holds of every two entries in listed order holds of these two. -/
theorem Before.of_pairwise {R : Entry → Entry → Prop} {x y : Entry} (h : idx.Before x y)
    (hall : idx.entries.Pairwise R) (hx : x ∈ idx.entries) (hy : y ∈ idx.entries) : R x y := by
  have hR := List.pairwise_iff_getElem.mp hall _ _ (List.idxOf_lt_length_of_mem hx)
    (List.idxOf_lt_length_of_mem hy) h
  simpa using hR

theorem nodup_entries (hd : idx.Distinct) : idx.entries.Nodup := List.Nodup.of_map _ hd

/-- What is listed in front of an entry is listed before it. -/
theorem before_of_eq_append (hd : idx.Distinct) {xs ys : List Entry} {x y : Entry}
    (h : idx.entries = xs ++ y :: ys) (hx : x ∈ xs) : idx.Before x y := by
  have hnodup := nodup_entries hd
  rw [h] at hnodup
  have hy : y ∉ xs := by
    intro hy
    exact (List.nodup_append.mp hnodup).2.2 y hy y List.mem_cons_self rfl
  rw [Before, h, List.idxOf_append_of_mem hx, List.idxOf_append_of_notMem hy, List.idxOf_cons_self]
  exact Nat.lt_of_lt_of_le (List.idxOf_lt_length_of_mem hx) (Nat.le_add_right _ _)

/-- The last result over the entries comes from an entry after which there is none. -/
theorem exists_last {α : Type} (hd : idx.Distinct) {g : Entry → Option α} {b : α}
    (h : (idx.entries.filterMap g).getLast? = some b) :
    ∃ e ∈ idx.entries, g e = some b ∧
      ∀ e' ∈ idx.entries, (g e').isSome → e' = e ∨ idx.Before e' e := by
  rw [List.getLast?_filterMap, List.findSome?_eq_some_iff] at h
  obtain ⟨after, e, before, heq, hb, hnone⟩ := h
  have hsplit : idx.entries = before.reverse ++ e :: after.reverse := by
    have hrev := congrArg List.reverse heq
    simpa using hrev
  refine ⟨e, by simp [hsplit], hb, ?_⟩
  intro e' he' hsome
  rw [hsplit, List.mem_append, List.mem_cons] at he'
  rcases he' with hbefore | rfl | hafter
  · exact Or.inr (before_of_eq_append hd hsplit hbefore)
  · exact Or.inl rfl
  · simp [hnone e' (List.mem_reverse.mp hafter)] at hsome

/-- The first result over the entries comes from an entry before which there is none. -/
theorem exists_first {α : Type} (hd : idx.Distinct) {g : Entry → Option α} {b : α}
    (h : (idx.entries.filterMap g).head? = some b) :
    ∃ e ∈ idx.entries, g e = some b ∧
      ∀ e' ∈ idx.entries, (g e').isSome → e' = e ∨ idx.Before e e' := by
  rw [List.head?_filterMap, List.findSome?_eq_some_iff] at h
  obtain ⟨before, e, after, hsplit, hb, hnone⟩ := h
  refine ⟨e, by simp [hsplit], hb, ?_⟩
  intro e' he' hsome
  have hmem := he'
  rw [hsplit, List.mem_append, List.mem_cons] at he'
  rcases he' with hbefore | rfl | hafter
  · simp [hnone e' hbefore] at hsome
  · exact Or.inl rfl
  · obtain ⟨xs, ys, rfl⟩ := List.append_of_mem hafter
    have hsplit' : idx.entries = (before ++ e :: xs) ++ e' :: ys := by simpa using hsplit
    exact Or.inr (before_of_eq_append hd hsplit' (by simp))

private theorem idxOf_neighbour {xs ys : List Entry} {x y : Entry}
    (h : (xs ++ x :: y :: ys).Nodup) :
    (xs ++ x :: y :: ys).idxOf y = (xs ++ x :: y :: ys).idxOf x + 1 := by
  have hne : x ≠ y := by
    rintro rfl
    exact (List.nodup_cons.mp (List.nodup_append.mp h).2.1).1 List.mem_cons_self
  have hx : x ∉ xs := fun hx => (List.nodup_append.mp h).2.2 x hx x (by simp) rfl
  have hy : y ∉ xs := fun hy => (List.nodup_append.mp h).2.2 y hy y (by simp) rfl
  rw [List.idxOf_append_of_notMem hx, List.idxOf_append_of_notMem hy, List.idxOf_cons_self,
    List.idxOf_cons_ne _ hne, List.idxOf_cons_self]

/-- The first child of an entry is listed right behind it. -/
theorem idxOf_head_children (hd : idx.Distinct) {p c : Entry} (hp : p ∈ idx.entries)
    (h : (idx.children p.id).head? = some c) :
    idx.entries.idxOf c = idx.entries.idxOf p + 1 := by
  obtain ⟨path, n, hrow, rfl⟩ := exists_row_of_mem hp
  have hchildren : idx.children (n.entry path).id = n.children.map (Node.entry (n.id :: path)) :=
    children_of_row hd hrow
  cases hn : n.children with
  | nil => simp [hchildren, hn] at h
  | cons m rest =>
    simp only [hchildren, hn, List.map_cons, List.head?_cons, Option.some.injEq] at h
    subst h
    obtain ⟨before, after, hrows⟩ := Node.rows_infix_of_mem hrow
    rw [Node.rows_eq, hn, Node.forestRows_cons] at hrows
    have hnodup := nodup_entries hd
    have hentries := entries_eq_map_rows idx
    rw [← hrows] at hentries
    simp only [List.append_assoc, List.cons_append, List.map_append, List.map_cons] at hentries
    rw [hentries] at hnodup ⊢
    exact idxOf_neighbour hnodup

/-- What is listed behind an entry is its first child, or is listed behind that too. -/
theorem Before.eq_or_before_head (hd : idx.Distinct) {p c e : Entry} (h : idx.Before p e)
    (hp : p ∈ idx.entries) (hc : (idx.children p.id).head? = some c) (he : e ∈ idx.entries) :
    e = c ∨ idx.Before c e := by
  have hidx := idxOf_head_children hd hp hc
  by_cases heq : idx.entries.idxOf c = idx.entries.idxOf e
  · exact Or.inl ((List.idxOf_inj he).mp heq.symm)
  · right
    unfold Before at h ⊢
    omega

/-- The first child of an entry is listed behind it. -/
theorem before_head (hd : idx.Distinct) {p c : Entry} (hp : p ∈ idx.entries)
    (hc : (idx.children p.id).head? = some c) : idx.Before p c := by
  have hidx := idxOf_head_children hd hp hc
  unfold Before
  omega

/-! ### Variables of a scope -/

/-- A placed node introduces a variable of a name to its scope: a parameter is its own identifier,
that of a statement is its first child. The identifier starts at the position. -/
inductive Introduces (idx : Index) (name : String) (scope : Entry) :
    (declarer identifier : Entry) → Position → Prop where
  | parameter {e : Entry} {range : Range} {nameRange : Option Range} {typeName : Option String}
      {hasDefault : Bool} (he : e ∈ idx.entries) (hrange : e.range = some range)
      (hkind : e.kind = .parameter name nameRange typeName hasDefault)
      (hscope : (idx.scopes e.id).head? = some scope) :
      Introduces idx name scope e e (nameRange.getD range).start
  | statement {st e : Entry} {around range : Range} {typeName : Option String}
      (hst : st ∈ idx.entries) (haround : st.range = some around)
      (hkind : st.kind = .declaration typeName) (hchild : (idx.children st.id).head? = some e)
      (hname : e.kind = .variableRef name) (hrange : e.range = some range)
      (hscope : (idx.scopes st.id).head? = some scope) :
      Introduces idx name scope st e range.start

/-- The identifier of a variable of the name that belongs to the scope and starts at or
before a position. -/
def Shows (idx : Index) (name : String) (scope : Entry) (pos : Position) (e : Entry)
    (start : Position) : Prop :=
  (∃ declarer, idx.Introduces name scope declarer e start) ∧ start ≤ pos

/-- Of the variables of the name in the scope that start at or before a position, the one that
starts last; of several that start there, the last listed. -/
def IsLatest (idx : Index) (name : String) (scope : Entry) (pos : Position) (e : Entry) : Prop :=
  ∃ start, idx.Shows name scope pos e start ∧
    ∀ e' start', idx.Shows name scope pos e' start' →
      start' < start ∨ start' = start ∧ (e' = e ∨ idx.Before e' e)

/-- The identifier of a parameter starts in the parameter, and not behind the start of what
is right below. -/
def NamesFirst (idx : Index) : Prop :=
  ∀ e ∈ idx.entries, e.parameterInfo?.isSome = true → ∀ range ∈ e.range,
    ∀ nameRange ∈ e.kind.nameRange?, range.contains nameRange.start = true ∧
      ∀ c ∈ idx.placedChildren e, ∀ r ∈ c.range, nameRange.start ≤ r.start

instance (idx : Index) : Decidable idx.NamesFirst :=
  inferInstanceAs (Decidable (∀ e ∈ idx.entries, e.parameterInfo?.isSome = true →
    ∀ range ∈ e.range, ∀ nameRange ∈ e.kind.nameRange?, range.contains nameRange.start = true ∧
      ∀ c ∈ idx.placedChildren e, ∀ r ∈ c.range, nameRange.start ≤ r.start))

theorem NamesFirst.of_parameter (h : idx.NamesFirst) {e : Entry} {range nameRange : Range}
    {name : String} {typeName : Option String} {hasDefault : Bool} (he : e ∈ idx.entries)
    (hrange : e.range = some range)
    (hkind : e.kind = .parameter name (some nameRange) typeName hasDefault) :
    range.contains nameRange.start = true ∧
      ∀ c ∈ idx.placedChildren e, ∀ r ∈ c.range, nameRange.start ≤ r.start := by
  apply h e he _ range hrange nameRange
  · rw [hkind]
    rfl
  · rw [Entry.parameterInfo?, hkind]
    rfl

/-- A variable is introduced exactly if it is recorded. -/
theorem exists_introduces (hd : idx.Distinct) {d : Entry} {v : VariableDecl}
    (he : d ∈ idx.entries) (h : idx.variableDecl? d = some v) :
    ∃ scope ∈ idx.entries, ∃ e ∈ idx.entries, v.scope = scope.id ∧ v.node = e.id ∧
      idx.Introduces v.name scope d e v.declaredAt := by
  obtain ⟨range, hrange, hv⟩ := Option.bind_eq_some_iff.mp h
  cases hk : d.kind with
  | parameter name nameRange typeName hasDefault =>
    simp only [hk] at hv
    obtain ⟨scope, hscope, hv⟩ := Option.bind_eq_some_iff.mp hv
    cases hv
    have hmem := mem_of_mem_ancestors (List.mem_of_mem_filter (List.mem_of_head? hscope))
    exact ⟨scope, hmem, d, he, rfl, rfl, .parameter he hrange hk hscope⟩
  | declaration typeName =>
    simp only [hk] at hv
    obtain ⟨target, htarget, hv⟩ := Option.bind_eq_some_iff.mp hv
    obtain ⟨name, hname, hv⟩ := Option.bind_eq_some_iff.mp hv
    obtain ⟨nameRange, hnameRange, hv⟩ := Option.bind_eq_some_iff.mp hv
    obtain ⟨scope, hscope, hv⟩ := Option.bind_eq_some_iff.mp hv
    cases hv
    have hmem := mem_of_mem_ancestors (List.mem_of_mem_filter (List.mem_of_head? hscope))
    obtain ⟨hhead, hvar⟩ := Option.filter_eq_some_iff.mp htarget
    have htmem := ((mem_children_iff hd he).mp (List.mem_of_head? hhead)).2.1
    have hkind : target.kind = .variableRef name := by
      cases ht : target.kind <;> simp_all [Kind.isVariableRef, Entry.name?, Kind.name?]
    exact ⟨scope, hmem, target, htmem, rfl, rfl,
      .statement he hrange hk hhead hkind hnameRange hscope⟩
  | _ => simp [hk] at hv

theorem Introduces.mem {name : String} {scope d e : Entry} {start : Position}
    (h : idx.Introduces name scope d e start) : d ∈ idx.entries := by
  cases h <;> assumption

theorem Introduces.identifier_mem (hd : idx.Distinct) {name : String} {scope d e : Entry}
    {start : Position} (h : idx.Introduces name scope d e start) : e ∈ idx.entries := by
  cases h with
  | parameter he => exact he
  | statement hst _ _ hchild => exact ((mem_children_iff hd hst).mp (List.mem_of_head? hchild)).2.1

theorem Introduces.exists_record {name : String} {scope d e : Entry} {start : Position}
    (h : idx.Introduces name scope d e start) :
    ∃ v, idx.variableDecl? d = some v ∧ v.name = name ∧ v.scope = scope.id ∧ v.node = e.id ∧
      v.declaredAt = start := by
  cases h with
  | parameter he hrange hkind hscope =>
    refine ⟨⟨name, d.id, scope.id, _, d.kind.declaredType?, .parameter⟩, ?_, rfl, rfl, rfl, rfl⟩
    simp only [variableDecl?, hrange, hkind, hscope, Kind.declaredType?]
    rfl
  | statement hst haround hkind hchild hname hrange hscope =>
    have htarget : idx.declaredVariable? d.id = some e := by
      rw [declaredVariable?, hchild, Option.filter_some, hname]
      rfl
    have hspelt : e.name? = some name := by
      rw [Entry.name?, hname]
      rfl
    refine ⟨⟨name, e.id, scope.id, _, d.kind.declaredType?, .localVar⟩, ?_, rfl, rfl, rfl, rfl⟩
    simp [variableDecl?, haround, hkind, hscope, htarget, hspelt, hrange, Kind.declaredType?]

/-! ### Variables are listed in the order of their identifiers -/

/-- Of two nodes below the root the one listed first lies above the other or ends
before it starts. -/
theorem LaidOut.above_or_precedes (h : idx.LaidOut) (hd : idx.Distinct) (hup : idx.Upright)
    {x y : Entry} (hxy : idx.Before x y) (hx : x ∈ idx.entries) (hy : y ∈ idx.entries)
    (hne : x ≠ idx.root) : idx.isAncestor x.id y.id = true ∨ x.Precedes y := by
  have hall : idx.entries.Pairwise fun x y =>
      x ≠ idx.root → idx.isAncestor x.id y.id = true ∨ x.Precedes y := by
    have hcons : idx.entries = idx.root :: idx.entries.tail := by
      rw [entries_eq_map_rows, Node.forestRows_singleton, Node.rows_eq]
      rfl
    rw [hcons]
    refine List.pairwise_cons.mpr ⟨fun _ _ hroot => absurd rfl hroot, ?_⟩
    apply (h.pairwise_tail hd hup).imp
    intro x y hxy _
    exact hxy
  exact hxy.of_pairwise hall hx hy hne

/-- Of two nodes below the root the one listed first starts first. -/
theorem LaidOut.start_le (h : idx.LaidOut) (hd : idx.Distinct) (hup : idx.Upright) {x y : Entry}
    {r s : Range} (hxy : idx.Before x y) (hx : x ∈ idx.entries) (hy : y ∈ idx.entries)
    (hne : x ≠ idx.root) (hr : x.range = some r) (hs : y.range = some s) : r.start ≤ s.start := by
  rcases h.above_or_precedes hd hup hxy hx hy hne with habove | hprecedes
  · have hin := Nests.containsRange_of_above h.within hd hx hne hy hr hs (Or.inr habove)
    exact (Range.containsRange_iff.mp hin).1
  · exact Position.le_trans (hup x hx r hr) (hprecedes r hr s hs)

/-- The identifier of a parameter starts no later than what is listed behind the parameter. -/
theorem NamesFirst.start_le (hn : idx.NamesFirst) (h : idx.LaidOut) (hd : idx.Distinct)
    (hup : idx.Upright) {e y : Entry} {range s nameRange : Range} {name : String}
    {typeName : Option String} {hasDefault : Bool} (hey : idx.Before e y) (he : e ∈ idx.entries)
    (hy : y ∈ idx.entries) (hne : e ≠ idx.root) (hrange : e.range = some range)
    (hkind : e.kind = .parameter name (some nameRange) typeName hasDefault)
    (hs : y.range = some s) : nameRange.start ≤ s.start := by
  have hfirst := hn.of_parameter he hrange hkind
  rcases h.above_or_precedes hd hup hey he hy hne with habove | hprecedes
  · -- Something right below the parameter is around the place where the other node starts.
    have hsome : e.range.isSome = true := Option.isSome_of_eq_some hrange
    have hat : y.contains s.start = true := by
      rw [Entry.contains_iff]
      exact ⟨s, hs, Range.contains_iff.mpr ⟨Position.le_refl _, hup y hy s hs⟩⟩
    obtain ⟨c, hc, hcat⟩ :=
      Nests.exists_placedChild_around h.within hd he (Or.inr hsome) hy habove hat
    obtain ⟨r, hr, hin⟩ := Entry.contains_iff.mp hcat
    exact Position.le_trans (hfirst.2 c hc r hr) (Range.contains_iff.mp hin).1
  · exact Position.le_trans (Range.contains_iff.mp hfirst.1).2 (hprecedes range hrange s hs)

namespace Introduces

variable {name name' : String} {scope scope' d d' e e' : Entry} {start start' : Position}

/-- What introduces a variable stands in a scope. -/
theorem ne_root (h : idx.Introduces name scope d e start) (hd : idx.Distinct) : d ≠ idx.root := by
  rintro rfl
  cases h <;> simp_all [scopes, ancestors_root]

/-- What introduces a variable has a place, and the identifier does not start before it. -/
theorem exists_range (h : idx.Introduces name scope d e start) (hl : idx.LaidOut)
    (hn : idx.NamesFirst) (hd : idx.Distinct) : ∃ r, d.range = some r ∧ r.start ≤ start := by
  have hne := h.ne_root hd
  cases h with
  | @parameter range nameRange _ _ he hrange hkind hscope =>
    refine ⟨range, hrange, ?_⟩
    cases nameRange with
    | none => exact Position.le_refl _
    | some nameRange => exact (Range.contains_iff.mp (hn.of_parameter he hrange hkind).1).1
  | statement hst haround hkind hchild hname hrange hscope =>
    have hparent := (mem_children_iff hd hst).mp (List.mem_of_head? hchild)
    have habove : idx.isAncestor d.id e.id = true := by
      rw [isAncestor_iff hd hparent.2.1, hparent.2.2]
      exact List.mem_cons_self
    have hin := Nests.containsRange_of_above hl.within hd hst hne hparent.2.1 haround hrange
      (Or.inr habove)
    exact ⟨_, haround, (Range.containsRange_iff.mp hin).1⟩

/-- An identifier is what introduces it, or is listed behind that. -/
theorem eq_or_before (h : idx.Introduces name scope d e start) (hd : idx.Distinct) :
    e = d ∨ idx.Before d e := by
  cases h with
  | parameter => exact Or.inl rfl
  | statement hst _ _ hchild => exact Or.inr (before_head hd hst hchild)

/-- What introduces a variable is not a name. -/
theorem isVariableRef_eq_false (h : idx.Introduces name scope d e start) :
    d.kind.isVariableRef = false := by
  cases h with
  | parameter _ _ hkind => rw [hkind]; rfl
  | statement _ _ hkind => rw [hkind]; rfl

/-- What is listed behind a node that introduces a variable, names apart, comes behind the
identifier and starts no earlier. -/
theorem start_le_of_before (h : idx.Introduces name scope d e start) (hl : idx.LaidOut)
    (hn : idx.NamesFirst) (hd : idx.Distinct) (hup : idx.Upright) {y : Entry} {s : Range}
    (hdy : idx.Before d y) (hy : y ∈ idx.entries) (hs : y.range = some s)
    (hkind : y.kind.isVariableRef = false) : idx.Before e y ∧ start ≤ s.start := by
  have hne := h.ne_root hd
  cases h with
  | @parameter range nameRange _ _ he hrange hparam hscope =>
    refine ⟨hdy, ?_⟩
    cases nameRange with
    | none => exact hl.start_le hd hup hdy he hy hne hrange hs
    | some nameRange => exact hn.start_le hl hd hup hdy he hy hne hrange hparam hs
  | statement hst haround hstatement hchild hname hrange hscope =>
    have hey : idx.Before e y := by
      rcases hdy.eq_or_before_head hd hst hchild hy with rfl | hey
      · rw [hname] at hkind
        cases hkind
      · exact hey
    have hparent := (mem_children_iff hd hst).mp (List.mem_of_head? hchild)
    have hroot : e ≠ idx.root := by
      rintro rfl
      simpa [root, Node.entry] using hparent.2.2
    exact ⟨hey, hl.start_le hd hup hey hparent.2.1 hy hroot hrange hs⟩

/-- Variables that are introduced one after the other have their identifiers in the same order. -/
theorem ordered (h : idx.Introduces name scope d e start)
    (h' : idx.Introduces name' scope' d' e' start') (hl : idx.LaidOut) (hn : idx.NamesFirst)
    (hd : idx.Distinct) (hup : idx.Upright) (hdd : idx.Before d d') :
    start ≤ start' ∧ idx.Before e e' := by
  obtain ⟨s, hs, hle⟩ := h'.exists_range hl hn hd
  obtain ⟨hbefore, hstart⟩ :=
    h.start_le_of_before hl hn hd hup hdd h'.mem hs h'.isVariableRef_eq_false
  refine ⟨Position.le_trans hstart hle, ?_⟩
  rcases h'.eq_or_before hd with rfl | hafter
  · exact hbefore
  · exact hbefore.trans hafter

end Introduces

/-! ### What is declared in a scope -/

/-- A field or property of the name with a place, which belongs to the scope: to a class as the
nearest class around it, or, outside of classes, to the whole document. -/
def IsField (idx : Index) (name : String) (scope e : Entry) : Prop :=
  e ∈ idx.entries ∧ e.range.isSome = true ∧
    (∃ nameRange typeName, e.kind = .fieldDecl name nameRange typeName ∨
      e.kind = .propertyDecl name nameRange typeName) ∧
    (scope.kind.isClass = true ∧ idx.owner? e.id = some scope.id ∨
      scope.kind = .moduleRoot ∧ idx.owner? e.id = none)

/-- The first listed field or property of the name that belongs to the scope. -/
def IsFirstField (idx : Index) (name : String) (scope e : Entry) : Prop :=
  idx.IsField name scope e ∧ ∀ e', idx.IsField name scope e' → e' = e ∨ idx.Before e e'

/-- What a name at a position refers to, seen from scopes from the inside out: the first scope
counts that has a variable which starts in time, or a field. -/
inductive RefersTo (idx : Index) (name : String) (pos : Position) :
    List Entry → Option Entry → Prop where
  | nothing : RefersTo idx name pos [] none
  | toVariable {scope e : Entry} (outer : List Entry) (h : idx.IsLatest name scope pos e) :
      RefersTo idx name pos (scope :: outer) (some e)
  | toField {scope e : Entry} (outer : List Entry)
      (hnone : ∀ e start, ¬ idx.Shows name scope pos e start)
      (h : idx.IsFirstField name scope e) : RefersTo idx name pos (scope :: outer) (some e)
  | outward {scope : Entry} {outer : List Entry} {outcome : Option Entry}
      (hnone : ∀ e start, ¬ idx.Shows name scope pos e start)
      (hfield : ∀ e, ¬ idx.IsField name scope e) (h : RefersTo idx name pos outer outcome) :
      RefersTo idx name pos (scope :: outer) outcome

/-- At most one variable is the latest. -/
theorem IsLatest.unique {name : String} {scope e e' : Entry} {pos : Position}
    (h : idx.IsLatest name scope pos e) (h' : idx.IsLatest name scope pos e') : e = e' := by
  obtain ⟨start, hshows, hall⟩ := h
  obtain ⟨start', hshows', hall'⟩ := h'
  have hle := hall e' start' hshows'
  have hle' := hall' e start hshows
  rcases hle with hlt | ⟨rfl, rfl | hbefore⟩
  · rcases hle' with hlt' | ⟨rfl, -⟩
    · exact absurd (Position.lt_trans hlt hlt') (Position.lt_irrefl _)
    · exact absurd hlt (Position.lt_irrefl _)
  · rfl
  · rcases hle' with hlt' | ⟨-, rfl | hbefore'⟩
    · exact absurd hlt' (Position.lt_irrefl _)
    · rfl
    · exact absurd hbefore' hbefore.not_before

/-- At most one field is the first. -/
theorem IsFirstField.unique {name : String} {scope e e' : Entry}
    (h : idx.IsFirstField name scope e) (h' : idx.IsFirstField name scope e') : e = e' := by
  rcases h.2 e' h'.1 with rfl | hbefore
  · rfl
  · rcases h'.2 e h.1 with rfl | hbefore'
    · rfl
    · exact absurd hbefore' hbefore.not_before

/-- The scopes determine what a name refers to. -/
theorem RefersTo.unique {name : String} {pos : Position} {scopes : List Entry}
    {outcome outcome' : Option Entry} (h : idx.RefersTo name pos scopes outcome)
    (h' : idx.RefersTo name pos scopes outcome') : outcome = outcome' := by
  induction h with
  | nothing =>
    cases h'
    rfl
  | toVariable outer h =>
    cases h' with
    | toVariable _ h' => rw [h.unique h']
    | toField _ hnone | outward hnone =>
      obtain ⟨start, hshows, -⟩ := h
      exact absurd hshows (hnone _ _)
  | toField outer hnone h =>
    cases h' with
    | toVariable _ h' =>
      obtain ⟨start, hshows, -⟩ := h'
      exact absurd hshows (hnone _ _)
    | toField _ _ h' => rw [h.unique h']
    | outward _ hfield => exact absurd h.1 (hfield _)
  | outward hnone hfield h ih =>
    cases h' with
    | toVariable _ h' =>
      obtain ⟨start, hshows, -⟩ := h'
      exact absurd hshows (hnone _ _)
    | toField _ _ h' => exact absurd h'.1 (hfield _)
    | outward _ _ h' => exact ih h'

/-- The owner whose fields a scope shows. -/
theorem fieldOwner?_eq_some_iff {scope : Entry} {owner : Option NodeId} :
    Snapshot.fieldOwner? scope = some owner ↔
      scope.kind.isClass = true ∧ owner = some scope.id ∨
        scope.kind = .moduleRoot ∧ owner = none := by
  unfold Snapshot.fieldOwner?
  cases scope.kind <;> simp [Kind.isClass, eq_comm]

theorem node_of_fieldDecl? {e : Entry} {f : FieldDecl} (h : idx.fieldDecl? e = some f) :
    f.node = e.id := by
  obtain ⟨range, -, hf⟩ := Option.bind_eq_some_iff.mp h
  cases hk : e.kind <;> simp [hk] at hf
  all_goals rw [← hf]

/-- A field belongs to a scope exactly if it is recorded with an owner whose fields
the scope shows. -/
theorem isField_iff {name : String} {scope e : Entry} (he : e ∈ idx.entries) :
    idx.IsField name scope e ↔
      ∃ f, idx.fieldDecl? e = some f ∧ f.name = name ∧
        Snapshot.fieldOwner? scope = some f.owner := by
  rw [IsField, ← fieldOwner?_eq_some_iff, fieldDecl?]
  cases hr : e.range with
  | none => simp
  | some range => cases hk : e.kind <;> simp [he, eq_comm]

end Index

namespace Snapshot

variable {s : Snapshot} {name : String} {scope : Entry} {pos : Position}

/-- The records that a look-up of a variable goes through, entry by entry. -/
theorem variableIn?_eq (s : Snapshot) (scope : NodeId) (name : String) (pos : Position) :
    s.declarations.variableIn? scope name pos =
      (s.index.entries.filterMap fun e => (s.index.variableDecl? e).filter fun v =>
        v.name == name && v.scope == scope && v.declaredAt ≤ pos).getLast? := by
  rw [Declarations.variableIn?, s.declarations_eq, Declarations.ofIndex, List.filter_filterMap]

/-- The records that a look-up of a field goes through, entry by entry. -/
theorem fieldOf?_eq (s : Snapshot) (owner : Option NodeId) (name : String) :
    s.declarations.fieldOf? owner name =
      (s.index.entries.filterMap fun e => (s.index.fieldDecl? e).filter fun f =>
        f.name == name && f.owner == owner).head? := by
  rw [Declarations.fieldOf?, Declarations.fieldsOf, s.declarations_eq, Declarations.ofIndex,
    ← List.head?_filter, List.filter_filter, List.filter_filterMap]

/-- A variable that is found in a scope is the latest. -/
theorem isLatest_of_variableIn? (hl : s.index.LaidOut) (hn : s.index.NamesFirst)
    (hscope : scope ∈ s.index.entries) {v : VariableDecl}
    (h : s.declarations.variableIn? scope.id name pos = some v) :
    ∃ e ∈ s.index.entries, e.id = v.node ∧ s.index.IsLatest name scope pos e := by
  rw [variableIn?_eq] at h
  obtain ⟨d, hd, hv, hlast⟩ := Index.exists_last s.distinct h
  obtain ⟨hrecord, hcond⟩ := Option.filter_eq_some_iff.mp hv
  simp only [Bool.and_eq_true, beq_iff_eq, decide_eq_true_eq] at hcond
  obtain ⟨⟨rfl, hbelongs⟩, hle⟩ := hcond
  obtain ⟨scope', hscope', e, he, hid, hnode, hintro⟩ :=
    Index.exists_introduces s.distinct hd hrecord
  obtain rfl := Index.eq_of_id_eq s.distinct hscope' hscope (hid.symm.trans hbelongs)
  refine ⟨e, he, hnode.symm, v.declaredAt, ⟨⟨d, hintro⟩, hle⟩, ?_⟩
  rintro e' start' ⟨⟨d', hintro'⟩, hle'⟩
  obtain ⟨v', hrecord', hname', hscope', hnode', rfl⟩ := hintro'.exists_record
  have hsome : ((s.index.variableDecl? d').filter fun w =>
      w.name == v.name && w.scope == scope'.id && w.declaredAt ≤ pos).isSome = true := by
    simp [hrecord', hname', hscope', hle']
  rcases hlast d' hintro'.mem hsome with rfl | hbefore
  · rw [hrecord] at hrecord'
    cases hrecord'
    have hsame := Index.eq_of_id_eq s.distinct (hintro'.identifier_mem s.distinct) he
      (hnode'.symm.trans hnode)
    exact Or.inr ⟨rfl, Or.inl hsame⟩
  · obtain ⟨hstart, hident⟩ := hintro'.ordered hintro hl hn s.distinct s.upright hbefore
    by_cases heq : v'.declaredAt = v.declaredAt
    · exact Or.inr ⟨heq, Or.inr hident⟩
    · exact Or.inl (Position.lt_of_le_of_ne hstart heq)

/-- Where no variable is found in a scope, it shows none. -/
theorem not_shows_of_variableIn? (h : s.declarations.variableIn? scope.id name pos = none)
    (e : Entry) (start : Position) : ¬ s.index.Shows name scope pos e start := by
  rintro ⟨⟨d, hintro⟩, hle⟩
  obtain ⟨v, hrecord, rfl, hscope, -, rfl⟩ := hintro.exists_record
  rw [variableIn?_eq, List.getLast?_eq_none_iff, List.filterMap_eq_nil_iff] at h
  have hnone := h d hintro.mem
  simp [hrecord, hscope, hle] at hnone

/-- A field that is found among those that a scope shows is the first. -/
theorem isFirstField_of_fieldOf? {owner : Option NodeId} {f : FieldDecl}
    (howner : fieldOwner? scope = some owner)
    (h : s.declarations.fieldOf? owner name = some f) :
    ∃ e ∈ s.index.entries, e.id = f.node ∧ s.index.IsFirstField name scope e := by
  rw [fieldOf?_eq] at h
  obtain ⟨e, he, hf, hfirst⟩ := Index.exists_first s.distinct h
  obtain ⟨hrecord, hcond⟩ := Option.filter_eq_some_iff.mp hf
  simp only [Bool.and_eq_true, beq_iff_eq] at hcond
  obtain ⟨rfl, rfl⟩ := hcond
  have hnode : f.node = e.id := Index.node_of_fieldDecl? hrecord
  refine ⟨e, he, hnode.symm, (Index.isField_iff he).mpr ⟨f, hrecord, rfl, howner⟩, ?_⟩
  intro e' he'
  obtain ⟨f', hrecord', hname', howner'⟩ := (Index.isField_iff he'.1).mp he'
  apply hfirst e' he'.1
  rw [howner] at howner'
  simp [hrecord', hname', Option.some.inj howner']

/-- Where no field is found among those that a scope shows, none belongs to it. -/
theorem not_isField_of_fieldOf? {owner : Option NodeId} (howner : fieldOwner? scope = some owner)
    (h : s.declarations.fieldOf? owner name = none) (e : Entry) :
    ¬ s.index.IsField name scope e := by
  intro he
  obtain ⟨f, hrecord, rfl, howner'⟩ := (Index.isField_iff he.1).mp he
  rw [howner, Option.some.injEq] at howner'
  rw [fieldOf?_eq, List.head?_eq_none_iff, List.filterMap_eq_nil_iff] at h
  have hnone := h e he.1
  simp [hrecord, howner'] at hnone

/-- What a look-up finds from scope to scope is what the name refers to. -/
theorem exists_refersTo (hl : s.index.LaidOut) (hn : s.index.NamesFirst) (name : String)
    (pos : Position) {scopes : List Entry} (hscopes : ∀ scope ∈ scopes, scope ∈ s.index.entries) :
    ∃ outcome : Option Entry, s.index.RefersTo name pos scopes outcome ∧
      (∀ e ∈ outcome, e ∈ s.index.entries) ∧
      scopes.findSome? (fun scope => s.declaredIn? scope name pos) = outcome.map Entry.id := by
  induction scopes with
  | nil => exact ⟨none, .nothing, by simp, rfl⟩
  | cons scope outer ih =>
    have hscope := hscopes scope List.mem_cons_self
    rw [List.findSome?_cons, declaredIn?]
    cases hv : s.declarations.variableIn? scope.id name pos with
    | some v =>
      obtain ⟨e, he, hid, hlatest⟩ := isLatest_of_variableIn? hl hn hscope hv
      exact ⟨some e, .toVariable outer hlatest, by simpa using he, by simp [hid]⟩
    | none =>
      have hnone := not_shows_of_variableIn? hv
      obtain ⟨outcome, hrefers, hmem, hfound⟩ :=
        ih fun scope h => hscopes scope (List.mem_cons_of_mem _ h)
      cases howner : fieldOwner? scope with
      | none =>
        have hfield : ∀ e, ¬ s.index.IsField name scope e := by
          intro e he
          obtain ⟨f, -, -, howner'⟩ := (Index.isField_iff he.1).mp he
          rw [howner] at howner'
          cases howner'
        exact ⟨outcome, .outward hnone hfield hrefers, hmem, by simpa using hfound⟩
      | some owner =>
        cases hf : s.declarations.fieldOf? owner name with
        | some f =>
          obtain ⟨e, he, hid, hfirst⟩ := isFirstField_of_fieldOf? howner hf
          exact ⟨some e, .toField outer hnone hfirst, by simpa using he, by simp [hf, hid]⟩
        | none =>
          have hfield := not_isField_of_fieldOf? howner hf
          exact ⟨outcome, .outward hnone hfield hrefers, hmem, by simpa [hf] using hfound⟩

end Snapshot

namespace Lookup

/-- In a laid out document the name of a variable resolves to the one thing that it refers to,
or to nothing. -/
theorem lexical_refersTo {s : Snapshot} (hl : s.index.LaidOut) (hn : s.index.NamesFirst)
    (auxiliary : List Snapshot) {e : Entry} {name : String} (hkind : e.kind = .variableRef name)
    {range : Range} (hrange : e.range = some range)
    (hnot : s.index.declaringStatement? e.id = none) :
    (∃! outcome, s.index.RefersTo name range.start (s.index.scopes e.id) outcome) ∧
    (∀ target, s.index.RefersTo name range.start (s.index.scopes e.id) (some target) →
      ∃ d, s.definitionOf? target = some d ∧ lexical ⟨s, auxiliary, e⟩ = .found d) ∧
    (s.index.RefersTo name range.start (s.index.scopes e.id) none →
      lexical ⟨s, auxiliary, e⟩ = .notFound .nodeNotFound) := by
  have hscopes : ∀ scope ∈ s.index.scopes e.id, scope ∈ s.index.entries :=
    fun scope h => Index.mem_of_mem_ancestors (List.mem_of_mem_filter h)
  obtain ⟨outcome, hrefers, hmem, hfound⟩ :=
    Snapshot.exists_refersTo hl hn name range.start hscopes
  have hdeclares : s.index.declares e = false := by
    simp [Index.declares, Index.declarer?, hkind, Kind.isDeclaration, hnot]
  have htarget : lexicalTarget? ⟨s, auxiliary, e⟩ = some (outcome.map Entry.id) := by
    rw [← hfound]
    simp [lexicalTarget?, hdeclares, hkind, position, Entry.start?, hrange, Snapshot.variableFor?]
  refine ⟨⟨outcome, hrefers, fun other hother => hother.unique hrefers⟩, ?_, ?_⟩
  · intro target htargets
    obtain rfl := hrefers.unique htargets
    have hfor : s.variableFor? e.id name range.start = some target.id := hfound
    obtain ⟨d, hdef, -⟩ := Snapshot.definition_of_variableFor? hfor
    have hof := hdef
    rw [Snapshot.definitionFor?_of_mem (hmem target rfl)] at hof
    refine ⟨d, hof, ?_⟩
    simp [lexical, htarget, hdef, Outcome.ofOption]
  · intro hnothing
    obtain rfl := hrefers.unique hnothing
    simp [lexical, htarget, Outcome.ofOption]

/-- A class with a field `size` and a method with a parameter `size`. The body uses the name,
declares a variable of the name and uses the name again. -/
private def crate : Snapshot :=
  .ofParsed (.clean ⟨⟨"file:///crate.groovy"⟩, 1⟩
    ⟨⟨0⟩, .moduleRoot, none,
      [⟨⟨1⟩, .classDecl "Crate" (some (.ofCorners 0 6 0 11)) false, some (.ofCorners 0 0 5 1),
        [⟨⟨2⟩, .fieldDecl "size" (some (.ofCorners 1 6 1 10)) none, some (.ofCorners 1 2 1 10), []⟩,
        ⟨⟨3⟩, .methodDecl "fill" none none false, some (.ofCorners 2 2 4 3),
          [⟨⟨4⟩, .parameter "size" (some (.ofCorners 2 15 2 19)) none false,
            some (.ofCorners 2 11 2 19), []⟩,
          ⟨⟨5⟩, .block, some (.ofCorners 2 21 4 3),
            [⟨⟨6⟩, .variableRef "size", some (.ofCorners 3 4 3 8), []⟩,
            ⟨⟨7⟩, .declaration none, some (.ofCorners 3 10 3 22),
              [⟨⟨8⟩, .variableRef "size", some (.ofCorners 3 14 3 18), []⟩]⟩,
            ⟨⟨9⟩, .variableRef "size", some (.ofCorners 3 24 3 28), []⟩]⟩]⟩]⟩]⟩) 0

private def crateUse (node col : Nat) : Entry :=
  ⟨⟨node⟩, .variableRef "size", some (.ofCorners 3 col 3 (col + 4)), [],
    [⟨5⟩, ⟨3⟩, ⟨1⟩, ⟨0⟩]⟩

private theorem laidOut_crate : crate.index.LaidOut where
  within := by decide
  ordered := by decide

/-- Before the variable is declared its name refers to the parameter, and behind the declaration it
refers to the variable. -/
theorem lexical_refersTo_crate :
    crate.index.LaidOut ∧ crate.index.NamesFirst ∧
    (∃ target, crate.index.RefersTo "size" ⟨3, 4⟩ (crate.index.scopes ⟨6⟩) (some target) ∧
      target.id = ⟨4⟩) ∧
    (∃ target, crate.index.RefersTo "size" ⟨3, 24⟩ (crate.index.scopes ⟨9⟩) (some target) ∧
      target.id = ⟨8⟩) := by
  have hn : crate.index.NamesFirst := by decide
  have huse (node col target : Nat)
      (hnot : crate.index.declaringStatement? ⟨node⟩ = none)
      (hfound : ∃ d, lexical ⟨crate, [], crateUse node col⟩ = .found d ∧ d.node = ⟨target⟩) :
      ∃ e, crate.index.RefersTo "size" ⟨3, col⟩ (crate.index.scopes ⟨node⟩) (some e) ∧
        e.id = ⟨target⟩ := by
    obtain ⟨d, hlexical, hnode⟩ := hfound
    obtain ⟨⟨outcome, hrefers, -⟩, hsome, hnone⟩ :=
      lexical_refersTo (e := crateUse node col) laidOut_crate hn [] rfl rfl hnot
    cases outcome with
    | none =>
      rw [hnone hrefers] at hlexical
      cases hlexical
    | some e =>
      obtain ⟨d', hdef, hlexical'⟩ := hsome e hrefers
      rw [hlexical'] at hlexical
      cases hlexical
      exact ⟨e, hrefers, (Snapshot.definitionOf?_eq_some hdef).2.2.1.symm.trans hnode⟩
  refine ⟨laidOut_crate, hn, huse 6 4 4 (by decide) ⟨_, rfl, rfl⟩, ?_⟩
  exact huse 9 24 8 (by decide) ⟨_, rfl, rfl⟩

end Lookup

end GroovyIndex
