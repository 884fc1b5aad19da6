import GroovyIndex.Proofs.Recorded
import GroovyIndex.Proofs.RenamePlan
import GroovyIndex.Query.CallHelp

/-!
# Help at a call

What help says at a position is compared with the trees. The overloads of what is called, or the
constructors of a class, are nodes of the declaring document in pre-order, and the node that the
call resolves to is one of them. Of the position only the arguments that end before it count.
-/

namespace GroovyIndex

namespace Kind

/-- The node is a constructor. -/
def isConstructor : Kind → Bool
  | methodDecl _ _ _ isConstructor => isConstructor
  | _ => false

end Kind

/-! ### Signatures in a tree -/

namespace Index

/-- The signature that a node spells out, if it is a method: its name, its return type and the
parameters right below it. -/
def signature? (idx : Index) (e : Entry) : Option SignatureInfo :=
  match e.kind with
  | .methodDecl name _ returnType _ =>
    some ⟨name, returnType, (idx.children e.id).filterMap Entry.parameterInfo?⟩
  | _ => none

/-- The methods and constructors of a name that have a place, in pre-order. -/
def methodsNamed (idx : Index) (name : String) : List Entry :=
  idx.placedWhere fun e => e.kind.isMethod && e.name? == some name

/-- The constructors that have a place and stand in a class, in pre-order. -/
def constructorsOf (idx : Index) (owner : NodeId) : List Entry :=
  idx.placedWhere fun e =>
    e.kind.isMethod && (e.kind.isConstructor && idx.owner? e.id == some owner)

variable {idx : Index}

/-- The record of a method has the signature that its node spells out. -/
theorem signature?_of_methodDecl? {e : Entry} {m : MethodDecl} (h : idx.methodDecl? e = some m) :
    idx.signature? e = some m.signature := by
  obtain ⟨range, -, hm⟩ := Option.bind_eq_some_iff.mp h
  rw [signature?]
  cases hk : e.kind <;> simp [hk] at hm
  rw [← hm]
  rfl

/-- Whose constructor a record is can be read off its node. -/
theorem constructs_of_methodDecl? {e : Entry} {m : MethodDecl} (h : idx.methodDecl? e = some m)
    (owner : NodeId) :
    m.constructs owner = (e.kind.isConstructor && idx.owner? e.id == some owner) := by
  obtain ⟨range, -, hm⟩ := Option.bind_eq_some_iff.mp h
  cases hk : e.kind <;> simp [hk] at hm
  rw [← hm]
  rfl

end Index

namespace Snapshot

/-- The overloads of a name are the records of its methods in the tree, one by one. -/
theorem map_methodsNamed (s : Snapshot) (name : String) :
    (s.declarations.methodsNamed name).map some =
      (s.index.methodsNamed name).map s.index.methodDecl? := by
  rw [s.declarations_eq]
  exact s.index.makes_methodDecl?.map_some_filter
    (fun e m hm => by simp [(Index.name?_of_methodDecl? hm).2.1]) s.index.entries

/-- The constructors of a class are the records of those in the tree, one by one. -/
theorem map_constructorsOf (s : Snapshot) (owner : NodeId) :
    (s.declarations.constructorsOf owner).map some =
      (s.index.constructorsOf owner).map s.index.methodDecl? := by
  rw [s.declarations_eq]
  exact s.index.makes_methodDecl?.map_some_filter
    (fun e m hm => Index.constructs_of_methodDecl? hm owner) s.index.entries

/-- Records of nodes, one by one, have the signatures of the nodes, one by one. -/
theorem map_signature {idx : Index} {records : List MethodDecl} {nodes : List Entry}
    (h : records.map some = nodes.map idx.methodDecl?) :
    (records.map MethodDecl.signature).map some = nodes.map idx.signature? := by
  have hrecords := congrArg (List.map (Option.map MethodDecl.signature)) h
  rw [List.map_map, List.map_map] at hrecords
  rw [List.map_map]
  refine hrecords.trans (List.map_congr_left ?_)
  intro e he
  have hmem : idx.methodDecl? e ∈ records.map some := by
    rw [h]
    exact List.mem_map_of_mem he
  obtain ⟨m, -, hm⟩ := List.mem_map.mp hmem
  rw [Function.comp_apply, ← hm, Index.signature?_of_methodDecl? hm.symm]
  rfl

/-! ### What is offered -/

/-- The signatures offered for a definition, and the active one: all overloads with that of the
declaring node, the constructors of a class, or the empty signature if it has none. -/
inductive Offers (s : Snapshot) (target : Definition) : List SignatureInfo → Nat → Prop where
  | overloads {signatures : List SignatureInfo} {active : Nat} (declaring : Entry)
      (kind : target.kind = .method ∨ target.kind = .constructor)
      (all : signatures.map some = (s.index.methodsNamed target.name).map s.index.signature?)
      (listed : (s.index.methodsNamed target.name)[active]? = some declaring)
      (declares : declaring.id = target.node)
      (current : signatures[active]? = s.index.signature? declaring) :
      Offers s target signatures active
  | constructors {signatures : List SignatureInfo} (kind : target.kind = .classDecl)
      (declared : s.index.constructorsOf target.node ≠ [])
      (all : signatures.map some = (s.index.constructorsOf target.node).map s.index.signature?) :
      Offers s target signatures 0
  | plain (kind : target.kind = .classDecl) (undeclared : s.index.constructorsOf target.node = []) :
      Offers s target [⟨target.name, none, []⟩] 0

variable {s : Snapshot} {target : Definition} {signatures : List SignatureInfo} {active : Nat}

/-- One of the signatures offered is active. -/
theorem Offers.active_lt (h : s.Offers target signatures active) : active < signatures.length := by
  cases h with
  | overloads declaring kind all listed =>
    have hlength := congrArg List.length all
    rw [List.length_map, List.length_map] at hlength
    rw [hlength]
    exact (List.getElem?_eq_some_iff.mp listed).1
  | constructors kind declared all =>
    have hlength := congrArg List.length all
    rw [List.length_map, List.length_map] at hlength
    rw [hlength]
    exact List.length_pos_iff.mpr declared
  | plain => exact Nat.one_pos

/-- A method or constructor of the document stands among the overloads of its name. -/
private theorem exists_active (hdef : s.definitionFor? target.node = some target)
    (hkind : target.kind = .method ∨ target.kind = .constructor) :
    ∃ active m declaring,
      (s.declarations.methodsNamed target.name).findIdx? (·.node == target.node) = some active ∧
      (s.declarations.methodsNamed target.name)[active]? = some m ∧
      (s.index.methodsNamed target.name)[active]? = some declaring ∧
      s.index.methodDecl? declaring = some m ∧ m.node = target.node := by
  obtain ⟨record, hmem, hrecord⟩ := exists_mem_methods_of_definitionFor? hdef hkind
  have hnamed : record ∈ s.declarations.methodsNamed target.name := by
    rw [← hrecord]
    exact List.mem_filter.mpr ⟨hmem, beq_self_eq_true _⟩
  have hfound : ((s.declarations.methodsNamed target.name).findIdx?
      (·.node == target.node)).isSome = true := by
    rw [List.findIdx?_isSome, List.any_eq_true]
    refine ⟨record, hnamed, ?_⟩
    rw [← hrecord]
    exact beq_self_eq_true _
  obtain ⟨active, hactive⟩ := Option.isSome_iff_exists.mp hfound
  obtain ⟨hlt, hnode, -⟩ := List.findIdx?_eq_some_iff_getElem.mp hactive
  have hm := List.getElem?_eq_getElem hlt
  -- The records and the nodes of the name stand in the same places.
  have hplace := congrArg (·[active]?) (s.map_methodsNamed target.name)
  simp only [List.getElem?_map, hm, Option.map_some] at hplace
  obtain ⟨declaring, hdeclaring, hdecl⟩ := Option.map_eq_some_iff.mp hplace.symm
  exact ⟨active, _, declaring, hactive, hm, hdeclaring, hdecl, beq_iff_eq.mp hnode⟩

/-- What the records offer for a definition of the document is what the tree has. -/
theorem offers_of_signaturesOf? (hdef : s.definitionFor? target.node = some target)
    (h : s.declarations.signaturesOf? target = some (signatures, active)) :
    s.Offers target signatures active := by
  unfold Declarations.signaturesOf? at h
  have hmethod (hkind : target.kind = .method ∨ target.kind = .constructor)
      (h : some ((s.declarations.methodsNamed target.name).map MethodDecl.signature,
        ((s.declarations.methodsNamed target.name).findIdx? (·.node == target.node)).getD 0) =
          some (signatures, active)) : s.Offers target signatures active := by
    obtain ⟨i, m, declaring, hfound, hm, hdeclaring, hdecl, hnode⟩ := exists_active hdef hkind
    rw [hfound] at h
    cases h
    refine .overloads declaring hkind (map_signature (s.map_methodsNamed _)) hdeclaring ?_ ?_
    · rw [← (Index.name?_of_methodDecl? hdecl).1, hnode]
    · rw [Option.getD_some, List.getElem?_map, hm, Index.signature?_of_methodDecl? hdecl]
      rfl
  split at h
  · next hkind => exact hmethod (Or.inl hkind) h
  · next hkind => exact hmethod (Or.inr hkind) h
  · next hkind =>
    have hnodes := s.map_constructorsOf target.node
    split at h
    · next hnone =>
      cases h
      rw [hnone] at hnodes
      exact .plain hkind (List.map_eq_nil_iff.mp hnodes.symm)
    · next hsome =>
      cases h
      refine .constructors hkind ?_ (map_signature hnodes)
      intro hnil
      rw [hnil] at hnodes
      exact hsome (List.map_eq_nil_iff.mp hnodes)
  · cases h

end Snapshot

/-- Signatures are offered for methods, constructors and classes, and for nothing else. -/
theorem Declarations.exists_signaturesOf?_iff (d : Declarations) (target : Definition) :
    (∃ offered, d.signaturesOf? target = some offered) ↔
      target.kind = .method ∨ target.kind = .constructor ∨ target.kind = .classDecl := by
  unfold signaturesOf?
  constructor
  · rintro ⟨offered, h⟩
    split at h
    · next hkind => exact Or.inl hkind
    · next hkind => exact Or.inr (Or.inl hkind)
    · next hkind => exact Or.inr (Or.inr hkind)
    · cases h
  · rintro (hkind | hkind | hkind)
    · exact ⟨_, by rw [hkind]⟩
    · exact ⟨_, by rw [hkind]⟩
    · rw [hkind]
      cases d.constructorsOf target.node with
      | nil => exact ⟨_, rfl⟩
      | cons first rest => exact ⟨_, rfl⟩

/-! ### Help -/

/-- The arguments of a call: the nodes right below its first argument list, and none if it has no
such list. -/
inductive Index.HasArguments (idx : Index) (call : Entry) : List Entry → Prop where
  | listed {list : Entry} {before behind : List Entry}
      (below : idx.children call.id = before ++ list :: behind)
      (kind : list.kind = .argumentList) (first : ∀ e ∈ before, e.kind ≠ .argumentList) :
      HasArguments idx call (idx.children list.id)
  | unlisted (none : ∀ e ∈ idx.children call.id, e.kind ≠ .argumentList) :
      HasArguments idx call []

theorem Index.hasArguments (idx : Index) (call : Entry) :
    idx.HasArguments call (idx.arguments call) := by
  unfold arguments
  split
  · next list hfind =>
    obtain ⟨hkind, before, behind, hbelow, hfirst⟩ := List.find?_eq_some_iff_append.mp hfind
    refine .listed hbelow (of_decide_eq_true hkind) ?_
    intro e he
    simpa using hfirst e he
  · next hnone =>
    refine .unlisted ?_
    intro e he
    simpa using List.find?_eq_none.mp hnone e he

/-- An earlier position has no more arguments behind it. -/
theorem Index.argumentsBefore_mono (idx : Index) (call : Entry) {p q : Position} (h : p ≤ q) :
    idx.argumentsBefore call p ≤ idx.argumentsBefore call q := by
  apply List.countP_mono_left
  intro arg _ hbefore
  obtain ⟨range, hrange, hlt⟩ := (Option.any_eq_true _ _).mp hbefore
  apply (Option.any_eq_true _ _).mpr
  refine ⟨range, hrange, decide_eq_true ?_⟩
  have hlt := of_decide_eq_true hlt
  rw [Position.lt_def] at hlt ⊢
  rw [Position.le_def] at h
  omega

namespace Session

variable {s : Session} {pos : Position} {help : SignatureHelp}

/-- A document that the session can see is found again by its name, if names differ. -/
theorem snapshotOf?_of_mem (huris : s.DistinctUris) {owning : Snapshot}
    (hmem : owning ∈ s.snapshot :: s.auxiliary) {d : Definition} (hd : d.uri = owning.uri) :
    s.snapshotOf? d = some owning := by
  have hnodup : ((s.snapshot :: s.auxiliary).map Snapshot.uri).Nodup := huris
  unfold snapshotOf?
  split
  · next hown =>
    rw [List.inj_on_of_nodup_map hnodup hmem List.mem_cons_self (hd.symm.trans hown)]
  · next hother =>
    have hauxiliary : owning ∈ s.auxiliary := by
      rcases List.mem_cons.mp hmem with rfl | hauxiliary
      · exact absurd hd hother
      · exact hauxiliary
    cases hfind : s.auxiliary.find? (·.uri = d.uri) with
    | none =>
      exact absurd hd.symm (by simpa using List.find?_eq_none.mp hfind owning hauxiliary)
    | some found =>
      have huri : found.uri = owning.uri := by
        rw [← hd]
        simpa using List.find?_some hfind
      have hfound := List.mem_cons_of_mem s.snapshot (List.mem_of_find?_eq_some hfind)
      rw [List.inj_on_of_nodup_map hnodup hfound hmem huri]

/-- What a node resolves to is declared in a document that is found by its name. -/
theorem Standard.exists_snapshotOf? (hs : s.Standard) {e : Entry} {d : Definition}
    (h : s.resolve e = .ok d) :
    ∃ owning ∈ s.snapshot :: s.auxiliary, s.snapshotOf? d = some owning ∧
      owning.definitionFor? d.node = some d := by
  obtain ⟨owning, hmem, hdef⟩ := exists_owning_of_resolve hs.chain h
  have huri := (Snapshot.node_of_definitionFor? hdef).2
  exact ⟨owning, hmem, snapshotOf?_of_mem hs.uris hmem huri, hdef⟩

/-- The help at a position of a call, where some signatures are offered and one is active. -/
def helpFor (s : Session) (call : Entry) (pos : Position) (signatures : List SignatureInfo)
    (active : Nat) : SignatureHelp :=
  ⟨signatures, active, min (s.snapshot.index.argumentsBefore call pos)
    ((signatures[active]?.map (·.parameters.length)).getD 0 - 1)⟩

/-- The call around a position. -/
def callAt? (s : Session) (pos : Position) : Option Entry :=
  (s.snapshot.index.entryAt? pos).bind s.snapshot.index.enclosingCall?

/-- There is help exactly where a call stands that resolves to something with signatures. -/
theorem signatureHelp_eq_ok_iff :
    s.signatureHelp pos = .ok help ↔
      ∃ call target owning signatures active, s.callAt? pos = some call ∧
        s.resolve call = .ok target ∧ s.snapshotOf? target = some owning ∧
        owning.declarations.signaturesOf? target = some (signatures, active) ∧
        help = s.helpFor call pos signatures active := by
  constructor
  · intro h
    obtain ⟨e, hat, h⟩ := exists_of_bind_eq_ok h
    split at h
    · next call hcall =>
      obtain ⟨target, htarget, h⟩ := exists_of_bind_eq_ok h
      split at h
      · next owning howning =>
        split at h
        · next signatures active hoffered =>
          refine ⟨call, target, owning, signatures, active, ?_, htarget, howning, hoffered,
            (Except.ok.inj h).symm⟩
          rw [callAt?, entryAt?_of_entryAt hat, Option.bind_some, hcall]
        · cases h
      · cases h
    · cases h
  · rintro ⟨call, target, owning, signatures, active, hcall, htarget, howning, hoffered, rfl⟩
    obtain ⟨e, he, hcall⟩ := Option.bind_eq_some_iff.mp hcall
    simp only [signatureHelp, entryAt, he, hcall, htarget, howning, hoffered, bind, Except.bind]
    rfl

/-- The active signature, and with it the active parameter, is one of those offered. -/
theorem exists_current_helpFor {owning : Snapshot} {target : Definition}
    {signatures : List SignatureInfo} {active : Nat}
    (h : owning.Offers target signatures active) (s : Session) (call : Entry) (pos : Position) :
    ∃ current arguments, signatures[active]? = some current ∧
      s.snapshot.index.HasArguments call arguments ∧
      (s.helpFor call pos signatures active).activeParameter =
        min (arguments.countP fun arg => arg.range.any (·.stop < pos))
          (current.parameters.length - 1) := by
  have hcurrent := List.getElem?_eq_getElem h.active_lt
  refine ⟨_, _, hcurrent, s.snapshot.index.hasArguments call, ?_⟩
  rw [helpFor, hcurrent]
  rfl

/-- The active parameter never goes back while the position moves on. -/
theorem activeParameter_helpFor_mono (s : Session) (call : Entry) {p q : Position} (h : p ≤ q)
    (signatures : List SignatureInfo) (active : Nat) :
    (s.helpFor call p signatures active).activeParameter ≤
      (s.helpFor call q signatures active).activeParameter :=
  min_le_min_right _ (s.snapshot.index.argumentsBefore_mono call h)

/-- Help offers the signatures that the declaring document has; the active parameter is fixed by the
arguments that end before the position. -/
theorem signatureHelp_consistent (s : Session) (hs : s.Standard) :
    (∀ pos help, s.signatureHelp pos = .ok help →
      ∃ call target, s.callAt? pos = some call ∧ s.resolve call = .ok target ∧
        (∃ owning ∈ s.snapshot :: s.auxiliary, owning.definitionFor? target.node = some target ∧
          owning.Offers target help.signatures help.activeSignature) ∧
        help.activeSignature < help.signatures.length ∧
        ∃ current arguments, help.signatures[help.activeSignature]? = some current ∧
          s.snapshot.index.HasArguments call arguments ∧
          help.activeParameter =
            min (arguments.countP fun arg => arg.range.any (·.stop < pos))
              (current.parameters.length - 1)) ∧
    (∀ pos call target, s.callAt? pos = some call → s.resolve call = .ok target →
      ((∃ help, s.signatureHelp pos = .ok help) ↔
        target.kind = .method ∨ target.kind = .constructor ∨ target.kind = .classDecl)) ∧
    (∀ p q call help, p ≤ q → s.callAt? p = some call → s.callAt? q = some call →
      s.signatureHelp p = .ok help →
      ∃ later, s.signatureHelp q = .ok later ∧ later.signatures = help.signatures ∧
        later.activeSignature = help.activeSignature ∧
        help.activeParameter ≤ later.activeParameter) := by
  refine ⟨?_, ?_, ?_⟩
  · intro pos help h
    obtain ⟨call, target, owning, signatures, active, hcall, htarget, howning, hoffered, rfl⟩ :=
      signatureHelp_eq_ok_iff.mp h
    obtain ⟨owning', hmem, howning', hdef⟩ := hs.exists_snapshotOf? htarget
    cases howning.symm.trans howning'
    have hoffers := Snapshot.offers_of_signaturesOf? hdef hoffered
    exact ⟨call, target, hcall, htarget, ⟨owning, hmem, hdef, hoffers⟩, hoffers.active_lt,
      exists_current_helpFor hoffers s call pos⟩
  · intro pos call target hcall htarget
    obtain ⟨owning, -, howning, hdef⟩ := hs.exists_snapshotOf? htarget
    constructor
    · rintro ⟨help, h⟩
      obtain ⟨call', target', owning', signatures, active, hcall', htarget', -, hoffered, -⟩ :=
        signatureHelp_eq_ok_iff.mp h
      cases hcall.symm.trans hcall'
      cases htarget.symm.trans htarget'
      exact (owning'.declarations.exists_signaturesOf?_iff target).mp ⟨_, hoffered⟩
    · intro hkind
      obtain ⟨⟨signatures, active⟩, hoffered⟩ :=
        (owning.declarations.exists_signaturesOf?_iff target).mpr hkind
      exact ⟨_, signatureHelp_eq_ok_iff.mpr
        ⟨call, target, owning, signatures, active, hcall, htarget, howning, hoffered, rfl⟩⟩
  · intro p q call help hpq hp hq h
    obtain ⟨call', target, owning, signatures, active, hcall, htarget, howning, hoffered, rfl⟩ :=
      signatureHelp_eq_ok_iff.mp h
    cases hp.symm.trans hcall
    exact ⟨_, signatureHelp_eq_ok_iff.mpr
      ⟨call, target, owning, signatures, active, hq, htarget, howning, hoffered, rfl⟩, rfl, rfl,
      activeParameter_helpFor_mono s call hpq signatures active⟩

/-- A call with three arguments, one of them a call, and another document that declares what is
called, first with two parameters and then with one. -/
private def paint : Session where
  snapshot := .ofParsed (.clean ⟨⟨"file:///paint.groovy"⟩, 1⟩
    ⟨⟨0⟩, .moduleRoot, none,
      [⟨⟨1⟩, .call "blend" (some (.ofCorners 0 0 0 5)) true, some (.ofCorners 0 0 0 22),
        [⟨⟨2⟩, .argumentList, some (.ofCorners 0 5 0 22),
          [⟨⟨3⟩, .literal .number, some (.ofCorners 0 6 0 7), []⟩,
           ⟨⟨4⟩, .call "mix" (some (.ofCorners 0 9 0 12)) true, some (.ofCorners 0 9 0 18),
            [⟨⟨5⟩, .argumentList, some (.ofCorners 0 12 0 18),
              [⟨⟨6⟩, .literal .number, some (.ofCorners 0 13 0 14), []⟩,
               ⟨⟨7⟩, .literal .number, some (.ofCorners 0 16 0 17), []⟩]⟩]⟩,
           ⟨⟨8⟩, .literal .number, some (.ofCorners 0 20 0 21), []⟩]⟩]⟩]⟩) 0
  auxiliary := [.ofParsed (.clean ⟨⟨"file:///colours.groovy"⟩, 1⟩
    ⟨⟨0⟩, .moduleRoot, none,
      [⟨⟨1⟩, .methodDecl "blend" none (some "int") false, some (.ofCorners 0 0 0 30),
        [⟨⟨2⟩, .parameter "base" none (some "int") false, some (.ofCorners 0 10 0 18), []⟩,
         ⟨⟨3⟩, .parameter "tint" none none true, some (.ofCorners 0 20 0 28), []⟩]⟩,
       ⟨⟨4⟩, .methodDecl "mix" none none false, some (.ofCorners 1 0 1 12), []⟩,
       ⟨⟨5⟩, .methodDecl "blend" none none false, some (.ofCorners 2 0 2 20),
        [⟨⟨6⟩, .parameter "base" none none false, some (.ofCorners 2 10 2 18), []⟩]⟩]⟩) 1]
  chain := .standard
  config := {}

/-- At the end of the first argument no argument ends before the position; behind the inner
call two do. -/
theorem signatureHelp_consistent_paint :
    paint.Standard ∧
    (∃ call arguments, paint.callAt? ⟨0, 7⟩ = some call ∧
      paint.snapshot.index.HasArguments call arguments ∧
      arguments.countP (fun arg => arg.range.any (·.stop < ⟨0, 7⟩)) = 0) ∧
    ∃ help later, paint.signatureHelp ⟨0, 7⟩ = .ok help ∧ paint.signatureHelp ⟨0, 20⟩ = .ok later ∧
      later.signatures = help.signatures ∧
      help.signatures.map (·.parameters.length) = [2, 1] ∧ help.activeSignature = 0 ∧
      help.activeParameter = 0 ∧ later.activeParameter = 1 ∧
      help.activeParameter ≤ later.activeParameter := by
  have hs : paint.Standard := ⟨rfl, by decide⟩
  obtain ⟨hgiven, -, hmoves⟩ := signatureHelp_consistent paint hs
  obtain ⟨call, -, hcall, -, -, -, current, arguments, hcurrent, harguments, hactive⟩ :=
    hgiven ⟨0, 7⟩ _ rfl
  obtain ⟨later, hlater, hsame, -, hle⟩ := hmoves ⟨0, 7⟩ ⟨0, 20⟩ _ _ (by decide) rfl rfl rfl
  refine ⟨hs, ⟨call, arguments, hcall, harguments, ?_⟩, _, later, rfl, hlater, hsame, rfl, rfl, rfl,
    by cases hlater; rfl, hle⟩
  cases hcurrent
  have hnone : 0 = min (arguments.countP fun arg => arg.range.any (·.stop < ⟨0, 7⟩)) 1 := hactive
  omega

end Session

end GroovyIndex
