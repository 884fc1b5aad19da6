import Mathlib.Data.List.Perm.Basic
import Mathlib.Data.List.Nodup
import GroovyIndex.Proofs.Index
import GroovyIndex.Tree.Build

/-!
# Built trees

Each call of a builder takes over some nodes built before and makes a new one. The nodes not taken
over form a forest, to which a call adds just the nodes with the identities that it hands out.
These are distinct until the counter wraps around, so an index drops nothing.
-/

namespace GroovyIndex

namespace Node

theorem forestPreorder_eq_flatMap (f : Forest) : forestPreorder f = f.flatMap preorder := by
  induction f with
  | nil => rfl
  | cons n rest ih => rw [forestPreorder, List.flatMap_cons, ih]

theorem forestPreorder_append (f g : Forest) :
    forestPreorder (f ++ g) = forestPreorder f ++ forestPreorder g := by
  simp only [forestPreorder_eq_flatMap, List.flatMap_append]

/-- Forests of the same trees have the same nodes. -/
theorem forestPreorder_perm {f g : Forest} (h : f.Perm g) :
    (forestPreorder f).Perm (forestPreorder g) := by
  simp only [forestPreorder_eq_flatMap]
  exact h.flatMap_right preorder

theorem length_forestPreorder (f : Forest) : (forestPreorder f).length = forestSize f := by
  induction f using Forest.induction with
  | nil => rfl
  | cons n rest ihChildren ihRest =>
    have hsize : n.size = forestSize n.children + 1 := by cases n; rw [size]
    rw [forestPreorder_cons, List.length_cons, List.length_append, ihChildren, ihRest, forestSize,
      hsize]
    omega

end Node

/-! ### Calls of the builder -/

/-- A call of the builder. The nodes among its arguments are taken over. -/
inductive BuildCall where
  | leaf (kind : Kind) (range : Option Range)
  | branch (kind : Kind) (range : Option Range) (children : List Node)
  | moduleRoot (range : Option Range) (statements : List Node)
  | variableRef (name : String) (range : Range)
  | classRef (name : String) (range : Range)
  | literal (kind : Literal) (range : Range)
  | declaration (name : String) (nameRange range : Range) (typeName : Option String)
      (init : Option Node)
  | parameter (name : String) (range : Range) (typeName : Option String)
  | block (range : Range) (statements : List Node)
  | method (name : String) (nameRange range : Range) (returnType : Option String)
      (parameters : List Node) (body : Node)
  | constructor (name : String) (nameRange range : Range) (parameters : List Node) (body : Node)
  | classDecl (name : String) (nameRange range : Range) (members : List Node)
  | field (name : String) (nameRange range : Range) (typeName : Option String) (init : Option Node)
  | property (name : String) (nameRange range : Range) (typeName : Option String)
  | call (name : String) (nameRange range : Range) (receiver : Option Node) (argsRange : Range)
      (args : List Node)
  | propertyRef (name : String) (nameRange range : Range) (object : Node)
  | statement (expression : Node)

namespace BuildCall

/-- What the builder does at the call. -/
def make : BuildCall → Build Node
  | leaf kind range => Build.leaf kind range
  | branch kind range children => Build.branch kind range children
  | moduleRoot range statements => Build.moduleRoot range statements
  | variableRef name range => Build.variableRef name range
  | classRef name range => Build.classRef name range
  | literal kind range => Build.literal kind range
  | declaration name nameRange range typeName init =>
    Build.declaration name nameRange range typeName init
  | parameter name range typeName => Build.parameter name range typeName
  | block range statements => Build.block range statements
  | method name nameRange range returnType parameters body =>
    Build.method name nameRange range returnType parameters body
  | constructor name nameRange range parameters body =>
    Build.constructor name nameRange range parameters body
  | classDecl name nameRange range members => Build.classDecl name nameRange range members
  | field name nameRange range typeName init => Build.field name nameRange range typeName init
  | property name nameRange range typeName => Build.property name nameRange range typeName
  | call name nameRange range receiver argsRange args =>
    Build.call name nameRange range receiver argsRange args
  | propertyRef name nameRange range object => Build.propertyRef name nameRange range object
  | statement expression => Build.statement expression

/-- The nodes that the call takes over. -/
def operands : BuildCall → List Node
  | branch _ _ nodes | moduleRoot _ nodes | block _ nodes | classDecl _ _ _ nodes => nodes
  | declaration _ _ _ _ init | field _ _ _ _ init => init.toList
  | method _ _ _ _ parameters body | constructor _ _ _ parameters body => parameters ++ [body]
  | call _ _ _ receiver _ args => receiver.toList ++ args
  | propertyRef _ _ _ node | statement node => [node]
  | leaf .. | variableRef .. | classRef .. | literal .. | parameter .. | property .. => []

/-- The number of identities that the call takes: a declaration makes its variable as well, and a
call its argument list. -/
def idCount : BuildCall → Nat
  | declaration .. | call .. => 2
  | _ => 1

end BuildCall

/-! ### One call -/

namespace Build

/-- The identities that a builder hands out from a count on. -/
def idsFrom (start count : Nat) : List NodeId :=
  (List.range' start count).map fun i => ⟨(UInt32.ofNat i).toNat⟩

/-- A node was made of the operands with so many new identities, each on one new node, and keeps the
nodes of the operands. -/
structure Made (start count : Nat) (operands : Forest) (result : Node × UInt32) : Prop where
  counter : result.2 = UInt32.ofNat (start + count)
  ids : (result.1.preorder.map Node.id).Perm
    (idsFrom start count ++ (Node.forestPreorder operands).map Node.id)
  keeps : Node.forestPreorder operands ⊆ result.1.preorder

theorem made_branch (start : Nat) (kind : Kind) (range : Option Range) (children : List Node) :
    Made start 1 children ((branch kind range children).run (UInt32.ofNat start)) where
  counter := (UInt32.ofNat_add start 1).symm
  ids := by
    rw [Node.preorder_eq_cons]
    exact .refl _
  keeps := by
    rw [Node.preorder_eq_cons]
    exact List.subset_cons_self _ _

/-- A node that is made first, and then put among the children of another. -/
theorem made_branch_around (start : Nat) (kind kind' : Kind) (range range' : Option Range)
    (children before after : List Node) :
    Made start 2 (before ++ children ++ after) ((do
      let inner ← branch kind range children
      branch kind' range' (before ++ inner :: after) : Build Node).run (UInt32.ofNat start)) := by
  have hnext : UInt32.ofNat (start + 1) = UInt32.ofNat start + 1 := UInt32.ofNat_add start 1
  -- The new nodes: the outer one in front, the inner one among the nodes below it.
  have hnodes : Node.forestPreorder
        (before ++ ⟨⟨(UInt32.ofNat start).toNat⟩, kind, range, children⟩ :: after) =
      Node.forestPreorder before ++ ⟨⟨(UInt32.ofNat start).toNat⟩, kind, range, children⟩ ::
        (Node.forestPreorder children ++ Node.forestPreorder after) := by
    rw [Node.forestPreorder_append, Node.forestPreorder_cons]
  refine ⟨?_, ?_, ?_⟩
  · change UInt32.ofNat start + 1 + 1 = UInt32.ofNat (start + 1 + 1)
    rw [UInt32.ofNat_add (start + 1) 1, hnext]
    rfl
  · rw [Node.preorder_eq_cons]
    change (_ :: (Node.forestPreorder (before ++ _ :: after)).map Node.id).Perm _
    rw [hnodes]
    simp only [idsFrom, hnext, Node.forestPreorder_append, List.map_append, List.map_cons,
      List.map_nil, List.range'_succ, List.range'_zero, List.append_assoc, List.cons_append,
      List.nil_append]
    exact (List.perm_middle.cons _).trans (.swap _ _ _)
  · rw [Node.preorder_eq_cons]
    change _ ⊆ _ :: Node.forestPreorder (before ++ _ :: after)
    rw [hnodes, Node.forestPreorder_append, Node.forestPreorder_append]
    intro n hn
    simp only [List.mem_append, List.mem_cons] at hn ⊢
    tauto

end Build

theorem BuildCall.made (c : BuildCall) (start : Nat) :
    Build.Made start c.idCount c.operands (c.make.run (UInt32.ofNat start)) := by
  cases c with
  | declaration name nameRange range typeName init =>
    exact Build.made_branch_around start _ _ _ _ [] [] init.toList
  | call name nameRange range receiver argsRange args =>
    have h := Build.made_branch_around start .argumentList
      (.call name (some nameRange) receiver.isNone) (some argsRange) (some range) args
      receiver.toList []
    rwa [List.append_nil] at h
  | _ => exact Build.made_branch start _ _ _

/-! ### Calls in a row -/

namespace Build

/-- Calls in a row from a fresh builder, with the nodes built, those not taken over yet, and the
counter. No node is taken over twice. -/
inductive Run : List BuildCall → List Node → Forest → UInt32 → Prop where
  | start : Run [] [] [] 0
  | call {calls : List BuildCall} {built : List Node} {owned : Forest} {next : UInt32}
      (before : Run calls built owned next) (c : BuildCall) (rest : Forest)
      (owns : owned.Perm (c.operands ++ rest)) :
      Run (calls ++ [c]) (built ++ [(c.make.run next).1]) ((c.make.run next).1 :: rest)
        (c.make.run next).2

/-- The number of identities that calls take. -/
def idCount : List BuildCall → Nat
  | [] => 0
  | c :: rest => c.idCount + idCount rest

variable {calls : List BuildCall} {built : List Node} {owned : Forest} {next : UInt32}

theorem idCount_append (calls : List BuildCall) (c : BuildCall) :
    idCount (calls ++ [c]) = idCount calls + c.idCount := by
  induction calls with
  | nil => simp [idCount]
  | cons first rest ih => rw [List.cons_append, idCount, idCount, ih, Nat.add_assoc]

theorem idsFrom_append (count more : Nat) :
    idsFrom 0 count ++ idsFrom count more = idsFrom 0 (count + more) := by
  rw [idsFrom, idsFrom, idsFrom, ← List.map_append, ← List.range'_append_1, Nat.zero_add]

theorem Run.next_eq (h : Run calls built owned next) : next = UInt32.ofNat (idCount calls) := by
  induction h with
  | start => rfl
  | call before c rest owns ih =>
    rw [ih, (c.made _).counter, idCount_append]

/-- The identities in the forest are those handed out, each on one node. -/
theorem Run.ids_perm (h : Run calls built owned next) :
    ((Node.forestPreorder owned).map Node.id).Perm (idsFrom 0 (idCount calls)) := by
  induction h with
  | start => exact .refl _
  | @call calls built owned next before c rest owns ih =>
    rw [before.next_eq, Node.forestPreorder, List.map_append, idCount_append, ← idsFrom_append]
    have howned : ((Node.forestPreorder c.operands).map Node.id ++
        (Node.forestPreorder rest).map Node.id).Perm (idsFrom 0 (idCount calls)) := by
      rw [← List.map_append, ← Node.forestPreorder_append]
      exact ((Node.forestPreorder_perm owns).symm.map Node.id).trans ih
    refine ((c.made _).ids.append_right _).trans ?_
    rw [List.append_assoc]
    exact (howned.append_left _).trans List.perm_append_comm

/-- Every node that was ever built is in the forest. -/
theorem Run.mem_forestPreorder (h : Run calls built owned next) {n : Node} (hn : n ∈ built) :
    n ∈ Node.forestPreorder owned := by
  induction h with
  | start => cases hn
  | @call calls built owned next before c rest owns ih =>
    rw [Node.forestPreorder, List.mem_append]
    rcases List.mem_append.mp hn with hn | hn
    · have hmem := (Node.forestPreorder_perm owns).subset (ih hn)
      rw [Node.forestPreorder_append, List.mem_append] at hmem
      rw [before.next_eq]
      exact hmem.imp_left fun hn => (c.made _).keeps hn
    · left
      rw [List.mem_singleton.mp hn, Node.preorder_eq_cons]
      exact List.mem_cons_self

/-- The identities are distinct until the counter wraps around. -/
theorem nodup_idsFrom {count : Nat} (h : count ≤ UInt32.size) : (idsFrom 0 count).Nodup := by
  apply List.Nodup.map_on _ List.nodup_range'
  intro i hi j hj hij
  rw [List.mem_range'_1] at hi hj
  have hval : (UInt32.ofNat i).toNat = (UInt32.ofNat j).toNat := congrArg NodeId.val hij
  rwa [UInt32.toNat_ofNat_of_lt' (by omega), UInt32.toNat_ofNat_of_lt' (by omega)] at hval

/-- Until the counter wraps around, no two nodes built have the same identity, and the index of each
lists all of its nodes. -/
theorem Run.indexed_whole (h : Run calls built owned next) (hfew : idCount calls < UInt32.size) :
    (∀ n ∈ built, n ∈ Node.forestPreorder owned) ∧
    ((Node.forestPreorder owned).map Node.id).Nodup ∧
    ∀ n ∈ built,
      (Index.ofTree n).entries.map (fun e => (e.id, e.kind, e.range, e.children)) =
        n.preorder.map
          (fun m => (m.id, m.kind, m.range.filter (!·.isInverted), m.children.map Node.id)) ∧
      (Index.ofTree n).size = n.size := by
  have hnodup : ((Node.forestPreorder owned).map Node.id).Nodup :=
    h.ids_perm.nodup_iff.mpr (nodup_idsFrom (Nat.le_of_lt hfew))
  refine ⟨fun n => h.mem_forestPreorder, hnodup, ?_⟩
  intro n hn
  have hids : (n.preorder.map Node.id).Nodup :=
    hnodup.sublist ((Node.preorder_sublist_of_mem (h.mem_forestPreorder hn)).map Node.id)
  have hcontent := (Index.ofTree n).map_content_entries.trans (Node.map_content_pruned hids)
  refine ⟨hcontent, ?_⟩
  have hlength := congrArg List.length hcontent
  rw [List.length_map, List.length_map, ← Node.forestPreorder_singleton, Node.length_forestPreorder,
    Node.forestSize] at hlength
  exact hlength

/-! The statement `def note = book.add(1)`, built from the inside out. -/

private def one : Node := ⟨⟨0⟩, .literal .number, some (.ofCorners 0 20 0 21), []⟩

private def book : Node := ⟨⟨1⟩, .variableRef "book", some (.ofCorners 0 11 0 15), []⟩

private def adding : Node :=
  ⟨⟨3⟩, .call "add" (some (.ofCorners 0 16 0 19)) false, some (.ofCorners 0 11 0 22),
    [book, ⟨⟨2⟩, .argumentList, some (.ofCorners 0 19 0 22), [one]⟩]⟩

private def note : Node :=
  ⟨⟨5⟩, .declaration none, some (.ofCorners 0 0 0 22),
    [⟨⟨4⟩, .variableRef "note", some (.ofCorners 0 4 0 8), []⟩, adding]⟩

private def noteScript : Node := ⟨⟨6⟩, .moduleRoot, none, [note]⟩

private def noteCalls : List BuildCall :=
  [.literal .number (.ofCorners 0 20 0 21), .variableRef "book" (.ofCorners 0 11 0 15),
    .call "add" (.ofCorners 0 16 0 19) (.ofCorners 0 11 0 22) (some book) (.ofCorners 0 19 0 22)
      [one],
    .declaration "note" (.ofCorners 0 4 0 8) (.ofCorners 0 0 0 22) none (some adding),
    .moduleRoot none [note]]

private theorem run_note : Run noteCalls [one, book, adding, note, noteScript] [noteScript] 7 :=
  Run.start
    |>.call (.literal .number (.ofCorners 0 20 0 21)) [] (.refl _)
    |>.call (.variableRef "book" (.ofCorners 0 11 0 15)) [one] (.refl _)
    |>.call (.call "add" (.ofCorners 0 16 0 19) (.ofCorners 0 11 0 22) (some book)
      (.ofCorners 0 19 0 22) [one]) [] (.refl _)
    |>.call (.declaration "note" (.ofCorners 0 4 0 8) (.ofCorners 0 0 0 22) none (some adding)) []
      (.refl _)
    |>.call (.moduleRoot none [note]) [] (.refl _)

/-- Children were made before their parents, and the index still lists parents first: the seven
nodes of the script, each once. -/
theorem Run.indexed_whole_note :
    Run noteCalls [one, book, adding, note, noteScript] [noteScript] 7 ∧
    (Index.ofTree noteScript).entries.map (fun e => e.id.val) = [6, 5, 4, 3, 1, 2, 0] ∧
    (Index.ofTree noteScript).size = 7 := by
  obtain ⟨-, -, hindex⟩ := run_note.indexed_whole (by decide)
  obtain ⟨hcontent, hsize⟩ := hindex noteScript (by simp)
  refine ⟨run_note, ?_, hsize.trans (by decide)⟩
  have hids := congrArg (List.map fun content => content.1.val) hcontent
  rwa [List.map_map, List.map_map] at hids

end Build

end GroovyIndex
