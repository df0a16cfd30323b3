import Reql.Error
import Reql.Proofs.Fields
import Reql.Term.Basic

/-!
The nodes of a term.

`Term.nodes` lists the nodes of a term in the order in which a reader meets
them. `Term.Lawful` says of a single node that it keeps to the catalog, and a
term is well-formed exactly when all its nodes are lawful. The data at the
leaves can be changed without touching anything else; this is `Term.mapData`.
-/

namespace Reql.Term

/-! ### Induction -/

/-- What holds of data, and of an operation whenever it holds of its
children, holds of all terms. -/
@[elab_as_elim, induction_eliminator]
theorem induction {P : Term → Prop} (datum : ∀ value, P (.datum value))
    (node : ∀ kind args options, (∀ t ∈ args, P t) → (∀ o ∈ options, P o.2) →
      P (.node kind args options)) (t : Term) : P t :=
  @Term.rec P (fun args => ∀ t ∈ args, P t) (fun options => ∀ o ∈ options, P o.2) (fun o => P o.2)
    datum node
    (List.forall_mem_nil _) (fun _ _ h hs => List.forall_mem_cons.mpr ⟨h, hs⟩)
    (List.forall_mem_nil _) (fun _ _ h hs => List.forall_mem_cons.mpr ⟨h, hs⟩)
    (fun _ _ h => h) t

/-! ### Nodes -/

mutual

/-- `t.nodes` are the term itself, then the nodes of its arguments, then those
of its options. -/
def nodes : Term → List Term
  | .datum value => [.datum value]
  | .node kind args options =>
      .node kind args options :: (nodesOfArgs args ++ nodesOfOptions options)

def nodesOfArgs : List Term → List Term
  | [] => []
  | t :: rest => t.nodes ++ nodesOfArgs rest

def nodesOfOptions : List (String × Term) → List Term
  | [] => []
  | (_, t) :: rest => t.nodes ++ nodesOfOptions rest

end

theorem mem_nodesOfArgs {s : Term} {args : List Term} :
    s ∈ nodesOfArgs args ↔ ∃ t ∈ args, s ∈ t.nodes := by
  induction args with
  | nil => simp [nodesOfArgs]
  | cons t rest ih => simp [nodesOfArgs, ih]

theorem mem_nodesOfOptions {s : Term} {options : Fields Term} :
    s ∈ nodesOfOptions options ↔ ∃ o ∈ options, s ∈ o.2.nodes := by
  induction options with
  | nil => simp [nodesOfOptions]
  | cons o rest ih =>
      obtain ⟨name, t⟩ := o
      simp [nodesOfOptions, ih]

@[simp] theorem mem_nodes_datum {s : Term} {value : Datum} :
    s ∈ (datum value).nodes ↔ s = .datum value := by
  simp [nodes]

theorem mem_nodes_node {s : Term} {kind : Kind} {args : List Term} {options : Fields Term} :
    s ∈ (node kind args options).nodes ↔
      s = .node kind args options ∨ (∃ t ∈ args, s ∈ t.nodes) ∨
        ∃ o ∈ options, s ∈ o.2.nodes := by
  rw [nodes, List.mem_cons, List.mem_append, mem_nodesOfArgs, mem_nodesOfOptions]

theorem self_mem_nodes (t : Term) : t ∈ t.nodes := by
  cases t <;> simp [nodes]

/-! ### Lawful nodes -/

/-- `s.Lawful`: the node keeps to the catalog. Its children are not looked at. -/
structure Lawful (s : Term) : Prop where
  /-- Exactly the nodes of kind `datum` carry a datum. -/
  datum_iff : s.datum?.isSome = true ↔ s.kind = .datum
  /-- A datum has no children. -/
  leaf : s.kind = .datum → s.args = [] ∧ s.options = []
  arity : s.kind ≠ .datum → s.kind.signature.arity.contains s.args.length = true
  accepted : s.kind ≠ .datum →
    ∀ name ∈ Fields.names s.options, s.kind.signature.options.accepts name = true
  distinct : Fields.Distinct s.options

theorem lawful_datum (value : Datum) : Lawful (.datum value) where
  datum_iff := by simp [datum?, kind]
  leaf _ := ⟨rfl, rfl⟩
  arity h := absurd rfl h
  accepted h := absurd rfl h
  distinct := Fields.distinct_nil

theorem lawful_node_iff {kind : Kind} {args : List Term} {options : Fields Term} :
    Lawful (.node kind args options) ↔
      kind ≠ .datum ∧ kind.signature.arity.contains args.length = true ∧
        (∀ name ∈ Fields.names options, kind.signature.options.accepts name = true) ∧
        Fields.Distinct options := by
  constructor
  · intro h
    have hkind : kind ≠ .datum := fun e => by simpa [datum?] using h.datum_iff.mpr e
    exact ⟨hkind, h.arity hkind, h.accepted hkind, h.distinct⟩
  · rintro ⟨hkind, harity, haccepted, hdistinct⟩
    exact {
      datum_iff := by simpa [datum?, Term.kind] using hkind
      leaf := fun e => absurd e hkind
      arity := fun _ => harity
      accepted := fun _ => haccepted
      distinct := hdistinct }

/-! ### Well-formed terms -/

theorem wellFormedArgs_iff {args : List Term} :
    WellFormedArgs args ↔ ∀ t ∈ args, t.WellFormed := by
  induction args with
  | nil => simp [WellFormedArgs]
  | cons t rest ih => simp [WellFormedArgs, ih]

theorem wellFormedOptions_iff {options : Fields Term} :
    WellFormedOptions options ↔ ∀ o ∈ options, o.2.WellFormed := by
  induction options with
  | nil => simp [WellFormedOptions]
  | cons o rest ih =>
      obtain ⟨name, t⟩ := o
      simp [WellFormedOptions, ih]

theorem wellFormed_datum (value : Datum) : (datum value).WellFormed := trivial

theorem wellFormed_node_iff {kind : Kind} {args : List Term} {options : Fields Term} :
    (node kind args options).WellFormed ↔
      Lawful (.node kind args options) ∧ (∀ t ∈ args, t.WellFormed) ∧
        ∀ o ∈ options, o.2.WellFormed := by
  rw [WellFormed, wellFormedArgs_iff, wellFormedOptions_iff, lawful_node_iff]
  simp only [and_assoc]

/-- A term is well-formed exactly when each of its nodes is lawful. -/
theorem wellFormed_iff {t : Term} : t.WellFormed ↔ ∀ s ∈ t.nodes, s.Lawful := by
  induction t with
  | datum value =>
      simp only [mem_nodes_datum, forall_eq]
      exact iff_of_true trivial (lawful_datum value)
  | node kind args options ihArgs ihOptions =>
      rw [wellFormed_node_iff]
      constructor
      · rintro ⟨hroot, hargs, hoptions⟩ s hs
        rcases mem_nodes_node.mp hs with rfl | ⟨t, ht, hs⟩ | ⟨o, ho, hs⟩
        · exact hroot
        · exact (ihArgs t ht).mp (hargs t ht) s hs
        · exact (ihOptions o ho).mp (hoptions o ho) s hs
      · intro h
        refine ⟨h _ (self_mem_nodes _), fun t ht => ?_, fun o ho => ?_⟩
        · exact (ihArgs t ht).mpr fun s hs => h s (mem_nodes_node.mpr (.inr (.inl ⟨t, ht, hs⟩)))
        · exact (ihOptions o ho).mpr fun s hs => h s (mem_nodes_node.mpr (.inr (.inr ⟨o, ho, hs⟩)))

theorem WellFormed.arg {t s : Term} (h : t.WellFormed) (hs : s ∈ t.args) : s.WellFormed := by
  cases t with
  | datum value => exact absurd hs List.not_mem_nil
  | node kind args options => exact (wellFormed_node_iff.mp h).2.1 s hs

theorem WellFormed.option {t : Term} {o : String × Term} (h : t.WellFormed)
    (ho : o ∈ t.options) : o.2.WellFormed := by
  cases t with
  | datum value => exact absurd ho List.not_mem_nil
  | node kind args options => exact (wellFormed_node_iff.mp h).2.2 o ho

/-! ### Places in a term -/

def child? (t : Term) : Position → Option Term
  | .argument index => t.arg? index
  | .option name => t.option? name

/-- `t.at? path` is the node at the end of a path of positions, each leading to
a `child?`. -/
def at? : Term → List Position → Option Term
  | t, [] => some t
  | t, position :: path => (t.child? position).bind fun s => s.at? path

theorem nodes_of_child? {t c : Term} {position : Position} (h : t.child? position = some c) :
    ∀ s ∈ c.nodes, s ∈ t.nodes := by
  intro s hs
  cases t with
  | datum d => cases position <;> cases h
  | node kind args options =>
      cases position with
      | argument index =>
          exact mem_nodes_node.mpr (.inr (.inl ⟨c, List.mem_of_getElem? h, hs⟩))
      | option name =>
          obtain ⟨o, ho, rfl⟩ := Fields.exists_mem_of_get? h
          exact mem_nodes_node.mpr (.inr (.inr ⟨o, ho, hs⟩))

theorem mem_nodes_of_at? {path : List Position} {t s : Term} (h : t.at? path = some s) :
    s ∈ t.nodes := by
  induction path generalizing t with
  | nil =>
      obtain rfl := Option.some.inj h
      exact self_mem_nodes t
  | cons position path ih =>
      obtain ⟨c, hc, hs⟩ := Option.bind_eq_some_iff.mp h
      exact nodes_of_child? hc s (ih hs)

/-! ### Changing the data -/

mutual

def mapData (f : Datum → Datum) : Term → Term
  | .datum value => .datum (f value)
  | .node kind args options => .node kind (mapDataArgs f args) (mapDataOptions f options)

def mapDataArgs (f : Datum → Datum) : List Term → List Term
  | [] => []
  | t :: rest => t.mapData f :: mapDataArgs f rest

def mapDataOptions (f : Datum → Datum) : List (String × Term) → List (String × Term)
  | [] => []
  | (name, t) :: rest => (name, t.mapData f) :: mapDataOptions f rest

end

theorem mapDataArgs_eq_map (f : Datum → Datum) (args : List Term) :
    mapDataArgs f args = args.map (mapData f) := by
  induction args with
  | nil => rfl
  | cons t rest ih => rw [mapDataArgs, ih, List.map_cons]

theorem mapDataOptions_eq_mapValues (f : Datum → Datum) (options : Fields Term) :
    mapDataOptions f options = Fields.mapValues (mapData f) options := by
  induction options with
  | nil => rfl
  | cons o rest ih =>
      obtain ⟨name, t⟩ := o
      rw [mapDataOptions, ih, Fields.mapValues_cons]

theorem mapData_node (f : Datum → Datum) (kind : Kind) (args : List Term)
    (options : Fields Term) :
    (node kind args options).mapData f =
      .node kind (args.map (mapData f)) (Fields.mapValues (mapData f) options) := by
  rw [mapData, mapDataArgs_eq_map, mapDataOptions_eq_mapValues]

theorem mapData_eq_self {f : Datum → Datum} {t : Term}
    (h : ∀ value, .datum value ∈ t.nodes → f value = value) : t.mapData f = t := by
  induction t with
  | datum value => rw [mapData, h value (self_mem_nodes _)]
  | node kind args options ihArgs ihOptions =>
      have hargs : ∀ t ∈ args, t.mapData f = t := fun t ht =>
        ihArgs t ht fun value hv => h value (mem_nodes_node.mpr (.inr (.inl ⟨t, ht, hv⟩)))
      have hoptions : ∀ o ∈ options, o.2.mapData f = o.2 := fun o ho =>
        ihOptions o ho fun value hv => h value (mem_nodes_node.mpr (.inr (.inr ⟨o, ho, hv⟩)))
      rw [mapData_node, List.map_congr_left hargs, Fields.mapValues_eq_self hoptions]
      simp

end Reql.Term
