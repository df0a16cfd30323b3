import Reql.Proofs.Json
import Reql.Proofs.Term.Closure

/-!
Parameters and the variables that refer to them.

A function lists the identifiers of its parameters, and a variable is meant for
the function around it that lists its identifier. Nothing in a term itself says
that there is such a function, or only one. `Term.Hygienic` does: on the way
from the root to a node no identifier is listed twice, and a variable that is
not free has one binder. Nodes of a plain kind keep this, and so does a function
whose parameters the body does not list.
-/

namespace Reql

/-- `k.Plain`: nodes of the kind neither list parameters nor refer to them. -/
def Kind.Plain (k : Kind) : Prop := k ≠ .func ∧ k ≠ .var

instance (k : Kind) : Decidable k.Plain := inferInstanceAs (Decidable (_ ∧ _))

theorem Datum.uint64?_ofUInt64 (n : UInt64) : (ofUInt64 n).uint64? = some n := by
  rcases Nat.lt_or_ge n.toNat 9223372036854775808 with h | h
  · have hint : (Int64.ofInt n.toNat).toInt = n.toNat :=
      Int64.toInt_ofInt_of_le (by omega) (by omega)
    rw [ofUInt64_of_lt h, uint64?, hint, if_neg (by omega), Int.toNat_natCast, UInt64.ofNat_toNat]
  · rw [ofUInt64_of_le h, uint64?]

namespace Term

/-! ### Parameters -/

def identifier? (t : Term) : Option UInt64 := t.datum?.bind Datum.uint64?

@[simp] theorem identifier?_datum (d : Datum) : (datum d).identifier? = d.uint64? := rfl

/-- `t.parameters` are the identifiers that a function lists, none for any
other node; `references` is the one that a variable refers to. -/
def parameters (t : Term) : List UInt64 :=
  if t.kind = .func then (t.args.head?.toList.flatMap args).filterMap identifier? else []

theorem parameters_of_ne {t : Term} (h : t.kind ≠ .func) : t.parameters = [] :=
  if_neg h

theorem filterMap_identifier?_map (ids : List UInt64) :
    (ids.map fun id => datum (.ofUInt64 id)).filterMap identifier? = ids := by
  induction ids with
  | nil => rfl
  | cons id rest ih =>
      have hid : (datum (.ofUInt64 id)).identifier? = some id := by
        rw [identifier?_datum, Datum.uint64?_ofUInt64]
      rw [List.map_cons, List.filterMap_cons_some hid, ih]

def functionNode (ids : List UInt64) (body : Term) : Term :=
  .node .func [parameterList ids, body] []

/-- The call makes this node, and cannot fail. -/
theorem function_eq (ids : List UInt64) (body : Term) :
    function ids body = .ok (functionNode ids body) := by
  refine make_eq_ok_iff.mpr ⟨by decide, [parameterList ids, body], [], ?_, rfl, rfl, rfl⟩
  exact Arguments.freeze_ofList_terms [parameterList ids, body]

theorem closeFunction_eq_map {ε : Type} (embed : Error → ε) (ids : List UInt64)
    (answer : Except ε Term) :
    closeFunction embed ids answer = answer.map (functionNode ids) := by
  cases answer with
  | error e => rfl
  | ok body =>
      change (function ids body).mapError embed = _
      rw [function_eq]
      rfl

@[simp] theorem parameters_functionNode (ids : List UInt64) (body : Term) :
    (functionNode ids body).parameters = ids := by
  rw [functionNode, parameters, if_pos (by exact rfl)]
  simp only [args, List.head?_cons, Option.toList_some, List.flatMap_cons, List.flatMap_nil,
    parameterList, array, List.append_nil]
  exact filterMap_identifier?_map ids

def references (t : Term) : List UInt64 :=
  if t.kind = .var then t.args.filterMap identifier? else []

theorem references_of_ne {t : Term} (h : t.kind ≠ .var) : t.references = [] :=
  if_neg h

@[simp] theorem references_var (id : UInt64) : (var id).references = [id] := by
  rw [references, if_pos (by exact rfl)]
  exact filterMap_identifier?_map [id]

@[simp] theorem parameters_var (id : UInt64) : (var id).parameters = [] :=
  parameters_of_ne (by decide : Kind.var ≠ .func)

def identifiers (t : Term) : List UInt64 := t.parameters ++ t.references

theorem identifiers_of_plain {t : Term} (h : t.kind.Plain) : t.identifiers = [] := by
  rw [identifiers, parameters_of_ne h.1, references_of_ne h.2, List.append_nil]

/-! ### Identifiers in a term -/

/-- `t.Every ids Q`: what `ids` finds at the nodes of the term satisfies `Q`. -/
def Every (ids : Term → List UInt64) (Q : UInt64 → Prop) (t : Term) : Prop :=
  ∀ s ∈ t.nodes, ∀ id ∈ ids s, Q id

section Every

variable {ids : Term → List UInt64} {Q Q' : UInt64 → Prop}

theorem Every.imp {t : Term} (h : t.Every ids Q) (hQ : ∀ id, Q id → Q' id) : t.Every ids Q' :=
  fun s hs id hid => hQ id (h s hs id hid)

theorem every_node_iff {kind : Kind} {args : List Term} {options : Fields Term} :
    (node kind args options).Every ids Q ↔ (∀ id ∈ ids (node kind args options), Q id) ∧
      (∀ t ∈ args, t.Every ids Q) ∧ ∀ o ∈ options, o.2.Every ids Q := by
  constructor
  · intro h
    refine ⟨h _ (self_mem_nodes _), fun t ht s hs => ?_, fun o ho s hs => ?_⟩
    · exact h s (mem_nodes_node.mpr (.inr (.inl ⟨t, ht, hs⟩)))
    · exact h s (mem_nodes_node.mpr (.inr (.inr ⟨o, ho, hs⟩)))
  · rintro ⟨hroot, hargs, hoptions⟩ s hs
    rcases mem_nodes_node.mp hs with rfl | ⟨t, ht, hs⟩ | ⟨o, ho, hs⟩
    · exact hroot
    · exact hargs t ht s hs
    · exact hoptions o ho s hs

end Every

/-- `t.Lists Q`: all parameters listed in the term satisfy `Q`. -/
abbrev Lists (Q : UInt64 → Prop) (t : Term) : Prop := t.Every parameters Q

/-- `t.Mentions Q`: all identifiers in the term satisfy `Q`. -/
abbrev Mentions (Q : UInt64 → Prop) (t : Term) : Prop := t.Every identifiers Q

def Plain (t : Term) : Prop := ∀ s ∈ t.nodes, s.kind.Plain

theorem plain_datum (d : Datum) : (datum d).Plain := by
  intro s hs
  rw [mem_nodes_datum.mp hs]
  exact (by decide : Kind.datum.Plain)

theorem plain_parameterList (ids : List UInt64) : (parameterList ids).Plain := by
  intro s hs
  rcases mem_nodes_node.mp hs with rfl | ⟨t, ht, hs⟩ | ⟨o, ho, -⟩
  · exact (by decide : Kind.makeArray.Plain)
  · obtain ⟨id, -, rfl⟩ := List.mem_map.mp ht
    exact plain_datum _ s hs
  · cases ho

theorem closed_plain : Closed Kind.Plain Plain where
  array := by decide
  object := by decide
  datum d _ := plain_datum d
  node kind args options hkind hargs hoptions := by
    intro s hs
    rcases mem_nodes_node.mp hs with rfl | ⟨t, ht, hs⟩ | ⟨o, ho, hs⟩
    · exact hkind
    · exact hargs t ht s hs
    · exact hoptions o ho s hs

theorem plain_implicitVar : implicitVar.Plain := by
  intro s hs
  obtain rfl := List.mem_singleton.mp hs
  exact (by decide : Kind.implicitVar.Plain)

section Plain

variable {Q : UInt64 → Prop}

theorem lists_of_plain {t : Term} (h : t.Plain) : t.Lists Q := by
  intro s hs id hid
  rw [parameters_of_ne (h s hs).1] at hid
  cases hid

theorem mentions_of_plain {t : Term} (h : t.Plain) : t.Mentions Q := by
  intro s hs id hid
  rw [identifiers_of_plain (h s hs)] at hid
  cases hid

theorem lists_var (id : UInt64) : (var id).Lists Q := by
  refine every_node_iff.mpr ⟨?_, List.forall_mem_singleton.mpr ?_, List.forall_mem_nil _⟩
  · rw [← var, parameters_var]
    exact List.forall_mem_nil _
  · exact lists_of_plain (plain_datum _)

theorem mentions_var {id : UInt64} (hid : Q id) : (var id).Mentions Q := by
  refine every_node_iff.mpr ⟨?_, List.forall_mem_singleton.mpr ?_, List.forall_mem_nil _⟩
  · rw [← var, identifiers, parameters_var, references_var]
    exact List.forall_mem_singleton.mpr hid
  · exact mentions_of_plain (plain_datum _)

theorem mentions_functionNode {ids : List UInt64} {body : Term} (hids : ∀ id ∈ ids, Q id)
    (hbody : body.Mentions Q) : (functionNode ids body).Mentions Q := by
  have hnone : (functionNode ids body).references = [] :=
    references_of_ne (by decide : Kind.func ≠ .var)
  refine every_node_iff.mpr ⟨?_, List.forall_mem_cons.mpr ⟨?_, ?_⟩, List.forall_mem_nil _⟩
  · rw [← functionNode, identifiers, parameters_functionNode, hnone, List.append_nil]
    exact hids
  · exact mentions_of_plain (plain_parameterList ids)
  · exact List.forall_mem_singleton.mpr hbody

theorem closed_mentions : Closed Kind.Plain (Mentions Q) where
  array := by decide
  object := by decide
  datum d _ := mentions_of_plain (plain_datum d)
  node kind args options hkind hargs hoptions := by
    have hnone : (node kind args options).identifiers = [] := identifiers_of_plain hkind
    refine every_node_iff.mpr ⟨?_, hargs, hoptions⟩
    rw [hnone]
    exact List.forall_mem_nil _

end Plain

/-! ### Ways from the root -/

/-- `Leads t above u`: a way from `t` down to a node `u` in it, with the nodes
above that node from the root on. -/
inductive Leads : Term → List Term → Term → Prop
  | here (t : Term) : Leads t [] t
  | argument {kind : Kind} {args : List Term} {options : Fields Term} {t u : Term}
      {above : List Term} : t ∈ args → Leads t above u →
        Leads (.node kind args options) (.node kind args options :: above) u
  | option {kind : Kind} {args : List Term} {options : Fields Term} {o : String × Term} {u : Term}
      {above : List Term} : o ∈ options → Leads o.2 above u →
        Leads (.node kind args options) (.node kind args options :: above) u

theorem Leads.nodes {t u : Term} {above : List Term} (h : Leads t above u) :
    ∀ s ∈ above ++ [u], s ∈ t.nodes := by
  induction h with
  | here t => exact List.forall_mem_singleton.mpr (self_mem_nodes t)
  | argument ht _ ih =>
      refine List.forall_mem_cons.mpr ⟨self_mem_nodes _, fun s hs => ?_⟩
      exact mem_nodes_node.mpr (.inr (.inl ⟨_, ht, ih s hs⟩))
  | option ho _ ih =>
      refine List.forall_mem_cons.mpr ⟨self_mem_nodes _, fun s hs => ?_⟩
      exact mem_nodes_node.mpr (.inr (.inr ⟨_, ho, ih s hs⟩))

theorem Leads.mem_nodes {t u : Term} {above : List Term} (h : Leads t above u) : u ∈ t.nodes :=
  h.nodes u (List.mem_append_right _ (List.mem_singleton_self u))

/-- `binders id above` are the nodes on a way that list the identifier. -/
def binders (id : UInt64) (above : List Term) : List Term :=
  above.filter fun s => id ∈ s.parameters

theorem binders_cons_of_mem {id : UInt64} {s : Term} {above : List Term}
    (h : id ∈ s.parameters) : binders id (s :: above) = s :: binders id above := by
  simp [binders, h]

theorem binders_cons_of_not_mem {id : UInt64} {s : Term} {above : List Term}
    (h : id ∉ s.parameters) : binders id (s :: above) = binders id above := by
  simp [binders, h]

theorem binders_cons_eq_nil_iff {id : UInt64} {s : Term} {above : List Term} :
    binders id (s :: above) = [] ↔ id ∉ s.parameters ∧ binders id above = [] := by
  by_cases h : id ∈ s.parameters
  · simp [binders_cons_of_mem h, h]
  · simp [binders_cons_of_not_mem h, h]

theorem mem_binders_iff {id : UInt64} {s : Term} {above : List Term} :
    s ∈ binders id above ↔ s ∈ above ∧ id ∈ s.parameters := by
  simp [binders]

mutual

/-- `t.free` are the identifiers of the variables that no function in `t`
lists. -/
def free : Term → List UInt64
  | .datum _ => []
  | .node kind args options =>
      ((node kind args options).references ++
          (freeOfArgs args ++ freeOfOptions options)).filter
        fun id => id ∉ (node kind args options).parameters

def freeOfArgs : List Term → List UInt64
  | [] => []
  | t :: rest => t.free ++ freeOfArgs rest

def freeOfOptions : List (String × Term) → List UInt64
  | [] => []
  | (_, t) :: rest => t.free ++ freeOfOptions rest

end

theorem mem_freeOfArgs {id : UInt64} {args : List Term} {t : Term} (ht : t ∈ args)
    (hid : id ∈ t.free) : id ∈ freeOfArgs args := by
  induction args with
  | nil => cases ht
  | cons s rest ih =>
      rcases List.mem_cons.mp ht with rfl | ht
      · exact List.mem_append_left _ hid
      · exact List.mem_append_right _ (ih ht)

theorem mem_freeOfOptions {id : UInt64} {options : Fields Term} {o : String × Term}
    (ho : o ∈ options) (hid : id ∈ o.2.free) : id ∈ freeOfOptions options := by
  induction options with
  | nil => cases ho
  | cons f rest ih =>
      rcases List.mem_cons.mp ho with rfl | ho
      · exact List.mem_append_left _ hid
      · exact List.mem_append_right _ (ih ho)

theorem mem_free_node_iff {id : UInt64} {kind : Kind} {args : List Term} {options : Fields Term} :
    id ∈ (node kind args options).free ↔
      (id ∈ (node kind args options).references ∨ id ∈ freeOfArgs args ∨
        id ∈ freeOfOptions options) ∧ id ∉ (node kind args options).parameters := by
  rw [free, List.mem_filter, List.mem_append, List.mem_append, decide_eq_true_iff]

theorem free_var (id : UInt64) : (var id).free = [id] := by
  have hnone : freeOfArgs [datum (.ofUInt64 id)] = [] := by rw [freeOfArgs, free, freeOfArgs]; rfl
  have hreferences := references_var id
  have hparameters := parameters_var id
  rw [var] at hreferences hparameters ⊢
  rw [free, hreferences, hparameters, hnone, freeOfOptions]
  rfl

/-- What is free in the body of a function is free outside if it is no parameter. -/
theorem free_functionNode (ids : List UInt64) (body : Term) :
    (functionNode ids body).free = body.free.filter (· ∉ ids) := by
  have hdata : freeOfArgs (ids.map fun id => datum (.ofUInt64 id)) = [] := by
    induction ids with
    | nil => rfl
    | cons id rest ih => rw [List.map_cons, freeOfArgs, free, ih, List.nil_append]
  have hlist : (parameterList ids).free = [] := by
    rw [parameterList, array, free, hdata]
    rfl
  have hreferences : (functionNode ids body).references = [] :=
    references_of_ne (by decide : Kind.func ≠ .var)
  have hparameters := parameters_functionNode ids body
  rw [functionNode] at hreferences hparameters ⊢
  rw [free, hreferences, hparameters, freeOfArgs, freeOfArgs, freeOfArgs, freeOfOptions, hlist]
  simp

/-- A variable without a binder on the way to it is free. -/
theorem Leads.mem_free {t u : Term} {above : List Term} (h : Leads t above u) {id : UInt64}
    (hu : u = var id) (hnone : binders id above = []) : id ∈ t.free := by
  induction h with
  | here t =>
      subst hu
      refine mem_free_node_iff.mpr ⟨.inl ?_, ?_⟩
      · rw [← var, references_var]
        exact List.mem_singleton_self id
      · rw [← var, parameters_var]
        exact List.not_mem_nil
  | argument ht _ ih =>
      obtain ⟨hid, hnone⟩ := binders_cons_eq_nil_iff.mp hnone
      exact mem_free_node_iff.mpr ⟨.inr (.inl (mem_freeOfArgs ht (ih hu hnone))), hid⟩
  | option ho _ ih =>
      obtain ⟨hid, hnone⟩ := binders_cons_eq_nil_iff.mp hnone
      exact mem_free_node_iff.mpr ⟨.inr (.inr (mem_freeOfOptions ho (ih hu hnone))), hid⟩

/-! ### Hygiene -/

/-- `t.Hygienic Q B F`: all listed parameters satisfy `Q` and none is listed
twice on a way from the root. A variable is bound by one function, related to
it by `B`, or it is free and satisfies `F`. -/
structure Hygienic (Q : UInt64 → Prop) (B : UInt64 → Term → Prop) (F : UInt64 → Prop)
    (t : Term) : Prop where
  lists : t.Lists Q
  apart : ∀ above u, t.Leads above u → ((above ++ [u]).flatMap parameters).Nodup
  bound : ∀ above u, t.Leads above u → u.kind = .var → ∃ id, u = .var id ∧
    ((∃ f, binders id above = [f] ∧ B id f) ∨ binders id above = [] ∧ F id)

section Hygienic

variable {Q Q' : UInt64 → Prop} {B B' : UInt64 → Term → Prop} {F F' : UInt64 → Prop} {t : Term}

theorem Hygienic.imp (h : t.Hygienic Q B F) (hQ : ∀ id, Q id → Q' id)
    (hB : ∀ id f, B id f → B' id f) (hF : ∀ id, F id → F' id) : t.Hygienic Q' B' F' where
  lists := h.lists.imp hQ
  apart := h.apart
  bound above u hu hkind := by
    obtain ⟨id, rfl, ⟨f, hf, hB'⟩ | ⟨hnone, hF'⟩⟩ := h.bound above u hu hkind
    · exact ⟨id, rfl, .inl ⟨f, hf, hB id f hB'⟩⟩
    · exact ⟨id, rfl, .inr ⟨hnone, hF id hF'⟩⟩

theorem Hygienic.of_free (h : t.Hygienic Q B F) (hfree : ∀ id ∈ t.free, F' id) :
    t.Hygienic Q B fun id => F id ∧ F' id where
  lists := h.lists
  apart := h.apart
  bound above u hu hkind := by
    obtain ⟨id, rfl, hbound | ⟨hnone, hF⟩⟩ := h.bound above u hu hkind
    · exact ⟨id, rfl, .inl hbound⟩
    · exact ⟨id, rfl, .inr ⟨hnone, hF, hfree id (hu.mem_free rfl hnone)⟩⟩

theorem hygienic_of_plain (h : t.Plain) : t.Hygienic Q B F where
  lists := lists_of_plain h
  apart above u hu := by
    have hnone : (above ++ [u]).flatMap parameters = [] :=
      List.flatMap_eq_nil_iff.mpr fun s hs => parameters_of_ne (h s (hu.nodes s hs)).1
    rw [hnone]
    exact List.nodup_nil
  bound above u hu hkind := absurd hkind (h u hu.mem_nodes).2

/-- Above a node with hygienic children it remains to look at the node itself,
and at what its parameters do to the ways through it. -/
theorem hygienic_node {kind : Kind} {args : List Term} {options : Fields Term}
    (hkind : kind ≠ .var)
    (hlists : ∀ id ∈ (node kind args options).parameters, Q' id)
    (hnodup : (node kind args options).parameters.Nodup)
    (hfresh : ∀ id ∈ (node kind args options).parameters, ¬ Q id)
    (hQ : ∀ id, Q id → Q' id)
    (hB : ∀ id f, B id f → B' id f)
    (hbinds : ∀ id ∈ (node kind args options).parameters, F id → B' id (node kind args options))
    (hF : ∀ id, F id → id ∉ (node kind args options).parameters → F' id)
    (hargs : ∀ t ∈ args, t.Hygienic Q B F) (hoptions : ∀ o ∈ options, o.2.Hygienic Q B F) :
    (node kind args options).Hygienic Q' B' F' := by
  -- what holds of the ways in a child carries over to the ways through the node
  have hway : ∀ s : Term, s.Hygienic Q B F → ∀ above u, s.Leads above u →
      ((node kind args options :: above ++ [u]).flatMap parameters).Nodup ∧
      (u.kind = .var → ∃ id, u = .var id ∧
        ((∃ f, binders id (node kind args options :: above) = [f] ∧ B' id f) ∨
          binders id (node kind args options :: above) = [] ∧ F' id)) := by
    intro s hs above u hu
    constructor
    · rw [List.cons_append, List.flatMap_cons]
      refine List.nodup_append.mpr ⟨hnodup, hs.apart above u hu, ?_⟩
      rintro id hid _ hid' rfl
      obtain ⟨v, hv, hidv⟩ := List.mem_flatMap.mp hid'
      exact hfresh id hid (hs.lists v (hu.nodes v hv) id hidv)
    · intro hvar
      obtain ⟨id, rfl, hcase⟩ := hs.bound above u hu hvar
      refine ⟨id, rfl, ?_⟩
      by_cases hid : id ∈ (node kind args options).parameters
      · rcases hcase with ⟨f, hf, -⟩ | ⟨hnone, hFid⟩
        · obtain ⟨hmem, hidf⟩ := mem_binders_iff.mp (hf ▸ List.mem_singleton_self f)
          have hQid := hs.lists f (hu.nodes f (List.mem_append_left _ hmem)) id hidf
          exact absurd hQid (hfresh id hid)
        · rw [binders_cons_of_mem hid, hnone]
          exact .inl ⟨_, rfl, hbinds id hid hFid⟩
      · rw [binders_cons_of_not_mem hid]
        rcases hcase with ⟨f, hf, hBf⟩ | ⟨hnone, hFid⟩
        · exact .inl ⟨f, hf, hB id f hBf⟩
        · exact .inr ⟨hnone, hF id hFid hid⟩
  constructor
  · refine every_node_iff.mpr ⟨hlists, fun t ht => ?_, fun o ho => ?_⟩
    · exact (hargs t ht).lists.imp hQ
    · exact (hoptions o ho).lists.imp hQ
  · intro above u hu
    cases hu with
    | here => simpa using hnodup
    | argument ht hu => exact (hway _ (hargs _ ht) _ _ hu).1
    | option ho hu => exact (hway _ (hoptions _ ho) _ _ hu).1
  · intro above u hu hvar
    cases hu with
    | here => exact absurd hvar hkind
    | argument ht hu => exact (hway _ (hargs _ ht) _ _ hu).2 hvar
    | option ho hu => exact (hway _ (hoptions _ ho) _ _ hu).2 hvar

theorem closed_hygienic : Closed Kind.Plain (Hygienic Q B F) where
  array := by decide
  object := by decide
  datum d _ := hygienic_of_plain (plain_datum d)
  node kind args options hkind hargs hoptions := by
    have hnone : (node kind args options).parameters = [] := parameters_of_ne hkind.1
    refine hygienic_node hkind.2 ?_ ?_ ?_ (fun _ h => h) (fun _ _ h => h) ?_ (fun _ h _ => h)
      hargs hoptions
    all_goals simp [hnone]

/-- A function whose parameters the body does not list binds those of them that
are free in the body. -/
theorem Hygienic.function {ids : List UInt64} {body : Term} (h : body.Hygienic Q B F)
    (hnodup : ids.Nodup) (hfresh : ∀ id ∈ ids, ¬ Q id) (hids : ∀ id ∈ ids, Q' id)
    (hQ : ∀ id, Q id → Q' id) (hB : ∀ id f, B id f → B' id f)
    (hbinds : ∀ id ∈ ids, F id → B' id (functionNode ids body))
    (hF : ∀ id, F id → id ∉ ids → F' id) : (functionNode ids body).Hygienic Q' B' F' := by
  have hargs : ∀ t ∈ [parameterList ids, body], t.Hygienic Q B F :=
    List.forall_mem_cons.mpr
      ⟨hygienic_of_plain (plain_parameterList ids), List.forall_mem_singleton.mpr h⟩
  have hparams : (node .func [parameterList ids, body] []).parameters = ids :=
    parameters_functionNode ids body
  refine hygienic_node (by decide) ?_ ?_ ?_ hQ hB ?_ ?_ hargs (List.forall_mem_nil _)
  all_goals rwa [hparams]

theorem hygienic_var {id : UInt64} (hF : F id) : (var id).Hygienic Q B F where
  lists := lists_var id
  apart above u hu := by
    have hnone : (above ++ [u]).flatMap parameters = [] := by
      refine List.flatMap_eq_nil_iff.mpr fun s hs => ?_
      have hlists : (var id).Lists fun _ => False := lists_var id
      exact List.eq_nil_iff_forall_not_mem.mpr (hlists s (hu.nodes s hs))
    rw [hnone]
    exact List.nodup_nil
  bound above u hu hvar := by
    cases hu with
    | here => exact ⟨id, rfl, .inr ⟨rfl, hF⟩⟩
    | argument ht hu =>
        obtain rfl := List.mem_singleton.mp ht
        exact absurd hvar (plain_datum _ _ hu.mem_nodes).2
    | option ho hu => cases ho

end Hygienic
end Term
end Reql
