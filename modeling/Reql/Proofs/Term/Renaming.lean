import Reql.Proofs.Term.Binding

/-!
Renaming of parameters.

A renaming reaches the lists of parameters of functions and the variables that
refer to them, and nothing else: data elsewhere that happen to be the same
numbers stay as they are. The kind of a node and the use of the implicit
variable are not affected.
-/

namespace Reql.Term

/-! ### Renaming -/

def renameLeaf (ρ : UInt64 → UInt64) (t : Term) : Term :=
  match t.identifier? with
  | some id => .datum (.ofUInt64 (ρ id))
  | none => t

def renameListing (ρ : UInt64 → UInt64) : Term → Term
  | .datum d => .datum d
  | .node kind items options => .node kind (items.map (renameLeaf ρ)) options

mutual

/-- `t.rename ρ` renames the parameters of the functions in `t`, and the
variables. -/
def rename (ρ : UInt64 → UInt64) : Term → Term
  | .datum d => .datum d
  | .node kind args options =>
      if kind = .var then .node kind (args.map (renameLeaf ρ)) (renameOptions ρ options)
      else if kind = .func then .node kind (renameFunction ρ args) (renameOptions ρ options)
      else .node kind (renameArgs ρ args) (renameOptions ρ options)

def renameFunction (ρ : UInt64 → UInt64) : List Term → List Term
  | [] => []
  | listing :: rest => renameListing ρ listing :: renameArgs ρ rest

def renameArgs (ρ : UInt64 → UInt64) : List Term → List Term
  | [] => []
  | t :: rest => t.rename ρ :: renameArgs ρ rest

def renameOptions (ρ : UInt64 → UInt64) : List (String × Term) → List (String × Term)
  | [] => []
  | (name, t) :: rest => (name, t.rename ρ) :: renameOptions ρ rest

end

variable (ρ : UInt64 → UInt64)

theorem renameArgs_eq_map (args : List Term) : renameArgs ρ args = args.map (rename ρ) := by
  induction args with
  | nil => rfl
  | cons t rest ih => rw [renameArgs, ih, List.map_cons]

theorem renameOptions_eq_mapValues (options : Fields Term) :
    renameOptions ρ options = Fields.mapValues (rename ρ) options := by
  induction options with
  | nil => rfl
  | cons o rest ih =>
      obtain ⟨name, t⟩ := o
      rw [renameOptions, ih, Fields.mapValues_cons]

@[simp] theorem rename_datum (d : Datum) : (datum d).rename ρ = .datum d := by
  rw [rename]

theorem rename_node_of_plain {kind : Kind} (h : kind.Plain) (args : List Term)
    (options : Fields Term) :
    (node kind args options).rename ρ =
      .node kind (args.map (rename ρ)) (Fields.mapValues (rename ρ) options) := by
  rw [rename, if_neg h.2, if_neg h.1, renameArgs_eq_map, renameOptions_eq_mapValues]

theorem rename_node_var (args : List Term) (options : Fields Term) :
    (node .var args options).rename ρ =
      .node .var (args.map (renameLeaf ρ)) (Fields.mapValues (rename ρ) options) := by
  rw [rename, if_pos rfl, renameOptions_eq_mapValues]

theorem rename_node_func (listing : Term) (rest : List Term) (options : Fields Term) :
    (node .func (listing :: rest) options).rename ρ =
      .node .func (renameListing ρ listing :: rest.map (rename ρ))
        (Fields.mapValues (rename ρ) options) := by
  rw [rename, if_neg (by decide), if_pos rfl, renameFunction, renameArgs_eq_map,
    renameOptions_eq_mapValues]

theorem rename_node_func_nil (options : Fields Term) :
    (node .func [] options).rename ρ = .node .func [] (Fields.mapValues (rename ρ) options) := by
  rw [rename, if_neg (by decide), if_pos rfl, renameFunction, renameOptions_eq_mapValues]

@[simp] theorem kind_rename (t : Term) : (t.rename ρ).kind = t.kind := by
  cases t with
  | datum d => rw [rename_datum]
  | node kind args options =>
      rw [rename]
      split_ifs <;> rfl

theorem renameLeaf_ofUInt64 (id : UInt64) :
    renameLeaf ρ (.datum (.ofUInt64 id)) = .datum (.ofUInt64 (ρ id)) := by
  rw [renameLeaf, identifier?_datum, Datum.uint64?_ofUInt64]

theorem rename_var (id : UInt64) : (var id).rename ρ = var (ρ id) := by
  rw [var, rename_node_var, List.map_singleton, renameLeaf_ofUInt64, Fields.mapValues_nil, var]

theorem renameListing_parameterList (ids : List UInt64) :
    renameListing ρ (parameterList ids) = parameterList (ids.map ρ) := by
  simp only [parameterList, array, renameListing, List.map_map, Function.comp_def,
    renameLeaf_ofUInt64]

theorem rename_functionNode (ids : List UInt64) (body : Term) :
    (functionNode ids body).rename ρ = functionNode (ids.map ρ) (body.rename ρ) := by
  rw [functionNode, functionNode, rename_node_func, renameListing_parameterList, List.map_singleton, Fields.mapValues_nil]

theorem rename_wrapped (id : UInt64) (t : Term) :
    (wrapped id t).rename ρ = wrapped (ρ id) (t.rename ρ) :=
  rename_functionNode ρ [id] t

theorem rename_of_plain {t : Term} (h : t.Plain) : t.rename ρ = t := by
  induction t with
  | datum d => rw [rename_datum]
  | node kind args options ihArgs ihOptions =>
      have hkind : kind.Plain := h _ (self_mem_nodes _)
      have hargs : ∀ t ∈ args, t.rename ρ = id t := fun t ht =>
        ihArgs t ht fun s hs => h s (mem_nodes_node.mpr (.inr (.inl ⟨t, ht, hs⟩)))
      have hoptions : ∀ o ∈ options, o.2.rename ρ = o.2 := fun o ho =>
        ihOptions o ho fun s hs => h s (mem_nodes_node.mpr (.inr (.inr ⟨o, ho, hs⟩)))
      rw [rename_node_of_plain ρ hkind, List.map_congr_left hargs, List.map_id,
        Fields.mapValues_eq_self hoptions]

/-! ### Binders -/

theorem identifier?_renameLeaf (t : Term) : (renameLeaf ρ t).identifier? = t.identifier?.map ρ := by
  cases hid : t.identifier? with
  | none => rw [renameLeaf, hid, Option.map_none, hid]
  | some id => rw [renameLeaf, hid, Option.map_some, identifier?_datum, Datum.uint64?_ofUInt64]

theorem args_renameListing (t : Term) : (renameListing ρ t).args = t.args.map (renameLeaf ρ) := by
  cases t <;> rfl

theorem parameters_node_func (listing : Term) (rest : List Term) (options : Fields Term) :
    (node .func (listing :: rest) options).parameters = listing.args.filterMap identifier? := by
  rw [parameters, if_pos (by exact rfl), args, List.head?_cons, Option.toList_some,
    List.flatMap_singleton]

theorem parameters_rename (t : Term) : (t.rename ρ).parameters = t.parameters.map ρ := by
  cases t with
  | datum d =>
      rw [rename_datum]
      rfl
  | node kind args options =>
      by_cases hkind : kind = .func
      · subst hkind
        cases args with
        | nil =>
            rw [rename_node_func_nil]
            rfl
        | cons listing rest =>
            rw [rename_node_func, parameters_node_func, parameters_node_func, args_renameListing,
              List.filterMap_map, List.map_filterMap]
            exact List.filterMap_congr fun t _ => identifier?_renameLeaf ρ t
      · have hnone : (node kind args options).parameters = [] := parameters_of_ne hkind
        have hnone' : ((node kind args options).rename ρ).parameters = [] :=
          parameters_of_ne (by rwa [kind_rename])
        rw [hnone, hnone', List.map_nil]

/-- A renaming that keeps an identifier apart from the others keeps its binders. -/
theorem binders_rename {id : UInt64} {above : List Term}
    (h : ∀ s ∈ above, ∀ x ∈ s.parameters, ρ x = ρ id → x = id) :
    binders (ρ id) (above.map (rename ρ)) = (binders id above).map (rename ρ) := by
  rw [binders, binders, List.filter_map]
  refine congrArg (List.map (rename ρ)) (List.filter_congr fun s hs => ?_)
  rw [Function.comp_apply, parameters_rename, decide_eq_decide, List.mem_map]
  constructor
  · rintro ⟨x, hx, heq⟩
    exact h s hs x hx heq ▸ hx
  · exact fun hid => ⟨id, hid, rfl⟩

/-! ### One renaming after another -/

theorem renameLeaf_renameLeaf (σ : UInt64 → UInt64) (t : Term) :
    renameLeaf σ (renameLeaf ρ t) = renameLeaf (σ ∘ ρ) t := by
  cases hid : t.identifier? with
  | none => simp [renameLeaf, hid]
  | some id =>
      have h : ∀ τ : UInt64 → UInt64, renameLeaf τ t = .datum (.ofUInt64 (τ id)) := fun τ => by
        rw [renameLeaf, hid]
      rw [h ρ, h, renameLeaf_ofUInt64, Function.comp_apply]

theorem renameListing_renameListing (σ : UInt64 → UInt64) (t : Term) :
    renameListing σ (renameListing ρ t) = renameListing (σ ∘ ρ) t := by
  cases t with
  | datum d => rfl
  | node kind items options =>
      rw [renameListing, renameListing, renameListing, List.map_map]
      exact congrArg (node kind · options)
        (List.map_congr_left fun t _ => renameLeaf_renameLeaf ρ σ t)

theorem rename_rename (σ : UInt64 → UInt64) (t : Term) :
    (t.rename ρ).rename σ = t.rename (σ ∘ ρ) := by
  induction t with
  | datum d => simp
  | node kind args options ihArgs ihOptions =>
      have hargs : (args.map (rename ρ)).map (rename σ) = args.map (rename (σ ∘ ρ)) := by
        rw [List.map_map]
        exact List.map_congr_left ihArgs
      have hoptions : Fields.mapValues (rename σ) (Fields.mapValues (rename ρ) options) =
          Fields.mapValues (rename (σ ∘ ρ)) options := by
        rw [Fields.mapValues, Fields.mapValues, List.map_map]
        exact List.map_congr_left fun o ho => Prod.ext rfl (ihOptions o ho)
      by_cases hvar : kind = .var
      · subst hvar
        have hleaves : (args.map (renameLeaf ρ)).map (renameLeaf σ) =
            args.map (renameLeaf (σ ∘ ρ)) := by
          rw [List.map_map]
          exact List.map_congr_left fun t _ => renameLeaf_renameLeaf ρ σ t
        rw [rename_node_var, rename_node_var, rename_node_var, hleaves, hoptions]
      by_cases hfunc : kind = .func
      · subst hfunc
        cases args with
        | nil => rw [rename_node_func_nil, rename_node_func_nil, rename_node_func_nil, hoptions]
        | cons listing rest =>
            rw [List.map_cons, List.map_cons, List.map_cons] at hargs
            rw [rename_node_func, rename_node_func, rename_node_func,
              renameListing_renameListing, (List.cons.inj hargs).2, hoptions]
      · have hkind : kind.Plain := ⟨hfunc, hvar⟩
        rw [rename_node_of_plain ρ hkind, rename_node_of_plain σ hkind,
          rename_node_of_plain _ hkind, hargs, hoptions]

/-! ### The implicit variable -/

theorem hasImplicitVarArgs_eq_any (args : List Term) :
    hasImplicitVarArgs args = args.any hasImplicitVar := by
  induction args with
  | nil => rfl
  | cons t rest ih => rw [hasImplicitVarArgs, ih, List.any_cons]

theorem hasImplicitVarOptions_eq_any (options : Fields Term) :
    hasImplicitVarOptions options = options.any fun o => o.2.hasImplicitVar := by
  induction options with
  | nil => rfl
  | cons o rest ih => rw [hasImplicitVarOptions, ih, List.any_cons]

theorem hasImplicitVar_node {kind : Kind} (h : kind ≠ .implicitVar) (h' : kind ≠ .func)
    (args : List Term) (options : Fields Term) :
    (node kind args options).hasImplicitVar =
      (args.any hasImplicitVar || options.any fun o => o.2.hasImplicitVar) := by
  rw [hasImplicitVar, hasImplicitVarArgs_eq_any, hasImplicitVarOptions_eq_any]
  · exact h
  · exact h'

theorem hasImplicitVar_renameLeaf (t : Term) :
    (renameLeaf ρ t).hasImplicitVar = t.hasImplicitVar := by
  cases hid : t.identifier? with
  | none => rw [renameLeaf, hid]
  | some id =>
      cases t with
      | datum d => rw [renameLeaf, hid, hasImplicitVar, hasImplicitVar]
      | node kind args options => cases hid

theorem any_congr_of_mem {α : Type} {f g : α → Bool} {items : List α}
    (h : ∀ a ∈ items, f a = g a) : items.any f = items.any g := by
  induction items with
  | nil => rfl
  | cons a rest ih =>
      obtain ⟨ha, hrest⟩ := List.forall_mem_cons.mp h
      rw [List.any_cons, List.any_cons, ha, ih hrest]

@[simp] theorem hasImplicitVar_rename (t : Term) :
    (t.rename ρ).hasImplicitVar = t.hasImplicitVar := by
  induction t with
  | datum d => rw [rename_datum]
  | node kind args options ihArgs ihOptions =>
      have hargs : (args.map (rename ρ)).any hasImplicitVar = args.any hasImplicitVar := by
        rw [List.any_map]
        exact any_congr_of_mem ihArgs
      have hoptions : ((Fields.mapValues (rename ρ) options).any fun o => o.2.hasImplicitVar) =
          options.any fun o => o.2.hasImplicitVar := by
        rw [Fields.mapValues, List.any_map]
        exact any_congr_of_mem ihOptions
      by_cases hfunc : kind = .func
      · subst hfunc
        cases args with
        | nil => rw [rename_node_func_nil, hasImplicitVar, hasImplicitVar]
        | cons listing rest => rw [rename_node_func, hasImplicitVar, hasImplicitVar]
      by_cases hvar : kind = .var
      · subst hvar
        have hleaves : (args.map (renameLeaf ρ)).any hasImplicitVar = args.any hasImplicitVar := by
          rw [List.any_map]
          exact any_congr_of_mem fun t _ => hasImplicitVar_renameLeaf ρ t
        rw [rename_node_var, hasImplicitVar_node (by decide) hfunc,
          hasImplicitVar_node (by decide) hfunc, hleaves, hoptions]
      rw [rename_node_of_plain ρ ⟨hfunc, hvar⟩]
      by_cases himplicit : kind = .implicitVar
      · rw [himplicit, hasImplicitVar, hasImplicitVar]
      · rw [hasImplicitVar_node himplicit hfunc, hasImplicitVar_node himplicit hfunc, hargs,
          hoptions]

end Reql.Term
