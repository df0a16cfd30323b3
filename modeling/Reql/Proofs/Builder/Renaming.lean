import Reql.Proofs.Builder.Workspace
import Reql.Proofs.Term.Renaming

/-!
Renaming is not noticed.

A call that is given renamed terms gives the renamed results, or the same error:
nothing on its way looks at an identifier. This goes for coercion, for making
operations at once or by pieces, and for the decision whether an argument is
wrapped. So two workspaces that differ by a renaming still do after an action,
if only the new identifiers correspond to each other.
-/

namespace Reql

/-! ### Arguments -/

namespace Arg

mutual

def rename (ρ : UInt64 → UInt64) : Arg → Arg
  | .term t => .term (t.rename ρ)
  | .value d => .value d
  | .array items => .array (renameItems ρ items)
  | .object fields => .object (renameFields ρ fields)
  | .bundle items => .bundle (renameItems ρ items)

def renameItems (ρ : UInt64 → UInt64) : List Arg → List Arg
  | [] => []
  | a :: rest => a.rename ρ :: renameItems ρ rest

def renameFields (ρ : UInt64 → UInt64) : List (String × Arg) → List (String × Arg)
  | [] => []
  | (name, a) :: rest => (name, a.rename ρ) :: renameFields ρ rest

end

variable (ρ : UInt64 → UInt64)

theorem renameItems_eq_map (items : List Arg) : renameItems ρ items = items.map (rename ρ) := by
  induction items with
  | nil => rfl
  | cons a rest ih => rw [renameItems, ih, List.map_cons]

theorem renameFields_eq_mapValues (fields : Fields Arg) :
    renameFields ρ fields = Fields.mapValues (rename ρ) fields := by
  induction fields with
  | nil => rfl
  | cons f rest ih =>
      obtain ⟨name, a⟩ := f
      rw [renameFields, ih, Fields.mapValues_cons]

mutual

theorem leaves_rename : ∀ a : Arg, (a.rename ρ).leaves = renameItems ρ a.leaves
  | .term _ => by simp [rename, leaves, renameItems]
  | .value _ => by simp [rename, leaves, renameItems]
  | .array _ => by simp [rename, leaves, renameItems]
  | .object _ => by simp [rename, leaves, renameItems]
  | .bundle items => by rw [rename, leaves, leaves, leavesOf_renameItems items]

theorem leavesOf_renameItems : ∀ items : List Arg,
    leavesOf (renameItems ρ items) = renameItems ρ (leavesOf items)
  | [] => by simp [renameItems, leavesOf]
  | a :: rest => by
      rw [renameItems, leavesOf, leavesOf, leaves_rename a, leavesOf_renameItems rest]
      simp only [renameItems_eq_map, List.map_append]

end

end Arg

/-! ### Coercion -/

theorem Datum.map_coerce_rename (ρ : UInt64 → UInt64) (d : Datum) :
    d.coerce.map (Term.rename ρ) = d.coerce := by
  cases h : d.coerce with
  | error e => rfl
  | ok t =>
      have hplain : t.Plain := Datum.coerce_closed Term.closed_plain h
      rw [Except.map, Term.rename_of_plain ρ hplain]

section Walks

variable {ε ε' α α' β β' : Type}

theorem map_mapError (f : ε → ε') (g : α → β) (x : Except ε α) :
    (x.map g).mapError f = (x.mapError f).map g := by
  cases x <;> rfl

/-- Two steps of a walk, each of which commutes with a function. -/
theorem map_bind_bind {x : Except ε α} {x' : Except ε α'} {y : α → Except ε β}
    {y' : α' → Except ε β'} {γ γ' : Type} {join : α → β → γ} {join' : α' → β' → γ'}
    {f : α → α'} {g : β → β'} {h : γ → γ'}
    (hx : x' = x.map f) (hy : ∀ a, x = .ok a → y' (f a) = (y a).map g)
    (hjoin : ∀ a b, join' (f a) (g b) = h (join a b)) :
    (x' >>= fun a => y' a >>= fun b => .ok (join' a b)) =
      (x >>= fun a => y a >>= fun b => .ok (join a b)).map h := by
  subst hx
  cases x with
  | error e => rfl
  | ok a =>
      change (y' (f a) >>= fun b => .ok (join' (f a) b)) =
        ((y a) >>= fun b => .ok (join a b)).map h
      rw [hy a rfl]
      cases y a with
      | error e => rfl
      | ok b => exact congrArg Except.ok (hjoin a b)

theorem map_bind_ok {x : Except ε α} {x' : Except ε α'} {γ γ' : Type} {join : α → γ}
    {join' : α' → γ'} {f : α → α'} {h : γ → γ'} (hx : x' = x.map f)
    (hjoin : ∀ a, join' (f a) = h (join a)) :
    (x' >>= fun a => .ok (join' a)) = (x >>= fun a => .ok (join a)).map h := by
  subst hx
  cases x with
  | error e => rfl
  | ok a => exact congrArg Except.ok (hjoin a)

end Walks

namespace Arg

variable (ρ : UInt64 → UInt64)

theorem rename_array (items : List Term) :
    (Term.array items).rename ρ = Term.array (items.map (Term.rename ρ)) :=
  Term.rename_node_of_plain ρ (by decide) items []

theorem rename_object (fields : Fields Term) :
    (Term.object fields).rename ρ = Term.object (Fields.mapValues (Term.rename ρ) fields) :=
  Term.rename_node_of_plain ρ (by decide) [] fields

theorem coerceElement_rename_of_ne {a : Arg} (h : ∀ items, a ≠ .bundle items)
    (h' : ∀ items, a.rename ρ ≠ .bundle items)
    (ha : (a.rename ρ).coerce = a.coerce.map (Term.rename ρ)) (index : Nat) :
    (a.rename ρ).coerceElement index = (a.coerceElement index).map (List.map (Term.rename ρ)) := by
  rw [coerceElement_eq h, coerceElement_eq h']
  refine map_bind_ok (f := Term.rename ρ) ?_ fun _ => rfl
  rw [Step.down, ha, map_mapError, Step.down]

mutual

theorem coerce_rename : ∀ a : Arg, (a.rename ρ).coerce = a.coerce.map (Term.rename ρ)
  | .term _ => by simp only [rename, coerce]; rfl
  | .value d => by rw [rename, coerce, Datum.map_coerce_rename]
  | .array items => by
      rw [rename, coerce, coerce]
      exact map_bind_ok (coerceItems_rename items 0) fun ts => (rename_array ρ ts).symm
  | .object fields => by
      rw [rename, coerce, coerce]
      exact map_bind_ok (coerceFields_rename fields) fun ts => (rename_object ρ ts).symm
  | .bundle _ => by simp only [rename, coerce]; rfl
termination_by a => (sizeOf a, 0)

theorem coerceElement_rename : ∀ (a : Arg) (index : Nat),
    (a.rename ρ).coerceElement index = (a.coerceElement index).map (List.map (Term.rename ρ))
  | .bundle items, index => by
      rw [rename, coerceElement, coerceElement]
      exact coerceItems_rename items index
  | .term t, index =>
      coerceElement_rename_of_ne ρ (fun _ => Arg.noConfusion) (fun _ => Arg.noConfusion)
        (coerce_rename (.term t)) index
  | .value d, index =>
      coerceElement_rename_of_ne ρ (fun _ => Arg.noConfusion) (fun _ => Arg.noConfusion)
        (coerce_rename (.value d)) index
  | .array items, index =>
      coerceElement_rename_of_ne ρ (fun _ => Arg.noConfusion) (fun _ => Arg.noConfusion)
        (coerce_rename (.array items)) index
  | .object fields, index =>
      coerceElement_rename_of_ne ρ (fun _ => Arg.noConfusion) (fun _ => Arg.noConfusion)
        (coerce_rename (.object fields)) index
termination_by a => (sizeOf a, 1)

theorem coerceItems_rename : ∀ (items : List Arg) (index : Nat),
    coerceItems (renameItems ρ items) index =
      (coerceItems items index).map (List.map (Term.rename ρ))
  | [], _ => by simp only [renameItems, coerceItems]; rfl
  | a :: rest, index => by
      rw [renameItems, coerceItems, coerceItems]
      refine map_bind_bind (g := List.map (Term.rename ρ)) (coerceElement_rename a index)
        (fun ts _ => ?_) fun _ _ => ?_
      · rw [List.length_map]
        exact coerceItems_rename rest _
      · exact (List.map_append ..).symm
termination_by items => (sizeOf items, 0)

theorem coerceFields_rename : ∀ fields : List (String × Arg),
    coerceFields (renameFields ρ fields) =
      (coerceFields fields).map (Fields.mapValues (Term.rename ρ))
  | [] => by simp only [renameFields, coerceFields]; rfl
  | (name, a) :: rest => by
      rw [renameFields, coerceFields, coerceFields]
      refine map_bind_bind (f := Term.rename ρ) ?_ (fun _ _ => coerceFields_rename rest)
        fun _ _ => rfl
      rw [Step.down, coerce_rename a, map_mapError, Step.down]
termination_by fields => (sizeOf fields, 0)

end

theorem coerceFrom_rename (origin : Origin) (a : Arg) :
    (a.rename ρ).coerceFrom origin = (a.coerceFrom origin).map (Term.rename ρ) := by
  rw [coerceFrom, coerce_rename, map_mapError, coerceFrom]

end Arg

/-! ### Operations -/

section Operations

variable (ρ : UInt64 → UInt64)

def Arguments.rename (args : Arguments) : Arguments := ⟨args.items.map (Arg.rename ρ)⟩

def Options.rename (options : Options) : Options := ⟨Fields.mapValues (Arg.rename ρ) options.fields⟩

theorem Arguments.rename_push (args : Arguments) (a : Arg) :
    (args.push a).rename ρ = (args.rename ρ).push (a.rename ρ) := by
  rw [rename, rename, push, push, List.map_append, Arg.leaves_rename, Arg.renameItems_eq_map]

theorem Arguments.rename_extend (args : Arguments) (items : List Arg) :
    (args.extend items).rename ρ = (args.rename ρ).extend (items.map (Arg.rename ρ)) := by
  induction items generalizing args with
  | nil => rfl
  | cons a rest ih =>
      change ((args.push a).extend rest).rename ρ = _
      rw [ih, rename_push]
      rfl

theorem Arguments.rename_ofList (items : List Arg) :
    (ofList items).rename ρ = ofList (items.map (Arg.rename ρ)) :=
  rename_extend ρ {} items

theorem Options.rename_insert (options : Options) (name : String) (value : Arg) :
    (options.insert name value).rename ρ = (options.rename ρ).insert name (value.rename ρ) := by
  rw [rename, rename, insert, insert, Fields.insert_mapValues]

theorem Options.rename_ofList (pairs : List (String × Arg)) :
    (ofList pairs).rename ρ = ofList (Fields.mapValues (Arg.rename ρ) pairs) := by
  rw [rename, ofList, ofList, Fields.ofList_mapValues]

theorem Arguments.freezeFrom_rename (items : List Arg) (index : Nat) :
    freezeFrom (items.map (Arg.rename ρ)) index =
      (freezeFrom items index).map (List.map (Term.rename ρ)) := by
  induction items generalizing index with
  | nil => rfl
  | cons a rest ih =>
      rw [List.map_cons, freezeFrom, freezeFrom]
      exact map_bind_bind (Arg.coerceFrom_rename ρ _ a) (fun _ _ => ih (index + 1)) fun _ _ => rfl

theorem Options.freezeFields_rename (fields : Fields Arg) :
    freezeFields (Fields.mapValues (Arg.rename ρ) fields) =
      (freezeFields fields).map (Fields.mapValues (Term.rename ρ)) := by
  induction fields with
  | nil => rfl
  | cons f rest ih =>
      obtain ⟨name, a⟩ := f
      rw [Fields.mapValues_cons, freezeFields, freezeFields]
      exact map_bind_bind (Arg.coerceFrom_rename ρ _ a) (fun _ _ => ih) fun _ _ => rfl

theorem Options.freezeFor_rename (options : Options) (kind : Kind) :
    (options.rename ρ).freezeFor kind =
      (options.freezeFor kind).map (Fields.mapValues (Term.rename ρ)) := by
  have hnames : (options.rename ρ).names = options.names := by
    rw [names, rename, Fields.names_mapValues, names]
  rw [freezeFor, freezeFor, firstUnsupported?, firstUnsupported?, hnames]
  split
  · rfl
  · exact freezeFields_rename ρ options.fields

namespace Term

theorem make_rename {kind : Kind} (hkind : kind.Plain) (receiver : Option Term)
    (args : Arguments) (options : Options) :
    make kind (receiver.map (rename ρ)) (args.rename ρ) (options.rename ρ) =
      (make kind receiver args options).map (rename ρ) := by
  have hargs : (args.rename ρ).freeze = args.freeze.map (List.map (rename ρ)) :=
    Arguments.freezeFrom_rename ρ args.items 0
  have hpositional : ∀ terms : List Term, (receiver.map (rename ρ)).toList ++
      terms.map (rename ρ) = (receiver.toList ++ terms).map (rename ρ) := by
    intro terms
    rw [List.map_append, Option.toList_map]
  by_cases hdatum : kind = .datum
  · rw [make, make, if_pos hdatum, if_pos hdatum]
    rfl
  · rw [make, make, if_neg hdatum, if_neg hdatum, hargs, Options.freezeFor_rename]
    cases args.freeze with
    | error e => rfl
    | ok terms =>
        cases options.freezeFor kind with
        | error e => rfl
        | ok named =>
            change (if _ then _ else _) = Except.map _ (if _ then _ else _)
            rw [hpositional, List.length_map]
            split
            · rw [Except.map, rename_node_of_plain ρ hkind]
            · rfl

theorem chain_rename {kind : Kind} (hkind : kind.Plain) (receiver : Term) (args : List Arg)
    (options : Options) :
    (receiver.rename ρ).chain kind (.ofList (args.map (Arg.rename ρ))) (options.rename ρ) =
      (receiver.chain kind (.ofList args) options).map (rename ρ) := by
  rw [← Arguments.rename_ofList]
  exact make_rename ρ hkind (some receiver) (.ofList args) options

/-! ### Operations made piece by piece -/

def Piece.rename : Piece → Piece
  | .receiver t => .receiver (t.rename ρ)
  | .arg a => .arg (a.rename ρ)
  | .args items => .args (items.map (Arg.rename ρ))
  | .option name value => .option name (value.rename ρ)

def Draft.rename (draft : Draft) : Draft :=
  ⟨draft.kind, draft.receiver.map (Term.rename ρ), draft.args.rename ρ, draft.options.rename ρ⟩

theorem Draft.rename_add (draft : Draft) (piece : Piece) :
    (draft.add piece).rename ρ = (draft.rename ρ).add (piece.rename ρ) := by
  cases piece with
  | receiver t => rfl
  | arg a => simp only [rename, add, Piece.rename, Arguments.rename_push]
  | args items => simp only [rename, add, Piece.rename, Arguments.rename_extend]
  | option name value => simp only [rename, add, Piece.rename, Options.rename_insert]

theorem Draft.rename_foldl (script : List Piece) (draft : Draft) :
    (script.map (Piece.rename ρ)).foldl add (draft.rename ρ) =
      (script.foldl add draft).rename ρ := by
  induction script generalizing draft with
  | nil => rfl
  | cons piece rest ih => rw [List.map_cons, List.foldl_cons, ← rename_add, ih, List.foldl_cons]

theorem ofScript_rename {kind : Kind} (hkind : kind.Plain) (script : List Piece) :
    ofScript kind (script.map (Piece.rename ρ)) = (ofScript kind script).map (Term.rename ρ) := by
  have hplain : (script.foldl Draft.add { kind }).kind.Plain := by
    rw [Draft.kind_foldl]
    exact hkind
  have hfold := Draft.rename_foldl ρ script { kind }
  change ((script.map (Piece.rename ρ)).foldl Draft.add (Draft.rename ρ { kind })).build = _
  rw [hfold]
  exact make_rename ρ hplain _ _ _

end Term
end Operations

/-! ### Asking for an identifier -/

/-- `Matched f ρ s s' r r'`: either neither of two calls took an identifier and
the second result is the image of the first one under `f`, or both took one,
and then this is so if `ρ` leads from the one identifier to the other. -/
def Matched {α β : Type} (f : α → β) (ρ : UInt64 → UInt64) (s s' : IdSupply)
    (r : α × IdSupply) (r' : β × IdSupply) : Prop :=
  (r.2 = s ∧ r'.2 = s' ∧ r'.1 = f r.1) ∨
    (r.2 = s.take.2 ∧ r'.2 = s'.take.2 ∧ (ρ s.next = s'.next → r'.1 = f r.1))

section Matched

variable (ρ : UInt64 → UInt64) (s s' : IdSupply)

variable {ρ s s'} in
theorem Matched.map {α β γ δ : Type} {f : α → β} {h : γ → δ} {r : α × IdSupply}
    {r' : β × IdSupply} (hr : Matched f ρ s s' r r') (g : α → γ) (g' : β → δ)
    (hg : ∀ a, g' (f a) = h (g a)) : Matched h ρ s s' (g r.1, r.2) (g' r'.1, r'.2) := by
  rcases hr with ⟨hs, hs', hr⟩ | ⟨hs, hs', hr⟩
  · refine .inl ⟨hs, hs', ?_⟩
    rw [hr, hg]
  · refine .inr ⟨hs, hs', fun hρ => ?_⟩
    rw [hr hρ, hg]

theorem matched_of_eq {α β : Type} {f : α → β} {a : α} {b : β} (h : b = f a) :
    Matched f ρ s s' (a, s) (b, s') :=
  .inl ⟨rfl, rfl, h⟩

namespace Term

theorem wrap_matched (t : Term) :
    Matched (rename ρ) ρ s s' (t.wrap s) ((t.rename ρ).wrap s') := by
  rw [wrap, wrap, hasImplicitVar_rename]
  split
  · refine .inr ⟨rfl, rfl, fun h => ?_⟩
    change wrapped s'.next (t.rename ρ) = (wrapped s.next t).rename ρ
    rw [rename_wrapped, h]
  · exact .inl ⟨rfl, rfl, rfl⟩

theorem chainWrapped_matched {kind : Kind} (hkind : kind.Plain) (receiver : Term) (a : Arg)
    (options : Options) :
    Matched (Except.map (rename ρ)) ρ s s' (receiver.chainWrapped kind a options s)
      ((receiver.rename ρ).chainWrapped kind (a.rename ρ) (options.rename ρ) s') := by
  have hterm : (a.rename ρ).toTerm = a.toTerm.map (rename ρ) := Arg.coerceFrom_rename ρ .value a
  rw [chainWrapped, chainWrapped, hterm]
  cases a.toTerm with
  | error e => exact .inl ⟨rfl, rfl, rfl⟩
  | ok t =>
      exact (wrap_matched ρ s s' t).map
        (fun t => receiver.chain kind (.ofList [.term t]) options)
        (fun t => (receiver.rename ρ).chain kind (.ofList [.term t]) (options.rename ρ))
        fun t => chain_rename ρ hkind receiver [.term t] options

end Term

theorem Operation.apply_matched {o : Operation} (hkind : o.kind.Plain) (receiver : Term)
    (args : List Arg) (options : Options) :
    Matched (Except.map (Term.rename ρ)) ρ s s' (o.apply receiver args options s)
      (o.apply (receiver.rename ρ) (args.map (Arg.rename ρ)) (options.rename ρ) s') := by
  have hnone : Options.rename ρ {} = {} := rfl
  by_cases hone : ∃ a, o.takesFunction = true ∧ args = [a]
  · obtain ⟨a, htakes, rfl⟩ := hone
    have hoptions : (if o.kind = .filter then options.rename ρ else {}) =
        (if o.kind = .filter then options else {}).rename ρ := by
      split <;> rfl
    simp only [apply, htakes, List.map_cons, List.map_nil, hoptions]
    exact Term.chainWrapped_matched ρ s s' hkind receiver a _
  · have hplain : ∀ (receiver : Term) (args : List Arg) (options : Options) (s : IdSupply),
        (¬ ∃ a, o.takesFunction = true ∧ args = [a]) →
        o.apply receiver args options s = (receiver.chain o.kind (.ofList args) {}, s) := by
      intro receiver args options s hone
      unfold apply
      split
      · rename_i a htakes
        exact absurd ⟨a, htakes, rfl⟩ hone
      · rfl
    have hone' : ¬ ∃ a, o.takesFunction = true ∧ args.map (Arg.rename ρ) = [a] := by
      rintro ⟨a, htakes, hargs⟩
      obtain ⟨b, rfl, -⟩ := List.map_eq_singleton_iff.mp hargs
      exact hone ⟨b, htakes, rfl⟩
    rw [hplain _ _ _ _ hone, hplain _ _ _ _ hone']
    exact matched_of_eq ρ s s' (Term.chain_rename ρ hkind receiver args {})

/-! ### Calls -/

namespace Template

variable (σ : Nat → Term)

mutual

theorem fill_rename : ∀ a : Template, a.fill (Term.rename ρ ∘ σ) = (a.fill σ).rename ρ
  | .term _ => by simp only [fill, Arg.rename]; rfl
  | .value _ _ => by simp only [fill, Arg.rename]
  | .array items => by rw [fill, fill, Arg.rename, fillItems_rename items, Arg.renameItems_eq_map]
  | .object fields => by
      rw [fill, fill, Arg.rename, fillFields_rename fields, Arg.renameFields_eq_mapValues,
        Fields.ofList_mapValues]
  | .bundle items => by rw [fill, fill, Arg.rename, fillItems_rename items, Arg.renameItems_eq_map]

theorem fillItems_rename : ∀ items : List Template,
    fillItems (Term.rename ρ ∘ σ) items = (fillItems σ items).map (Arg.rename ρ)
  | [] => by simp only [fillItems, List.map_nil]
  | a :: rest => by rw [fillItems, fillItems, fill_rename a, fillItems_rename rest, List.map_cons]

theorem fillFields_rename : ∀ fields : List (String × Template),
    fillFields (Term.rename ρ ∘ σ) fields = Fields.mapValues (Arg.rename ρ) (fillFields σ fields)
  | [] => by simp only [fillFields, Fields.mapValues_nil]
  | (name, a) :: rest => by
      rw [fillFields, fillFields, fill_rename a, fillFields_rename rest, Fields.mapValues_cons]

end

theorem Piece.fill_rename (piece : Piece) :
    piece.fill (Term.rename ρ ∘ σ) = (piece.fill σ).rename ρ := by
  cases piece with
  | receiver n => rfl
  | arg a => rw [fill, Template.fill_rename, fill, Term.Piece.rename]
  | args items => rw [fill, fillItems_rename, fill, Term.Piece.rename]
  | option name a => rw [fill, Template.fill_rename, fill, Term.Piece.rename]

end Template

/-- Taking terms apart commutes with renaming where it is not barred. -/
theorem Term.child?_rename {t : Term} {position : Position} (h : t.isSealed position = false) :
    (t.rename ρ).child? position = (t.child? position).map (rename ρ) := by
  cases t with
  | datum d => cases position <;> rfl
  | node kind args options =>
      have hoption : ∀ (args args' : List Term) (name : String),
          (node kind args' (Fields.mapValues (rename ρ) options)).child? (.option name) =
            ((node kind args options).child? (.option name)).map (rename ρ) :=
        fun _ _ name => Fields.get?_mapValues (rename ρ) options name
      by_cases hvar : kind = .var
      · simp [isSealed, Term.kind, hvar] at h
      by_cases hfunc : kind = .func
      · subst hfunc
        rcases args with _ | ⟨listing, rest⟩
        · rw [rename_node_func_nil]
          rcases position with index | name
          · rfl
          · exact hoption [] [] name
        · rw [rename_node_func]
          rcases position with ⟨_ | index⟩ | name
          · simp [isSealed, Term.kind] at h
          · simp [child?, arg?, Term.args]
          · exact hoption _ _ name
      · rw [rename_node_of_plain ρ ⟨hfunc, hvar⟩]
        rcases position with index | name
        · simp [child?, arg?, Term.args]
        · exact hoption _ _ name

theorem map_singleton_rename (x : Except Error Term) :
    (x.map (Term.rename ρ)).map List.singleton =
      (x.map List.singleton).map (List.map (Term.rename ρ)) := by
  cases x <;> rfl

/-- A call does not notice a renaming of the terms that it is given. -/
theorem Call.perform_matched (c : Call) (σ : Nat → Term) :
    Matched (Except.map (List.map (Term.rename ρ))) ρ s s' (c.perform σ s)
      (c.perform (Term.rename ρ ∘ σ) s') := by
  cases c with
  | make kind plain receiver args options =>
      refine matched_of_eq ρ s s' ?_
      rw [← map_singleton_rename, Template.fillItems_rename, Template.fillFields_rename,
        ← Option.map_map, ← Arguments.rename_ofList, ← Options.rename_ofList,
        Term.make_rename ρ plain]
  | build kind plain script =>
      refine matched_of_eq ρ s s' ?_
      have hscript : script.map (Template.Piece.fill (Term.rename ρ ∘ σ)) =
          (script.map (Template.Piece.fill σ)).map (Term.Piece.rename ρ) := by
        rw [List.map_map]
        exact List.map_congr_left fun piece _ => Template.Piece.fill_rename ρ σ piece
      rw [hscript, Term.ofScript_rename ρ plain, map_singleton_rename]
  | apply operation plain receiver args options =>
      have h := Operation.apply_matched ρ s s' plain (σ receiver) (Template.fillItems σ args)
        (.ofList (Template.fillFields σ options))
      rw [Options.rename_ofList, ← Template.fillItems_rename, ← Template.fillFields_rename] at h
      exact h.map (Except.map List.singleton) (Except.map List.singleton) (map_singleton_rename ρ)
  | coerce value =>
      refine matched_of_eq ρ s s' ?_
      rw [Template.fill_rename, ← map_singleton_rename]
      exact congrArg (Except.map List.singleton) (Arg.coerceFrom_rename ρ .value (value.fill σ))
  | given t plain =>
      refine matched_of_eq ρ s s' ?_
      rw [Except.map, List.map_singleton, Term.rename_of_plain ρ plain]
  | wrap n =>
      let single : Term → Except Error (List Term) := fun t => .ok [t]
      exact (Term.wrap_matched ρ s s' (σ n)).map single single fun _ => rfl
  | part n position =>
      refine matched_of_eq ρ s s' (congrArg Except.ok ?_)
      have hsealed : ((σ n).rename ρ).isSealed position = (σ n).isSealed position := by
        rw [Term.isSealed, Term.kind_rename, Term.isSealed]
      rw [Function.comp_apply, hsealed]
      cases h : (σ n).isSealed position with
      | true => rfl
      | false =>
          rw [Term.child?_rename ρ h, Option.toList_map]
          rfl

end Matched

/-! ### Actions -/

namespace Workspace

variable (ρ : UInt64 → UInt64)

def rename (w : Workspace) : Workspace where
  terms := w.terms.map (Term.rename ρ)
  opened := w.opened.map (List.map ρ)
  made := w.made.map fun call => (call.1.map ρ, call.2.rename ρ)
  drawn := w.drawn.map ρ

theorem term_rename (w : Workspace) : (w.rename ρ).term = Term.rename ρ ∘ w.term := by
  funext n
  have himplicit : Term.implicitVar.rename ρ = .implicitVar :=
    Term.rename_of_plain ρ Term.plain_implicitVar
  rw [term, Function.comp_apply, term, List.getD_eq_getElem?_getD, List.getD_eq_getElem?_getD,
    rename, List.getElem?_map]
  cases w.terms[n]? with
  | none => exact himplicit.symm
  | some t => rfl

theorem rename_keep (w : Workspace) (answer : Except Error (List Term)) :
    (w.keep answer).rename ρ = (w.rename ρ).keep (answer.map (List.map (Term.rename ρ))) := by
  cases answer <;> simp [keep, rename, Except.map, Except.toOption]

/-- An action does not notice a renaming of the workspace: it takes as many
identifiers, and if these correspond so do the answers and the workspaces. -/
theorem act_rename (w : Workspace) (s s' : IdSupply) (a : Action) :
    ((w.rename ρ).act s' a).workspace.drawn.length = (w.act s a).workspace.drawn.length ∧
      (((w.rename ρ).act s' a).workspace.drawn = (w.act s a).workspace.drawn.map ρ →
        ((w.rename ρ).act s' a).workspace = (w.act s a).workspace.rename ρ ∧
          ((w.rename ρ).act s' a).answer =
            (w.act s a).answer.map (List.map (Term.rename ρ))) := by
  cases a with
  | call c =>
      have hmatched := c.perform_matched ρ s s' w.term
      rw [← term_rename] at hmatched
      rw [act_call, act_call]
      rcases hmatched with ⟨hs, hs', hanswer⟩ | ⟨hs, hs', hanswer⟩
      · rw [hs, hs', hanswer, s.upTo_self, s'.upTo_self]
        refine ⟨by simp [keep, rename], fun _ => ⟨?_, rfl⟩⟩
        rw [rename_keep]
        simp [rename]
      · rw [hs, hs', s.upTo_take, s'.upTo_take]
        refine ⟨by simp [keep, rename], fun hdrawn => ?_⟩
        -- the identifier of the wrapper is the last one that was drawn
        have hlast : w.drawn.map ρ ++ [s'.next] = (w.drawn ++ [s.next]).map ρ := hdrawn
        have hnext : ρ s.next = s'.next := by
          rw [List.map_append] at hlast
          exact (List.singleton_inj.mp (List.append_cancel_left hlast)).symm
        rw [hanswer hnext]
        refine ⟨?_, rfl⟩
        rw [rename_keep]
        simp [rename, hnext]
  | enter count =>
      rw [act_enter, act_enter]
      refine ⟨by simp [keep, rename], fun hdrawn => ?_⟩
      have hlast : w.drawn.map ρ ++ (s'.takeBlock count).1 =
          (w.drawn ++ (s.takeBlock count).1).map ρ := hdrawn
      have hids : (s'.takeBlock count).1 = (s.takeBlock count).1.map ρ := by
        rw [List.map_append] at hlast
        exact List.append_cancel_left hlast
      have hanswer : (.ok ((s'.takeBlock count).1.map Term.var) : Except Error (List Term)) =
          (.ok ((s.takeBlock count).1.map Term.var) : Except Error (List Term)).map
            (List.map (Term.rename ρ)) := by
        rw [hids, Except.map, List.map_map, List.map_map]
        exact congrArg Except.ok (List.map_congr_left fun id _ => (Term.rename_var ρ id).symm)
      refine ⟨?_, hanswer⟩
      rw [rename_keep, hanswer, hids]
      simp [rename]
  | leave n =>
      cases hw : w.opened with
      | nil =>
          have hw' : (w.rename ρ).opened = [] := by simp [rename, hw]
          rw [act_leave_nil hw, act_leave_nil hw']
          exact ⟨by simp [rename], fun _ => ⟨rfl, rfl⟩⟩
      | cons ids rest =>
          have hw' : (w.rename ρ).opened = ids.map ρ :: rest.map (List.map ρ) := by
            simp [rename, hw]
          rw [act_leave_cons hw, act_leave_cons hw', term_rename, Function.comp_apply,
            ← Term.rename_functionNode]
          exact ⟨by simp [rename], fun _ => ⟨by simp [rename], rfl⟩⟩
  | fail =>
      refine ⟨by simp [act, rename], fun _ => ⟨?_, rfl⟩⟩
      simp [act, rename]

end Workspace
end Reql
