import Reql.Proofs.Term.Closure
import Reql.Proofs.Wire.Sendable

/-!
Which node an encoding error is about.

The encoder comes to the nodes of a term in a fixed order, a node before its
arguments and these before its options, and stops at the first one to which it
objects. The objection is passed on by all nodes above, and only the parent
adds its place to it. The induction is on the term, over the list of all visits
below a place; what it carries is that an error from a child has its place
already, so that no parent further out changes it.
-/

namespace Reql

/-! ### Visits -/

/-- A node as the encoder comes to it. -/
structure Visit where
  /-- The level of the node; the root is at level one. -/
  depth : Nat
  /-- The kind of the parent and the position there, unless the node is the
  root. -/
  place : Option (Kind × Position)
  node : Term

namespace Term

mutual

def visitsAt : Term → Nat → Option (Kind × Position) → List Visit
  | .datum value, depth, place => [⟨depth, place, .datum value⟩]
  | .node kind args options, depth, place =>
      ⟨depth, place, .node kind args options⟩ ::
        (visitsOfArgs kind args 0 (depth + 1) ++ visitsOfOptions kind options (depth + 1))

def visitsOfArgs (parent : Kind) : List Term → Nat → Nat → List Visit
  | [], _, _ => []
  | t :: rest, index, depth =>
      t.visitsAt depth (some (parent, .argument index)) ++
        visitsOfArgs parent rest (index + 1) depth

def visitsOfOptions (parent : Kind) : List (String × Term) → Nat → List Visit
  | [], _ => []
  | (name, t) :: rest, depth =>
      t.visitsAt depth (some (parent, .option name)) ++ visitsOfOptions parent rest depth

end

def visits (t : Term) : List Visit := t.visitsAt 1 none

theorem visitsAt_eq_cons (t : Term) (depth : Nat) (place : Option (Kind × Position)) :
    ∃ below, t.visitsAt depth place = ⟨depth, place, t⟩ :: below := by
  cases t <;> exact ⟨_, rfl⟩

theorem exists_of_mem_visitsOfArgs {parent : Kind} {args : List Term} {index depth : Nat}
    {v : Visit} (h : v ∈ visitsOfArgs parent args index depth) :
    ∃ (i : Nat) (c : Term), args[i]? = some c ∧
      v ∈ c.visitsAt depth (some (parent, .argument (index + i))) := by
  induction args generalizing index with
  | nil => exact absurd h List.not_mem_nil
  | cons t rest ih =>
      rcases List.mem_append.mp h with h | h
      · exact ⟨0, t, rfl, h⟩
      · obtain ⟨i, c, hc, hv⟩ := ih h
        refine ⟨i + 1, c, hc, ?_⟩
        rw [← Nat.add_assoc, Nat.add_right_comm]
        exact hv

theorem exists_of_mem_visitsOfOptions {parent : Kind} {options : Fields Term} {depth : Nat}
    {v : Visit} (h : v ∈ visitsOfOptions parent options depth) :
    ∃ o ∈ options, v ∈ o.2.visitsAt depth (some (parent, .option o.1)) := by
  induction options with
  | nil => exact absurd h List.not_mem_nil
  | cons o rest ih =>
      obtain ⟨name, t⟩ := o
      rcases List.mem_append.mp h with h | h
      · exact ⟨(name, t), List.mem_cons_self, h⟩
      · obtain ⟨o, ho, hv⟩ := ih h
        exact ⟨o, List.mem_cons_of_mem _ ho, hv⟩

/-- `IsParent t p v`: the parent of a visited node, at the end of a path from
`t`. -/
def IsParent (t p : Term) (v : Visit) : Prop :=
  ∃ path position, t.at? path = some p ∧ v.place = some (p.kind, position) ∧
    p.child? position = some v.node

theorem IsParent.child {t c p : Term} {v : Visit} {position : Position}
    (h : IsParent c p v) (hc : t.child? position = some c) : IsParent t p v := by
  obtain ⟨path, last, hpath, hv⟩ := h
  refine ⟨position :: path, last, ?_, hv⟩
  rw [at?, hc]
  exact hpath

/-- `HaveParents t`: all visits after the first one, which is to `t` itself,
have a parent. -/
def HaveParents (t : Term) : Prop :=
  ∀ depth place below, t.visitsAt depth place = ⟨depth, place, t⟩ :: below →
    ∀ v ∈ below, ∃ p, IsParent t p v

theorem HaveParents.of_child {t c : Term} {position : Position} {depth : Nat} {v : Visit}
    (h : c.HaveParents) (hc : t.child? position = some c)
    (hv : v ∈ c.visitsAt depth (some (t.kind, position))) : ∃ p, IsParent t p v := by
  obtain ⟨below, hbelow⟩ := c.visitsAt_eq_cons depth (some (t.kind, position))
  rw [hbelow] at hv
  rcases List.mem_cons.mp hv with rfl | hv
  · exact ⟨t, [], position, rfl, rfl, hc⟩
  · obtain ⟨p, hp⟩ := h _ _ _ hbelow v hv
    exact ⟨p, hp.child hc⟩

theorem haveParents {t : Term} (ht : t.WellFormed) : t.HaveParents := by
  induction t with
  | datum value =>
      intro depth place below h
      obtain rfl := (List.cons.inj h).2
      exact List.forall_mem_nil _
  | node kind args options ihArgs ihOptions =>
      obtain ⟨hlawful, hargs, hoptions⟩ := wellFormed_node_iff.mp ht
      intro depth place below h v hv
      obtain rfl := (List.cons.inj h).2
      rcases List.mem_append.mp hv with hv | hv
      · obtain ⟨i, c, hc, hv⟩ := exists_of_mem_visitsOfArgs hv
        rw [Nat.zero_add] at hv
        have hmem : c ∈ args := List.mem_of_getElem? hc
        have hchild : (node kind args options).child? (.argument i) = some c := hc
        exact (ihArgs c hmem (hargs c hmem)).of_child hchild hv
      · obtain ⟨o, ho, hv⟩ := exists_of_mem_visitsOfOptions hv
        have hchild : (node kind args options).child? (.option o.1) = some o.2 :=
          Fields.get?_of_mem (lawful_node_iff.mp hlawful).2.2.2 ho
        exact (ihOptions o ho (hoptions o ho)).of_child hchild hv

end Term

/-! ### Objections -/

theorem Term.datum?_eq_some_iff {t : Term} {d : Datum} : t.datum? = some d ↔ t = .datum d := by
  cases t <;> simp [datum?]

namespace Error

/-- `seenFrom place child` is an error at a term as it is seen from outside;
the outermost term is not seen from anywhere. -/
def seenFrom (place : Option (Kind × Position)) (child : Kind) (source : Error) : Error :=
  match place with
  | none => source
  | some (parent, position) => source.locate parent position child

/-- `x.Placed`: the error has a place in the term. -/
def Placed (x : Error) : Prop := ∃ p q c s, x = .encode p q c s

theorem placed_locate (x : Error) (parent : Kind) (position : Position) (child : Kind) :
    (x.locate parent position child).Placed := by
  cases x <;> exact ⟨_, _, _, _, rfl⟩

theorem Placed.seenFrom_eq {x : Error} (h : x.Placed) (place : Option (Kind × Position))
    (child : Kind) : x.seenFrom place child = x := by
  obtain ⟨_, _, _, _, rfl⟩ := h
  cases place <;> rfl

end Error

namespace Encoder

variable {e : Encoder}

/-- `e.Rejects v`: the node is below the limit, or it is a datum that is not
sent. -/
def Rejects (e : Encoder) (v : Visit) : Prop :=
  (∃ limit ∈ e.maxDepth, limit < v.depth) ∨ ∃ d, v.node = .datum d ∧ ¬ d.Sendable

/-- `e.Objects v x`: what the encoder objects to in the node itself, its depth
and only then its value. -/
inductive Objects (e : Encoder) (v : Visit) : Error → Prop
  | depth {limit : Nat} : e.maxDepth = some limit → limit < v.depth →
      Objects e v (.depthExceeded limit)
  | value {d : Datum} : (∀ limit ∈ e.maxDepth, v.depth ≤ limit) → v.node = .datum d →
      ¬ d.Sendable → Objects e v (.unencodable d)

def refusal? (value : Datum) : Option Error :=
  if value.toScalar?.isSome then none else some (.unencodable value)

def objection? (e : Encoder) (v : Visit) : Option Error :=
  (failure? (e.admits v.depth)).or (v.node.datum?.bind refusal?)

theorem failure?_admits_eq_some_iff {d : Nat} {x : Error} :
    failure? (e.admits d) = some x ↔
      ∃ limit ∈ e.maxDepth, limit < d ∧ x = .depthExceeded limit := by
  rw [failure?_eq_some_iff, admits]
  cases e.maxDepth with
  | none => simp
  | some limit => by_cases h : limit < d <;> simp [h, eq_comm]

theorem failure?_admits_eq_none_iff {d : Nat} :
    failure? (e.admits d) = none ↔ ∀ limit ∈ e.maxDepth, d ≤ limit := by
  rw [failure?_eq_none_iff, admits]
  cases e.maxDepth with
  | none => simp
  | some limit => by_cases h : limit < d <;> simp [h, Nat.not_le.mpr, Nat.not_lt.mp]

theorem refusal?_eq_some_iff {value : Datum} {x : Error} :
    refusal? value = some x ↔ ¬ value.Sendable ∧ x = .unencodable value := by
  rw [refusal?, ← Datum.exists_toScalar?_iff]
  cases value.toScalar? <;> simp [eq_comm]

theorem objection?_eq_some_iff {v : Visit} {x : Error} :
    e.objection? v = some x ↔ e.Objects v x := by
  rw [objection?, Option.or_eq_some_iff, failure?_admits_eq_some_iff, failure?_admits_eq_none_iff,
    Option.bind_eq_some_iff]
  simp only [refusal?_eq_some_iff]
  constructor
  · rintro (⟨limit, hlimit, hdepth, rfl⟩ | ⟨hdepth, d, hd, hsend, rfl⟩)
    · exact .depth hlimit hdepth
    · exact .value hdepth (Term.datum?_eq_some_iff.mp hd) hsend
  · rintro (⟨hlimit, hdepth⟩ | ⟨hdepth, hnode, hsend⟩)
    · exact .inl ⟨_, hlimit, hdepth, rfl⟩
    · exact .inr ⟨hdepth, _, Term.datum?_eq_some_iff.mpr hnode, hsend, rfl⟩

theorem exists_objects_iff {v : Visit} : (∃ x, e.Objects v x) ↔ e.Rejects v := by
  constructor
  · rintro ⟨x, h⟩
    cases h with
    | depth hlimit hdepth => exact .inl ⟨_, hlimit, hdepth⟩
    | value _ hnode hsend => exact .inr ⟨_, hnode, hsend⟩
  · intro h
    by_cases hdepth : ∃ limit ∈ e.maxDepth, limit < v.depth
    · obtain ⟨limit, hlimit, hlt⟩ := hdepth
      exact ⟨_, .depth hlimit hlt⟩
    · obtain ⟨d, hnode, hsend⟩ := h.resolve_left hdepth
      exact ⟨_, .value (fun limit hlimit => Nat.not_lt.mp fun hlt => hdepth ⟨limit, hlimit, hlt⟩)
        hnode hsend⟩

/-! ### The first objection -/

def report? (e : Encoder) (v : Visit) : Option Error :=
  (e.objection? v).map (.seenFrom v.place v.node.kind)

/-- What has a place already looks the same from everywhere. -/
theorem map_seenFrom_of_placed {α : Type} {x : Except Error α}
    (h : ∀ y, x = .error y → y.Placed) (place : Option (Kind × Position)) (child : Kind) :
    (failure? x).map (.seenFrom place child) = failure? x := by
  cases x with
  | ok a => rfl
  | error y => exact congrArg some ((h y rfl).seenFrom_eq place child)

/-- `e.FailsFirst t`: the encoding fails with the first `report?` from the
visits to `t`. -/
def FailsFirst (e : Encoder) (t : Term) : Prop :=
  ∀ depth place, (failure? (e.encodeAt t depth)).map (.seenFrom place t.kind) =
    (t.visitsAt depth place).findSome? e.report?

theorem failure?_encodeArgs {parent : Kind} {args : List Term} (h : ∀ t ∈ args, e.FailsFirst t)
    (index depth : Nat) :
    failure? (e.encodeArgs parent args index depth) =
      (Term.visitsOfArgs parent args index depth).findSome? e.report? := by
  induction args generalizing index with
  | nil => rfl
  | cons t rest ih =>
      obtain ⟨ht, hrest⟩ := List.forall_mem_cons.mp h
      rw [encodeArgs, failure?_bind_cons, failure?_mapError, ih hrest, Term.visitsOfArgs,
        List.findSome?_append, ← ht]
      rfl

theorem failure?_encodeOptions {parent : Kind} {options : Fields Term}
    (h : ∀ o ∈ options, e.FailsFirst o.2) (depth : Nat) :
    failure? (e.encodeOptions parent options depth) =
      (Term.visitsOfOptions parent options depth).findSome? e.report? := by
  induction options with
  | nil => rfl
  | cons o rest ih =>
      obtain ⟨name, t⟩ := o
      obtain ⟨ht, hrest⟩ := List.forall_mem_cons.mp h
      rw [encodeOptions, failure?_bind_cons, failure?_mapError, ih hrest, Term.visitsOfOptions,
        List.findSome?_append, ← ht]
      rfl

theorem failsFirst (t : Term) : e.FailsFirst t := by
  induction t with
  | datum value =>
      intro depth place
      have hvalue : failure? (e.encodeAt (.datum value) depth) =
          e.objection? ⟨depth, place, .datum value⟩ := by
        rw [encodeAt, failure?_bind (o := refusal? value) fun _ _ => ?_]
        · rfl
        · rw [refusal?]
          cases value.toScalar? <;> rfl
      rw [hvalue, Term.visitsAt, List.findSome?_singleton]
      rfl
  | node kind args options ihArgs ihOptions =>
      intro depth place
      have hroot : (failure? (e.admits depth)).map (.seenFrom place kind) =
          e.report? ⟨depth, place, .node kind args options⟩ := by
        rw [report?, objection?, Term.datum?, Option.bind_none, Option.or_none]
        rfl
      -- what the children fail with has a place, and stays as it is
      rw [Term.kind, encodeAt, failure?_bind fun _ _ => failure?_bind fun _ _ => failure?_bind_ok,
        Option.map_or, Option.map_or, hroot, map_seenFrom_of_placed fun _ =>
          error_of_encodeArgs fun t _ y _ position => y.placed_locate kind position t.kind,
        map_seenFrom_of_placed fun _ =>
          error_of_encodeOptions fun o _ y _ position => y.placed_locate kind position o.2.kind,
        failure?_encodeArgs ihArgs,
        failure?_encodeOptions ihOptions, Term.visitsAt, List.findSome?_cons,
        List.findSome?_append]
      cases e.report? ⟨depth, place, .node kind args options⟩ <;> rfl

theorem failure?_encode (t : Term) : failure? (e.encode t) = t.visits.findSome? e.report? := by
  have hroot : (failure? (e.encode t)).map (.seenFrom none t.kind) = failure? (e.encode t) := by
    cases e.encode t <;> rfl
  rw [← hroot]
  exact failsFirst t 1 none

theorem report?_eq_none_iff {v : Visit} : e.report? v = none ↔ ¬ e.Rejects v := by
  rw [report?, Option.map_eq_none_iff, ← exists_objects_iff, not_exists]
  simp only [← objection?_eq_some_iff]
  exact Option.eq_none_iff_forall_ne_some

/-- An encoder writes a well-formed term unless it rejects one of its nodes.
Otherwise it fails with its objection to the first node that it rejects, and
names the place of that node in its parent if the node is not the root. -/
theorem encode_reports_first_rejected (e : Encoder) {t : Term} (ht : t.WellFormed) :
    ((∀ v ∈ t.visits, ¬ e.Rejects v) → ∃ w, e.encode t = .ok w) ∧
      ∀ before v after, t.visits = before ++ v :: after → (∀ u ∈ before, ¬ e.Rejects u) →
        e.Rejects v → ∃ source, e.Objects v source ∧
          ((before = [] ∧ v.node = t ∧ e.encode t = .error source) ∨
            ∃ path p position, before ≠ [] ∧ t.at? path = some p ∧
              v.place = some (p.kind, position) ∧ p.child? position = some v.node ∧
              e.encode t = .error (.encode p.kind position v.node.kind source)) := by
  constructor
  · intro h
    rw [← failure?_eq_none_iff, failure?_encode, List.findSome?_eq_none_iff]
    exact fun v hv => report?_eq_none_iff.mpr (h v hv)
  · intro before v after hvisits hbefore hv
    obtain ⟨source, hsource⟩ := exists_objects_iff.mpr hv
    have hobjection : e.objection? v = some source := objection?_eq_some_iff.mpr hsource
    have hreport : e.encode t = .error (source.seenFrom v.place v.node.kind) := by
      have hnone : before.findSome? e.report? = none :=
        List.findSome?_eq_none_iff.mpr fun u hu => report?_eq_none_iff.mpr (hbefore u hu)
      have hfound : e.report? v = some (source.seenFrom v.place v.node.kind) := by
        rw [report?, hobjection]
        rfl
      rw [← failure?_eq_some_iff, failure?_encode, hvisits, List.findSome?_append, hnone,
        Option.none_or, List.findSome?_cons, hfound]
    refine ⟨source, hsource, ?_⟩
    -- the first visit is to the term itself, and all others have a parent
    obtain ⟨below, hbelow⟩ := t.visitsAt_eq_cons 1 none
    rw [Term.visits, hbelow] at hvisits
    cases before with
    | nil =>
        obtain rfl := (List.cons.inj hvisits).1
        exact .inl ⟨rfl, rfl, hreport⟩
    | cons u before =>
        obtain rfl := (List.cons.inj hvisits).2
        have hmem : v ∈ before ++ v :: after := List.mem_append_right _ List.mem_cons_self
        obtain ⟨p, path, position, hpath, hplace, hchild⟩ := Term.haveParents ht _ _ _ hbelow v hmem
        rw [hplace] at hreport
        refine .inr ⟨path, p, position, List.cons_ne_nil _ _, hpath, hplace, hchild, ?_⟩
        cases hsource <;> exact hreport

end Encoder

/-- A number that is not sent, on the third level. -/
def Term.deepNaN : Term := .array [.datum .null, .object [("a", .datum (.number .nan))]]

def Visit.toNaN : Visit := ⟨3, some (.makeObj, .option "a"), .datum (.number .nan)⟩

def Term.aboveNaN : List Visit :=
  [⟨1, none, .deepNaN⟩, ⟨2, some (.makeArray, .argument 0), .datum .null⟩,
    ⟨2, some (.makeArray, .argument 1), .object [("a", .datum (.number .nan))]⟩]

/-- With two levels the number is too deep, and its value is not looked at.
Without it the term is written. -/
theorem Encoder.encode_reports_first_rejected_deepNaN :
    ((Term.deepNaN.WellFormed ∧ Term.deepNaN.visits = Term.aboveNaN ++ [.toNaN] ∧
        (∀ u ∈ Term.aboveNaN, ¬ Rejects ⟨some 2⟩ u) ∧ Rejects ⟨some 2⟩ .toNaN) ∧
      ∃ p : Term, p.child? (.option "a") = some (.datum (.number .nan)) ∧
        encode ⟨some 2⟩ .deepNaN =
          .error (.encode .makeObj (.option "a") .datum (.depthExceeded 2))) ∧
      (∀ v ∈ (Term.array [.datum .null]).visits, ¬ Rejects ⟨some 2⟩ v) ∧
        ∃ w, encode ⟨some 2⟩ (.array [.datum .null]) = .ok w := by
  have hwell : Term.deepNaN.WellFormed := by
    refine Term.wellFormed_array ?_
    simp only [List.forall_mem_cons]
    refine ⟨trivial, Term.wellFormed_object (List.nodup_singleton _) ?_, List.forall_mem_nil _⟩
    exact List.forall_mem_singleton.mpr trivial
  have hvisits : Term.deepNaN.visits = Term.aboveNaN ++ [.toNaN] := rfl
  have hbefore : ∀ u ∈ Term.aboveNaN, ¬ Rejects ⟨some 2⟩ u := by
    simp [Rejects, Term.aboveNaN, Term.deepNaN, Term.array, Term.object, Datum.Sendable,
      Datum.isScalar]
  have hdeep : Rejects ⟨some 2⟩ .toNaN := .inl ⟨2, rfl, by decide⟩
  have hflat : Term.WellFormed (.array [.datum .null]) :=
    Term.wellFormed_array (List.forall_mem_singleton.mpr trivial)
  have hfree : ∀ v ∈ (Term.array [.datum .null]).visits, ¬ Rejects ⟨some 2⟩ v := by
    simp [Term.visits, Term.visitsAt, Term.visitsOfArgs, Term.visitsOfOptions, Term.array,
      Rejects, Datum.Sendable, Datum.isScalar]
  obtain ⟨source, hsource, herror⟩ :=
    (encode_reports_first_rejected ⟨some 2⟩ hwell).2 _ _ _ hvisits hbefore hdeep
  obtain rfl : source = .depthExceeded 2 := by
    cases hsource with
    | depth hlimit _ => rw [← Option.some.inj hlimit]
    | value hdepth _ _ => exact absurd (hdepth 2 rfl) (by decide)
  obtain ⟨path, p, position, -, -, hplace, hchild, hencode⟩ :=
    herror.resolve_left fun h => List.cons_ne_nil _ _ h.1
  obtain ⟨hkind, rfl⟩ := Prod.mk.inj (Option.some.inj hplace)
  rw [← hkind] at hencode
  exact ⟨⟨⟨hwell, hvisits, hbefore, hdeep⟩, p, hchild, hencode⟩, hfree,
    (encode_reports_first_rejected ⟨some 2⟩ hflat).1 hfree⟩

end Reql
