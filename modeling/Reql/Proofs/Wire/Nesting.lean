import Reql.Proofs.Wire.DepthLimit

/-!
How deep the encoding of a term is nested.

An operation is written as an array that holds the array of its arguments and
the object of its options, so each level of operations adds two to the nesting
of the JSON value; data add nothing. What decides is therefore the number of
levels on which an operation stands, `Term.operationDepth`. Data stand one
level below an operation, so that this is the depth of the term or one less,
and which of the two it is can be seen from the deepest nodes.
-/

namespace Reql

/-! ### Nesting of JSON values -/

namespace Json

mutual

/-- `v.nest` is how deep arrays and objects are nested in a value; a scalar is
not nested. -/
def nest : Json → Nat
  | .array items => 1 + nestOfItems items
  | .object fields => 1 + nestOfFields fields
  | _ => 0

def nestOfItems : List Json → Nat
  | [] => 0
  | v :: rest => max v.nest (nestOfItems rest)

def nestOfFields : List (String × Json) → Nat
  | [] => 0
  | (_, v) :: rest => max v.nest (nestOfFields rest)

end

theorem nest_of_isScalar {v : Json} (h : v.isScalar = true) : v.nest = 0 := by
  cases v with
  | array items => cases h
  | object fields => cases h
  | _ => rfl

/-- The array of an operation is nested two levels deeper than what it holds. -/
theorem nest_assemble {head : Json} (hhead : head.nest = 0) (args : List Json)
    (options : Fields Json) :
    (assemble head args options).nest = 2 + max (nestOfItems args) (nestOfFields options) := by
  cases options with
  | nil =>
      simp only [assemble, nest, nestOfItems, nestOfFields, hhead]
      omega
  | cons o rest =>
      simp only [assemble, nest, nestOfItems, hhead]
      omega

end Json

/-! ### Levels of operations -/

namespace Term

mutual

/-- `t.operationDepth` is the number of levels of a term on which an operation
stands. -/
def operationDepth : Term → Nat
  | .datum _ => 0
  | .node _ args options =>
      1 + max (operationDepthOfArgs args) (operationDepthOfOptions options)

def operationDepthOfArgs : List Term → Nat
  | [] => 0
  | t :: rest => max t.operationDepth (operationDepthOfArgs rest)

def operationDepthOfOptions : List (String × Term) → Nat
  | [] => 0
  | (_, t) :: rest => max t.operationDepth (operationDepthOfOptions rest)

end

theorem operationDepthOfArgs_le_iff {args : List Term} {m : Nat} :
    operationDepthOfArgs args ≤ m ↔ ∀ t ∈ args, t.operationDepth ≤ m := by
  induction args with
  | nil => simp [operationDepthOfArgs]
  | cons t rest ih => rw [operationDepthOfArgs, Nat.max_le, ih, List.forall_mem_cons]

theorem operationDepthOfOptions_le_iff {options : Fields Term} {m : Nat} :
    operationDepthOfOptions options ≤ m ↔ ∀ o ∈ options, o.2.operationDepth ≤ m := by
  induction options with
  | nil => simp [operationDepthOfOptions]
  | cons o rest ih =>
      obtain ⟨name, t⟩ := o
      rw [operationDepthOfOptions, Nat.max_le, ih, List.forall_mem_cons]

theorem operationDepth_node_le_iff {kind : Kind} {args : List Term} {options : Fields Term}
    {m : Nat} :
    (node kind args options).operationDepth ≤ m + 1 ↔
      (∀ t ∈ args, t.operationDepth ≤ m) ∧ ∀ o ∈ options, o.2.operationDepth ≤ m := by
  rw [operationDepth, Nat.add_comm, Nat.add_le_add_iff_right, Nat.max_le,
    operationDepthOfArgs_le_iff, operationDepthOfOptions_le_iff]

/-- The levels below an operation are those of one of its children. -/
theorem exists_child_operationDepth {kind : Kind} {args : List Term} {options : Fields Term}
    {m : Nat} (h : (node kind args options).operationDepth = m + 1) (hm : 0 < m) :
    (∃ t ∈ args, t.operationDepth = m) ∨ ∃ o ∈ options, o.2.operationDepth = m := by
  obtain ⟨k, rfl⟩ := Nat.exists_eq_succ_of_ne_zero (Nat.ne_of_gt hm)
  obtain ⟨hargs, hoptions⟩ := operationDepth_node_le_iff.mp (Nat.le_of_eq h)
  by_contra hnone
  rw [not_or] at hnone
  have hless : (node kind args options).operationDepth ≤ k + 1 := by
    refine operationDepth_node_le_iff.mpr ⟨fun t ht => ?_, fun o ho => ?_⟩
    · have := hargs t ht
      have : t.operationDepth ≠ k + 1 := fun heq => hnone.1 ⟨t, ht, heq⟩
      omega
    · have := hoptions o ho
      have : o.2.operationDepth ≠ k + 1 := fun heq => hnone.2 ⟨o, ho, heq⟩
      omega
  omega

/-- Data are at most one level deeper than operations. -/
theorem operationDepth_bounds (t : Term) :
    t.operationDepth ≤ t.depth ∧ t.depth ≤ t.operationDepth + 1 := by
  induction t with
  | datum value => exact ⟨Nat.zero_le 1, Nat.le_refl 1⟩
  | node kind args options ihArgs ihOptions =>
      have hargs := @depthOfArgs_le_iff args
      have hoptions := @depthOfOptions_le_iff options
      constructor
      · rw [depth, Nat.add_comm, operationDepth_node_le_iff]
        refine ⟨fun t ht => ?_, fun o ho => ?_⟩
        · have := hargs.mp (Nat.le_refl _) t ht
          have := (ihArgs t ht).1
          omega
        · have := hoptions.mp (Nat.le_refl _) o ho
          have := (ihOptions o ho).1
          omega
      · obtain ⟨m, hm⟩ : ∃ m, (node kind args options).operationDepth = m + 1 :=
          ⟨_, Nat.add_comm 1 _⟩
        obtain ⟨ha, ho⟩ := operationDepth_node_le_iff.mp (Nat.le_of_eq hm)
        have hdepthArgs : depthOfArgs args ≤ m + 1 := hargs.mpr fun t ht => by
          have := ha t ht
          have := (ihArgs t ht).2
          omega
        have hdepthOptions : depthOfOptions options ≤ m + 1 := hoptions.mpr fun o hmem => by
          have := ho o hmem
          have := (ihOptions o hmem).2
          omega
        rw [depth, hm]
        omega

/-! ### The deepest nodes -/

theorem operationDepth_of_child? {t c : Term} {position : Position}
    (h : t.child? position = some c) : c.operationDepth + 1 ≤ t.operationDepth := by
  cases t with
  | datum d => cases position <;> cases h
  | node kind args options =>
      obtain ⟨m, hm⟩ : ∃ m, (node kind args options).operationDepth = m + 1 :=
        ⟨_, Nat.add_comm 1 _⟩
      obtain ⟨hargs, hoptions⟩ := operationDepth_node_le_iff.mp (Nat.le_of_eq hm)
      rw [hm, Nat.add_le_add_iff_right]
      cases position with
      | argument index => exact hargs c (List.mem_of_getElem? h)
      | option name =>
          obtain ⟨o, ho, rfl⟩ := Fields.exists_mem_of_get? h
          exact hoptions o ho

theorem length_lt_operationDepth {path : List Position} {t s : Term} (h : t.at? path = some s)
    (hs : s.isDatum = false) : path.length + 1 ≤ t.operationDepth := by
  induction path generalizing t with
  | nil =>
      obtain rfl := Option.some.inj h
      cases t with
      | datum value => cases hs
      | node kind args options => exact Nat.le_add_right 1 _
  | cons position path ih =>
      obtain ⟨c, hc, hpath⟩ := Option.bind_eq_some_iff.mp h
      have hchild := operationDepth_of_child? hc
      have hbelow := ih hpath
      rw [List.length_cons]
      omega

theorem exists_at?_of_child? {t c s : Term} {position : Position} {path : List Position}
    (hc : t.child? position = some c) (hpath : c.at? path = some s) :
    t.at? (position :: path) = some s := by
  rw [at?, hc]
  exact hpath

/-- On the last of them there is an operation. -/
theorem exists_at?_of_operationDepth {t : Term} (ht : t.WellFormed) (h : 0 < t.operationDepth) :
    ∃ path s, t.at? path = some s ∧ s.isDatum = false ∧
      path.length + 1 = t.operationDepth := by
  induction t with
  | datum value => cases h
  | node kind args options ihArgs ihOptions =>
      obtain ⟨hlawful, hargs, hoptions⟩ := wellFormed_node_iff.mp ht
      obtain ⟨m, hm⟩ : ∃ m, (node kind args options).operationDepth = m + 1 :=
        ⟨_, Nat.add_comm 1 _⟩
      rw [hm]
      rcases Nat.eq_zero_or_pos m with rfl | hpos
      · exact ⟨[], _, rfl, by simpa [isDatum, Term.kind] using (lawful_node_iff.mp hlawful).1, rfl⟩
      · rcases exists_child_operationDepth hm hpos with ⟨c, hc, rfl⟩ | ⟨o, ho, rfl⟩
        · obtain ⟨path, s, hpath, hs, hlength⟩ := ihArgs c hc (hargs c hc) hpos
          obtain ⟨index, hindex⟩ := List.getElem?_of_mem hc
          exact ⟨.argument index :: path, s, exists_at?_of_child? hindex hpath, hs,
            congrArg Nat.succ hlength⟩
        · obtain ⟨path, s, hpath, hs, hlength⟩ := ihOptions o ho (hoptions o ho) hpos
          have hname : Fields.get? options o.1 = some o.2 :=
            Fields.get?_of_mem hlawful.distinct ho
          exact ⟨.option o.1 :: path, s, exists_at?_of_child? hname hpath, hs,
            congrArg Nat.succ hlength⟩

/-- `t.OperationDeepest`: among the deepest nodes of the term there is an
operation. -/
def OperationDeepest (t : Term) : Prop :=
  ∃ path s, t.at? path = some s ∧ path.length + 1 = t.depth ∧ s.isDatum = false

theorem operationDeepest_iff {t : Term} (ht : t.WellFormed) :
    t.OperationDeepest ↔ t.operationDepth = t.depth := by
  obtain ⟨hle, -⟩ := t.operationDepth_bounds
  constructor
  · rintro ⟨path, s, hpath, hlength, hs⟩
    have := length_lt_operationDepth hpath hs
    omega
  · intro h
    have hpos : 0 < t.operationDepth := by
      rw [h]
      cases t <;> rw [depth] <;> omega
    obtain ⟨path, s, hpath, hs, hlength⟩ := exists_at?_of_operationDepth ht hpos
    exact ⟨path, s, hpath, hlength.trans h, hs⟩

/-! ### Nesting of encoded terms -/

theorem nestOfItems_eq {args : List Term} {ws : List Json}
    (h : List.Forall₂ (fun t w => t.encode = .ok w) args ws)
    (hnest : ∀ t ∈ args, ∀ w, t.encode = .ok w → w.nest = 2 * t.operationDepth) :
    Json.nestOfItems ws = 2 * operationDepthOfArgs args := by
  induction h with
  | nil => rfl
  | cons htw _ ih =>
      obtain ⟨hhead, htail⟩ := List.forall_mem_cons.mp hnest
      rw [Json.nestOfItems, operationDepthOfArgs, hhead _ htw, ih htail]
      omega

theorem nestOfFields_eq {options : Fields Term} {ms : Fields Json}
    (h : Fields.Aligned (fun t w => t.encode = .ok w) options ms)
    (hnest : ∀ o ∈ options, ∀ w, o.2.encode = .ok w → w.nest = 2 * o.2.operationDepth) :
    Json.nestOfFields ms = 2 * operationDepthOfOptions options := by
  induction options generalizing ms with
  | nil =>
      obtain rfl := Fields.aligned_nil_left_iff.mp h
      rfl
  | cons o rest ih =>
      obtain ⟨name, t⟩ := o
      obtain ⟨hhead, htail⟩ := List.forall_mem_cons.mp hnest
      obtain ⟨w, ms, htw, hms, rfl⟩ := Fields.aligned_cons_left_iff.mp h
      have hw : w.nest = 2 * t.operationDepth := hhead w htw
      rw [Json.nestOfFields, operationDepthOfOptions, hw, ih hms htail]
      omega

/-- Each level of operations adds two. -/
theorem nest_of_encode {t : Term} {w : Json} (h : t.encode = .ok w) :
    w.nest = 2 * t.operationDepth := by
  induction t generalizing w with
  | datum value =>
      exact Json.nest_of_isScalar (Datum.ofJson_of_toScalar? (encode_datum_iff.mp h)).1
  | node kind args options ihArgs ihOptions =>
      obtain ⟨ws, ms, hws, hms, rfl⟩ := encode_node_iff.mp h
      have hargs := nestOfItems_eq hws fun t ht _ => ihArgs t ht
      have hoptions := nestOfFields_eq hms fun o ho _ => ihOptions o ho
      rw [Json.nest_assemble rfl, hargs, hoptions, operationDepth]
      omega

/-- `tower n` is an empty array with `n` arrays around it. -/
def tower : Nat → Term
  | 0 => .array []
  | n + 1 => .array [tower n]

theorem depth_tower (n : Nat) : (tower n).depth = n + 1 := by
  induction n with
  | zero => rfl
  | succ n ih =>
      simp only [tower, array, depth, depthOfArgs, depthOfOptions, ih]
      omega

theorem operationDepth_tower (n : Nat) : (tower n).operationDepth = n + 1 := by
  induction n with
  | zero => rfl
  | succ n ih =>
      simp only [tower, array, operationDepth, operationDepthOfArgs, operationDepthOfOptions, ih]
      omega

theorem wellFormed_tower (n : Nat) : (tower n).WellFormed := by
  induction n with
  | zero => exact wellFormed_array (List.forall_mem_nil _)
  | succ n ih => exact wellFormed_array (List.forall_mem_singleton.mpr ih)

theorem exists_encode_tower (n : Nat) : ∃ w, (tower n).encode = .ok w := by
  induction n with
  | zero => exact ⟨_, encode_node_iff.mpr ⟨[], [], .nil, .nil, rfl⟩⟩
  | succ n ih =>
      obtain ⟨w, hw⟩ := ih
      exact ⟨_, encode_node_iff.mpr ⟨[w], [], .cons hw .nil, .nil, rfl⟩⟩

end Term

/-- The nesting of an encoded term is twice the depth of the term, less two if
all deepest nodes are data. An encoder with a limit therefore writes nothing
that is nested deeper than twice the limit. This bound is reached under every
limit but zero, under which nothing is written. -/
theorem Encoder.nest_determined_by_depth :
    (∀ (t : Term) (w : Json), t.WellFormed → t.encode = .ok w →
      (t.OperationDeepest → w.nest = 2 * t.depth) ∧
        (¬ t.OperationDeepest → w.nest = 2 * t.depth - 2)) ∧
    ∀ n : Nat,
      (∀ (t : Term) (w : Json), t.WellFormed → encode ⟨some n⟩ t = .ok w → w.nest ≤ 2 * n) ∧
      (0 < n → ∃ t w, t.WellFormed ∧ encode ⟨some n⟩ t = .ok w ∧ w.nest = 2 * n) ∧
      (n = 0 → ∀ t w, encode ⟨some n⟩ t ≠ .ok w) := by
  refine ⟨fun t w ht hw => ?_, fun n => ⟨fun t w _ hw => ?_, fun hn => ?_, ?_⟩⟩
  · have hnest := Term.nest_of_encode hw
    have hdeepest := Term.operationDeepest_iff ht
    have hbounds := t.operationDepth_bounds
    refine ⟨fun h => ?_, fun h => ?_⟩
    · rw [hnest, hdeepest.mp h]
    · have hless : t.operationDepth ≠ t.depth := fun heq => h (hdeepest.mpr heq)
      omega
  · obtain ⟨hfree, hlimit⟩ := encode_eq_ok_iff.mp hw
    have hnest := Term.nest_of_encode hfree
    have hbounds := t.operationDepth_bounds
    have hdepth : t.depth ≤ n := hlimit n rfl
    omega
  · obtain ⟨m, rfl⟩ := Nat.exists_eq_succ_of_ne_zero (Nat.ne_of_gt hn)
    obtain ⟨w, hw⟩ := Term.exists_encode_tower m
    have hlimit : ∀ n ∈ some (m + 1), (Term.tower m).depth ≤ n := by
      rintro _ ⟨⟩
      exact Nat.le_of_eq (Term.depth_tower m)
    refine ⟨.tower m, w, Term.wellFormed_tower m, encode_eq_ok_iff.mpr ⟨hw, hlimit⟩, ?_⟩
    rw [Term.nest_of_encode hw, Term.operationDepth_tower]
  · rintro rfl t w hw
    have hdepth : t.depth ≤ 0 := (encode_eq_ok_iff.mp hw).2 0 rfl
    cases t <;> rw [Term.depth] at hdepth <;> omega

/-- A table whose deepest nodes are an empty array and a datum. -/
def Term.unevenTable : Term :=
  .node .table [.array [.array []], .datum .null] [("read_mode", .array [.datum .null])]

/-- Of two terms of depth three the one with an operation among its deepest
nodes is nested deeper, up to the bound. -/
theorem Encoder.nest_determined_by_depth_unevenTable :
    (Term.unevenTable.WellFormed ∧ (∃ w, Term.unevenTable.encode = .ok w ∧ w.nest = 6) ∧
      Term.unevenTable.OperationDeepest ∧ Term.unevenTable.depth = 3) ∧
    (Term.nestedArray.WellFormed ∧ (∃ w, Term.nestedArray.encode = .ok w ∧ w.nest = 4) ∧
      ¬ Term.nestedArray.OperationDeepest ∧ Term.nestedArray.depth = 3) ∧
    (∃ w, encode ⟨some 3⟩ .unevenTable = .ok w ∧ w.nest ≤ 2 * 3) ∧
    (∃ t w, t.WellFormed ∧ encode ⟨some 3⟩ t = .ok w ∧ w.nest = 2 * 3) ∧
    ∀ t w, encode ⟨some 0⟩ t ≠ .ok w := by
  obtain ⟨hnest, hlimit⟩ := nest_determined_by_depth
  have huneven : Term.unevenTable.WellFormed := by
    refine Term.wellFormed_node_iff.mpr ⟨Term.lawful_node_iff.mpr ?_, ?_, ?_⟩
    · exact ⟨by decide, by decide, by decide, List.nodup_singleton _⟩
    · simp [Term.wellFormed_array, Term.wellFormed_datum]
    · simp [Term.wellFormed_array, Term.wellFormed_datum]
  have hnested : Term.nestedArray.WellFormed := by
    simp [Term.nestedArray, Term.wellFormed_array, Term.wellFormed_datum]
  have hdeepest : Term.unevenTable.OperationDeepest :=
    ⟨[.argument 0, .argument 0], _, rfl, rfl, rfl⟩
  have hdatum : ¬ Term.nestedArray.OperationDeepest := fun h =>
    absurd ((Term.operationDeepest_iff hnested).mp h) (by decide)
  obtain ⟨v, hv⟩ : ∃ v, Term.unevenTable.encode = .ok v := ⟨_, rfl⟩
  obtain ⟨w, hw⟩ : ∃ w, Term.nestedArray.encode = .ok w := ⟨_, rfl⟩
  obtain ⟨u, hu⟩ : ∃ u, encode ⟨some 3⟩ .unevenTable = .ok u := ⟨_, rfl⟩
  refine ⟨⟨huneven, ⟨v, hv, ?_⟩, hdeepest, rfl⟩, ⟨hnested, ⟨w, hw, ?_⟩, hdatum, rfl⟩, ?_, ?_, ?_⟩
  · exact (hnest _ v huneven hv).1 hdeepest
  · exact (hnest _ w hnested hw).2 hdatum
  · exact ⟨u, hu, (hlimit 3).1 _ u huneven hu⟩
  · exact (hlimit 3).2.1 (by decide)
  · exact (hlimit 0).2.2 rfl

end Reql
