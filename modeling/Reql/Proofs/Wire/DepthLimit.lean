import Reql.Proofs.Wire.Encoding

/-!
The limit on the depth of a term.

A limited encoder refuses some terms and writes the others as the unlimited
one does. The induction is on the term, with the depth at which it stands as a
parameter: at depth `d` there is room for `n + 1 - d` more levels. A refusal is
located by the parent of the first node that is too deep, so the error is bare
only when the root itself is refused.
-/

namespace Reql

/-! ### Depth -/

namespace Term

theorem depthOfArgs_le_iff {args : List Term} {m : Nat} :
    depthOfArgs args ≤ m ↔ ∀ t ∈ args, t.depth ≤ m := by
  induction args with
  | nil => simp [depthOfArgs]
  | cons t rest ih => rw [depthOfArgs, Nat.max_le, ih, List.forall_mem_cons]

theorem depthOfOptions_le_iff {options : Fields Term} {m : Nat} :
    depthOfOptions options ≤ m ↔ ∀ o ∈ options, o.2.depth ≤ m := by
  induction options with
  | nil => simp [depthOfOptions]
  | cons o rest ih =>
      obtain ⟨name, t⟩ := o
      rw [depthOfOptions, Nat.max_le, ih, List.forall_mem_cons]

/-- An operation fits below a bound if it fits itself and its children fit one
level further down. -/
theorem add_depth_node_le_iff {kind : Kind} {args : List Term} {options : Fields Term}
    {d n : Nat} :
    d + (node kind args options).depth ≤ n + 1 ↔
      d ≤ n ∧ (∀ t ∈ args, d + 1 + t.depth ≤ n + 1) ∧ ∀ o ∈ options, d + 1 + o.2.depth ≤ n + 1 := by
  have hargs := @depthOfArgs_le_iff args (n - d)
  have hoptions := @depthOfOptions_le_iff options (n - d)
  rw [depth]
  constructor
  · intro h
    refine ⟨by omega, fun t ht => ?_, fun o ho => ?_⟩
    · have := hargs.mp (by omega) t ht
      omega
    · have := hoptions.mp (by omega) o ho
      omega
  · rintro ⟨hd, ha, ho⟩
    have ha' : depthOfArgs args ≤ n - d := hargs.mpr fun t ht => by
      have := ha t ht
      omega
    have ho' : depthOfOptions options ≤ n - d := hoptions.mpr fun o hmem => by
      have := ho o hmem
      omega
    omega

end Term

namespace Encoder

variable {e : Encoder} {n d : Nat} {t : Term}

/-! ### What is written -/

theorem admits_limited_iff {u : Unit} : admits ⟨some n⟩ d = .ok u ↔ d ≤ n := by
  rw [admits]
  by_cases h : n < d
  · simp [h, Nat.not_le.mpr h]
  · simp [h, Nat.not_lt.mp h]

theorem encodeAt_datum_iff {value : Datum} {w : Json} :
    e.encodeAt (.datum value) d = .ok w ↔
      e.admits d = .ok () ∧ value.toScalar? = some w := by
  rw [encodeAt]
  cases value.toScalar? <;> cases e.admits d <;> simp [bind, Except.bind]

theorem encodeAt_node_iff {kind : Kind} {args : List Term} {options : Fields Term} {w : Json} :
    e.encodeAt (.node kind args options) d = .ok w ↔
      e.admits d = .ok () ∧ ∃ ws ms,
        List.Forall₂ (fun t w => e.encodeAt t (d + 1) = .ok w) args ws ∧
          Fields.Aligned (fun t w => e.encodeAt t (d + 1) = .ok w) options ms ∧
          w = nodeJson kind ws ms := by
  rw [encodeAt, bind_eq_ok_iff]
  simp only [bind_eq_ok_iff, encodeArgs_eq_ok_iff, encodeOptions_eq_ok_iff, Except.ok.injEq,
    exists_and_left, eq_comm (b := w)]
  constructor
  · rintro ⟨_, hd, h⟩
    exact ⟨hd, h⟩
  · rintro ⟨hd, h⟩
    exact ⟨(), hd, h⟩

/-- At depth `d` the limited encoder writes what the unlimited one writes,
provided that the term fits into the levels that are left. -/
theorem encodeAt_limited_iff {w : Json} :
    encodeAt ⟨some n⟩ t d = .ok w ↔ encodeAt {} t d = .ok w ∧ d + t.depth ≤ n + 1 := by
  induction t generalizing d w with
  | datum value =>
      rw [encodeAt_datum_iff, encodeAt_datum_iff, admits_limited_iff, Term.depth]
      have hfree : admits {} d = .ok () := rfl
      simp only [hfree, true_and, Nat.add_le_add_iff_right]
      exact and_comm
  | node kind args options ihArgs ihOptions =>
      have hfree : admits {} d = .ok () := rfl
      -- the condition on the depth of the children can be taken out of the walks
      have hargs : ∀ ws : List Json,
          List.Forall₂ (fun t w => encodeAt ⟨some n⟩ t (d + 1) = .ok w) args ws ↔
            List.Forall₂ (fun t w => encodeAt {} t (d + 1) = .ok w) args ws ∧
              ∀ t ∈ args, d + 1 + t.depth ≤ n + 1 := fun ws =>
        forall₂_and_iff fun t ht w => ihArgs t ht
      have hoptions : ∀ ms : Fields Json,
          Fields.Aligned (fun t w => encodeAt ⟨some n⟩ t (d + 1) = .ok w) options ms ↔
            Fields.Aligned (fun t w => encodeAt {} t (d + 1) = .ok w) options ms ∧
              ∀ o ∈ options, d + 1 + o.2.depth ≤ n + 1 := fun ms =>
        Fields.aligned_and_iff (P := fun t => d + 1 + t.depth ≤ n + 1) fun o ho m => ihOptions o ho
      rw [encodeAt_node_iff, encodeAt_node_iff, admits_limited_iff, Term.add_depth_node_le_iff]
      simp only [hargs, hoptions, hfree, true_and]
      constructor
      · rintro ⟨hd, ws, ms, ⟨hws, ha⟩, ⟨hms, ho⟩, rfl⟩
        exact ⟨⟨ws, ms, hws, hms, rfl⟩, hd, ha, ho⟩
      · rintro ⟨⟨ws, ms, hws, hms, rfl⟩, hd, ha, ho⟩
        exact ⟨hd, ws, ms, ⟨hws, ha⟩, ⟨hms, ho⟩, rfl⟩

theorem encode_eq_ok_iff {w : Json} :
    e.encode t = .ok w ↔ t.encode = .ok w ∧ ∀ n ∈ e.maxDepth, t.depth ≤ n := by
  obtain ⟨_ | n⟩ := e
  · simp [Term.encode]
  · rw [encode, encodeAt_limited_iff, Nat.add_comm 1, Nat.add_le_add_iff_right]
    simp [Term.encode, encode]

/-! ### What is refused -/

/-- `Located n x`: a refusal for depth that a parent has located. -/
def Located (n : Nat) (x : Error) : Prop :=
  ∃ parent position child, x = .encode parent position child (.depthExceeded n)

theorem located_locate {x : Error} (h : x = .depthExceeded n ∨ Located n x) (parent : Kind)
    (position : Position) (child : Kind) : Located n (x.locate parent position child) := by
  rcases h with rfl | ⟨p, q, c, rfl⟩
  · exact ⟨parent, position, child, rfl⟩
  · exact ⟨p, q, c, rfl⟩

theorem admits_limited_error {x : Error} (h : admits ⟨some n⟩ d = .error x) :
    n < d ∧ x = .depthExceeded n := by
  rw [admits] at h
  by_cases hd : n < d
  · simp only [hd, if_true, Except.error.injEq] at h
    exact ⟨hd, h.symm⟩
  · simp [hd] at h

/-- A term that can be written is refused for its depth only. The error is bare
when the root of the term is too deep, and located otherwise. -/
theorem refusal_of_limited {w : Json} {x : Error} (hw : encodeAt {} t d = .ok w)
    (hx : encodeAt ⟨some n⟩ t d = .error x) :
    n < d ∧ x = .depthExceeded n ∨ d ≤ n ∧ Located n x := by
  induction t generalizing d w x with
  | datum value =>
      rw [encodeAt] at hx
      rcases bind_eq_error_iff.mp hx with hroot | ⟨_, -, hx⟩
      · exact .inl (admits_limited_error hroot)
      · obtain ⟨-, hscalar⟩ := encodeAt_datum_iff.mp hw
        rw [hscalar] at hx
        cases hx
  | node kind args options ihArgs ihOptions =>
      obtain ⟨-, ws, ms, hws, hms, rfl⟩ := encodeAt_node_iff.mp hw
      rw [encodeAt] at hx
      rcases bind_eq_error_iff.mp hx with hroot | ⟨_, hd, hx⟩
      · exact .inl (admits_limited_error hroot)
      · refine .inr ⟨admits_limited_iff.mp hd, ?_⟩
        rcases bind_eq_error_iff.mp hx with ha | ⟨_, -, hx⟩
        · refine error_of_encodeArgs (fun t ht y hy position => ?_) ha
          obtain ⟨v, hv⟩ := exists_forall₂_iff.mp ⟨ws, hws⟩ t ht
          exact located_locate ((ihArgs t ht hv hy).imp And.right And.right) _ _ _
        · rcases bind_eq_error_iff.mp hx with ho | ⟨_, -, hx⟩
          · refine error_of_encodeOptions (fun o hmem y hy position => ?_) ho
            obtain ⟨v, hv⟩ := Fields.exists_aligned_iff.mp ⟨ms, hms⟩ o hmem
            exact located_locate ((ihOptions o hmem hv hy).imp And.right And.right) _ _ _
          · cases hx

/-- A limited encoder writes exactly the terms that the unlimited one writes
and that are not deeper than the limit, and it writes them alike. The others
that can be written are refused for their depth, the root by a bare error and
every other node by one that is located once. -/
theorem encode_limited (t : Term) (n : Nat) :
    (∀ w, encode ⟨some n⟩ t = .ok w ↔ t.encode = .ok w ∧ t.depth ≤ n) ∧
      ∀ w, t.encode = .ok w → n < t.depth →
        (n = 0 → encode ⟨some n⟩ t = .error (.depthExceeded n)) ∧
          (n ≠ 0 → ∃ parent position child,
            encode ⟨some n⟩ t = .error (.encode parent position child (.depthExceeded n))) := by
  have hiff : ∀ w, encode ⟨some n⟩ t = .ok w ↔ t.encode = .ok w ∧ t.depth ≤ n := by
    intro w
    have h := @encodeAt_limited_iff n 1 t w
    rwa [Nat.add_comm 1, Nat.add_le_add_iff_right] at h
  refine ⟨hiff, fun w hw hdeep => ?_⟩
  cases hx : encode ⟨some n⟩ t with
  | ok v =>
      have hfits := ((hiff v).mp hx).2
      omega
  | error x =>
      rcases refusal_of_limited hw hx with ⟨hn, rfl⟩ | ⟨hn, parent, position, child, rfl⟩
      · exact ⟨fun _ => rfl, fun h0 => by omega⟩
      · exact ⟨fun h0 => by omega, fun _ => ⟨parent, position, child, rfl⟩⟩

end Encoder

/-- An array in an array. With the leaf it has three levels. -/
def Term.nestedArray : Term := .array [.array [.datum .null]]

/-- Three levels are enough, with one level the inner array is refused by the
outer one, and without any the outer one is refused itself. -/
theorem Encoder.encode_limited_nestedArray :
    (Term.nestedArray.encode = .ok (.array [Kind.makeArray.numeral,
        .array [.array [Kind.makeArray.numeral, .array [.null]]]]) ∧
      Term.nestedArray.depth = 3) ∧
    (∃ w, encode ⟨some 3⟩ .nestedArray = .ok w) ∧
    (∃ parent position child,
      encode ⟨some 1⟩ .nestedArray = .error (.encode parent position child (.depthExceeded 1))) ∧
    encode ⟨some 0⟩ .nestedArray = .error (.depthExceeded 0) := by
  have hencode : Term.nestedArray.encode = .ok (.array [Kind.makeArray.numeral,
      .array [.array [Kind.makeArray.numeral, .array [.null]]]]) := rfl
  have hdepth : Term.nestedArray.depth = 3 := rfl
  refine ⟨⟨hencode, hdepth⟩, ⟨_, (encode_limited _ 3).1 _ |>.mpr ⟨hencode, by omega⟩⟩, ?_, ?_⟩
  · exact ((encode_limited _ 1).2 _ hencode (by omega)).2 (by omega)
  · exact ((encode_limited _ 0).2 _ hencode (by omega)).1 rfl

end Reql
