import Reql.Proofs.Term.Binding
import Reql.Proofs.Term.Obtained

/-!
Calls by number.

A program that builds terms holds them in variables and cannot see the
identifiers in them. A `Call` names the terms that it is given by numbers, and
`Call.perform` makes the call once it is known which terms these are. Functions
and variables come from nowhere else: no call makes a node of these kinds by
itself, save the wrapper of a term with an implicit variable, and no call gives
such a node away in pieces.
-/

namespace Reql

/-! ### Values with places for terms -/

/-- A value with places for terms, which are given by number and put there by
`fill`. -/
inductive Template
  | term (n : Nat)
  | value (d : Datum) (distinct : d.Distinct)
  | array (items : List Template)
  | object (fields : List (String × Template))
  | bundle (items : List Template)

namespace Template

mutual

def fill (σ : Nat → Term) : Template → Arg
  | .term n => .term (σ n)
  | .value d _ => .value d
  | .array items => .array (fillItems σ items)
  | .object fields => .object (Fields.ofList (fillFields σ fields))
  | .bundle items => .bundle (fillItems σ items)

def fillItems (σ : Nat → Term) : List Template → List Arg
  | [] => []
  | a :: rest => a.fill σ :: fillItems σ rest

def fillFields (σ : Nat → Term) : List (String × Template) → List (String × Arg)
  | [] => []
  | (name, a) :: rest => (name, a.fill σ) :: fillFields σ rest

end

mutual

def numbers : Template → List Nat
  | .term n => [n]
  | .value _ _ => []
  | .array items => numbersOfItems items
  | .object fields => numbersOfFields fields
  | .bundle items => numbersOfItems items

def numbersOfItems : List Template → List Nat
  | [] => []
  | a :: rest => a.numbers ++ numbersOfItems rest

def numbersOfFields : List (String × Template) → List Nat
  | [] => []
  | (_, a) :: rest => a.numbers ++ numbersOfFields rest

end

section Admissible

variable {P : Term → Prop} {σ : Nat → Term}

mutual

theorem fill_admissible : ∀ a : Template, (∀ n ∈ a.numbers, P (σ n)) → (a.fill σ).Admissible P
  | .term n, h => h n (List.mem_singleton_self n)
  | .value _ distinct, _ => distinct
  | .array items, h => Arg.admissibleItems_iff.mpr (fillItems_admissible items h)
  | .object fields, h => by
      have hfields := fillFields_admissible fields h
      exact ⟨Fields.distinct_ofList _, Arg.admissibleFields_iff.mpr (Fields.forall_mem_ofList hfields)⟩
  | .bundle items, h => Arg.admissibleItems_iff.mpr (fillItems_admissible items h)

theorem fillItems_admissible : ∀ items : List Template, (∀ n ∈ numbersOfItems items, P (σ n)) →
    ∀ a ∈ fillItems σ items, a.Admissible P
  | [], _ => List.forall_mem_nil _
  | a :: rest, h => by
      obtain ⟨ha, hrest⟩ := List.forall_mem_append.mp h
      exact List.forall_mem_cons.mpr ⟨fill_admissible a ha, fillItems_admissible rest hrest⟩

theorem fillFields_admissible : ∀ fields : List (String × Template),
    (∀ n ∈ numbersOfFields fields, P (σ n)) → ∀ f ∈ fillFields σ fields, f.2.Admissible P
  | [], _ => List.forall_mem_nil _
  | (_, a) :: rest, h => by
      obtain ⟨ha, hrest⟩ := List.forall_mem_append.mp h
      exact List.forall_mem_cons.mpr ⟨fill_admissible a ha, fillFields_admissible rest hrest⟩

end

end Admissible

inductive Piece
  | receiver (n : Nat)
  | arg (a : Template)
  | args (items : List Template)
  | option (name : String) (a : Template)

def Piece.fill (σ : Nat → Term) : Piece → Term.Piece
  | .receiver n => .receiver (σ n)
  | .arg a => .arg (a.fill σ)
  | .args items => .args (fillItems σ items)
  | .option name a => .option name (a.fill σ)

def Piece.numbers : Piece → List Nat
  | .receiver n => [n]
  | .arg a => a.numbers
  | .args items => numbersOfItems items
  | .option _ a => a.numbers

theorem Piece.fill_admissible {P : Term → Prop} {σ : Nat → Term} (piece : Piece)
    (h : ∀ n ∈ piece.numbers, P (σ n)) : (piece.fill σ).Admissible P := by
  cases piece with
  | receiver n => exact h n (List.mem_singleton_self n)
  | arg a => exact Template.fill_admissible a h
  | args items => exact fillItems_admissible items h
  | option name a => exact Template.fill_admissible a h

end Template

/-! ### Calls -/

/-- `t.isSealed position`: the parameters of a function and the identifier of a
variable are no terms to be had. -/
def Term.isSealed (t : Term) (position : Position) : Bool :=
  t.kind == .var || t.kind == .func && position == .argument 0

/-- A call that makes terms, or gives the parts of one. -/
inductive Call
  | make (kind : Kind) (plain : kind.Plain) (receiver : Option Nat) (args : List Template)
      (options : List (String × Template))
  | build (kind : Kind) (plain : kind.Plain) (script : List Template.Piece)
  | apply (operation : Operation) (plain : operation.kind.Plain) (receiver : Nat)
      (args : List Template) (options : List (String × Template))
  | coerce (value : Template)
  /-- A term that comes from elsewhere, without functions and variables in it. -/
  | given (t : Term) (plain : t.Plain)
  | wrap (n : Nat)
  | part (n : Nat) (position : Position)

namespace Call

def numbers : Call → List Nat
  | .make _ _ receiver args options =>
      receiver.toList ++ Template.numbersOfItems args ++ Template.numbersOfFields options
  | .build _ _ script => script.flatMap Template.Piece.numbers
  | .apply _ _ receiver args options =>
      receiver :: (Template.numbersOfItems args ++ Template.numbersOfFields options)
  | .coerce value => value.numbers
  | .given _ _ => []
  | .wrap n => [n]
  | .part n _ => [n]

def takesApart : Call → Bool
  | .part _ _ => true
  | _ => false

/-- `c.perform σ s` is what the call gives for the terms `σ n`, and the supply
after it. -/
def perform (σ : Nat → Term) (s : IdSupply) : Call → Except Error (List Term) × IdSupply
  | .make kind _ receiver args options =>
      ((Term.make kind (receiver.map σ) (.ofList (Template.fillItems σ args))
        (.ofList (Template.fillFields σ options))).map List.singleton, s)
  | .build kind _ script =>
      ((Term.ofScript kind (script.map (Template.Piece.fill σ))).map List.singleton, s)
  | .apply operation _ receiver args options =>
      let (result, s) := operation.apply (σ receiver) (Template.fillItems σ args)
        (.ofList (Template.fillFields σ options)) s
      (result.map List.singleton, s)
  | .coerce value => ((value.fill σ).toTerm.map List.singleton, s)
  | .given t _ => (.ok [t], s)
  | .wrap n => let (t, s) := (σ n).wrap s; (.ok [t], s)
  | .part n position =>
      (.ok (if (σ n).isSealed position then [] else ((σ n).child? position).toList), s)

/-- A call takes at most one identifier. -/
theorem supply_perform (c : Call) (σ : Nat → Term) (s : IdSupply) :
    (c.perform σ s).2 = s ∨ (c.perform σ s).2 = s.take.2 := by
  have hwrap : ∀ t : Term, (t.wrap s).2 = s ∨ (t.wrap s).2 = s.take.2 := by
    intro t
    rw [Term.wrap]
    split
    · exact .inr rfl
    · exact .inl rfl
  cases c with
  | apply operation plain receiver args options =>
      change (operation.apply _ _ _ s).2 = s ∨ (operation.apply _ _ _ s).2 = s.take.2
      unfold Operation.apply
      split
      · rw [Term.chainWrapped]
        split
        · exact .inl rfl
        · exact hwrap _
      · exact .inl rfl
  | wrap n => exact hwrap (σ n)
  | _ => exact .inl rfl

theorem eq_singleton_of_map {x : Except Error Term} {ts : List Term}
    (h : x.map List.singleton = .ok ts) : ∃ t, x = .ok t ∧ ts = [t] := by
  cases x with
  | error e => cases h
  | ok t => exact ⟨t, rfl, (Except.ok.inj h).symm⟩

/-- What the terms given to a call have, its results have. The wrapper of an
implicit variable is the one node that may lead to another property. -/
theorem perform_closed {P P' : Term → Prop} {c : Call} {σ : Nat → Term} {s : IdSupply}
    {ts : List Term} (hP : Term.Closed Kind.Plain P) (hP' : Term.Closed Kind.Plain P')
    (himp : ∀ t, P t → P' t) (hgiven : ∀ t : Term, t.Plain → P' t)
    (hwrap : (c.perform σ s).2 = s.take.2 → ∀ t, P t → P' (Term.wrapped s.next t))
    (hpart : c.takesApart = true → ∀ t position child, P t → t.child? position = some child → P' child)
    (hnumbers : ∀ n ∈ c.numbers, P (σ n)) (h : (c.perform σ s).1 = .ok ts) :
    ∀ t ∈ ts, P' t := by
  have hnumbers' : ∀ n ∈ c.numbers, P' (σ n) := fun n hn => himp _ (hnumbers n hn)
  cases c with
  | make kind plain receiver args options =>
      obtain ⟨t, ht, rfl⟩ := eq_singleton_of_map h
      obtain ⟨hleft, hoptions⟩ := List.forall_mem_append.mp hnumbers'
      obtain ⟨hreceiver, hargs⟩ := List.forall_mem_append.mp hleft
      have hsome : ∀ r ∈ (receiver.map σ).toList, P' r := by
        rw [Option.toList_map, List.forall_mem_map]
        exact hreceiver
      exact List.forall_mem_singleton.mpr (Term.make_closed hP' plain hsome
        (Arguments.admissible_ofList (Template.fillItems_admissible args hargs))
        (Options.admissible_ofList (Template.fillFields_admissible options hoptions)) ht)
  | build kind plain script =>
      obtain ⟨t, ht, rfl⟩ := eq_singleton_of_map h
      refine List.forall_mem_singleton.mpr (Term.ofScript_closed hP' plain ?_ ht)
      refine List.forall_mem_map.mpr fun piece hpiece => piece.fill_admissible fun n hn => ?_
      exact hnumbers' n (List.mem_flatMap.mpr ⟨piece, hpiece, hn⟩)
  | apply operation plain receiver args options =>
      obtain ⟨t, ht, rfl⟩ := eq_singleton_of_map h
      obtain ⟨hreceiver, hrest⟩ := List.forall_mem_cons.mp hnumbers'
      have hoptions := (List.forall_mem_append.mp hrest).2
      have hargs := (List.forall_mem_append.mp (List.forall_mem_cons.mp hnumbers).2).1
      exact List.forall_mem_singleton.mpr (Operation.apply_closed hP hP' himp hwrap plain hreceiver
        (Template.fillItems_admissible args hargs)
        (Options.admissible_ofList (Template.fillFields_admissible options hoptions)) ht)
  | coerce value =>
      obtain ⟨t, ht, rfl⟩ := eq_singleton_of_map h
      exact List.forall_mem_singleton.mpr (Arg.coerce_closed hP'
        (Template.fill_admissible value hnumbers') (Arg.toTerm_eq_ok_iff.mp ht))
  | given t plain =>
      obtain rfl := Except.ok.inj h
      exact List.forall_mem_singleton.mpr (hgiven t plain)
  | wrap n =>
      obtain rfl := Except.ok.inj h
      exact List.forall_mem_singleton.mpr
        (Term.wrap_closed himp (fun htake => hwrap htake _) (hnumbers n (List.mem_singleton_self n)))
  | part n position =>
      obtain rfl := Except.ok.inj h
      intro t ht
      split at ht
      · cases ht
      · exact hpart rfl (σ n) position t (hnumbers n (List.mem_singleton_self n))
          (Option.mem_toList.mp ht)

end Call
end Reql
