import Mathlib.Data.List.Forall2
import Mathlib.Data.List.Induction
import Mathlib.Data.List.Nodup
import Mathlib.Data.List.Perm.Subperm
import Reql.Fields

/-!
Walks over lists and fields.

Decoding, encoding and coercing children all work in the same way: they walk
down a list, turn each element into another one and stop at the first that
fails. `List.Forall₂` is what such a walk establishes for positional
children, and `Fields.Aligned` is the same for named ones, whose names it
leaves alone. The rest of this file is about collecting pairs into fields,
which changes nothing if the names are distinct to begin with.
-/

namespace Reql

/-! ### Steps that can fail -/

section Steps

variable {ε ε' α β : Type}

theorem bind_eq_ok_iff {x : Except ε α} {f : α → Except ε β} {b : β} :
    x >>= f = .ok b ↔ ∃ a, x = .ok a ∧ f a = .ok b := by
  cases x <;> simp [bind, Except.bind]

theorem bind_ok_eq_ok_iff {x : Except ε α} {f : α → β} {b : β} :
    (x >>= fun a => .ok (f a)) = .ok b ↔ ∃ a, x = .ok a ∧ b = f a := by
  simp only [bind_eq_ok_iff, Except.ok.injEq, eq_comm (b := b)]

/-- A step of a walk down a list: the head, then the rest. -/
theorem bind_cons_eq_ok_iff {x : Except ε α} {xs : Except ε (List β)} {f : α → β}
    {bs : List β} :
    (x >>= fun a => xs >>= fun rest => .ok (f a :: rest)) = .ok bs ↔
      ∃ a rest, x = .ok a ∧ xs = .ok rest ∧ bs = f a :: rest := by
  simp only [bind_eq_ok_iff, Except.ok.injEq, exists_and_left, eq_comm (b := bs)]

theorem mapError_eq_ok_iff {f : ε → ε'} {x : Except ε α} {a : α} :
    x.mapError f = .ok a ↔ x = .ok a := by
  cases x <;> simp [Except.mapError]

theorem bind_eq_error_iff {x : Except ε α} {f : α → Except ε β} {e : ε} :
    x >>= f = .error e ↔ x = .error e ∨ ∃ a, x = .ok a ∧ f a = .error e := by
  cases x <;> simp [bind, Except.bind]

theorem mapError_eq_error_iff {f : ε → ε'} {x : Except ε α} {e : ε'} :
    x.mapError f = .error e ↔ ∃ e', x = .error e' ∧ f e' = e := by
  cases x <;> simp [Except.mapError]

def failure? : Except ε α → Option ε
  | .ok _ => none
  | .error e => some e

theorem failure?_eq_some_iff {x : Except ε α} {e : ε} : failure? x = some e ↔ x = .error e := by
  cases x <;> simp [failure?]

theorem failure?_eq_none_iff {x : Except ε α} : failure? x = none ↔ ∃ a, x = .ok a := by
  cases x <;> simp [failure?]

theorem failure?_mapError {f : ε → ε'} {x : Except ε α} :
    failure? (x.mapError f) = (failure? x).map f := by
  cases x <;> rfl

/-- A second step that fails alike after every success of the first one is
asked only if the first one succeeds. -/
theorem failure?_bind {x : Except ε α} {f : α → Except ε β} {o : Option ε}
    (h : ∀ a, x = .ok a → failure? (f a) = o) : failure? (x >>= f) = (failure? x).or o := by
  cases x with
  | ok a => exact h a rfl
  | error e => rfl

theorem failure?_bind_ok {x : Except ε α} {f : α → β} :
    failure? (x >>= fun a => .ok (f a)) = failure? x := by
  cases x <;> rfl

theorem failure?_bind_cons {x : Except ε α} {xs : Except ε (List β)} {f : α → β} :
    failure? (x >>= fun a => xs >>= fun rest => .ok (f a :: rest)) =
      (failure? x).or (failure? xs) :=
  failure?_bind fun _ _ => failure?_bind_ok

end Steps

/-! ### Lists side by side -/

section Lists

variable {α β : Type}

/-- A list has a partner for a relation exactly when each of its elements
has one. -/
theorem exists_forall₂_iff {R : α → β → Prop} {xs : List α} :
    (∃ ys, List.Forall₂ R xs ys) ↔ ∀ x ∈ xs, ∃ y, R x y := by
  induction xs with
  | nil => simp
  | cons x xs ih =>
      rw [List.forall_mem_cons, ← ih]
      simp only [List.forall₂_cons_left_iff]
      constructor
      · rintro ⟨_, y, ys, hy, hys, rfl⟩
        exact ⟨⟨y, hy⟩, ys, hys⟩
      · rintro ⟨⟨y, hy⟩, ys, hys⟩
        exact ⟨y :: ys, y, ys, hy, hys, rfl⟩

theorem exists_left_of_forall₂ {R : α → β → Prop} {xs : List α} {ys : List β}
    (h : List.Forall₂ R xs ys) : ∀ y ∈ ys, ∃ x ∈ xs, R x y := by
  induction h with
  | nil => intro y hy; exact absurd hy List.not_mem_nil
  | cons hxy _ ih =>
      intro y hy
      rcases List.mem_cons.mp hy with rfl | hy
      · exact ⟨_, List.mem_cons_self, hxy⟩
      · obtain ⟨x, hx, hR⟩ := ih y hy
        exact ⟨x, List.mem_cons_of_mem _ hx, hR⟩

/-- If a relation carries one property into another, elements with the one are on
the left just when elements with the other are on the right. -/
theorem exists_mem_iff_of_forall₂ {R : α → β → Prop} {P : α → Prop} {Q : β → Prop} {xs : List α}
    {ys : List β} (h : List.Forall₂ R xs ys) (hPQ : ∀ x ∈ xs, ∀ y, R x y → (Q y ↔ P x)) :
    (∃ y ∈ ys, Q y) ↔ ∃ x ∈ xs, P x := by
  induction h with
  | nil => simp
  | cons hxy _ ih =>
      obtain ⟨hhead, htail⟩ := List.forall_mem_cons.mp hPQ
      rw [List.exists_mem_cons_iff, List.exists_mem_cons_iff, hhead _ hxy, ih htail]

theorem exists_mem_exists_and_iff {R : α → β → Prop} {P : β → Prop} {xs : List α} :
    (∃ x ∈ xs, ∃ y, R x y ∧ P y) ↔ ∃ y, (∃ x ∈ xs, R x y) ∧ P y := by
  constructor
  · rintro ⟨x, hx, y, hxy, hy⟩
    exact ⟨y, ⟨x, hx, hxy⟩, hy⟩
  · rintro ⟨y, ⟨x, hx, hxy⟩, hy⟩
    exact ⟨x, hx, y, hxy, hy⟩

theorem eq_map_of_forall₂ {R : α → β → Prop} {f : α → β} {xs : List α} {ys : List β}
    (h : List.Forall₂ R xs ys) (hf : ∀ x ∈ xs, ∀ y, R x y → y = f x) : ys = xs.map f := by
  induction h with
  | nil => rfl
  | cons hxy _ ih =>
      obtain ⟨hhead, htail⟩ := List.forall_mem_cons.mp hf
      rw [List.map_cons, hhead _ hxy, ih htail]

theorem forall₂_map_of_forall₂ {γ : Type} {R : α → β → Prop} {S : β → γ → Prop} {f : α → γ}
    {xs : List α} {ys : List β} (h : List.Forall₂ R xs ys)
    (hS : ∀ x ∈ xs, ∀ y, R x y → S y (f x)) : List.Forall₂ S ys (xs.map f) := by
  induction h with
  | nil => exact .nil
  | cons hxy _ ih =>
      obtain ⟨hhead, htail⟩ := List.forall_mem_cons.mp hS
      exact .cons (hhead _ hxy) (ih htail)

theorem forall₂_and_iff {R S : α → β → Prop} {P : α → Prop} {xs : List α} {ys : List β}
    (h : ∀ x ∈ xs, ∀ y, R x y ↔ S x y ∧ P x) :
    List.Forall₂ R xs ys ↔ List.Forall₂ S xs ys ∧ ∀ x ∈ xs, P x := by
  induction xs generalizing ys with
  | nil => simp
  | cons x xs ih =>
      obtain ⟨hhead, htail⟩ := List.forall_mem_cons.mp h
      simp only [List.forall₂_cons_left_iff, List.forall_mem_cons, hhead, ih htail]
      constructor
      · rintro ⟨y, ys, ⟨hy, hx⟩, ⟨hys, hxs⟩, rfl⟩
        exact ⟨⟨y, ys, hy, hys, rfl⟩, hx, hxs⟩
      · rintro ⟨⟨y, ys, hy, hys, rfl⟩, hx, hxs⟩
        exact ⟨y, ys, ⟨hy, hx⟩, ⟨hys, hxs⟩, rfl⟩

theorem forall₂_iff_of_forall₂ {α' β' : Type} {E : α → α' → Prop} {E' : β → β' → Prop}
    {R : α → β → Prop} {S : α' → β' → Prop} {xs : List α} {xs' : List α'} {ys : List β}
    {ys' : List β'} (hxs : List.Forall₂ E xs xs') (hys : List.Forall₂ E' ys ys')
    (h : ∀ x ∈ xs, ∀ y ∈ ys, ∀ x' y', E x x' → E' y y' → (R x y ↔ S x' y')) :
    List.Forall₂ R xs ys ↔ List.Forall₂ S xs' ys' := by
  induction hxs generalizing ys ys' with
  | nil => cases hys <;> simp
  | cons hx _ ih =>
      cases hys with
      | nil => simp
      | cons hy hys =>
          rw [List.forall₂_cons, List.forall₂_cons,
            h _ List.mem_cons_self _ List.mem_cons_self _ _ hx hy, ih hys]
          exact fun x hx y hy => h x (List.mem_cons_of_mem _ hx) y (List.mem_cons_of_mem _ hy)

/-- Two lists with one image are related as the elements with one image are. -/
theorem forall₂_of_common_right {γ : Type} {E : α → γ → Prop} {E' : β → γ → Prop}
    {R : α → β → Prop} {xs : List α} {ys : List β} {zs : List γ} (hxs : List.Forall₂ E xs zs)
    (hys : List.Forall₂ E' ys zs) (h : ∀ x ∈ xs, ∀ y z, E x z → E' y z → R x y) :
    List.Forall₂ R xs ys := by
  induction hxs generalizing ys with
  | nil =>
      rw [List.forall₂_nil_right_iff.mp hys]
      exact .nil
  | cons hx _ ih =>
      obtain ⟨y, ys, hy, htail', rfl⟩ := List.forall₂_cons_right_iff.mp hys
      obtain ⟨hhead, htail⟩ := List.forall_mem_cons.mp h
      exact .cons (hhead _ _ hx hy) (ih htail' htail)

theorem eq_of_forall₂ {R : α → α → Prop} {xs ys : List α} (h : List.Forall₂ R xs ys)
    (heq : ∀ x ∈ xs, ∀ y ∈ ys, R x y → x = y) : xs = ys := by
  induction h with
  | nil => rfl
  | cons hxy _ ih =>
      rw [heq _ List.mem_cons_self _ List.mem_cons_self hxy,
        ih fun x hx y hy => heq x (List.mem_cons_of_mem _ hx) y (List.mem_cons_of_mem _ hy)]

theorem forall₂_append_left_iff {R : α → β → Prop} {xs xs' : List α} {ys : List β} :
    List.Forall₂ R (xs ++ xs') ys ↔
      ∃ zs zs', List.Forall₂ R xs zs ∧ List.Forall₂ R xs' zs' ∧ ys = zs ++ zs' := by
  induction xs generalizing ys with
  | nil => simp
  | cons x xs ih =>
      rw [List.cons_append, List.forall₂_cons_left_iff]
      simp only [ih, List.forall₂_cons_left_iff]
      constructor
      · rintro ⟨y, _, hy, ⟨zs, zs', hzs, hzs', rfl⟩, rfl⟩
        exact ⟨y :: zs, zs', ⟨y, zs, hy, hzs, rfl⟩, hzs', rfl⟩
      · rintro ⟨_, zs', ⟨y, zs, hy, hzs, rfl⟩, hzs', rfl⟩
        exact ⟨y, zs ++ zs', hy, ⟨zs, zs', hzs, hzs', rfl⟩, rfl⟩

theorem forall_mem_zipIdx_iff {P : α → Prop} {items : List α} {index : Nat} :
    (∀ numbered ∈ items.zipIdx index, P numbered.1) ↔ ∀ a ∈ items, P a := by
  conv_rhs => rw [← List.zipIdx_map_fst index items]
  exact List.forall_mem_map.symm

end Lists

namespace Fields

variable {α β γ : Type}

/-! ### Fields with the same names -/

/-- `Aligned R fields others`: the same names in the same order, with related
values. -/
def Aligned (R : α → β → Prop) (fields : Fields α) (others : Fields β) : Prop :=
  List.Forall₂ (fun f o => f.1 = o.1 ∧ R f.2 o.2) fields others

def mapValues (f : α → β) (fields : Fields α) : Fields β :=
  fields.map fun field => (field.1, f field.2)

@[simp] theorem aligned_nil_left_iff {R : α → β → Prop} {others : Fields β} :
    Aligned R [] others ↔ others = [] :=
  List.forall₂_nil_left_iff

theorem aligned_cons_left_iff {R : α → β → Prop} {name : String} {a : α} {fields : Fields α}
    {others : Fields β} :
    Aligned R ((name, a) :: fields) others ↔
      ∃ b rest, R a b ∧ Aligned R fields rest ∧ others = (name, b) :: rest := by
  rw [Aligned, List.forall₂_cons_left_iff]
  constructor
  · rintro ⟨⟨_, b⟩, rest, ⟨rfl, hb⟩, hrest, rfl⟩
    exact ⟨b, rest, hb, hrest, rfl⟩
  · rintro ⟨b, rest, hb, hrest, rfl⟩
    exact ⟨(name, b), rest, ⟨rfl, hb⟩, hrest, rfl⟩

theorem Aligned.names_eq {R : α → β → Prop} {fields : Fields α} {others : Fields β}
    (h : Aligned R fields others) : names others = names fields := by
  induction h with
  | nil => rfl
  | cons hfo _ ih => rw [names_cons, names_cons, ih, hfo.1]

theorem Aligned.distinct {R : α → β → Prop} {fields : Fields α} {others : Fields β}
    (h : Aligned R fields others) (hfields : Distinct fields) : Distinct others := by
  rw [Distinct, h.names_eq]
  exact hfields

theorem Aligned.exists_left {R : α → β → Prop} {fields : Fields α} {others : Fields β}
    (h : Aligned R fields others) : ∀ o ∈ others, ∃ f ∈ fields, R f.2 o.2 := by
  intro o ho
  obtain ⟨f, hf, -, hR⟩ := exists_left_of_forall₂ h o ho
  exact ⟨f, hf, hR⟩

theorem Aligned.comp {R : α → β → Prop} {S : β → γ → Prop} {fields : Fields α}
    {others : Fields β} {more : Fields γ} (h : Aligned R fields others)
    (hmore : Aligned S others more) : Aligned (fun a c => ∃ b, R a b ∧ S b c) fields more := by
  induction h generalizing more with
  | nil =>
      rw [aligned_nil_left_iff] at hmore ⊢
      exact hmore
  | @cons f o _ _ hfo _ ih =>
      obtain ⟨n, a⟩ := f
      obtain ⟨m, b⟩ := o
      obtain ⟨rfl, hR⟩ : n = m ∧ R a b := hfo
      obtain ⟨c, rest, hS, hrest, rfl⟩ := aligned_cons_left_iff.mp hmore
      exact aligned_cons_left_iff.mpr ⟨c, rest, ⟨b, hR, hS⟩, ih hrest, rfl⟩

theorem exists_aligned_iff {R : α → β → Prop} {fields : Fields α} :
    (∃ others, Aligned R fields others) ↔ ∀ f ∈ fields, ∃ b, R f.2 b := by
  simp only [Aligned]
  rw [exists_forall₂_iff]
  refine forall₂_congr fun f _ => ?_
  constructor
  · rintro ⟨o, -, hR⟩
    exact ⟨o.2, hR⟩
  · rintro ⟨b, hR⟩
    exact ⟨(f.1, b), rfl, hR⟩

theorem aligned_and_iff {R S : α → β → Prop} {P : α → Prop} {fields : Fields α}
    {others : Fields β} (h : ∀ f ∈ fields, ∀ b, R f.2 b ↔ S f.2 b ∧ P f.2) :
    Aligned R fields others ↔ Aligned S fields others ∧ ∀ f ∈ fields, P f.2 := by
  refine forall₂_and_iff fun f hf o => ?_
  rw [h f hf, and_assoc]

theorem Aligned.mapValues_right {R : α → β → Prop} {S : β → γ → Prop} {f : α → γ}
    {fields : Fields α} {others : Fields β} (h : Aligned R fields others)
    (hS : ∀ field ∈ fields, ∀ b, R field.2 b → S b (f field.2)) :
    Aligned S others (mapValues f fields) :=
  forall₂_map_of_forall₂ h fun field hfield o ho => ⟨ho.1.symm, hS field hfield o.2 ho.2⟩

theorem aligned_mapValues_left_iff {R : γ → β → Prop} {f : α → γ} {fields : Fields α}
    {others : Fields β} :
    Aligned R (mapValues f fields) others ↔ Aligned (fun a b => R (f a) b) fields others :=
  List.forall₂_map_left_iff

theorem Aligned.eq_mapValues {R : α → β → Prop} {f : α → β} {fields : Fields α}
    {others : Fields β} (h : Aligned R fields others)
    (hf : ∀ field ∈ fields, ∀ b, R field.2 b → b = f field.2) :
    others = mapValues f fields :=
  eq_map_of_forall₂ h fun field hfield o ho =>
    Prod.ext ho.1.symm (hf field hfield o.2 ho.2)

@[simp] theorem mapValues_nil (f : α → β) : mapValues f [] = [] := rfl

@[simp] theorem mapValues_cons (f : α → β) (name : String) (a : α) (fields : Fields α) :
    mapValues f ((name, a) :: fields) = (name, f a) :: mapValues f fields := rfl

@[simp] theorem names_mapValues (f : α → β) (fields : Fields α) :
    names (mapValues f fields) = names fields := by
  simp [names, mapValues]

theorem distinct_mapValues {f : α → β} {fields : Fields α} (h : Distinct fields) :
    Distinct (mapValues f fields) := by
  rw [Distinct, names_mapValues]
  exact h

theorem mapValues_mapValues (g : β → γ) (f : α → β) (fields : Fields α) :
    mapValues g (mapValues f fields) = mapValues (fun a => g (f a)) fields :=
  List.map_map

theorem mapValues_eq_self {f : α → α} {fields : Fields α}
    (h : ∀ field ∈ fields, f field.2 = field.2) : mapValues f fields = fields := by
  have hid : ∀ field ∈ fields, (field.1, f field.2) = id field := fun field hfield => by
    rw [h field hfield]
    rfl
  rw [mapValues, List.map_congr_left hid, List.map_id]

/-! ### Collecting pairs -/

theorem insert_of_not_mem {fields : Fields α} {name : String} (h : name ∉ names fields)
    (value : α) : insert fields name value = fields ++ [(name, value)] := by
  induction fields with
  | nil => rfl
  | cons pair rest ih =>
      obtain ⟨n, v⟩ := pair
      rw [names_cons, List.mem_cons, not_or] at h
      rw [insert, if_neg (Ne.symm h.1), ih h.2]
      rfl

theorem insertAll_of_nodup {fields : Fields α} {pairs : List (String × α)}
    (h : (names fields ++ names pairs).Nodup) : insertAll fields pairs = fields ++ pairs := by
  induction pairs generalizing fields with
  | nil => exact (List.append_nil fields).symm
  | cons pair rest ih =>
      obtain ⟨name, value⟩ := pair
      have hmem : name ∉ names fields := fun hm =>
        (List.nodup_append.mp h).2.2 name hm name List.mem_cons_self rfl
      have hnext : (names (fields ++ [(name, value)]) ++ names rest).Nodup := by
        simpa [names] using h
      change insertAll (insert fields name value) rest = _
      rw [insert_of_not_mem hmem, ih hnext, List.append_assoc]
      rfl

/-- Pairs with distinct names are fields already. -/
theorem ofList_of_distinct {pairs : List (String × α)} (h : Distinct pairs) :
    ofList pairs = pairs :=
  insertAll_of_nodup h

theorem insert_mapValues (f : α → β) (fields : Fields α) (name : String) (value : α) :
    insert (mapValues f fields) name (f value) = mapValues f (insert fields name value) := by
  induction fields with
  | nil => rfl
  | cons pair rest ih =>
      obtain ⟨n, v⟩ := pair
      by_cases h : n = name
      · simp [insert, h]
      · simp [insert, h, ih]

theorem insertAll_mapValues (f : α → β) (fields : Fields α) (pairs : List (String × α)) :
    insertAll (mapValues f fields) (mapValues f pairs) = mapValues f (insertAll fields pairs) := by
  induction pairs generalizing fields with
  | nil => rfl
  | cons pair rest ih =>
      change insertAll (insert (mapValues f fields) pair.1 (f pair.2)) (mapValues f rest) = _
      rw [insert_mapValues, ih]
      rfl

theorem ofList_mapValues (f : α → β) (pairs : List (String × α)) :
    ofList (mapValues f pairs) = mapValues f (ofList pairs) :=
  insertAll_mapValues f [] pairs

theorem mem_of_get? {fields : Fields α} {name : String} {value : α}
    (h : get? fields name = some value) : (name, value) ∈ fields := by
  induction fields with
  | nil => cases h
  | cons pair rest ih =>
      obtain ⟨n, v⟩ := pair
      rw [get?] at h
      split at h
      · rename_i hn
        rw [hn, Option.some.inj h]
        exact List.mem_cons_self
      · exact List.mem_cons_of_mem _ (ih h)

theorem exists_mem_of_get? {fields : Fields α} {name : String} {value : α}
    (h : get? fields name = some value) : ∃ field ∈ fields, field.2 = value :=
  ⟨(name, value), mem_of_get? h, rfl⟩

theorem get?_eq_none_iff {fields : Fields α} {name : String} :
    get? fields name = none ↔ name ∉ names fields := by
  induction fields with
  | nil => simp [get?]
  | cons pair rest ih =>
      obtain ⟨n, v⟩ := pair
      by_cases h : n = name
      · simp [get?, h]
      · simp [get?, h, Ne.symm h, ih]

/-- In fields with distinct names every field is found by its name. -/
theorem get?_of_mem {fields : Fields α} (hdistinct : Distinct fields) {field : String × α}
    (h : field ∈ fields) : get? fields field.1 = some field.2 := by
  induction fields with
  | nil => cases h
  | cons pair rest ih =>
      obtain ⟨n, v⟩ := pair
      obtain ⟨hn, hrest⟩ := List.nodup_cons.mp hdistinct
      rcases List.mem_cons.mp h with rfl | hmem
      · simp [get?]
      · have hname : field.1 ∈ names rest := List.mem_map_of_mem hmem
        have hne : n ≠ field.1 := fun e => hn (e ▸ hname)
        rw [get?, if_neg hne, ih hrest hmem]

theorem rel_get?_of_aligned {R : α → β → Prop} {fields : Fields α} {others : Fields β}
    (h : Aligned R fields others) (name : String) :
    Option.Rel R (get? fields name) (get? others name) := by
  induction h with
  | nil => exact .none
  | @cons f o _ _ hfo _ ih =>
      obtain ⟨n, a⟩ := f
      obtain ⟨m, b⟩ := o
      obtain ⟨rfl, hR⟩ : n = m ∧ R a b := hfo
      rw [get?, get?]
      split
      · exact .some hR
      · exact ih

theorem rel_get?_iff_of_aligned {α' β' : Type} {E : α → α' → Prop} {E' : β → β' → Prop}
    {R : α → β → Prop} {S : α' → β' → Prop} {fs : Fields α} {fs' : Fields α'} {gs : Fields β}
    {gs' : Fields β'} (hfs : Aligned E fs fs') (hgs : Aligned E' gs gs')
    (h : ∀ f ∈ fs, ∀ g ∈ gs, ∀ a b, E f.2 a → E' g.2 b → (R f.2 g.2 ↔ S a b)) (name : String) :
    Option.Rel R (get? fs name) (get? gs name) ↔
      Option.Rel S (get? fs' name) (get? gs' name) := by
  have hleft := rel_get?_of_aligned hfs name
  have hright := rel_get?_of_aligned hgs name
  have hmem : ∀ a, get? fs name = some a → (name, a) ∈ fs := fun a => mem_of_get?
  have hmem' : ∀ b, get? gs name = some b → (name, b) ∈ gs := fun b => mem_of_get?
  generalize get? fs name = x, get? fs' name = x', get? gs name = y, get? gs' name = y' at *
  cases hleft with
  | none => cases hright <;> simp
  | some ha =>
      cases hright with
      | none => simp
      | some hb =>
          rw [Option.rel_some_some, Option.rel_some_some]
          exact h _ (hmem _ rfl) _ (hmem' _ rfl) _ _ ha hb

/-- Fields give related values to every name exactly when they have equally
many names, and each name on the left has a related value on the right. -/
theorem rel_get?_iff {R : α → β → Prop} {fields : Fields α} {others : Fields β}
    (hfields : Distinct fields) (hothers : Distinct others) :
    (∀ name, Option.Rel R (get? fields name) (get? others name)) ↔
      fields.length = others.length ∧ ∀ f ∈ fields, ∃ b, get? others f.1 = some b ∧ R f.2 b := by
  constructor
  · intro h
    have hnames : ∀ name, name ∈ names fields ↔ name ∈ names others := by
      intro name
      rw [← not_iff_not, ← get?_eq_none_iff, ← get?_eq_none_iff]
      have hrel := h name
      generalize get? fields name = a, get? others name = b at hrel
      cases hrel <;> simp
    have hperm : (names fields).Perm (names others) :=
      (List.perm_ext_iff_of_nodup hfields hothers).mpr hnames
    refine ⟨by simpa [names] using hperm.length_eq, fun f hf => ?_⟩
    have hrel := h f.1
    rw [get?_of_mem hfields hf] at hrel
    cases hother : get? others f.1 with
    | none =>
        rw [hother] at hrel
        cases hrel
    | some b =>
        rw [hother, Option.rel_some_some] at hrel
        exact ⟨b, rfl, hrel⟩
  · rintro ⟨hlength, h⟩ name
    have hsubset : names fields ⊆ names others := by
      intro name hname
      obtain ⟨f, hf, rfl⟩ := List.mem_map.mp hname
      obtain ⟨b, hb, -⟩ := h f hf
      exact List.mem_map_of_mem (mem_of_get? hb)
    have hperm : (names fields).Perm (names others) :=
      (List.subperm_of_subset hfields hsubset).perm_of_length_le (by simp [names, hlength])
    cases hname : get? fields name with
    | none =>
        have hmissing := get?_eq_none_iff.mp hname
        rw [hperm.mem_iff, ← get?_eq_none_iff] at hmissing
        rw [hmissing]
        exact .none
    | some a =>
        obtain ⟨b, hb, hR⟩ := h _ (mem_of_get? hname)
        rw [hb]
        exact .some hR

theorem get?_mapValues (f : α → β) (fields : Fields α) (name : String) :
    get? (mapValues f fields) name = (get? fields name).map f := by
  induction fields with
  | nil => rfl
  | cons pair rest ih =>
      obtain ⟨n, v⟩ := pair
      by_cases h : n = name
      · simp [get?, h]
      · simp [get?, h, ih]

theorem mem_names_insert {fields : Fields α} {name other : String} {value : α} :
    other ∈ names (insert fields name value) ↔ other ∈ names fields ∨ other = name := by
  rw [names_insert]
  split
  · rename_i hmem
    constructor
    · exact Or.inl
    · rintro (h | rfl)
      · exact h
      · exact hmem
  · rw [List.mem_append, List.mem_singleton]

theorem mem_names_insertAll {fields : Fields α} {pairs : List (String × α)} {other : String} :
    other ∈ names (insertAll fields pairs) ↔ other ∈ names fields ∨ other ∈ names pairs := by
  induction pairs generalizing fields with
  | nil => simp [insertAll]
  | cons pair rest ih =>
      change other ∈ names (insertAll (insert fields pair.1 pair.2) rest) ↔ _
      rw [ih, mem_names_insert, names_cons, List.mem_cons, or_assoc]

theorem mem_names_ofList {pairs : List (String × α)} {name : String} :
    name ∈ names (ofList pairs) ↔ name ∈ names pairs := by
  rw [ofList, mem_names_insertAll]
  simp

theorem ofList_append_singleton (pairs : List (String × α)) (pair : String × α) :
    ofList (pairs ++ [pair]) = insert (ofList pairs) pair.1 pair.2 := by
  rw [ofList, insertAll, List.foldl_append]
  rfl

/-- The names stand in the order in which they first appear. -/
theorem names_ofList (pairs : List (String × α)) :
    names (ofList pairs) = (names pairs).eraseDups := by
  induction pairs using List.reverseRecOn with
  | nil => rfl
  | append_singleton pairs pair ih =>
      have hnames : names (pairs ++ [pair]) = names pairs ++ [pair.1] := List.map_append
      rw [ofList_append_singleton, names_insert, hnames, List.eraseDups_append, ih]
      by_cases h : pair.1 ∈ names pairs
      · simp [List.removeAll, h]
      · simp [List.removeAll, h, List.eraseDups_cons]

/-- A name has the value that it is given last. -/
theorem get?_ofList (pairs : List (String × α)) (name : String) :
    get? (ofList pairs) name = get? pairs.reverse name := by
  induction pairs using List.reverseRecOn with
  | nil => rfl
  | append_singleton pairs pair ih =>
      rw [ofList_append_singleton, get?_insert, List.reverse_concat, get?, ih]

/-- Fields are determined by their names and the values of these. -/
theorem filterMap_names {fields : Fields α} (h : Distinct fields) :
    (names fields).filterMap (fun name => (get? fields name).map (name, ·)) = fields := by
  rw [names, List.filterMap_map]
  have hfield : ∀ field ∈ fields,
      (get? fields field.1).map (field.1, ·) = some field := fun field hfield => by
    rw [get?_of_mem h hfield]
    rfl
  exact (List.filterMap_congr hfield).trans List.filterMap_some

/-- `settled pairs` has each name once, in order of first appearance, with the
last value that it is given. -/
def settled (pairs : List (String × α)) : Fields α :=
  (names pairs).eraseDups.filterMap fun name => (get? pairs.reverse name).map (name, ·)

theorem ofList_eq_settled (pairs : List (String × α)) : ofList pairs = settled pairs := by
  rw [← filterMap_names (distinct_ofList pairs), names_ofList, settled]
  simp only [get?_ofList]

theorem get?_append (fields others : Fields α) (name : String) :
    get? (fields ++ others) name = (get? fields name).or (get? others name) := by
  induction fields with
  | nil => rfl
  | cons pair rest ih =>
      obtain ⟨n, v⟩ := pair
      by_cases h : n = name
      · simp [get?, h]
      · simp [get?, h, ih]

/-- A value does not matter if its name is given another one later. -/
theorem settled_replaced {before after : List (String × α)} {name : String}
    (h : name ∈ names after) (value other : α) :
    settled (before ++ (name, value) :: after) = settled (before ++ (name, other) :: after) := by
  have hget : ∀ n, get? (before ++ (name, value) :: after).reverse n =
      get? (before ++ (name, other) :: after).reverse n := by
    intro n
    simp only [List.reverse_append, List.reverse_cons, get?_append, get?]
    by_cases hn : name = n
    · subst hn
      have hlater : get? after.reverse name ≠ none := by
        rw [ne_eq, get?_eq_none_iff, not_not, names, List.map_reverse, List.mem_reverse]
        exact h
      obtain ⟨last, hlast⟩ := Option.ne_none_iff_exists'.mp hlater
      simp [hlast]
    · simp [hn]
  have hnames : names (before ++ (name, value) :: after) =
      names (before ++ (name, other) :: after) := by
    simp [names]
  rw [settled, settled, hnames]
  simp only [hget]

theorem mem_insert {fields : Fields α} {name : String} {value : α} {field : String × α}
    (h : field ∈ insert fields name value) : field ∈ fields ∨ field.2 = value := by
  induction fields with
  | nil => exact Or.inr (congrArg Prod.snd (List.mem_singleton.mp h))
  | cons pair rest ih =>
      obtain ⟨n, v⟩ := pair
      rw [insert] at h
      split at h
      · rcases List.mem_cons.mp h with rfl | h
        · exact Or.inr rfl
        · exact Or.inl (List.mem_cons_of_mem _ h)
      · rcases List.mem_cons.mp h with rfl | h
        · exact Or.inl List.mem_cons_self
        · exact (ih h).imp_left (List.mem_cons_of_mem _)

theorem mem_insertAll {fields : Fields α} {pairs : List (String × α)} {field : String × α}
    (h : field ∈ insertAll fields pairs) :
    field ∈ fields ∨ ∃ pair ∈ pairs, field.2 = pair.2 := by
  induction pairs generalizing fields with
  | nil => exact Or.inl h
  | cons pair rest ih =>
      rcases ih h with h | ⟨other, hother, heq⟩
      · rcases mem_insert h with h | heq
        · exact Or.inl h
        · exact Or.inr ⟨pair, List.mem_cons_self, heq⟩
      · exact Or.inr ⟨other, List.mem_cons_of_mem _ hother, heq⟩

theorem forall_mem_ofList {P : α → Prop} {pairs : List (String × α)}
    (h : ∀ pair ∈ pairs, P pair.2) : ∀ field ∈ ofList pairs, P field.2 := by
  intro field hfield
  obtain ⟨pair, hpair, heq⟩ := (mem_insertAll hfield).resolve_left List.not_mem_nil
  rw [heq]
  exact h pair hpair

end Fields

/-! ### Parts with the steps to them -/

section Parts

variable {σ ε α β γ : Type}

/-- `numbered step items index` are the elements of a list with the steps to
them, from an index on; `labelled` does the same for fields. -/
def numbered (step : Nat → σ) (items : List α) (index : Nat) : List (σ × α) :=
  (items.zipIdx index).map fun item => (step item.2, item.1)

def labelled (step : String → σ) (fields : Fields α) : List (σ × α) :=
  fields.map fun field => (step field.1, field.2)

theorem numbered_cons (step : Nat → σ) (a : α) (rest : List α) (index : Nat) :
    numbered step (a :: rest) index = (step index, a) :: numbered step rest (index + 1) := rfl

theorem numbered_append (step : Nat → σ) (items more : List α) (index : Nat) :
    numbered step (items ++ more) index =
      numbered step items index ++ numbered step more (index + items.length) := by
  rw [numbered, List.zipIdx_append, List.map_append]
  rfl

theorem numbered_map (step : Nat → σ) (f : α → β) (items : List α) (index : Nat) :
    numbered step (items.map f) index =
      (numbered step items index).map fun part => (part.1, f part.2) := by
  rw [numbered, numbered, List.zipIdx_map, List.map_map, List.map_map]
  rfl

theorem labelled_mapValues (step : String → σ) (f : α → β) (fields : Fields α) :
    labelled step (Fields.mapValues f fields) =
      (labelled step fields).map fun part => (part.1, f part.2) := by
  rw [labelled, labelled, Fields.mapValues, List.map_map, List.map_map]
  rfl

theorem mem_numbered {step : Nat → σ} {items : List α} {part : σ × α}
    (h : part ∈ numbered step items 0) :
    ∃ index, items[index]? = some part.2 ∧ part.1 = step index := by
  obtain ⟨item, hitem, rfl⟩ := List.mem_map.mp h
  exact ⟨item.2, List.mem_zipIdx_iff_getElem?.mp hitem, rfl⟩

theorem mem_labelled {step : String → σ} {fields : Fields α} {part : σ × α}
    (h : part ∈ labelled step fields) :
    ∃ field ∈ fields, field.2 = part.2 ∧ part.1 = step field.1 := by
  obtain ⟨field, hfield, rfl⟩ := List.mem_map.mp h
  exact ⟨field, hfield, rfl, rfl⟩

/-- `firstFailure? under f parts` is the first failure of `f` on the parts,
seen from the whole by `under`. -/
def firstFailure? (under : σ → ε → ε) (f : α → Except ε β) (parts : List (σ × α)) : Option ε :=
  parts.findSome? fun part => (failure? (f part.2)).map (under part.1)

variable {under : σ → ε → ε} {f : α → Except ε β}

theorem firstFailure?_cons (step : σ) (a : α) (rest : List (σ × α)) :
    firstFailure? under f ((step, a) :: rest) =
      (failure? ((f a).mapError (under step))).or (firstFailure? under f rest) := by
  rw [firstFailure?, List.findSome?_cons, failure?_mapError]
  cases f a <;> rfl

theorem firstFailure?_append (parts more : List (σ × α)) :
    firstFailure? under f (parts ++ more) =
      (firstFailure? under f parts).or (firstFailure? under f more) :=
  List.findSome?_append

theorem firstFailure?_eq_none_iff {parts : List (σ × α)} :
    firstFailure? under f parts = none ↔ ∀ part ∈ parts, ∃ b, f part.2 = .ok b := by
  simp only [firstFailure?, List.findSome?_eq_none_iff, Option.map_eq_none_iff,
    failure?_eq_none_iff]

/-- The parts before the first one that fails do not fail. -/
theorem firstFailure?_eq_some_iff {parts : List (σ × α)} {e : ε} :
    firstFailure? under f parts = some e ↔
      ∃ before part after inner, parts = before ++ part :: after ∧
        (∀ other ∈ before, ∃ b, f other.2 = .ok b) ∧ f part.2 = .error inner ∧
        under part.1 inner = e := by
  simp only [firstFailure?, List.findSome?_eq_some_iff, Option.map_eq_some_iff,
    Option.map_eq_none_iff, failure?_eq_some_iff, failure?_eq_none_iff]
  constructor
  · rintro ⟨before, part, after, hparts, ⟨inner, hpart, rfl⟩, hbefore⟩
    exact ⟨before, part, after, inner, hparts, hbefore, hpart, rfl⟩
  · rintro ⟨before, part, after, inner, hparts, hbefore, hpart, rfl⟩
    exact ⟨before, part, after, hparts, ⟨inner, hpart, rfl⟩, hbefore⟩

end Parts

end Reql
