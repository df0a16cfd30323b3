import Reql.Program
import Reql.Proofs.Builder.Hygiene
import Reql.Proofs.Builder.Sharing

/-!
Programs that draw from two supplies.

One supply never hands out an identifier twice, and so the functions whose
parameters it numbers do not capture each other's variables. A program with a
supply of its own that makes some functions from the shared one has no such
promise, as the two supplies do not know of each other. Which function a
variable was made for cannot be read off its identifier then. It can be read
off what the same actions build with a single supply, which is a term of the
same shape; the two terms differ by a renaming. Nothing is captured as long as
the renaming keeps identifiers apart. If the two blocks have an identifier in
common, there is a program in which the inner one of two functions captures the
variable of the outer one.
-/

namespace Reql

/-! ### Two supplies -/

/-- A program at work on two supplies. -/
structure Mixture where
  workspace : Workspace := {}
  supplies : Supplies
  /-- The identifiers that each source has handed out, in order. -/
  drawn : Source → List UInt64 := fun _ => []

namespace Mixture

def act (g : Mixture) (source : Source) (a : Action) : Mixture where
  workspace := (g.workspace.act (g.supplies.get source) a).workspace
  supplies := g.supplies.set source (g.workspace.act (g.supplies.get source) a).supply
  drawn := Function.update g.drawn source (g.drawn source ++
    (g.workspace.act (g.supplies.get source) a).workspace.drawn.drop g.workspace.drawn.length)

end Mixture

/-- `Beside first w s g`: the same actions have led to `w` and `s` on one
supply, and to `g` on two. Whether an action is allowed is seen on the former,
where every identifier belongs to one function. -/
inductive Beside (first : Supplies) : Workspace → IdSupply → Mixture → Prop
  | start : Beside first {} {} { supplies := first }
  | act {w : Workspace} {s : IdSupply} {g : Mixture} (source : Source) (a : Action) :
      Beside first w s g → w.Allows a →
        Beside first (w.act s a).workspace (w.act s a).supply (g.act source a)

/-- `t.KeepsBinders ρ made`: renamed by `ρ`, the term has all variables in the
functions that they were made for. The nearest function that lists the new
identifier of a variable is the one that was made with the old one. -/
def Term.KeepsBinders (ρ : UInt64 → UInt64) (made : List (List UInt64 × Term)) (t : Term) : Prop :=
  ∀ above id, t.Leads above (.var id) → ∃ ids f,
    made.filter (fun call => id ∈ call.1) = [(ids, f)] ∧
      (Term.binders (ρ id) (above.map (Term.rename ρ))).getLast? = some (f.rename ρ)

/-- `first.Safe m n`: whatever program draws at most `m` identifiers from its
own supply and `n` from the shared one, no function captures a variable of
another one in the terms that it gets outside of function bodies. -/
def Supplies.Safe (first : Supplies) (m n : Nat) : Prop :=
  ∀ w s g source a, Beside first w s g → w.Allows a →
    ((g.act source a).drawn .own).length ≤ m → ((g.act source a).drawn .shared).length ≤ n →
      (w.act s a).workspace.opened = [] → ∀ ts, (w.act s a).answer = .ok ts →
        ∃ ρ, (g.act source a).workspace.drawn = (w.act s a).workspace.drawn.map ρ ∧
          (g.workspace.act (g.supplies.get source) a).answer = .ok (ts.map (Term.rename ρ)) ∧
          ∀ t ∈ ts, t.KeepsBinders ρ (w.act s a).workspace.made

/-! ### What two supplies hand out -/

section Runs

variable {first : Supplies} {w : Workspace} {s : IdSupply} {g : Mixture}

theorem Beside.reached (h : Beside first w s g) : Reached 1 w s := by
  induction h with
  | start => exact .start
  | act source a _ ha ih => exact ih.act a ha

namespace Mixture

/-- What a program on two supplies keeps to. -/
structure Orderly (first : Supplies) (g : Mixture) : Prop where
  follows : ∀ source,
    IdSupply.Follows (first.get source).next (g.drawn source) (g.supplies.get source)
  drawn : g.workspace.drawn.Perm (g.drawn .own ++ g.drawn .shared)

theorem orderly_start (first : Supplies) : Orderly first { supplies := first } where
  follows _ := IdSupply.follows_nil _
  drawn := .nil

theorem exists_drawn_act (g : Mixture) (source : Source) (a : Action) :
    ∃ ids, (g.act source a).workspace.drawn = g.workspace.drawn ++ ids ∧
      (g.act source a).drawn = Function.update g.drawn source (g.drawn source ++ ids) ∧
      (g.supplies.get source).takeBlock ids.length = (ids, (g.act source a).supplies.get source) := by
  obtain ⟨ids, hids, htake⟩ := g.workspace.exists_drawn_act (g.supplies.get source) a
  refine ⟨ids, hids, ?_, ?_⟩
  · rw [act, hids, List.drop_left]
  · rw [htake, act, Supplies.get_set, if_pos rfl]

theorem Orderly.act (h : g.Orderly first) (source : Source) (a : Action) :
    (g.act source a).Orderly first := by
  obtain ⟨ids, hids, hdrawn, htake⟩ := g.exists_drawn_act source a
  constructor
  · intro source'
    rw [hdrawn]
    by_cases hsource : source' = source
    · subst hsource
      rw [Function.update_self]
      exact (h.follows source').append htake
    · rw [Function.update_of_ne hsource, Mixture.act, Supplies.get_set, if_neg hsource]
      exact h.follows source'
  · rw [hids, hdrawn]
    refine (h.drawn.append_right ids).trans ?_
    cases source with
    | own =>
        rw [Function.update_self, Function.update_of_ne (by decide), List.append_assoc,
          List.append_assoc]
        exact List.perm_append_comm.append_left _
    | shared =>
        rw [Function.update_self, Function.update_of_ne (by decide), List.append_assoc]

end Mixture

theorem Beside.orderly (h : Beside first w s g) : g.Orderly first := by
  induction h with
  | start => exact Mixture.orderly_start first
  | act source a _ _ ih => exact ih.act source a

/-- As long as the single supply does not go around, both sides are alike. -/
theorem Beside.alike (h : Beside first w s g)
    (hroom : (1 : UInt64).toNat + g.workspace.drawn.length ≤ 18446744073709551616) :
    w.Alike g.workspace := by
  induction h with
  | start => exact Workspace.alike_nil
  | @act w s g source a h ha ih =>
      have hdrawn := g.workspace.drawn_length_le_act (g.supplies.get source) a
      change (1 : UInt64).toNat + (g.workspace.act _ a).workspace.drawn.length ≤ _ at hroom
      have halike := ih (by omega)
      have horderly := h.reached.orderly (by rw [← halike.1]; omega)
      have hw : w.drawn.Nodup := horderly.follows.nodup (by rw [← halike.1]; omega)
      have hlength := halike.length_act hw s (g.supplies.get source) a
      have hfollows := Workspace.follows_act (s := s) (a := a) horderly.follows
      exact (halike.act (hfollows.nodup (by rw [← hlength]; exact hroom)) _).1

end Runs

/-! ### No capture -/

theorem Reached.contained {first : UInt64} {w : Workspace} {s : IdSupply} (h : Reached first w s) :
    w.Contained := by
  induction h with
  | start => exact Workspace.contained_nil
  | act a _ _ ih => exact ih.act

theorem Mixture.Orderly.nodup {first : Supplies} {g : Mixture} (h : g.Orderly first) {m n : Nat}
    (hm : (g.drawn .own).length ≤ m) (hn : (g.drawn .shared).length ≤ n)
    (hown : first.own.next.toNat + m ≤ 18446744073709551616)
    (hshared : first.shared.next.toNat + n ≤ 18446744073709551616)
    (hdisjoint : (first.own.takeBlock m).1.Disjoint (first.shared.takeBlock n).1) :
    g.workspace.drawn.Nodup := by
  have hownFollows : IdSupply.Follows first.own.next (g.drawn .own) g.supplies.own :=
    h.follows .own
  have hsharedFollows : IdSupply.Follows first.shared.next (g.drawn .shared) g.supplies.shared :=
    h.follows .shared
  refine h.drawn.nodup_iff.mpr (List.Nodup.append (hownFollows.nodup (by omega))
    (hsharedFollows.nodup (by omega)) fun id hid hid' => ?_)
  exact hdisjoint (hownFollows.subset_takeBlock hm hid) (hsharedFollows.subset_takeBlock hn hid')

theorem Workspace.Scoped.keepsBinders {w : Workspace} {t : Term} {ρ : UInt64 → UInt64}
    (h : w.Scoped t) (hmentions : t.Mentions (· ∈ w.drawn)) (hopened : w.opened = [])
    (hρ : ∀ x ∈ w.drawn, ∀ y ∈ w.drawn, ρ x = ρ y → x = y) : t.KeepsBinders ρ w.made := by
  intro above id hu
  obtain ⟨id', heq, hcase⟩ := h.bound above _ hu rfl
  obtain rfl : id = id' := by simpa using congrArg Term.references heq
  rcases hcase with ⟨f, hf, ids, hids⟩ | ⟨-, hfree⟩
  · have hid : id ∈ w.drawn := by
      refine hmentions _ hu.mem_nodes id (List.mem_append_right _ ?_)
      rw [Term.references_var]
      exact List.mem_singleton_self id
    refine ⟨ids, f, hids, ?_⟩
    rw [Term.binders_rename, hf]
    · rfl
    · intro s hs x hx
      have hnode : s ∈ t.nodes := hu.nodes s (List.mem_append_left _ hs)
      exact hρ x (hmentions s hnode x (List.mem_append_left _ hx)) id hid
  · rw [hopened] at hfree
    cases hfree

namespace Supplies

variable {first : Supplies} {m n : Nat}

theorem safe_of_disjoint (hroom : m + n < 18446744073709551616)
    (hown : first.own.next.toNat + m ≤ 18446744073709551616)
    (hshared : first.shared.next.toNat + n ≤ 18446744073709551616)
    (hdisjoint : (first.own.takeBlock m).1.Disjoint (first.shared.takeBlock n).1) :
    first.Safe m n := by
  intro w s g source a hrun ha hm hn hopened ts hts
  have hone : (1 : UInt64).toNat = 1 := rfl
  have hnext : (g.act source a).Orderly first := hrun.orderly.act source a
  have hcount := hnext.drawn.length_eq
  rw [List.length_append] at hcount
  have hsooner : g.workspace.drawn.length ≤ (g.act source a).workspace.drawn.length :=
    g.workspace.drawn_length_le_act _ a
  -- the single supply and the two have led to workspaces that are alike, before and after
  have halike : w.Alike g.workspace := hrun.alike (by omega)
  have halike' : (w.act s a).workspace.Alike (g.act source a).workspace :=
    (hrun.act source a ha).alike (by omega)
  have hlength := halike'.1
  have horderly : w.Orderly 1 s := hrun.reached.orderly (by rw [← halike.1]; omega)
  have hfollows : IdSupply.Follows 1 (w.act s a).workspace.drawn (w.act s a).supply :=
    Workspace.follows_act horderly.follows
  obtain ⟨ρ, hρ⟩ := exists_eq_map_of_nodup (hfollows.nodup (by omega)) hlength
  obtain ⟨-, hanswer⟩ := halike.act_eq hρ
  refine ⟨ρ, hρ, ?_, fun t ht => ?_⟩
  · rw [hanswer, hts]
    rfl
  · have hnodup := hnext.nodup hm hn hown hshared hdisjoint
    rw [hρ] at hnodup
    refine (horderly.answer ha (by omega) hts t ht).keepsBinders
      (hrun.reached.contained.answer hts t ht) hopened fun x hx y hy heq => ?_
    exact List.inj_on_of_nodup_map hnodup hx hy heq

end Supplies

/-! ### Capture -/

theorem Mixture.drawn_enter (g : Mixture) (source : Source) (count : Nat) :
    (g.act source (.enter count)).drawn = Function.update g.drawn source
      (g.drawn source ++ ((g.supplies.get source).takeBlock count).1) := by
  have hdrawn : (g.workspace.act (g.supplies.get source) (.enter count)).workspace.drawn =
      g.workspace.drawn ++ ((g.supplies.get source).takeBlock count).1 := rfl
  rw [act, hdrawn, List.drop_left]

theorem Mixture.drawn_leave (g : Mixture) (source : Source) (number : Nat) :
    (g.act source (.leave number)).drawn = g.drawn ∧
      (g.act source (.leave number)).workspace.drawn = g.workspace.drawn := by
  have hdrawn : (g.workspace.act (g.supplies.get source) (.leave number)).workspace.drawn =
      g.workspace.drawn := by
    cases hw : g.workspace.opened with
    | nil => rw [Workspace.act_leave_nil hw]
    | cons ids rest => rw [Workspace.act_leave_cons hw]
  refine ⟨?_, hdrawn⟩
  rw [act, hdrawn, List.drop_length, List.append_nil, Function.update_eq_self]

section Nested

variable {m n i : Nat} {id : UInt64}

/-- `outerIds` and `innerIds` are the parameters of two functions, one inside
the other, if all come from one supply. -/
def outerIds (m : Nat) : List UInt64 := (IdSupply.takeBlock {} m).1

def innerIds (m n : Nat) : List UInt64 := ((IdSupply.takeBlock {} m).2.takeBlock n).1

/-- The inner of the two functions, whose body is a parameter of the outer one. -/
def Term.inner (m n : Nat) (id : UInt64) : Term := functionNode (innerIds m n) (var id)

theorem length_outerIds (m : Nat) : (outerIds m).length = m := IdSupply.length_takeBlock _ m

theorem length_innerIds (m n : Nat) : (innerIds m n).length = n := IdSupply.length_takeBlock _ n

/-- A program enters the body of a function with parameters of its own, and in it
the body of one with shared ones. -/
theorem exists_beside_entered (first : Supplies) (m n : Nat) :
    ∃ w s g, Beside first w s g ∧
      w = ⟨(outerIds m).map .var ++ (innerIds m n).map .var, [innerIds m n, outerIds m], [],
        outerIds m ++ innerIds m n⟩ ∧
      g.drawn .own = (first.own.takeBlock m).1 ∧ g.drawn .shared = (first.shared.takeBlock n).1 ∧
      g.workspace.drawn = (first.own.takeBlock m).1 ++ (first.shared.takeBlock n).1 := by
  have hrun : Beside first {} {} { supplies := first } := .start
  replace hrun := hrun.act .own (.enter m) ⟨rfl, List.forall_mem_nil _⟩
  replace hrun := hrun.act .shared (.enter n) ⟨rfl, List.forall_mem_nil _⟩
  refine ⟨_, _, _, hrun, rfl, ?_, ?_, rfl⟩
  · rw [Mixture.drawn_enter, Mixture.drawn_enter, Function.update_of_ne (by decide),
      Function.update_self]
    rfl
  · rw [Mixture.drawn_enter, Mixture.drawn_enter, Function.update_self,
      Function.update_of_ne (by decide)]
    rfl

theorem exists_beside_inner (first : Supplies) (n : Nat) (hid : (outerIds m)[i]? = some id) :
    ∃ w s g, Beside first w s g ∧ w.opened = [outerIds m] ∧
      w.made = [(innerIds m n, .inner m n id)] ∧ w.drawn = outerIds m ++ innerIds m n ∧
      w.term (m + n) = .inner m n id ∧ g.drawn .own = (first.own.takeBlock m).1 ∧
      g.drawn .shared = (first.shared.takeBlock n).1 ∧
      g.workspace.drawn = (first.own.takeBlock m).1 ++ (first.shared.takeBlock n).1 := by
  obtain ⟨w, s, g, hrun, hw, hown, hshared, hdrawn⟩ := exists_beside_entered first m n
  have hopened : w.opened = [innerIds m n, outerIds m] := by rw [hw]
  have hlength : w.terms.length = m + n := by
    rw [hw, List.length_append, List.length_map, List.length_map, length_outerIds,
      length_innerIds]
  have hterm : w.term i = .var id := by
    have hi : i < ((outerIds m).map Term.var).length := by
      rw [List.length_map]
      exact (List.getElem?_eq_some_iff.mp hid).1
    rw [Workspace.term, List.getD_eq_getElem?_getD, hw, List.getElem?_append_left hi,
      List.getElem?_map, hid]
    rfl
  have hallows : w.Allows (.leave i) := by
    refine ⟨rfl, List.forall_mem_singleton.mpr ?_⟩
    rw [hterm, Term.free_var, hopened]
    refine List.forall_mem_singleton.mpr (List.mem_append_right _ (List.mem_append_left _ ?_))
    exact List.mem_of_getElem? hid
  have hleave := Workspace.act_leave_cons hopened s i
  rw [hterm] at hleave
  obtain ⟨hsame, hsame'⟩ := g.drawn_leave .own i
  refine ⟨_, _, _, hrun.act .own (.leave i) hallows, ?_⟩
  rw [hsame, hsame', hleave]
  refine ⟨rfl, ?_, ?_, ?_, hown, hshared, hdrawn⟩
  · rw [hw]
    rfl
  · rw [hw]
  · rw [Workspace.term, List.getD_eq_getElem?_getD, ← hlength, List.getElem?_concat_length]
    rfl

/-- The inner function captures the variable if it lists its new identifier. -/
theorem Term.not_keepsBinders_inner {ρ : UInt64 → UInt64} (hid : id ∈ outerIds m)
    (hinner : ρ id ∈ (innerIds m n).map ρ) :
    ¬ (functionNode (outerIds m) (.inner m n id)).KeepsBinders ρ
      [(outerIds m, functionNode (outerIds m) (.inner m n id)),
        (innerIds m n, .inner m n id)] := by
  intro h
  have hway : Leads (functionNode (outerIds m) (.inner m n id))
      [functionNode (outerIds m) (.inner m n id), .inner m n id] (var id) :=
    .argument (List.mem_cons_of_mem _ (List.mem_singleton_self _))
      (.argument (List.mem_cons_of_mem _ (List.mem_singleton_self _)) (.here _))
  obtain ⟨ids, f, hmade, hnearest⟩ := h _ id hway
  have houter : (outerIds m, functionNode (outerIds m) (.inner m n id)) = (ids, f) := by
    rw [List.filter_cons_of_pos (by simpa using hid)] at hmade
    exact (List.cons.inj hmade).1
  obtain rfl := (Prod.mk.inj houter).2
  have hmap : ρ id ∈ (outerIds m).map ρ := List.mem_map_of_mem hid
  rw [List.map_cons, List.map_singleton, rename_functionNode, inner, rename_functionNode,
    rename_var, binders_cons_of_mem (by rwa [parameters_functionNode]),
    binders_cons_of_mem (by rwa [parameters_functionNode])] at hnearest
  -- the function that was made for the variable is not the nearest one
  have heq : functionNode ((innerIds m n).map ρ) (var (ρ id)) =
      functionNode ((outerIds m).map ρ) (functionNode ((innerIds m n).map ρ) (var (ρ id))) :=
    Option.some.inj hnearest
  have hbody : [Kind.makeArray, Kind.var] = [Kind.makeArray, Kind.func] :=
    congrArg (fun t => t.args.map kind) heq
  exact absurd hbody (by decide)

end Nested

namespace Supplies

variable {first : Supplies} {m n : Nat}

theorem disjoint_of_safe (h : first.Safe m n) :
    (first.own.takeBlock m).1.Disjoint (first.shared.takeBlock n).1 := by
  intro x hxown hxshared
  obtain ⟨i, hi, hx⟩ := List.getElem_of_mem hxown
  rw [IdSupply.length_takeBlock, ← length_outerIds m] at hi
  obtain ⟨w, s, g, hrun, hopened, hmade, hdrawn, hterm, hown, hshared, hdrawn'⟩ :=
    exists_beside_inner first n (List.getElem?_eq_getElem hi)
  have hmem : (outerIds m)[i] ∈ outerIds m := List.getElem_mem hi
  have hallows : w.Allows (.leave (m + n)) := by
    refine ⟨rfl, List.forall_mem_singleton.mpr fun id hid => ?_⟩
    rw [hterm, Term.inner, Term.free_functionNode, Term.free_var] at hid
    rw [List.mem_singleton.mp (List.mem_of_mem_filter hid), hopened]
    exact List.mem_append_left _ hmem
  have hleave := Workspace.act_leave_cons hopened s (m + n)
  rw [hterm, hmade, hdrawn] at hleave
  obtain ⟨hsame, hsame'⟩ := g.drawn_leave .own (m + n)
  obtain ⟨ρ, hρ, -, hkeeps⟩ := h w s g .own _ hrun hallows
    (Nat.le_of_eq (by rw [hsame, hown, IdSupply.length_takeBlock]))
    (Nat.le_of_eq (by rw [hsame, hshared, IdSupply.length_takeBlock])) (by rw [hleave]) _
    (by rw [hleave])
  rw [hleave, hsame', hdrawn', List.map_append] at hρ
  obtain ⟨howned, hlent⟩ := List.append_inj hρ (by
    rw [List.length_map, length_outerIds, IdSupply.length_takeBlock])
  have hxρ : ρ (outerIds m)[i] = x := by
    rw [← hx]
    simp only [howned, List.getElem_map]
  rw [hleave] at hkeeps
  refine Term.not_keepsBinders_inner hmem ?_ (hkeeps _ (List.mem_singleton_self _))
  rw [hxρ, ← hlent]
  exact hxshared

/-- Functions do not capture each other's variables exactly if the identifiers
that a program can draw from its own supply are none of those that it can draw
from the shared one. -/
theorem safe_iff_disjoint (hroom : m + n < 18446744073709551616)
    (hown : first.own.next.toNat + m ≤ 18446744073709551616)
    (hshared : first.shared.next.toNat + n ≤ 18446744073709551616) :
    first.Safe m n ↔ (first.own.takeBlock m).1.Disjoint (first.shared.takeBlock n).1 :=
  ⟨disjoint_of_safe, safe_of_disjoint hroom hown hshared⟩

/-- Two parameters of each supply are kept apart if the shared supply begins
with the third identifier, but not if it begins with the second one. -/
theorem safe_iff_disjoint_twoEach :
    (2 + 2 < 18446744073709551616 ∧ (1 : UInt64).toNat + 2 ≤ 18446744073709551616 ∧
      (3 : UInt64).toNat + 2 ≤ 18446744073709551616) ∧
      Safe ⟨⟨1⟩, ⟨3⟩⟩ 2 2 ∧ ¬ Safe ⟨⟨1⟩, ⟨2⟩⟩ 2 2 := by
  have hthree : (3 : UInt64).toNat + 2 ≤ 18446744073709551616 := by decide
  have happart : (IdSupply.takeBlock ⟨1⟩ 2).1.all
      (fun id => !(IdSupply.takeBlock ⟨3⟩ 2).1.contains id) = true := by decide
  refine ⟨⟨by decide, by decide, hthree⟩, ?_, ?_⟩
  · exact (safe_iff_disjoint (by decide) (by decide) hthree).mpr fun id hid hid' => by
      simpa [hid'] using List.all_eq_true.mp happart id hid
  · rw [safe_iff_disjoint (by decide) (by decide) (by decide)]
    exact fun h => h (by decide : 2 ∈ (IdSupply.takeBlock ⟨1⟩ 2).1)
      (by decide : 2 ∈ (IdSupply.takeBlock ⟨2⟩ 2).1)

end Supplies

namespace Program

/-- A function with a parameter of its own. The function of a shared parameter
in it adds the former to the latter. -/
def innerFunction : Program :=
  .function .own 1 (.function .shared 1
    (.apply ⟨.add, .one⟩ .shared (.param 0 0) [.program (.param 0 1)] []))

/-- A function that gives the rows with a field greater than its parameter. The
condition is wrapped with a shared identifier. -/
def innerWrapper : Program :=
  .function .own 1 (.apply ⟨.filter, .one⟩ .shared (.ref "users")
    [.program (.apply ⟨.gt, .one⟩ .shared
      (.apply ⟨.getField, .one⟩ .shared .implicitVar [.value (.string "age")] [])
      [.program (.param 0 0)] [])] [])

/-- Both supplies are new, so both functions list the first identifier, and the
parameter of the outer one belongs to the inner one. -/
theorem run_captures :
    (innerFunction.run [] {}).1 = .ok (Term.functionNode [1] (Term.functionNode [1]
      (.node .add [.var 1, .var 1] []))) ∧
    (innerWrapper.run [("users", .users)] {}).1 = .ok (Term.functionNode [1]
      (.node .filter [.users, Term.functionNode [1]
        (.node .gt [.node .getField [.implicitVar, .datum (.string "age")] [], .var 1] [])] [])) ∧
    ¬ Supplies.Safe {} 1 1 := by
  refine ⟨rfl, rfl, fun h => ?_⟩
  exact Supplies.disjoint_of_safe h (by decide : 1 ∈ (IdSupply.takeBlock {} 1).1)
    (by decide : 1 ∈ (IdSupply.takeBlock {} 1).1)

end Program

end Reql
