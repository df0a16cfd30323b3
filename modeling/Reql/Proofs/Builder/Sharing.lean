import Reql.Proofs.Builder.Renaming

/-!
Programs that share a supply.

A program decides what to do next by what it has seen of the terms it obtained,
but it does not look at identifiers. Run alone it draws them from a new supply.
When several programs share a supply they take turns in any order, and each of
them draws some of the identifiers that are handed out. It does the same things
as if it were alone, since up to a renaming it sees the same things: the
identifiers that it draws alone correspond to those it draws among the others,
in order.
-/

namespace Reql

/-! ### Programs -/

/-- A term without its identifiers. -/
def Term.anonymous (t : Term) : Term := t.rename fun _ => 0

/-- A program that builds a term. It ends with an error or with the term of a
number, or it goes on after an action as the answer tells it to. -/
inductive Builder
  | done (answer : Except Error Nat)
  | act (a : Action) (next : Except Error (List Term) → Builder)

structure Ending where
  outcome : Except Error Term
  workspace : Workspace
  supply : IdSupply
  turns : Nat

namespace Builder

def run : Builder → Workspace → IdSupply → Ending
  | .done answer, w, s => ⟨answer.map w.term, w, s, 0⟩
  | .act a next, w, s =>
      let turn := w.act s a
      let rest := (next (turn.answer.map (List.map Term.anonymous))).run turn.workspace turn.supply
      { rest with turns := rest.turns + 1 }

def alone (p : Builder) : Ending := p.run {} {}

end Builder

structure Thread where
  program : Builder
  workspace : Workspace := {}

namespace Thread

def turn (t : Thread) (s : IdSupply) : Thread × IdSupply :=
  match t.program with
  | .done _ => (t, s)
  | .act a next =>
      let turn := t.workspace.act s a
      (⟨next (turn.answer.map (List.map Term.anonymous)), turn.workspace⟩, turn.supply)

def outcome? (t : Thread) : Option (Except Error Term) :=
  match t.program with
  | .done answer => some (answer.map t.workspace.term)
  | .act _ _ => none

end Thread

/-- Programs that share a supply. -/
structure Shared (ι : Type) where
  threads : ι → Thread
  supply : IdSupply
  drawn : List UInt64 := []

namespace Shared

variable {ι : Type} [DecidableEq ι]

def start (programs : ι → Builder) (first : UInt64) : Shared ι where
  threads i := ⟨programs i, {}⟩
  supply := ⟨first⟩

def turn (g : Shared ι) (i : ι) : Shared ι :=
  let (t, s) := (g.threads i).turn g.supply
  { threads := Function.update g.threads i t
    supply := s
    drawn := g.drawn ++ t.workspace.drawn.drop (g.threads i).workspace.drawn.length }

def run (g : Shared ι) (schedule : List ι) : Shared ι := schedule.foldl turn g

end Shared

/-! ### Workspaces that differ by a renaming -/

theorem exists_eq_map_of_nodup {α β : Type} [Nonempty β] {xs : List α} {ys : List β}
    (hxs : xs.Nodup) (hlength : ys.length = xs.length) : ∃ f : α → β, ys = xs.map f := by
  classical
  induction xs generalizing ys with
  | nil => exact ⟨fun _ => Classical.arbitrary β, List.length_eq_zero_iff.mp hlength⟩
  | cons x xs ih =>
      obtain ⟨y, ys, rfl⟩ := List.exists_cons_of_length_eq_add_one hlength
      obtain ⟨hx, hxs⟩ := List.nodup_cons.mp hxs
      obtain ⟨f, rfl⟩ := ih hxs (Nat.succ.inj hlength)
      refine ⟨Function.update f x y, ?_⟩
      rw [List.map_cons, Function.update_self]
      refine congrArg (y :: ·) (List.map_congr_left fun z hz => ?_)
      rw [Function.update_of_ne]
      rintro rfl
      exact hx hz

theorem map_anonymous_rename (ρ : UInt64 → UInt64) (answer : Except Error (List Term)) :
    (answer.map (List.map (Term.rename ρ))).map (List.map Term.anonymous) =
      answer.map (List.map Term.anonymous) := by
  cases answer with
  | error e => rfl
  | ok ts =>
      refine congrArg Except.ok ?_
      rw [List.map_map]
      exact List.map_congr_left fun t _ => Term.rename_rename ρ _ t

namespace Workspace

/-- `Alike w w'`: as many identifiers were drawn in both, and whoever renames
the ones to the others turns `w` into `w'`. -/
def Alike (w w' : Workspace) : Prop :=
  w'.drawn.length = w.drawn.length ∧ ∀ ρ, w'.drawn = w.drawn.map ρ → w' = w.rename ρ

theorem alike_nil : Alike {} {} := ⟨rfl, fun _ _ => rfl⟩

variable {w w' : Workspace} {s s' : IdSupply} {a : Action}

theorem Alike.length_act (h : w.Alike w') (hw : w.drawn.Nodup) (s s' : IdSupply) (a : Action) :
    (w'.act s' a).workspace.drawn.length = (w.act s a).workspace.drawn.length := by
  obtain ⟨ρ, hρ⟩ := exists_eq_map_of_nodup hw h.1
  rw [h.2 ρ hρ]
  exact (w.act_rename ρ s s' a).1

/-- What corresponds after an action did so before. -/
theorem Alike.act_eq (h : w.Alike w') {ρ : UInt64 → UInt64}
    (hρ : (w'.act s' a).workspace.drawn = (w.act s a).workspace.drawn.map ρ) :
    (w'.act s' a).workspace = (w.act s a).workspace.rename ρ ∧
      (w'.act s' a).answer = (w.act s a).answer.map (List.map (Term.rename ρ)) := by
  -- the earlier identifiers come first in both lists
  have hdrawn : w'.drawn = w.drawn.map ρ := by
    obtain ⟨ids, hids, -⟩ := w.exists_drawn_act s a
    obtain ⟨ids', hids', -⟩ := w'.exists_drawn_act s' a
    rw [hids, hids', List.map_append] at hρ
    exact (List.append_inj hρ (by rw [List.length_map, h.1])).1
  obtain rfl := h.2 ρ hdrawn
  exact (w.act_rename ρ s s' a).2 hρ

theorem Alike.act (h : w.Alike w') (hw : (w.act s a).workspace.drawn.Nodup) (s' : IdSupply) :
    (w.act s a).workspace.Alike (w'.act s' a).workspace ∧
      (w'.act s' a).answer.map (List.map Term.anonymous) =
        (w.act s a).answer.map (List.map Term.anonymous) := by
  have hnodup : w.drawn.Nodup := by
    obtain ⟨ids, hids, -⟩ := w.exists_drawn_act s a
    rw [hids] at hw
    exact hw.of_append_left
  have hlength := h.length_act hnodup s s' a
  refine ⟨⟨hlength, fun ρ hρ => (h.act_eq hρ).1⟩, ?_⟩
  obtain ⟨ρ, hρ⟩ := exists_eq_map_of_nodup hw hlength
  rw [(h.act_eq hρ).2, map_anonymous_rename]

end Workspace

/-! ### A program among others -/

/-- `t.turns supplies`: a program takes its turns with whatever supplies there
are at the time. -/
def Thread.turns (t : Thread) (supplies : List IdSupply) : Thread :=
  supplies.foldl (fun t s => (t.turn s).1) t

namespace Thread

theorem turns_done {t : Thread} {answer : Except Error Nat} (h : t.program = .done answer)
    (supplies : List IdSupply) : t.turns supplies = t := by
  induction supplies with
  | nil => rfl
  | cons s rest ih =>
      have hturn : (t.turn s).1 = t := by
        rw [turn, h]
      change (t.turn s).1.turns rest = t
      rw [hturn, ih]

theorem turn_act {t : Thread} {a : Action} {next : Except Error (List Term) → Builder}
    (h : t.program = .act a next) (s : IdSupply) :
    t.turn s = (⟨next ((t.workspace.act s a).answer.map (List.map Term.anonymous)),
      (t.workspace.act s a).workspace⟩, (t.workspace.act s a).supply) := by
  rw [turn, h]

theorem exists_drawn_turn (t : Thread) (s : IdSupply) :
    ∃ ids, (t.turn s).1.workspace.drawn = t.workspace.drawn ++ ids ∧
      s.takeBlock ids.length = (ids, (t.turn s).2) := by
  cases h : t.program with
  | done answer =>
      rw [turn, h]
      exact ⟨[], (List.append_nil _).symm, s.takeBlock_zero⟩
  | act a next =>
      rw [turn_act h]
      exact t.workspace.exists_drawn_act s a

theorem drawn_length_le_turns (t : Thread) (supplies : List IdSupply) :
    t.workspace.drawn.length ≤ (t.turns supplies).workspace.drawn.length := by
  induction supplies generalizing t with
  | nil => exact Nat.le_refl _
  | cons s rest ih =>
      obtain ⟨ids, hids, -⟩ := t.exists_drawn_turn s
      have hrest := ih (t.turn s).1
      rw [hids, List.length_append] at hrest
      change _ ≤ ((t.turn s).1.turns rest).workspace.drawn.length
      omega

/-- With enough turns a program ends as it does alone, whatever happens to the
supply between them, and its workspace is like the one it has alone. -/
theorem turns_alike (p : Builder) {w w' : Workspace} {s : IdSupply} {first : UInt64}
    (halike : w.Alike w') (hfollows : IdSupply.Follows first w.drawn s)
    (supplies : List IdSupply) (hturns : (p.run w s).turns ≤ supplies.length)
    (hroom : first.toNat + (turns ⟨p, w'⟩ supplies).workspace.drawn.length ≤
      18446744073709551616) :
    ∃ answer, (turns ⟨p, w'⟩ supplies).program = .done answer ∧
      (p.run w s).outcome = answer.map (p.run w s).workspace.term ∧
      (p.run w s).workspace.Alike (turns ⟨p, w'⟩ supplies).workspace ∧
      IdSupply.Follows first (p.run w s).workspace.drawn (p.run w s).supply := by
  induction p generalizing w w' s supplies with
  | done answer =>
      rw [turns_done rfl]
      exact ⟨answer, rfl, rfl, halike, hfollows⟩
  | act a next ih =>
      cases supplies with
      | nil => exact absurd hturns (Nat.not_succ_le_zero _)
      | cons s' rest =>
          have hlater : (w'.act s' a).workspace.drawn.length ≤
              (turns ⟨.act a next, w'⟩ (s' :: rest)).workspace.drawn.length :=
            drawn_length_le_turns (turn ⟨.act a next, w'⟩ s').1 rest
          have hsooner := w'.drawn_length_le_act s' a
          have hfollows' : IdSupply.Follows first (w.act s a).workspace.drawn
              (w.act s a).supply := Workspace.follows_act hfollows
          have hw : w.drawn.Nodup := hfollows.nodup (by rw [← halike.1]; omega)
          have hlength := halike.length_act hw s s' a
          obtain ⟨halike', hanswer⟩ := halike.act (hfollows'.nodup (by omega)) s'
          -- the answers look the same, so the program goes on in the same way
          have hturn : turns ⟨.act a next, w'⟩ (s' :: rest) =
              turns ⟨next ((w.act s a).answer.map (List.map Term.anonymous)),
                (w'.act s' a).workspace⟩ rest := by
            rw [← hanswer]
            rfl
          rw [hturn] at hroom ⊢
          exact ih _ halike' hfollows' rest (Nat.le_of_succ_le_succ hturns) hroom

theorem contained_turn {t : Thread} (h : t.workspace.Contained) (s : IdSupply) :
    (t.turn s).1.workspace.Contained := by
  cases hprogram : t.program with
  | done answer =>
      rw [turn, hprogram]
      exact h
  | act a next =>
      rw [turn_act hprogram]
      exact h.act

end Thread

theorem Builder.contained_run (p : Builder) {w : Workspace} (h : w.Contained) (s : IdSupply) :
    (p.run w s).workspace.Contained := by
  induction p generalizing w s with
  | done answer => exact h
  | act a next ih => exact ih _ h.act _

/-! ### Turns of all programs -/

namespace Shared

variable {ι : Type} {first : UInt64}

/-- What programs that share a supply keep to. -/
structure Orderly (first : UInt64) (g : Shared ι) : Prop where
  follows : IdSupply.Follows first g.drawn g.supply
  sublist : ∀ i, (g.threads i).workspace.drawn.Sublist g.drawn
  apart : ∀ i j, i ≠ j → (g.threads i).workspace.drawn.Disjoint (g.threads j).workspace.drawn
  contained : ∀ i, (g.threads i).workspace.Contained

theorem orderly_start (programs : ι → Builder) (first : UInt64) :
    (start programs first).Orderly first where
  follows := IdSupply.follows_nil first
  sublist _ := List.Sublist.refl []
  apart _ _ _ := List.disjoint_nil_left []
  contained _ := Workspace.contained_nil

theorem Orderly.identifiers_disjoint {g : Shared ι} (h : g.Orderly first) {i j : ι} (hij : i ≠ j)
    (m n : Nat) :
    (((g.threads i).workspace.term m).nodes.flatMap Term.identifiers).Disjoint
      (((g.threads j).workspace.term n).nodes.flatMap Term.identifiers) := by
  intro id hid hid'
  obtain ⟨s, hs, hid⟩ := List.mem_flatMap.mp hid
  obtain ⟨s', hs', hid'⟩ := List.mem_flatMap.mp hid'
  exact h.apart i j hij ((h.contained i).term m s hs id hid) ((h.contained j).term n s' hs' id hid')

variable [DecidableEq ι] {g : Shared ι} {i : ι}

theorem threads_turn (g : Shared ι) (i j : ι) :
    (g.turn i).threads j = if j = i then ((g.threads i).turn g.supply).1 else g.threads j := by
  change Function.update g.threads i ((g.threads i).turn g.supply).1 j = _
  rw [Function.update_apply]

theorem exists_turns (g : Shared ι) (schedule : List ι) (i : ι) :
    ∃ supplies, supplies.length = schedule.count i ∧
      (g.run schedule).threads i = (g.threads i).turns supplies := by
  induction schedule generalizing g with
  | nil => exact ⟨[], rfl, rfl⟩
  | cons j rest ih =>
      obtain ⟨supplies, hlength, hthread⟩ := ih (g.turn j)
      rw [threads_turn] at hthread
      by_cases hij : i = j
      · subst hij
        rw [if_pos rfl] at hthread
        refine ⟨g.supply :: supplies, ?_, hthread⟩
        rw [List.count_cons_self, List.length_cons, hlength]
      · rw [if_neg hij] at hthread
        refine ⟨supplies, ?_, hthread⟩
        rw [List.count_cons_of_ne (Ne.symm hij), hlength]

theorem exists_drawn (g : Shared ι) (i : ι) :
    ∃ ids, (g.turn i).drawn = g.drawn ++ ids ∧
      ((g.turn i).threads i).workspace.drawn = (g.threads i).workspace.drawn ++ ids ∧
      g.supply.takeBlock ids.length = (ids, (g.turn i).supply) := by
  obtain ⟨ids, hids, htake⟩ := (g.threads i).exists_drawn_turn g.supply
  refine ⟨ids, ?_, ?_, htake⟩
  · change g.drawn ++ ((g.threads i).turn g.supply).1.workspace.drawn.drop _ = _
    rw [hids, List.drop_left]
  · rw [threads_turn, if_pos rfl, hids]

theorem drawn_length_le_turn (g : Shared ι) (i : ι) :
    g.drawn.length ≤ (g.turn i).drawn.length := by
  obtain ⟨ids, hids, -⟩ := g.exists_drawn i
  rw [hids, List.length_append]
  omega

theorem drawn_length_le_run (g : Shared ι) (schedule : List ι) :
    g.drawn.length ≤ (g.run schedule).drawn.length := by
  induction schedule generalizing g with
  | nil => exact Nat.le_refl _
  | cons i rest ih => exact Nat.le_trans (g.drawn_length_le_turn i) (ih (g.turn i))

/-- A turn keeps the programs apart, since what it hands out is new to all of
them. -/
theorem Orderly.turn (h : g.Orderly first)
    (hroom : first.toNat + (g.turn i).drawn.length ≤ 18446744073709551616) :
    (g.turn i).Orderly first := by
  obtain ⟨ids, hdrawn, hthread, htake⟩ := g.exists_drawn i
  have hfollows : IdSupply.Follows first (g.turn i).drawn (g.turn i).supply := by
    rw [hdrawn]
    exact h.follows.append htake
  have hother : ∀ j, j ≠ i → (g.turn i).threads j = g.threads j := fun j hj => by
    rw [threads_turn, if_neg hj]
  -- what a program has drawn is part of what was handed out to all of them
  have hnew : ∀ j, ids.Disjoint (g.threads j).workspace.drawn := by
    have hnodup := hfollows.nodup hroom
    rw [hdrawn] at hnodup
    intro j id hid hmem
    exact List.disjoint_of_nodup_append hnodup ((h.sublist j).subset hmem) hid
  have hapart : ∀ j, j ≠ i → ((g.turn i).threads i).workspace.drawn.Disjoint
      ((g.turn i).threads j).workspace.drawn := by
    intro j hj
    rw [hthread, hother j hj, List.disjoint_append_left]
    exact ⟨h.apart i j (Ne.symm hj), hnew j⟩
  refine ⟨hfollows, fun j => ?_, fun j k hjk => ?_, fun j => ?_⟩
  · rw [hdrawn]
    by_cases hj : j = i
    · rw [hj, hthread]
      exact (h.sublist i).append (List.Sublist.refl ids)
    · rw [hother j hj]
      exact (h.sublist j).trans (List.sublist_append_left g.drawn ids)
  · by_cases hj : j = i
    · subst hj
      exact hapart k (Ne.symm hjk)
    by_cases hk : k = i
    · subst hk
      exact fun id hid hid' => hapart j hj hid' hid
    · rw [hother j hj, hother k hk]
      exact h.apart j k hjk
  · rw [threads_turn]
    split
    · exact Thread.contained_turn (h.contained i) g.supply
    · exact h.contained j

theorem Orderly.run (h : g.Orderly first) {schedule : List ι}
    (hroom : first.toNat + (g.run schedule).drawn.length ≤ 18446744073709551616) :
    (g.run schedule).Orderly first := by
  induction schedule generalizing g with
  | nil => exact h
  | cons i rest ih =>
      have hlater := (g.turn i).drawn_length_le_run rest
      have hroom' : first.toNat + ((g.turn i).run rest).drawn.length ≤ 18446744073709551616 :=
        hroom
      exact ih (h.turn (by omega)) hroom'

end Shared

/-! ### Renamings between two counts -/

/-- `KeepsOrder ρ ids`: the renaming keeps the identifiers distinct and in
order. -/
structure KeepsOrder (ρ : UInt64 → UInt64) (ids : List UInt64) : Prop where
  lt : ∀ x ∈ ids, ∀ y ∈ ids, x < y → ρ x < ρ y
  injective : ∀ x ∈ ids, ∀ y ∈ ids, ρ x = ρ y → x = y

theorem keepsOrder_of_pairwise {ρ : UInt64 → UInt64} {ids : List UInt64}
    (h : ids.Pairwise (· < ·)) (hρ : (ids.map ρ).Pairwise (· < ·)) : KeepsOrder ρ ids := by
  have hboth : ∀ i j, ∀ hi : i < ids.length, ∀ hj : j < ids.length, i < j →
      ids[i] < ids[j] ∧ ρ ids[i] < ρ ids[j] := by
    intro i j hi hj hij
    exact ⟨List.pairwise_iff_getElem.mp h i j hi hj hij,
      List.pairwise_iff_getElem.mp (List.pairwise_map.mp hρ) i j hi hj hij⟩
  refine ⟨fun x hx y hy hxy => ?_, fun x hx y hy hxy => ?_⟩
  all_goals
    obtain ⟨i, hi, rfl⟩ := List.getElem_of_mem hx
    obtain ⟨j, hj, rfl⟩ := List.getElem_of_mem hy
  · rcases Nat.lt_trichotomy i j with hij | rfl | hij
    · exact (hboth i j hi hj hij).2
    · exact absurd hxy (UInt64.lt_irrefl _)
    · exact absurd (UInt64.lt_trans hxy (hboth j i hj hi hij).1) (UInt64.lt_irrefl _)
  · rcases Nat.lt_trichotomy i j with hij | rfl | hij
    · exact absurd hxy (UInt64.ne_of_lt (hboth i j hi hj hij).2)
    · rfl
    · exact absurd hxy.symm (UInt64.ne_of_lt (hboth j i hj hi hij).2)

/-- A program on a supply that is ahead does the same with shifted identifiers. -/
theorem Builder.run_shift (d : UInt64) (p : Builder) (w : Workspace) (s : IdSupply) :
    (p.run (w.rename (· + d)) ⟨s.next + d⟩).outcome =
      (p.run w s).outcome.map (Term.rename (· + d)) := by
  induction p generalizing w s with
  | done answer =>
      change answer.map (w.rename (· + d)).term = (answer.map w.term).map (Term.rename (· + d))
      rw [Workspace.term_rename]
      cases answer <;> rfl
  | act a next ih =>
      obtain ⟨hlength, hact⟩ := w.act_rename (· + d) s ⟨s.next + d⟩ a
      obtain ⟨ids, hids, htake⟩ := w.exists_drawn_act s a
      obtain ⟨ids', hids', htake'⟩ := (w.rename (· + d)).exists_drawn_act ⟨s.next + d⟩ a
      -- as many are handed out, so the one block is the other, shifted
      have hcount : ids'.length = ids.length := by
        rw [hids, hids', List.length_append, List.length_append, Workspace.rename,
          List.length_map] at hlength
        omega
      rw [hcount, IdSupply.takeBlock_shift, htake] at htake'
      obtain ⟨rfl, hsupply⟩ := Prod.mk.inj htake'
      have hdrawn : ((w.rename (· + d)).act ⟨s.next + d⟩ a).workspace.drawn =
          (w.act s a).workspace.drawn.map (· + d) := by
        rw [hids, hids', List.map_append, Workspace.rename]
      obtain ⟨hworkspace, hanswer⟩ := hact hdrawn
      have hseen : ((w.rename (· + d)).act ⟨s.next + d⟩ a).answer.map (List.map Term.anonymous) =
          (w.act s a).answer.map (List.map Term.anonymous) := by
        rw [hanswer]
        exact map_anonymous_rename _ _
      change ((next _).run ((w.rename (· + d)).act ⟨s.next + d⟩ a).workspace _).outcome = _
      rw [hseen, hworkspace, ← hsupply]
      exact ih _ _ _

/-! ### Programs alone and together -/

theorem Builder.mentions_alone {p : Builder} {answer : Except Error Nat} {t : Term}
    (houtcome : p.alone.outcome = answer.map p.alone.workspace.term)
    (ht : p.alone.outcome = .ok t) : t.Mentions (· ∈ p.alone.workspace.drawn) := by
  rw [houtcome] at ht
  cases answer with
  | error e => cases ht
  | ok n =>
      obtain rfl := Except.ok.inj ht
      exact (p.contained_run Workspace.contained_nil {}).term n

namespace Shared

variable {ι : Type} [DecidableEq ι] {programs : ι → Builder} {first : UInt64} {schedule : List ι}

theorem outcome?_run {i : ι} (hturns : (programs i).alone.turns ≤ schedule.count i)
    (hroom : first.toNat + ((start programs first).run schedule).drawn.length <
      18446744073709551616) :
    ∃ ρ, KeepsOrder ρ (programs i).alone.workspace.drawn ∧
      (∀ t, (programs i).alone.outcome = .ok t →
        t.Mentions (· ∈ (programs i).alone.workspace.drawn)) ∧
      (((start programs first).run schedule).threads i).outcome? =
        some ((programs i).alone.outcome.map (Term.rename ρ)) := by
  have horderly : ((start programs first).run schedule).Orderly first :=
    (orderly_start programs first).run (Nat.le_of_lt hroom)
  obtain ⟨supplies, hlength, hthread⟩ := (start programs first).exists_turns schedule i
  have hsublist := horderly.sublist i
  have hordered := (horderly.follows.pairwise (Nat.le_of_lt hroom)).sublist hsublist
  have hroom' : (1 : UInt64).toNat +
      (Thread.turns ⟨programs i, {}⟩ supplies).workspace.drawn.length ≤ 18446744073709551616 := by
    have hone : (1 : UInt64).toNat = 1 := rfl
    have hle := hsublist.length_le
    rw [hthread] at hle
    change (Thread.turns ⟨programs i, {}⟩ supplies).workspace.drawn.length ≤ _ at hle
    omega
  obtain ⟨answer, hdone, houtcome, halike, hfollows⟩ :=
    Thread.turns_alike (programs i) Workspace.alike_nil (IdSupply.follows_nil 1) supplies
      (hlength ▸ hturns) hroom'
  change (programs i).alone.workspace.Alike _ at halike
  change IdSupply.Follows 1 (programs i).alone.workspace.drawn _ at hfollows
  have hlone := hfollows.pairwise (by rw [← halike.1]; exact hroom')
  have hnodup := hfollows.nodup (by rw [← halike.1]; exact hroom')
  -- it renames what the program draws alone to what it has drawn here, one by one
  obtain ⟨ρ, hρ⟩ := exists_eq_map_of_nodup hnodup halike.1
  have hworkspace : (((start programs first).run schedule).threads i).workspace =
      (programs i).alone.workspace.rename ρ := by
    rw [hthread]
    exact halike.2 ρ hρ
  refine ⟨ρ, keepsOrder_of_pairwise hlone ?_, fun t => Builder.mentions_alone houtcome, ?_⟩
  · rw [hworkspace] at hordered
    exact hordered
  · have hprogram : (((start programs first).run schedule).threads i).program = .done answer := by
      rw [hthread]
      exact hdone
    have houtcome' : (programs i).alone.outcome = answer.map (programs i).alone.workspace.term :=
      houtcome
    rw [Thread.outcome?, hprogram, hworkspace, Workspace.term_rename, houtcome']
    cases answer <;> rfl

end Shared

/-- Programs that share a supply end as they do alone, up to a renaming that
keeps the order of identifiers, and no identifier is in terms of two of them. A
program alone, on supplies that start at two identifiers, ends with terms that
are shifted by their difference. -/
theorem sharing_renames {ι : Type} [DecidableEq ι] (programs : ι → Builder) (first : UInt64)
    (schedule : List ι)
    (hroom : first.toNat + ((Shared.start programs first).run schedule).drawn.length <
      18446744073709551616) :
    (∀ i, (programs i).alone.turns ≤ schedule.count i → ∃ ρ,
      KeepsOrder ρ (programs i).alone.workspace.drawn ∧
      (∀ t, (programs i).alone.outcome = .ok t →
        t.Mentions (· ∈ (programs i).alone.workspace.drawn)) ∧
      (((Shared.start programs first).run schedule).threads i).outcome? =
        some ((programs i).alone.outcome.map (Term.rename ρ))) ∧
    (∀ i j, i ≠ j → ∀ m n,
      let t := (((Shared.start programs first).run schedule).threads i).workspace.term m
      let u := (((Shared.start programs first).run schedule).threads j).workspace.term n
      (t.nodes.flatMap Term.identifiers).Disjoint (u.nodes.flatMap Term.identifiers)) ∧
    ∀ i a b, ((programs i).run {} ⟨b⟩).outcome =
      ((programs i).run {} ⟨a⟩).outcome.map (Term.rename (· + (b - a))) := by
  have horderly : ((Shared.start programs first).run schedule).Orderly first :=
    (Shared.orderly_start programs first).run (Nat.le_of_lt hroom)
  refine ⟨fun i hturns => Shared.outcome?_run hturns hroom,
    fun i j hij m n => horderly.identifiers_disjoint hij m n, fun i a b => ?_⟩
  have hshift := (programs i).run_shift (b - a) {} ⟨a⟩
  rw [← UInt64.add_comm, UInt64.sub_add_cancel] at hshift
  exact hshift

/-- A function of a parameter that gives a function of another one, which adds
the two. -/
def Builder.nestedAddition : Builder :=
  .act (.enter 1) fun _ => .act (.enter 1) fun _ =>
    .act (.call (.apply ⟨.add, .one⟩ (by decide) 0 [.term 1] [])) fun _ =>
    .act (.leave 2) fun _ => .act (.leave 3) fun _ => .done (.ok 4)

/-- A wrapper around a field of the implicit variable, and an error if there is
any. -/
def Builder.wrappedField : Builder :=
  .act (.call (.given .implicitVar Term.plain_implicitVar)) fun _ =>
    .act (.call (.apply ⟨.getField, .one⟩ (by decide) 0 [.value (.string "active") trivial] []))
      fun
      | .error e => .done (.error e)
      | .ok _ => .act (.call (.wrap 1)) fun _ => .done (.ok 2)

/-- The wrapper comes between the two functions and takes the identifier between
theirs. -/
theorem sharing_renames_wrapperBetween :
    let programs := fun b : Bool => if b then Builder.nestedAddition else .wrappedField
    let g := (Shared.start programs 7).run [true, false, false, false, true, true, true, true]
    g.drawn = [7, 8, 9] ∧
    (programs true).alone.workspace.drawn = [1, 2] ∧
    (g.threads true).outcome? = some (.ok (Term.functionNode [7] (Term.functionNode [9]
      (.node .add [.var 7, .var 9] [])))) ∧
    ∃ ρ, KeepsOrder ρ (programs true).alone.workspace.drawn ∧
      (g.threads true).outcome? = some ((programs true).alone.outcome.map (Term.rename ρ)) := by
  intro programs g
  refine ⟨by decide, rfl, rfl, ?_⟩
  obtain ⟨halone, -, -⟩ := sharing_renames programs 7
    [true, false, false, false, true, true, true, true] (by decide)
  obtain ⟨ρ, hρ, -, houtcome⟩ := halone true (by decide)
  exact ⟨ρ, hρ, houtcome⟩

end Reql
