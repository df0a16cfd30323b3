import Mathlib.Data.List.Flatten
import Reql.Proofs.Supply

/-!
Clients of one supply.

A client asks for identifiers, one at a time or in a block, and what it asks for
next may depend on what it has been given. The clients of a supply take turns in
any order, and a turn asks the supply once. Whatever the order is, the demands
come one after the other, and the supply answers them as it would answer a
single client. So all that is handed out is one block, and every turn has its
own part of it: `Service.Orderly` says where that part begins and that it lies
within the block.
-/

namespace Reql

open IdSupply (Demand)

/-- A client, by what it asks for after the answers that it has had so far, the
oldest first. It may ask for nothing more. -/
abbrev Client := List (List UInt64) → Option Demand

structure Grant (ι : Type) where
  client : ι
  demand : Demand
  supply : IdSupply
  ids : List UInt64

structure Service (ι : Type) where
  supply : IdSupply
  grants : List (Grant ι) := []

namespace Service

variable {ι : Type}

def start (first : UInt64) : Service ι := { supply := ⟨first⟩ }

def demands (g : Service ι) : List Demand := g.grants.map Grant.demand

def answers (g : Service ι) : List (List UInt64) := g.grants.map Grant.ids

def demanded (g : Service ι) : Nat := Demand.total g.demands

def handedOut (g : Service ι) : List UInt64 := g.answers.flatten

def meet (g : Service ι) (client : ι) (demand : Demand) : Service ι where
  supply := (g.supply.answer demand).2
  grants := g.grants ++ [⟨client, demand, g.supply, (g.supply.answer demand).1⟩]

variable [DecidableEq ι]

def seen (g : Service ι) (client : ι) : List (List UInt64) :=
  (g.grants.filter fun grant => grant.client = client).map Grant.ids

def received (g : Service ι) (client : ι) : List UInt64 := (g.seen client).flatten

/-- The turn of a client passes if the client asks for nothing. -/
def turn (clients : ι → Client) (g : Service ι) (client : ι) : Service ι :=
  match clients client (g.seen client) with
  | none => g
  | some demand => g.meet client demand

def run (clients : ι → Client) (g : Service ι) (schedule : List ι) : Service ι :=
  schedule.foldl (turn clients) g

theorem received_sublist (g : Service ι) (client : ι) :
    (g.received client).Sublist g.handedOut :=
  (List.filter_sublist.map Grant.ids).flatten

end Service

/-! ### Turns -/

namespace Service

variable {ι : Type} {s : IdSupply} {g : Service ι}

@[simp] theorem demands_meet (g : Service ι) (client : ι) (demand : Demand) :
    (g.meet client demand).demands = g.demands ++ [demand] := by
  simp [demands, meet]

@[simp] theorem answers_meet (g : Service ι) (client : ι) (demand : Demand) :
    (g.meet client demand).answers = g.answers ++ [(g.supply.answer demand).1] := by
  simp [answers, meet]

@[simp] theorem demanded_meet (g : Service ι) (client : ι) (demand : Demand) :
    (g.meet client demand).demanded = g.demanded + demand.size := by
  simp [demanded, Demand.total]

/-- `g.Orderly s` is what holds of all that is handed out starting with `s`. -/
structure Orderly (s : IdSupply) (g : Service ι) : Prop where
  /-- The demands are answered as if they came from a single client. -/
  answers : s.answerAll g.demands = (g.answers, g.supply)
  /-- A grant is the block that begins after what was handed out before. -/
  block : ∀ grant ∈ g.grants, grant.ids = (grant.supply.takeBlock grant.demand.size).1 ∧
    ∃ before, before + grant.demand.size ≤ g.demanded ∧ grant.supply = (s.takeBlock before).2

theorem orderly_start (first : UInt64) : (start first : Service ι).Orderly ⟨first⟩ where
  answers := rfl
  block := nofun

theorem Orderly.takeBlock_demanded (h : g.Orderly s) :
    s.takeBlock g.demanded = (g.handedOut, g.supply) := by
  rw [demanded, IdSupply.takeBlock_total, h.answers, handedOut]

theorem Orderly.meet (h : g.Orderly s) (client : ι) (demand : Demand) :
    (g.meet client demand).Orderly s := by
  constructor
  · rw [demands_meet, answers_meet, IdSupply.answerAll_append, h.answers]
    rfl
  · intro grant hgrant
    rw [demanded_meet]
    rcases List.mem_append.mp hgrant with hold | hnew
    · obtain ⟨hids, before, hle, hsupply⟩ := h.block grant hold
      exact ⟨hids, before, Nat.le_add_right_of_le hle, hsupply⟩
    · -- the new block begins after all that was handed out
      obtain rfl := List.mem_singleton.mp hnew
      refine ⟨congrArg Prod.fst (g.supply.answer_eq_takeBlock demand), g.demanded,
        Nat.le_refl _, ?_⟩
      rw [h.takeBlock_demanded]

theorem Orderly.turn [DecidableEq ι] (h : g.Orderly s) (clients : ι → Client) (client : ι) :
    (g.turn clients client).Orderly s := by
  rw [Service.turn]
  split
  · exact h
  · exact h.meet client _

theorem Orderly.run [DecidableEq ι] (h : g.Orderly s) (clients : ι → Client) (schedule : List ι) :
    (g.run clients schedule).Orderly s := by
  induction schedule generalizing g with
  | nil => exact h
  | cons client rest ih => exact ih (h.turn clients client)

/-! ### What is handed out

As long as the count does not go around, the one block is an interval, and the
parts of it that are grants do not go around either. -/

section Room

variable (h : g.Orderly s) (hroom : s.next.toNat + g.demanded < 18446744073709551616)
include h hroom

theorem Orderly.pairwise_handedOut : g.handedOut.Pairwise (· < ·) := by
  have hblock := IdSupply.pairwise_takeBlock (Nat.le_of_lt hroom)
  rwa [h.takeBlock_demanded] at hblock

theorem Orderly.mem_handedOut_iff (id : UInt64) :
    id ∈ g.handedOut ↔
      s.next.toNat ≤ id.toNat ∧ id.toNat < s.next.toNat + g.demanded := by
  rw [← IdSupply.mem_takeBlock_iff (Nat.le_of_lt hroom), h.takeBlock_demanded]

theorem Orderly.toNat_next_supply : g.supply.next.toNat = s.next.toNat + g.demanded := by
  have hnext := IdSupply.toNat_next_takeBlock hroom
  rwa [h.takeBlock_demanded] at hnext

theorem Orderly.grant_lt {grant : Grant ι} (hgrant : grant ∈ g.grants) :
    grant.supply.next.toNat + grant.demand.size < 18446744073709551616 := by
  obtain ⟨-, before, hle, hsupply⟩ := h.block grant hgrant
  rw [hsupply, IdSupply.toNat_next_takeBlock (by omega)]
  omega

theorem Orderly.map_toNat_ids {grant : Grant ι} (hgrant : grant ∈ g.grants) :
    grant.ids.map UInt64.toNat =
      List.range' grant.supply.next.toNat grant.demand.size := by
  rw [(h.block grant hgrant).1]
  exact IdSupply.map_toNat_takeBlock (Nat.le_of_lt (h.grant_lt hroom hgrant))

end Room

/-- Whatever the clients ask for and in whatever order they take turns, as long
as the first identifier and the total of their demands add up to a 64-bit number:
no identifier is handed out twice, those that are handed out are an interval that
begins with the first one and has room for all demands, an answer has as many as
its demand asks for, one after the other, and each client sees them increase. No
sum of a turn goes around, neither that of an identifier nor that of the end of
its block, which is the new count. -/
theorem hands_out_each_id_once [DecidableEq ι] (clients : ι → Client) (first : UInt64)
    (schedule : List ι)
    (hroom : first.toNat + ((start first).run clients schedule).demanded <
      18446744073709551616) :
    let g := (start first).run clients schedule
    g.handedOut.Nodup ∧
      (∀ id, id ∈ g.handedOut ↔
        first.toNat ≤ id.toNat ∧ id.toNat < first.toNat + g.demanded) ∧
      (∀ grant ∈ g.grants, grant.ids.map UInt64.toNat =
        List.range' grant.supply.next.toNat grant.demand.size) ∧
      (∀ client, (g.received client).Pairwise (· < ·)) ∧
      (∀ grant ∈ g.grants, ∀ n ≤ grant.demand.size,
        (grant.supply.next + UInt64.ofNat n).toNat = grant.supply.next.toNat + n) ∧
      g.supply.next.toNat = first.toNat + g.demanded := by
  intro g
  have horderly : g.Orderly ⟨first⟩ := (orderly_start first).run clients schedule
  have hpairwise := horderly.pairwise_handedOut hroom
  refine ⟨hpairwise.imp UInt64.ne_of_lt, horderly.mem_handedOut_iff hroom,
    fun grant hgrant => horderly.map_toNat_ids hroom hgrant,
    fun client => hpairwise.sublist (g.received_sublist client),
    fun grant hgrant n hn => ?_, horderly.toNat_next_supply hroom⟩
  have hlt := horderly.grant_lt hroom hgrant
  exact IdSupply.toNat_next_add (by omega)

end Service

/-- Asks for two identifiers, for none, and for as many again as it got first. -/
def Client.inBlocks : Client
  | [] => some (.block 2)
  | [_] => some (.block 0)
  | [ids, _] => some (.block ids.length)
  | _ => none

def Client.oneByOne : Client := fun _ => some .one

/-- Two clients share the last identifiers before the count would go around. -/
theorem Service.hands_out_each_id_once_lastOnes :
    let clients := fun b : Bool => if b then Client.inBlocks else .oneByOne
    let g := (start 18446744073709551609).run clients [true, false, true, false, true, true]
    g.answers = [[18446744073709551609, 18446744073709551610], [18446744073709551611], [],
      [18446744073709551612], [18446744073709551613, 18446744073709551614]] ∧
    (18446744073709551609 : UInt64).toNat + g.demanded < 18446744073709551616 ∧
    g.handedOut.Nodup ∧
    (g.received true).Pairwise (· < ·) ∧
    g.supply.next.toNat = 18446744073709551615 := by
  intro clients g
  have hdemanded : g.demanded = 6 := by decide
  have hroom : (18446744073709551609 : UInt64).toNat + g.demanded < 18446744073709551616 := by
    rw [hdemanded]
    decide
  obtain ⟨hnodup, -, -, hreceived, -, hlast⟩ := hands_out_each_id_once clients
    18446744073709551609 [true, false, true, false, true, true] hroom
  refine ⟨by decide, hroom, hnodup, hreceived true, hlast.trans ?_⟩
  change (18446744073709551609 : UInt64).toNat + g.demanded = _
  rw [hdemanded]
  decide

end Reql
