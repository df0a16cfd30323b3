import Mathlib.Data.List.Nodup
import Reql.Program

/-!
What a supply hands out.

However it is asked, a supply hands out the identifiers that follow its first
one, without a gap. As long as the count does not go around they increase, so
none of them comes twice. `IdSupply.Follows` says of a list that it is all that
was handed out so far.
-/

namespace Reql

@[simp] theorem Supplies.get_set (s : Supplies) (source source' : Source) (ids : IdSupply) :
    (s.set source ids).get source' = if source' = source then ids else s.get source' := by
  cases source <;> cases source' <;> rfl

namespace IdSupply

/-- `s.upTo s'` are the identifiers handed out on the way from `s` to a later
supply. -/
def upTo (s s' : IdSupply) : List UInt64 := (s.takeBlock (s'.next - s.next).toNat).1

theorem takeBlock_zero (s : IdSupply) : s.takeBlock 0 = ([], s) := by
  simp [takeBlock]

theorem takeBlock_one (s : IdSupply) : s.takeBlock 1 = ([s.next], s.take.2) := by
  simp [takeBlock, take]

@[simp] theorem upTo_self (s : IdSupply) : s.upTo s = [] := by
  rw [upTo, UInt64.sub_self]
  simp [takeBlock]

@[simp] theorem upTo_take (s : IdSupply) : s.upTo s.take.2 = [s.next] := by
  have hone : (s.take.2.next - s.next).toNat = 1 := by
    rw [next_take, UInt64.add_comm, UInt64.add_sub_cancel]
    rfl
  rw [upTo, hone, takeBlock_one]

theorem takeBlock_add (s : IdSupply) (m n : Nat) :
    s.takeBlock (m + n) = ((s.takeBlock m).1 ++ ((s.takeBlock m).2.takeBlock n).1,
      ((s.takeBlock m).2.takeBlock n).2) := by
  simp [takeBlock, List.range_add, UInt64.add_assoc, Function.comp_def]

/-- The count does not go around before it has to. -/
theorem toNat_next_add {s : IdSupply} {n : Nat}
    (h : s.next.toNat + n < 18446744073709551616) :
    (s.next + UInt64.ofNat n).toNat = s.next.toNat + n := by
  rw [UInt64.toNat_add, UInt64.toNat_ofNat']
  omega

theorem toNat_next_takeBlock {s : IdSupply} {n : Nat}
    (h : s.next.toNat + n < 18446744073709551616) :
    (s.takeBlock n).2.next.toNat = s.next.toNat + n :=
  toNat_next_add h

theorem toNat_of_mem_takeBlock {s : IdSupply} {n : Nat} {id : UInt64}
    (h : s.next.toNat + n ≤ 18446744073709551616) (hid : id ∈ (s.takeBlock n).1) :
    s.next.toNat ≤ id.toNat ∧ id.toNat < s.next.toNat + n := by
  obtain ⟨i, hi, rfl⟩ := List.mem_map.mp hid
  have hlt := List.mem_range.mp hi
  rw [toNat_next_add (by omega)]
  omega

/-- A block is an interval if the count does not go around in it. -/
theorem mem_takeBlock_iff {s : IdSupply} {n : Nat} {id : UInt64}
    (h : s.next.toNat + n ≤ 18446744073709551616) :
    id ∈ (s.takeBlock n).1 ↔ s.next.toNat ≤ id.toNat ∧ id.toNat < s.next.toNat + n := by
  refine ⟨toNat_of_mem_takeBlock h, fun ⟨hle, hlt⟩ => ?_⟩
  refine List.mem_map.mpr ⟨id.toNat - s.next.toNat, List.mem_range.mpr (by omega), ?_⟩
  rw [← UInt64.toNat_inj, toNat_next_add (by omega)]
  omega

theorem map_toNat_takeBlock {s : IdSupply} {n : Nat}
    (h : s.next.toNat + n ≤ 18446744073709551616) :
    (s.takeBlock n).1.map UInt64.toNat = List.range' s.next.toNat n := by
  rw [takeBlock, List.map_map, List.range'_eq_map_range]
  refine List.map_congr_left fun i hi => toNat_next_add ?_
  have hlt := List.mem_range.mp hi
  omega

theorem pairwise_takeBlock {s : IdSupply} {n : Nat}
    (h : s.next.toNat + n ≤ 18446744073709551616) : (s.takeBlock n).1.Pairwise (· < ·) := by
  have hnumbers : ((s.takeBlock n).1.map UInt64.toNat).Pairwise (· < ·) := by
    rw [map_toNat_takeBlock h]
    exact List.pairwise_lt_range'
  exact (List.pairwise_map.mp hnumbers).imp UInt64.lt_iff_toNat_lt.mpr

/-- A supply that is ahead hands out the same identifiers, shifted. -/
theorem takeBlock_shift (s : IdSupply) (d : UInt64) (n : Nat) :
    takeBlock ⟨s.next + d⟩ n =
      ((s.takeBlock n).1.map (· + d), ⟨(s.takeBlock n).2.next + d⟩) := by
  have hshift : ∀ c : UInt64, s.next + d + c = s.next + c + d := by
    intro c
    rw [UInt64.add_assoc, UInt64.add_comm d c, UInt64.add_assoc]
  simp [takeBlock, hshift, Function.comp_def]

/-- `Follows first ids s`: from the first identifier on, the supply has handed
out the list. -/
def Follows (first : UInt64) (ids : List UInt64) (s : IdSupply) : Prop :=
  takeBlock ⟨first⟩ ids.length = (ids, s)

theorem follows_nil (first : UInt64) : Follows first [] ⟨first⟩ := takeBlock_zero ⟨first⟩

theorem Follows.append {first : UInt64} {ids more : List UInt64} {s s' : IdSupply}
    (h : Follows first ids s) (hmore : s.takeBlock more.length = (more, s')) :
    Follows first (ids ++ more) s' := by
  rw [Follows, List.length_append, takeBlock_add, h, hmore]

theorem Follows.subset_takeBlock {first : UInt64} {ids : List UInt64} {s : IdSupply}
    (h : Follows first ids s) {count : Nat} (hcount : ids.length ≤ count) :
    ids ⊆ (takeBlock ⟨first⟩ count).1 := by
  obtain ⟨rest, rfl⟩ := Nat.exists_eq_add_of_le hcount
  rw [takeBlock_add, h]
  exact List.subset_append_left _ _

theorem Follows.pairwise {first : UInt64} {ids : List UInt64} {s : IdSupply}
    (h : Follows first ids s) (hids : first.toNat + ids.length ≤ 18446744073709551616) :
    ids.Pairwise (· < ·) := by
  have hblock : ((takeBlock ⟨first⟩ ids.length).1).Pairwise (· < ·) := pairwise_takeBlock hids
  rwa [h] at hblock

theorem Follows.nodup {first : UInt64} {ids : List UInt64} {s : IdSupply}
    (h : Follows first ids s) (hids : first.toNat + ids.length ≤ 18446744073709551616) :
    ids.Nodup :=
  (h.pairwise hids).imp UInt64.ne_of_lt

/-! ### Demands -/

def Demand.size : Demand → Nat
  | .one => 1
  | .block count => count

def Demand.total : List Demand → Nat
  | [] => 0
  | demand :: rest => demand.size + total rest

@[simp] theorem Demand.total_append (demands more : List Demand) :
    total (demands ++ more) = total demands + total more := by
  induction demands with
  | nil => simp [total]
  | cons demand rest ih => simp [total, ih, Nat.add_assoc]

/-- The answer to every demand is a block, a single identifier being a block of
one. -/
theorem answer_eq_takeBlock (s : IdSupply) (demand : Demand) :
    s.answer demand = s.takeBlock demand.size := by
  cases demand with
  | one => exact s.takeBlock_one.symm
  | block count => rfl

theorem answerAll_append (s : IdSupply) (demands more : List Demand) :
    s.answerAll (demands ++ more) =
      ((s.answerAll demands).1 ++ ((s.answerAll demands).2.answerAll more).1,
        ((s.answerAll demands).2.answerAll more).2) := by
  induction demands generalizing s with
  | nil => rfl
  | cons demand rest ih => simp [answerAll, ih]

/-- All answers together are one block. -/
theorem takeBlock_total (s : IdSupply) (demands : List Demand) :
    s.takeBlock (Demand.total demands) =
      ((s.answerAll demands).1.flatten, (s.answerAll demands).2) := by
  induction demands generalizing s with
  | nil => exact s.takeBlock_zero
  | cons demand rest ih =>
      rw [Demand.total, takeBlock_add, ih, ← answer_eq_takeBlock]
      rfl

end IdSupply
end Reql
