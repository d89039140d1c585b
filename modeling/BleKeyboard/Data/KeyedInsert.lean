import Mathlib.Data.List.Perm.Basic
import Mathlib.Data.List.Pairwise
import Mathlib.Order.Lattice

namespace BleKeyboard.Data

variable {α β : Type*} [LinearOrder β]

def insertByKey (key : α → β) (item : α) : List α → List α
  | [] => [item]
  | head :: rest =>
      if key head ≤ key item then head :: insertByKey key item rest else item :: head :: rest

def SortedByKey (key : α → β) (items : List α) : Prop :=
  items.Pairwise fun first second => key first ≤ key second

variable {key other : α → β} {item : α} {items : List α}

theorem insertByKey_perm : (insertByKey key item items).Perm (item :: items) := by
  induction items with
  | nil => exact .refl _
  | cons head rest ih =>
      simp only [insertByKey]
      split
      · exact (ih.cons head).trans (.swap item head rest)
      · exact .refl _

@[simp] theorem mem_insertByKey {found : α} : found ∈ insertByKey key item items ↔
    found = item ∨ found ∈ items := by
  rw [insertByKey_perm.mem_iff, List.mem_cons]

theorem SortedByKey.insertByKey (sorted : SortedByKey key items) :
    SortedByKey key (insertByKey key item items) := by
  induction items with
  | nil => exact List.pairwise_singleton ..
  | cons head rest ih =>
      rcases List.pairwise_cons.mp sorted with ⟨least, tail⟩
      simp only [Data.insertByKey]
      split
      · rename_i before
        refine List.pairwise_cons.mpr ⟨fun found member => ?_, ih tail⟩
        rcases mem_insertByKey.mp member with rfl | member
        · exact before
        · exact least found member
      · rename_i after
        have below : key item ≤ key head := le_of_not_ge after
        refine List.pairwise_cons.mpr ⟨fun found member => ?_, sorted⟩
        rcases List.mem_cons.mp member with rfl | member
        · exact below
        · exact le_trans below (least found member)

theorem nodup_insertByKey : (insertByKey key item items).Nodup ↔ item ∉ items ∧ items.Nodup := by
  rw [insertByKey_perm.nodup_iff, List.nodup_cons]

theorem SortedByKey.congr (sorted : SortedByKey key items)
    (same : ∀ found ∈ items, other found = key found) :
    SortedByKey other items :=
  List.Pairwise.imp_of_mem (fun first second order => by rwa [same _ first, same _ second]) sorted

end BleKeyboard.Data
