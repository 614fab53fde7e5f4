/-!
# Sixty-four kilocells

`Cells α` holds one value of `α` for each 16-bit address. It is total: every address names
a cell, so reading and writing need no bounds. `getElem_set` is the law that everything
above relies on, and `ext` says that the cells are all there is.
-/

namespace NesMachine

/-- One value for each of the 65536 addresses. -/
structure Cells (α : Type) where
  /-- The values in the order of their addresses. -/
  values : Vector α 65536

namespace Cells

variable {α : Type}

/-- The same value at every address. -/
def fill (value : α) : Cells α := ⟨Vector.replicate 65536 value⟩

/-- The value at an address. -/
def get (cells : Cells α) (address : UInt16) : α :=
  have : address.toNat < 65536 := address.toNat_lt
  cells.values[address.toNat]

instance : GetElem (Cells α) UInt16 α (fun _ _ => True) where
  getElem cells address _ := cells.get address

/-- Replaces the value at an address. -/
def set (cells : Cells α) (address : UInt16) (value : α) : Cells α :=
  match cells with
  | ⟨values⟩ => ⟨values.set address.toNat value address.toNat_lt⟩

/-- Every address in ascending order. -/
def addresses : List UInt16 := (List.range 65536).map UInt16.ofNat

theorem getElem_fill (value : α) (a : UInt16) : (fill value)[a] = value :=
  Vector.getElem_replicate a.toNat_lt

theorem getElem_set (cells : Cells α) (a b : UInt16) (value : α) :
    (cells.set a value)[b] = if a = b then value else cells[b] := by
  show (cells.set a value).get b = if a = b then value else cells.get b
  by_cases h : a = b
  · subst h; simp [get, set]
  · have hn : a.toNat ≠ b.toNat := fun e => h (UInt16.toNat_inj.1 e)
    simp [get, set, h, hn]

theorem getElem_set_self (cells : Cells α) (a : UInt16) (value : α) :
    (cells.set a value)[a] = value := by
  simp [getElem_set]

theorem getElem_set_of_ne (cells : Cells α) {a b : UInt16} (h : a ≠ b) (value : α) :
    (cells.set a value)[b] = cells[b] := by
  simp [getElem_set, h]

@[ext] theorem ext {left right : Cells α} (h : ∀ a : UInt16, left[a] = right[a]) :
    left = right := by
  obtain ⟨left⟩ := left
  obtain ⟨right⟩ := right
  congr 1
  apply Vector.ext
  intro i hi
  have := h (UInt16.ofNat i)
  simpa [getElem, get, Nat.mod_eq_of_lt hi] using this

theorem mem_addresses (a : UInt16) : a ∈ addresses := by
  simp only [addresses, List.mem_map, List.mem_range]
  exact ⟨a.toNat, a.toNat_lt, by simp⟩

theorem addresses_pairwise : addresses.Pairwise (· < ·) := by
  rw [addresses, List.pairwise_map]
  refine List.pairwise_lt_range.imp_of_mem fun {i j} _ hj hij => ?_
  have hj' : j < 65536 := List.mem_range.mp hj
  rw [UInt16.lt_iff_toNat_lt, UInt16.toNat_ofNat', UInt16.toNat_ofNat']
  omega

end Cells

end NesMachine
