/-
The fields of a block after a store into another field, and the items of a
directory block as a list. Every later proof reads blocks through these
equations, never through bytes.
-/
import TinyFs.Model.Handle

namespace TinyFs

open Bytes

namespace Block

variable (b : Block)

theorem next_lt : b.next < 2 ^ 32 := Buf.u32_lt _ _
theorem itemSize_lt (i : Nat) : b.itemSize i < 2 ^ 32 := Buf.u32_lt _ _

/-! ## Links -/

@[simp] theorem prev_setPrev (v : Nat) : (b.setPrev v).prev = v % 2 ^ 32 := Buf.u32_setU32_self _ _ (by omega)
@[simp] theorem next_setNext (v : Nat) : (b.setNext v).next = v % 2 ^ 32 := Buf.u32_setU32_self _ _ (by omega)
@[simp] theorem parent_setParent (v : Nat) : (b.setParent v).parent = v % 2 ^ 32 :=
  Buf.u32_setU32_self _ _ (by omega)

@[simp] theorem next_setPrev (v : Nat) : (b.setPrev v).next = b.next := Buf.u32_setU32_ne _ _ (by omega)
@[simp] theorem parent_setPrev (v : Nat) : (b.setPrev v).parent = b.parent := Buf.u32_setU32_ne _ _ (by omega)
@[simp] theorem prev_setNext (v : Nat) : (b.setNext v).prev = b.prev := Buf.u32_setU32_ne _ _ (by omega)
@[simp] theorem parent_setNext (v : Nat) : (b.setNext v).parent = b.parent := Buf.u32_setU32_ne _ _ (by omega)
@[simp] theorem prev_setParent (v : Nat) : (b.setParent v).prev = b.prev := Buf.u32_setU32_ne _ _ (by omega)
@[simp] theorem next_setParent (v : Nat) : (b.setParent v).next = b.next := Buf.u32_setU32_ne _ _ (by omega)

@[simp] theorem prev_zero : Block.prev Buf.zero = 0 := Buf.u32_zero _
@[simp] theorem next_zero : Block.next Buf.zero = 0 := Buf.u32_zero _
@[simp] theorem parent_zero : Block.parent Buf.zero = 0 := Buf.u32_zero _

@[simp] theorem prev_copyData (os : Nat) (src : List UInt8) (len : Nat) : (b.copyData os src len).prev = b.prev :=
  Buf.u32_fill_ne _ _ (by omega)
@[simp] theorem next_copyData (os : Nat) (src : List UInt8) (len : Nat) : (b.copyData os src len).next = b.next :=
  Buf.u32_fill_ne _ _ (by omega)
@[simp] theorem prev_clearData : b.clearData.prev = b.prev := Buf.u32_fill_ne _ _ (by omega)
@[simp] theorem next_clearData : b.clearData.next = b.next := Buf.u32_fill_ne _ _ (by omega)

/-! ## Items -/

/-- Two blocks with the same bytes from 12 on have the same items. -/
theorem item_congr {b c : Block} (i : Nat) (h : ∀ k, 12 ≤ k → b.get k = c.get k) : b.item i = c.item i := by
  have h4 : ∀ o, 12 ≤ o → b.u32 o = c.u32 o := fun o ho => Buf.u32_congr fun k _ => h _ (by omega)
  simp only [item, itemBlk, itemSize, itemType, itemName, itemOff]
  rw [h4 _ (by omega), h4 _ (by omega), h _ (by omega)]
  congr 1
  exact Buf.slice_congr fun k _ => h _ (by omega)

@[simp] theorem item_setPrev (v i : Nat) : (b.setPrev v).item i = b.item i :=
  item_congr i fun _ _ => Buf.get_fill_out _ _ (by omega)

@[simp] theorem item_setNext (v i : Nat) : (b.setNext v).item i = b.item i :=
  item_congr i fun _ _ => Buf.get_fill_out _ _ (by omega)

@[simp] theorem item_setParent (v i : Nat) : (b.setParent v).item i = b.item i :=
  item_congr i fun _ _ => Buf.get_fill_out _ _ (by omega)

@[simp] theorem item_type (i : Nat) : (b.item i).type = b.itemType i := rfl
@[simp] theorem item_blk (i : Nat) : (b.item i).blk = b.itemBlk i := rfl
@[simp] theorem item_size (i : Nat) : (b.item i).size = b.itemSize i := rfl
@[simp] theorem item_name (i : Nat) : (b.item i).name = b.itemName i := rfl

@[simp] theorem itemType_zero (i : Nat) : Block.itemType Buf.zero i = itemFree := Buf.get_zero _

/-! ### Stores into one item -/

/-- A store into the 25 bytes of item `i` leaves every other item. -/
theorem item_fill_ne {i j o len : Nat} (f : Nat → UInt8) (hij : j ≠ i) (h1 : itemOff i ≤ o)
    (h2 : o + len ≤ itemOff i + 25) : Block.item (b.fill o f len) j = b.item j := by
  have hout : ∀ k, itemOff j ≤ k → k < itemOff j + 25 → (b.fill o f len).get k = b.get k := by
    intro k h3 h4
    simp only [itemOff] at *
    exact Buf.get_fill_out _ _ (by omega)
  have h4 : ∀ d, d + 4 ≤ 25 → (b.fill o f len).u32 (itemOff j + d) = b.u32 (itemOff j + d) :=
    fun d hd => Buf.u32_congr fun k _ => hout _ (by omega) (by omega)
  have h0 := h4 0 (by omega)
  simp only [Nat.add_zero] at h0
  simp only [item, itemBlk, itemSize, itemType, itemName]
  rw [h0, h4 4 (by omega), hout _ (by omega) (by omega)]
  congr 1
  exact Buf.slice_congr fun k hk => hout _ (by omega) (by simp only [nameLen] at hk; omega)

theorem set_eq_fill {n : Nat} (c : Buf n) (i : Nat) (v : UInt8) : c.set i v = c.fill i (fun _ => v) 1 := rfl

variable {b} {i : Nat}

@[simp] theorem prev_setItemType (t : UInt8) : (b.setItemType i t).prev = b.prev :=
  Buf.u32_set_ne _ _ (by simp only [itemOff]; omega)
@[simp] theorem next_setItemType (t : UInt8) : (b.setItemType i t).next = b.next :=
  Buf.u32_set_ne _ _ (by simp only [itemOff]; omega)
@[simp] theorem parent_setItemType (t : UInt8) : (b.setItemType i t).parent = b.parent :=
  Buf.u32_set_ne _ _ (by simp only [itemOff]; omega)
@[simp] theorem prev_setItemName (name : List UInt8) : (b.setItemName i name).prev = b.prev :=
  Buf.u32_fill_ne _ _ (by simp only [itemOff]; omega)
@[simp] theorem next_setItemName (name : List UInt8) : (b.setItemName i name).next = b.next :=
  Buf.u32_fill_ne _ _ (by simp only [itemOff]; omega)
@[simp] theorem parent_setItemName (name : List UInt8) : (b.setItemName i name).parent = b.parent :=
  Buf.u32_fill_ne _ _ (by simp only [itemOff]; omega)
@[simp] theorem prev_setItemBlk (v : Nat) : (b.setItemBlk i v).prev = b.prev :=
  Buf.u32_setU32_ne _ _ (by simp only [itemOff]; omega)
@[simp] theorem next_setItemBlk (v : Nat) : (b.setItemBlk i v).next = b.next :=
  Buf.u32_setU32_ne _ _ (by simp only [itemOff]; omega)
@[simp] theorem parent_setItemBlk (v : Nat) : (b.setItemBlk i v).parent = b.parent :=
  Buf.u32_setU32_ne _ _ (by simp only [itemOff]; omega)
@[simp] theorem prev_setItemSize (v : Nat) : (b.setItemSize i v).prev = b.prev :=
  Buf.u32_setU32_ne _ _ (by simp only [itemOff]; omega)
@[simp] theorem next_setItemSize (v : Nat) : (b.setItemSize i v).next = b.next :=
  Buf.u32_setU32_ne _ _ (by simp only [itemOff]; omega)
@[simp] theorem parent_setItemSize (v : Nat) : (b.setItemSize i v).parent = b.parent :=
  Buf.u32_setU32_ne _ _ (by simp only [itemOff]; omega)

@[simp] theorem prev_fillItem (t : UInt8) (v z : Nat) (name : List UInt8) :
    (fillItem i t v z name b).prev = b.prev := by simp [fillItem]
@[simp] theorem next_fillItem (t : UInt8) (v z : Nat) (name : List UInt8) :
    (fillItem i t v z name b).next = b.next := by simp [fillItem]
@[simp] theorem parent_fillItem (t : UInt8) (v z : Nat) (name : List UInt8) :
    (fillItem i t v z name b).parent = b.parent := by simp [fillItem]

/-- The 16 bytes `strncpy` stores for a name. -/
def padName (name : List UInt8) : List UInt8 :=
  (List.range nameLen).map fun k => (name.takeWhile (· ≠ 0)).getD k 0

theorem item_setItemType_ne {j : Nat} (t : UInt8) (h : j ≠ i) : (b.setItemType i t).item j = b.item j := by
  rw [setItemType, set_eq_fill]
  exact item_fill_ne b _ h (by omega) (by omega)

theorem item_setItemBlk_ne {j : Nat} (v : Nat) (h : j ≠ i) : (b.setItemBlk i v).item j = b.item j :=
  item_fill_ne b _ h (by omega) (by omega)

theorem item_setItemSize_ne {j : Nat} (v : Nat) (h : j ≠ i) : (b.setItemSize i v).item j = b.item j :=
  item_fill_ne b _ h (by omega) (by omega)

theorem item_setItemName_ne {j : Nat} (name : List UInt8) (h : j ≠ i) : (b.setItemName i name).item j = b.item j :=
  item_fill_ne b _ h (by omega) (by simp only [nameLen]; omega)

theorem item_fillItem_ne {j : Nat} (t : UInt8) (v z : Nat) (name : List UInt8) (h : j ≠ i) :
    Block.item (fillItem i t v z name b) j = b.item j := by
  rw [fillItem, item_setItemName_ne _ h, item_setItemSize_ne _ h, item_setItemBlk_ne _ h, item_setItemType_ne _ h]

theorem item_setItemType (t : UInt8) (hi : i < 20) :
    (b.setItemType i t).item i = { b.item i with type := t } := by
  have hu : ∀ o, o + 4 ≤ itemOff i + 8 → Buf.u32 (b.setItemType i t) o = b.u32 o :=
    fun o ho => Buf.u32_set_ne _ _ (by omega)
  have hn : (b.setItemType i t).itemName i = b.itemName i :=
    Buf.slice_congr fun k _ => Buf.get_set_ne _ _ (by omega)
  simp only [item, hn, itemBlk, itemSize, itemType]
  rw [hu _ (by omega), hu _ (by omega)]
  congr 1
  exact Buf.get_set_self _ _ (by simp only [itemOff]; omega)

theorem item_setItemBlk (v : Nat) (hi : i < 20) :
    (b.setItemBlk i v).item i = { b.item i with blk := v % 2 ^ 32 } := by
  have hn : (b.setItemBlk i v).itemName i = b.itemName i :=
    Buf.slice_congr fun k _ => Buf.get_fill_out _ _ (by omega)
  have ht : (b.setItemBlk i v).itemType i = b.itemType i := Buf.get_fill_out _ _ (by omega)
  have hz : (b.setItemBlk i v).itemSize i = b.itemSize i := Buf.u32_setU32_ne _ _ (by omega)
  simp only [item, hn, ht, hz]
  congr 1
  exact Buf.u32_setU32_self _ _ (by simp only [itemOff]; omega)

theorem item_setItemSize (v : Nat) (hi : i < 20) :
    (b.setItemSize i v).item i = { b.item i with size := v % 2 ^ 32 } := by
  have hn : (b.setItemSize i v).itemName i = b.itemName i :=
    Buf.slice_congr fun k _ => Buf.get_fill_out _ _ (by omega)
  have ht : (b.setItemSize i v).itemType i = b.itemType i := Buf.get_fill_out _ _ (by omega)
  have hz : (b.setItemSize i v).itemBlk i = b.itemBlk i := Buf.u32_setU32_ne _ _ (by omega)
  simp only [item, hn, ht, hz]
  congr 1
  exact Buf.u32_setU32_self _ _ (by simp only [itemOff]; omega)

theorem item_setItemName (name : List UInt8) (hi : i < 20) :
    (b.setItemName i name).item i = { b.item i with name := padName name } := by
  have hu : ∀ o, o + 4 ≤ itemOff i + 9 → Buf.u32 (b.setItemName i name) o = b.u32 o :=
    fun o ho => Buf.u32_fill_ne _ _ (by omega)
  have ht : (b.setItemName i name).itemType i = b.itemType i := Buf.get_fill_out _ _ (by omega)
  simp only [item, ht, itemBlk, itemSize, itemName]
  rw [hu _ (by omega), hu _ (by omega)]
  congr 1
  refine List.map_congr_left fun k hk => ?_
  have hk : k < nameLen := List.mem_range.mp hk
  simp only [nameLen] at hk
  rw [setItemName, Buf.get_fill_in _ _ (by omega) (by simp only [nameLen]; omega) (by simp only [itemOff]; omega)]
  congr 1
  omega

theorem item_fillItem (t : UInt8) (v z : Nat) (name : List UInt8) (hi : i < 20) :
    Block.item (fillItem i t v z name b) i =
      { blk := v % 2 ^ 32, size := z % 2 ^ 32, type := t, name := padName name } := by
  rw [fillItem, item_setItemName _ hi, item_setItemSize _ hi, item_setItemBlk _ hi, item_setItemType _ hi]

/-- `v` is `w` with a store into item `i`. -/
structure SlotStore (v w : Block) (i : Nat) : Prop where
  prev : v.prev = w.prev
  next : v.next = w.next
  parent : v.parent = w.parent
  item : ∀ j, j ≠ i → v.item j = w.item j

theorem SlotStore.fillItem (t : UInt8) (v z : Nat) (name : List UInt8) :
    SlotStore (fillItem i t v z name b) b i :=
  ⟨prev_fillItem .., next_fillItem .., parent_fillItem .., fun _ h => item_fillItem_ne t v z name h⟩

theorem SlotStore.setItemType (t : UInt8) : SlotStore (b.setItemType i t) b i :=
  ⟨prev_setItemType _, next_setItemType _, parent_setItemType _, fun _ h => item_setItemType_ne t h⟩

theorem SlotStore.setItemName (name : List UInt8) : SlotStore (b.setItemName i name) b i :=
  ⟨prev_setItemName _, next_setItemName _, parent_setItemName _, fun _ h => item_setItemName_ne name h⟩

/-! ### Cleared items -/

@[simp] theorem prev_clearItems : b.clearItems.prev = b.prev := Buf.u32_fill_ne _ _ (by omega)
@[simp] theorem next_clearItems : b.clearItems.next = b.next := Buf.u32_fill_ne _ _ (by omega)
@[simp] theorem parent_clearItems : b.clearItems.parent = b.parent := Buf.u32_fill_ne _ _ (by omega)

theorem itemType_clearItems (hi : i < 20) : b.clearItems.itemType i = itemFree :=
  Buf.get_fill_in _ _ (by simp only [itemOff]; omega) (by simp only [itemOff]; omega) (by simp only [itemOff]; omega)

end Block

end TinyFs
