import Mathlib.Logic.Function.Basic
import TestCatalog.Text.Bytes

/-!
# Proofs/Text/Order — texts by their bytes

A text is determined by its bytes (`bytes_injective`), and comparing bytes is a total order.
Everything that is sorted by name rests on this.
-/

namespace TestCatalog

/-- **A text is determined by its bytes.** -/
theorem Text.bytes_injective : Function.Injective Text.bytes := fun _ _ h =>
  String.toByteArray_inj.mp (ByteArray.ext (Array.toList_inj.mp h))

namespace Raw

@[simp] theorem ofText_inj {a b : String} : ofText a = ofText b ↔ a = b :=
  ⟨fun h => Text.bytes_injective (congrArg bytes h), congrArg ofText⟩

theorem ext_bytes {a b : Raw} (h : a.bytes = b.bytes) : a = b := congrArg mk h

@[simp] theorem isEmpty_iff {r : Raw} : r.isEmpty = true ↔ r = "" := by
  rw [isEmpty, List.isEmpty_iff]
  exact ⟨fun h => ext_bytes h, fun h => h ▸ rfl⟩

theorem byteLE_iff {a b : Raw} : a.byteLE b ↔ a.bytes ≤ b.bytes := decide_eq_true_iff

theorem byteLE_trans (a b c : Raw) (hab : a.byteLE b) (hbc : b.byteLE c) : a.byteLE c :=
  byteLE_iff.mpr (List.le_trans (byteLE_iff.mp hab) (byteLE_iff.mp hbc))

theorem byteLE_total (a b : Raw) : a.byteLE b || b.byteLE a := by
  rw [Bool.or_eq_true, byteLE_iff, byteLE_iff]
  exact List.le_total _ _

/-- What comes before another one comes strictly before it. -/
theorem bytes_lt_of_byteLE {a b : Raw} (hle : a.byteLE b) (hne : a ≠ b) : a.bytes < b.bytes :=
  Std.lt_of_le_of_ne (byteLE_iff.mp hle) fun h => hne (ext_bytes h)

end Raw

/-- Two texts of which neither comes after the other are the same. -/
theorem Text.eq_of_bytes_le {a b : String} (hab : bytes a ≤ bytes b) (hba : bytes b ≤ bytes a) :
    a = b :=
  bytes_injective (List.le_antisymm hab hba)

end TestCatalog
