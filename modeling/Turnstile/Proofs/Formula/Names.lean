import Mathlib.Data.Char
import Turnstile.Formula.Names

/-! The names of a formula ascend in code point order, so none of them occurs twice. -/
namespace Turnstile

theorem pairwise_insertName {name : Char} {names : List Char} (h : names.Pairwise (· < ·)) :
    (insertName name names).Pairwise (· < ·) := by
  induction names with
  | nil => exact List.pairwise_singleton _ _
  | cons head tail ih =>
    obtain ⟨hhead, htail⟩ := List.pairwise_cons.mp h
    rw [insertName]
    split
    · next hlt =>
      refine List.pairwise_cons.mpr ⟨List.forall_mem_cons.mpr ⟨hlt, fun x hx => ?_⟩, h⟩
      exact lt_trans hlt (hhead x hx)
    · next hnot =>
      split
      · exact h
      · next hne =>
        have hlt : head < name := lt_of_le_of_ne (not_lt.mp hnot) (Ne.symm hne)
        refine List.pairwise_cons.mpr ⟨fun x hx => ?_, ih htail⟩
        rcases (mem_insertName x name tail).mp hx with rfl | hx
        · exact hlt
        · exact hhead x hx

namespace Formula

theorem pairwise_namesOnto (f : Formula) {found : List Char} (h : found.Pairwise (· < ·)) :
    (f.namesOnto found).Pairwise (· < ·) := by
  induction f generalizing found with
  | atom name => exact pairwise_insertName h
  | unary op operand ih => exact ih h
  | binary op left right ihl ihr => exact ihl (ihr h)

theorem pairwise_names (f : Formula) : f.names.Pairwise (· < ·) :=
  f.names_eq_namesOnto ▸ f.pairwise_namesOnto .nil

theorem nodup_names (f : Formula) : f.names.Nodup := f.pairwise_names.imp ne_of_lt

end Formula

end Turnstile
