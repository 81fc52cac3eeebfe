import Mathlib.Data.List.Nodup
import Mathlib.Data.List.Pairwise
import Mathlib.Data.List.Lattice
import Mathlib.Tactic.ByContra

/-! Lists in which each item stands once, and in which nothing comes from two items. -/

namespace AgentSaas.Occurrences

variable {α β : Type} {items : List α}

theorem owner_unique {yields : α → List β} (nodup : (items.flatMap yields).Nodup) {first last : α} {value : β}
    (firstIn : first ∈ items) (lastIn : last ∈ items) (yielded : value ∈ yields first) (again : value ∈ yields last) :
    first = last := by
  by_contra apart
  have symmetric : Std.Symm (Function.onFun List.Disjoint yields) := ⟨fun _ _ => List.Disjoint.symm⟩
  exact (List.nodup_flatMap.mp nodup).2.forall firstIn lastIn apart yielded again

theorem split_unique (nodup : items.Nodup) {item : α} {before after start rest : List α}
    (first : items = before ++ item :: after) (last : items = start ++ item :: rest) : before = start ∧ after = rest := by
  rw [first, List.nodup_append, List.nodup_cons] at nodup
  have same := (List.append_cons_inj_of_notMem (fun wrong => nodup.2.2 _ wrong _ (List.mem_cons_self ..) rfl)
    nodup.2.1.1).mp (first.symm.trans last)
  exact ⟨same.1, same.2.2⟩

end AgentSaas.Occurrences
