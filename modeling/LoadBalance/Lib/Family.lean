import Mathlib.Algebra.BigOperators.Group.Finset.Basic

/-!
# Families with one changed member

The state of a system with many equal parts is a family, and a step changes one member
of it with `Function.update`. A property of all members is kept if the new member has
it, and a sum over the members changes by the difference at this member.
-/

namespace Family

variable {ι β : Type*} [DecidableEq ι] {members : ι → β} {index : ι} {value : β}

theorem forall_update (Good : ι → β → Prop) (others : ∀ other, Good other (members other))
    (this : Good index value) : ∀ other, Good other (Function.update members index value other) :=
  (Function.forall_update_iff members Good).mpr ⟨this, fun other _ => others other⟩

theorem sum_update_add [Fintype ι] (weight : β → ℕ) (members : ι → β) (index : ι) (value : β) :
    (∑ other, weight (Function.update members index value other)) + weight (members index) =
      (∑ other, weight (members other)) + weight value := by
  have split : ∀ family : ι → β, ∑ other, weight (family other) =
      weight (family index) + ∑ other ∈ Finset.univ.erase index, weight (family other) :=
    fun family => (Finset.add_sum_erase _ _ (Finset.mem_univ index)).symm
  have rest : ∑ other ∈ Finset.univ.erase index,
        weight (Function.update members index value other) =
      ∑ other ∈ Finset.univ.erase index, weight (members other) := by
    apply Finset.sum_congr rfl
    intro other otherMem
    rw [Function.update_of_ne (Finset.ne_of_mem_erase otherMem)]
  rw [split members, split, rest, Function.update_self]
  omega

end Family
