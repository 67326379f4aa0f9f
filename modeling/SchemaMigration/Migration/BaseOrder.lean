set_option autoImplicit false

namespace SchemaMigration

structure BaseOrder (α : Type) where
  ordered : List α
  broken : List α

namespace BaseOrder

variable {α : Type} [BEq α]

def memberBase? (members : List α) (base? : α → Option α) (member : α) : Option α :=
  (base? member).filter members.contains

-- A bound on the visits still to come: the members that do not wait, and one for a start that is no
-- member.
def visitsLeft (members active : List α) (member : α) : Nat :=
  (members.filter fun m => !active.contains m).length + if members.contains member then 0 else 1

theorem visitsLeft_base [EquivBEq α] {members active : List α} {base? : α → Option α}
    {member base : α} (fresh : active.contains member = false)
    (based : memberBase? members base? member = some base) :
    visitsLeft members (member :: active) base < visitsLeft members active member := by
  have inside : members.contains base = true := (Option.filter_eq_some_iff.mp based).2
  have fewer : (members.filter fun m => !(member :: active).contains m) =
      (members.filter fun m => !active.contains m).filter fun m => !(m == member) := by
    simp [List.filter_filter]
  have bound := List.length_filter_le (fun m => !(m == member))
    (members.filter fun m => !active.contains m)
  simp only [visitsLeft, fewer, inside, if_true]
  by_cases own : members.contains member = true
  · obtain ⟨m, listed, same⟩ := List.contains_iff_exists_mem_beq.mp own
    have resting : m ∈ members.filter fun m => !active.contains m := by
      simpa [listed, ← List.contains_congr same] using fresh
    have lost : ((members.filter fun m => !active.contains m).filter
        fun m => !(m == member)).length < (members.filter fun m => !active.contains m).length :=
      List.length_filter_lt_length_iff_exists.mpr ⟨m, resting, by simpa using BEq.symm same⟩
    simpa [own] using lost
  · simp only [own, Bool.false_eq_true, if_false]
    omega

def visit [EquivBEq α] (members : List α) (base? : α → Option α) (active : List α)
    (order : BaseOrder α) (member : α) : BaseOrder α :=
  if order.ordered.contains member then order
  else if waits : active.contains member then { order with broken := order.broken ++ [member] }
  else
    match based : memberBase? members base? member with
    | some base =>
      have fewer := visitsLeft_base (by simpa using waits) based
      let order := visit members base? (member :: active) order base
      { order with ordered := order.ordered ++ [member] }
    | none => { order with ordered := order.ordered ++ [member] }
termination_by visitsLeft members active member

def ofMembers [EquivBEq α] (members : List α) (base? : α → Option α) : BaseOrder α :=
  members.foldl (visit members base? []) ⟨[], []⟩

end BaseOrder

end SchemaMigration
