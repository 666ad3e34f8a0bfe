import LinuxLearning.Lib.Run
/-!
# SysV semaphore sets

A set is the list of the values of its semaphores. `semop` is made with one operation, without `IPC_NOWAIT`. An
operation on a semaphore that the set does not have fails with `EFBIG` and changes nothing.
-/

namespace SysV

/-- `semget(key, nsems, IPC_CREAT | …)`, successful: creates the set, all 0, if there is none with this key. -/
def semget (nsems : ℕ) (sems : Option (List ℕ)) : List ℕ := sems.getD (List.replicate nsems 0)

/-- The value returned and the set afterwards, `none` where the operation blocks. -/
def semop (sems : List ℕ) (sem_num : ℕ) (sem_op : ℤ) : Option (ℤ × List ℕ) :=
  match sems[sem_num]? with
  | none => some (-1, sems)
  | some v =>
    if sem_op = 0 then if v = 0 then some (0, sems) else none
    else if 0 ≤ v + sem_op then some (0, sems.set sem_num (v + sem_op).toNat) else none

/-- **No such semaphore.** -/
theorem semop_out_of_range {sems : List ℕ} {sem_num : ℕ} (h : sems.length ≤ sem_num) (sem_op : ℤ) :
    semop sems sem_num sem_op = some (-1, sems) := by
  unfold semop
  rw [List.getElem?_eq_none h]

end SysV
