import MediaCatalog.Workspace.Basic

/-!
What deeds do, one after another. A deed on a disk and a deed in a workspace
answer, or stop with a fault, and leave what was done so far; a sequence of
deeds is run by these equations.
-/

namespace MediaCatalog

variable {σ ε α β : Type}

/-- What a deed answers, and the state it leaves. -/
def outcome (deed : ExceptT ε (StateM σ) α) (state : σ) : Except ε α × σ :=
  (ExceptT.run deed).run state

theorem outcome_bind (first : ExceptT ε (StateM σ) α) (next : α → ExceptT ε (StateM σ) β)
    (state : σ) :
    outcome (first >>= next) state =
      match outcome first state with
      | (.ok value, left) => outcome (next value) left
      | (.error fault, left) => (.error fault, left) := by
  change StateT.run (ExceptT.run first >>= ExceptT.bindCont next) state = _
  rw [StateT.run_bind]
  unfold outcome
  cases StateT.run (ExceptT.run first) state with
  | mk answer left => cases answer <;> rfl

/-- What a deed answers, and the disk it leaves. -/
def Disk.perform (disk : Disk) (deed : DiskDeed α) : Except DatabaseFault α × Disk :=
  (ExceptT.run deed).run disk

namespace Disk

variable (disk : Disk)

@[simp] theorem perform_pure (value : α) : disk.perform (pure value) = (.ok value, disk) := rfl

@[simp] theorem perform_throw (fault : DatabaseFault) :
    disk.perform (throw fault : DiskDeed α) = (.error fault, disk) := rfl

@[simp] theorem perform_get : disk.perform get = (.ok disk, disk) := rfl

@[simp] theorem perform_set (other : Disk) : disk.perform (set other) = (.ok ⟨⟩, other) := rfl

@[simp] theorem perform_modify (change : Disk → Disk) :
    disk.perform (modify change) = (.ok ⟨⟩, change disk) := rfl

@[simp] theorem perform_bind (first : DiskDeed α) (next : α → DiskDeed β) :
    disk.perform (first >>= next) =
      match disk.perform first with
      | (.ok value, disk) => disk.perform (next value)
      | (.error fault, disk) => (.error fault, disk) := by
  have hfirst : disk.perform first = outcome first disk := rfl
  rw [hfirst]
  refine (outcome_bind first next disk).trans ?_
  cases outcome first disk with
  | mk answer disk => cases answer <;> rfl

@[simp] theorem perform_map (change : α → β) (deed : DiskDeed α) :
    disk.perform (change <$> deed) =
      match disk.perform deed with
      | (.ok value, disk) => (.ok (change value), disk)
      | (.error fault, disk) => (.error fault, disk) := by
  rw [map_eq_pure_bind, perform_bind]
  cases disk.perform deed with
  | mk answer disk => cases answer <;> rfl

end Disk

namespace Workspace

variable (ws : Workspace)

@[simp] theorem perform_pure (value : α) : ws.perform (pure value) = (.ok value, ws) := rfl

@[simp] theorem perform_throw (fault : CatalogFault) :
    ws.perform (throw fault : Deed α) = (.error fault, ws) := rfl

@[simp] theorem perform_get : ws.perform get = (.ok ws, ws) := rfl

@[simp] theorem perform_liftExcept (answer : Except CatalogFault α) :
    ws.perform (liftExcept answer) = (answer, ws) := by
  cases answer <;> rfl

@[simp] theorem perform_bind (first : Deed α) (next : α → Deed β) :
    ws.perform (first >>= next) =
      match ws.perform first with
      | (.ok value, ws) => ws.perform (next value)
      | (.error fault, ws) => (.error fault, ws) := by
  have hfirst : ws.perform first = outcome first ws := rfl
  rw [hfirst]
  refine (outcome_bind first next ws).trans ?_
  cases outcome first ws with
  | mk answer ws => cases answer <;> rfl

@[simp] theorem perform_map (change : α → β) (deed : Deed α) :
    ws.perform (change <$> deed) =
      match ws.perform deed with
      | (.ok value, ws) => (.ok (change value), ws)
      | (.error fault, ws) => (.error fault, ws) := by
  rw [map_eq_pure_bind, perform_bind]
  cases ws.perform deed with
  | mk answer ws => cases answer <;> rfl

/-- What is done to the disk of a workspace. -/
theorem perform_onDisk (deed : DiskDeed α) :
    ws.perform (onDisk deed) =
      match ws.disk.perform deed with
      | (.ok value, disk) => (.ok value, { ws with disk })
      | (.error fault, disk) => (.error (.database fault), { ws with disk }) := by
  unfold Disk.perform
  cases hrun : StateT.run (ExceptT.run deed) ws.disk with
  | mk answer disk =>
      simp only [onDisk, perform_bind, perform_get, hrun]
      cases answer <;> rfl

end Workspace

end MediaCatalog
