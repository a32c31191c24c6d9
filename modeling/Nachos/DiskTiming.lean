import Nachos.Disk
import Nachos.PendingOrder
import Nachos.RotatingMedia

/-!
# The time a disk request takes

The latency that `class Disk` of `machine/disk.cc` computes from the position of the head.
The disk is part of a machine whose clock and interrupts are those of
`machine/interrupt.cc`; the other devices and the rest of the kernel are parameters.  The
fields of the disk do not change before the first request, so it does not matter when the
constructor runs.

The movements of the arm are recorded beside the object; no code reads them.
-/

namespace Nachos

open RotatingMedia TimedEvents TransitionRuns

/-- `RotationTime`. -/
def rotationTime : Int := 500

/-- `SeekTime`. -/
def seekTime : Int := 500

theorem rotationTime_pos : 0 < rotationTime := by
  decide

/-- The handlers of the machine: `DiskDone`, and those of the other devices. -/
inductive DeviceHandler (Handler : Type) where
  | diskDone
  | other (handler : Handler)
  deriving DecidableEq

/-- `class Disk`, with the movements of its arm, the latest first. -/
structure DiskDrive (Handler : Type) where
  handler : Handler
  handlerArg : CInt
  active : Bool
  lastSector : Int
  bufferInit : Int
  movements : List (Movement Int)

namespace DiskDrive

variable {Handler : Type}

/-- `Disk::Disk`. -/
def new (callWhenDone : Handler) (callArg : CInt) : DiskDrive Handler where
  handler := callWhenDone
  handlerArg := callArg
  active := false
  lastSector := 0
  bufferInit := 0
  movements := []

/-- `sector / SectorsPerTrack`. -/
def trackOf (sector : Int) : Int :=
  sector.tdiv Disk.sectorsPerTrack

/-- The result of `Disk::TimeToSeek`, and what it stores in `*rotation`. -/
def timeToSeek (drive : DiskDrive Handler) (totalTicks newSector : Int) : Int × Int :=
  let newTrack := trackOf newSector
  let oldTrack := trackOf drive.lastSector
  let seek := (newTrack - oldTrack).natAbs * seekTime
  let overBy := (totalTicks + seek).tmod rotationTime
  (seek, if overBy > 0 then rotationTime - overBy else 0)

/-- `Disk::ModuloDiff`. -/
def moduloDiff (target current : Int) : Int :=
  let toOffset := target.tmod Disk.sectorsPerTrack
  let fromOffset := current.tmod Disk.sectorsPerTrack
  ((toOffset - fromOffset) + Disk.sectorsPerTrack).tmod Disk.sectorsPerTrack

/-- The test of `ComputeLatency` whether the track buffer applies. -/
def TrackBufferApplies (drive : DiskDrive Handler) (totalTicks newSector : Int)
    (writing : Bool) : Prop :=
  let (seek, rotation) := drive.timeToSeek totalTicks newSector
  let timeAfter := totalTicks + seek + rotation
  writing = false ∧ seek = 0 ∧
    (timeAfter - drive.bufferInit).tdiv rotationTime >
      moduloDiff newSector (drive.bufferInit.tdiv rotationTime)

instance (drive : DiskDrive Handler) (totalTicks newSector : Int) (writing : Bool) :
    Decidable (drive.TrackBufferApplies totalTicks newSector writing) :=
  inferInstanceAs (Decidable (_ ∧ _ ∧ _))

/-- `Disk::ComputeLatency`. -/
def computeLatency (drive : DiskDrive Handler) (totalTicks newSector : Int)
    (writing : Bool) : Int :=
  let (seek, rotation) := drive.timeToSeek totalTicks newSector
  let timeAfter := totalTicks + seek + rotation
  if drive.TrackBufferApplies totalTicks newSector writing then rotationTime
  else
    let rotation := rotation + moduloDiff newSector (timeAfter.tdiv rotationTime) * rotationTime
    seek + rotation + rotationTime

/-- `Disk::UpdateLast`. -/
def updateLast (drive : DiskDrive Handler) (totalTicks newSector : Int) : DiskDrive Handler :=
  let (seek, rotate) := drive.timeToSeek totalTicks newSector
  { drive with
    bufferInit := if seek ≠ 0 then totalTicks + seek + rotate else drive.bufferInit
    lastSector := newSector
    movements := ⟨totalTicks, totalTicks + seek, trackOf newSector⟩ :: drive.movements }

section Latency

variable {drive : DiskDrive Handler} {totalTicks newSector : Int} {writing : Bool}

/-- The time of the seek alone. -/
def seekTicks (drive : DiskDrive Handler) (newSector : Int) : Int :=
  (trackOf newSector - trackOf drive.lastSector).natAbs * seekTime

theorem seekTicks_nonneg (drive : DiskDrive Handler) (newSector : Int) :
    0 ≤ drive.seekTicks newSector :=
  Int.mul_nonneg (Int.natCast_nonneg _) (by decide)

theorem seekTicks_eq_zero_iff :
    drive.seekTicks newSector = 0 ↔ trackOf newSector = trackOf drive.lastSector := by
  unfold seekTicks seekTime
  omega

theorem timeToSeek_eq (started : 0 ≤ totalTicks) :
    drive.timeToSeek totalTicks newSector =
      (drive.seekTicks newSector,
        untilBoundary rotationTime (totalTicks + drive.seekTicks newSector)) := by
  have nonneg := drive.seekTicks_nonneg newSector
  have overBy : (totalTicks + drive.seekTicks newSector).tmod rotationTime =
      (totalTicks + drive.seekTicks newSector) % rotationTime :=
    Int.tmod_eq_emod_of_nonneg (by omega)
  unfold timeToSeek untilBoundary
  rw [← overBy]
  rfl

theorem moduloDiff_eq {target current : Int} (targetNonneg : 0 ≤ target)
    (currentNonneg : 0 ≤ current) :
    moduloDiff target current = distance Disk.sectorsPerTrack target current := by
  have small := Int.emod_lt_of_pos current (show 0 < (Disk.sectorsPerTrack : Int) by decide)
  have nonneg := Int.emod_nonneg target (show (Disk.sectorsPerTrack : Int) ≠ 0 by decide)
  unfold moduloDiff distance
  rw [Int.tmod_eq_emod_of_nonneg targetNonneg, Int.tmod_eq_emod_of_nonneg currentNonneg]
  exact Int.tmod_eq_emod_of_nonneg (by omega)

theorem tdiv_rotationTime (slot : Int) : (slot * rotationTime).tdiv rotationTime = slot :=
  Int.mul_tdiv_cancel slot rotationTime_pos.ne'

/-- The first slot after some time in which a sector passes. -/
theorem isLeast_pass (time sector : Int) :
    IsLeast {slot | slot ≡ sector [ZMOD Disk.sectorsPerTrack] ∧ time ≤ slot * rotationTime}
      (firstPass rotationTime Disk.sectorsPerTrack time sector) :=
  isLeast_firstPass rotationTime_pos (by decide) time sector

/-- The first slot that begins after the seek. -/
theorem timeAfter_eq (started : 0 ≤ totalTicks) :
    totalTicks + (drive.timeToSeek totalTicks newSector).1 +
        (drive.timeToSeek totalTicks newSector).2 =
      nextSlot rotationTime (totalTicks + drive.seekTicks newSector) * rotationTime := by
  rw [timeToSeek_eq started]
  exact add_untilBoundary rotationTime_pos _

/-- What the fields of the disk say about its arm: the head has been over the track of the
last request since the track buffer was started, at the beginning of a slot. -/
structure Positioned (drive : DiskDrive Handler) : Prop where
  valid : 0 ≤ drive.lastSector
  boundary : ∃ slot, 0 ≤ slot ∧ drive.bufferInit = slot * rotationTime
  settled : Settled 0 drive.movements drive.bufferInit (trackOf drive.lastSector)

theorem positioned_new (callWhenDone : Handler) (callArg : CInt) :
    (new callWhenDone callArg).Positioned where
  valid := Int.le_refl 0
  boundary := ⟨0, Int.le_refl 0, rfl⟩
  settled := settled_nil 0 0

theorem Positioned.updateLast (positioned : drive.Positioned) (started : 0 ≤ totalTicks)
    (valid : 0 ≤ newSector) : (drive.updateLast totalTicks newSector).Positioned := by
  have nonneg := drive.seekTicks_nonneg newSector
  have after := @timeAfter_eq _ drive totalTicks newSector started
  unfold DiskDrive.updateLast
  rw [timeToSeek_eq started] at after ⊢
  dsimp only at after ⊢
  by_cases same : drive.seekTicks newSector = 0
  · have track : trackOf newSector = trackOf drive.lastSector := seekTicks_eq_zero_iff.mp same
    rw [if_neg (not_not.mpr same)]
    refine ⟨valid, positioned.boundary, ?_⟩
    dsimp only
    rw [track, same, add_zero]
    exact positioned.settled.stay totalTicks
  · rw [if_pos same]
    refine ⟨valid, ⟨_, nextSlot_nonneg rotationTime_pos (by omega), after⟩, ?_⟩
    apply settled_cons
    have := untilBoundary_nonneg rotationTime_pos (totalTicks + drive.seekTicks newSector)
    dsimp only
    omega

/-- The track buffer holds the sectors that have passed since it was started. -/
theorem Positioned.trackBufferApplies_iff (positioned : drive.Positioned)
    (started : 0 ≤ totalTicks) (valid : 0 ≤ newSector) :
    drive.TrackBufferApplies totalTicks newSector writing ↔
      writing = false ∧ trackOf newSector = trackOf drive.lastSector ∧
        ∃ slot, slot ≡ newSector [ZMOD Disk.sectorsPerTrack] ∧
          drive.bufferInit ≤ slot * rotationTime ∧
          slot + 1 ≤ nextSlot rotationTime totalTicks := by
  obtain ⟨begun, begunNonneg, boundary⟩ := positioned.boundary
  have after := @timeAfter_eq _ drive totalTicks newSector started
  unfold TrackBufferApplies
  rw [timeToSeek_eq started] at after ⊢
  dsimp only at after ⊢
  rw [after, ← seekTicks_eq_zero_iff]
  apply and_congr_right
  intro _
  apply and_congr_right
  intro same
  rw [same, add_zero, boundary, ← Int.sub_mul, tdiv_rotationTime, tdiv_rotationTime,
    moduloDiff_eq valid begunNonneg, gt_iff_lt, ← passes_between_iff (by decide)]
  simp only [Int.mul_le_mul_iff_of_pos_right rotationTime_pos]

theorem computeLatency_of_applies
    (applies : drive.TrackBufferApplies totalTicks newSector writing) :
    drive.computeLatency totalTicks newSector writing = rotationTime :=
  if_pos applies

/-- Without the track buffer, the request ends when the sector has passed for the first time
after the seek. -/
theorem add_computeLatency (started : 0 ≤ totalTicks) (valid : 0 ≤ newSector)
    (missed : ¬ drive.TrackBufferApplies totalTicks newSector writing) :
    totalTicks + drive.computeLatency totalTicks newSector writing =
      (firstPass rotationTime Disk.sectorsPerTrack
        (totalTicks + drive.seekTicks newSector) newSector + 1) * rotationTime := by
  have nonneg := drive.seekTicks_nonneg newSector
  have ready := nextSlot_nonneg rotationTime_pos (Int.add_nonneg started nonneg)
  have after := @timeAfter_eq _ drive totalTicks newSector started
  unfold computeLatency
  rw [timeToSeek_eq started] at after ⊢
  dsimp only at after ⊢
  rw [if_neg missed, after, tdiv_rotationTime, moduloDiff_eq valid ready, firstPass, Int.add_mul,
    Int.add_mul, ← after]
  omega

theorem computeLatency_pos (started : 0 ≤ totalTicks) (valid : 0 ≤ newSector) :
    0 < drive.computeLatency totalTicks newSector writing := by
  by_cases applies : drive.TrackBufferApplies totalTicks newSector writing
  · rw [computeLatency_of_applies applies]
    decide
  · have latency := add_computeLatency started valid applies
    have later := (isLeast_pass (totalTicks + drive.seekTicks newSector) newSector).1.2
    have := drive.seekTicks_nonneg newSector
    rw [Int.add_mul] at latency
    unfold rotationTime at latency later
    omega

/-- The head of a new disk moves to track 1, where sector 41 passes eight slots later.
Sector 3 of track 0 has passed by then, but a write has to wait for the next time. -/
example :
    let drive := new () 0
    drive.computeLatency 0 41 false = 500 + 8 * 500 + 500 ∧
      drive.computeLatency 2490 3 false = 500 ∧
      drive.computeLatency 2490 3 true = 10 + 30 * 500 + 500 := by
  decide

end Latency

end DiskDrive

/-- The disk and the rest of the kernel. -/
structure DiskWorld (Handler World : Type) where
  disk : DiskDrive Handler
  rest : World

/-- A machine with a disk. -/
abbrev DiskMachine (Handler World : Type) :=
  Interrupt (DeviceHandler Handler) (DiskWorld Handler World)

namespace DiskMachine

open Interrupt DiskDrive

variable {Handler World : Type}

def lift : HandlerCall Handler → HandlerCall (DeviceHandler Handler)
  | .schedule handler arg fromNow type => .schedule (.other handler) arg fromNow type
  | .yieldOnReturn => .yieldOnReturn

/-- `DiskDone` calls `Disk::HandleInterrupt`. -/
def handlers (others : Handlers Handler World) :
    Handlers (DeviceHandler Handler) (DiskWorld Handler World)
  | .diskDone, _, totalTicks, world =>
      let disk := { world.disk with active := false }
      let (rest, calls) := others disk.handler disk.handlerArg totalTicks world.rest
      (⟨disk, rest⟩, calls.map lift)
  | .other handler, arg, totalTicks, world =>
      let (rest, calls) := others handler arg totalTicks world.rest
      (⟨world.disk, rest⟩, calls.map lift)

/-- What `ReadRequest` and `WriteRequest` have in common.  There is only one disk, whose
address is left out of the argument of `DiskDone`. -/
def diskRequest (s : DiskMachine Handler World) (sectorNumber : Int) (writing : Bool) :
    Except Abort (DiskMachine Handler World) :=
  let totalTicks := s.stats.totalTicks
  let ticks := s.world.disk.computeLatency totalTicks sectorNumber writing
  if s.world.disk.active = false ∧ 0 ≤ sectorNumber ∧ sectorNumber < Disk.numSectors then
    let disk := { s.world.disk with active := true }.updateLast totalTicks sectorNumber
    { s with world := { s.world with disk := disk } }.schedule .diskDone 0 ticks .disk
  else .error .assertion

/-- `Disk::ReadRequest`. -/
def readRequest (s : DiskMachine Handler World) (sectorNumber : Int) :
    Except Abort (DiskMachine Handler World) :=
  s.diskRequest sectorNumber false

/-- `Disk::WriteRequest`. -/
def writeRequest (s : DiskMachine Handler World) (sectorNumber : Int) :
    Except Abort (DiskMachine Handler World) :=
  s.diskRequest sectorNumber true

/-- The requests of the other devices, the processor and the threads. -/
def liftRequest : Interrupt.Request Handler → Interrupt.Request (DeviceHandler Handler)
  | .schedule handler arg fromNow type => .schedule (.other handler) arg fromNow type
  | .oneTick => .oneTick
  | .setLevel now => .setLevel now
  | .idle => .idle
  | .setStatus status busy => .setStatus status busy

inductive Action (Handler : Type) where
  | readRequest (sectorNumber : Int)
  | writeRequest (sectorNumber : Int)
  | machine (request : Interrupt.Request Handler)

def step (others : Handlers Handler World) (s : DiskMachine Handler World) :
    Action Handler → Except Abort (DiskMachine Handler World)
  | .readRequest sectorNumber => if s.halted then .error .halted else s.readRequest sectorNumber
  | .writeRequest sectorNumber => if s.halted then .error .halted else s.writeRequest sectorNumber
  | .machine request => Interrupt.step (handlers others) s (liftRequest request)

/-- A machine whose disk was not used yet. -/
def boot (callWhenDone : Handler) (callArg : CInt) (rest : World) : DiskMachine Handler World :=
  Interrupt.new ⟨DiskDrive.new callWhenDone callArg, rest⟩

/-- A sector passes under the head in a slot, during which the head is over its track. -/
def Passes (movements : List (Movement Int)) (sector slot : Int) : Prop :=
  slot ≡ sector [ZMOD Disk.sectorsPerTrack] ∧
    ∀ time, slot * rotationTime ≤ time → time ≤ (slot + 1) * rotationTime →
      trackAt 0 movements time = some (trackOf sector)

/-- What the latency of a request means.  Without the track buffer, the request ends with
the first slot after the seek in which the sector passes.  With the track buffer, the sector
has passed since that was started. -/
structure Timed (s : DiskMachine Handler World) (sector : Int) (writing : Bool) : Prop where
  positive : 0 < s.world.disk.computeLatency s.stats.totalTicks sector writing
  accepted : s.world.disk.active = false → s.diskRequest sector writing ≠ .error .assertion
  direct : ¬ s.world.disk.TrackBufferApplies s.stats.totalTicks sector writing →
    ∃ slot,
      IsLeast {slot | slot ≡ sector [ZMOD Disk.sectorsPerTrack] ∧
        s.stats.totalTicks + (s.world.disk.timeToSeek s.stats.totalTicks sector).1 ≤
          slot * rotationTime} slot ∧
      s.stats.totalTicks + s.world.disk.computeLatency s.stats.totalTicks sector writing =
        (slot + 1) * rotationTime ∧
      Passes (s.world.disk.updateLast s.stats.totalTicks sector).movements sector slot
  buffered : s.world.disk.TrackBufferApplies s.stats.totalTicks sector writing →
    writing = false ∧ trackOf sector = trackOf s.world.disk.lastSector ∧
      ∃ slot, Passes s.world.disk.movements sector slot ∧
        s.world.disk.bufferInit ≤ slot * rotationTime ∧
        (slot + 1) * rotationTime ≤ s.stats.totalTicks +
          s.world.disk.computeLatency s.stats.totalTicks sector writing

section Runs

variable {others : Handlers Handler World} {s after : DiskMachine Handler World}

/-- What holds between the actions. -/
structure Consistent (s : DiskMachine Handler World) : Prop where
  sound : Sound s
  started : 0 ≤ s.stats.totalTicks
  positioned : s.world.disk.Positioned

theorem passes_of_settled {movements : List (Movement Int)} {since sector slot : Int}
    (settled : Settled 0 movements since (trackOf sector))
    (same : slot ≡ sector [ZMOD Disk.sectorsPerTrack])
    (later : since ≤ slot * rotationTime) : Passes movements sector slot :=
  ⟨same, fun time begun _ => settled time (later.trans begun)⟩

theorem consistent_boot (callWhenDone : Handler) (callArg : CInt) (rest : World) :
    (boot callWhenDone callArg rest).Consistent where
  sound := sound_new _
  started := Int.le_refl 0
  positioned := positioned_new callWhenDone callArg

theorem handlers_keep_position (others : Handlers Handler World) :
    HandlersKeep (handlers others) fun world => world.disk.Positioned := by
  intro handler arg totalTicks world positioned
  cases handler with
  | diskDone => exact ⟨positioned.valid, positioned.boundary, positioned.settled⟩
  | other handler => exact positioned

theorem Consistent.diskRequest (consistent : s.Consistent) (running : s.halted = false)
    {sectorNumber : Int} {writing : Bool}
    (done : s.diskRequest sectorNumber writing = .ok after) : after.Consistent := by
  unfold DiskMachine.diskRequest at done
  dsimp only at done
  split at done
  next accepted =>
    have positioned : { s.world.disk with active := true }.Positioned :=
      ⟨consistent.positioned.valid, consistent.positioned.boundary,
        consistent.positioned.settled⟩
    have moved := positioned.updateLast consistent.started accepted.2.1
    generalize { s.world.disk with active := true }.updateLast s.stats.totalTicks
      sectorNumber = disk at done moved
    have begun : Sound { s with world := { s.world with disk := disk } } :=
      ⟨consistent.sound.sorted, consistent.sound.timely, consistent.sound.balanced,
        consistent.sound.busy⟩
    obtain ⟨serves, -⟩ := schedule_serves begun.sorted done
    refine ⟨?_, ?_, ?_⟩
    · refine ⟨serves.sorted, timely_of_steps serves.steps begun.timely, ?_, ?_⟩
      · rw [serves.stats]
        exact begun.balanced
      · intro _
        rw [serves.status]
        exact begun.busy running
    · rw [serves.stats]
      exact consistent.started
    · rw [schedule_world done]
      exact moved
  next => cases done

theorem Consistent.step (consistent : s.Consistent) {action : Action Handler}
    (done : s.step others action = .ok after) : after.Consistent := by
  have requested (sectorNumber : Int) (writing : Bool)
      (done : (if s.halted then .error .halted else s.diskRequest sectorNumber writing) =
        .ok after) : after.Consistent := by
    split at done
    · cases done
    next running => exact consistent.diskRequest (by simpa using running) done
  cases action with
  | readRequest sectorNumber => exact requested sectorNumber false done
  | writeRequest sectorNumber => exact requested sectorNumber true done
  | machine request =>
      obtain ⟨proceeds, -⟩ := consistent.sound.step done
      exact {
        sound := consistent.sound.preserved done
        started := consistent.started.trans (now_le_of_steps proceeds.steps)
        positioned := step_world (handlers_keep_position others) done consistent.positioned }

theorem Consistent.timed (consistent : s.Consistent) {sector : Int} (valid : 0 ≤ sector)
    (onDisk : sector < Disk.numSectors) (writing : Bool) : s.Timed sector writing where
  positive := computeLatency_pos consistent.started valid
  accepted idle := by
    have positive : 0 < s.world.disk.computeLatency s.stats.totalTicks sector writing :=
      computeLatency_pos consistent.started valid
    unfold DiskMachine.diskRequest schedule
    dsimp only
    rw [if_pos ⟨idle, valid, onDisk⟩, if_pos positive]
    split <;> exact nofun
  direct missed := by
    have least := isLeast_pass (s.stats.totalTicks + s.world.disk.seekTicks sector) sector
    refine ⟨_, ?_, add_computeLatency consistent.started valid missed, ?_⟩
    · rw [timeToSeek_eq consistent.started]
      exact least
    · unfold updateLast
      rw [timeToSeek_eq consistent.started]
      exact passes_of_settled (settled_cons (Int.le_refl _)) least.1.1 least.1.2
  buffered applies := by
    obtain ⟨reading, track, slot, same, since, passed⟩ :=
      (consistent.positioned.trackBufferApplies_iff consistent.started valid).mp applies
    refine ⟨reading, track, slot, ?_, since, ?_⟩
    · have settled := consistent.positioned.settled
      rw [← track] at settled
      exact passes_of_settled settled same since
    · have boundary := add_untilBoundary rotationTime_pos s.stats.totalTicks
      have early := untilBoundary_lt rotationTime_pos s.stats.totalTicks
      have before := Int.mul_le_mul_of_nonneg_right passed rotationTime_pos.le
      rw [computeLatency_of_applies applies]
      omega

/-- In every state of every run, a request for any sector of the disk takes the time that the
rotation of the disk demands. -/
theorem timed_along_run (others : Handlers Handler World) (callWhenDone : Handler)
    (callArg : CInt) (rest : World) (actions : List (Action Handler)) :
    AlongRun (step others) (fun s => ∀ (sector : Int) (writing : Bool), 0 ≤ sector →
        sector < Disk.numSectors → s.Timed sector writing)
      (boot callWhenDone callArg rest) actions := by
  apply (alongRun_of_preserved (fun s action next consistent done =>
    Consistent.step consistent done) (consistent_boot callWhenDone callArg rest)).mono
  intro s consistent sector writing valid onDisk
  exact consistent.timed valid onDisk writing

end Runs

end DiskMachine

end Nachos
