import Nachos.FileSystem
import Nachos.OpenFileContents
import Nachos.SlotMap

/-!
# Directories as finite maps

The entries of a directory that are in use store a finite map from names, cut to
`FileNameMaxLen` characters, to sectors.  `Add`, `Remove` and `Find` are the
operations of this map, whatever the other bytes of the table are.
-/

namespace Nachos

open SlotMap

/-- A name as far as the directory looks at it. -/
def cutName (name : List Byte) : List Byte :=
  (name.takeWhile (· != 0)).take fileNameMaxLen

section Names

theorem sameName_iff (n : Nat) (first second : List Byte) :
    sameName n first second = true ↔
      (first.takeWhile (· != 0)).take n = (second.takeWhile (· != 0)).take n := by
  induction n generalizing first second with
  | zero => simp [sameName]
  | succ n ih =>
      rw [sameName]
      cases first with
      | nil =>
          cases second with
          | nil => simp
          | cons letter second =>
              by_cases ends : letter = 0
              · simp [ends]
              · simp [ends, Ne.symm ends]
      | cons head first =>
          cases second with
          | nil =>
              by_cases ends : head = 0
              · simp [ends]
              · simp [ends]
          | cons letter second =>
              by_cases ends : head = 0
              · by_cases same : letter = 0
                · simp [ends, same]
                · simp [ends, same, Ne.symm same]
              · by_cases same : letter = head
                · simp [ends, same, ih]
                · by_cases terminated : letter = 0
                  · simp [ends, terminated]
                  · simp [ends, terminated, Ne.symm same]

theorem takeWhile_takeD (n : Nat) {letters : List Byte} (nonzero : ∀ letter ∈ letters, letter ≠ 0) :
    (letters.takeD n 0).takeWhile (· != 0) = letters.take n := by
  induction n generalizing letters with
  | zero => rfl
  | succ n ih =>
      cases letters with
      | nil => simp
      | cons letter letters =>
          have later := ih fun other member => nonzero other (List.mem_cons_of_mem _ member)
          have here : letter ≠ 0 := nonzero letter List.mem_cons_self
          simp [here, later]

/-- The front of a vector that was overwritten up to its last element. -/
theorem take_ofFn {count : Nat} (old : Vector Byte (count + 1)) {copied : List Byte}
    (length : copied.length = count) :
    (Vector.ofFn fun index : Fin (count + 1) =>
      if index.val < count then copied.getD index.val 0
      else old[index]).toList.take count = copied := by
  apply List.ext_getElem
  · simp [length]
  · intro index inTable inCopy
    have inside : index < count := length ▸ inCopy
    simp [inside, inCopy]

/-- The name that `strncpy` stores is found by the name it was given. -/
theorem cutName_assign (entry : DirectoryEntry) (name : CString) (newSector : CInt) :
    cutName (entry.assign name newSector).name.toList = cutName name := by
  have front : (entry.assign name newSector).name.toList.take fileNameMaxLen =
      copiedName fileNameMaxLen name :=
    take_ofFn entry.name (List.takeD_length _ _ _)
  have nonzero : ∀ letter ∈ name.takeWhile (· != 0), letter ≠ 0 := by
    intro letter member
    simpa using List.all_eq_true.mp List.all_takeWhile letter member
  rw [cutName, List.take_takeWhile, front, copiedName, takeWhile_takeD _ nonzero]
  rfl

end Names

namespace Directory

variable {tableSize : Nat}

/-- The entries as slots: what an entry that is not in use holds does not
matter. -/
def slots (directory : Directory tableSize) :
    Fin tableSize → Option (List Byte × CInt) := fun i =>
  if (directory.table i).inUse then
    some (cutName (directory.table i).name.toList, (directory.table i).sector)
  else none

variable {directory : Directory tableSize} {name : CString} {i : Fin tableSize}

theorem slots_eq_some {key : List Byte} {sector : CInt} :
    directory.slots i = some (key, sector) ↔
      (directory.table i).inUse = true ∧ cutName (directory.table i).name.toList = key ∧
        (directory.table i).sector = sector := by
  rw [slots]
  by_cases used : directory[i].inUse = true
  · rw [if_pos used, Option.some.injEq, Prod.mk.injEq]
    exact (and_iff_right used).symm
  · rw [if_neg used]
    exact iff_of_false (Option.some_ne_none _).symm fun both => used both.1

theorem slots_set (directory : Directory tableSize) (i : Fin tableSize)
    (entry : DirectoryEntry) :
    slots (directory.set i entry i.isLt) = Function.update directory.slots i
      (if entry.inUse then some (cutName entry.name.toList, entry.sector) else none) := by
  ext1 j
  by_cases same : j = i
  · subst same
    simp [slots]
  · have different : i.val ≠ j.val := fun equal => same (Fin.ext equal.symm)
    simp [slots, same, different]

theorem slots_new (memory : Vector DirectoryEntry tableSize) (i : Fin tableSize) :
    (new memory).slots i = none := by
  simp [slots, new]

theorem slots_findIndex (found : directory.findIndex name = some i) :
    directory.slots i = some (cutName name, (directory.table i).sector) := by
  have both := List.find?_some found
  rw [Bool.and_eq_true, sameName_iff] at both
  exact slots_eq_some.mpr ⟨both.1, both.2, rfl⟩

theorem findIndex_of_slots {sector : CInt}
    (stored : directory.slots i = some (cutName name, sector)) :
    (directory.findIndex name).isSome := by
  obtain ⟨used, same, -⟩ := slots_eq_some.mp stored
  rw [findIndex, List.find?_isSome]
  refine ⟨i, List.mem_finRange i, ?_⟩
  rw [Bool.and_eq_true, sameName_iff]
  exact ⟨used, same⟩

theorem slots_freeIndex (found : directory.freeIndex = some i) :
    directory.slots i = none := by
  rw [slots, freeIndex_not_inUse found]
  rfl

theorem freeIndex_of_slots (free : directory.slots i = none) :
    directory.freeIndex.isSome := by
  rw [freeIndex, List.find?_isSome]
  refine ⟨i, List.mem_finRange i, ?_⟩
  simpa [slots] using free

end Directory

/-- The finite map that a directory of some size is meant to be. -/
abbrev NameMap := Finmap fun _ : List Byte => CInt

/-- What is asked of a directory. -/
inductive DirectoryCommand where
  | find (name : CString)
  | add (name : CString) (newSector : CInt)
  | remove (name : CString)

/-- What it answers. -/
inductive DirectoryReply where
  | sector (sector : CInt)
  | done (success : Bool)
  deriving DecidableEq

namespace NameMap

/-- The operations on the map, which has room for `tableSize` names. -/
def perform (tableSize : Nat) (map : NameMap) :
    DirectoryCommand → DirectoryReply × NameMap
  | .find name => (.sector ((map.lookup (cutName name)).getD (-1)), map)
  | .add name newSector =>
      if cutName name ∉ map ∧ map.keys.card < tableSize then
        (.done true, map.insert (cutName name) newSector)
      else (.done false, map)
  | .remove name =>
      if cutName name ∈ map then (.done true, map.erase (cutName name))
      else (.done false, map)

def run (tableSize : Nat) : List DirectoryCommand → NameMap →
    List DirectoryReply × NameMap
  | [], map => ([], map)
  | command :: commands, map =>
      let (reply, map) := map.perform tableSize command
      let (replies, map) := run tableSize commands map
      (reply :: replies, map)

end NameMap

namespace Directory

variable {tableSize : Nat}

def perform (directory : Directory tableSize) :
    DirectoryCommand → DirectoryReply × Directory tableSize
  | .find name => (.sector (directory.find name), directory)
  | .add name newSector =>
      let (success, directory) := directory.add name newSector
      (.done success, directory)
  | .remove name =>
      let (success, directory) := directory.remove name
      (.done success, directory)

def run : List DirectoryCommand → Directory tableSize →
    List DirectoryReply × Directory tableSize
  | [], directory => ([], directory)
  | command :: commands, directory =>
      let (reply, directory) := directory.perform command
      let (replies, directory) := run commands directory
      (reply :: replies, directory)

variable {directory : Directory tableSize} {map : NameMap}

theorem findIndex_isSome_iff (represents : Represents directory.slots map)
    (name : CString) : (directory.findIndex name).isSome ↔ cutName name ∈ map := by
  rw [represents.mem_iff]
  constructor
  · intro found
    obtain ⟨i, isFound⟩ := Option.isSome_iff_exists.mp found
    exact ⟨i, _, slots_findIndex isFound⟩
  · rintro ⟨i, sector, stored⟩
    exact findIndex_of_slots stored

theorem find_eq (represents : Represents directory.slots map) (name : CString) :
    directory.find name = (map.lookup (cutName name)).getD (-1) := by
  rw [find]
  cases found : directory.findIndex name with
  | none =>
      have absent : cutName name ∉ map := by
        rw [← findIndex_isSome_iff represents, found]
        exact Bool.false_ne_true
      rw [Finmap.lookup_eq_none.mpr absent]
      rfl
  | some i =>
      rw [represents.lookup.mpr ⟨i, slots_findIndex found⟩]
      rfl

theorem perform_add (represents : Represents directory.slots map) (name : CString)
    (newSector : CInt) :
    (directory.perform (.add name newSector)).1 =
        (map.perform tableSize (.add name newSector)).1 ∧
      Represents (directory.perform (.add name newSector)).2.slots
        (map.perform tableSize (.add name newSector)).2 := by
  have known := findIndex_isSome_iff represents name
  have room := represents.card_keys_lt_iff
  simp only [perform, add, NameMap.perform]
  by_cases present : cutName name ∈ map
  · rw [if_pos (known.mpr present), if_neg fun both => both.1 present]
    exact ⟨rfl, represents⟩
  · rw [if_neg (fun found => present (known.mp found))]
    cases free : directory.freeIndex with
    | none =>
        have full : ¬ map.keys.card < tableSize := by
          rw [room]
          rintro ⟨i, empty⟩
          have found := freeIndex_of_slots empty
          rw [free] at found
          cases found
        rw [if_neg fun both => full both.2]
        exact ⟨rfl, represents⟩
    | some i =>
        have empty := slots_freeIndex free
        rw [if_pos ⟨present, room.mpr ⟨i, empty⟩⟩]
        refine ⟨rfl, ?_⟩
        have stored := represents.insert empty present newSector
        have used : (directory[i].assign name newSector).inUse = true := rfl
        simp only [slots_set]
        rw [if_pos used, cutName_assign]
        exact stored

theorem perform_remove (represents : Represents directory.slots map) (name : CString) :
    (directory.perform (.remove name)).1 = (map.perform tableSize (.remove name)).1 ∧
      Represents (directory.perform (.remove name)).2.slots
        (map.perform tableSize (.remove name)).2 := by
  have known := findIndex_isSome_iff represents name
  simp only [perform, remove, NameMap.perform]
  cases found : directory.findIndex name with
  | none =>
      have absent : cutName name ∉ map := by
        rw [← known, found]
        exact Bool.false_ne_true
      rw [if_neg absent]
      exact ⟨rfl, represents⟩
  | some i =>
      have present : cutName name ∈ map := by
        rw [← known, found]
        rfl
      rw [if_pos present]
      refine ⟨rfl, ?_⟩
      have emptied := represents.erase (slots_findIndex found)
      simp only [slots_set]
      rw [if_neg Bool.false_ne_true]
      exact emptied

/-- Every operation on the table is the operation on the map. -/
theorem perform_refines (represents : Represents directory.slots map)
    (command : DirectoryCommand) :
    (directory.perform command).1 = (map.perform tableSize command).1 ∧
      Represents (directory.perform command).2.slots
        (map.perform tableSize command).2 := by
  cases command with
  | find name => exact ⟨congrArg _ (find_eq represents name), represents⟩
  | add name newSector => exact perform_add represents name newSector
  | remove name => exact perform_remove represents name

theorem run_refines (commands : List DirectoryCommand)
    (represents : Represents directory.slots map) :
    (run commands directory).1 = (NameMap.run tableSize commands map).1 ∧
      Represents (run commands directory).2.slots
        (NameMap.run tableSize commands map).2 := by
  induction commands generalizing directory map with
  | nil => exact ⟨rfl, represents⟩
  | cons command commands ih =>
      obtain ⟨reply, next⟩ := perform_refines represents command
      obtain ⟨replies, last⟩ := ih next
      exact ⟨congrArg₂ List.cons reply replies, last⟩

/-- An operation that fails does not touch the table. -/
theorem perform_of_failed (command : DirectoryCommand)
    (failed : (directory.perform command).1 = .done false) :
    (directory.perform command).2 = directory := by
  cases command with
  | find name => rfl
  | add name newSector =>
      simp only [perform, add] at failed ⊢
      split at failed
      · next found => rw [if_pos found]
      · next missing =>
          rw [if_neg missing]
          cases free : directory.freeIndex with
          | none => rfl
          | some i =>
              rw [free] at failed
              cases failed
  | remove name =>
      simp only [perform, remove] at failed ⊢
      cases found : directory.findIndex name with
      | none => rfl
      | some i =>
          rw [found] at failed
          cases failed

/-- A name that was missing is found in the entry that it was assigned to. -/
theorem find_set_assign {name : CString} (missing : directory.findIndex name = none)
    (i : Fin tableSize) (newSector : CInt) :
    find (directory.set i ((directory.table i).assign name newSector) i.isLt) name =
      newSector := by
  have used : (directory[i].assign name newSector).inUse = true := rfl
  have slots := directory.slots_set i (directory[i].assign name newSector)
  rw [if_pos used, cutName_assign] at slots
  have here : Directory.slots (directory.set i (directory[i].assign name newSector)) i =
      some (cutName name, newSector) := by
    rw [slots, Function.update_self]
    rfl
  obtain ⟨j, found⟩ := Option.isSome_iff_exists.mp (findIndex_of_slots here)
  have stored := slots_findIndex found
  by_cases same : j = i
  · subst same
    rw [here] at stored
    rw [find, found]
    exact (Prod.mk.inj (Option.some.inj stored)).2.symm
  · rw [slots, Function.update_of_ne same] at stored
    have present := findIndex_of_slots stored
    rw [missing] at present
    cases present

/-- A table that is written to a file of its size is fetched from it unchanged. -/
theorem fetchFrom_writeBack (directory other : Directory tableSize) {file : OpenFile}
    {disk : Disk} {sectors : List SectorNumber} (maps : file.hdr.Maps disk sectors)
    (size : file.hdr.fileLength.toInt = byteCount tableSize) (memory : Memory) :
    ∃ after, directory.writeBack file memory disk = .ok after ∧
      disk.AgreeOutside sectors after ∧ other.fetchFrom file after = .ok directory := by
  have length : directory.toBytes.length = byteCount tableSize := directory.length_toBytes
  obtain ⟨count, after, written, agree, read⟩ :=
    OpenFile.writeAt_readAt maps memory (Int.le_of_eq (by rw [length, size]))
  rw [length] at written read
  refine ⟨after, ?_, agree, ?_⟩
  · rw [writeBack]
    exact congrArg (Except.map Prod.snd) written
  · have rest : other.toBytes.drop directory.toBytes.length = [] := by
      apply List.drop_eq_nil_of_le
      rw [length_toBytes, length_toBytes]
    rw [fetchFrom]
    apply (congrArg (Except.map _) read).trans
    change Except.ok (ofBytes tableSize _) = _
    rw [rest, List.append_nil, ofBytes_toBytes]

/-- A directory is a finite map from cut names to sectors, over every sequence
of operations, and remains this map when it is stored in its file. -/
theorem refines_map (memory : Vector DirectoryEntry tableSize)
    (commands : List DirectoryCommand) :
    (run commands (new memory)).1 = (NameMap.run tableSize commands ∅).1 ∧
      Represents (run commands (new memory)).2.slots
        (NameMap.run tableSize commands ∅).2 ∧
      (∀ command, ((run commands (new memory)).2.perform command).1 = .done false →
        ((run commands (new memory)).2.perform command).2 = (run commands (new memory)).2) ∧
      ∀ (file : OpenFile) (disk : Disk) (sectors : List SectorNumber),
        file.hdr.Maps disk sectors →
        file.hdr.fileLength.toInt = byteCount tableSize →
        ∀ (buffer : Memory) (other : Directory tableSize), ∃ after fetched,
          (run commands (new memory)).2.writeBack file buffer disk = .ok after ∧
            other.fetchFrom file after = .ok fetched ∧
            fetched = (run commands (new memory)).2 ∧
            Represents fetched.slots (NameMap.run tableSize commands ∅).2 := by
  have empty : Represents (new memory).slots ∅ := represents_empty (slots_new memory)
  obtain ⟨replies, represents⟩ := run_refines commands empty
  refine ⟨replies, represents, perform_of_failed, ?_⟩
  intro file disk sectors maps size buffer other
  obtain ⟨after, written, -, fetched⟩ := fetchFrom_writeBack _ other maps size buffer
  exact ⟨after, _, written, fetched, rfl, represents⟩

end Directory

end Nachos
