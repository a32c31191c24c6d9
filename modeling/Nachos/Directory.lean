import Nachos.BitMap
import Nachos.ListSplice

/-!
# Directories

A directory is a table of entries, stored in its file byte by byte as it lies in
memory.  Names are compared and copied as far as `FileNameMaxLen` characters.
-/

namespace Nachos

open LittleEndianWords ListSplice

def fileNameMaxLen : Nat := 31

def fileExtNameMaxLen : Nat := 15

def fullPathLength : Nat := 79

/-- The characters of a C string, without the terminator. -/
abbrev CString := List Byte

/-- Whether `strncmp` finds the first `n` characters equal.  Both strings end at
a zero byte, which follows the last element of either list. -/
def sameName : Nat → List Byte → List Byte → Bool
  | 0, _, _ => true
  | n + 1, first, second =>
      first.headD 0 == second.headD 0 &&
        (first.headD 0 == 0 || sameName n first.tail second.tail)

/-- The `n` characters that `strncpy` stores: the rest is filled with zeros. -/
def copiedName (n : Nat) (name : CString) : List Byte :=
  (name.takeWhile (· != 0)).takeD n 0

/-- The fields of a `DirectoryEntry`, with the padding between the first two. -/
structure DirectoryEntry where
  inUse : Bool
  padding : Vector Byte 3
  sector : CInt
  name : Vector Byte (fileNameMaxLen + 1)
  extName : Vector Byte (fileExtNameMaxLen + 1)
  fullPath : Vector Byte (fullPathLength + 1)
  deriving DecidableEq

namespace DirectoryEntry

/-- `sizeof(DirectoryEntry)`. -/
def size : Nat :=
  1 + 3 + 4 + (fileNameMaxLen + 1) + (fileExtNameMaxLen + 1) + (fullPathLength + 1)

/-- What `Add` makes of the entry it takes.  The last character of the name stays
as it was. -/
def assign (entry : DirectoryEntry) (name : CString) (newSector : CInt) :
    DirectoryEntry :=
  { entry with
    inUse := true
    name := Vector.ofFn fun index : Fin (fileNameMaxLen + 1) =>
      if index.val < fileNameMaxLen then (copiedName fileNameMaxLen name).getD index.val 0
      else entry.name[index]
    sector := newSector }

/-- The bytes of a vector at some offset. -/
def bytesAt (bytes : List Byte) (offset count : Nat) : Vector Byte count :=
  Vector.ofFn fun index => bytes.getD (offset + index.val) 0

def toBytes (entry : DirectoryEntry) : List Byte :=
  (if entry.inUse then 1 else 0) :: (entry.padding.toList ++
    (wordBytes entry.sector ++ (entry.name.toList ++
      (entry.extName.toList ++ entry.fullPath.toList))))

def ofBytes (bytes : List Byte) : DirectoryEntry where
  inUse := bytes.getD 0 0 != 0
  padding := bytesAt bytes 1 3
  sector := wordAt bytes 4
  name := bytesAt bytes 8 (fileNameMaxLen + 1)
  extName := bytesAt bytes 40 (fileExtNameMaxLen + 1)
  fullPath := bytesAt bytes 56 (fullPathLength + 1)

@[simp]
theorem length_toBytes (entry : DirectoryEntry) : entry.toBytes.length = size := by
  simp only [toBytes, List.length_cons, List.length_append, Vector.length_toList,
    length_wordBytes]
  decide

theorem bytesAt_append {count : Nat} (front rest : List Byte)
    (bytes : Vector Byte count) :
    bytesAt (front ++ (bytes.toList ++ rest)) front.length count = bytes := by
  apply Vector.ext
  intro index inside
  have within : index < bytes.toList.length := by simpa using inside
  rw [bytesAt, Vector.getElem_ofFn, List.getD_append_right _ _ _ _ (by simp),
    Nat.add_sub_cancel_left, List.getD_append _ _ _ _ within,
    List.getD_eq_getElem _ _ within, Vector.getElem_toList]

/-- An entry that was stored is read back unchanged. -/
theorem ofBytes_toBytes (entry : DirectoryEntry) (rest : List Byte) :
    ofBytes (entry.toBytes ++ rest) = entry := by
  cases entry with
  | mk inUse padding sector name extName fullPath =>
      have paddingRead := bytesAt_append [if inUse then (1 : Byte) else 0]
        (wordBytes sector ++ (name.toList ++ (extName.toList ++ (fullPath.toList ++ rest))))
        padding
      have sectorRead := wordAt_append_add
        ((if inUse then (1 : Byte) else 0) :: padding.toList)
        (wordBytes sector ++ (name.toList ++ (extName.toList ++ (fullPath.toList ++ rest))))
        0
      have nameRead := bytesAt_append
        ((if inUse then (1 : Byte) else 0) :: (padding.toList ++ wordBytes sector))
        (extName.toList ++ (fullPath.toList ++ rest)) name
      have extNameRead := bytesAt_append
        ((if inUse then (1 : Byte) else 0) ::
          (padding.toList ++ (wordBytes sector ++ name.toList)))
        (fullPath.toList ++ rest) extName
      have fullPathRead := bytesAt_append
        ((if inUse then (1 : Byte) else 0) ::
          (padding.toList ++ (wordBytes sector ++ (name.toList ++ extName.toList))))
        rest fullPath
      rw [wordAt_wordBytes_append] at sectorRead
      simp only [List.length_cons, List.length_append, Vector.length_toList,
        length_wordBytes, List.length_nil, List.cons_append, List.append_assoc,
        List.nil_append] at paddingRead sectorRead nameRead extNameRead fullPathRead
      simp only [ofBytes, toBytes, List.cons_append, List.append_assoc,
        DirectoryEntry.mk.injEq]
      refine ⟨?_, paddingRead, sectorRead, nameRead, extNameRead, fullPathRead⟩
      cases inUse <;> rfl

end DirectoryEntry

/-- The table of a `Directory` of `tableSize` entries. -/
abbrev Directory (tableSize : Nat) := Vector DirectoryEntry tableSize

namespace Directory

variable {tableSize : Nat}

/-- `table[i]`. -/
abbrev table (directory : Directory tableSize) (i : Fin tableSize) : DirectoryEntry :=
  directory[i]

/-- The constructor: the entries of a fresh table are not in use. -/
def new (memory : Vector DirectoryEntry tableSize) : Directory tableSize :=
  memory.map fun entry => { entry with inUse := false }

/-- `FindIndex`; `none` stands for the returned `-1`. -/
def findIndex (directory : Directory tableSize) (name : CString) :
    Option (Fin tableSize) :=
  (List.finRange tableSize).find? fun i =>
    directory[i].inUse && sameName fileNameMaxLen directory[i].name.toList name

def find (directory : Directory tableSize) (name : CString) : CInt :=
  match directory.findIndex name with
  | some i => directory[i].sector
  | none => -1

/-- The first entry that is not in use, for `Add`. -/
def freeIndex (directory : Directory tableSize) : Option (Fin tableSize) :=
  (List.finRange tableSize).find? fun i => !directory[i].inUse

/-- The result says whether the name was added. -/
def add (directory : Directory tableSize) (name : CString) (newSector : CInt) :
    Bool × Directory tableSize :=
  if (directory.findIndex name).isSome then (false, directory)
  else
    match directory.freeIndex with
    | some i => (true, directory.set i (directory[i].assign name newSector))
    | none => (false, directory)

/-- The result says whether the name was there. -/
def remove (directory : Directory tableSize) (name : CString) :
    Bool × Directory tableSize :=
  match directory.findIndex name with
  | some i => (true, directory.set i { directory[i] with inUse := false })
  | none => (false, directory)

/-- The table as the bytes it occupies. -/
def toBytes (directory : Directory tableSize) : List Byte :=
  directory.toList.flatMap DirectoryEntry.toBytes

def ofBytes (tableSize : Nat) (bytes : List Byte) : Directory tableSize :=
  Vector.ofFn fun i => DirectoryEntry.ofBytes (bytes.drop (i.val * DirectoryEntry.size))

@[simp]
theorem length_toBytes (directory : Directory tableSize) :
    directory.toBytes.length = tableSize * DirectoryEntry.size := by
  rw [toBytes, length_flatMap_blocks fun entry _ => entry.length_toBytes,
    Vector.length_toList]

/-- The table that was stored is read back unchanged. -/
theorem ofBytes_toBytes (directory : Directory tableSize) :
    ofBytes tableSize directory.toBytes = directory := by
  apply Vector.ext
  intro index inside
  have split : directory.toList = directory.toList.take index ++
      directory[index] :: directory.toList.drop (index + 1) := by
    conv_lhs => rw [← List.take_append_drop index directory.toList]
    rw [List.drop_eq_getElem_cons (by simpa using inside)]
    simp
  have front : ((directory.toList.take index).flatMap DirectoryEntry.toBytes).length =
      index * DirectoryEntry.size := by
    rw [length_flatMap_blocks fun entry _ => entry.length_toBytes, List.length_take,
      Vector.length_toList, Nat.min_eq_left (Nat.le_of_lt inside)]
  rw [ofBytes, Vector.getElem_ofFn, toBytes, split, List.flatMap_append,
    List.flatMap_cons, ← front, List.drop_left, DirectoryEntry.ofBytes_toBytes]

theorem findIndex_inUse {directory : Directory tableSize} {name : CString}
    {i : Fin tableSize} (found : directory.findIndex name = some i) :
    directory[i].inUse = true := by
  have both := List.find?_some found
  rw [Bool.and_eq_true] at both
  exact both.1

theorem freeIndex_not_inUse {directory : Directory tableSize} {i : Fin tableSize}
    (found : directory.freeIndex = some i) : directory[i].inUse = false := by
  simpa using List.find?_some found

end Directory

end Nachos
