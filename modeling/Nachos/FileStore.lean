import Mathlib.Algebra.BigOperators.Group.Finset.Basic
import Nachos.DirectoryMap
import Nachos.FileSystemAccounting

/-!
# A store of named files

What the file system is for: a finite map from names to byte strings, and the files that
are open on it.  A name counts as far as a directory keeps it.  A file has the size that it
was created with, and holds zeros until it is written.

The disk has room for so many sectors and the directory for so many names, and `Create`
succeeds exactly when there is room for the new file.
-/

namespace Nachos

open ListSplice TransitionRuns

/-- A file that was opened: its name, unless it was removed meanwhile, and the position of
the next `Read` or `Write`. -/
structure OpenedFile where
  name : Option (List Byte)
  position : CInt
  deriving DecidableEq

structure FileStore where
  files : Finmap fun _ : List Byte => List Byte
  opened : List OpenedFile

/-- What a user of the file system is told. -/
inductive FileReply where
  | done (success : Bool)
  | moved
  | data (bytes : List Byte)
  | count (numBytes : CInt)
  deriving DecidableEq

/-- The operations of its users, and that Nachos is started again on the same disk. -/
inductive FileAction where
  | request (request : Request)
  | reboot (heap : Heap)

/-- The sectors that hold so many bytes. -/
def sectorCount (size : Nat) : Nat :=
  (size + Disk.sectorSize - 1) / Disk.sectorSize

/-- The sectors for files, besides those of the free map and the directory and of their
headers. -/
def fileSectors : Nat :=
  Disk.numSectors - (2 + sectorCount freeMapFileSize + sectorCount directoryFileSize)

namespace FileStore

/-- No file, and none open. -/
def empty : FileStore :=
  ⟨∅, []⟩

/-- The sectors that the files and their headers take. -/
def used (store : FileStore) : Nat :=
  ∑ name ∈ store.files.keys, (1 + sectorCount ((store.files.lookup name).getD []).length)

/-- There is room for another file. -/
def Fits (store : FileStore) (size : Nat) : Prop :=
  store.files.keys.card < numDirEntries ∧ store.used + (1 + sectorCount size) ≤ fileSectors

instance (store : FileStore) (size : Nat) : Decidable (store.Fits size) :=
  inferInstanceAs (Decidable (_ ∧ _))

/-- The opened file with its name and contents; it is a mistake to use one that was
removed. -/
def openedAt (store : FileStore) (handle : Nat) :
    Except Fault (OpenedFile × List Byte × List Byte) :=
  match store.opened[handle]? with
  | none => .error .outOfBounds
  | some opened =>
      match opened.name with
      | none => .error .outOfBounds
      | some name => .ok (opened, name, (store.files.lookup name).getD [])

def seek (store : FileStore) (handle : Nat) (position : CInt) : FileStore :=
  { store with
    opened := store.opened.modify handle fun opened => { opened with position := position } }

/-- The bytes of a file in some range. -/
def readRange (contents : List Byte) (numBytes position : CInt) : List Byte :=
  (contents.drop position.toInt.toNat).take numBytes.toInt.toNat

/-- The number of bytes that are written in some range, and the file after that. -/
def writeRange (contents data : List Byte) (numBytes position : CInt) : Nat × List Byte :=
  let count := min numBytes.toInt.toNat (contents.length - position.toInt.toNat)
  (count, splice contents position.toInt.toNat (data.take count))

def create (store : FileStore) (name : CString) (initialSize : CInt) : Bool × FileStore :=
  if cutName name ∉ store.files ∧ store.Fits initialSize.toInt.toNat then
    (true, { store with
      files := store.files.insert (cutName name) (List.replicate initialSize.toInt.toNat 0) })
  else (false, store)

def «open» (store : FileStore) (name : CString) : Bool × FileStore :=
  if cutName name ∈ store.files then
    (true, { store with opened := store.opened ++ [⟨some (cutName name), 0⟩] })
  else (false, store)

def remove (store : FileStore) (name : CString) : Bool × FileStore :=
  if cutName name ∈ store.files then
    (true, {
      files := store.files.erase (cutName name)
      opened := store.opened.map fun opened =>
        if opened.name = some (cutName name) then { opened with name := none } else opened })
  else (false, store)

def perform (store : FileStore) : Request → Except Fault (FileReply × FileStore)
  | .create name initialSize _ =>
      let (success, store) := store.create name initialSize
      .ok (.done success, store)
  | .open name _ =>
      let (success, store) := store.open name
      .ok (.done success, store)
  | .remove name _ =>
      let (success, store) := store.remove name
      .ok (.done success, store)
  | .seek handle position => .ok (.moved, store.seek handle position)
  | .read handle numBytes => do
      let (opened, _, contents) ← store.openedAt handle
      let bytes := readRange contents numBytes opened.position
      .ok (.data bytes, store.seek handle (opened.position + BitVec.ofNat 32 bytes.length))
  | .readAt handle numBytes position => do
      let (_, _, contents) ← store.openedAt handle
      .ok (.data (readRange contents numBytes position), store)
  | .write handle data numBytes _ => do
      let (opened, name, contents) ← store.openedAt handle
      let (count, contents) := writeRange contents data numBytes opened.position
      .ok (.count (BitVec.ofNat 32 count), { store with
        files := store.files.insert name contents }.seek handle
          (opened.position + BitVec.ofNat 32 count))
  | .writeAt handle data numBytes position _ => do
      let (_, name, contents) ← store.openedAt handle
      let (count, contents) := writeRange contents data numBytes position
      .ok (.count (BitVec.ofNat 32 count), { store with
        files := store.files.insert name contents })

/-- After a new start the files are there, and none is open. -/
def act (store : FileStore) : FileAction → Except Fault (FileReply × FileStore)
  | .request request => store.perform request
  | .reboot _ => .ok (.moved, { store with opened := [] })

/-- The handle is open on a file that was not removed, and the opened file satisfies a
condition. -/
def Usable (store : FileStore) (handle : Nat) (condition : OpenedFile → Prop) : Prop :=
  ∃ opened ∈ store.opened[handle]?, opened.name.isSome ∧ condition opened

instance (store : FileStore) (handle : Nat) (condition : OpenedFile → Prop)
    [DecidablePred condition] : Decidable (store.Usable handle condition) :=
  inferInstanceAs (Decidable (∃ opened ∈ store.opened[handle]?, _ ∧ condition opened))

/-- What users may ask for: files of up to `MaxFileSize` bytes, and transfers through files
that are open and were not removed, at a position that is not negative, up to an end that is
an `int`, and with as many data as are to be written. -/
def Proper (store : FileStore) : FileAction → Prop
  | .request (.create _ initialSize _) =>
      0 ≤ initialSize.toInt ∧ initialSize.toInt ≤ maxFileSize
  | .request (.open _ _) | .request (.remove _ _) | .reboot _ => True
  | .request (.seek handle _) => handle < store.opened.length
  | .request (.read handle numBytes) =>
      store.Usable handle fun opened => Session.InRange numBytes opened.position
  | .request (.write handle data numBytes _) =>
      store.Usable handle fun opened =>
        Session.InRange numBytes opened.position ∧ numBytes.toInt ≤ data.length
  | .request (.readAt handle numBytes position) =>
      store.Usable handle fun _ => Session.InRange numBytes position
  | .request (.writeAt handle data numBytes position _) =>
      store.Usable handle fun _ =>
        Session.InRange numBytes position ∧ numBytes.toInt ≤ data.length

instance (numBytes position : CInt) : Decidable (Session.InRange numBytes position) :=
  inferInstanceAs (Decidable (_ ∧ _))

instance (store : FileStore) (action : FileAction) : Decidable (store.Proper action) :=
  match action with
  | .request (.create _ _ _) => inferInstanceAs (Decidable (_ ∧ _))
  | .request (.open _ _) | .request (.remove _ _) | .reboot _ => inferInstanceAs (Decidable True)
  | .request (.seek _ _) => inferInstanceAs (Decidable (_ < _))
  | .request (.read handle numBytes) =>
      inferInstanceAs (Decidable (store.Usable handle fun opened =>
        Session.InRange numBytes opened.position))
  | .request (.write handle data numBytes _) =>
      inferInstanceAs (Decidable (store.Usable handle fun opened =>
        Session.InRange numBytes opened.position ∧ numBytes.toInt ≤ data.length))
  | .request (.readAt handle numBytes position) =>
      inferInstanceAs (Decidable (store.Usable handle fun _ => Session.InRange numBytes position))
  | .request (.writeAt handle data numBytes position _) =>
      inferInstanceAs (Decidable (store.Usable handle fun _ =>
        Session.InRange numBytes position ∧ numBytes.toInt ≤ data.length))

end FileStore

end Nachos
