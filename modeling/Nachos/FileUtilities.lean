import Nachos.FileSystemStore
import Nachos.FileTransfer

/-!
# The utilities of the file system

`Copy` puts a UNIX file into the file system, `Print` shows a file, and `PerformanceTest`
writes and reads a file of 50000 bytes.  The file of the test is created with no bytes, and a
file does not grow, so that the test always gives up.  In every sequence of file operations,
new starts and utilities, the utilities do to the store of named files just that.
-/

namespace Nachos

open ListSplice SlotMap TransitionRuns

/-- What the utilities print. -/
inductive FileMessage where
  /-- `Copy: couldn't open input file %s` -/
  | noInput (name : CString)
  /-- `Copy: couldn't create output file %s` -/
  | noOutput (name : CString)
  /-- `Print: unable to open file %s` -/
  | noFile (name : CString)
  /-- The contents of a file. -/
  | contents (bytes : List Byte)
  /-- `Perf test: can't create %s` -/
  | cannotCreate
  /-- `Perf test: unable to open %s` -/
  | unableToOpen
  /-- `Perf test: unable to write %s` -/
  | unableToWrite
  /-- `Perf test: unable to open file %s` -/
  | unableToOpenFile
  /-- `Perf test: unable to read %s` -/
  | unableToRead
  /-- `Perf test: unable to remove %s` -/
  | unableToRemove
  deriving DecidableEq

/-- `TransferSize`. -/
def transferSize : Nat := 10

/-- What `fread` returns call after call, `transferSize` bytes at most, until it returns 0. -/
def freads : Nat → List Byte → List (List Byte)
  | 0, _ => []
  | calls + 1, bytes =>
      if bytes = [] then []
      else bytes.take transferSize :: freads calls (bytes.drop transferSize)

theorem flatten_freads {calls : Nat} {bytes : List Byte} (enough : bytes.length ≤ calls) :
    (freads calls bytes).flatten = bytes := by
  induction calls generalizing bytes with
  | zero => rw [List.eq_nil_of_length_eq_zero (Nat.le_zero.mp enough), freads]; rfl
  | succ calls ih =>
      rw [freads]
      split
      · next empty => rw [empty]; rfl
      · next nonempty =>
          have positive := List.length_pos_of_ne_nil nonempty
          have rest := ih (show (bytes.drop transferSize).length ≤ calls by
            rw [List.length_drop, transferSize]
            omega)
          rw [List.flatten_cons, rest, List.take_append_drop]

/-- `FileName`, the string `TestFile`. -/
def testFileName : CString := [84, 101, 115, 116, 70, 105, 108, 101]

/-- `Contents`, the string `1234567890`. -/
def testContents : List Byte := [49, 50, 51, 52, 53, 54, 55, 56, 57, 48]

/-- `FileSize / ContentSize`. -/
def testRepetitions : Nat := 5000

/-- The loop of `FileWrite`; the result says whether all was written. -/
def OpenFile.writeAll (memory : Nat → Memory) : Nat → OpenFile → Disk →
    Except Fault (Bool × Disk)
  | 0, _, disk => .ok (true, disk)
  | left + 1, file, disk => do
      let (numBytes, disk, file) ← file.write (memory left) disk testContents 10
      if numBytes.toInt < 10 then .ok (false, disk) else writeAll memory left file disk

/-- The loop of `FileRead`; the result says whether all was read as it should be. -/
def OpenFile.readAll (disk : Disk) : Nat → OpenFile → Except Fault Bool
  | 0, _ => .ok true
  | left + 1, file => do
      let (buffer, file) ← file.read disk 10
      if buffer.length < 10 ∨ buffer ≠ testContents then .ok false else readAll disk left file

namespace Session

/-- `Copy`, where the UNIX files are given by their contents. -/
def copy (session : Session) (unix : CString → Option (List Byte)) (source target : CString)
    (heaps : Nat → Heap) (memory : Nat → Memory) :
    Except Fault (List FileMessage × Session) :=
  match unix source with
  | none => .ok ([.noInput source], session)
  | some bytes => do
      let (created, system) ←
        session.system.create (heaps 0) target (BitVec.ofNat 32 bytes.length)
      let session := { session with system := system }
      if created then do
        let opened ← session.system.open (heaps 1) target
        match opened with
        | none => .error .assertion
        | some file => do
            let (_, disk) ← file.writeChunks memory (freads bytes.length bytes)
              session.system.disk
            .ok ([], session.setDisk disk)
      else .ok ([.noOutput target], session)

/-- `Print`; it has not come to an end when so many calls of `Read` are not enough. -/
def print (session : Session) (calls : Nat) (name : CString) (heap : Heap) :
    Except Fault (Option (List FileMessage)) := do
  let opened ← session.system.open heap name
  match opened with
  | none => .ok (some [.noFile name])
  | some file => do
      let result ← OpenFile.readUntil session.system.disk calls
        (fun _ => BitVec.ofNat 32 transferSize) file
      .ok (result.map fun (bytes, _) => [.contents bytes])

def fileWrite (session : Session) (heaps : Nat → Heap) (memory : Nat → Memory) :
    Except Fault (List FileMessage × Session) := do
  let (created, system) ← session.system.create (heaps 0) testFileName 0
  let session := { session with system := system }
  if created then do
    let opened ← session.system.open (heaps 1) testFileName
    match opened with
    | none => .ok ([.unableToOpen], session)
    | some file => do
        let (all, disk) ← file.writeAll memory testRepetitions session.system.disk
        .ok (if all then [] else [.unableToWrite], session.setDisk disk)
  else .ok ([.cannotCreate], session)

def fileRead (session : Session) (heap : Heap) : Except Fault (List FileMessage) := do
  let opened ← session.system.open heap testFileName
  match opened with
  | none => .ok [.unableToOpenFile]
  | some file => do
      let all ← OpenFile.readAll session.system.disk testRepetitions file
      .ok (if all then [] else [.unableToRead])

/-- `PerformanceTest`, but for the statistics that it prints. -/
def performanceTest (session : Session) (heaps : Nat → Heap) (memory : Nat → Memory) :
    Except Fault (List FileMessage × Session) := do
  let (writing, session) ← session.fileWrite heaps memory
  let reading ← session.fileRead (heaps 2)
  let (removed, session) ← session.perform (.remove testFileName (heaps 3))
  .ok (writing ++ reading ++ if removed = .done true then [] else [.unableToRemove], session)

end Session

/-- The file operations and new starts, and the utilities. -/
inductive UtilityAction where
  | file (action : FileAction)
  | copy (source target : CString) (heaps : Nat → Heap) (memory : Nat → Memory)
  | print (name : CString) (heap : Heap)
  | performanceTest (heaps : Nat → Heap) (memory : Nat → Memory)

inductive UtilityReply where
  | file (reply : FileReply)
  | printed (messages : List FileMessage)
  /-- Nothing yet, for a utility that has not come to its end. -/
  | running
  deriving DecidableEq

namespace Session

/-- The utilities; `Print` is followed for so many calls of `Read`. -/
def operate (unix : CString → Option (List Byte)) (calls : Nat) (session : Session) :
    UtilityAction → Except Fault (UtilityReply × Session)
  | .file action => do
      let (reply, session) ← session.act action
      .ok (.file reply, session)
  | .copy source target heaps memory => do
      let (messages, session) ← session.copy unix source target heaps memory
      .ok (.printed messages, session)
  | .print name heap => do
      let messages ← session.print calls name heap
      .ok ((messages.map .printed).getD .running, session)
  | .performanceTest heaps memory => do
      let (messages, session) ← session.performanceTest heaps memory
      .ok (.printed messages, session)

end Session

namespace FileStore

/-- The new file has the bytes of the UNIX file. -/
def copy (store : FileStore) (unix : CString → Option (List Byte)) (source target : CString) :
    List FileMessage × FileStore :=
  match unix source with
  | none => ([.noInput source], store)
  | some bytes =>
      if cutName target ∉ store.files ∧ store.Fits bytes.length then
        ([], { store with files := store.files.insert (cutName target) bytes })
      else ([.noOutput target], store)

def print (store : FileStore) (name : CString) : List FileMessage :=
  match store.files.lookup (cutName name) with
  | none => [.noFile name]
  | some bytes => [.contents bytes]

/-- The test finds that it cannot write its file, or cannot read an old one, which it
removes. -/
def performanceTest (store : FileStore) : List FileMessage × FileStore :=
  if cutName testFileName ∈ store.files then
    ([.cannotCreate, .unableToRead], (store.remove testFileName).2)
  else if store.Fits 0 then ([.unableToWrite, .unableToRead], store)
  else ([.cannotCreate, .unableToOpenFile, .unableToRemove], store)

def operate (unix : CString → Option (List Byte)) (store : FileStore) :
    UtilityAction → Except Fault (UtilityReply × FileStore)
  | .file action => do
      let (reply, store) ← store.act action
      .ok (.file reply, store)
  | .copy source target _ _ =>
      let (messages, store) := store.copy unix source target
      .ok (.printed messages, store)
  | .print name _ => .ok (.printed (store.print name), store)
  | .performanceTest _ _ =>
      let (messages, store) := store.performanceTest
      .ok (.printed messages, store)

/-- Nothing is copied that is longer than `MaxFileSize`. -/
def Utilizes (unix : CString → Option (List Byte)) (store : FileStore) : UtilityAction → Prop
  | .file action => store.Proper action
  | .copy source _ _ _ => ∀ bytes ∈ unix source, bytes.length ≤ maxFileSize
  | .print _ _ | .performanceTest _ _ => True

instance (unix : CString → Option (List Byte)) (store : FileStore) (action : UtilityAction) :
    Decidable (store.Utilizes unix action) :=
  match action with
  | .file action => inferInstanceAs (Decidable (store.Proper action))
  | .copy source _ _ _ =>
      inferInstanceAs (Decidable (∀ bytes ∈ unix source, bytes.length ≤ maxFileSize))
  | .print _ _ | .performanceTest _ _ => inferInstanceAs (Decidable True)

end FileStore

namespace Session

variable {session : Session} {store after : FileStore} {request : Request} {reply : FileReply}

/-- What the store does with a request, the session does too. -/
theorem Stores.performs (stores : session.Stores store)
    (proper : store.Proper (.request request))
    (performed : store.perform request = .ok (reply, after)) :
    ∃ next, session.perform request = .ok (reply, next) ∧ next.Stores after := by
  have alike := act_refines session store (.request request) stores proper
  simp only [act, FileStore.act, performed] at alike
  generalize session.perform request = result at alike
  cases alike with
  | @ok last _ same =>
      obtain ⟨told, next⟩ := last
      obtain rfl : told = reply := same.answers
      exact ⟨next, rfl, same.relates⟩

/-- The part of `Create` that changes the file system. -/
theorem Stores.creates (stores : session.Stores store) {name : CString} {initialSize : CInt}
    {heap : Heap} (proper : store.Proper (.request (.create name initialSize heap)))
    {created : Bool} (done : store.create name initialSize = (created, after)) :
    ∃ system, session.system.create heap name initialSize = .ok (created, system) ∧
      Session.Stores { session with system := system } after := by
  have performed : store.perform (.create name initialSize heap) =
      .ok (.done created, after) := by rw [FileStore.perform, done]
  obtain ⟨next, stepped, stored⟩ := stores.performs proper performed
  simp only [perform, reply, step] at stepped
  cases creating : session.system.create heap name initialSize with
  | error fault =>
      rw [creating] at stepped
      cases stepped
  | ok result =>
      rw [creating] at stepped
      obtain ⟨same, rfl⟩ := Prod.mk.inj (Except.ok.inj stepped)
      obtain rfl : result.1 = created := by simpa using same
      exact ⟨result.2, rfl, stored⟩

end Session

section Loops

variable {hdr : FileHeader} {disk : Disk} {sectors : List SectorNumber}

/-- The read loop of the test gives up in a file that is too short. -/
theorem readAll_of_short (maps : hdr.Maps disk sectors) {calls place : Nat}
    (inside : place ≤ (hdr.contents disk sectors).length)
    (short : (hdr.contents disk sectors).length < place + 10 * calls)
    (small : (hdr.contents disk sectors).length ≤ maxFileSize) :
    OpenFile.readAll disk calls ⟨hdr, BitVec.ofNat 32 place⟩ = .ok false := by
  have limit : maxFileSize = 3840 := by decide
  have value : BitVec.toInt (10 : CInt) = 10 := by decide
  have ten : (BitVec.toInt (10 : CInt)).toNat = 10 := by decide
  induction calls generalizing place with
  | zero => omega
  | succ calls ih =>
      have fits : (place : Int) + BitVec.toInt (10 : CInt) < 2 ^ 31 := by omega
      rw [OpenFile.readAll, OpenFile.read_eq maps place fits, ok_bind]
      simp only [ten]
      split
      · rfl
      · next whole =>
          have length : (((hdr.contents disk sectors).drop place).take 10).length = 10 := by
            rw [not_or, Nat.not_lt] at whole
            have most := List.length_take_le 10 ((hdr.contents disk sectors).drop place)
            omega
          rw [List.length_take, List.length_drop] at length
          rw [List.length_take, List.length_drop, length]
          exact ih (by omega) (by omega)

/-- Nothing can be written to a file with no bytes. -/
theorem writeAll_empty (disk : Disk) (empty : hdr.fileLength.toInt = 0)
    (memory : Nat → Memory) {calls : Nat} (positive : 0 < calls) :
    OpenFile.writeAll memory calls ⟨hdr, 0⟩ disk = .ok (false, disk) := by
  obtain ⟨left, rfl⟩ := Nat.exists_eq_add_of_lt positive
  have refused : OpenFile.checkRequest ⟨hdr, 0⟩ 10 0 = none := by
    apply if_pos
    right
    rw [empty]
    decide
  rw [Nat.zero_add, OpenFile.writeAll, OpenFile.write, OpenFile.writeAt, refused]
  rfl

end Loops

namespace StoredIn

variable {session : Session} {store : FileStore} {held : Holdings}
  {freeMap : BitMap Disk.numSectors} {directory : Directory numDirEntries}

/-- `Open` of a file that the store has. -/
theorem open_of_lookup (stored : StoredIn session store held freeMap directory)
    {name : CString} {bytes : List Byte} (found : store.files.lookup (cutName name) = some bytes)
    (heap : Heap) :
    ∃ hdr i header data, session.system.open heap name = .ok (some ⟨hdr, 0⟩) ∧
      Located session held directory ⟨hdr, 0⟩ (cutName name) i header data ∧
      hdr.contents session.system.disk data = bytes ∧ hdr.fileLength.toInt = bytes.length ∧
      bytes.length ≤ maxFileSize := by
  rcases stored.open_cases name heap with
    ⟨absent, -⟩ | ⟨i, header, hdr, -, opening, slot, front⟩
  · rw [Finmap.lookup_eq_none.mpr absent] at found
    cases found
  · obtain ⟨data, located⟩ : ∃ data, Located session held directory ⟨hdr, 0⟩ (cutName name) i
      header data := stored.locate slot front
    have same := stored.lookup_eq located
    rw [found] at same
    obtain rfl := Option.some.inj same
    have length := located.length_eq
    have blocks := (located.holds.of_sameFront located.front).blocks
    have few := located.holds.length_le
    refine ⟨hdr, i, header, data, opening, located, located.contents_eq rfl, length, ?_⟩
    simp only [length, Int.toNat_natCast, Disk.sectorSize, numDirect, maxFileSize] at blocks few ⊢
    omega

theorem open_of_absent (stored : StoredIn session store held freeMap directory)
    {name : CString} (absent : cutName name ∉ store.files) (heap : Heap) :
    session.system.open heap name = .ok none := by
  rcases stored.open_cases name heap with ⟨-, opening⟩ | ⟨-, -, -, there, -⟩
  · exact opening
  · exact absurd there absent

end StoredIn

namespace Session

variable {session : Session} {store : FileStore} {unix : CString → Option (List Byte)}

/-- `Copy` puts the UNIX file into the store, or leaves the store alone. -/
theorem Stores.copy (stores : session.Stores store) {source target : CString}
    (heaps : Nat → Heap) (memory : Nat → Memory)
    (proper : ∀ bytes ∈ unix source, bytes.length ≤ maxFileSize) :
    SameOutcome (SameAnswers Session.Stores)
      (session.copy unix source target heaps memory)
      (.ok (store.copy unix source target)) := by
  rw [Session.copy, FileStore.copy]
  cases supplied : unix source with
  | none => exact .ok ⟨rfl, stores⟩
  | some bytes =>
      have limit : maxFileSize = 3840 := by decide
      have small := proper bytes supplied
      have value : (BitVec.ofNat 32 bytes.length).toInt = bytes.length :=
        CInt.toInt_ofNat_of_lt (by omega)
      have request : store.Proper
          (.request (.create target (BitVec.ofNat 32 bytes.length) (heaps 0))) :=
        ⟨by omega, by omega⟩
      dsimp only
      by_cases fits : cutName target ∉ store.files ∧ store.Fits bytes.length
      · have done : store.create target (BitVec.ofNat 32 bytes.length) =
            (true, { store with files :=
              store.files.insert (cutName target) (List.replicate bytes.length 0) }) := by
          rw [FileStore.create, value, Int.toNat_natCast, if_pos fits]
        obtain ⟨system, created, held, freeMap, directory, stored⟩ :=
          stores.creates request done
        have there := Finmap.lookup_insert (a := cutName target)
          (b := List.replicate bytes.length (0 : Byte)) store.files
        obtain ⟨hdr, i, header, data, opening, located, zeros, length, -⟩ :=
          stored.open_of_lookup there (heaps 1)
        rw [List.length_replicate] at length
        have maps : hdr.Maps system.disk data := located.maps
        have whole := flatten_freads (Nat.le_refl bytes.length)
        obtain ⟨disk, writing, agree, contents⟩ := OpenFile.writeChunks_eq memory
          (freads bytes.length bytes) maps 0 (by rw [whole]; omega)
        have writing : OpenFile.writeChunks memory (freads bytes.length bytes) ⟨hdr, 0⟩
          system.disk = .ok (_, disk) := writing
        have filled : hdr.contents disk data = bytes := by
          rw [contents, whole, zeros]
          exact splice_all (by simp)
        have kept : disk header.val = system.disk header.val := by
          have apart := (List.nodup_cons.mp
            (located.owned ▸ stored.layout.ledger.nodup (.entry i))).1
          apply agree
          intro member inData same
          exact apart (Fin.ext same ▸ inData)
        have final := stored.written located agree
        rw [← located.contents_eq kept, filled] at final
        simp only [created, ok_bind, if_true, opening, writing, if_pos fits]
        rw [Finmap.insert_insert] at final
        exact .ok ⟨rfl, held, freeMap, directory, final⟩
      · have done : store.create target (BitVec.ofNat 32 bytes.length) = (false, store) := by
          rw [FileStore.create, value, Int.toNat_natCast, if_neg fits]
        obtain ⟨system, created, stored⟩ := stores.creates request done
        simp only [created, ok_bind, if_neg fits]
        exact .ok ⟨rfl, stored⟩

/-- `Print` shows what the store has under the name. -/
theorem Stores.print (stores : session.Stores store) {calls : Nat}
    (enough : maxFileSize < calls) (name : CString) (heap : Heap) :
    session.print calls name heap = .ok (some (store.print name)) := by
  obtain ⟨held, freeMap, directory, stored⟩ := stores
  rw [Session.print, FileStore.print]
  cases found : store.files.lookup (cutName name) with
  | none =>
      rw [stored.open_of_absent (Finmap.lookup_eq_none.mp found) heap, ok_bind]
  | some bytes =>
      obtain ⟨hdr, i, header, data, opening, located, contents, length, small⟩ :=
        stored.open_of_lookup found heap
      have limit : maxFileSize = 3840 := by decide
      have positive : 0 < (BitVec.ofNat 32 transferSize).toInt := by decide
      have ten : (BitVec.ofNat 32 transferSize).toInt.toNat = 10 := by decide
      have fits : OpenFile.ReadsFit (fun _ => BitVec.ofNat 32 transferSize) 0 bytes.length := by
        intro count inside
        simp only [OpenFile.requested, ten, Finset.sum_const, Finset.card_range,
          smul_eq_mul] at inside ⊢
        omega
      have maps : hdr.Maps session.system.disk data := located.maps
      have read := (OpenFile.readUntil_iff maps contents length (fun _ => positive)
        (Nat.zero_le _) (show bytes.length - 0 < calls by omega)).mpr fits
      rw [opening, ok_bind]
      dsimp only
      rw [show (⟨hdr, 0⟩ : OpenFile) = ⟨hdr, BitVec.ofNat 32 0⟩ from rfl, read, ok_bind]
      rfl

end Session

/-- A file that is open under a name is in the store. -/
theorem StoredIn.mem_of_opened {session : Session} {store : FileStore} {held : Holdings}
    {freeMap : BitMap Disk.numSectors} {directory : Directory numDirEntries}
    (stored : StoredIn session store held freeMap directory) {opened : OpenedFile}
    (member : opened ∈ store.opened) {name : List Byte} (named : opened.name = some name) :
    name ∈ store.files := by
  obtain ⟨index, present⟩ := List.getElem?_of_mem member
  obtain ⟨handle, -, shows⟩ := forall₂_getElem? stored.opened present
  obtain ⟨i, header, slot, -⟩ := shows.serves name named
  rw [stored.files.mem_iff]
  exact ⟨i, _, by rw [Disk.fileSlots, slot]; rfl⟩

/-- A file that is created and removed again leaves no trace. -/
theorem FileStore.remove_insert {store : FileStore} {name : CString}
    (absent : cutName name ∉ store.files)
    (others : ∀ opened ∈ store.opened, opened.name ≠ some (cutName name))
    (bytes : List Byte) :
    FileStore.remove { store with files := store.files.insert (cutName name) bytes } name =
      (true, store) := by
  rw [FileStore.remove, if_pos (Finmap.mem_insert.mpr (Or.inl rfl))]
  have files : (store.files.insert (cutName name) bytes).erase (cutName name) = store.files := by
    apply Finmap.ext_lookup
    intro key
    by_cases same : key = cutName name
    · rw [same, Finmap.lookup_erase, Finmap.lookup_eq_none.mpr absent]
    · rw [Finmap.lookup_erase_ne same, Finmap.lookup_insert_of_ne _ same]
  have opened : (store.opened.map fun opened =>
      if opened.name = some (cutName name) then { opened with name := none } else opened) =
        store.opened :=
    (List.map_congr_left fun opened member => if_neg (others opened member)).trans
      (List.map_id' _)
  simp only [files, opened]

namespace Session

variable {session : Session} {store : FileStore}

/-- No file of the file system is as long as the test's. -/
theorem Stores.fileRead_of_mem (stores : session.Stores store)
    (there : cutName testFileName ∈ store.files) (heap : Heap) :
    session.fileRead heap = .ok [.unableToRead] := by
  obtain ⟨held, freeMap, directory, stored⟩ := stores
  obtain ⟨bytes, found⟩ := Finmap.mem_iff.mp there
  obtain ⟨hdr, i, header, data, opening, located, contents, -, small⟩ :=
    stored.open_of_lookup found heap
  have maps : hdr.Maps session.system.disk data := located.maps
  have limit : maxFileSize = 3840 := by decide
  have short := readAll_of_short maps (Nat.zero_le _)
    (show _ < 0 + 10 * testRepetitions by rw [contents, testRepetitions]; omega)
    (by rwa [contents])
  rw [fileRead, opening, ok_bind]
  dsimp only
  rw [show (⟨hdr, 0⟩ : OpenFile) = ⟨hdr, BitVec.ofNat 32 0⟩ from rfl, short]
  rfl

/-- `PerformanceTest` removes its file and changes nothing else. -/
theorem Stores.performanceTest (stores : session.Stores store) (heaps : Nat → Heap)
    (memory : Nat → Memory) :
    SameOutcome (SameAnswers Session.Stores) (session.performanceTest heaps memory)
      (.ok store.performanceTest) := by
  have request : store.Proper (.request (.create testFileName 0 (heaps 0))) :=
    ⟨by decide, by decide⟩
  have removes (state : FileStore) :
      state.Proper (.request (.remove testFileName (heaps 3))) := trivial
  have zero : BitVec.toInt (0 : CInt) = 0 := by decide
  rw [FileStore.performanceTest]
  by_cases there : cutName testFileName ∈ store.files
  · have done : store.create testFileName 0 = (false, store) := by
      rw [FileStore.create, if_neg fun both => both.1 there]
    obtain ⟨system, created, middle⟩ := stores.creates request done
    have performed : store.perform (.remove testFileName (heaps 3)) =
        .ok (.done true, (store.remove testFileName).2) := by
      simp only [FileStore.perform, FileStore.remove, if_pos there]
    obtain ⟨next, removed, final⟩ := middle.performs (removes _) performed
    simp only [Session.performanceTest, fileWrite, created, ok_bind, Bool.false_eq_true,
      if_false, middle.fileRead_of_mem there, removed, if_pos there]
    exact .ok ⟨rfl, final⟩
  by_cases fits : store.Fits 0
  · have done : store.create testFileName 0 = (true, { store with
        files := store.files.insert (cutName testFileName) [] }) := by
      rw [FileStore.create, zero, if_pos ⟨there, fits⟩]
      rfl
    obtain ⟨system, created, middle⟩ := stores.creates request done
    have found := Finmap.lookup_insert (a := cutName testFileName) (b := ([] : List Byte))
      store.files
    have present := Finmap.mem_iff.mpr ⟨_, found⟩
    have others : ∀ opened ∈ store.opened, opened.name ≠ some (cutName testFileName) := by
      obtain ⟨held, freeMap, directory, stored⟩ := stores
      exact fun opened member named => there (stored.mem_of_opened member named)
    have performed := FileStore.remove_insert there others []
    have perform : FileStore.perform { store with
        files := store.files.insert (cutName testFileName) [] }
          (.remove testFileName (heaps 3)) = .ok (.done true, store) := by
      rw [FileStore.perform, performed]
    obtain ⟨next, removed, final⟩ := middle.performs (removes _) perform
    have reading := middle.fileRead_of_mem present (heaps 2)
    obtain ⟨held, freeMap, directory, stored⟩ := middle
    obtain ⟨hdr, i, header, data, opening, -, -, length, -⟩ :=
      stored.open_of_lookup found (heaps 1)
    have writing := writeAll_empty system.disk length memory
      (show 0 < testRepetitions by decide)
    simp only [Session.performanceTest, fileWrite, created, ok_bind, if_true, opening, writing,
      if_neg there, if_pos fits]
    rw [show setDisk _ _ = (⟨system, session.handles⟩ : Session) from rfl, reading, ok_bind,
      removed]
    exact .ok ⟨rfl, final⟩
  · have done : store.create testFileName 0 = (false, store) := by
      rw [FileStore.create, zero, if_neg fun both => fits both.2]
    obtain ⟨system, created, middle⟩ := stores.creates request done
    have performed : store.perform (.remove testFileName (heaps 3)) =
        .ok (.done false, store) := by
      simp only [FileStore.perform, FileStore.remove, if_neg there]
    obtain ⟨next, removed, final⟩ := middle.performs (removes _) performed
    obtain ⟨held, freeMap, directory, stored⟩ := middle
    simp only [Session.performanceTest, fileWrite, fileRead, created, ok_bind,
      Bool.false_eq_true, if_false, stored.open_of_absent there, removed, if_neg there, if_neg fits]
    exact .ok ⟨rfl, final⟩

end Session

/-- Every operation, new start or utility is what it is for the store. -/
theorem operate_refines (unix : CString → Option (List Byte)) {calls : Nat}
    (enough : maxFileSize < calls) (session : Session) (store : FileStore)
    (action : UtilityAction) (stores : session.Stores store)
    (proper : store.Utilizes unix action) :
    SameOutcome (SameAnswers Session.Stores) (session.operate unix calls action)
      (store.operate unix action) := by
  cases action with
  | file action =>
      have alike := act_refines session store action stores proper
      rw [Session.operate, FileStore.operate]
      generalize session.act action = result at alike ⊢
      generalize store.act action = other at alike ⊢
      cases alike with
      | ok same => exact .ok ⟨congrArg UtilityReply.file same.answers, same.relates⟩
      | error fault => exact .error fault
  | copy source target heaps memory =>
      have alike : SameOutcome (SameAnswers Session.Stores)
          (session.copy unix source target heaps memory) (.ok (store.copy unix source target)) :=
        stores.copy heaps memory proper
      rw [Session.operate]
      generalize session.copy unix source target heaps memory = result at alike ⊢
      cases alike with
      | ok same => exact .ok ⟨congrArg UtilityReply.printed same.answers, same.relates⟩
  | print name heap =>
      rw [Session.operate, stores.print enough]
      exact .ok ⟨rfl, stores⟩
  | performanceTest heaps memory =>
      have alike := stores.performanceTest heaps memory
      rw [Session.operate]
      generalize session.performanceTest heaps memory = result at alike ⊢
      cases alike with
      | ok same => exact .ok ⟨congrArg UtilityReply.printed same.answers, same.relates⟩

theorem FileStore.operate_completes (unix : CString → Option (List Byte)) (store : FileStore)
    (action : UtilityAction) (proper : store.Utilizes unix action) :
    ∃ result, store.operate unix action = .ok result := by
  cases action with
  | file action =>
      obtain ⟨result, done⟩ := store.act_completes action proper
      exact ⟨_, by rw [operate, done]; rfl⟩
  | copy | print | performanceTest => exact ⟨_, rfl⟩

/-- In every sequence of operations, new starts and utilities on a formatted disk, `Copy`
puts its file into the store, `Print` ends and shows what the store has, and
`PerformanceTest` gives up and leaves no file of its own. -/
theorem utilities_as_store (unix : CString → Option (List Byte)) (heap : Heap) (disk : Disk)
    {calls : Nat} (enough : maxFileSize < calls) (actions : List UtilityAction) :
    ∃ system, FileSystem.format heap disk = .ok system ∧
      (RunRequested (answering (FileStore.operate unix)) (fun state => state.2.Utilizes unix)
          ([], FileStore.empty) actions →
        ∃ replies session store,
          run (answering (Session.operate unix calls)) ([], ⟨system, []⟩) actions =
            .ok (replies, session) ∧
          run (answering (FileStore.operate unix)) ([], FileStore.empty) actions =
            .ok (replies, store) ∧
          Represents session.system.disk.files store.files) := by
  obtain ⟨system, formatted, answers⟩ :=
    formatted_run_refines (operate_refines unix enough) (FileStore.operate_completes unix) heap
      disk actions
  refine ⟨system, formatted, fun requested => ?_⟩
  obtain ⟨replies, session, store, done, specified, stores⟩ := answers requested
  exact ⟨replies, session, store, done, specified, stores.represents⟩

section Examples

/-- The only UNIX file has twelve bytes. -/
def oneUnixFile (name : CString) : Option (List Byte) :=
  if name = [117] then some [1, 2, 3, 4, 5, 6, 7, 8, 9, 10, 11, 12] else none

def utilityActions : List UtilityAction :=
  [.copy [117] [97] (fun _ => Heap.blank) fun _ _ => 0,
    .performanceTest (fun _ => Heap.blank) fun _ _ => 0,
    .file (.reboot Heap.blank), .print [97] Heap.blank, .print [98] Heap.blank]

theorem utilities_as_store_copied :
    ∃ system session, FileSystem.format Heap.blank Disk.blank = .ok system ∧
      run (answering (Session.operate oneUnixFile 4000)) ([], ⟨system, []⟩) utilityActions =
        .ok ([.printed [], .printed [.unableToWrite, .unableToRead], .file .moved,
          .printed [.contents [1, 2, 3, 4, 5, 6, 7, 8, 9, 10, 11, 12]],
          .printed [.noFile [98]]], session) := by
  obtain ⟨system, formatted, answers⟩ := utilities_as_store oneUnixFile Heap.blank Disk.blank
    (show maxFileSize < 4000 by decide) utilityActions
  have proper : RunRequested (answering (FileStore.operate oneUnixFile))
      (fun state => state.2.Utilizes oneUnixFile) ([], FileStore.empty) utilityActions := by
    decide +kernel
  obtain ⟨replies, session, store, done, stored, -⟩ := answers proper
  have told : (run (answering (FileStore.operate oneUnixFile)) ([], FileStore.empty)
      utilityActions).map Prod.fst = .ok [.printed [], .printed [.unableToWrite, .unableToRead],
        .file .moved, .printed [.contents [1, 2, 3, 4, 5, 6, 7, 8, 9, 10, 11, 12]],
        .printed [.noFile [98]]] := by decide +kernel
  rw [stored] at told
  obtain rfl := Except.ok.inj told
  exact ⟨system, session, formatted, done⟩

end Examples

end Nachos
