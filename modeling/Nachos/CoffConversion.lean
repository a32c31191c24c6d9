import Nachos.AddrSpace

/-!
# Conversion of COFF files

`coff2noff` reads the headers of a COFF file, copies its sections one after the
other into a NOFF file and records where they are in the NOFF header, which it
writes last.  It has one segment of the header for all sections of a kind.
-/

namespace Nachos

open LittleEndianWords ByteStore TransitionRuns

/-- The ways in which `coff2noff` gives up.  It prints a message, removes the NOFF
file and exits. -/
inductive ConversionError
  | fileTooShort
  | unableToWrite
  | notMipsel
  | notOmagic
  | dataAndRdata
  | bssAndSbss
  | unknownSegment (name : List Byte)
  deriving DecidableEq, Repr

/-- What the `if` statements of the loop distinguish. -/
inductive SectionKind
  | empty
  | text
  | data
  | bss
  | unknown
  deriving DecidableEq, Repr

/-- The fields of a `struct scnhdr` that `coff2noff` reads. -/
structure SectionHeader where
  sName : List Byte
  sPaddr : CInt
  sSize : CInt
  sScnptr : CInt
  deriving DecidableEq, Repr

namespace SectionHeader

/-- `sizeof(struct scnhdr)`. -/
def bytes : Nat := 40

def ofBytes (data : List Byte) : SectionHeader where
  sName := data.take 8
  sPaddr := wordAt data 8
  sSize := wordAt data 16
  sScnptr := wordAt data 20

/-- `!strcmp(s_name, name)`, for a name that is shorter than the field. -/
def isNamed (sectionHeader : SectionHeader) (name : List Char) : Bool :=
  sectionHeader.sName.takeWhile (· != 0) == name.map fun c => UInt8.ofNat c.toNat

def kind (sectionHeader : SectionHeader) : SectionKind :=
  if sectionHeader.sSize = 0 then .empty
  else if sectionHeader.isNamed ['.', 't', 'e', 'x', 't'] then .text
  else if sectionHeader.isNamed ['.', 'd', 'a', 't', 'a'] ||
      sectionHeader.isNamed ['.', 'r', 'd', 'a', 't', 'a'] then .data
  else if sectionHeader.isNamed ['.', 'b', 's', 's'] ||
      sectionHeader.isNamed ['.', 's', 'b', 's', 's'] then .bss
  else .unknown

end SectionHeader

namespace NoffHeader

def words (noffH : NoffHeader) : List CInt :=
  [noffH.noffMagic, noffH.code.virtualAddr, noffH.code.inFileAddr, noffH.code.size,
    noffH.initData.virtualAddr, noffH.initData.inFileAddr, noffH.initData.size,
    noffH.uninitData.virtualAddr, noffH.uninitData.inFileAddr, noffH.uninitData.size]

/-- The bytes of the header in the memory of a little endian host. -/
def toBytes (noffH : NoffHeader) : List Byte :=
  encodeWords noffH.words

theorem length_toBytes (noffH : NoffHeader) : noffH.toBytes.length = bytes := by
  rw [toBytes, length_encodeWords]
  rfl

/-- A header that was written is read back unchanged. -/
theorem ofBytes_toBytes (noffH : NoffHeader) : ofBytes noffH.toBytes = noffH := by
  have word : ∀ index value, noffH.words[index]? = some value →
      wordAt noffH.toBytes (4 * index) = value := by
    intro index value present
    have read := wordAt_encodeWords present []
    rwa [List.append_nil] at read
  unfold ofBytes segmentAt
  rw [word 0 _ rfl, word 1 _ rfl, word 2 _ rfl, word 3 _ rfl, word 4 _ rfl, word 5 _ rfl,
    word 6 _ rfl, word 7 _ rfl, word 8 _ rfl, word 9 _ rfl]

end NoffHeader

namespace Coff2noff

def mipselMagic : Nat := 0x0162

def oMagic : Nat := 0o407

/-- `sizeof(struct filehdr)`. -/
def filehdrBytes : Nat := 20

/-- `sizeof(struct aouthdr)`. -/
def aouthdrBytes : Nat := 56

/-- The last position in a file of the host, whose `off_t` has 32 bits. -/
def maxFileSize : Nat := 2 ^ 31 - 1

/-- The unsigned short at an offset. -/
def shortAt (data : List Byte) (offset : Nat) : Nat :=
  (data.getD offset 0).toNat + 2 ^ 8 * (data.getD (offset + 1) 0).toNat

/-- `Read`, from a position of the file, which moves.  The system call returns -1 for
a negative count. -/
def read (file : UnixFile) (position : Nat) (nBytes : Int) :
    Except ConversionError (List Byte × Nat) :=
  let buffer := ByteStore.File.read file position nBytes.toNat
  let result : Int := if nBytes < 0 then -1 else buffer.length
  if result ≠ nBytes then .error .fileTooShort
  else .ok (buffer, position + buffer.length)

/-- `Write`, at a position of the file, which moves. -/
def write (file : UnixFile) (position : Nat) (buffer : List Byte) (nBytes : Int) :
    Except ConversionError (UnixFile × Nat) :=
  let result : Int := if nBytes < 0 then -1 else min nBytes (maxFileSize - position)
  if result ≠ nBytes then .error .unableToWrite
  else .ok (ByteStore.File.write file 0 position buffer, position + nBytes.toNat)

/-- The file header, the system header and the section headers.  The position is behind
them. -/
def readHeaders (coff : UnixFile) : Except ConversionError (List SectionHeader × Nat) := do
  let (fileh, position) ← read coff 0 filehdrBytes
  if shortAt fileh 0 ≠ mipselMagic then .error .notMipsel
  else do
    let (systemh, position) ← read coff position aouthdrBytes
    if shortAt systemh 0 ≠ oMagic then .error .notOmagic
    else do
      let numsections := shortAt fileh 2
      let (sections, position) ← read coff position (numsections * SectionHeader.bytes : Nat)
      return ((List.range numsections).map fun i =>
        SectionHeader.ofBytes (sections.drop (SectionHeader.bytes * i)), position)

/-- The variables of the loop over the sections, and both files with the positions of
their descriptors. -/
structure Conversion where
  noffH : NoffHeader
  inNoffFile : CInt
  coffPosition : Nat
  noff : UnixFile
  noffPosition : Nat

/-- Before the loop.  The fields of the header that are not assigned have any values. -/
def start (uninitialized : NoffHeader) (position : Nat) : Conversion where
  noffH := {
    noffMagic := Nachos.noffMagic
    code := { uninitialized.code with size := 0 }
    initData := { uninitialized.initData with size := 0 }
    uninitData := { uninitialized.uninitData with size := 0 } }
  inNoffFile := BitVec.ofNat 32 NoffHeader.bytes
  coffPosition := position
  noff := ⟨fun _ => 0, 0⟩
  noffPosition := NoffHeader.bytes

namespace Conversion

/-- `lseek(fdIn, s_scnptr, 0)`, which leaves the position alone when it fails. -/
def seekSection (s : Conversion) (sectionHeader : SectionHeader) : Nat :=
  if 0 ≤ sectionHeader.sScnptr.toInt then sectionHeader.sScnptr.toInt.toNat
  else s.coffPosition

/-- Copy the raw data of a section to the end of the NOFF file. -/
def copyData (coff : UnixFile) (s : Conversion) (sectionHeader : SectionHeader) :
    Except ConversionError Conversion := do
  let (buffer, coffPosition) ← read coff (s.seekSection sectionHeader) sectionHeader.sSize.toInt
  let (noff, noffPosition) ← write s.noff s.noffPosition buffer sectionHeader.sSize.toInt
  return { s with
    inNoffFile := s.inNoffFile + sectionHeader.sSize
    coffPosition := coffPosition
    noff := noff
    noffPosition := noffPosition }

/-- The body of the loop over the sections. -/
def loadSection (coff : UnixFile) (s : Conversion) (sectionHeader : SectionHeader) :
    Except ConversionError Conversion :=
  let copied : Segment := ⟨sectionHeader.sPaddr, s.inNoffFile, sectionHeader.sSize⟩
  match sectionHeader.kind with
  | .empty => .ok s
  | .text => copyData coff { s with noffH := { s.noffH with code := copied } } sectionHeader
  | .data =>
      if s.noffH.initData.size ≠ 0 then .error .dataAndRdata
      else copyData coff { s with noffH := { s.noffH with initData := copied } } sectionHeader
  | .bss =>
      if s.noffH.uninitData.size ≠ 0 then
        if sectionHeader.sPaddr = s.noffH.uninitData.virtualAddr + s.noffH.uninitData.size then
          .error .bssAndSbss
        else .ok { s with noffH := { s.noffH with uninitData := { s.noffH.uninitData with
          size := s.noffH.uninitData.size + sectionHeader.sSize } } }
      else .ok { s with noffH := { s.noffH with uninitData := { s.noffH.uninitData with
        virtualAddr := sectionHeader.sPaddr
        size := sectionHeader.sSize } } }
  | .unknown => .error (.unknownSegment (sectionHeader.sName.takeWhile (· != 0)))

/-- The NOFF header is written in front of the segments. -/
def finish (s : Conversion) : Except ConversionError UnixFile :=
  (write s.noff 0 s.noffH.toBytes NoffHeader.bytes).map Prod.fst

end Conversion

/-- `main`: the NOFF file made from a COFF file. -/
def coff2noff (uninitialized : NoffHeader) (coff : UnixFile) :
    Except ConversionError UnixFile := do
  let (sections, position) ← readHeaders coff
  let s ← run (Conversion.loadSection coff) (start uninitialized position) sections
  s.finish

end Coff2noff

end Nachos
