/-
Module: AndroidArt.Runtime.ElfFile
Purpose: runtime/elf_file.cc for `ElfFileImpl<ElfTypes32>` over a whole file
  (`program_header_only_` false): `Setup` with the header checks of `SetMap`, `CheckAndSet`,
  `GetProgramHeader`, `FindProgamHeaderByType`, `GetSectionHeader`, `FindSectionByType`,
  `GetString(Elf_Shdr&, i)`, the section loop of `Setup` with its `strncmp` of section names, and
  `CheckSectionsExist` with `CheckSectionsLinked`.
Trusted boundary: the ELF32 layouts and the constants of <elf.h>; a little-endian host, as
  `SetMap` requires `ELFDATA2LSB`; `File::GetLength` and `MemMap::MapFile` succeed and map the
  file's bytes. Error messages are the check that failed with the values the message prints.
  `strncmp` reads the bytes it compares one by one and stops at the first difference or NUL.
Main exports: ElfFileImpl, Fault, setup, getSectionHeader
-/
import AndroidArt.Lib.LittleEndian

namespace AndroidArt.Runtime

namespace ElfFile

open AndroidArt.Lib LittleEndian

/-! ### ELF32 layouts and constants -/

/-- A field of an ELF32 structure: its offset in the structure and its width. -/
structure Field where
  offset : Nat
  width : Nat

/-- `sizeof(Elf32_Ehdr)`. -/
def sizeofEhdr : Nat := 52

/-- Byte `index` of `e_ident`. -/
def e_ident (index : Nat) : Field := ⟨index, 1⟩
def e_type : Field := ⟨16, 2⟩
def e_version : Field := ⟨20, 4⟩
def e_entry : Field := ⟨24, 4⟩
def e_phoff : Field := ⟨28, 4⟩
def e_shoff : Field := ⟨32, 4⟩
def e_ehsize : Field := ⟨40, 2⟩
def e_phentsize : Field := ⟨42, 2⟩
def e_phnum : Field := ⟨44, 2⟩
def e_shentsize : Field := ⟨46, 2⟩
def e_shnum : Field := ⟨48, 2⟩
def e_shstrndx : Field := ⟨50, 2⟩

def p_type : Field := ⟨0, 4⟩
def p_offset : Field := ⟨4, 4⟩

def sh_name : Field := ⟨0, 4⟩
def sh_type : Field := ⟨4, 4⟩
def sh_flags : Field := ⟨8, 4⟩
def sh_offset : Field := ⟨16, 4⟩
def sh_size : Field := ⟨20, 4⟩
def sh_link : Field := ⟨24, 4⟩

def EI_CLASS : Nat := 4
def EI_DATA : Nat := 5
def EI_VERSION : Nat := 6
/-- `ELFMAG0` to `ELFMAG3`: `0x7f 'E' 'L' 'F'`. -/
def ELFMAG : List Nat := [0x7f, 0x45, 0x4c, 0x46]
def ELFCLASS32 : Nat := 1
def ELFDATA2LSB : Nat := 1
def EV_CURRENT : Nat := 1
def ET_DYN : Nat := 3
def PT_DYNAMIC : Nat := 2
def SHT_SYMTAB : Nat := 2
def SHT_STRTAB : Nat := 3
def SHT_HASH : Nat := 5
def SHT_DYNAMIC : Nat := 6
def SHT_DYNSYM : Nat := 11
def SHF_ALLOC : Nat := 2

/-- A C string literal: its characters, then its NUL. -/
def cString (s : String) : List UInt8 := s.toList.map (fun c => UInt8.ofNat c.toNat) ++ [0]

theorem cString_ne_nil (s : String) : cString s ≠ [] := by
  simp [cString]

/-! ### The object -/

/-- The pointers `CheckAndSet` may set, with the label its message gives each. -/
inductive Section where
  | programHeaders
  | sectionHeaders
  | dynamicSection
  | symtab
  | dynsym
  | strtab
  | dynstr
  | hash
deriving Repr, DecidableEq

def Section.label : Section → String
  | .programHeaders => "program headers"
  | .sectionHeaders => "section headers"
  | .dynamicSection => "dynamic section"
  | .symtab => "symtab"
  | .dynsym => "dynsym"
  | .strtab => "strtab"
  | .dynstr => "dynstr"
  | .hash => "hash section"

/-- `ElfFileImpl` in whole-file mode: the mapped bytes and the pointers into them, each an
offset below the file's length or null. -/
structure ElfFileImpl where
  file : List UInt8
  programHeadersStart : Option (Fin file.length)
  sectionHeadersStart : Option (Fin file.length)
  dynamicProgramHeader : Option Nat
  dynamicSectionStart : Option (Fin file.length)
  symtabSectionStart : Option (Fin file.length)
  dynsymSectionStart : Option (Fin file.length)
  strtabSectionStart : Option (Fin file.length)
  dynstrSectionStart : Option (Fin file.length)
  hashSectionStart : Option (Fin file.length)
deriving DecidableEq

namespace ElfFileImpl

/-- The object for `file` before `Setup`: every pointer null. -/
def init (file : List UInt8) : ElfFileImpl :=
  ⟨file, none, none, none, none, none, none, none, none, none⟩

/-- The pointer `CheckAndSet` sets for a section. -/
def setStart (e : ElfFileImpl) : Section → Fin e.file.length → ElfFileImpl
  | .programHeaders, p => { e with programHeadersStart := some p }
  | .sectionHeaders, p => { e with sectionHeadersStart := some p }
  | .dynamicSection, p => { e with dynamicSectionStart := some p }
  | .symtab, p => { e with symtabSectionStart := some p }
  | .dynsym, p => { e with dynsymSectionStart := some p }
  | .strtab, p => { e with strtabSectionStart := some p }
  | .dynstr, p => { e with dynstrSectionStart := some p }
  | .hash, p => { e with hashSectionStart := some p }

@[simp] theorem file_setStart (e : ElfFileImpl) (s : Section) (p : Fin e.file.length) :
    (e.setStart s p).file = e.file := by
  cases s <;> rfl

end ElfFileImpl

/-- How a run ends other than by returning: a load past `End()`, a load through a null
pointer, or a failed `CHECK`. -/
inductive Fault where
  | outOfBounds (address width : Nat)
  | nullDereference
  | checkFailed
deriving Repr, DecidableEq

/-- Why `Setup` returns false: the check that failed, with the values its message prints. -/
inductive ElfError where
  | fileTooSmall (fileLength : Nat)
  | badMagic (found : List Nat)
  | badIdent (index : Nat)
  | badHeaderField (field : String)
  | zeroHeaderField (field : String)
  | shstrndxNotLessThanShnum
  | headerOffsetNotLessThanSize (field : String)
  | offsetOutOfRange (offset : Nat) (label : String)
  | noShstrtab
  | noDynamicProgramHeader
  | noSectionHeader (index : Nat)
  | dynamicSectionMismatch
  | noSectionHeaders
  | noDynamicSection
  | noStrtabForSymtab
  | symtabNotLinkedToStrtab
  | noDynstr
  | noDynsym
  | noHashSection
  | hashNotLinkedToDynsym
deriving Repr, DecidableEq

/-- A computation of the object, which may fault. -/
abbrev ElfM := StateT ElfFileImpl (Except Fault)

@[simp] theorem except_pure {α : Type} (a : α) : (pure a : Except Fault α) = .ok a := rfl
@[simp] theorem except_throw {α : Type} (fault : Fault) :
    (throw fault : Except Fault α) = .error fault := rfl
@[simp] theorem except_ok_bind {α β : Type} (a : α) (f : α → Except Fault β) :
    (Except.ok a >>= f) = f a := rfl
@[simp] theorem except_error_bind {α β : Type} (fault : Fault) (f : α → Except Fault β) :
    (Except.error fault >>= f) = Except.error fault := rfl

/-! ### Loads -/

/-- A little-endian load of `width` bytes at `address`. -/
def load (address width : Nat) : ElfM Nat := do
  let file := (← get).file
  if address + width > file.length then throw (.outOfBounds address width)
  return LittleEndian.ofBytes ((file.drop address).take width)

/-- A field of the structure that `base` points at. -/
def loadField (base : Nat) (field : Field) : ElfM Nat := load (base + field.offset) field.width

/-- A field of `GetHeader()`, at `Begin()`. -/
def headerField (field : Field) : ElfM Nat := loadField 0 field

/-- A load fails exactly when it ends past the mapping, and leaves the object alone. -/
theorem run_load (address width : Nat) (e : ElfFileImpl) :
    (load address width).run e =
      if address + width > e.file.length then .error (.outOfBounds address width)
      else .ok (LittleEndian.ofBytes ((e.file.drop address).take width), e) := by
  unfold load
  by_cases h : address + width > e.file.length
  · simp [h]
  · simp [h]

/-- The value of a field of `GetHeader()`. -/
def ElfFileImpl.header (e : ElfFileImpl) (field : Field) : Nat :=
  LittleEndian.ofBytes ((e.file.drop field.offset).take field.width)

/-- Once the file holds a whole `Elf32_Ehdr`, its fields read without fault. -/
theorem run_headerField {field : Field} {e : ElfFileImpl} (hsize : sizeofEhdr ≤ e.file.length)
    (hfield : field.offset + field.width ≤ sizeofEhdr) :
    (headerField field).run e = .ok (e.header field, e) := by
  rw [headerField, loadField, run_load, if_neg (by omega), Nat.zero_add]
  rfl

/-! ### Headers -/

/-- `CheckAndSet(offset, label, &target, error_msg)`: only the start of the section is
tested. -/
def checkAndSet (offset : Nat) (target : Section) : ElfM (Option ElfError) := do
  let e ← get
  if h : offset < e.file.length then
    set (e.setStart target ⟨offset, h⟩)
    return none
  else return some (.offsetOutOfRange offset target.label)

def getProgramHeaderNum : ElfM Nat := headerField e_phnum

/-- `GetProgramHeader(i)`: `CHECK`s the index, and that the header starts before `End()`. -/
def getProgramHeader (i : Nat) : ElfM Nat := do
  if i < (← getProgramHeaderNum) then
    match (← get).programHeadersStart with
    | none => throw .checkFailed
    | some start =>
      let programHeader := start.val + i * (← headerField e_phentsize)
      if programHeader < (← get).file.length then return programHeader
      else throw .checkFailed
  else throw .checkFailed

theorem run_getProgramHeader {i : Nat} {e : ElfFileImpl} (hsize : sizeofEhdr ≤ e.file.length) :
    (getProgramHeader i).run e =
      if i < e.header e_phnum then
        match e.programHeadersStart with
        | none => .error .checkFailed
        | some start =>
          if start.val + i * e.header e_phentsize < e.file.length then
            .ok (start.val + i * e.header e_phentsize, e)
          else .error .checkFailed
      else .error .checkFailed := by
  have hnum := run_headerField hsize (show e_phnum.offset + e_phnum.width ≤ sizeofEhdr by decide)
  have hent :=
    run_headerField hsize (show e_phentsize.offset + e_phentsize.width ≤ sizeofEhdr by decide)
  unfold getProgramHeader getProgramHeaderNum
  simp only [StateT.run_bind, hnum, except_ok_bind]
  split_ifs with hi
  · simp only [StateT.run_bind, StateT.run_get, except_pure, except_ok_bind]
    cases e.programHeadersStart with
    | none => simp
    | some start =>
      simp only [StateT.run_bind, hent, except_ok_bind, StateT.run_get, except_pure]
      split_ifs <;> simp
  · simp

/-- The loop of `FindProgamHeaderByType(type)` over the program header indices. -/
def findProgamHeaderByTypeFrom (type : Nat) : List Nat → ElfM (Option Nat)
  | [] => pure none
  | i :: indices => do
    let programHeader ← getProgramHeader i
    if (← loadField programHeader p_type) = type then return some programHeader
    findProgamHeaderByTypeFrom type indices

/-- `FindProgamHeaderByType(type)`. -/
def findProgamHeaderByType (type : Nat) : ElfM (Option Nat) := do
  findProgamHeaderByTypeFrom type (List.range (← getProgramHeaderNum))

/-- `GetProgramHeader` tests only where a header starts: when the program headers start fewer
than four bytes before `End()`, `FindProgamHeaderByType` reads the first header's `p_type`
past the mapping, whatever type it looks for. -/
theorem findProgamHeaderByType_reads_past_end (type : Nat) {e : ElfFileImpl}
    {start : Fin e.file.length} (hsize : sizeofEhdr ≤ e.file.length)
    (hnum : 0 < e.header e_phnum) (hstart : e.programHeadersStart = some start)
    (hshort : e.file.length < start.val + p_type.width) :
    (findProgamHeaderByType type).run e = .error (.outOfBounds start.val p_type.width) := by
  obtain ⟨n, hn⟩ := Nat.exists_eq_add_one_of_ne_zero (Nat.pos_iff_ne_zero.mp hnum)
  -- the first header is the start itself, which `GetProgramHeader` accepts
  have hfirst : (getProgramHeader 0).run e = .ok (start.val, e) := by
    rw [run_getProgramHeader hsize, if_pos hnum, hstart]
    simp
  have htype : (loadField start.val p_type).run e =
      .error (.outOfBounds start.val p_type.width) := by
    rw [loadField, run_load, if_pos (by simpa [p_type] using hshort)]
    rfl
  unfold findProgamHeaderByType getProgramHeaderNum
  simp only [StateT.run_bind, run_headerField hsize (show e_phnum.offset + e_phnum.width ≤
    sizeofEhdr by decide), except_ok_bind, hn, List.range_succ_eq_map,
    findProgamHeaderByTypeFrom, hfirst, htype, except_error_bind]

def getSectionHeaderNum : ElfM Nat := headerField e_shnum

/-- `GetSectionHeader(i)`: null for an index out of range or a header that starts at or past
`End()`. -/
def getSectionHeader (i : Nat) : ElfM (Option Nat) := do
  if i ≥ (← getSectionHeaderNum) then return none
  let some start := (← get).sectionHeadersStart | throw .checkFailed
  let sectionHeader := start.val + i * (← headerField e_shentsize)
  if sectionHeader ≥ (← get).file.length then return none
  return some sectionHeader

/-- The loop of `FindSectionByType(type)`, which does not test `GetSectionHeader` for null. -/
def findSectionByTypeFrom (type : Nat) : List Nat → ElfM (Option Nat)
  | [] => pure none
  | i :: indices => do
    let some sectionHeader ← getSectionHeader i | throw .nullDereference
    if (← loadField sectionHeader sh_type) = type then return some sectionHeader
    findSectionByTypeFrom type indices

/-- `FindSectionByType(type)`. -/
def findSectionByType (type : Nat) : ElfM (Option Nat) := do
  findSectionByTypeFrom type (List.range (← getSectionHeaderNum))

/-- `GetString(string_section, i)`: the address of string `i` of the string table whose header
`stringSection` points at, or null; only the start of the string is tested. -/
def getString (stringSection i : Nat) : ElfM (Option Nat) := do
  if SHT_STRTAB ≠ (← loadField stringSection sh_type) then return none
  if i ≥ (← loadField stringSection sh_size) then return none
  if i = 0 then return none
  let string := (← loadField stringSection sh_offset) + i
  if string ≥ (← get).file.length then return none
  return some string

theorem run_getString_of_not_strtab {stringSection i type : Nat} {e : ElfFileImpl}
    (htype : (loadField stringSection sh_type).run e = .ok (type, e)) (hne : type ≠ SHT_STRTAB) :
    (getString stringSection i).run e = .ok (none, e) := by
  unfold getString
  simp only [StateT.run_bind, htype, except_ok_bind, if_pos (Ne.symm hne)]
  rfl

/-- `strncmp(expected, name, n) == 0` with `expected` given with its NUL: the bytes of `name`
are read one by one until one differs, both strings end, or `n` are equal. -/
def strncmpEq : List UInt8 → Option Nat → Nat → ElfM Bool
  | _, _, 0 => pure true
  | [], _, _ + 1 => pure true
  | _ :: _, none, _ + 1 => throw .nullDereference
  | c :: expected, some name, n + 1 => do
    let byte ← load name 1
    if byte ≠ c.toNat then return false
    if byte = 0 then return true
    strncmpEq expected (some (name + 1)) n

/-- `strncmp` of a name against a null pointer dereferences it. -/
theorem run_strncmpEq_null {expected : List UInt8} {n : Nat} (e : ElfFileImpl)
    (hexpected : expected ≠ []) (hn : 0 < n) :
    (strncmpEq expected none n).run e = .error .nullDereference := by
  obtain ⟨c, cs, rfl⟩ := List.exists_cons_of_ne_nil hexpected
  obtain ⟨m, rfl⟩ := Nat.exists_eq_add_of_lt hn
  rfl

/-! ### Setup -/

/-- The header checks of `SetMap`. -/
def checkHeader : ElfM (Option ElfError) := do
  let magic ← [0, 1, 2, 3].mapM fun index => headerField (e_ident index)
  if magic ≠ ELFMAG then return some (.badMagic magic)
  if (← headerField (e_ident EI_CLASS)) ≠ ELFCLASS32 then return some (.badIdent EI_CLASS)
  if (← headerField (e_ident EI_DATA)) ≠ ELFDATA2LSB then return some (.badIdent EI_DATA)
  if (← headerField (e_ident EI_VERSION)) ≠ EV_CURRENT then return some (.badIdent EI_VERSION)
  if (← headerField e_type) ≠ ET_DYN then return some (.badHeaderField "e_type")
  if (← headerField e_version) ≠ EV_CURRENT then return some (.badHeaderField "e_version")
  if (← headerField e_entry) ≠ 0 then return some (.badHeaderField "e_entry")
  if (← headerField e_phoff) = 0 then return some (.zeroHeaderField "e_phoff")
  if (← headerField e_shoff) = 0 then return some (.zeroHeaderField "e_shoff")
  if (← headerField e_ehsize) = 0 then return some (.zeroHeaderField "e_ehsize")
  if (← headerField e_phentsize) = 0 then return some (.zeroHeaderField "e_phentsize")
  if (← headerField e_phnum) = 0 then return some (.zeroHeaderField "e_phnum")
  if (← headerField e_shentsize) = 0 then return some (.zeroHeaderField "e_shentsize")
  if (← headerField e_shnum) = 0 then return some (.zeroHeaderField "e_shnum")
  if (← headerField e_shstrndx) = 0 then return some (.zeroHeaderField "e_shstrndx")
  if (← headerField e_shstrndx) ≥ (← headerField e_shnum) then
    return some .shstrndxNotLessThanShnum
  let size := (← get).file.length
  if (← headerField e_phoff) ≥ size then return some (.headerOffsetNotLessThanSize "e_phoff")
  if (← headerField e_shoff) ≥ size then return some (.headerOffsetNotLessThanSize "e_shoff")
  return none

/-- A string table of `Setup`'s loop, kept only when its name is `name`. -/
def setupNamedStringTable (shstrtab sectionHeader : Nat) (name : String) (target : Section) :
    ElfM (Option ElfError) := do
  let headerName ← getString shstrtab (← loadField sectionHeader sh_name)
  if ← strncmpEq (cString name) headerName 8 then
    checkAndSet (← loadField sectionHeader sh_offset) target
  else return none

/-- `Setup` hands `GetString`'s result to `strncmp` untested: a string table whose name
`GetString` cannot find makes the loop dereference null. -/
theorem setupNamedStringTable_null_name {shstrtab sectionHeader nameIndex : Nat} (name : String)
    (target : Section) {e : ElfFileImpl}
    (hname : (loadField sectionHeader sh_name).run e = .ok (nameIndex, e))
    (hnull : (getString shstrtab nameIndex).run e = .ok (none, e)) :
    (setupNamedStringTable shstrtab sectionHeader name target).run e =
      .error .nullDereference := by
  unfold setupNamedStringTable
  simp only [StateT.run_bind, hname, hnull, except_ok_bind,
    run_strncmpEq_null e (cString_ne_nil name) (by decide : 0 < 8), except_error_bind]

/-- One pass of the section loop of `Setup`. -/
def setupSection (shstrtab i : Nat) : ElfM (Option ElfError) := do
  let some sectionHeader ← getSectionHeader i | return some (.noSectionHeader i)
  let type ← loadField sectionHeader sh_type
  if type = SHT_SYMTAB then checkAndSet (← loadField sectionHeader sh_offset) .symtab
  else if type = SHT_DYNSYM then checkAndSet (← loadField sectionHeader sh_offset) .dynsym
  else if type = SHT_STRTAB then
    if (← loadField sectionHeader sh_flags) &&& SHF_ALLOC ≠ 0 then
      setupNamedStringTable shstrtab sectionHeader ".dynstr" .dynstr
    else setupNamedStringTable shstrtab sectionHeader ".strtab" .strtab
  else if type = SHT_DYNAMIC then
    -- `LOG(WARNING)` and return false when the section is not the `PT_DYNAMIC` one
    let sectionOffset ← loadField sectionHeader sh_offset
    if (← get).dynamicSectionStart.map Fin.val ≠ some sectionOffset then
      return some .dynamicSectionMismatch
    return none
  else if type = SHT_HASH then checkAndSet (← loadField sectionHeader sh_offset) .hash
  else return none

/-- The section loop of `Setup`. -/
def setupSections (shstrtab : Nat) : List Nat → ElfM (Option ElfError)
  | [] => pure none
  | i :: indices => do
    if let some error ← setupSection shstrtab i then return some error
    setupSections shstrtab indices

/-- The loop of `CheckSectionsLinked(source, target)`: the header of the section at `source`,
and the index of the section at `target` with whether one was found. -/
def checkSectionsLinkedFrom (source target : Nat) :
    List Nat → Option Nat → Nat → Bool → ElfM (Option Nat × Nat × Bool)
  | [], sourceSection, targetIndex, targetFound => pure (sourceSection, targetIndex, targetFound)
  | i :: indices, sourceSection, targetIndex, targetFound => do
    let some sectionHeader ← getSectionHeader i | throw .nullDereference
    let offset ← loadField sectionHeader sh_offset
    if offset = source then
      if targetIndex ≠ 0 then return (some sectionHeader, targetIndex, targetFound)
      checkSectionsLinkedFrom source target indices (some sectionHeader) targetIndex targetFound
    else if offset = target then
      if sourceSection.isSome then return (sourceSection, i, true)
      checkSectionsLinkedFrom source target indices sourceSection i true
    else checkSectionsLinkedFrom source target indices sourceSection targetIndex targetFound

/-- `CheckSectionsLinked(source, target)`: the section at `source` links to the one at
`target`. -/
def checkSectionsLinked (source target : Nat) : ElfM Bool := do
  let (sourceSection, targetIndex, targetFound) ←
    checkSectionsLinkedFrom source target (List.range (← getSectionHeaderNum)) none 0 false
  if !targetFound then return false
  let some sourceSection := sourceSection | return false
  return (← loadField sourceSection sh_link) = targetIndex

/-- `CheckSectionsExist(file, error_msg)` in whole-file mode. -/
def checkSectionsExist : ElfM (Option ElfError) := do
  let e ← get
  if e.sectionHeadersStart.isNone then return some .noSectionHeaders
  if e.dynamicProgramHeader.isNone then return some .noDynamicProgramHeader
  if e.dynamicSectionStart.isNone then return some .noDynamicSection
  if let some symtab := e.symtabSectionStart then
    let some strtab := e.strtabSectionStart | return some .noStrtabForSymtab
    if !(← checkSectionsLinked symtab strtab) then return some .symtabNotLinkedToStrtab
  if e.dynstrSectionStart.isNone then return some .noDynstr
  let some dynsym := e.dynsymSectionStart | return some .noDynsym
  let some hash := e.hashSectionStart | return some .noHashSection
  if !(← checkSectionsLinked hash dynsym) then return some .hashNotLinkedToDynsym
  return none

/-- `Setup(file, prot, flags, low_4gb, error_msg)` with `program_header_only_` false: `none`
when it returns true. -/
def setup : ElfM (Option ElfError) := do
  let fileLength := (← get).file.length
  if fileLength < sizeofEhdr then return some (.fileTooSmall fileLength)
  if let some error ← checkHeader then return some error
  if let some error ← checkAndSet (← headerField e_phoff) .programHeaders then return some error
  if let some error ← checkAndSet (← headerField e_shoff) .sectionHeaders then return some error
  -- `GetSectionNameStringSection()`
  let some shstrtab ← getSectionHeader (← headerField e_shstrndx) | return some .noShstrtab
  let some dynamicProgramHeader ← findProgamHeaderByType PT_DYNAMIC
    | return some .noDynamicProgramHeader
  modify fun e => { e with dynamicProgramHeader := some dynamicProgramHeader }
  if let some error ← checkAndSet (← loadField dynamicProgramHeader p_offset) .dynamicSection then
    return some error
  if let some error ← setupSections shstrtab (List.range (← getSectionHeaderNum)) then
    return some error
  checkSectionsExist

/-- `e_ident` of an ELF32 little-endian file of the current version. -/
def elfIdent : List UInt8 := [0x7f, 0x45, 0x4c, 0x46, 1, 1, 1, 0, 0, 0, 0, 0, 0, 0, 0, 0]

/-- A header that passes `SetMap` with `e_phoff` at the last byte of a 56-byte file. -/
def programHeaderPastEnd : List UInt8 :=
  elfIdent ++ toBytes 2 ET_DYN ++ toBytes 2 0 ++ toBytes 4 EV_CURRENT ++ toBytes 4 0 ++
    toBytes 4 55 ++ toBytes 4 52 ++ toBytes 4 0 ++ toBytes 2 52 ++ toBytes 2 32 ++ toBytes 2 1 ++
    toBytes 2 1 ++ toBytes 2 2 ++ toBytes 2 1 ++ [0, 0, 0, 0]

/-- A file whose only string table is named by string 0 of a name table that is not one. -/
def unnamedStringTable : List UInt8 :=
  elfIdent ++ toBytes 2 ET_DYN ++ toBytes 2 0 ++ toBytes 4 EV_CURRENT ++ toBytes 4 0 ++
    toBytes 4 52 ++ toBytes 4 84 ++ toBytes 4 0 ++ toBytes 2 52 ++ toBytes 2 32 ++ toBytes 2 1 ++
    toBytes 2 40 ++ toBytes 2 2 ++ toBytes 2 1 ++
    -- the `PT_DYNAMIC` program header, at 52
    toBytes 4 PT_DYNAMIC ++ List.replicate 28 0 ++
    -- section 0, at 84: an unallocated `SHT_STRTAB`
    toBytes 4 0 ++ toBytes 4 SHT_STRTAB ++ List.replicate 32 0 ++
    -- section 1, at 124, the section name table, of type `SHT_NULL`
    List.replicate 40 0

theorem setup_faults_on_malformed_files :
    programHeaderPastEnd.length = 56 ∧
      setup.run (ElfFileImpl.init programHeaderPastEnd) = .error (.outOfBounds 55 4) ∧
      unnamedStringTable.length = 164 ∧
      setup.run (ElfFileImpl.init unnamedStringTable) = .error .nullDereference :=
  ⟨by decide, by decide, by decide +kernel, by decide +kernel⟩

end ElfFile

end AndroidArt.Runtime
