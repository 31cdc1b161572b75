import PstackElf.Defs.Reader

/-! The ELF64 records the object model reads, each with the fields some
modelled function uses, decoded from its little-endian bytes at the offsets
of the System V ABI, and the constants the code names. -/

namespace PstackElf

def PT_LOAD : Word := 1
def PT_INTERP : Word := 3
def PT_NOTE : Word := 4

def SHT_NULL : Word := 0
def SHT_PROGBITS : Word := 1
def SHT_SYMTAB : Word := 2
def SHT_DYNAMIC : Word := 6
def SHT_NOBITS : Word := 8
def SHT_DYNSYM : Word := 11
def SHT_GNU_versym : Word := 0x6fffffff

def SHF_ALLOC : Xword := 0x2
def SHF_COMPRESSED : Xword := 0x800

def SHN_UNDEF : Half := 0
def SHN_XINDEX : Half := 0xffff

def STT_NOTYPE : Int := 0
def STN_UNDEF : Word := 0

def EI_VERSION : Nat := 6
def EV_CURRENT : Byte := 1

structure Ehdr where
  e_ident : List Byte
  e_phoff : Off
  e_shoff : Off
  e_phnum : Half
  e_shentsize : Half
  e_shnum : Half
  e_shstrndx : Half
  deriving DecidableEq, Repr

def Ehdr.decode (b : List Byte) : Ehdr where
  e_ident := b.take 16
  e_phoff := field 64 b 32
  e_shoff := field 64 b 40
  e_phnum := field 16 b 56
  e_shentsize := field 16 b 58
  e_shnum := field 16 b 60
  e_shstrndx := field 16 b 62

/-- `IS_ELF`: the four magic bytes `0x7f 'E' 'L' 'F'`. -/
def Ehdr.isElf (h : Ehdr) : Bool :=
  h.e_ident.take 4 == [0x7f, 0x45, 0x4c, 0x46]

structure Phdr where
  p_type : Word
  p_offset : Off
  p_vaddr : Addr
  p_filesz : Xword
  p_memsz : Xword
  deriving DecidableEq, Repr, Inhabited

def Phdr.decode (b : List Byte) : Phdr where
  p_type := field 32 b 0
  p_offset := field 64 b 8
  p_vaddr := field 64 b 16
  p_filesz := field 64 b 32
  p_memsz := field 64 b 40

structure Shdr where
  sh_name : Word
  sh_type : Word
  sh_flags : Xword
  sh_addr : Addr
  sh_offset : Off
  sh_size : Xword
  sh_link : Word
  deriving DecidableEq, Repr, Inhabited

def Shdr.decode (b : List Byte) : Shdr where
  sh_name := field 32 b 0
  sh_type := field 32 b 4
  sh_flags := field 64 b 8
  sh_addr := field 64 b 16
  sh_offset := field 64 b 24
  sh_size := field 64 b 32
  sh_link := field 32 b 40

structure Sym where
  st_name : Word
  st_info : Byte
  st_other : Byte
  st_shndx : Half
  st_value : Addr
  st_size : Xword
  deriving DecidableEq, Repr, Inhabited

def Sym.decode (b : List Byte) : Sym where
  st_name := field 32 b 0
  st_info := field 8 b 4
  st_other := field 8 b 5
  st_shndx := field 16 b 6
  st_value := field 64 b 8
  st_size := field 64 b 16

/-- `undef()`: the all-zero symbol, whose `st_shndx` is `SHN_UNDEF`. -/
def undef : Sym := ⟨0, 0, 0, SHN_UNDEF, 0, 0⟩

/-- `ELF_ST_TYPE`: the low four bits of `st_info`. -/
def ELF_ST_TYPE (info : Byte) : Int := (info &&& 0xf).toNat

structure Dyn where
  d_tag : Sxword
  d_un : Xword
  deriving DecidableEq, Repr

def Dyn.decode (b : List Byte) : Dyn where
  d_tag := field 64 b 0
  d_un := field 64 b 8

structure Nhdr where
  n_namesz : Word
  n_descsz : Word
  n_type : Word
  deriving DecidableEq, Repr, Inhabited

def Nhdr.decode (b : List Byte) : Nhdr where
  n_namesz := field 32 b 0
  n_descsz := field 32 b 4
  n_type := field 32 b 8

/-- `Chdr`: only `ch_size` is read. -/
def Chdr.ch_size (b : List Byte) : Xword := field 64 b 8

namespace Reader

def readEhdr (r : Reader) (off : Nat) : Except Fault Ehdr := Ehdr.decode <$> r.readBytes off 64
def readPhdr (r : Reader) (off : Nat) : Except Fault Phdr := Phdr.decode <$> r.readBytes off 56
def readShdr (r : Reader) (off : Nat) : Except Fault Shdr := Shdr.decode <$> r.readBytes off 64
def readNhdr (r : Reader) (off : Nat) : Except Fault Nhdr := Nhdr.decode <$> r.readBytes off 12

end Reader

end PstackElf
