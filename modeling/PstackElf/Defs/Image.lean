import PstackElf.Defs.Records

/-! Encoders for the ELF64 records, the inverse of their `decode`s on the
fields the model reads; every other field is written as zero. They lay out the
concrete images on which the model's behaviour is shown. -/

namespace PstackElf

def elfIdent : List Byte := [0x7f, 0x45, 0x4c, 0x46, 2, 1, 1] ++ List.replicate 9 0

def Ehdr.encode (h : Ehdr) : List Byte :=
  (h.e_ident ++ List.replicate 16 0).take 16 ++ List.replicate 16 0 ++
    encodeLE 8 h.e_phoff.toNat ++ encodeLE 8 h.e_shoff.toNat ++ List.replicate 8 0 ++
    encodeLE 2 h.e_phnum.toNat ++ encodeLE 2 h.e_shentsize.toNat ++ encodeLE 2 h.e_shnum.toNat ++
    encodeLE 2 h.e_shstrndx.toNat

def Phdr.encode (p : Phdr) : List Byte :=
  encodeLE 4 p.p_type.toNat ++ List.replicate 4 0 ++ encodeLE 8 p.p_offset.toNat ++
    encodeLE 8 p.p_vaddr.toNat ++ List.replicate 8 0 ++ encodeLE 8 p.p_filesz.toNat ++
    encodeLE 8 p.p_memsz.toNat ++ List.replicate 8 0

def Shdr.encode (s : Shdr) : List Byte :=
  encodeLE 4 s.sh_name.toNat ++ encodeLE 4 s.sh_type.toNat ++ encodeLE 8 s.sh_flags.toNat ++
    encodeLE 8 s.sh_addr.toNat ++ encodeLE 8 s.sh_offset.toNat ++ encodeLE 8 s.sh_size.toNat ++
    encodeLE 4 s.sh_link.toNat ++ List.replicate 20 0

def Phdr.load (vaddr memsz : Addr) : Phdr := ⟨PT_LOAD, 0, vaddr, memsz, memsz⟩

/-- An image of an ELF header and the program headers `phdrs` right after it,
with no section header table (`e_shoff`, `e_shentsize`, `e_shnum` zero). -/
def segmentImage (phdrs : List Phdr) : List Byte :=
  Ehdr.encode ⟨elfIdent, 64, 0, BitVec.ofNat 16 phdrs.length, 0, 0, 0⟩ ++ phdrs.flatMap Phdr.encode

/-- An image of an ELF header and the section headers `shdrs` right after it,
with no program headers. -/
def sectionImage (shdrs : List Shdr) (shstrndx : Half) : List Byte :=
  Ehdr.encode ⟨elfIdent, 0, 64, 0, 64, BitVec.ofNat 16 shdrs.length, shstrndx⟩ ++
    shdrs.flatMap Shdr.encode

end PstackElf
