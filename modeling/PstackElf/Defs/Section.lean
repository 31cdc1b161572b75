import PstackElf.Defs.Records

/-! A section: its header, its name, and the lazily built Reader over its
logical bytes (`Section::io`), which inflates `SHF_COMPRESSED` sections and
legacy `.zdebug_` sections. The inflating Reader is external to the ELF core
and enters as a function of the declared size and the compressed bytes.
`Section`'s default constructor (the null section, all of its header zero)
and its conversion to `bool` (false exactly for a null section) are in a
header outside the sources and are modelled from the spec. -/

namespace PstackElf

/-- The build configuration and the external readers the ELF core is given. -/
structure Build where
  /-- `WITH_ZLIB`. -/
  withZlib : Bool
  /-- `InflateReader(size, upstream)`, by its content. -/
  inflate : Xword → Reader → Reader

def noZlib : Build := ⟨false, fun _ _ => []⟩

def lit (s : String) : Name := s.toList.map fun c => BitVec.ofNat 8 c.toNat

structure Section where
  shdr : Shdr
  name : Name
  /-- The cached byte view `io_`. -/
  io_ : Option Reader
  deriving DecidableEq

def Section.null : Section := ⟨⟨0, 0, 0, 0, 0, 0, 0⟩, [], none⟩

def Section.present (s : Section) : Bool := s.shdr.sh_type != SHT_NULL

def zdebugSize (sig : List Byte) : Xword :=
  (sig.drop 4).foldl (fun sz b => (sz <<< 8) ||| b.zeroExtend 64) 0

namespace Section

variable (B : Build)

/-- The body of `Section::io` once the cache is empty. -/
def makeIo (elfIo : Reader) (s : Section) : Except Fault Reader :=
  if s.shdr.sh_type = SHT_NULL then .ok [] else
  let rawIo := elfIo.view s.shdr.sh_offset.toNat s.shdr.sh_size.toNat
  if s.shdr.sh_flags &&& SHF_COMPRESSED ≠ 0 then
    if B.withZlib then do
      let chdr ← rawIo.readBytes 0 24
      .ok (B.inflate (Chdr.ch_size chdr) (rawIo.view 24 (s.shdr.sh_size - 24).toNat))
    else .ok []
  else if (lit ".zdebug_").isPrefixOf s.name then do
    let sig ← rawIo.readBytes 0 12
    if sig.take 4 = lit "ZLIB" ∧ B.withZlib then
      .ok (B.inflate (zdebugSize sig) (rawIo.view 12 (zdebugSize sig).toNat))
    else .ok []
  else .ok rawIo

/-- `Section::io`: the cached view, or a new one, cached. -/
def io (elfIo : Reader) (s : Section) : Except Fault (Reader × Section) :=
  match s.io_ with
  | some r => .ok (r, s)
  | none => do
    let r ← s.makeIo B elfIo
    .ok (r, { s with io_ := some r })

end Section

end PstackElf
