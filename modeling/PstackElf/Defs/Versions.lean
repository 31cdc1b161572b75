import PstackElf.Defs.Object

/-! `Object::symbolVersions()` and `Object::symbolVersion()`: the version
tables built once from `.gnu.version_r` (the versions the object needs, by
file) and `.gnu.version_d` (the versions it defines), and the lookup of a
16-bit version index in them. Each section is a chain of records counted by a
`.dynamic` entry; a record points at its first auxiliary entry and at the
next record by byte offsets from itself, and so does each auxiliary entry.
The views of the two sections and of their string tables are taken with
`Section::io()` at each read, as the code does. `SymbolVersioning`, whose
members are `std::map`s, is modelled from the spec with functions to
`Option`, an absent key mapping to `none`. -/

namespace PstackElf

def SHT_GNU_verdef : Word := 0x6ffffffd
def SHT_GNU_verneed : Word := 0x6ffffffe
def DT_VERDEFNUM : Sxword := 0x6ffffffd
def DT_VERNEEDNUM : Sxword := 0x6fffffff

structure Verneed where
  vn_cnt : Half
  vn_file : Word
  vn_aux : Word
  vn_next : Word

def Verneed.decode (b : List Byte) : Verneed where
  vn_cnt := field 16 b 2
  vn_file := field 32 b 4
  vn_aux := field 32 b 8
  vn_next := field 32 b 12

structure Vernaux where
  vna_other : Half
  vna_name : Word
  vna_next : Word

def Vernaux.decode (b : List Byte) : Vernaux where
  vna_other := field 16 b 6
  vna_name := field 32 b 8
  vna_next := field 32 b 12

structure Verdef where
  vd_ndx : Half
  vd_cnt : Half
  vd_aux : Word
  vd_next : Word

def Verdef.decode (b : List Byte) : Verdef where
  vd_ndx := field 16 b 4
  vd_cnt := field 16 b 6
  vd_aux := field 32 b 12
  vd_next := field 32 b 16

structure Verdaux where
  vda_name : Word
  vda_next : Word

def Verdaux.decode (b : List Byte) : Verdaux where
  vda_name := field 32 b 0
  vda_next := field 32 b 4

namespace Reader

def readVerneed (r : Reader) (off : Nat) : Except Fault Verneed := Verneed.decode <$> r.readBytes off 16
def readVernaux (r : Reader) (off : Nat) : Except Fault Vernaux := Vernaux.decode <$> r.readBytes off 16
def readVerdef (r : Reader) (off : Nat) : Except Fault Verdef := Verdef.decode <$> r.readBytes off 20
def readVerdaux (r : Reader) (off : Nat) : Except Fault Verdaux := Verdaux.decode <$> r.readBytes off 8

end Reader

@[ext]
structure SymbolVersioning where
  versions : Half → Option Name
  predecessors : Half → Option Name
  files : Name → Option (List Half)

namespace SymbolVersioning

def empty : SymbolVersioning := ⟨fun _ => none, fun _ => none, fun _ => none⟩

def openFile (rv : SymbolVersioning) (file : Name) : SymbolVersioning :=
  { rv with files := Function.update rv.files file (some ((rv.files file).getD [])) }

def recordNeed (rv : SymbolVersioning) (file : Name) (other : Half) (name : Name) : SymbolVersioning :=
  { rv with
    versions := Function.update rv.versions other (some name)
    files := Function.update rv.files file (some ((rv.files file).getD [] ++ [other])) }

def recordDef (rv : SymbolVersioning) (ndx : Half) (name : Name) : SymbolVersioning :=
  { rv with versions := Function.update rv.versions ndx (some name) }

def recordPredecessor (rv : SymbolVersioning) (ndx : Half) (name : Name) : SymbolVersioning :=
  { rv with predecessors := Function.update rv.predecessors ndx (some name) }

end SymbolVersioning

open SymbolVersioning

def readVernauxs (secIo strIo : Except Fault Reader) (file : Name) :
    Nat → Off → SymbolVersioning → Except Fault SymbolVersioning
  | 0, _, rv => .ok rv
  | n + 1, auxOff, rv => do
    let aux ← (← secIo).readVernaux auxOff.toNat
    let name := (← strIo).readString aux.vna_name.toNat
    readVernauxs secIo strIo file n (auxOff + aux.vna_next.zeroExtend 64) (rv.recordNeed file aux.vna_other name)

def readVerneeds (secIo strIo : Except Fault Reader) :
    Nat → Off → SymbolVersioning → Except Fault SymbolVersioning
  | 0, _, rv => .ok rv
  | cnt + 1, off, rv => do
    let verneed ← (← secIo).readVerneed off.toNat
    let filename := (← strIo).readString verneed.vn_file.toNat
    let rv ← readVernauxs secIo strIo filename verneed.vn_cnt.toNat
      (off + verneed.vn_aux.zeroExtend 64) (rv.openFile filename)
    readVerneeds secIo strIo cnt (off + verneed.vn_next.zeroExtend 64) rv

def readVerdauxName (secIo strIo : Except Fault Reader) (auxOff : Off) : Except Fault (Name × Off) := do
  let aux ← (← secIo).readVerdaux auxOff.toNat
  .ok ((← strIo).readString aux.vda_name.toNat, auxOff + aux.vda_next.zeroExtend 64)

/-- The `Verdaux` reads of one `Verdef` from `auxOff`: the first names the
version `vd_ndx`, a second one its predecessor; any others are not read. -/
def readVerdefAuxes (secIo strIo : Except Fault Reader) (verdef : Verdef) (auxOff : Off)
    (rv : SymbolVersioning) : Except Fault SymbolVersioning := do
  let (rv, auxOff) ← if 1 ≤ verdef.vd_cnt then do
      let (name, next) ← readVerdauxName secIo strIo auxOff
      pure (rv.recordDef verdef.vd_ndx name, next)
    else pure (rv, auxOff)
  if 2 ≤ verdef.vd_cnt then do
    let (name, _) ← readVerdauxName secIo strIo auxOff
    pure (rv.recordPredecessor verdef.vd_ndx name)
  else pure rv

def readVerdefs (secIo strIo : Except Fault Reader) :
    Nat → Off → SymbolVersioning → Except Fault SymbolVersioning
  | 0, _, rv => .ok rv
  | cnt + 1, off, rv => do
    let verdef ← (← secIo).readVerdef off.toNat
    let rv ← readVerdefAuxes secIo strIo verdef (off + verdef.vd_aux.zeroExtend 64) rv
    readVerdefs secIo strIo cnt (off + verdef.vd_next.zeroExtend 64) rv

namespace Object

variable (B : Build)

/-- One of the two blocks of `symbolVersions()`: when the section is present,
its string table `getLinkedSection(sec)` (the section is this object's), the
count from the first entry of `dynamic.at(tag)`, which throws when there is no
entry with that tag, and the walk over the records. -/
def versionSection (o : Object) (name : Name) (type : Word) (tag : Sxword)
    (walk : Except Fault Reader → Except Fault Reader → Nat → Off → SymbolVersioning →
      Except Fault SymbolVersioning)
    (rv : SymbolVersioning) : Except Fault SymbolVersioning :=
  let sec := o.sectionAt (o.getSection name type)
  if sec.present then do
    let strings ← o.getLinkedSection none true sec
    match o.dynamic tag with
    | [] => .error .noSuchKey
    | num :: _ => walk (Prod.fst <$> sec.io B o.io) (Prod.fst <$> strings.io B o.io) num.d_un.toNat 0 rv
  else .ok rv

def buildSymbolVersions (o : Object) : Except Fault SymbolVersioning :=
  o.versionSection B (lit ".gnu.version_r") SHT_GNU_verneed DT_VERNEEDNUM readVerneeds empty >>=
    o.versionSection B (lit ".gnu.version_d") SHT_GNU_verdef DT_VERDEFNUM readVerdefs

def symbolVersions (o : Object) : Option SymbolVersioning → Except Fault SymbolVersioning
  | some vi => .ok vi
  | none => o.buildSymbolVersions B

/-- `symbolVersion(idx)`, with `symbolVersions_` before and after the call:
bit 15 is masked off, indices 0 and 1 have no name, and `versions.at(i)`
throws when no record defines `i`. The tables stay held when it throws. -/
def symbolVersion (o : Object) (held : Option SymbolVersioning) (idx : Half) :
    Except Fault (Option Name) × Option SymbolVersioning :=
  match o.symbolVersions B held with
  | .error e => (.error e, held)
  | .ok vi =>
    let i := idx &&& 0x7fff
    (if 2 ≤ i then
      match vi.versions i with
      | some v => .ok (some v)
      | none => .error .noSuchKey
    else .ok none, some vi)

/-- `versionIdxForSymbol(idx)`: the `Half` at `idx * 2` of `.gnu.version`,
read through its `io()`, which caches the view in the section; none when that
section is absent. `gnu_version` stays null in an object built without
section names, and dereferencing it is undefined behaviour. -/
def versionIdxForSymbol (o : Object) (idx : Xword) : Except Fault (Option Half × Object) :=
  match o.gnu_version with
  | none => .error .outOfRange
  | some g =>
    if (o.sectionAt g).present then
      o.sectionIo B g >>= fun (r, o') => (fun b => (some (field 16 b 0), o')) <$> r.readBytes (idx * 2).toNat 2
    else .ok (none, o)

end Object

end PstackElf
