import PstackElf.Defs.Hash
import PstackElf.Defs.Section

/-! `Object::findSymbolByAddress`: the lambda `findSym` scans a symbol table
for an entry whose range covers the address, and remembers the last entry of
size zero at exactly the address on the way. It scans `debugSymbols()`, then
`dynamicSymbols()`, then asks the `.gnu_debugdata` image, and falls back to
the remembered zero-size entry. The tables are given: `getSymtab` finds them
through `getDebugSection` and `getLinkedSection`, and the `.gnu_debugdata`
image is decoded by LZMA. -/

namespace PstackElf

/-- What one object gives `findSymbolByAddress`: its section headers, which
`st_shndx` indexes, and the tables `debugSymbols()` and `dynamicSymbols()`. -/
structure SymbolTables where
  sections : List Section
  debugSymbols : Hash.SymbolSection
  dynamicSymbols : Hash.SymbolSection

/-- The locals `sym`, `name` and `haveExactZeroSizeMatch`, which the scans of
`findSym` share. -/
structure AddrScan where
  sym : Sym
  name : Name
  haveExactZeroSizeMatch : Bool

/-- The lambda `findSym` over the entries `candidates` of `table`: `true` at
the first entry that covers `addr` in an allocated section; at the end of the
table `false`, with `sym.st_shndx` reset. The index check comes first, so
`sectionHeaders[st_shndx]` is looked up only once it holds. -/
def findSym (sections : List Section) (addr : Addr) (type : Int) (table : Hash.SymbolSection) :
    List Sym → AddrScan → Bool × AddrScan
  | [], st => (false, { st with sym := { st.sym with st_shndx := SHN_UNDEF } })
  | candidate :: candidates, st =>
    match sections[candidate.st_shndx.toNat]? with
    | none => findSym sections addr type table candidates st
    | some sec =>
      if type ≠ STT_NOTYPE ∧ ELF_ST_TYPE candidate.st_info ≠ type then
        findSym sections addr type table candidates st
      else if addr < candidate.st_value then findSym sections addr type table candidates st
      else if candidate.st_size + candidate.st_value ≤ addr then
        findSym sections addr type table candidates
          (if candidate.st_size = 0 ∧ candidate.st_value = addr then
            ⟨candidate, table.name candidate, true⟩
          else st)
      else if sec.shdr.sh_flags &&& SHF_ALLOC = 0 then findSym sections addr type table candidates st
      else (true, { st with sym := candidate, name := table.name candidate })

/-- `findSymbolByAddress(addr, type)` on an object and the chain of its
`.gnu_debugdata` images (empty without LZMA or without the section). -/
def findSymbolByAddress (addr : Addr) (type : Int) : List SymbolTables → Option (Sym × Name)
  | [] => none
  | o :: debugData =>
    let st : AddrScan := ⟨default, [], false⟩
    let (found, st) := findSym o.sections addr type o.debugSymbols o.debugSymbols.syms st
    if found then some (st.sym, st.name) else
    let (found, st) := findSym o.sections addr type o.dynamicSymbols o.dynamicSymbols.syms st
    if found then some (st.sym, st.name) else
    match findSymbolByAddress addr type debugData with
    | some debugSym => some debugSym
    | none => if st.haveExactZeroSizeMatch then some (st.sym, st.name) else none

end PstackElf
