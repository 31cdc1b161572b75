import PstackElf.Defs.Records

/-! The hash-accelerated name lookup of the dynamic symbol table: the two
hash functions, the System V `.hash` table (`SymHash`), the GNU `.gnu.hash`
table with its Bloom prefilter (`GnuHash`), and `findDynamicSymbol`, which
prefers the second. The chain walks of both tables are loops that need not
end on every table, so they take fuel; running out is `Fault.outOfFuel`.
The accessor that builds a `GnuHash` is in a header outside the sources and
is modelled from the spec: it reads the header `{nbuckets, symoffset,
bloom_size, bloom_shift}` at offset 0. -/

namespace PstackElf.Hash

def elfHashStep (h c : Word) : Word :=
  let h := (h <<< 4) + c
  let g := h &&& 0xf0000000
  let h := if g ≠ 0 then h ^^^ (g >>> 24) else h
  h &&& ~~~g

def elfHashWith (widen : Byte → Word) (text : Name) : Word :=
  text.foldl (fun h c => elfHashStep h (widen c)) 0

/-- `elf_hash` as written: `for (auto c : text)` takes each byte as a plain
`char`, signed on the x86 targets, so a byte of `0x80` or more is
sign-extended before the addition. -/
def elfHash : Name → Word := elfHashWith (·.signExtend 32)

/-- The System V ABI's `elf_hash`, over `unsigned char`, as link editors
compute it. -/
def abiElfHash : Name → Word := elfHashWith (·.zeroExtend 32)

def gnuHash (s : Name) : Word :=
  s.foldl (fun h c => (h <<< 5) + h + c.zeroExtend 32) 5381

structure SymbolSection where
  syms : List Sym
  strings : Reader

namespace SymbolSection

def name (t : SymbolSection) (s : Sym) : Name := t.strings.readString s.st_name.toNat

def read (t : SymbolSection) (i : Nat) : Except Fault Sym :=
  match t.syms[i]? with
  | some s => .ok s
  | none => .error .readError

end SymbolSection

/-- `SymHash`: the `.hash` section read into memory as words, with
`nbucket = data[0]`, `nchain = data[1]`, `buckets = data + 2` and
`chains = buckets + nbucket`. -/
structure SymHash where
  data : List Word
  table : SymbolSection

namespace SymHash

/-- The constructor: `words = size / 4` words are read, then `data[0]` and
`data[1]`, which are past the end when fewer than two words were read. -/
def load (hash : Reader) (table : SymbolSection) : Except Fault SymHash :=
  let data := (hash.array 4).map (field 32 · 0)
  if data.length < 2 then .error .outOfRange else .ok ⟨data, table⟩

def word (h : SymHash) (k : Nat) : Except Fault Word :=
  match h.data[k]? with
  | some w => .ok w
  | none => .error .outOfRange

def nbucket (h : SymHash) : Word := h.data.headD 0

def walk (h : SymHash) (name : Name) : Nat → Word → Except Fault (Word × Sym)
  | 0, _ => .error .outOfFuel
  | fuel + 1, i =>
    if i = STN_UNDEF then .ok (0, undef) else do
      let candidate ← h.table.read i.toNat
      if h.table.name candidate = name then .ok (i, candidate) else do
        let next ← h.word (2 + h.nbucket.toNat + i.toNat)
        walk h name fuel next

def findSymbol (h : SymHash) (fuel : Nat) (name : Name) : Except Fault (Word × Sym) :=
  if h.nbucket = 0 then .error .divByZero else do
    let i ← h.word (2 + (elfHash name % h.nbucket).toNat)
    h.walk name fuel i

end SymHash

structure GnuHashHeader where
  nbuckets : Word
  symoffset : Word
  bloom_size : Word
  bloom_shift : Word
  deriving DecidableEq, Repr

structure GnuHash where
  hash : Reader
  header : GnuHashHeader
  table : SymbolSection

def ELF_BITS : Word := 64

namespace GnuHash

def load (hash : Reader) (table : SymbolSection) : Except Fault GnuHash := do
  let b ← hash.readBytes 0 16
  pure ⟨hash, ⟨field 32 b 0, field 32 b 4, field 32 b 8, field 32 b 12⟩, table⟩

/-- Modelled from the spec: the header, then `bloom_size` Bloom words, then
the buckets, then the chains. -/
def bloomoff (_ : GnuHash) (idx : Nat) : Nat := 16 + 8 * idx

def bucketoff (g : GnuHash) (idx : Nat) : Nat := g.bloomoff g.header.bloom_size.toNat + 4 * idx

def chainoff (g : GnuHash) (idx : Nat) : Nat := g.bucketoff g.header.nbuckets.toNat + 4 * idx

def walk (g : GnuHash) (symhash : Word) (name : Name) : Nat → Word → Except Fault (Word × Sym)
  | 0, _ => .error .outOfFuel
  | fuel + 1, idx => do
    let sym ← g.table.read idx.toNat
    let chainhash ← g.hash.readWord (g.chainoff (idx - g.header.symoffset).toNat)
    if (chainhash ||| 1) = (symhash ||| 1) ∧ g.table.name sym = name then .ok (idx, sym)
    else if chainhash &&& 1 ≠ 0 then .ok (0, undef)
    else walk g symhash name fuel (idx + 1)

def mask (g : GnuHash) (symhash : Word) : Xword :=
  (1 : Xword) <<< (symhash % ELF_BITS).toNat |||
    (1 : Xword) <<< ((symhash >>> g.header.bloom_shift.toNat) % ELF_BITS).toNat

def findSymbol (g : GnuHash) (fuel : Nat) (name : CStr) : Except Fault (Word × Sym) :=
  let symhash := gnuHash name.1
  if g.header.bloom_size = 0 then .error .divByZero else do
    let bloomword ← g.hash.readXword (g.bloomoff (symhash / ELF_BITS % g.header.bloom_size).toNat)
    if 32 ≤ g.header.bloom_shift.toNat then .error .shiftTooWide
    else if bloomword &&& g.mask symhash ≠ g.mask symhash then .ok (0, undef)
    else if g.header.nbuckets = 0 then .error .divByZero else do
      let idx ← g.hash.readWord (g.bucketoff (symhash % g.header.nbuckets).toNat)
      if idx < g.header.symoffset then .ok (0, undef) else g.walk symhash name.1 fuel idx

end GnuHash

/-- The `std::string` overload of `GnuHash::findSymbol` passes `c_str()`:
the bytes before the first NUL. -/
def cStr (s : Name) : CStr :=
  ⟨s.takeWhile (· != 0), fun h => by simpa using List.mem_takeWhile_imp h⟩

/-- The lookup of `Object::findDynamicSymbol`, given the `.gnu.hash` and
`.hash` sections that exist: GNU first, then System V, else nothing. -/
def dynamicLookup (gnuHashSec hashSec : Option Reader) (dynsym : SymbolSection)
    (fuel : Nat) (name : Name) : Except Fault (Word × Sym) :=
  match gnuHashSec, hashSec with
  | some r, _ => do (← GnuHash.load r dynsym).findSymbol fuel (cStr name)
  | none, some r => do (← SymHash.load r dynsym).findSymbol fuel name
  | none, none => .ok (0, undef)

/-- `Object::findDynamicSymbol`: index 0 is a miss. -/
def findDynamicSymbol (gnuHashSec hashSec : Option Reader) (dynsym : SymbolSection)
    (fuel : Nat) (name : Name) : Except Fault (Sym × Nat) := do
  let found ← dynamicLookup gnuHashSec hashSec dynsym fuel name
  pure (if found.1 = 0 then (undef, 0) else (found.2, found.1.toNat))

end PstackElf.Hash
