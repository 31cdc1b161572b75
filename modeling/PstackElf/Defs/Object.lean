import PstackElf.Defs.Section

/-! The `Object`: the parsed ELF image, as its constructor leaves it and as
the queries on program headers and sections read it. Program headers are
grouped by `p_type` and each group is sorted by `std::sort`, whose only
contract, a permutation ascending by `p_vaddr`, is a parameter. Section
headers are read with the `e_shnum == 0` extension; names, the name index,
the dynamic entries and the `.gnu.version` section follow when
`e_shstrndx` is set. -/

namespace PstackElf

/-- What `std::sort` with the comparison `lhs.p_vaddr < rhs.p_vaddr` promises:
a permutation, ascending by `p_vaddr`. The order of equal keys is left open. -/
structure PhdrSort where
  sort : List Phdr → List Phdr
  perm : ∀ l, List.Perm (sort l) l
  sorted : ∀ l, (sort l).Sorted fun a b => a.p_vaddr ≤ b.p_vaddr

instance : IsTotal Phdr fun a b => a.p_vaddr ≤ b.p_vaddr := ⟨fun a b => BitVec.le_total a.p_vaddr b.p_vaddr⟩
instance : IsTrans Phdr fun a b => a.p_vaddr ≤ b.p_vaddr := ⟨fun _ _ _ => BitVec.le_trans⟩

def PhdrSort.insertion : PhdrSort :=
  ⟨List.insertionSort (fun a b => a.p_vaddr ≤ b.p_vaddr), List.perm_insertionSort _,
    List.sorted_insertionSort _⟩

def pushBackAll {κ α : Type} [DecidableEq κ] (key : α → κ) : List α → (κ → List α) → κ → List α
  | [], m => m
  | x :: xs, m => pushBackAll key xs fun k => if k = key x then m k ++ [x] else m k

def indexNames : List Name → Nat → (Name → Option Nat) → Name → Option Nat
  | [], _, m => m
  | n :: ns, secid, m => indexNames ns (secid + 1) fun k => if k = n then some secid else m k

def readShdrs (io : Reader) (stride : Off) : Nat → Off → Except Fault (List Shdr)
  | 0, _ => .ok []
  | n + 1, off =>
    io.readShdr off.toNat >>= fun s =>
    readShdrs io stride n (off + stride) >>= fun rest => .ok (s :: rest)

/-- The section-header loop of the constructor. With `e_shnum == 0` and
`e_shentsize != 0` the count becomes `shdr[0].sh_size` converted to an `int`
after the first header is read; a negative count makes `reserve` throw. -/
def readSectionHeaders (io : Reader) (h : Ehdr) : Except Fault (List Shdr) :=
  let stride : Off := h.e_shentsize.zeroExtend 64
  if h.e_shnum = 0 ∧ h.e_shentsize ≠ 0 then
    io.readShdr h.e_shoff.toNat >>= fun s0 =>
    let headerCount : Int := (s0.sh_size.truncate 32).toInt
    if headerCount < 0 then .error .lengthError else
    readShdrs io stride (headerCount.toNat - 1) (h.e_shoff + stride) >>= fun rest => .ok (s0 :: rest)
  else readShdrs io stride h.e_shnum.toNat h.e_shoff

structure Object where
  io : Reader
  elfHeader : Ehdr
  programHeaders : Word → List Phdr
  sectionHeaders : List Section
  namedSection : Name → Option Nat
  dynamic : Sxword → List Dyn
  /-- The index of the section `gnu_version` points at; none for `nullptr`. -/
  gnu_version : Option Nat
  debugLoaded : Bool
  /-- The index in `programHeaders[PT_LOAD]` of the cached segment. -/
  lastSegmentForAddress : Option Nat

namespace Object

variable (B : Build)

def sectionAt (o : Object) (i : Nat) : Section := o.sectionHeaders.getD i Section.null

def getSegments (o : Object) (type : Word) : List Phdr := o.programHeaders type

/-- `getSection(name, type)`: the last section of that name if its type
matches (or `type` is `SHT_NULL`), else the `.zdebug_` form of a `.debug_`
name, else the `.dwo` form, else section 0. Three calls deep is as far as the
recursion of the code goes. -/
def getSectionFrom (o : Object) (type : Word) : Nat → Name → Nat
  | 0, _ => 0
  | fuel + 1, name =>
    let found := (o.namedSection name).filter fun i =>
      (o.sectionAt i).shdr.sh_type = type ∨ type = SHT_NULL
    match found with
    | some i => i
    | none =>
      let compressed := if (lit ".debug_").isPrefixOf name then
        some (o.getSectionFrom type fuel (lit ".z" ++ name.drop 1)) else none
      match compressed.filter fun c => (o.sectionAt c).present with
      | some c => c
      | none =>
        if !(lit ".dwo").isSuffixOf name then o.getSectionFrom type fuel (name ++ lit ".dwo") else 0

def getSection (o : Object) (name : Name) (type : Word) : Nat := o.getSectionFrom type 3 name

def sectionIo (o : Object) (i : Nat) : Except Fault (Reader × Object) :=
  (o.sectionAt i).io B o.io >>= fun (r, s) =>
  .ok (r, { o with sectionHeaders := o.sectionHeaders.set i s })

def phdrTable (io : Reader) (elfHeader : Ehdr) : List Phdr :=
  ((io.view elfHeader.e_phoff.toNat (elfHeader.e_phnum.toNat * 56)).array 56).map Phdr.decode

def initial (σ : PhdrSort) (io : Reader) (isDebug : Bool) (elfHeader : Ehdr) : Object :=
  { io, elfHeader,
    programHeaders := fun t => σ.sort (pushBackAll (·.p_type) (phdrTable io elfHeader) (fun _ => []) t),
    sectionHeaders := [Section.null], namedSection := fun _ => none, dynamic := fun _ => [],
    gnu_version := none, debugLoaded := isDebug, lastSegmentForAddress := none }

def shstrSec (o : Object) : Nat :=
  if o.elfHeader.e_shstrndx = SHN_XINDEX then (o.sectionAt 0).shdr.sh_link.toNat
  else o.elfHeader.e_shstrndx.toNat

def loadDynamic (o : Object) : Except Fault Object :=
  let d := o.getSection (lit ".dynamic") SHT_DYNAMIC
  if (o.sectionAt d).present then
    o.sectionIo B d >>= fun (r, o') =>
    .ok { o' with dynamic := pushBackAll (·.d_tag) ((r.array 16).map Dyn.decode) (fun _ => []) }
  else .ok o

def loadSectionNames (o : Object) : Except Fault Object :=
  match o.sectionHeaders[o.shstrSec]? with
  | none => .error .outOfRange
  | some sshdr =>
    sshdr.io B o.io >>= fun (strio, sshdr') =>
    let names := o.sectionHeaders.map fun h => strio.readString h.shdr.sh_name.toNat
    let sections := List.zipWith (fun h n => { h with name := n })
      (o.sectionHeaders.set o.shstrSec sshdr') names
    loadDynamic B { o with sectionHeaders := sections, namedSection := indexNames names 0 fun _ => none }
      >>= fun o' => .ok { o' with gnu_version := some (o'.getSection (lit ".gnu.version") SHT_GNU_versym) }

def loadSections (o : Object) : Except Fault Object :=
  readSectionHeaders o.io o.elfHeader >>= fun shdrs =>
  let o := { o with
    sectionHeaders := if shdrs = [] then [Section.null] else shdrs.map fun s => ⟨s, [], none⟩ }
  if o.elfHeader.e_shstrndx = SHN_UNDEF then .ok o else o.loadSectionNames B

/-- `Object::Object(context, io, isDebug)`. -/
def construct (σ : PhdrSort) (io : Reader) (isDebug : Bool) : Except Fault Object :=
  io.readEhdr 0 >>= fun elfHeader =>
  if !elfHeader.isElf || elfHeader.e_ident.getD EI_VERSION 0 != EV_CURRENT then .error .notElf else
  let o := initial σ io isDebug elfHeader
  if elfHeader.e_shoff.toNat < io.length then o.loadSections B else .ok o

def linked (o : Object) (sec : Section) : Except Fault Section :=
  match o.sectionHeaders[sec.shdr.sh_link.toNat]? with
  | some s => .ok s
  | none => .error .outOfRange

/-- `getLinkedSection(sec)`: a null section links to itself; a section of this
object (`sec.elf == this`) is looked up here, one of the companion there, and
without a companion the answer is section 0. -/
def getLinkedSection (o : Object) (companion : Option Object) (ofThis : Bool) (sec : Section) :
    Except Fault Section :=
  if !sec.present then .ok sec
  else if ofThis then o.linked sec
  else match companion with
    | some c => c.linked sec
    | none => .ok (o.sectionAt 0)

def endVA (o : Object) : Except Fault Addr :=
  match (o.getSegments PT_LOAD).getLast? with
  | some last => .ok (last.p_vaddr + last.p_memsz)
  | none => .error .noSuchKey

def getInterpreter (o : Object) : Name :=
  match o.getSegments PT_INTERP with
  | seg :: _ => o.io.readString seg.p_offset.toNat
  | [] => []

/-- `getSection(idx)`: section `idx` unless its type is `SHT_NULL`, then
section 0; an index past the sections is undefined behaviour. -/
def getSectionIdx (o : Object) (idx : Word) : Except Fault Section :=
  match o.sectionHeaders[idx.toNat]? with
  | some s => .ok (if s.present then s else o.sectionAt 0)
  | none => .error .outOfRange

end Object

/-- libstdc++'s `std::__lower_bound` over `[first, first + len)`: while the
range is not empty, test its middle, and keep the part after the middle when
the test holds, the part before it otherwise. The range shrinks at each step,
so `len` steps of fuel always suffice. -/
def lowerBoundFrom {α : Type} [Inhabited α] (comp : α → Bool) (xs : List α) :
    Nat → Nat → Nat → Nat
  | 0, first, _ => first
  | fuel + 1, first, len =>
    if len = 0 then first else
    let half := len / 2
    let middle := first + half
    if comp (xs.getD middle default) then lowerBoundFrom comp xs fuel (middle + 1) (len - half - 1)
    else lowerBoundFrom comp xs fuel first half

def lowerBound {α : Type} [Inhabited α] (comp : α → Bool) (xs : List α) : Nat :=
  lowerBoundFrom comp xs xs.length 0 xs.length

namespace Object

def cacheHit (o : Object) (a : Off) : Option Nat :=
  o.lastSegmentForAddress.filter fun i =>
    match (o.getSegments PT_LOAD)[i]? with
    | some last => last.p_vaddr ≤ a && last.p_vaddr + last.p_memsz > a
    | none => false

def findSegment (hdrs : List Phdr) (a : Off) : Option Nat :=
  let pos := lowerBound (fun header => header.p_vaddr + header.p_memsz ≤ a) hdrs
  match hdrs[pos]? with
  | some h => if h.p_vaddr ≤ a then some pos else none
  | none => none

/-- `getSegmentForAddress(a)`: the index in `programHeaders[PT_LOAD]` of the
segment returned, and the object with its cache as the call leaves it. -/
def getSegmentForAddress (o : Object) (a : Off) : Option Nat × Object :=
  match o.cacheHit a with
  | some i => (some i, o)
  | none =>
    match findSegment (o.getSegments PT_LOAD) a with
    | some pos => (some pos, { o with lastSegmentForAddress := some pos })
    | none => (none, o)

/-- The prelink compensation `getDebug` applies to a companion: `diff` added
to every section's `sh_addr` and every segment's `p_vaddr`. -/
def shiftAddresses (o : Object) (diff : Addr) : Object :=
  { o with
    sectionHeaders := o.sectionHeaders.map fun s => { s with shdr := { s.shdr with sh_addr := s.shdr.sh_addr + diff } }
    programHeaders := fun t => (o.programHeaders t).map fun p => { p with p_vaddr := p.p_vaddr + diff } }

end Object

end PstackElf
