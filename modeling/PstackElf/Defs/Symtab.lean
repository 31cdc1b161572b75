import PstackElf.Defs.Hash
import PstackElf.Defs.Object

/-! The symbol tables of an object and the name lookup in `.symtab`:
`getDebugSection` (this object's section, else the companion's),
`getSymtab` and the tables it caches in `debugSymbols_` and
`dynamicSymbols_`, and `findDebugSymbol`, which fills a name-to-index map
over `.symtab` on its first call and answers every call from it. The
companion is what `getDebug()` returns; `getSymtabWith` makes that call a
step on the state of its search, and only when the section is not the
object's own. -/

namespace PstackElf

deriving instance DecidableEq for Hash.SymbolSection

def Hash.SymbolSection.ofIo (syms strings : Reader) : Hash.SymbolSection :=
  ⟨(syms.array 24).map Sym.decode, strings⟩

namespace Object

variable (B : Build)

/-- Whether `getDebugSection(name, type)` calls `getDebug()`: when this
object's section is absent or `SHT_NOBITS`. -/
def needsCompanion (o : Object) (name : Name) (type : Word) : Bool :=
  let sec := o.sectionAt (o.getSection name type)
  !(sec.present && sec.shdr.sh_type != SHT_NOBITS)

/-- `getDebugSection(name, type)`: this object's section when it is present
and not `SHT_NOBITS`; else the section of that name in the companion; else
section 0. The second part is the companion when the section is the
companion's, as `sec.elf` tells. -/
def getDebugSection (o : Object) (companion : Option Object) (name : Name) (type : Word) :
    Section × Option Object :=
  if !o.needsCompanion name type then (o.sectionAt (o.getSection name type), none) else
  match companion with
  | some c => (c.sectionAt (c.getSection name type), some c)
  | none => (o.sectionAt 0, none)

/-- The body of `getSymtab` once the table is empty: the section
`getDebugSection` finds and its `getLinkedSection`, both viewed through the
object they belong to. The two `io()` calls are arguments of one constructor
call, whose order C++ leaves open; they are taken left to right. -/
def makeSymtab (o : Object) (companion : Option Object) (name : Name) (type : Word) :
    Except Fault Hash.SymbolSection := do
  let (sec, elf) := o.getDebugSection companion name type
  let owner := elf.getD o
  let (syms, _) ← sec.io B owner.io
  let strings ← o.getLinkedSection companion elf.isNone sec
  let (strs, _) ← strings.io B owner.io
  .ok (Hash.SymbolSection.ofIo syms strs)

def getSymtab (o : Object) (companion : Option Object) (table : Option Hash.SymbolSection) (name : Name)
    (type : Word) : Except Fault Hash.SymbolSection :=
  match table with
  | some t => .ok t
  | none => o.makeSymtab B companion name type

/-- The companion `getSymtab(table, name, type)` works with, where
`getDebug()` is a step on a state `σ`: asked only when the table is empty and
this object's section will not do. The `getDebug()` of `getLinkedSection` on a
companion's section comes after this one and returns what it returned. -/
def companionFor {σ : Type} (getDebug : σ → Except Fault (Option Object) × σ) (o : Object)
    (table : Option Hash.SymbolSection) (name : Name) (type : Word) (s : σ) : Except Fault (Option Object) × σ :=
  if table.isNone && o.needsCompanion name type then getDebug s else (.ok none, s)

def getSymtabWith {σ : Type} (getDebug : σ → Except Fault (Option Object) × σ) (o : Object)
    (table : Option Hash.SymbolSection) (name : Name) (type : Word) (s : σ) : Except Fault Hash.SymbolSection × σ :=
  match o.companionFor getDebug table name type s with
  | (.error e, s) => (.error e, s)
  | (.ok companion, s) => (o.getSymtab B companion table name type, s)

def debugSymbols (o : Object) (companion : Option Object) (held : Option Hash.SymbolSection) :
    Except Fault Hash.SymbolSection :=
  o.getSymtab B companion held (lit ".symtab") SHT_SYMTAB

def dynamicSymbols (o : Object) (companion : Option Object) (held : Option Hash.SymbolSection) :
    Except Fault Hash.SymbolSection :=
  o.getSymtab B companion held (lit ".dynsym") SHT_DYNSYM

end Object

structure SymtabState where
  debugSymbols_ : Option Hash.SymbolSection
  cachedSymbols : Option (Name → Option Nat)

/-- The loop that fills `cachedSymbols`: each entry's name is mapped to its
index, a later entry of a name replacing an earlier one. -/
def fillCache (syms : Hash.SymbolSection) : List Sym → Nat → (Name → Option Nat) → Name → Option Nat
  | [], _, cache => cache
  | sym :: rest, idx, cache => fillCache syms rest (idx + 1) (Function.update cache (syms.name sym) (some idx))

/-- `findDebugSymbol(name)`, with the members before and after the call:
`.symtab` through `debugSymbols()`, the map filled on the first call, and
`(syms[i], i)` for the index the map gives, or `(undef(), 0)`. -/
def Object.findDebugSymbol (B : Build) (o : Object) (companion : Option Object) (st : SymtabState)
    (name : Name) : Except Fault (Sym × Nat) × SymtabState :=
  match o.debugSymbols B companion st.debugSymbols_ with
  | .error e => (.error e, st)
  | .ok syms =>
    let cache := match st.cachedSymbols with
      | some cache => cache
      | none => fillCache syms syms.syms 0 fun _ => none
    let st : SymtabState := ⟨some syms, some cache⟩
    match cache name with
    | some i => ((fun s => (s, i)) <$> syms.read i, st)
    | none => (.ok (undef, 0), st)

end PstackElf
