import PstackElf.Defs.Debug
import PstackElf.Defs.Symbols
import PstackElf.Defs.Symtab
import PstackElf.Defs.Versions

/-! The queries of an `Object` that fill its members on first use, run in any
order on one object. `getSegmentForAddress` fills `lastSegmentForAddress`;
`findSymbolByAddress` fills `debugSymbols_` and `dynamicSymbols_` through
`debugSymbols()` and `dynamicSymbols()`; `findDebugSymbol` shares
`debugSymbols_` with it and fills `cachedSymbols`; `symbolVersion` fills
`symbolVersions_`. The table getters call `getDebug()` when their section is
not the object's own, and so the state of its search, `debugLoaded` and
`debugObject`, is part of what a run threads (`Object.step`). `Object.query`
is the same machine with `getDebug()` answering a fixed companion. The
`.gnu_debugdata` images below the object are given, as for the table-level
`findSymbolByAddress`. -/

namespace PstackElf

/-- The members of an `Object` that its `const` queries fill on first use,
beside `lastSegmentForAddress`, which is a field of `Object`. -/
structure Members where
  debugSymbols_ : Option Hash.SymbolSection
  dynamicSymbols_ : Option Hash.SymbolSection
  cachedSymbols : Option (Name → Option Nat)
  symbolVersions_ : Option SymbolVersioning

def Members.empty : Members := ⟨none, none, none, none⟩

namespace Object

variable (B : Build)

/-- `findSymbolByAddress(addr, type)` on the object, with `getDebug()` a step
on the state `σ`: `findSym` over `debugSymbols()`, then over
`dynamicSymbols()`, each table built on its first use and kept in its member;
then the `.gnu_debugdata` images; then the remembered zero-size entry.
`dynamicSymbols()` is called only when the scan of `debugSymbols()` finds
nothing. -/
def findSymbolByAddressWith {σ : Type} (getDebug : σ → Except Fault (Option Object) × σ) (o : Object)
    (debugData : List SymbolTables) (m : Members) (addr : Addr) (type : Int) (s : σ) :
    Except Fault (Option (Sym × Name)) × Members × σ :=
  match o.getSymtabWith B getDebug m.debugSymbols_ (lit ".symtab") SHT_SYMTAB s with
  | (.error e, s) => (.error e, m, s)
  | (.ok dbg, s) =>
    let m := { m with debugSymbols_ := some dbg }
    let scan := findSym o.sectionHeaders addr type dbg dbg.syms ⟨default, [], false⟩
    if scan.1 then (.ok (some (scan.2.sym, scan.2.name)), m, s) else
    match o.getSymtabWith B getDebug m.dynamicSymbols_ (lit ".dynsym") SHT_DYNSYM s with
    | (.error e, s) => (.error e, m, s)
    | (.ok dyn, s) =>
      let m := { m with dynamicSymbols_ := some dyn }
      let scan := findSym o.sectionHeaders addr type dyn dyn.syms scan.2
      if scan.1 then (.ok (some (scan.2.sym, scan.2.name)), m, s) else
      (.ok (match PstackElf.findSymbolByAddress addr type debugData with
        | some debugSym => some debugSym
        | none => if scan.2.haveExactZeroSizeMatch then some (scan.2.sym, scan.2.name) else none), m, s)

def findSymbolByAddress (o : Object) (companion : Option Object) (debugData : List SymbolTables)
    (m : Members) (addr : Addr) (type : Int) : Except Fault (Option (Sym × Name)) × Members :=
  let r := o.findSymbolByAddressWith B (fun u : Unit => (.ok companion, u)) debugData m addr type ()
  (r.1, r.2.1)

end Object

inductive Query where
  | getSegmentForAddress (a : Off)
  | findSymbolByAddress (addr : Addr) (type : Int)
  | findDebugSymbol (name : Name)
  | symbolVersion (idx : Half)
  deriving DecidableEq

inductive Answer where
  | segment (r : Option Nat)
  | symbol (r : Except Fault (Option (Sym × Name)))
  | debugSymbol (r : Except Fault (Sym × Nat))
  | version (r : Except Fault (Option Name))
  deriving DecidableEq

namespace Object

variable (B : Build)

/-- One query on the object and its members, with `getDebug()` answering
`companion`: the answer, and the object and members as the call leaves them. -/
def query (o : Object) (companion : Option Object) (debugData : List SymbolTables) (m : Members) :
    Query → Answer × Object × Members
  | .getSegmentForAddress a =>
    let r := o.getSegmentForAddress a
    (.segment r.1, r.2, m)
  | .findSymbolByAddress addr type =>
    let r := o.findSymbolByAddress B companion debugData m addr type
    (.symbol r.1, o, r.2)
  | .findDebugSymbol name =>
    let r := o.findDebugSymbol B companion ⟨m.debugSymbols_, m.cachedSymbols⟩ name
    (.debugSymbol r.1, o, { m with debugSymbols_ := r.2.debugSymbols_, cachedSymbols := r.2.cachedSymbols })
  | .symbolVersion idx =>
    let r := o.symbolVersion B m.symbolVersions_ idx
    (.version r.1, o, { m with symbolVersions_ := r.2 })

variable (context : DebugContext) (disc : Discovery) (fuel : Nat) (debugData : List SymbolTables)

/-- One query on the object, its members and the state of `getDebug()`:
the answer, and the three as the call leaves them. -/
def step (o : Object) (m : Members) (st : DebugState) : Query → Answer × Object × Members × DebugState
  | .getSegmentForAddress a =>
    let r := o.getSegmentForAddress a
    (.segment r.1, r.2, m, st)
  | .findSymbolByAddress addr type =>
    let r := o.findSymbolByAddressWith B (getDebug B context disc fuel o) debugData m addr type st
    (.symbol r.1, o, r.2)
  | .findDebugSymbol name =>
    match o.companionFor (getDebug B context disc fuel o) m.debugSymbols_ (lit ".symtab") SHT_SYMTAB st with
    | (.error e, st) => (.debugSymbol (.error e), o, m, st)
    | (.ok companion, st) =>
      let r := o.findDebugSymbol B companion ⟨m.debugSymbols_, m.cachedSymbols⟩ name
      (.debugSymbol r.1, o, { m with debugSymbols_ := r.2.debugSymbols_, cachedSymbols := r.2.cachedSymbols }, st)
  | .symbolVersion idx =>
    let r := o.symbolVersion B m.symbolVersions_ idx
    (.version r.1, o, { m with symbolVersions_ := r.2 }, st)

def run : Object → Members → DebugState → List Query → List Answer × Object × Members × DebugState
  | o, m, st, [] => ([], o, m, st)
  | o, m, st, q :: qs =>
    let r := step B context disc fuel debugData o m st q
    let rest := run r.2.1 r.2.2.1 r.2.2.2 qs
    (r.1 :: rest.1, rest.2)

end Object

end PstackElf
