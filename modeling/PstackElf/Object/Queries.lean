import PstackElf.Defs.Queries
import PstackElf.Object.Symtab
import PstackElf.Object.Segments
import PstackElf.Object.Symbols

/-! The members of an `Object` never change an answer, for a fixed companion.
The members are coherent when each holds nothing or what a first call builds
(`Members.Coherent`); every query keeps them so and answers what the same
query answers as the first call on the freshly built object
(`query_coherent`). The segment cache is the exception the code has: its
answers do not depend on what it holds only when the `PT_LOAD` headers are
well laid (`LoadLayout`). A getter whose section is the object's own reads no
companion (`getSymtab_own`), which is what lets a run with `getDebug()`
threaded be compared with this machine. -/

namespace PstackElf

/-- The object with its segment cache emptied, as the constructor leaves it. -/
def Object.fresh (o : Object) : Object := { o with lastSegmentForAddress := none }

variable (B : Build)

/-- The members hold nothing, or what a first call builds: each table what
`getSymtab` makes of its section, the name map of `.symtab`, and the tables
of `symbolVersions()`. -/
structure Members.Coherent (o : Object) (companion : Option Object) (m : Members) : Prop where
  debugSymbols : ∀ t, m.debugSymbols_ = some t → o.makeSymtab B companion (lit ".symtab") SHT_SYMTAB = .ok t
  dynamicSymbols : ∀ t, m.dynamicSymbols_ = some t → o.makeSymtab B companion (lit ".dynsym") SHT_DYNSYM = .ok t
  cachedSymbols : ∀ c, m.cachedSymbols = some c →
    ∃ t, o.makeSymtab B companion (lit ".symtab") SHT_SYMTAB = .ok t ∧ c = fillCache t t.syms 0 fun _ => none
  symbolVersions : ∀ v, m.symbolVersions_ = some v → o.buildSymbolVersions B = .ok v

theorem Members.coherent_empty (o : Object) (companion : Option Object) : Members.empty.Coherent B o companion :=
  ⟨fun _ h => (nomatch h), fun _ h => (nomatch h), fun _ h => (nomatch h), fun _ h => (nomatch h)⟩

theorem Members.Coherent.withDebugSymbols {B : Build} {o : Object} {c : Option Object} {m : Members} (hm : m.Coherent B o c)
    {dbg : Hash.SymbolSection} (h : o.makeSymtab B c (lit ".symtab") SHT_SYMTAB = .ok dbg) :
    ({ m with debugSymbols_ := some dbg } : Members).Coherent B o c :=
  { hm with debugSymbols := fun _ e => (Option.some.inj e) ▸ h }

theorem Members.Coherent.withDynamicSymbols {B : Build} {o : Object} {c : Option Object} {m : Members} (hm : m.Coherent B o c)
    {dyn : Hash.SymbolSection} (h : o.makeSymtab B c (lit ".dynsym") SHT_DYNSYM = .ok dyn) :
    ({ m with dynamicSymbols_ := some dyn } : Members).Coherent B o c :=
  { hm with dynamicSymbols := fun _ e => (Option.some.inj e) ▸ h }

namespace Object

variable {B} {o : Object} {c : Option Object} {m : Members}

theorem makeSymtab_fresh (o : Object) (name : Name) (type : Word) :
    o.fresh.makeSymtab B c name type = o.makeSymtab B c name type := by
  unfold makeSymtab
  rw [show o.fresh.getDebugSection c name type = o.getDebugSection c name type from rfl]
  cases o.getDebugSection c name type with
  | mk sec elf => cases elf <;> rfl

theorem getSymtab_fresh (o : Object) (held : Option Hash.SymbolSection) (name : Name) (type : Word) :
    o.fresh.getSymtab B c held name type = o.getSymtab B c held name type := by
  cases held with
  | none => exact makeSymtab_fresh o name type
  | some t => rfl

theorem getSymtabWith_fresh {σ : Type} (gd : σ → Except Fault (Option Object) × σ) (o : Object)
    (held : Option Hash.SymbolSection) (name : Name) (type : Word) (s : σ) :
    o.fresh.getSymtabWith B gd held name type s = o.getSymtabWith B gd held name type s := by
  simp only [getSymtabWith, getSymtab_fresh]
  rfl

theorem findSymbolByAddressWith_fresh {σ : Type} (gd : σ → Except Fault (Option Object) × σ) (o : Object)
    (dd : List SymbolTables) (m : Members) (addr : Addr) (type : Int) (s : σ) :
    o.fresh.findSymbolByAddressWith B gd dd m addr type s = o.findSymbolByAddressWith B gd dd m addr type s := by
  simp only [findSymbolByAddressWith, getSymtabWith_fresh]
  rfl

theorem findSymbolByAddress_fresh (o : Object) (dd : List SymbolTables) (m : Members) (addr : Addr) (type : Int) :
    o.fresh.findSymbolByAddress B c dd m addr type = o.findSymbolByAddress B c dd m addr type := by
  simp only [findSymbolByAddress, findSymbolByAddressWith_fresh]

theorem findDebugSymbol_fresh (o : Object) (st : SymtabState) (n : Name) :
    o.fresh.findDebugSymbol B c st n = o.findDebugSymbol B c st n := by
  simp only [findDebugSymbol, debugSymbols, getSymtab_fresh]

theorem buildSymbolVersions_fresh (o : Object) : o.fresh.buildSymbolVersions B = o.buildSymbolVersions B := rfl

theorem getSymtab_held {held : Option Hash.SymbolSection} {name : Name} {type : Word}
    (h : ∀ t, held = some t → o.makeSymtab B c name type = .ok t) :
    o.getSymtab B c held name type = o.makeSymtab B c name type := by
  cases held with
  | none => rfl
  | some t => exact (h t rfl).symm

theorem makeSymtab_own {name : Name} {type : Word} (h : o.needsCompanion name type = false) :
    o.makeSymtab B c name type = o.makeSymtab B none name type := by
  simp only [makeSymtab, getDebugSection, h, Bool.not_false, ↓reduceIte]
  rfl

theorem getSymtab_own {held : Option Hash.SymbolSection} {name : Name} {type : Word}
    (h : (held.isNone && o.needsCompanion name type) = false) :
    o.getSymtab B c held name type = o.getSymtab B none held name type := by
  cases held with
  | some t => rfl
  | none => exact makeSymtab_own (by simpa using h)

theorem getSymtabWith_const (held : Option Hash.SymbolSection) (name : Name) (type : Word) (u : Unit) :
    o.getSymtabWith B (fun u => (.ok c, u)) held name type u = (o.getSymtab B c held name type, u) := by
  unfold getSymtabWith companionFor
  cases h : (held.isNone && o.needsCompanion name type)
  · simp only [Bool.false_eq_true, ↓reduceIte]
    exact congrArg (fun t => (t, u)) (getSymtab_own h).symm
  · rfl

theorem symbolVersions_held {held : Option SymbolVersioning}
    (h : ∀ v, held = some v → o.buildSymbolVersions B = .ok v) :
    o.symbolVersions B held = o.buildSymbolVersions B := by
  cases held with
  | none => rfl
  | some v => exact (h v rfl).symm

theorem findSymbolByAddress_coherent (hm : m.Coherent B o c) (dd : List SymbolTables) (addr : Addr) (type : Int) :
    (o.findSymbolByAddress B c dd m addr type).1 = (o.findSymbolByAddress B c dd .empty addr type).1 ∧
    (o.findSymbolByAddress B c dd m addr type).2.Coherent B o c := by
  simp only [findSymbolByAddress, findSymbolByAddressWith, getSymtabWith_const]
  rw [getSymtab_held hm.debugSymbols, getSymtab_held (Members.coherent_empty B o c).debugSymbols]
  cases hd : o.makeSymtab B c (lit ".symtab") SHT_SYMTAB with
  | error e => exact ⟨rfl, hm⟩
  | ok dbg =>
    have hm' := hm.withDebugSymbols hd
    dsimp only
    split
    · exact ⟨rfl, hm'⟩
    · rw [getSymtab_held hm'.dynamicSymbols, getSymtab_held (Members.coherent_empty B o c).dynamicSymbols]
      cases hy : o.makeSymtab B c (lit ".dynsym") SHT_DYNSYM with
      | error e => exact ⟨rfl, hm'⟩
      | ok dyn =>
        dsimp only
        split <;> exact ⟨rfl, hm'.withDynamicSymbols hy⟩

theorem findDebugSymbol_coherent (hm : m.Coherent B o c) (n : Name) :
    (o.findDebugSymbol B c ⟨m.debugSymbols_, m.cachedSymbols⟩ n).1 =
      (o.findDebugSymbol B c ⟨none, none⟩ n).1 ∧
    ({ m with
        debugSymbols_ := (o.findDebugSymbol B c ⟨m.debugSymbols_, m.cachedSymbols⟩ n).2.debugSymbols_
        cachedSymbols := (o.findDebugSymbol B c ⟨m.debugSymbols_, m.cachedSymbols⟩ n).2.cachedSymbols } :
      Members).Coherent B o c := by
  cases ht : o.makeSymtab B c (lit ".symtab") SHT_SYMTAB with
  | ok t =>
    have hs : SymtabState.Sound t ⟨m.debugSymbols_, m.cachedSymbols⟩ :=
      ⟨fun h e => Except.ok.inj ((hm.debugSymbols h e).symm.trans ht), fun c' e => by
        obtain ⟨t', ht', rfl⟩ := hm.cachedSymbols c' e
        rw [Except.ok.inj (ht'.symm.trans ht)]⟩
    rw [findDebugSymbol_sound B ht hs, findDebugSymbol_sound B ht (SymtabState.sound_empty t)]
    exact ⟨rfl, { hm with
      debugSymbols := fun t' e => (Option.some.inj e) ▸ ht
      cachedSymbols := fun c' e => ⟨t, ht, (Option.some.inj e).symm⟩ }⟩
  | error e =>
    have hnone : m.debugSymbols_ = none := by
      cases h : m.debugSymbols_ with
      | none => rfl
      | some t => cases (hm.debugSymbols t h).symm.trans ht
    have hf : ∀ st : SymtabState, st.debugSymbols_ = none → o.findDebugSymbol B c st n = (.error e, st) :=
      fun st h => by simp only [findDebugSymbol, debugSymbols, h, getSymtab, ht]
    rw [hf _ hnone, hf ⟨none, none⟩ rfl]
    exact ⟨rfl, hm⟩

theorem symbolVersion_coherent (hm : m.Coherent B o c) (v : Half) :
    (o.symbolVersion B m.symbolVersions_ v).1 = (o.symbolVersion B none v).1 ∧
    ({ m with symbolVersions_ := (o.symbolVersion B m.symbolVersions_ v).2 } : Members).Coherent B o c := by
  unfold symbolVersion
  rw [symbolVersions_held hm.symbolVersions, show o.symbolVersions B none = o.buildSymbolVersions B from rfl]
  cases h : o.buildSymbolVersions B with
  | error e => exact ⟨rfl, hm⟩
  | ok vi => exact ⟨rfl, { hm with symbolVersions := fun w e => (Option.some.inj e) ▸ h }⟩

theorem getSegmentForAddress_coherent (hl : LoadLayout (o.getSegments PT_LOAD)) (a : Off) :
    (o.getSegmentForAddress a).1 = (o.fresh.getSegmentForAddress a).1 ∧
      (o.getSegmentForAddress a).2.fresh = o.fresh := by
  refine ⟨Option.ext fun i => (getSegmentForAddress_eq_some_iff hl a i).trans
    (@getSegmentForAddress_eq_some_iff o.fresh hl a i).symm, ?_⟩
  unfold getSegmentForAddress
  split <;> [rfl; split] <;> rfl

/-- Every query from coherent members answers what the freshly built object
answers to it as its first call, and leaves the members coherent and the
object as it was but for the segment cache. -/
theorem query_coherent (hm : m.Coherent B o c) (dd : List SymbolTables) (q : Query)
    (hl : ∀ a, q = .getSegmentForAddress a → LoadLayout (o.getSegments PT_LOAD)) :
    (o.query B c dd m q).1 = (o.fresh.query B c dd .empty q).1 ∧
    (o.query B c dd m q).2.1.fresh = o.fresh ∧ (o.query B c dd m q).2.2.Coherent B o c := by
  cases q with
  | getSegmentForAddress a =>
    obtain ⟨h1, h2⟩ := getSegmentForAddress_coherent (hl a rfl) a
    exact ⟨congrArg Answer.segment h1, h2, hm⟩
  | findSymbolByAddress addr type =>
    obtain ⟨h1, h2⟩ := findSymbolByAddress_coherent hm dd addr type
    exact ⟨congrArg Answer.symbol
      (h1.trans (congrArg Prod.fst (findSymbolByAddress_fresh o dd _ addr type)).symm), rfl, h2⟩
  | findDebugSymbol n =>
    obtain ⟨h1, h2⟩ := findDebugSymbol_coherent hm n
    exact ⟨congrArg Answer.debugSymbol (h1.trans (by rw [findDebugSymbol_fresh]; rfl)), rfl, h2⟩
  | symbolVersion v =>
    obtain ⟨h1, h2⟩ := symbolVersion_coherent hm v
    exact ⟨congrArg Answer.version h1, rfl, h2⟩

end Object

theorem Members.Coherent.of_fresh {B : Build} {o o' : Object} {c : Option Object} {m : Members}
    (h : o'.fresh = o.fresh) (hm : m.Coherent B o c) : m.Coherent B o' c :=
  have hs : ∀ name type, o'.makeSymtab B c name type = o.makeSymtab B c name type := fun name type => by
    rw [← Object.makeSymtab_fresh, h, Object.makeSymtab_fresh]
  have hv : o'.buildSymbolVersions B = o.buildSymbolVersions B := by
    rw [← Object.buildSymbolVersions_fresh, h, Object.buildSymbolVersions_fresh]
  ⟨fun t e => (hs _ _).trans (hm.debugSymbols t e), fun t e => (hs _ _).trans (hm.dynamicSymbols t e),
    fun c' e => (hm.cachedSymbols c' e).imp fun _ ht => ⟨(hs _ _).trans ht.1, ht.2⟩,
    fun v e => hv.trans (hm.symbolVersions v e)⟩

end PstackElf
