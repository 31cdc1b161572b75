import PstackElf.Object.Debug
import PstackElf.Object.Queries

/-! A run of queries on one object with the state of `getDebug()` threaded
through it, as the code forms it. The table getters call `getDebug()` only
when their section is not the object's own, so the search is made at the
first query that needs a companion, if any. It may throw there, and that one
query answers the fault; every other answer of the run is what the freshly
built object answers to that query as its first call, with the companion the
search leaves held (`run_fresh`). -/

namespace PstackElf

namespace Object

variable {B : Build} {context : DebugContext} {disc : Discovery} {fuel : Nat}

theorem findBuildId_fresh (o : Object) (last : NotesIterator) (fuel : Nat) :
    NotesIterator.findBuildId o.fresh last fuel = NotesIterator.findBuildId o last fuel := by
  funext it
  induction fuel generalizing it with
  | zero => rfl
  | succ fuel ih =>
    rw [NotesIterator.findBuildId, NotesIterator.findBuildId,
      show NotesIterator.findBuildId o.fresh last fuel = NotesIterator.findBuildId o last fuel from funext ih]
    rfl

theorem getDebug_fresh {o o' : Object} (h : o'.fresh = o.fresh) (st : DebugState) :
    getDebug B context disc fuel o' st = getDebug B context disc fuel o st := by
  have hf : ∀ o : Object, getDebug B context disc fuel o.fresh st = getDebug B context disc fuel o st := fun o => by
    simp only [getDebug, searchDebug, buildIdLookup, findBuildId_fresh]
    rfl
  rw [← hf o', h, hf]

theorem findDebugSymbol_congr {o : Object} {c c' : Option Object} {held : Option Hash.SymbolSection}
    (cache : Option (Name → Option Nat)) (n : Name)
    (h : o.getSymtab B c held (lit ".symtab") SHT_SYMTAB = o.getSymtab B c' held (lit ".symtab") SHT_SYMTAB) :
    o.findDebugSymbol B c ⟨held, cache⟩ n = o.findDebugSymbol B c' ⟨held, cache⟩ n := by
  simp only [findDebugSymbol, debugSymbols, h]

theorem eq_or_eq_trans {s t u v : DebugState} (h : t = u ∨ t = v) (h' : s = t ∨ s = v) : s = u ∨ s = v := by
  rcases h' with rfl | rfl
  · exact h
  · exact .inr rfl

theorem getSegments_of_fresh {o o' : Object} (h : o'.fresh = o.fresh) (t : Word) :
    o'.getSegments t = o.getSegments t :=
  congrFun (congrArg Object.programHeaders h) t

/-! The search from `dst` returns `r` and leaves `std`. A run passes through
`dst` until the search is made and `std` after. -/

section Search

variable {o o' : Object} {dst std st : DebugState} {r : Except Fault (Option Object)}
  (hs : getDebug B context disc fuel o dst = (r, std)) (hf : o'.fresh = o.fresh) (hp : st = dst ∨ st = std)
include hs

theorem ne_of_search_error {e : Fault} (he : r = .error e) : std ≠ dst := by
  intro h
  have hl := @getDebug_latches B context disc fuel o dst
  rw [hs, h] at hl
  have h' := @getDebug_of_latched B context disc fuel o dst hl
  rw [hs, he] at h'
  cases h'

theorem held_of_search {c : Option Object} (hc : r = .ok c) : std.debugObject = c := by
  have h := @getDebug_held B context disc fuel o dst c (by rw [hs, hc])
  rwa [hs] at h

include hf hp

/-- From `dst`, or from what the search leaves, `getDebug()` on the object,
whatever its segment cache, returns the companion the search leaves held and
leaves `std`; or, from `dst`, throws as the search does. -/
theorem getDebug_phase :
    getDebug B context disc fuel o' st = (.ok std.debugObject, std) ∨
    (st ≠ std ∧ ∃ e, r = .error e ∧ getDebug B context disc fuel o' st = (.error e, std)) := by
  rw [getDebug_fresh hf]
  rcases hp with rfl | rfl
  · rw [hs]
    cases r with
    | ok c => exact .inl (by rw [held_of_search hs rfl])
    | error e => exact .inr ⟨(ne_of_search_error hs rfl).symm, e, rfl, rfl⟩
  · have hl := @getDebug_latches B context disc fuel o dst
    rw [hs] at hl
    exact .inl (getDebug_of_latched hl)

theorem companionFor_phase (held : Option Hash.SymbolSection) (name : Name) (type : Word) :
    (∃ c st', o'.companionFor (getDebug B context disc fuel o') held name type st = (.ok c, st') ∧
      o'.getSymtab B c held name type = o'.getSymtab B std.debugObject held name type ∧ (st' = st ∨ st' = std)) ∨
    (st ≠ std ∧ ∃ e, r = .error e ∧
      o'.companionFor (getDebug B context disc fuel o') held name type st = (.error e, std)) := by
  unfold companionFor
  cases h : (held.isNone && o'.needsCompanion name type)
  · exact .inl ⟨none, st, rfl, (getSymtab_own h).symm, .inl rfl⟩
  · rcases getDebug_phase hs hf hp with h' | h'
    · exact .inl ⟨_, _, h', rfl, .inr rfl⟩
    · exact .inr h'

theorem getSymtabWith_phase (held : Option Hash.SymbolSection) (name : Name) (type : Word) :
    (∃ st', o'.getSymtabWith B (getDebug B context disc fuel o') held name type st =
      (o'.getSymtab B std.debugObject held name type, st') ∧ (st' = st ∨ st' = std)) ∨
    (st ≠ std ∧ ∃ e, r = .error e ∧
      o'.getSymtabWith B (getDebug B context disc fuel o') held name type st = (.error e, std)) := by
  unfold getSymtabWith
  rcases companionFor_phase hs hf hp held name type with ⟨c, st', h, hc, h'⟩ | ⟨hne, e, he, h⟩
  · rw [h]
    exact .inl ⟨st', congrArg (fun t => (t, st')) hc, h'⟩
  · rw [h]
    exact .inr ⟨hne, e, he, rfl⟩

theorem findSymbolByAddressWith_phase (dd : List SymbolTables) {m : Members} (hm : m.Coherent B o' std.debugObject) (addr : Addr)
    (type : Int) :
    let x := o'.findSymbolByAddressWith B (getDebug B context disc fuel o') dd m addr type st
    (x.2.2 = st ∨ x.2.2 = std) ∧ x.2.1.Coherent B o' std.debugObject ∧
    (x.1 = (o'.findSymbolByAddress B std.debugObject dd m addr type).1 ∨
      (st ≠ std ∧ x.2.2 = std ∧ ∃ e, r = .error e ∧ x.1 = .error e)) := by
  simp only [findSymbolByAddress, findSymbolByAddressWith, getSymtabWith_const]
  rcases getSymtabWith_phase hs hf hp m.debugSymbols_ (lit ".symtab") SHT_SYMTAB with
    ⟨s1, h1, hs1⟩ | ⟨hne, e, he, h1⟩
  · rw [h1]
    cases hd : o'.getSymtab B std.debugObject m.debugSymbols_ (lit ".symtab") SHT_SYMTAB with
    | error e => exact ⟨hs1, hm, .inl rfl⟩
    | ok dbg =>
      have hm1 := hm.withDebugSymbols ((getSymtab_held hm.debugSymbols).symm.trans hd)
      dsimp only
      split
      · exact ⟨hs1, hm1, .inl rfl⟩
      · rcases getSymtabWith_phase hs hf (eq_or_eq_trans hp hs1) m.dynamicSymbols_ (lit ".dynsym") SHT_DYNSYM with
          ⟨s2, h2, hs2⟩ | ⟨hne, e, he, h2⟩
        · rw [h2]
          cases hy : o'.getSymtab B std.debugObject m.dynamicSymbols_ (lit ".dynsym") SHT_DYNSYM with
          | error e => exact ⟨eq_or_eq_trans hs1 hs2, hm1, .inl rfl⟩
          | ok dyn =>
            have hm2 := hm1.withDynamicSymbols ((getSymtab_held hm.dynamicSymbols).symm.trans hy)
            dsimp only
            split <;> exact ⟨eq_or_eq_trans hs1 hs2, hm2, .inl rfl⟩
        · rw [h2]
          exact ⟨.inr rfl, hm1, .inr ⟨hs1.resolve_right hne ▸ hne, rfl, e, he, rfl⟩⟩
  · rw [h1]
    exact ⟨.inr rfl, hm, .inr ⟨hne, rfl, e, he, rfl⟩⟩

/-- One query with `getDebug()` threaded, from coherent members: it answers
what the fresh object answers to it as its first call with the companion the
search leaves held, or the search's fault; it keeps the members coherent and
changes nothing of the object but the segment cache. -/
theorem step_phase (dd : List SymbolTables) {m : Members} (hm : m.Coherent B o' std.debugObject) (q : Query)
    (hl : ∀ a, q = .getSegmentForAddress a → LoadLayout (o'.getSegments PT_LOAD)) :
    let x := o'.step B context disc fuel dd m st q
    x.2.1.fresh = o'.fresh ∧ x.2.2.1.Coherent B o' std.debugObject ∧ (x.2.2.2 = st ∨ x.2.2.2 = std) ∧
    (x.1 = (o'.fresh.query B std.debugObject dd .empty q).1 ∨
      (st ≠ std ∧ x.2.2.2 = std ∧ ∃ e, r = .error e ∧ (x.1 = .symbol (.error e) ∨ x.1 = .debugSymbol (.error e)))) := by
  obtain ⟨h1, h2, h3⟩ := query_coherent hm dd q hl
  cases q with
  | getSegmentForAddress a => exact ⟨h2, h3, .inl rfl, .inl h1⟩
  | symbolVersion v => exact ⟨h2, h3, .inl rfl, .inl h1⟩
  | findSymbolByAddress addr type =>
    obtain ⟨k1, k2, k3⟩ := findSymbolByAddressWith_phase hs hf hp dd hm addr type
    exact ⟨rfl, k2, k1, k3.imp (fun k => (congrArg Answer.symbol k).trans h1)
      fun ⟨hne, hst, e, he, k⟩ => ⟨hne, hst, e, he, .inl (congrArg Answer.symbol k)⟩⟩
  | findDebugSymbol n =>
    simp only [step]
    rcases companionFor_phase hs hf hp m.debugSymbols_ (lit ".symtab") SHT_SYMTAB with
      ⟨c, st', h, hc, h'⟩ | ⟨hne, e, he, h⟩
    · rw [h]
      dsimp only
      rw [findDebugSymbol_congr m.cachedSymbols n hc]
      exact ⟨rfl, h3, h', .inl h1⟩
    · rw [h]
      exact ⟨rfl, hm, .inr rfl, .inr ⟨hne, rfl, e, he, .inr rfl⟩⟩

end Search

section Run

variable {o : Object} {dst std : DebugState} {r : Except Fault (Option Object)}

theorem run_phase (hs : getDebug B context disc fuel o dst = (r, std)) (dd : List SymbolTables) (qs : List Query) :
    ∀ (o' : Object) (m : Members) (st : DebugState), o'.fresh = o.fresh → m.Coherent B o std.debugObject →
      (st = dst ∨ st = std) → ((∃ a, Query.getSegmentForAddress a ∈ qs) → LoadLayout (o.getSegments PT_LOAD)) →
      let x := o'.run B context disc fuel dd m st qs
      let ref := qs.map fun q => (o.fresh.query B std.debugObject dd .empty q).1
      (x.1 = ref ∨ (st ≠ std ∧ ∃ e k a, r = .error e ∧ (a = .symbol (.error e) ∨ a = .debugSymbol (.error e)) ∧
        x.1 = ref.set k a)) ∧
      x.2.1.fresh = o.fresh ∧ x.2.2.1.Coherent B o std.debugObject ∧ (x.2.2.2 = st ∨ x.2.2.2 = std) := by
  induction qs with
  | nil => exact fun o' m st hf hm _ _ => ⟨.inl rfl, hf, hm, .inl rfl⟩
  | cons q qs ih =>
    intro o' m st hf hm hp hl
    obtain ⟨hfr, hco, hst, hans⟩ := step_phase hs hf hp dd (hm.of_fresh hf) q
      fun a e => getSegments_of_fresh hf PT_LOAD ▸ hl ⟨a, e ▸ List.mem_cons_self _ _⟩
    obtain ⟨ians, ifr, ico, ist⟩ := ih _ _ _ (hfr.trans hf) (hco.of_fresh hf.symm) (eq_or_eq_trans hp hst)
      fun ⟨a, ha⟩ => hl ⟨a, List.mem_cons_of_mem q ha⟩
    simp only [run, List.map_cons]
    refine ⟨?_, ifr, ico, eq_or_eq_trans hst ist⟩
    rw [hf] at hans
    rcases hans with ha | ⟨hne, hst', e, he, ha⟩ <;> rcases ians with hr | ⟨hne', e', k, a, he', ha', hr⟩
    · exact .inl (by rw [ha, hr])
    · exact .inr ⟨fun h => hne' ((hst.resolve_right hne').trans h), e', k + 1, a, he', ha', by rw [ha, hr]; rfl⟩
    · exact .inr ⟨hne, e, 0, _, he, ha, by rw [hr]; rfl⟩
    · exact absurd hst' hne'

end Run

end Object

theorem LoadLayout.nil : LoadLayout [] :=
  ⟨List.sorted_nil, fun _ h => absurd h (List.not_mem_nil _), fun _ h => absurd h (List.not_mem_nil _),
    List.Pairwise.nil⟩

/-- Lookups by address and by name, a segment lookup and a version lookup,
interleaved on the `.symtab` image. -/
def symtabQueries : List Query :=
  [.findSymbolByAddress 0x1004 STT_NOTYPE, .findDebugSymbol (lit "f"), .getSegmentForAddress 0x1004,
    .findDebugSymbol (lit "g"), .symbolVersion 2, .findSymbolByAddress 0x1024 STT_NOTYPE]

set_option maxRecDepth 8000 in
/-- An object with no `.symtab`, a context with `verbose >= 2` and no debug
stream, and a companion found through `.gnu_debuglink`: the first lookup by
name makes the search, which throws at the write that reports the companion;
the second reads the companion's `.symtab` and finds the later `f`. -/
example : ((Object.ofImage (dynamicAt 0)).run noZlib ⟨false, false, 2⟩
    ⟨none, fun _ => none, fun _ => some (Object.ofImage symtabImage), .off⟩ 1 [] .empty ⟨false, none⟩
    [.findDebugSymbol (lit "f"), .findDebugSymbol (lit "f")]).1.map
      (fun | .debugSymbol (.ok (_, i)) => some i | _ => none) = [none, some 3] := by
  decide

end PstackElf
