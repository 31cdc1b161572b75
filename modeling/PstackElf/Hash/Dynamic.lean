import PstackElf.Hash.SysV

/-! `findDynamicSymbol` on damaged hash sections. Nothing in the code checks
a hash section before it is used: a zero bucket count divides by zero, a
shift of 32 or more is undefined, a `.hash` of fewer than two words is read
past its end, and a cycle in the `.hash` chains never ends. On sections free
of these defects every lookup ends in a miss, a symbol of the name, or a read
error of the Reader. -/

namespace PstackElf.Hash

/-- The answers `findDynamicSymbol(n)` may give without fault: `(undef(), 0)`,
a symbol whose name is `n` read as a C string, or a read error. -/
def DynAnswer (dynsym : SymbolSection) (n : Name) (r : Except Fault (Sym × Nat)) : Prop :=
  r = .ok (undef, 0) ∨ (∃ s i, r = .ok (s, i) ∧ dynsym.name s = (cStr n).1) ∨
    r = .error .readError

def dynResult (r : Except Fault (Word × Sym)) : Except Fault (Sym × Nat) :=
  r >>= fun p => pure (if p.1 = 0 then (undef, 0) else (p.2, p.1.toNat))

theorem findDynamicSymbol_eq (gnuHashSec hashSec : Option Reader) (dynsym : SymbolSection)
    (fuel : Nat) (name : Name) : findDynamicSymbol gnuHashSec hashSec dynsym fuel name =
      dynResult (dynamicLookup gnuHashSec hashSec dynsym fuel name) := rfl

theorem name_nul_free (t : SymbolSection) (s : Sym) : 0 ∉ t.name s := fun h => by
  simpa using List.mem_takeWhile_imp h

theorem cStr_name (t : SymbolSection) (s : Sym) : (cStr (t.name s)).1 = t.name s :=
  List.takeWhile_eq_self_iff.mpr fun c hc => by
    simpa using fun h0 : c = 0 => name_nul_free t s (h0 ▸ hc)

theorem dynAnswer_of_lookupAnswer {t : SymbolSection} {n name : Name}
    (hname : ∀ s, t.name s = name → t.name s = (cStr n).1) {r : Except Fault (Word × Sym)}
    (h : LookupAnswer t name r) : DynAnswer t n (dynResult r) := by
  rcases h with rfl | ⟨i, s, rfl, hs⟩ | rfl
  · exact Or.inl rfl
  · by_cases hi : i = 0
    · exact Or.inl (by simp only [dynResult, Except.ok_bind, if_pos hi]; rfl)
    · exact Or.inr (Or.inl ⟨s, i.toNat, by simp only [dynResult, Except.ok_bind, if_neg hi]; rfl,
        hname s hs⟩)
  · exact Or.inr (Or.inr rfl)

theorem GnuHash.load_table {r : Reader} {t : SymbolSection} {g : GnuHash}
    (h : GnuHash.load r t = .ok g) : g.table = t := by
  unfold GnuHash.load at h
  cases hb : r.readBytes 0 16 <;> simp_all [Except.map, Functor.map]
  rw [← h]

theorem GnuHash.load_error {r : Reader} {t : SymbolSection} {e : Fault}
    (h : GnuHash.load r t = .error e) : e = .readError := by
  unfold GnuHash.load Reader.readBytes at h
  split at h <;> simp_all

theorem SymHash.load_table {r : Reader} {t : SymbolSection} {h : SymHash}
    (hl : SymHash.load r t = .ok h) : h.table = t := by
  unfold SymHash.load at hl
  dsimp only at hl
  split at hl
  · cases hl
  · cases hl; rfl

/-- On `.gnu.hash` headers with no zero divisor and a shift below 32, on a
`.hash` (consulted only without a `.gnu.hash`) of at least two words whose
bucket words exist and whose chains end, and on a `.dynsym` of fewer than
`2^32` symbols, `findDynamicSymbol(n)` ends, without undefined behaviour, in
`(undef(), 0)`, a symbol named `n`, or a read error. -/
theorem findDynamicSymbol_ends (gnuHashSec hashSec : Option Reader) (dynsym : SymbolSection)
    (hgnu : ∀ r g, gnuHashSec = some r → GnuHash.load r dynsym = .ok g → g.Sane)
    (hsysv : ∀ r, gnuHashSec = none → hashSec = some r →
      ∃ h, SymHash.load r dynsym = .ok h ∧ h.Sane)
    (hN : dynsym.syms.length < 2 ^ 32) (n : Name) :
    ∃ r F, (∀ fuel, F ≤ fuel → findDynamicSymbol gnuHashSec hashSec dynsym fuel n = r) ∧
      DynAnswer dynsym n r := by
  simp only [findDynamicSymbol_eq]
  rcases gnuHashSec with _ | sec
  · rcases hashSec with _ | sec
    · exact ⟨.ok (undef, 0), 0, fun _ _ => rfl, Or.inl rfl⟩
    · obtain ⟨h, hl, hs⟩ := hsysv sec rfl rfl
      obtain ⟨r, F, hF, hr⟩ := h.findSymbol_ends hs n
      rw [SymHash.load_table hl] at hr
      refine ⟨dynResult r, F, fun fuel hf => by simp [dynamicLookup, hl, hF fuel hf], dynAnswer_of_lookupAnswer ?_ hr⟩
      rintro s rfl
      exact (cStr_name dynsym s).symm
  · cases hl : GnuHash.load sec dynsym with
    | error e =>
      exact ⟨.error e, 0, fun _ _ => by simp [dynamicLookup, hl, dynResult],
        Or.inr (Or.inr (by rw [GnuHash.load_error hl]))⟩
    | ok g =>
      have hc : g.count < 2 ^ 32 := by rw [GnuHash.count, GnuHash.load_table hl]; exact hN
      obtain ⟨r, F, hF, hr⟩ := g.findSymbol_ends (hgnu sec g rfl hl) hc (cStr n)
      rw [GnuHash.load_table hl] at hr
      exact ⟨dynResult r, F, fun fuel hf => by simp [dynamicLookup, hl, hF fuel hf],
        dynAnswer_of_lookupAnswer (fun _ h => h) hr⟩

def chainedHash : SymHash := ⟨[1, 3, 2, 0, 0, 1], xyTable⟩

theorem findDynamicSymbol_ends_on_chained_hash :
    (∀ r g, (none : Option Reader) = some r → GnuHash.load r xyTable = .ok g → g.Sane) ∧
    (∀ r, (none : Option Reader) = none → some (encodeWords chainedHash.data) = some r →
      ∃ h, SymHash.load r xyTable = .ok h ∧ h.Sane) ∧
    xyTable.syms.length < 2 ^ 32 ∧
    ∃ r F, (∀ fuel, F ≤ fuel →
      findDynamicSymbol none (some (encodeWords chainedHash.data)) xyTable fuel [0x78] = r) ∧
      DynAnswer xyTable [0x78] r :=
  have hgnu : ∀ r g, (none : Option Reader) = some r → GnuHash.load r xyTable = .ok g → g.Sane :=
    fun _ _ h => nomatch h
  have hsysv : ∀ r, (none : Option Reader) = none → some (encodeWords chainedHash.data) = some r →
      ∃ h, SymHash.load r xyTable = .ok h ∧ h.Sane := by
    rintro r - ⟨⟩
    refine ⟨chainedHash, rfl, by decide, fun b hb => ?_⟩
    obtain rfl : b = 0 := by simpa [SymHash.nbucket, chainedHash] using hb
    exact ⟨2, rfl, .link (by decide) rfl (.link (by decide) rfl .undef)⟩
  ⟨hgnu, hsysv, by decide, findDynamicSymbol_ends none _ xyTable hgnu hsysv (by decide) [0x78]⟩

def cycleHash : SymHash := ⟨[1, 3, 1, 0, 2, 1], xyTable⟩

theorem walk_cycle (k : Nat) :
    cycleHash.walk [0x7a] k 1 = .error .outOfFuel ∧ cycleHash.walk [0x7a] k 2 = .error .outOfFuel := by
  induction k with
  | zero => exact ⟨rfl, rfl⟩
  | succ k ih => exact ⟨ih.2, ih.1⟩

/-- Malformed hash sections make the lookup divide by zero (`nbucket = 0`),
read past the words of a one-word `.hash`, shift a word by 32, and walk a
chain cycle for ever. -/
theorem findDynamicSymbol_faults_on_malformed :
    findDynamicSymbol none (some (encodeWords [0, 0])) xyTable 1 [0x7a] = .error .divByZero ∧
    findDynamicSymbol none (some (encodeWords [1])) xyTable 1 [0x7a] = .error .outOfRange ∧
    findDynamicSymbol (some (encodeWords [1, 1, 1, 32] ++ encodeLE 8 (2 ^ 64 - 1)))
      none xyTable 1 [0x7a] = .error .shiftTooWide ∧
    ∀ fuel, findDynamicSymbol none (some (encodeWords cycleHash.data)) xyTable fuel [0x7a] =
      .error .outOfFuel := by
  refine ⟨by decide, by decide, by decide, fun fuel => ?_⟩
  have hload : SymHash.load (encodeWords cycleHash.data) xyTable = .ok cycleHash := rfl
  have hfind : cycleHash.findSymbol fuel [0x7a] = cycleHash.walk [0x7a] fuel 1 := rfl
  simp only [findDynamicSymbol_eq, dynamicLookup, hload, Except.ok_bind, hfind, (walk_cycle fuel).1]
  rfl

end PstackElf.Hash
