import PstackElf.Defs.Symtab
import PstackElf.Object.Construct

/-! `findDebugSymbol` against a fresh scan of `.symtab`. The fill loop is a
closed form of the table (`fillCache_eq`: the last index of each name), which
is what a scan for the entry of greatest index gives (`lastNamed_spec`). The
members are sound for the table `debugSymbols()` builds
(`SymtabState.Sound`); every call keeps them so and answers as the scan does
(`findDebugSymbol_sound`), and so does every run of calls. -/

namespace PstackElf

open Hash

theorem getLast?_filter_enum {α : Type} (p : α → Bool) (l : List α) :
    match (l.enum.filter fun q => p q.2).getLast? with
    | some (i, a) => ∃ h : i < l.length, l[i] = a ∧ p a ∧ ∀ j (hj : j < l.length), i < j → ¬p l[j]
    | none => ∀ a ∈ l, ¬p a := by
  induction l using List.reverseRecOn with
  | nil => simp
  | append_singleton l x ih =>
    rw [List.enum_append, List.filter_append, List.getLast?_append]
    by_cases hx : p x
    · simp only [List.enumFrom_singleton, List.filter_cons, hx, if_true, List.filter_nil, List.getLast?_singleton]
      refine ⟨by simp, by simp, hx, fun j hj hlt => ?_⟩
      simp only [List.length_append, List.length_singleton] at hj
      omega
    · simp only [List.enumFrom_singleton, List.filter_cons, hx, Bool.false_eq_true, if_false, List.filter_nil,
        List.getLast?_nil, Option.none_or]
      cases h : (l.enum.filter fun q => p q.2).getLast? with
      | none =>
        rw [h] at ih
        intro a ha
        rcases List.mem_append.mp ha with ha | ha
        · exact ih a ha
        · rw [List.mem_singleton.mp ha]; exact hx
      | some q =>
        rw [h] at ih
        obtain ⟨i, a⟩ := q
        obtain ⟨hi, hia, hpa, hgt⟩ := ih
        refine ⟨by simp; omega, by rw [List.getElem_append_left hi]; exact hia, hpa, fun j hj hlt => ?_⟩
        simp only [List.length_append, List.length_singleton] at hj
        rcases Nat.lt_succ_iff_lt_or_eq.mp hj with hj | rfl
        · rw [List.getElem_append_left hj]; exact hgt j hj hlt
        · rw [List.getElem_concat_length _ _ _ rfl]; exact hx

theorem fillCache_eq (t : SymbolSection) (l : List Sym) (k : Nat) (m : Name → Option Nat) (n : Name) :
    fillCache t l k m n = (((l.enumFrom k).filter fun p => t.name p.2 = n).getLast?.map Prod.fst).or (m n) := by
  induction l generalizing k m with
  | nil => simp [fillCache]
  | cons s l ih =>
    rw [fillCache, ih, List.enumFrom_cons, List.filter_cons]
    by_cases hs : t.name s = n
    · subst hs
      cases h : ((l.enumFrom (k + 1)).filter fun p => t.name p.2 = t.name s).getLast? <;>
        simp [h, List.getLast?_cons]
    · cases h : ((l.enumFrom (k + 1)).filter fun p => t.name p.2 = n).getLast? <;>
        simp [hs, h, Function.update_noteq (Ne.symm hs)]

namespace Hash.SymbolSection

/-- What a scan of the whole table answers for `n`: the entry of greatest
index named `n`, with its index; `undef()` and 0 when no entry is. -/
def lastNamed (t : SymbolSection) (n : Name) : Sym × Nat :=
  match (t.syms.enum.filter fun p => t.name p.2 = n).getLast? with
  | some (i, s) => (s, i)
  | none => (undef, 0)

theorem lastNamed_spec (t : SymbolSection) (n : Name) :
    (∃ i, ∃ h : i < t.syms.length, t.lastNamed n = (t.syms[i], i) ∧ t.name t.syms[i] = n ∧
      ∀ j (hj : j < t.syms.length), i < j → t.name t.syms[j] ≠ n) ∨
    (t.lastNamed n = (undef, 0) ∧ ∀ s ∈ t.syms, t.name s ≠ n) := by
  have := getLast?_filter_enum (fun s => decide (t.name s = n)) t.syms
  simp only [decide_eq_true_eq] at this
  unfold lastNamed
  cases h : (t.syms.enum.filter fun p => t.name p.2 = n).getLast? with
  | none =>
    rw [h] at this
    exact .inr ⟨rfl, this⟩
  | some q =>
    rw [h] at this
    obtain ⟨i, s⟩ := q
    obtain ⟨hi, his, hn, hgt⟩ := this
    exact .inl ⟨i, hi, by rw [his], his ▸ hn, hgt⟩

theorem fillCache_syms (t : SymbolSection) (n : Name) :
    fillCache t t.syms 0 (fun _ => none) n = (t.syms.enum.filter fun p => t.name p.2 = n).getLast?.map Prod.fst := by
  rw [fillCache_eq]
  exact Option.or_none

end Hash.SymbolSection

/-- The members hold nothing yet, or what the first call builds from the
table `t`: `t` itself, and the map the fill loop makes of it. -/
structure SymtabState.Sound (t : Hash.SymbolSection) (st : SymtabState) : Prop where
  debugSymbols : ∀ h, st.debugSymbols_ = some h → h = t
  cachedSymbols : ∀ c, st.cachedSymbols = some c → c = fillCache t t.syms 0 fun _ => none

theorem SymtabState.sound_empty (t : Hash.SymbolSection) : (⟨none, none⟩ : SymtabState).Sound t :=
  ⟨fun _ h => (nomatch h), fun _ h => (nomatch h)⟩

namespace Object

variable (B : Build) {o : Object} {companion : Option Object} {t : Hash.SymbolSection}

theorem debugSymbols_sound (ht : o.makeSymtab B companion (lit ".symtab") SHT_SYMTAB = .ok t)
    {st : SymtabState} (hs : st.Sound t) :
    o.debugSymbols B companion st.debugSymbols_ = .ok t ∧ (⟨some t, st.cachedSymbols⟩ : SymtabState).Sound t := by
  refine ⟨?_, ⟨fun _ e => (Option.some.inj e).symm, hs.cachedSymbols⟩⟩
  cases h : st.debugSymbols_ with
  | none => exact ht
  | some h' => rw [hs.debugSymbols h' h]; rfl

theorem lookup_fillCache (t : Hash.SymbolSection) (n : Name) (st : SymtabState) :
    (match fillCache t t.syms 0 (fun _ => none) n with
      | some i => ((fun s => (s, i)) <$> t.read i, st)
      | none => (.ok (undef, 0), st)) = (.ok (t.lastNamed n), st) := by
  rw [Hash.SymbolSection.fillCache_syms, Hash.SymbolSection.lastNamed]
  cases h : (t.syms.enum.filter fun p => t.name p.2 = n).getLast? with
  | none => rfl
  | some q =>
    obtain ⟨i, s⟩ := q
    have hmem := List.mem_enum_iff_getElem?.mp (List.mem_filter.mp (List.mem_of_getLast?_eq_some h)).1
    dsimp only at hmem
    simp only [Option.map_some', Hash.SymbolSection.read, hmem, Except.map_ok]

theorem findDebugSymbol_sound (ht : o.makeSymtab B companion (lit ".symtab") SHT_SYMTAB = .ok t)
    {st : SymtabState} (hs : st.Sound t) (n : Name) :
    o.findDebugSymbol B companion st n =
      (.ok (t.lastNamed n), ⟨some t, some (fillCache t t.syms 0 fun _ => none)⟩) := by
  rw [findDebugSymbol, (debugSymbols_sound B ht hs).1]
  cases hcs : st.cachedSymbols with
  | none => exact lookup_fillCache t n _
  | some c =>
    rw [hs.cachedSymbols c hcs]
    exact lookup_fillCache t n _

/-- `findDebugSymbol` called with each of `names` in turn. -/
def findDebugSymbols (o : Object) (companion : Option Object) :
    SymtabState → List Name → List (Except Fault (Sym × Nat)) × SymtabState
  | st, [] => ([], st)
  | st, n :: ns =>
    let call := o.findDebugSymbol B companion st n
    let rest := findDebugSymbols o companion call.2 ns
    (call.1 :: rest.1, rest.2)

/-- Over any run of calls, from members that are empty or hold what the first
call builds, each `findDebugSymbol(n)` answers what a fresh scan of `.symtab`
answers: the entry of greatest index named `n` with its index, or `undef()`
and 0. After the first call the members hold the table and the map made of
it, and no later call fills the map again. -/
theorem findDebugSymbols_scan (o : Object) (companion : Option Object) (t : Hash.SymbolSection)
    (ht : o.makeSymtab B companion (lit ".symtab") SHT_SYMTAB = .ok t)
    (st : SymtabState) (hs : st.Sound t) (names : List Name) :
    (o.findDebugSymbols B companion st names).1 = names.map (fun n => .ok (t.lastNamed n)) ∧
    (names ≠ [] → (o.findDebugSymbols B companion st names).2 =
      ⟨some t, some (fillCache t t.syms 0 fun _ => none)⟩) := by
  induction names generalizing st with
  | nil => exact ⟨rfl, fun h => absurd rfl h⟩
  | cons n ns ih =>
    have hs' : (⟨some t, some (fillCache t t.syms 0 fun _ => none)⟩ : SymtabState).Sound t :=
      ⟨fun _ e => (Option.some.inj e).symm, fun _ e => (Option.some.inj e).symm⟩
    obtain ⟨ih1, ih2⟩ := ih _ hs'
    simp only [findDebugSymbols, findDebugSymbol_sound B ht hs n]
    refine ⟨by rw [ih1]; rfl, fun _ => ?_⟩
    cases ns with
    | nil => rfl
    | cons => exact ih2 (List.cons_ne_nil _ _)

end Object

def Sym.encode (s : Sym) : List Byte :=
  encodeLE 4 s.st_name.toNat ++ [s.st_info, s.st_other] ++ encodeLE 2 s.st_shndx.toNat ++
    encodeLE 8 s.st_value.toNat ++ encodeLE 8 s.st_size.toNat

def symtabSyms : List Sym :=
  [⟨0, 0, 0, 0, 0, 0⟩, ⟨1, 0x12, 0, 1, 0x1000, 16⟩, ⟨3, 0x12, 0, 1, 0x1010, 16⟩, ⟨1, 0x02, 0, 1, 0x1020, 16⟩]

def symtabStrings : Reader := [0] ++ lit "f" ++ [0] ++ lit "g" ++ [0]

/-- A file of four sections: the null section, the section-name table,
`.strtab` and a `.symtab` linked to it holding `symtabSyms`. -/
def symtabImage : Reader :=
  sectionImage [⟨0, SHT_NULL, 0, 0, 0, 0, 0⟩, ⟨1, 3, 0, 0, 320, 27, 0⟩, ⟨11, 3, 0, 0, 347, 5, 0⟩,
    ⟨19, SHT_SYMTAB, 0, 0, 352, 96, 2⟩] 1 ++
  [0] ++ lit ".shstrtab" ++ [0] ++ lit ".strtab" ++ [0] ++ lit ".symtab" ++ [0] ++
  symtabStrings ++ symtabSyms.flatMap Sym.encode

set_option maxRecDepth 8000 in
theorem findDebugSymbols_scan_on_image :
    let o := Object.ofImage symtabImage
    let names := [lit "f", lit "g", lit "f", lit "h"]
    o.makeSymtab noZlib none (lit ".symtab") SHT_SYMTAB = .ok ⟨symtabSyms, symtabStrings⟩ ∧
    (⟨none, none⟩ : SymtabState).Sound ⟨symtabSyms, symtabStrings⟩ ∧
    ((o.findDebugSymbols noZlib none ⟨none, none⟩ names).1 =
      names.map (fun n => .ok ((⟨symtabSyms, symtabStrings⟩ : Hash.SymbolSection).lastNamed n)) ∧
    (names ≠ [] → (o.findDebugSymbols noZlib none ⟨none, none⟩ names).2 =
      ⟨some ⟨symtabSyms, symtabStrings⟩, some (fillCache ⟨symtabSyms, symtabStrings⟩ symtabSyms 0 fun _ => none)⟩)) :=
  have ht : (Object.ofImage symtabImage).makeSymtab noZlib none (lit ".symtab") SHT_SYMTAB =
      .ok ⟨symtabSyms, symtabStrings⟩ := by decide
  ⟨ht, SymtabState.sound_empty _,
    Object.findDebugSymbols_scan noZlib _ _ _ ht _ (SymtabState.sound_empty _) _⟩

set_option maxRecDepth 8000 in
/-- The name `f` of two entries gives the later one, the local `f` at index 3. -/
example : ((Object.ofImage symtabImage).findDebugSymbols noZlib none ⟨none, none⟩ [lit "f", lit "h"]).1 =
    [.ok (⟨1, 0x02, 0, 1, 0x1020, 16⟩, 3), .ok (undef, 0)] := by
  decide

end PstackElf
