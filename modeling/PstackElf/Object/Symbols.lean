import PstackElf.Defs.Symbols

/-! What `findSymbolByAddress` answers. The test `findSym` makes of an entry
takes the end of its range mod `2^64` (`ScanCovers`); over the integers
(`Covers`) it is the same test for an entry whose range ends below `2^64`.
`findSym_cons` says once what one entry does to the scan; the table lemmas
follow by induction on the table, and the answer for a chain of objects by
induction on the chain: the first covering entry when there is one, else a
zero-size match with `st_shndx` reset, else nothing. -/

namespace PstackElf

section Eligible

variable (sections : List Section) (addr : Addr) (type : Int)

def Typed (e : Sym) : Prop :=
  e.st_shndx.toNat < sections.length ∧ (type = STT_NOTYPE ∨ ELF_ST_TYPE e.st_info = type)

/-- `e` covers `addr` over the integers, in a section with `SHF_ALLOC`. -/
def Covers (e : Sym) : Prop :=
  Typed sections type e ∧ e.st_value.toNat ≤ addr.toNat ∧ addr.toNat < e.st_value.toNat + e.st_size.toNat ∧
    (sections.getD e.st_shndx.toNat Section.null).shdr.sh_flags &&& SHF_ALLOC ≠ 0

def ZeroMatch (e : Sym) : Prop := Typed sections type e ∧ e.st_size = 0 ∧ e.st_value = addr

/-- The test `findSym` makes of an entry before it returns it: the range
`[st_value, st_size + st_value)` with the end taken mod `2^64`. -/
def ScanCovers (e : Sym) : Prop :=
  Typed sections type e ∧ e.st_value ≤ addr ∧ ¬e.st_size + e.st_value ≤ addr ∧
    (sections.getD e.st_shndx.toNat Section.null).shdr.sh_flags &&& SHF_ALLOC ≠ 0

instance : DecidablePred (Typed sections type) := fun _ => inferInstanceAs (Decidable (_ ∧ _))
instance : DecidablePred (Covers sections addr type) := fun _ => inferInstanceAs (Decidable (_ ∧ _))
instance : DecidablePred (ZeroMatch sections addr type) := fun _ => inferInstanceAs (Decidable (_ ∧ _))
instance : DecidablePred (ScanCovers sections addr type) := fun _ => inferInstanceAs (Decidable (_ ∧ _))

/-- The entry's range ends below `2^64`. -/
def NoWrap (e : Sym) : Prop := e.st_value.toNat + e.st_size.toNat < 2 ^ 64

instance : DecidablePred NoWrap := fun _ => inferInstanceAs (Decidable (_ < _))

variable {sections addr type}

theorem covers_of_scanCovers {e : Sym} (h : ScanCovers sections addr type e) : Covers sections addr type e := by
  obtain ⟨ht, hv, hs, ha⟩ := h
  rw [BitVec.le_def] at hv hs
  rw [BitVec.toNat_add] at hs
  refine ⟨ht, hv, ?_, ha⟩
  have := e.st_size.isLt
  have := e.st_value.isLt
  by_contra hc
  exact hs (by rw [Nat.mod_eq_of_lt (by omega)]; omega)

theorem scanCovers_of_covers {e : Sym} (hw : NoWrap e) (h : Covers sections addr type e) :
    ScanCovers sections addr type e := by
  obtain ⟨ht, hv, hs, ha⟩ := h
  refine ⟨ht, by rw [BitVec.le_def]; exact hv, ?_, ha⟩
  rw [BitVec.le_def, BitVec.toNat_add, Nat.mod_eq_of_lt (by unfold NoWrap at hw; omega)]
  omega

end Eligible

section Scan

variable {sections : List Section} {addr : Addr} {type : Int} {table : Hash.SymbolSection}

def recordZero (sections : List Section) (addr : Addr) (type : Int) (table : Hash.SymbolSection)
    (st : AddrScan) (c : Sym) : AddrScan :=
  if ZeroMatch sections addr type c then ⟨c, table.name c, true⟩ else st

theorem typed_iff {c : Sym} :
    Typed sections type c ↔ (∃ sec, sections[c.st_shndx.toNat]? = some sec) ∧
      ¬(type ≠ STT_NOTYPE ∧ ELF_ST_TYPE c.st_info ≠ type) := by
  simp only [Typed, List.getElem?_eq_some_iff, ne_eq, not_and_or, not_not]
  constructor
  · rintro ⟨h, ht⟩
    exact ⟨⟨_, h, rfl⟩, ht⟩
  · rintro ⟨⟨_, h, -⟩, ht⟩
    exact ⟨h, ht⟩

/-- One entry of `findSym`: it ends the scan when it passes the code's test,
and is otherwise recorded if it is a zero-size match. -/
theorem findSym_cons (c : Sym) (cs : List Sym) (st : AddrScan) :
    findSym sections addr type table (c :: cs) st =
      if ScanCovers sections addr type c then (true, { st with sym := c, name := table.name c })
      else findSym sections addr type table cs (recordZero sections addr type table st c) := by
  rw [findSym]
  split
  · next hn =>
    have hty : ¬Typed sections type c := fun h => by
      obtain ⟨⟨_, hs⟩, -⟩ := typed_iff.mp h
      rw [hn] at hs
      cases hs
    rw [if_neg fun h => hty h.1, recordZero, if_neg fun h => hty h.1]
  · next sec hsec =>
    have hget : sections.getD c.st_shndx.toNat Section.null = sec := by
      rw [List.getD_eq_getElem?_getD, hsec]
      rfl
    by_cases ht : type ≠ STT_NOTYPE ∧ ELF_ST_TYPE c.st_info ≠ type
    · have hty : ¬Typed sections type c := fun h => (typed_iff.mp h).2 ht
      rw [if_pos ht, if_neg fun h => hty h.1, recordZero, if_neg fun h => hty h.1]
    have hty : Typed sections type c := typed_iff.mpr ⟨⟨sec, hsec⟩, ht⟩
    rw [if_neg ht]
    by_cases hv : addr < c.st_value
    · have hns : ¬ScanCovers sections addr type c := fun h => absurd h.2.1 (BitVec.not_le.mpr hv)
      have hnz : ¬ZeroMatch sections addr type c := fun h => BitVec.lt_irrefl _ (h.2.2 ▸ hv)
      rw [if_pos hv, if_neg hns, recordZero, if_neg hnz]
    rw [if_neg hv]
    by_cases he : c.st_size + c.st_value ≤ addr
    · have hns : ¬ScanCovers sections addr type c := fun h => h.2.2.1 he
      rw [if_pos he, if_neg hns, recordZero]
      by_cases hz : c.st_size = 0 ∧ c.st_value = addr
      · rw [if_pos hz, if_pos (show ZeroMatch sections addr type c from ⟨hty, hz⟩)]
      · rw [if_neg hz, if_neg (show ¬ZeroMatch sections addr type c from fun h => hz h.2)]
    have hnz : ¬ZeroMatch sections addr type c := fun ⟨_, hs, hva⟩ => he (by rw [hs, hva]; simp)
    rw [if_neg he, recordZero, if_neg hnz]
    by_cases ha : sec.shdr.sh_flags &&& SHF_ALLOC = 0
    · rw [if_pos ha, if_neg (show ¬ScanCovers sections addr type c from fun h => h.2.2.2 (hget ▸ ha))]
    · rw [if_neg ha, if_pos (show ScanCovers sections addr type c from
        ⟨hty, BitVec.not_lt.mp hv, he, hget ▸ ha⟩)]

theorem findSym_found {cs : List Sym} {e : Sym} (hnw : ∀ c ∈ cs, NoWrap c)
    (h : cs.find? (Covers sections addr type) = some e) (st : AddrScan) :
    ∃ st' : AddrScan, findSym sections addr type table cs st = (true, { st' with sym := e, name := table.name e }) := by
  induction cs generalizing st with
  | nil => cases h
  | cons c cs ih =>
    rw [findSym_cons]
    rw [List.find?_cons] at h
    by_cases hc : Covers sections addr type c
    · rw [decide_eq_true hc, Option.some.injEq] at h
      subst h
      exact ⟨st, by rw [if_pos (scanCovers_of_covers (hnw c (List.mem_cons_self _ _)) hc)]⟩
    · rw [decide_eq_false hc] at h
      rw [if_neg fun hs => hc (covers_of_scanCovers hs)]
      exact ih (fun c' hc' => hnw c' (List.mem_cons_of_mem _ hc')) h _

theorem findSym_not_found {cs : List Sym} (h : ∀ c ∈ cs, ¬Covers sections addr type c) (st : AddrScan) :
    findSym sections addr type table cs st =
      (false, { cs.foldl (recordZero sections addr type table) st with
        sym := { (cs.foldl (recordZero sections addr type table) st).sym with st_shndx := SHN_UNDEF } }) := by
  induction cs generalizing st with
  | nil => rfl
  | cons c cs ih =>
    rw [findSym_cons, if_neg fun hs => h c (List.mem_cons_self _ _) (covers_of_scanCovers hs),
      ih (fun c' hc' => h c' (List.mem_cons_of_mem _ hc'))]
    rfl

theorem foldl_recordZero (cs : List Sym) (st : AddrScan) :
    ((cs.foldl (recordZero sections addr type table) st).haveExactZeroSizeMatch = true ↔
      st.haveExactZeroSizeMatch = true ∨ ∃ c ∈ cs, ZeroMatch sections addr type c) ∧
    (cs.foldl (recordZero sections addr type table) st = st ∨
      ∃ c ∈ cs, ZeroMatch sections addr type c ∧
        cs.foldl (recordZero sections addr type table) st = ⟨c, table.name c, true⟩) := by
  induction cs generalizing st with
  | nil => simp
  | cons c cs ih =>
    obtain ⟨ih1, ih2⟩ := ih (recordZero sections addr type table st c)
    rw [List.foldl_cons]
    by_cases hz : ZeroMatch sections addr type c
    · rw [recordZero, if_pos hz] at ih1 ih2 ⊢
      refine ⟨iff_of_true (ih1.mpr (Or.inl rfl)) (Or.inr ⟨c, List.mem_cons_self _ _, hz⟩), ?_⟩
      rcases ih2 with h | ⟨c', hc', hz', h⟩
      · exact Or.inr ⟨c, List.mem_cons_self _ _, hz, h⟩
      · exact Or.inr ⟨c', List.mem_cons_of_mem _ hc', hz', h⟩
    · rw [recordZero, if_neg hz] at ih1 ih2 ⊢
      refine ⟨by rw [ih1]; simp [hz], ?_⟩
      rcases ih2 with h | ⟨c', hc', hz', h⟩
      · exact Or.inl h
      · exact Or.inr ⟨c', List.mem_cons_of_mem _ hc', hz', h⟩

end Scan

/-- The first entry that covers `addr`: of `.symtab`, then of `.dynsym`, of
each object of the chain in turn. -/
def firstCover (addr : Addr) (type : Int) : List SymbolTables → Option (Sym × Name)
  | [] => none
  | l :: ls =>
    match l.debugSymbols.syms.find? (Covers l.sections addr type) with
    | some e => some (e, l.debugSymbols.name e)
    | none =>
      match l.dynamicSymbols.syms.find? (Covers l.sections addr type) with
      | some e => some (e, l.dynamicSymbols.name e)
      | none => firstCover addr type ls

section Chain

variable {addr : Addr} {type : Int}

theorem firstCover_eq_none {levels : List SymbolTables} :
    firstCover addr type levels = none ↔
      ∀ l ∈ levels, ∀ e ∈ l.debugSymbols.syms ++ l.dynamicSymbols.syms, ¬Covers l.sections addr type e := by
  induction levels with
  | nil => simp [firstCover]
  | cons l ls ih =>
    rw [firstCover]
    split
    · next e he =>
      simp only [reduceCtorEq, false_iff, not_forall, not_not]
      exact ⟨l, List.mem_cons_self _ _, e, List.mem_append_left _ (List.mem_of_find?_eq_some he),
        by simpa using List.find?_some he⟩
    · next hs =>
      split
      · next e he =>
        simp only [reduceCtorEq, false_iff, not_forall, not_not]
        exact ⟨l, List.mem_cons_self _ _, e, List.mem_append_right _ (List.mem_of_find?_eq_some he),
          by simpa using List.find?_some he⟩
      · next hd =>
        rw [ih, List.forall_mem_cons]
        simp only [List.find?_eq_none, decide_eq_true_eq] at hs hd
        simp only [List.mem_append]
        exact ⟨fun h => ⟨fun e he => he.elim (hs e) (hd e), h⟩, fun h => h.2⟩

theorem noWrap_tables {l : SymbolTables} {ls : List SymbolTables}
    (hnw : ∀ l' ∈ l :: ls, ∀ e ∈ l'.debugSymbols.syms ++ l'.dynamicSymbols.syms, NoWrap e) :
    (∀ e ∈ l.debugSymbols.syms, NoWrap e) ∧ (∀ e ∈ l.dynamicSymbols.syms, NoWrap e) ∧
      ∀ l' ∈ ls, ∀ e ∈ l'.debugSymbols.syms ++ l'.dynamicSymbols.syms, NoWrap e :=
  ⟨fun e he => hnw l (List.mem_cons_self _ _) e (List.mem_append_left _ he),
    fun e he => hnw l (List.mem_cons_self _ _) e (List.mem_append_right _ he),
    fun l' hl' => hnw l' (List.mem_cons_of_mem _ hl')⟩

theorem findSymbolByAddress_of_firstCover {levels : List SymbolTables}
    (hnw : ∀ l ∈ levels, ∀ e ∈ l.debugSymbols.syms ++ l.dynamicSymbols.syms, NoWrap e)
    {x : Sym × Name} (h : firstCover addr type levels = some x) :
    findSymbolByAddress addr type levels = some x := by
  induction levels with
  | nil => cases h
  | cons l ls ih =>
    obtain ⟨hnw1, hnw2, hnws⟩ := noWrap_tables hnw
    rw [firstCover] at h
    simp only [findSymbolByAddress]
    split at h
    · next e he =>
      obtain ⟨st, hst⟩ := findSym_found hnw1 he ⟨default, [], false⟩
      rw [hst]
      cases h
      rfl
    · next hs =>
      rw [findSym_not_found (by simpa using hs)]
      split at h
      · next e he =>
        obtain ⟨st, hst⟩ := findSym_found hnw2 he _
        rw [hst]
        cases h
        rfl
      · next hd =>
        rw [findSym_not_found (by simpa using hd), ih hnws h]
        rfl

def resetShndx (st : AddrScan) : AddrScan := { st with sym := { st.sym with st_shndx := SHN_UNDEF } }

def zeroScan (addr : Addr) (type : Int) (l : SymbolTables) : AddrScan :=
  resetShndx (l.dynamicSymbols.syms.foldl (recordZero l.sections addr type l.dynamicSymbols)
    (resetShndx (l.debugSymbols.syms.foldl (recordZero l.sections addr type l.debugSymbols) ⟨default, [], false⟩)))

theorem findSymbolByAddress_cons_of_no_cover {l : SymbolTables} {ls : List SymbolTables}
    (h1 : ∀ e ∈ l.debugSymbols.syms, ¬Covers l.sections addr type e)
    (h2 : ∀ e ∈ l.dynamicSymbols.syms, ¬Covers l.sections addr type e) :
    findSymbolByAddress addr type (l :: ls) =
      match findSymbolByAddress addr type ls with
      | some debugSym => some debugSym
      | none => if (zeroScan addr type l).haveExactZeroSizeMatch then
          some ((zeroScan addr type l).sym, (zeroScan addr type l).name) else none := by
  simp only [findSymbolByAddress]
  rw [findSym_not_found h1, findSym_not_found h2]
  rfl

theorem zeroScan_spec (l : SymbolTables) :
    ((zeroScan addr type l).haveExactZeroSizeMatch = true ↔
      ∃ e ∈ l.debugSymbols.syms ++ l.dynamicSymbols.syms, ZeroMatch l.sections addr type e) ∧
    ((zeroScan addr type l).haveExactZeroSizeMatch = true →
      ∃ t ∈ [l.debugSymbols, l.dynamicSymbols], ∃ e ∈ t.syms, ZeroMatch l.sections addr type e ∧
        (zeroScan addr type l).sym = { e with st_shndx := SHN_UNDEF } ∧ (zeroScan addr type l).name = t.name e) := by
  obtain ⟨hd1, hd2⟩ := @foldl_recordZero l.sections addr type l.debugSymbols l.debugSymbols.syms ⟨default, [], false⟩
  obtain ⟨hy1, hy2⟩ := @foldl_recordZero l.sections addr type l.dynamicSymbols l.dynamicSymbols.syms
    (resetShndx (l.debugSymbols.syms.foldl (recordZero l.sections addr type l.debugSymbols) ⟨default, [], false⟩))
  refine ⟨?_, fun hz => ?_⟩
  · rw [zeroScan, resetShndx, hy1, resetShndx, hd1]
    simp only [Bool.false_eq_true, false_or, List.mem_append, or_and_right, exists_or]
  · rw [zeroScan, resetShndx] at hz ⊢
    dsimp only at hz ⊢
    rcases hy2 with h2 | ⟨c, hc, hzc, h2⟩
    · rw [h2, resetShndx] at hz ⊢
      dsimp only at hz ⊢
      rcases hd2 with h1 | ⟨c, hc, hzc, h1⟩
      · rw [h1] at hz
        cases hz
      · rw [h1]
        exact ⟨l.debugSymbols, by simp, c, hc, hzc, rfl, rfl⟩
    · rw [h2]
      exact ⟨l.dynamicSymbols, by simp, c, hc, hzc, rfl, rfl⟩

theorem findSymbolByAddress_of_no_cover {levels : List SymbolTables} (h : firstCover addr type levels = none) :
    ((findSymbolByAddress addr type levels).isSome ↔
      ∃ l ∈ levels, ∃ e ∈ l.debugSymbols.syms ++ l.dynamicSymbols.syms, ZeroMatch l.sections addr type e) ∧
    ∀ s n, findSymbolByAddress addr type levels = some (s, n) →
      ∃ l ∈ levels, ∃ t ∈ [l.debugSymbols, l.dynamicSymbols], ∃ e ∈ t.syms,
        ZeroMatch l.sections addr type e ∧ s = { e with st_shndx := SHN_UNDEF } ∧ n = t.name e := by
  induction levels with
  | nil => simp [findSymbolByAddress]
  | cons l ls ih =>
    have hnc := firstCover_eq_none.mp h
    obtain ⟨ih1, ih2⟩ := ih (firstCover_eq_none.mpr fun l' hl' => hnc l' (List.mem_cons_of_mem _ hl'))
    obtain ⟨hz1, hz2⟩ := @zeroScan_spec addr type l
    rw [findSymbolByAddress_cons_of_no_cover
      (fun e he => hnc l (List.mem_cons_self _ _) e (List.mem_append_left _ he))
      (fun e he => hnc l (List.mem_cons_self _ _) e (List.mem_append_right _ he))]
    cases hd : findSymbolByAddress addr type ls with
    | some d =>
      obtain ⟨l', hl', e, he, hze⟩ := ih1.mp (by rw [hd]; rfl)
      refine ⟨iff_of_true rfl ⟨l', List.mem_cons_of_mem _ hl', e, he, hze⟩, fun s n hsn => ?_⟩
      obtain ⟨l', hl', rest⟩ := ih2 s n (hd.trans hsn)
      exact ⟨l', List.mem_cons_of_mem _ hl', rest⟩
    | none =>
      dsimp only
      split
      · next hzs =>
        refine ⟨iff_of_true rfl ?_, fun s n hsn => ?_⟩
        · obtain ⟨e, he, hze⟩ := hz1.mp hzs
          exact ⟨l, List.mem_cons_self _ _, e, he, hze⟩
        · obtain ⟨t, ht, e, he, hze, hs, hn⟩ := hz2 hzs
          cases hsn
          exact ⟨l, List.mem_cons_self _ _, t, ht, e, he, hze, hs, hn⟩
      · next hzs =>
        refine ⟨⟨(fun hs => by cases hs), ?_⟩, fun s n hsn => by cases hsn⟩
        rintro ⟨l', hl', e, he, hze⟩
        rcases List.mem_cons.mp hl' with rfl | hl'
        · exact absurd (hz1.mpr ⟨e, he, hze⟩) hzs
        · exact absurd (ih1.mpr ⟨l', hl', e, he, hze⟩) (by rw [hd]; simp)

end Chain

def allocSection : Section := ⟨⟨0, SHT_PROGBITS, SHF_ALLOC, 0, 0, 0, 0⟩, lit ".text", none⟩

def symtabOnly (sections : List Section) (syms : List Sym) : SymbolTables :=
  ⟨sections, ⟨syms, [0] ++ lit "f" ++ [0]⟩, ⟨[], []⟩⟩

end PstackElf
