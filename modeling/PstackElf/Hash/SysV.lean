import PstackElf.Hash.Gnu

/-! The System V `.hash` lookup. `elf_hash` widens each byte as a plain
`char`, so it agrees with the ABI's hash exactly on names whose bytes are all
below `0x80`; a link editor's table over a name with a higher byte puts the
name in a bucket the lookup never visits. On a table whose chains end, the
walk ends with a miss, a symbol of the name looked up, or a read error. -/

namespace PstackElf.Hash

theorem signExtend_eq_zeroExtend {c : Byte} (hc : c.toNat < 128) :
    c.signExtend 32 = c.zeroExtend 32 := by
  rw [BitVec.signExtend_eq_not_setWidth_not_of_msb_false
    (BitVec.msb_eq_false_iff_two_mul_lt.mpr (by omega)), BitVec.zeroExtend_eq_setWidth]

theorem elfHash_eq_abiElfHash {text : Name} (h : ∀ c ∈ text, c.toNat < 128) :
    elfHash text = abiElfHash text := by
  unfold elfHash abiElfHash elfHashWith
  generalize (0 : Word) = acc
  induction text generalizing acc with
  | nil => rfl
  | cons c cs ih =>
    simp only [List.foldl_cons, signExtend_eq_zeroExtend (h c (List.mem_cons_self c cs))]
    exact ih (fun d hd => h d (List.mem_cons_of_mem c hd)) _

namespace SymHash

/-- The System V ABI's `.hash` words over the names of a table whose index 0
is the undefined symbol: bucket `b` holds the highest index that hashes to
`b`, each chain entry the next lower index of its bucket, 0 at the end. -/
def abiWords (names : List Name) (nbucket : Nat) : List Word :=
  let bucket (i : Nat) : Nat := (abiElfHash (names.getD i [])).toNat % nbucket
  let below (b k : Nat) : Nat :=
    (((List.range k).filter fun i => 0 < i ∧ bucket i = b).getLast?).getD 0
  [BitVec.ofNat 32 nbucket, BitVec.ofNat 32 names.length] ++
    (List.range nbucket).map (fun b => BitVec.ofNat 32 (below b names.length)) ++
    (List.range names.length).map fun i => BitVec.ofNat 32 (if i = 0 then 0 else below (bucket i) i)

variable (h : SymHash)

inductive ChainEnds : Word → Prop
  | undef : ChainEnds 0
  | link {i next : Word} : i ≠ 0 → h.data[2 + h.nbucket.toNat + i.toNat]? = some next →
      ChainEnds next → ChainEnds i

/-- A `.hash` whose lookups stay within its words: a bucket count other than
0, every bucket word present, and the chain from every bucket ending. -/
structure Sane : Prop where
  nbucket_ne : h.nbucket ≠ 0
  buckets : ∀ b < h.nbucket.toNat, ∃ i, h.data[2 + b]? = some i ∧ h.ChainEnds i

variable {h}

theorem walk_succ_of_ne {name : Name} {fuel : Nat} {i : Word} (hne : i ≠ 0) :
    h.walk name (fuel + 1) i = (do
      let candidate ← h.table.read i.toNat
      if h.table.name candidate = name then .ok (i, candidate) else do
        let next ← h.word (2 + h.nbucket.toNat + i.toNat)
        h.walk name fuel next) := by
  rw [walk, if_neg (show ¬i = STN_UNDEF from hne)]

theorem walk_of_chainEnds {name : Name} {i : Word} (hi : h.ChainEnds i) :
    ∃ r F, (∀ fuel, F ≤ fuel → h.walk name fuel i = r) ∧ LookupAnswer h.table name r := by
  induction hi with
  | undef => exact ⟨.ok (0, undef), 1, fun fuel hf => by cases fuel <;> simp_all [walk, STN_UNDEF], Or.inl rfl⟩
  | @link i next hne hnext _ ih =>
    obtain ⟨r, F, hF, hr⟩ := ih
    have hw : h.word (2 + h.nbucket.toNat + i.toNat) = .ok next := by simp [word, hnext]
    cases hread : h.table.read i.toNat with
    | error e =>
      refine ⟨.error e, 1, fun fuel hf => ?_, Or.inr (Or.inr (by rw [SymbolSection.read_error hread]))⟩
      obtain ⟨f, rfl⟩ := Nat.exists_eq_add_of_le' hf
      simp [walk_succ_of_ne hne, hread]
    | ok c =>
      by_cases hc : h.table.name c = name
      · refine ⟨.ok (i, c), 1, fun fuel hf => ?_, Or.inr (Or.inl ⟨i, c, rfl, hc⟩)⟩
        obtain ⟨f, rfl⟩ := Nat.exists_eq_add_of_le' hf
        simp [walk_succ_of_ne hne, hread, hc]
      · refine ⟨r, F + 1, fun fuel hf => ?_, hr⟩
        obtain ⟨f, rfl⟩ := Nat.exists_eq_add_of_le' (show 1 ≤ fuel by omega)
        simp only [walk_succ_of_ne hne, hread, Except.ok_bind, hc, if_false, hw]
        exact hF f (by omega)

theorem findSymbol_ends (hs : h.Sane) (name : Name) :
    ∃ r F, (∀ fuel, F ≤ fuel → h.findSymbol fuel name = r) ∧ LookupAnswer h.table name r := by
  obtain ⟨i, hi, hends⟩ := hs.buckets (elfHash name % h.nbucket).toNat (by
    rw [BitVec.toNat_umod]; exact Nat.mod_lt _ (toNat_pos_of_ne hs.nbucket_ne))
  have hw : h.word (2 + (elfHash name % h.nbucket).toNat) = .ok i := by rw [word, hi]
  simp only [findSymbol, if_neg hs.nbucket_ne, hw, Except.ok_bind]
  exact walk_of_chainEnds hends

def highByteTable : SymbolSection :=
  ⟨[undef, ⟨1, 0x12, 0, 1, 0x1000, 8⟩], [0, 0x80, 0]⟩

/-- With three buckets the ABI puts the name `0x80` in bucket 2 and the code
looks in bucket 1, so a symbol of the table is not found. -/
theorem findSymbol_misses_high_byte :
    highByteTable.name (highByteTable.syms.getD 1 default) = [0x80] ∧
      abiElfHash [0x80] % 3 = 2 ∧ elfHash [0x80] % 3 = 1 ∧
      (do (← load (encodeWords (abiWords [[], [0x80]] 3)) highByteTable).findSymbol 1 [0x80]) =
        .ok (0, undef) := by
  decide

end SymHash

end PstackElf.Hash
