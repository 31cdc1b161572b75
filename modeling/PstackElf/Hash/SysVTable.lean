import PstackElf.Hash.SysV

/-! The System V `.hash` as a link editor lays it out (`abiWords`), and
`SymHash::findSymbol` over it. Each bucket word holds the highest index of its
bucket and each chain word the next lower one, so the walk visits a bucket from
the top down: on a table of fewer than `2^32` symbols, a name whose bytes are
all below `0x80` (where the code's hash is the ABI's) is answered with the
last symbol of that name, index 0 apart, or with a miss. -/

namespace PstackElf.Hash

theorem getLast?_filter_range_succ (p : Nat → Bool) (k : Nat) :
    ((List.range (k + 1)).filter p).getLast? =
      if p k then some k else ((List.range k).filter p).getLast? := by
  rw [List.range_succ, List.filter_append]
  cases hp : p k <;> simp [hp]

theorem array_encodeWords (ws : List Word) : (Reader.array 4 (encodeWords ws)).map (field 32 · 0) = ws := by
  refine List.ext_getElem (by simp [Reader.array]) fun i h1 h2 => ?_
  have hw := Reader.readWord_encodeWords [] [] ws h2
  simp only [List.nil_append, List.append_nil, List.length_nil, Nat.zero_add] at hw
  unfold Reader.readWord Reader.readBytes at hw
  split at hw
  · simp only [Except.map_ok, Except.ok.injEq] at hw
    simp only [List.getElem_map, Reader.array, List.getElem_range, Nat.mul_comm i 4, hw]
  · cases hw

def lastNamedBelow (t : SymbolSection) (n : Name) (k : Nat) : Option Nat :=
  ((List.range k).filter fun i => 0 < i ∧ t.name (t.syms.getD i default) = n).getLast?

theorem lastNamedBelow_succ (t : SymbolSection) (n : Name) (k : Nat) :
    lastNamedBelow t n (k + 1) =
      if 0 < k ∧ t.name (t.syms.getD k default) = n then some k else lastNamedBelow t n k := by
  unfold lastNamedBelow
  rw [getLast?_filter_range_succ]
  simp only [decide_eq_true_eq]

namespace SymHash

section Abi

variable (names : List Name) (nbucket : Nat)

def abiBucket (i : Nat) : Nat := (abiElfHash (names.getD i [])).toNat % nbucket

def abiBelow (b k : Nat) : Nat :=
  (((List.range k).filter fun i => 0 < i ∧ abiBucket names nbucket i = b).getLast?).getD 0

theorem abiWords_eq : abiWords names nbucket =
    [BitVec.ofNat 32 nbucket, BitVec.ofNat 32 names.length] ++
      (List.range nbucket).map (fun b => BitVec.ofNat 32 (abiBelow names nbucket b names.length)) ++
      (List.range names.length).map fun i =>
        BitVec.ofNat 32 (if i = 0 then 0 else abiBelow names nbucket (abiBucket names nbucket i) i) :=
  rfl

theorem abiBelow_succ (b k : Nat) : abiBelow names nbucket b (k + 1) =
    if 0 < k ∧ abiBucket names nbucket k = b then k else abiBelow names nbucket b k := by
  unfold abiBelow
  rw [getLast?_filter_range_succ]
  by_cases h : 0 < k ∧ abiBucket names nbucket k = b <;> simp [h]

theorem abiBelow_le (b k : Nat) : abiBelow names nbucket b k ≤ k := by
  induction k with
  | zero => rfl
  | succ k ih =>
    rw [abiBelow_succ]
    split <;> omega

theorem abiWords_nbucket : (abiWords names nbucket).headD 0 = BitVec.ofNat 32 nbucket := rfl

theorem abiWords_bucket {b : Nat} (hb : b < nbucket) :
    (abiWords names nbucket)[2 + b]? = some (BitVec.ofNat 32 (abiBelow names nbucket b names.length)) := by
  rw [abiWords_eq, List.append_assoc, List.getElem?_append_right (by simp),
    List.getElem?_append_left (by simp; omega)]
  simp [hb]

theorem abiWords_chain {i : Nat} (hi : i < names.length) :
    (abiWords names nbucket)[2 + nbucket + i]? =
      some (BitVec.ofNat 32 (if i = 0 then 0 else abiBelow names nbucket (abiBucket names nbucket i) i)) := by
  rw [abiWords_eq, List.getElem?_append_right (by simp; omega)]
  simp [hi, show 2 + nbucket + i - (nbucket + 1 + 1) = i by omega]

end Abi

section Walk

variable (t : SymbolSection) (nbucket : Nat)

/-- The `.hash` of `t` as the ABI lays it out, read into memory. -/
def abiTable : SymHash := ⟨abiWords (t.syms.map t.name) nbucket, t⟩

theorem load_abiWords :
    load (encodeWords (abiWords (t.syms.map t.name) nbucket)) t = .ok (abiTable t nbucket) := by
  rw [load, array_encodeWords, if_neg (by simp [abiWords_eq])]
  rfl

def lastNamedAnswer (n : Name) (k : Nat) : Except Fault (Word × Sym) :=
  match lastNamedBelow t n k with
  | some i => .ok (BitVec.ofNat 32 i, t.syms.getD i default)
  | none => .ok (0, undef)

variable {t nbucket}

theorem toNat_ofNat_word {k : Nat} (hk : k < 2 ^ 32) : (BitVec.ofNat 32 k).toNat = k :=
  Nat.mod_eq_of_lt hk

theorem abiTable_nbucket (hb32 : nbucket < 2 ^ 32) : (abiTable t nbucket).nbucket.toNat = nbucket :=
  toNat_ofNat_word hb32

theorem getD_map_name {i : Nat} (hi : i < t.syms.length) :
    (t.syms.map t.name).getD i [] = t.name (t.syms.getD i default) := by
  simp [List.getD_eq_getElem?_getD, hi]

theorem walk_abiBelow (hb32 : nbucket < 2 ^ 32) (hN : t.syms.length < 2 ^ 32) {n : Name} {k : Nat}
    (hk : k ≤ t.syms.length) {fuel : Nat} (hfuel : k < fuel) :
    (abiTable t nbucket).walk n fuel (BitVec.ofNat 32
      (abiBelow (t.syms.map t.name) nbucket ((abiElfHash n).toNat % nbucket) k)) =
      lastNamedAnswer t n k := by
  induction k generalizing fuel with
  | zero =>
    obtain ⟨f, rfl⟩ := Nat.exists_eq_add_of_le' hfuel
    rfl
  | succ k ih =>
    obtain ⟨f, rfl⟩ := Nat.exists_eq_add_of_le' (show 1 ≤ fuel by omega)
    have hkt : k < t.syms.length := by omega
    have hname := getD_map_name (t := t) hkt
    rw [abiBelow_succ, lastNamedAnswer, lastNamedBelow_succ]
    split
    · next hin =>
      have hk32 : (BitVec.ofNat 32 k).toNat = k := toNat_ofNat_word (by omega)
      have hk0 : BitVec.ofNat 32 k ≠ 0 := fun h => by
        rw [h] at hk32
        exact hin.1.ne hk32
      have hread : t.read k = .ok (t.syms.getD k default) := by simp [SymbolSection.read, hkt]
      have hword : (abiTable t nbucket).word (2 + nbucket + k) = .ok (BitVec.ofNat 32
          (abiBelow (t.syms.map t.name) nbucket ((abiElfHash n).toNat % nbucket) k)) := by
        rw [word, abiTable, abiWords_chain _ _ (by simpa using hkt), if_neg (Nat.pos_iff_ne_zero.mp hin.1),
          hin.2]
      simp only [walk_succ_of_ne hk0, hk32, abiTable_nbucket hb32, hword]
      rw [show (abiTable t nbucket).table = t from rfl, hread, Except.ok_bind]
      by_cases hn : t.name (t.syms.getD k default) = n
      · rw [if_pos hn, if_pos ⟨hin.1, hn⟩]
      · rw [if_neg hn, if_neg (fun h => hn h.2), Except.ok_bind]
        exact ih (by omega) (by omega)
    · next hout =>
      rw [if_neg (fun h => hout ⟨h.1, by rw [abiBucket, hname, h.2]⟩)]
      exact ih (by omega) (by omega)

/-- On a `.hash` laid out by the ABI over the names of a table of fewer than
`2^32` symbols, with at least one and fewer than `2^32` buckets,
`SymHash::findSymbol(n)` for a name whose bytes are all below `0x80` answers
the last symbol named `n`, index 0 apart, or `(0, undef())` when there is
none. -/
theorem findSymbol_last_named (t : SymbolSection) {nbucket : Nat} (hb : 0 < nbucket)
    (hb32 : nbucket < 2 ^ 32) (hN : t.syms.length < 2 ^ 32) {n : Name} (hn : ∀ c ∈ n, c.toNat < 128)
    {fuel : Nat} (hfuel : t.syms.length < fuel) :
    (do (← load (encodeWords (abiWords (t.syms.map t.name) nbucket)) t).findSymbol fuel n) =
      lastNamedAnswer t n t.syms.length := by
  have hbucket : (elfHash n % (abiTable t nbucket).nbucket).toNat = (abiElfHash n).toNat % nbucket := by
    rw [BitVec.toNat_umod, abiTable_nbucket hb32, elfHash_eq_abiElfHash hn]
  have hne : (abiTable t nbucket).nbucket ≠ 0 := fun h => by
    have := abiTable_nbucket (t := t) hb32
    rw [h] at this
    exact hb.ne this
  rw [load_abiWords, Except.ok_bind, findSymbol, if_neg hne, hbucket, word, abiTable,
    abiWords_bucket _ _ (Nat.mod_lt _ hb)]
  simp only [List.length_map]
  exact walk_abiBelow hb32 hN le_rfl hfuel

end Walk

end SymHash

theorem findSymbol_last_named_on_xy :
    0 < 1 ∧ 1 < 2 ^ 32 ∧ xyTable.syms.length < 2 ^ 32 ∧ (∀ c ∈ [(0x79 : Byte)], c.toNat < 128) ∧
      xyTable.syms.length < 4 ∧
      (do
        let h ← SymHash.load (encodeWords (SymHash.abiWords (xyTable.syms.map xyTable.name) 1)) xyTable
        h.findSymbol 4 [0x79]) = SymHash.lastNamedAnswer xyTable [0x79] xyTable.syms.length := by
  refine ⟨?h1, ?h2, ?h3, ?h4, ?h5, SymHash.findSymbol_last_named xyTable ?h1 ?h2 ?h3 ?h4 ?h5⟩ <;> decide

end PstackElf.Hash
