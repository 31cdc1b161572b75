import PstackElf.Defs.Hash

/-! The `.gnu.hash` lookup against a scan of the hashed symbols: for every
table laid out by the GNU hash construction, `GnuHash::findSymbol` returns
the least hashed index whose name is the one looked up, and a miss when there
is none. The Bloom word only ever rejects absent names, the bucket word starts
the walk at its bucket's first symbol, and the walk stops at the chain word
whose low bit marks the bucket's last symbol. -/

namespace PstackElf.Hash

theorem testBit_one_eq (k : Nat) : Nat.testBit 1 k = decide (k = 0) := by
  rw [Bool.eq_iff_iff]
  simp [Nat.testBit_one_eq_true_iff_self_eq_zero]

theorem getLsbD_one_eq {w : Nat} (k : Nat) :
    (1 : BitVec w).getLsbD k = (decide (k < w) && decide (k = 0)) := by
  simp only [BitVec.ofNat_eq_ofNat, BitVec.getLsbD_ofNat, testBit_one_eq]

theorem getLsbD_one_shiftLeft {w : Nat} (a k : Nat) :
    ((1 : BitVec w) <<< a).getLsbD k = (decide (k < w) && decide (k = a)) := by
  simp only [BitVec.getLsbD_shiftLeft, getLsbD_one_eq]
  rcases Nat.lt_trichotomy k a with h | rfl | h
  · simp [h, Nat.ne_of_lt h]
  · simpa using Nat.lt_of_le_of_lt (Nat.zero_le _)
  · have : k - a ≠ 0 := by omega
    simp [Nat.not_lt.mpr h.le, this, Nat.ne_of_gt h]

theorem clear_low_or_one (x : Word) : (x &&& ~~~1) ||| 1 = x ||| 1 := by
  ext i
  simp only [BitVec.getLsbD_or, BitVec.getLsbD_and, BitVec.getLsbD_not, getLsbD_one_eq]
  by_cases h : (i : Nat) = 0 <;> simp [h]

theorem or_one_or_one (x : Word) : (x ||| 1) ||| 1 = x ||| 1 := by
  rw [BitVec.or_assoc, BitVec.or_self]

theorem or_one_and_one (x : Word) : (x ||| 1) &&& 1 ≠ 0 := by
  intro h
  have := congrArg (fun y => y.getLsbD 0) h
  simp [getLsbD_one_eq] at this

theorem clear_low_and_one (x : Word) : (x &&& ~~~1) &&& 1 = 0 := by
  ext i
  simp only [BitVec.getLsbD_and, BitVec.getLsbD_not, getLsbD_one_eq, BitVec.getLsbD_zero]
  by_cases h : (i : Nat) = 0 <;> simp [h]

theorem and_two_bits {w : Xword} {a b : Nat} (ha : w.getLsbD a) (hb : w.getLsbD b) :
    w &&& ((1 : Xword) <<< a ||| (1 : Xword) <<< b) = (1 : Xword) <<< a ||| (1 : Xword) <<< b := by
  ext i
  simp only [BitVec.getLsbD_and, BitVec.getLsbD_or, getLsbD_one_shiftLeft]
  by_cases h1 : (i : Nat) = a <;> by_cases h2 : (i : Nat) = b <;> simp_all

/-- The answers a lookup of `name` in table `t` may give without fault: a
miss, a symbol named `name`, or a read error of the Reader. -/
def LookupAnswer (t : SymbolSection) (name : Name) (r : Except Fault (Word × Sym)) : Prop :=
  r = .ok (0, undef) ∨ (∃ i s, r = .ok (i, s) ∧ t.name s = name) ∨ r = .error .readError

theorem SymbolSection.read_error {t : SymbolSection} {i : Nat} {e : Fault}
    (h : t.read i = .error e) : e = .readError := by
  unfold SymbolSection.read at h
  split at h <;> simp_all

def xyTable : SymbolSection :=
  ⟨[undef, ⟨1, 0x12, 0, 1, 0x1000, 8⟩, ⟨3, 0x12, 0, 1, 0x2000, 8⟩], [0, 0x78, 0, 0x79, 0]⟩

namespace GnuHash

variable (g : GnuHash)

def count : Nat := g.table.syms.length

def symAt (i : Nat) : Sym := g.table.syms.getD i default

def nameAt (i : Nat) : Name := g.table.name (g.symAt i)

def bucketAt (i : Nat) : Word := gnuHash (g.nameAt i) % g.header.nbuckets

def Hashed (i : Nat) : Prop := g.header.symoffset.toNat ≤ i ∧ i < g.count

def LastInBucket (i : Nat) : Prop := i + 1 = g.count ∨ g.bucketAt (i + 1) ≠ g.bucketAt i

instance (i : Nat) : Decidable (g.LastInBucket i) :=
  inferInstanceAs (Decidable (_ ∨ _))

def chainValue (i : Nat) : Word :=
  if g.LastInBucket i then gnuHash (g.nameAt i) ||| 1 else gnuHash (g.nameAt i) &&& ~~~1

def BucketWord (b : Word) (v : Nat) : Prop :=
  if v = 0 then ∀ i, g.Hashed i → g.bucketAt i ≠ b
  else g.Hashed v ∧ g.bucketAt v = b ∧ ∀ i, g.Hashed i → g.bucketAt i = b → v ≤ i

def bloomHas (h : Word) : Bool :=
  match g.hash.readXword (g.bloomoff (h / ELF_BITS % g.header.bloom_size).toNat) with
  | .ok w => w.getLsbD (h % ELF_BITS).toNat &&
      w.getLsbD ((h >>> g.header.bloom_shift.toNat) % ELF_BITS).toNat
  | .error _ => false

/-- A `.gnu.hash` section laid out by the GNU hash construction over the
table's symbols. -/
structure Built : Prop where
  nbuckets_ne : g.header.nbuckets ≠ 0
  bloom_size_ne : g.header.bloom_size ≠ 0
  bloom_shift_lt : g.header.bloom_shift.toNat < 32
  symoffset_ne : g.header.symoffset ≠ 0
  symoffset_le : g.header.symoffset.toNat ≤ g.count
  sorted : ∀ i j, g.Hashed i → g.Hashed j → i ≤ j → g.bucketAt i ≤ g.bucketAt j
  buckets : ∀ b < g.header.nbuckets.toNat, ∃ v, g.hash.readWord (g.bucketoff b) = .ok v ∧
    g.BucketWord (BitVec.ofNat 32 b) v.toNat
  chains : ∀ i, g.Hashed i →
    g.hash.readWord (g.chainoff (i - g.header.symoffset.toNat)) = .ok (g.chainValue i)
  bloom : ∀ i, g.Hashed i → g.bloomHas (gnuHash (g.nameAt i)) = true
  bloom_words : ∀ k < g.header.bloom_size.toNat, ∃ w, g.hash.readXword (g.bloomoff k) = .ok w

variable {g}

theorem read_symAt {i : Nat} (hi : i < g.count) : g.table.read i = .ok (g.symAt i) := by
  have hi' : i < g.table.syms.length := hi
  simp [SymbolSection.read, symAt, List.getD_eq_getElem?_getD, List.getElem?_eq_getElem hi']

theorem chainValue_or_one (i : Nat) : g.chainValue i ||| 1 = gnuHash (g.nameAt i) ||| 1 := by
  unfold chainValue
  split
  · exact or_one_or_one _
  · exact clear_low_or_one _

theorem chainValue_and_one (i : Nat) : g.chainValue i &&& 1 ≠ 0 ↔ g.LastInBucket i := by
  unfold chainValue
  split
  · exact iff_of_true (or_one_and_one _) ‹_›
  · exact iff_of_false (not_not.mpr (clear_low_and_one _)) ‹_›

theorem hashed_succ {i : Nat} (hi : g.Hashed i) (hl : ¬g.LastInBucket i) :
    g.Hashed (i + 1) ∧ g.bucketAt (i + 1) = g.bucketAt i := by
  simp only [LastInBucket, not_or, ne_eq, not_not] at hl
  obtain ⟨hlo, hhi⟩ := hi
  exact ⟨⟨by omega, by omega⟩, hl.2⟩

section Walk

variable (hb : g.Built)
include hb

theorem walk_hashed {n : Name} {fuel i : Nat} (hi : g.Hashed i) (hi32 : i < 2 ^ 32) :
    g.walk (gnuHash n) n (fuel + 1) (BitVec.ofNat 32 i) =
      if g.nameAt i = n then .ok (BitVec.ofNat 32 i, g.symAt i)
      else if g.LastInBucket i then .ok (0, undef)
      else g.walk (gnuHash n) n fuel (BitVec.ofNat 32 (i + 1)) := by
  obtain ⟨hlo, hhi⟩ := hi
  replace hi32 : (BitVec.ofNat 32 i).toNat = i := by simp [BitVec.toNat_ofNat]; omega
  have hsub : (BitVec.ofNat 32 i - g.header.symoffset).toNat = i - g.header.symoffset.toNat := by
    rw [BitVec.toNat_sub_of_le (by rw [BitVec.le_def, hi32]; exact hlo), hi32]
  simp only [walk, hi32, read_symAt hhi, Except.ok_bind, hsub, hb.chains i ⟨hlo, hhi⟩,
    chainValue_or_one, chainValue_and_one]
  by_cases hname : g.nameAt i = n
  · simp [← hname, nameAt]
  · have : ¬(gnuHash (g.nameAt i) ||| 1 = gnuHash n ||| 1 ∧ g.table.name (g.symAt i) = n) :=
      fun h => hname h.2
    have hsucc : BitVec.ofNat 32 i + 1 = BitVec.ofNat 32 (i + 1) := by
      apply BitVec.eq_of_toNat_eq
      simp only [BitVec.toNat_add, BitVec.toNat_ofNat, BitVec.ofNat_eq_ofNat]
      omega
    simp only [this, hname, if_false, hsucc]

theorem walk_skip {n : Name} {a b : Nat} (hab : a ≤ b) (hb32 : b ≤ 2 ^ 32)
    (hrun : ∀ k, a ≤ k → k < b → g.Hashed k ∧ g.nameAt k ≠ n ∧ ¬g.LastInBucket k) (fuel : Nat) :
    g.walk (gnuHash n) n (fuel + (b - a)) (BitVec.ofNat 32 a) =
      g.walk (gnuHash n) n fuel (BitVec.ofNat 32 b) := by
  generalize hd : b - a = d
  induction d generalizing a with
  | zero =>
    obtain rfl : a = b := by omega
    rfl
  | succ d ih =>
    obtain ⟨hk, hn, hl⟩ := hrun a le_rfl (by omega)
    rw [← Nat.add_assoc, walk_hashed hb hk (by omega), if_neg hn, if_neg hl]
    exact ih (by omega) (fun k hk hkb => hrun k (by omega) hkb) (by omega)

theorem bucketAt_ne_of_last {i j : Nat} (hi : g.Hashed i) (hl : g.LastInBucket i)
    (hj : g.Hashed j) (hij : i < j) : g.bucketAt j ≠ g.bucketAt i := by
  obtain ⟨hjlo, hjhi⟩ := hj
  rcases hl with hc | hne
  · omega
  · intro heq
    have hs : g.Hashed (i + 1) := ⟨by have := hi.1; omega, by omega⟩
    have h1 := hb.sorted i (i + 1) hi hs (by omega)
    have h2 := hb.sorted (i + 1) j hs ⟨hjlo, hjhi⟩ (by omega)
    rw [heq] at h2
    rw [BitVec.le_def] at h1 h2
    exact hne (BitVec.eq_of_toNat_eq (by omega))

variable (hN : g.count ≤ 2 ^ 32)
include hN

theorem walk_found {n : Name} {i : Nat} (hi : g.Hashed i) (hn : g.nameAt i = n)
    (hleast : ∀ j, g.Hashed j → j < i → g.nameAt j ≠ n) (fuel k : Nat) (hk : g.Hashed k)
    (hki : k ≤ i) (hbk : g.bucketAt k = g.bucketAt i) (hf : i - k < fuel) :
    g.walk (gnuHash n) n fuel (BitVec.ofNat 32 k) = .ok (BitVec.ofNat 32 i, g.symAt i) := by
  induction fuel generalizing k with
  | zero => omega
  | succ fuel ih =>
    rw [walk_hashed hb hk (by have := hk.2; omega)]
    by_cases hkn : g.nameAt k = n
    · obtain rfl : k = i := by
        by_contra hne
        exact hleast k hk (by omega) hkn
      simp [hkn]
    · have hki' : k < i := Nat.lt_of_le_of_ne hki fun h => hkn (h ▸ hn)
      have hnl : ¬g.LastInBucket k := fun hl => bucketAt_ne_of_last hb hk hl hi hki' hbk.symm
      obtain ⟨hk1, hbk1⟩ := hashed_succ hk hnl
      simp only [hkn, hnl, if_false]
      exact ih (k + 1) hk1 (by omega) (hbk1.trans hbk) (by omega)

theorem walk_absent {n : Name} (hno : ∀ j, g.Hashed j → g.nameAt j ≠ n) (fuel k : Nat)
    (hk : g.Hashed k) (hf : g.count - k ≤ fuel) :
    g.walk (gnuHash n) n fuel (BitVec.ofNat 32 k) = .ok (0, undef) := by
  induction fuel generalizing k with
  | zero => have := hk.2; omega
  | succ fuel ih =>
    rw [walk_hashed hb hk (by have := hk.2; omega)]
    simp only [hno k hk, if_false]
    split
    · rfl
    · exact ih (k + 1) (hashed_succ hk ‹_›).1 (by omega)

end Walk

def oneBucketChain (t : SymbolSection) : List Word :=
  (List.range (t.syms.length - 1)).map fun k =>
    let h := gnuHash (t.name (t.syms.getD (k + 1) default))
    if k + 2 = t.syms.length then h ||| 1 else h &&& ~~~1

def oneBucket (t : SymbolSection) : GnuHash :=
  ⟨encodeWords [1, 1, 1, 0] ++ encodeLE 8 (BitVec.allOnes 64).toNat ++
    encodeWords (1 :: oneBucketChain t), ⟨1, 1, 1, 0⟩, t⟩

section OneBucket

variable {t : SymbolSection}

@[simp] theorem oneBucket_header : (oneBucket t).header = ⟨1, 1, 1, 0⟩ := rfl

theorem umod_one (x : Word) : x % 1 = 0 :=
  BitVec.eq_of_toNat_eq (by simp [BitVec.toNat_umod])

theorem oneBucket_bucketAt (i : Nat) : (oneBucket t).bucketAt i = 0 := umod_one _

theorem oneBucket_lastInBucket (i : Nat) : (oneBucket t).LastInBucket i ↔ i + 1 = t.syms.length := by
  rw [LastInBucket, oneBucket_bucketAt, oneBucket_bucketAt, ne_self_iff_false, or_false]; rfl

theorem oneBucket_bloomWord : (oneBucket t).hash.readXword 16 = .ok (BitVec.allOnes 64) := by
  have := Reader.readXword_append (encodeWords [1, 1, 1, 0]) (encodeWords (1 :: oneBucketChain t))
    (BitVec.allOnes 64).toNat
  rwa [BitVec.ofNat_toNat, BitVec.setWidth_eq] at this

theorem oneBucket_word {k : Nat} (hk : k < t.syms.length) :
    (oneBucket t).hash.readWord (24 + 4 * k) =
      .ok (if k = 0 then 1 else (oneBucket t).chainValue k) := by
  have hlen : k < (1 :: oneBucketChain t).length := by simp [oneBucketChain]; omega
  have := Reader.readWord_encodeWords (encodeWords [1, 1, 1, 0] ++ encodeLE 8 (BitVec.allOnes 64).toNat)
    [] (1 :: oneBucketChain t) hlen
  rw [List.append_nil] at this
  refine this.trans (congrArg _ ?_)
  rcases k with _ | k
  · rfl
  · simp only [List.getElem_cons_succ, oneBucketChain, List.getElem_map, List.getElem_range,
      chainValue, oneBucket_lastInBucket, nameAt, symAt]
    rfl

theorem toNat_umod_one (x : Word) : (x % 1).toNat = 0 := by rw [umod_one]; rfl

theorem oneBucket_built (h2 : 2 ≤ t.syms.length) : (oneBucket t).Built where
  nbuckets_ne := by rw [oneBucket_header]; decide
  bloom_size_ne := by rw [oneBucket_header]; decide
  bloom_shift_lt := by rw [oneBucket_header]; decide
  symoffset_ne := by rw [oneBucket_header]; decide
  symoffset_le := by show 1 ≤ t.syms.length; omega
  sorted _ _ _ _ _ := by rw [oneBucket_bucketAt, oneBucket_bucketAt]; exact BitVec.le_refl 0
  buckets b hb := by
    obtain rfl : b = 0 := by simpa [oneBucket] using hb
    refine ⟨1, oneBucket_word (by omega), ?_⟩
    refine ⟨⟨le_rfl, by show 1 < t.syms.length; omega⟩, oneBucket_bucketAt 1, fun i hi _ => hi.1⟩
  chains i hi := by
    obtain ⟨h1, h2⟩ := hi
    change 1 ≤ i at h1
    have := oneBucket_word (t := t) h2
    rw [if_neg (by omega)] at this
    rw [← this]
    congr 1
    show 24 + 4 + 4 * (i - 1) = 24 + 4 * i
    omega
  bloom i _ := by
    simp only [bloomHas, oneBucket_header, toNat_umod_one]
    rw [show (oneBucket t).bloomoff 0 = 16 from rfl, oneBucket_bloomWord]
    simp only [BitVec.getLsbD_allOnes, Bool.and_eq_true, decide_eq_true_eq, BitVec.toNat_umod]
    exact ⟨Nat.mod_lt _ (by decide), Nat.mod_lt _ (by decide)⟩
  bloom_words k hk := by
    obtain rfl : k = 0 := by simpa [oneBucket] using hk
    exact ⟨_, oneBucket_bloomWord⟩

theorem oneBucket_findSymbol (h2 : 2 ≤ t.syms.length) (fuel : Nat) (n : CStr) :
    (oneBucket t).findSymbol fuel n = (oneBucket t).walk (gnuHash n.1) n.1 fuel 1 := by
  have hw := oneBucket_word (t := t) (k := 0) (by omega)
  simp only [findSymbol, oneBucket_header, toNat_umod_one]
  rw [show (oneBucket t).bloomoff 0 = 16 from rfl, oneBucket_bloomWord,
    show (oneBucket t).bucketoff 0 = 24 + 4 * 0 from rfl, hw]
  have h10 : ¬(1 : Word) = 0 := by decide
  have h32 : ¬32 ≤ (0 : Word).toNat := by decide
  have h11 : ¬(1 : Word) < 1 := by decide
  simp only [h10, h32, h11, if_false, if_true, Except.ok_bind, BitVec.allOnes_and, ne_eq,
    not_true_eq_false]

end OneBucket

def runTable (m : Nat) : SymbolSection :=
  ⟨undef :: (List.replicate m ⟨1, 0x12, 0, 1, 0x1000, 8⟩ ++ [⟨3, 0x12, 0, 1, 0x2000, 8⟩]),
    [0, 0x62, 0, 0x6e, 0]⟩

section Run

variable {m : Nat}

theorem runTable_length : (runTable m).syms.length = m + 2 := by
  simp only [runTable, List.length_cons, List.length_append, List.length_replicate, List.length_nil]

theorem runTable_symAt_zero : (oneBucket (runTable m)).symAt 0 = undef := rfl

theorem runTable_nameAt (i : Nat) : (oneBucket (runTable m)).nameAt i =
    if 1 ≤ i ∧ i ≤ m then [0x62] else if i = m + 1 then [0x6e] else [] := by
  rcases i with _ | k
  · rfl
  · simp only [nameAt, symAt, oneBucket, runTable, List.getD_eq_getElem?_getD, List.getElem?_cons_succ]
    rcases Nat.lt_or_ge k m with hk | hk
    · rw [List.getElem?_append_left (by rw [List.length_replicate]; exact hk), List.getElem?_replicate,
        if_pos hk, if_pos ⟨by omega, by omega⟩]
      rfl
    · rw [List.getElem?_append_right (by rw [List.length_replicate]; exact hk), List.length_replicate,
        if_neg (by omega)]
      rcases Nat.eq_or_lt_of_le hk with rfl | hlt
      · simp only [Nat.sub_self, List.getElem?_cons_zero, if_true]; rfl
      · rw [List.getElem?_eq_none (by simp; omega), if_neg (by omega)]; rfl

end Run

theorem findSymbol_eq_walk (hb : g.Built) (n : CStr) (fuel : Nat) :
    ∃ w v, g.hash.readXword (g.bloomoff (gnuHash n.1 / ELF_BITS % g.header.bloom_size).toNat)
        = .ok w ∧ g.BucketWord (gnuHash n.1 % g.header.nbuckets) v.toNat ∧
      g.findSymbol fuel n =
        if w &&& g.mask (gnuHash n.1) ≠ g.mask (gnuHash n.1) then .ok (0, undef)
        else if v < g.header.symoffset then .ok (0, undef)
        else g.walk (gnuHash n.1) n.1 fuel v := by
  obtain ⟨w, hw⟩ := hb.bloom_words (gnuHash n.1 / ELF_BITS % g.header.bloom_size).toNat (by
    rw [BitVec.toNat_umod]; exact Nat.mod_lt _ (toNat_pos_of_ne hb.bloom_size_ne))
  obtain ⟨v, hv, hbw⟩ := hb.buckets (gnuHash n.1 % g.header.nbuckets).toNat (by
    rw [BitVec.toNat_umod]; exact Nat.mod_lt _ (toNat_pos_of_ne hb.nbuckets_ne))
  refine ⟨w, v, hw, by rwa [BitVec.ofNat_toNat, BitVec.setWidth_eq] at hbw, ?_⟩
  simp only [findSymbol, hb.bloom_size_ne, hw, Except.ok_bind, if_false,
    Nat.not_le.mpr hb.bloom_shift_lt, hb.nbuckets_ne, hv]

theorem ofNat_toNat_word (v : Word) : BitVec.ofNat 32 v.toNat = v := by
  rw [BitVec.ofNat_toNat, BitVec.setWidth_eq]

/-- For a `.gnu.hash` section laid out by the GNU hash construction over a
table of at most `2^32` symbols, `GnuHash::findSymbol` answers what a scan of
the hashed symbols answers: the least hashed index whose name is `n` with its
symbol, or `(0, undef())` when no hashed symbol is named `n`. -/
theorem findSymbol_least_named (hb : g.Built) (hN : g.count ≤ 2 ^ 32) {fuel : Nat}
    (hfuel : g.count ≤ fuel) (n : CStr) :
    (∀ i, g.Hashed i → g.nameAt i = n.1 → (∀ j, g.Hashed j → j < i → g.nameAt j ≠ n.1) →
      g.findSymbol fuel n = .ok (BitVec.ofNat 32 i, g.symAt i)) ∧
    ((∀ i, g.Hashed i → g.nameAt i ≠ n.1) → g.findSymbol fuel n = .ok (0, undef)) := by
  obtain ⟨w, v, hw, hbw, heq⟩ := findSymbol_eq_walk hb n fuel
  rw [heq]
  unfold BucketWord at hbw
  constructor
  · intro i hi hn hleast
    have hbloom := hb.bloom i hi
    simp only [bloomHas, hn, hw, Bool.and_eq_true] at hbloom
    have hbi : g.bucketAt i = gnuHash n.1 % g.header.nbuckets := by simp only [bucketAt, hn]
    split at hbw
    · exact absurd hbi (hbw i hi)
    · obtain ⟨hv, hbv, hvmin⟩ := hbw
      have hvi := hvmin i hi hbi
      have hnot : ¬v < g.header.symoffset := by rw [BitVec.lt_def]; exact Nat.not_lt.mpr hv.1
      simp only [mask, and_two_bits hbloom.1 hbloom.2, ne_eq, not_true_eq_false, if_false, hnot]
      rw [← ofNat_toNat_word v]
      exact walk_found hb hN hi hn hleast fuel v.toNat hv hvi (hbv.trans hbi.symm)
        (by have := hi.2; omega)
  · intro hno
    split
    · rfl
    split
    · rfl
    rename_i hnot
    split at hbw
    · exact absurd (BitVec.lt_def.mpr (by rw [‹v.toNat = 0›]; exact toNat_pos_of_ne hb.symoffset_ne)) hnot
    · rw [← ofNat_toNat_word v]
      exact walk_absent hb hN hno fuel v.toNat hbw.1 (by omega)

theorem findSymbol_least_named_on_xy :
    (oneBucket xyTable).Built ∧ (oneBucket xyTable).count ≤ 2 ^ 32 ∧ (oneBucket xyTable).count ≤ 3 ∧
    ((∀ i, (oneBucket xyTable).Hashed i → (oneBucket xyTable).nameAt i = [0x79] →
        (∀ j, (oneBucket xyTable).Hashed j → j < i → (oneBucket xyTable).nameAt j ≠ [0x79]) →
        (oneBucket xyTable).findSymbol 3 ⟨[0x79], by decide⟩ =
          .ok (BitVec.ofNat 32 i, (oneBucket xyTable).symAt i)) ∧
      ((∀ i, (oneBucket xyTable).Hashed i → (oneBucket xyTable).nameAt i ≠ [0x79]) →
        (oneBucket xyTable).findSymbol 3 ⟨[0x79], by decide⟩ = .ok (0, undef))) :=
  have hb := oneBucket_built (t := xyTable) (by decide)
  ⟨hb, by decide, by decide, findSymbol_least_named hb (by decide) (by decide) ⟨[0x79], by decide⟩⟩

/-- On a table of `2^32 + 1` symbols laid out by the construction whose only
symbol named `n` is the last, at index `2^32`, the `uint32_t` index of the
walk wraps from `2^32 - 1` to 0, symbol 0 is read against the last chain word,
and the lookup reports a miss. -/
theorem findSymbol_misses_past_index_wrap :
    (oneBucket (runTable (2 ^ 32 - 1))).Built ∧
    (oneBucket (runTable (2 ^ 32 - 1))).count = 2 ^ 32 + 1 ∧
    (oneBucket (runTable (2 ^ 32 - 1))).Hashed (2 ^ 32) ∧
    (oneBucket (runTable (2 ^ 32 - 1))).nameAt (2 ^ 32) = [0x6e] ∧
    (∀ j, (oneBucket (runTable (2 ^ 32 - 1))).Hashed j → j < 2 ^ 32 →
      (oneBucket (runTable (2 ^ 32 - 1))).nameAt j ≠ [0x6e]) ∧
    (oneBucket (runTable (2 ^ 32 - 1))).findSymbol (2 ^ 32 + 1) ⟨[0x6e], by decide⟩ =
      .ok (0, undef) := by
  have hN : (oneBucket (runTable (2 ^ 32 - 1))).count = 2 ^ 32 + 1 := by
    rw [count, show (oneBucket (runTable (2 ^ 32 - 1))).table = runTable (2 ^ 32 - 1) from rfl,
      runTable_length]
    omega
  have hb := oneBucket_built (t := runTable (2 ^ 32 - 1)) (by rw [runTable_length]; omega)
  have hname : (oneBucket (runTable (2 ^ 32 - 1))).nameAt (2 ^ 32) = [0x6e] := by
    rw [runTable_nameAt, if_neg (by omega), if_pos (by omega)]
  have hrun : ∀ k, 1 ≤ k → k < 2 ^ 32 → (oneBucket (runTable (2 ^ 32 - 1))).Hashed k ∧
      (oneBucket (runTable (2 ^ 32 - 1))).nameAt k ≠ [0x6e] ∧
      ¬(oneBucket (runTable (2 ^ 32 - 1))).LastInBucket k := fun k h1 h2 =>
    ⟨⟨h1, by omega⟩, by rw [runTable_nameAt, if_pos ⟨h1, by omega⟩]; decide,
      by rw [oneBucket_lastInBucket, runTable_length]; omega⟩
  refine ⟨hb, hN, ⟨le_of_lt (by decide), by omega⟩, hname,
    fun j hj hj32 => (hrun j hj.1 hj32).2.1, ?_⟩
  have hskip : (oneBucket (runTable (2 ^ 32 - 1))).walk (gnuHash [0x6e]) [0x6e] (2 + (2 ^ 32 - 1))
      (BitVec.ofNat 32 1) = (oneBucket (runTable (2 ^ 32 - 1))).walk (gnuHash [0x6e]) [0x6e] 2
      (BitVec.ofNat 32 (2 ^ 32)) := walk_skip hb (by norm_num) le_rfl hrun 2
  have hlast : (oneBucket (runTable (2 ^ 32 - 1))).hash.readWord
      ((oneBucket (runTable (2 ^ 32 - 1))).chainoff ((0 - (oneBucket (runTable (2 ^ 32 - 1))).header.symoffset).toNat)) =
      .ok (gnuHash [0x6e] ||| 1) := by
    have := oneBucket_word (t := runTable (2 ^ 32 - 1)) (k := 2 ^ 32) (by rw [runTable_length]; omega)
    rw [if_neg (by omega), chainValue, if_pos ((oneBucket_lastInBucket _).mpr (by rw [runTable_length]; omega)),
      hname] at this
    exact this
  rw [oneBucket_findSymbol (by rw [runTable_length]; omega), show 2 ^ 32 + 1 = 2 + (2 ^ 32 - 1) by norm_num,
    show (1 : Word) = BitVec.ofNat 32 1 from rfl, hskip, show BitVec.ofNat 32 (2 ^ 32) = 0 from rfl, walk]
  have hu : (oneBucket (runTable (2 ^ 32 - 1))).table.name undef ≠ [0x6e] := by decide
  rw [show (0 : Word).toNat = 0 from rfl, read_symAt (by rw [hN]; omega), Except.ok_bind, hlast,
    Except.ok_bind, runTable_symAt_zero, if_neg fun h => hu h.2, if_pos (or_one_and_one _)]

/-- A `.gnu.hash` header under which the lookup divides by no zero and shifts
by less than 32. -/
structure Sane : Prop where
  nbuckets_ne : g.header.nbuckets ≠ 0
  bloom_size_ne : g.header.bloom_size ≠ 0
  bloom_shift_lt : g.header.bloom_shift.toNat < 32

theorem walk_ends (hN : g.count < 2 ^ 32) (symhash : Word) (name : Name) (idx : Word) :
    ∃ r F, (∀ fuel, F ≤ fuel → g.walk symhash name fuel idx = r) ∧ LookupAnswer g.table name r := by
  generalize hk : g.count - idx.toNat = k
  induction k generalizing idx with
  | zero =>
    refine ⟨.error .readError, 1, fun fuel hf => ?_, Or.inr (Or.inr rfl)⟩
    obtain ⟨f, rfl⟩ := Nat.exists_eq_add_of_le' hf
    simp [walk, SymbolSection.read, List.getElem?_eq_none (show g.table.syms.length ≤ idx.toNat
      from by unfold count at hk; omega)]
  | succ k ih =>
    have hidx : idx.toNat < g.count := by omega
    cases hc : g.hash.readWord (g.chainoff (idx - g.header.symoffset).toNat) with
    | error e =>
      refine ⟨.error e, 1, fun fuel hf => ?_, Or.inr (Or.inr (by rw [Reader.readWord_error hc]))⟩
      obtain ⟨f, rfl⟩ := Nat.exists_eq_add_of_le' hf
      simp only [walk, read_symAt hidx, hc, Except.ok_bind, Except.error_bind]
    | ok ch =>
      by_cases hm : (ch ||| 1) = (symhash ||| 1) ∧ g.table.name (g.symAt idx.toNat) = name
      · refine ⟨.ok (idx, g.symAt idx.toNat), 1, fun fuel hf => ?_, Or.inr (Or.inl ⟨_, _, rfl, hm.2⟩)⟩
        obtain ⟨f, rfl⟩ := Nat.exists_eq_add_of_le' hf
        simp only [walk, read_symAt hidx, hc, Except.ok_bind, hm, and_self, if_true]
      by_cases hl : ch &&& 1 ≠ 0
      · refine ⟨.ok (0, undef), 1, fun fuel hf => ?_, Or.inl rfl⟩
        obtain ⟨f, rfl⟩ := Nat.exists_eq_add_of_le' hf
        simp only [walk, read_symAt hidx, hc, Except.ok_bind, hm, if_false]
        rw [if_pos hl]
      · have hsucc : (idx + 1).toNat = idx.toNat + 1 := by
          rw [BitVec.toNat_add]; simp only [BitVec.ofNat_eq_ofNat, BitVec.toNat_ofNat]; omega
        obtain ⟨r, F, hF, hr⟩ := ih (idx + 1) (by omega)
        refine ⟨r, F + 1, fun fuel hf => ?_, hr⟩
        obtain ⟨f, rfl⟩ := Nat.exists_eq_add_of_le' (show 1 ≤ fuel by omega)
        simp only [walk, read_symAt hidx, hc, Except.ok_bind, hm, hl, if_false]
        exact hF f (by omega)

theorem findSymbol_ends (hs : g.Sane) (hN : g.count < 2 ^ 32) (name : CStr) :
    ∃ r F, (∀ fuel, F ≤ fuel → g.findSymbol fuel name = r) ∧ LookupAnswer g.table name.1 r := by
  simp only [findSymbol, hs.bloom_size_ne, if_false, Nat.not_le.mpr hs.bloom_shift_lt, hs.nbuckets_ne]
  cases hw : g.hash.readXword (g.bloomoff (gnuHash name.1 / ELF_BITS % g.header.bloom_size).toNat) with
  | error e => exact ⟨.error e, 0, fun _ _ => rfl, Or.inr (Or.inr (by rw [Reader.readXword_error hw]))⟩
  | ok w =>
    simp only [Except.ok_bind]
    split
    · exact ⟨.ok (0, undef), 0, fun _ _ => rfl, Or.inl rfl⟩
    cases hv : g.hash.readWord (g.bucketoff (gnuHash name.1 % g.header.nbuckets).toNat) with
    | error e => exact ⟨.error e, 0, fun _ _ => rfl, Or.inr (Or.inr (by rw [Reader.readWord_error hv]))⟩
    | ok v =>
      simp only [Except.ok_bind]
      split
      · exact ⟨.ok (0, undef), 0, fun _ _ => rfl, Or.inl rfl⟩
      · exact walk_ends hN _ _ v

end GnuHash

end PstackElf.Hash
