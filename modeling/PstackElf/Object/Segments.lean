import PstackElf.Defs.Object
import PstackElf.Defs.Image

/-! `getSegmentForAddress`: a one-slot cache in front of libstdc++'s
`std::lower_bound` over the `PT_LOAD` headers. The search is exact when its
predicate, "the segment ends at or below `a`", holds on a prefix of the list.
That is so when the segments are sorted by start, non-empty, pairwise
disjoint and end below `2^64`; the lookup then returns the segment containing
`a`, whatever the cache holds, and nothing at or past `endVA()`. An empty
segment after a non-empty one, a segment ending exactly at `2^64` (its end
wraps to 0) or a prelink delta that wraps a start breaks the prefix, and a
covered address is then missed. -/

namespace PstackElf

section LowerBound

variable {α : Type} [Inhabited α] (comp : α → Bool) (xs : List α)

def Partitioned : Prop :=
  ∀ i j, i ≤ j → j < xs.length → comp (xs.getD j default) → comp (xs.getD i default)

def PartitionPoint (r : Nat) : Prop :=
  r ≤ xs.length ∧ (∀ j < r, comp (xs.getD j default)) ∧
    ∀ j, r ≤ j → j < xs.length → comp (xs.getD j default) = false

variable {comp xs}

theorem lowerBoundFrom_partitionPoint (hp : Partitioned comp xs) :
    ∀ fuel first len, len ≤ fuel → first + len ≤ xs.length →
      (∀ j < first, comp (xs.getD j default)) →
      (∀ j, first + len ≤ j → j < xs.length → comp (xs.getD j default) = false) →
      PartitionPoint comp xs (lowerBoundFrom comp xs fuel first len)
  | 0, first, len, hf, hn, hlo, hhi => by
    obtain rfl : len = 0 := by omega
    exact ⟨hn, hlo, hhi⟩
  | fuel + 1, first, len, hf, hn, hlo, hhi => by
    unfold lowerBoundFrom
    dsimp only
    split
    · subst len; exact ⟨hn, hlo, hhi⟩
    have hmid : first + len / 2 < xs.length := by omega
    split
    · next hc =>
      refine lowerBoundFrom_partitionPoint hp fuel _ _ (by omega) (by omega) (fun j hj => ?_)
        (fun j hj => hhi j (by omega))
      by_cases hjf : j < first
      · exact hlo j hjf
      · exact hp j _ (by omega) hmid hc
    · next hc =>
      refine lowerBoundFrom_partitionPoint hp fuel _ _ (by omega) (by omega) hlo (fun j hj hjn => ?_)
      by_cases hjl : first + len ≤ j
      · exact hhi j hjl hjn
      · exact Bool.eq_false_iff.mpr fun hcj => hc (hp _ j (by omega) hjn hcj)

theorem lowerBound_partitionPoint (hp : Partitioned comp xs) :
    PartitionPoint comp xs (lowerBound comp xs) :=
  lowerBoundFrom_partitionPoint hp _ 0 _ le_rfl (by omega) (fun _ h => absurd h (Nat.not_lt_zero _))
    fun _ hj hjn => absurd hjn (by omega)

end LowerBound

namespace Phdr

def limit (h : Phdr) : Nat := h.p_vaddr.toNat + h.p_memsz.toNat

def Contains (h : Phdr) (a : Off) : Prop := h.p_vaddr.toNat ≤ a.toNat ∧ a.toNat < h.limit

instance (h : Phdr) (a : Off) : Decidable (h.Contains a) := inferInstanceAs (Decidable (_ ∧ _))

def Disjoint (h h' : Phdr) : Prop := ∀ a : Off, ¬(h.Contains a ∧ h'.Contains a)

theorem disjoint_iff {h h' : Phdr} :
    h.Disjoint h' ↔ min h.limit h'.limit ≤ max h.p_vaddr.toNat h'.p_vaddr.toNat := by
  constructor
  · intro hd
    by_contra hlt
    have hmax : max h.p_vaddr.toNat h'.p_vaddr.toNat < 2 ^ 64 := max_lt h.p_vaddr.isLt h'.p_vaddr.isLt
    refine hd (BitVec.ofNat 64 (max h.p_vaddr.toNat h'.p_vaddr.toNat)) ?_
    simp only [Contains, BitVec.toNat_ofNat, Nat.mod_eq_of_lt hmax]
    omega
  · rintro hle a ⟨⟨h1, h2⟩, h3, h4⟩
    omega

instance (h h' : Phdr) : Decidable (h.Disjoint h') := decidable_of_iff _ disjoint_iff.symm

theorem toNat_end {h : Phdr} (hb : h.limit < 2 ^ 64) : (h.p_vaddr + h.p_memsz).toNat = h.limit := by
  rw [BitVec.toNat_add]; exact Nat.mod_eq_of_lt hb

theorem contains_iff {h : Phdr} {a : Off} (hb : h.limit < 2 ^ 64) :
    h.Contains a ↔ h.p_vaddr ≤ a ∧ a < h.p_vaddr + h.p_memsz := by
  rw [BitVec.le_def, BitVec.lt_def, toNat_end hb]; rfl

end Phdr

/-- The `PT_LOAD` lists on which the lookup is exact: ascending by start,
every segment non-empty and ending below `2^64`, no two overlapping. -/
structure LoadLayout (hdrs : List Phdr) : Prop where
  sorted : hdrs.Sorted fun a b => a.p_vaddr ≤ b.p_vaddr
  nonempty : ∀ h ∈ hdrs, h.p_memsz ≠ 0
  below : ∀ h ∈ hdrs, h.limit < 2 ^ 64
  disjoint : hdrs.Pairwise Phdr.Disjoint

namespace LoadLayout

variable {hdrs : List Phdr} (hl : LoadLayout hdrs) {i j : Nat} {h h' : Phdr}
include hl

theorem below_of_get (hi : hdrs[i]? = some h) : h.limit < 2 ^ 64 :=
  hl.below h (List.mem_iff_getElem?.mpr ⟨i, hi⟩)

theorem limit_le_vaddr (hij : i < j) (hi : hdrs[i]? = some h) (hj : hdrs[j]? = some h') :
    h.limit ≤ h'.p_vaddr.toNat := by
  obtain ⟨hi', rfl⟩ := List.getElem?_eq_some_iff.mp hi
  obtain ⟨hj', rfl⟩ := List.getElem?_eq_some_iff.mp hj
  have hs := BitVec.le_def.mp (List.pairwise_iff_getElem.mp hl.sorted i j hi' hj' hij)
  have hd := List.pairwise_iff_getElem.mp hl.disjoint i j hi' hj' hij
  have hne := toNat_pos_of_ne (hl.nonempty _ (List.getElem_mem hj'))
  by_contra hlt
  exact hd hdrs[j].p_vaddr ⟨⟨hs, by omega⟩, le_rfl, by unfold Phdr.limit; omega⟩

theorem limit_lt_limit (hij : i < j) (hi : hdrs[i]? = some h) (hj : hdrs[j]? = some h') :
    h.limit < h'.limit := by
  have := hl.limit_le_vaddr hij hi hj
  have := toNat_pos_of_ne (hl.nonempty h' (List.mem_iff_getElem?.mpr ⟨j, hj⟩))
  unfold Phdr.limit at *; omega

theorem index_unique {a : Off} (hi : hdrs[i]? = some h) (ha : h.Contains a)
    (hj : hdrs[j]? = some h') (ha' : h'.Contains a) : i = j := by
  rcases Nat.lt_trichotomy i j with hij | rfl | hij
  · have := hl.limit_le_vaddr hij hi hj; unfold Phdr.Contains at *; omega
  · rfl
  · have := hl.limit_le_vaddr hij hj hi; unfold Phdr.Contains at *; omega

theorem partitioned (a : Off) :
    Partitioned (fun header : Phdr => decide (header.p_vaddr + header.p_memsz ≤ a)) hdrs := by
  intro i j hij hj hc
  obtain ⟨hj', hget⟩ : ∃ hj' : j < hdrs.length, hdrs.getD j default = hdrs[j] :=
    ⟨hj, by rw [List.getD_eq_getElem?_getD, List.getElem?_eq_getElem hj]; rfl⟩
  have hi : hdrs.getD i default = hdrs[i] := by
    rw [List.getD_eq_getElem?_getD, List.getElem?_eq_getElem (by omega)]; rfl
  rw [hget] at hc
  rw [hi]
  have hbj := hl.below_of_get (List.getElem?_eq_getElem hj')
  have hbi := hl.below_of_get (List.getElem?_eq_getElem (show i < hdrs.length by omega))
  simp only [decide_eq_true_eq, BitVec.le_def, Phdr.toNat_end hbj, Phdr.toNat_end hbi] at hc ⊢
  rcases Nat.eq_or_lt_of_le hij with rfl | hlt
  · exact hc
  · have := hl.limit_lt_limit hlt (List.getElem?_eq_getElem (show i < hdrs.length by omega))
      (List.getElem?_eq_getElem hj')
    omega

end LoadLayout

namespace Object

variable {o : Object} {a : Off} {i : Nat}

theorem getSegmentForAddress_fst (o : Object) (a : Off) :
    (o.getSegmentForAddress a).1 = (o.cacheHit a).orElse fun _ => findSegment (o.getSegments PT_LOAD) a := by
  unfold getSegmentForAddress
  split <;> [skip; split] <;> simp_all [Option.orElse]

theorem cacheHit_spec (hc : o.cacheHit a = some i) :
    ∃ h, (o.getSegments PT_LOAD)[i]? = some h ∧ h.p_vaddr ≤ a ∧ a < h.p_vaddr + h.p_memsz := by
  obtain ⟨-, hp⟩ := Option.filter_eq_some.mp hc
  revert hp
  split
  · next h hh => simpa using fun h1 h2 => ⟨h, hh, h1, h2⟩
  · simp

theorem getSegments_getSegmentForAddress (o : Object) (a : Off) (t : Word) :
    (o.getSegmentForAddress a).2.getSegments t = o.getSegments t := by
  unfold getSegmentForAddress
  split <;> [rfl; split] <;> rfl

section Find

variable {hdrs : List Phdr} (hl : LoadLayout hdrs)
include hl

theorem findSegment_some (hf : findSegment hdrs a = some i) :
    ∃ h, hdrs[i]? = some h ∧ h.Contains a := by
  unfold findSegment at hf
  dsimp only at hf
  have hpp := lowerBound_partitionPoint (hl.partitioned a)
  split at hf
  · next h hh =>
    split at hf
    · next hv =>
      cases hf
      refine ⟨h, hh, (Phdr.contains_iff (hl.below_of_get hh)).mpr ⟨hv, ?_⟩⟩
      have hlt := (List.getElem?_eq_some_iff.mp hh).1
      have := hpp.2.2 _ le_rfl hlt
      rw [List.getD_eq_getElem?_getD, hh] at this
      simpa using this
    · cases hf
  · cases hf

theorem findSegment_none (hf : findSegment hdrs a = none) {h : Phdr} (hj : hdrs[i]? = some h) :
    ¬h.Contains a := by
  unfold findSegment at hf
  dsimp only at hf
  have hpp := lowerBound_partitionPoint (hl.partitioned a)
  have hbj := hl.below_of_get hj
  intro ⟨h1, h2⟩
  have hjl := (List.getElem?_eq_some_iff.mp hj).1
  by_cases hib : i < lowerBound (fun header => decide (header.p_vaddr + header.p_memsz ≤ a)) hdrs
  · have := hpp.2.1 i hib
    rw [List.getD_eq_getElem?_getD, hj] at this
    simp only [Option.getD_some, decide_eq_true_eq, BitVec.le_def, Phdr.toNat_end hbj] at this
    omega
  · split at hf
    · next hp hh =>
      split at hf
      · cases hf
      · next hv =>
        rw [BitVec.le_def] at hv
        rcases Nat.eq_or_lt_of_le (Nat.not_lt.mp hib) with heq | hlt
        · rw [heq, hj] at hh; cases hh; exact hv h1
        · have := hl.limit_le_vaddr hlt hh hj
          have := hl.below_of_get hh
          unfold Phdr.limit at *; omega
    · next hh => exact absurd (List.getElem?_eq_none_iff.mp hh) (by have := hpp.1; omega)

end Find

/-- On a well-laid `PT_LOAD` list the lookup returns exactly the index of the
segment containing `a`, whatever the cache holds. -/
theorem getSegmentForAddress_eq_some_iff (hl : LoadLayout (o.getSegments PT_LOAD)) (a : Off) (i : Nat) :
    (o.getSegmentForAddress a).1 = some i ↔ ∃ h, (o.getSegments PT_LOAD)[i]? = some h ∧ h.Contains a := by
  have hsome : ∀ j, (o.getSegmentForAddress a).1 = some j →
      ∃ h, (o.getSegments PT_LOAD)[j]? = some h ∧ h.Contains a := by
    intro j hj
    rw [getSegmentForAddress_fst] at hj
    cases hc : o.cacheHit a with
    | some k =>
      rw [hc] at hj; cases hj
      obtain ⟨h, hh, h1, h2⟩ := cacheHit_spec hc
      exact ⟨h, hh, (Phdr.contains_iff (hl.below_of_get hh)).mpr ⟨h1, h2⟩⟩
    | none => rw [hc] at hj; exact findSegment_some hl hj
  refine ⟨hsome i, fun ⟨h, hh, ha⟩ => ?_⟩
  cases hr : (o.getSegmentForAddress a).1 with
  | some j =>
    obtain ⟨h', hh', ha'⟩ := hsome j hr
    rw [hl.index_unique hh' ha' hh ha]
  | none =>
    rw [getSegmentForAddress_fst] at hr
    cases hc : o.cacheHit a with
    | some k => rw [hc] at hr; cases hr
    | none => rw [hc] at hr; exact absurd ha (findSegment_none hl hr hh)

theorem limit_le_endVA (hl : LoadLayout (o.getSegments PT_LOAD)) {e : Addr} (he : o.endVA = .ok e)
    {i : Nat} {h : Phdr} (hh : (o.getSegments PT_LOAD)[i]? = some h) : h.limit ≤ e.toNat := by
  unfold endVA at he
  split at he
  · next last hlast =>
    cases he
    rw [List.getLast?_eq_getElem?] at hlast
    rw [Phdr.toNat_end (hl.below_of_get hlast)]
    have hi := (List.getElem?_eq_some_iff.mp hh).1
    rcases Nat.lt_or_ge i ((o.getSegments PT_LOAD).length - 1) with hlt | hge
    · exact (hl.limit_lt_limit hlt hh hlast).le
    · rw [show i = (o.getSegments PT_LOAD).length - 1 by omega, hlast] at hh
      cases hh; exact le_rfl
  · cases he

/-- Two adjacent segments, `[0x1000, 0x2000)` and `[0x2000, 0x3000)`. -/
def adjacentSegments : Object :=
  initial PhdrSort.insertion (segmentImage [Phdr.load 0x1000 0x1000, Phdr.load 0x2000 0x1000]) false
    (Ehdr.decode (segmentImage [Phdr.load 0x1000 0x1000, Phdr.load 0x2000 0x1000]))

end Object

end PstackElf
