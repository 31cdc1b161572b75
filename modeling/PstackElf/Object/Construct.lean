import PstackElf.Defs.Image
import PstackElf.Object.Segments

/-! `Object::Object(context, io, isDebug)`, as a whole. The section-header
loop is characterised by the reads it makes; the names step, which caches the
name table's view and may cache the dynamic section's, is related to its
input by `SameSections`, a frame relation that keeps everything but the
cached views, `dynamic` and `gnu_version`; and `construct_contents` puts the
steps together. The images after it show an absent section header table read
as the ELF header and the fallback of `getSection` to `.dynamic.dwo`, and
indices from the file used past the end of the sections. -/

namespace PstackElf

theorem pushBackAll_eq {κ α : Type} [DecidableEq κ] (key : α → κ) (xs : List α) (m : κ → List α)
    (k : κ) : pushBackAll key xs m k = m k ++ xs.filter fun x => key x = k := by
  induction xs generalizing m with
  | nil => simp [pushBackAll]
  | cons x xs ih =>
    rw [pushBackAll, ih]
    by_cases h : key x = k
    · simp [h]
    · simp [h, Ne.symm h]

theorem indexNames_eq_some (ns : List Name) (s : Nat) (m : Name → Option Nat) (k : Name) (i : Nat) :
    indexNames ns s m k = some i ↔
      (∃ d, i = s + d ∧ ns[d]? = some k ∧ ∀ j, d < j → ns[j]? ≠ some k) ∨ (k ∉ ns ∧ m k = some i) := by
  induction ns generalizing s m with
  | nil => simp [indexNames]
  | cons n ns ih =>
    rw [indexNames, ih]
    constructor
    · rintro (⟨d, rfl, hd, hlast⟩ | ⟨hk, hm⟩)
      · exact Or.inl ⟨d + 1, by omega, by simpa using hd, fun j hj => by
          cases j with
          | zero => omega
          | succ j => simpa using hlast j (by omega)⟩
      · by_cases hkn : k = n
        · subst hkn
          simp only [if_true, Option.some.injEq] at hm
          exact Or.inl ⟨0, by omega, by simp, fun j hj => by
            cases j with
            | zero => omega
            | succ j => simpa using fun h => hk (List.mem_iff_getElem?.mpr ⟨j, h⟩)⟩
        · simp only [hkn, if_false] at hm
          exact Or.inr ⟨by simp [hkn, hk], hm⟩
    · rintro (⟨d, rfl, hd, hlast⟩ | ⟨hk, hm⟩)
      · cases d with
        | zero =>
          simp only [List.getElem?_cons_zero, Option.some.injEq] at hd
          subst hd
          refine Or.inr ⟨fun hmem => ?_, by simp⟩
          obtain ⟨j, hj⟩ := List.mem_iff_getElem?.mp hmem
          exact hlast (j + 1) (by omega) (by simpa using hj)
        | succ d =>
          exact Or.inl ⟨d, by omega, by simpa using hd, fun j hj => by simpa using hlast (j + 1) (by omega)⟩
      · simp only [List.mem_cons, not_or] at hk
        exact Or.inr ⟨hk.2, by simp [hk.1, hm]⟩

theorem indexNames_last (ns : List Name) (k : Name) (i : Nat) :
    indexNames ns 0 (fun _ => none) k = some i ↔ ns[i]? = some k ∧ ∀ j, i < j → ns[j]? ≠ some k := by
  rw [indexNames_eq_some]
  simp

theorem readShdrs_ok {io : Reader} {stride : Off} {n : Nat} {off : Off} {l : List Shdr}
    (h : readShdrs io stride n off = .ok l) :
    l.length = n ∧ ∀ i (hi : i < l.length), io.readShdr (off + BitVec.ofNat 64 i * stride).toNat = .ok l[i] := by
  induction n generalizing off l with
  | zero => cases h; exact ⟨rfl, fun i hi => absurd hi (Nat.not_lt_zero _)⟩
  | succ n ih =>
    obtain ⟨s, hs, h⟩ := Except.bind_eq_ok.mp h
    obtain ⟨rest, hr, h⟩ := Except.bind_eq_ok.mp h
    cases h
    obtain ⟨hlen, hget⟩ := ih hr
    refine ⟨by simp [hlen], fun i hi => ?_⟩
    cases i with
    | zero => simpa using hs
    | succ i =>
      rw [BitVec.ofNat_add, add_mul, show BitVec.ofNat 64 1 * stride = stride by simp, add_comm _ stride,
        ← add_assoc]
      exact hget i (by simp at hi; omega)

def headerCount (h : Ehdr) (s0 : Shdr) : Int :=
  if h.e_shnum = 0 ∧ h.e_shentsize ≠ 0 then max 1 (s0.sh_size.truncate 32).toInt else h.e_shnum.toNat

theorem readSectionHeaders_ok {io : Reader} {h : Ehdr} {l : List Shdr}
    (hr : readSectionHeaders io h = .ok l) :
    (l.length : Int) = headerCount h (l.headD default) ∧ ∀ i (hi : i < l.length),
      io.readShdr (h.e_shoff + BitVec.ofNat 64 i * h.e_shentsize.zeroExtend 64).toNat = .ok l[i] := by
  unfold readSectionHeaders at hr
  split at hr
  · next hext =>
    obtain ⟨s0, hs0, hr⟩ := Except.bind_eq_ok.mp hr
    dsimp only at hr
    split at hr
    · cases hr
    · next hnn =>
      obtain ⟨rest, hrest, hr⟩ := Except.bind_eq_ok.mp hr
      cases hr
      have hall : readShdrs io (h.e_shentsize.zeroExtend 64) ((s0.sh_size.truncate 32).toInt.toNat - 1 + 1)
          h.e_shoff = .ok (s0 :: rest) := by
        simp only [readShdrs, hs0, hrest, Except.ok_bind]
      obtain ⟨hlen, hget⟩ := readShdrs_ok hall
      refine ⟨?_, hget⟩
      rw [hlen, headerCount, if_pos hext, List.headD_cons]
      omega
  · next hext =>
    obtain ⟨hlen, hget⟩ := readShdrs_ok hr
    exact ⟨by rw [hlen, headerCount, if_neg hext], hget⟩

theorem Section.io_ok {B : Build} {r : Reader} {s s' : Section} {v : Reader}
    (h : s.io B r = .ok (v, s')) : s' = { s with io_ := some v } := by
  unfold Section.io at h
  split at h
  · next w hw =>
    cases h
    cases s
    simp_all
  · obtain ⟨w, -, h⟩ := Except.bind_eq_ok.mp h
    cases h
    rfl

theorem Section.io_cached {B : Build} {r : Reader} {s : Section} {w : Reader} (h : s.io_ = some w) :
    s.io B r = .ok (w, s) := by
  rw [Section.io, h]

namespace Object

variable {B : Build} {o o' o'' : Object}

/-- Two objects that differ at most in the cached views of their sections, in
`dynamic` and in `gnu_version`. -/
structure SameSections (o o' : Object) : Prop where
  io : o'.io = o.io
  elfHeader : o'.elfHeader = o.elfHeader
  programHeaders : o'.programHeaders = o.programHeaders
  length : o'.sectionHeaders.length = o.sectionHeaders.length
  shdr : ∀ i, (o'.sectionAt i).shdr = (o.sectionAt i).shdr
  name : ∀ i, (o'.sectionAt i).name = (o.sectionAt i).name
  namedSection : o'.namedSection = o.namedSection
  debugLoaded : o'.debugLoaded = o.debugLoaded
  lastSegmentForAddress : o'.lastSegmentForAddress = o.lastSegmentForAddress

theorem SameSections.refl (o : Object) : SameSections o o :=
  ⟨rfl, rfl, rfl, rfl, fun _ => rfl, fun _ => rfl, rfl, rfl, rfl⟩

theorem SameSections.trans (h1 : SameSections o o') (h2 : SameSections o' o'') : SameSections o o'' :=
  ⟨h2.io.trans h1.io, h2.elfHeader.trans h1.elfHeader, h2.programHeaders.trans h1.programHeaders,
    h2.length.trans h1.length, fun i => (h2.shdr i).trans (h1.shdr i), fun i => (h2.name i).trans (h1.name i),
    h2.namedSection.trans h1.namedSection, h2.debugLoaded.trans h1.debugLoaded,
    h2.lastSegmentForAddress.trans h1.lastSegmentForAddress⟩

theorem SameSections.withDynamic (h : SameSections o o') (d : Sxword → List Dyn) :
    SameSections o { o' with dynamic := d } :=
  ⟨h.io, h.elfHeader, h.programHeaders, h.length, h.shdr, h.name, h.namedSection, h.debugLoaded,
    h.lastSegmentForAddress⟩

theorem SameSections.withGnuVersion (h : SameSections o o') (g : Option Nat) :
    SameSections o { o' with gnu_version := g } :=
  ⟨h.io, h.elfHeader, h.programHeaders, h.length, h.shdr, h.name, h.namedSection, h.debugLoaded,
    h.lastSegmentForAddress⟩

theorem getSectionFrom_congr (h : SameSections o o') (type : Word) (fuel : Nat) (name : Name) :
    o'.getSectionFrom type fuel name = o.getSectionFrom type fuel name := by
  induction fuel generalizing name with
  | zero => rfl
  | succ fuel ih => simp only [getSectionFrom, h.namedSection, h.shdr, Section.present, ih]

theorem getSection_congr (h : SameSections o o') (name : Name) (type : Word) :
    o'.getSection name type = o.getSection name type := getSectionFrom_congr h type 3 name

def lookup (o : Object) (name : Name) (type : Word) : Option Nat :=
  (o.namedSection name).filter fun i => (o.sectionAt i).shdr.sh_type = type ∨ type = SHT_NULL

theorem sectionAt_set (o : Object) (i j : Nat) (s : Section) :
    ({ o with sectionHeaders := o.sectionHeaders.set i s } : Object).sectionAt j =
      if i = j ∧ i < o.sectionHeaders.length then s else o.sectionAt j := by
  simp only [sectionAt, List.getD_eq_getElem?_getD, List.getElem?_set]
  by_cases hij : i = j
  · subst hij
    by_cases hi : i < o.sectionHeaders.length
    · simp [hi]
    · simp [hi, List.getElem?_eq_none (Nat.not_lt.mp hi)]
  · simp [hij]

theorem sectionIo_ok {i : Nat} {r : Reader} (h : o.sectionIo B i = .ok (r, o')) :
    o' = { o with sectionHeaders := o.sectionHeaders.set i { o.sectionAt i with io_ := some r } } := by
  obtain ⟨⟨r', s'⟩, hio, h⟩ := Except.bind_eq_ok.mp h
  cases h
  rw [Section.io_ok hio]

theorem sectionIo_same {i : Nat} {r : Reader} (h : o.sectionIo B i = .ok (r, o')) : SameSections o o' := by
  rw [sectionIo_ok h]
  refine ⟨rfl, rfl, rfl, List.length_set .., fun j => ?_, fun j => ?_, rfl, rfl, rfl⟩ <;>
  · rw [sectionAt_set]; split <;> simp_all

theorem sectionIo_cached {i j : Nat} {r w : Reader} (h : o.sectionIo B i = .ok (r, o'))
    (hw : (o.sectionAt j).io_ = some w) : (o'.sectionAt j).io_ = some w := by
  have h' := h
  rw [sectionIo_ok h, sectionAt_set]
  split
  · next hij =>
    obtain ⟨rfl, -⟩ := hij
    obtain ⟨⟨r', s'⟩, hio, h⟩ := Except.bind_eq_ok.mp h'
    rw [Section.io_cached hw] at hio
    cases hio; cases h
    rfl
  · exact hw

theorem sectionIo_at {i : Nat} {r : Reader} (h : o.sectionIo B i = .ok (r, o'))
    (hi : i < o.sectionHeaders.length) : (o'.sectionAt i).io_ = some r := by
  rw [sectionIo_ok h, sectionAt_set, if_pos ⟨rfl, hi⟩]

theorem lt_of_present {i : Nat} (h : (o.sectionAt i).present) : i < o.sectionHeaders.length := by
  by_contra hi
  rw [sectionAt, List.getD_eq_getElem?_getD, List.getElem?_eq_none (Nat.not_lt.mp hi)] at h
  exact absurd h (by decide)

theorem loadDynamic_ok (h : o.loadDynamic B = .ok o') :
    SameSections o o' ∧ o'.gnu_version = o.gnu_version ∧
    (∀ j w, (o.sectionAt j).io_ = some w → (o'.sectionAt j).io_ = some w) ∧
    if (o.sectionAt (o.getSection (lit ".dynamic") SHT_DYNAMIC)).present then
      ∃ r, (o'.sectionAt (o.getSection (lit ".dynamic") SHT_DYNAMIC)).io_ = some r ∧
        o'.dynamic = pushBackAll (·.d_tag) ((r.array 16).map Dyn.decode) (fun _ => [])
    else o' = o := by
  unfold loadDynamic at h
  dsimp only at h
  split at h
  · next hp =>
    obtain ⟨⟨r, o1⟩, hio, h⟩ := Except.bind_eq_ok.mp h
    dsimp only at h
    cases h
    have hat := sectionIo_at hio (lt_of_present hp)
    refine ⟨(sectionIo_same hio).withDynamic _, by rw [sectionIo_ok hio], fun j w hw => by
      have := sectionIo_cached hio hw; exact this, ?_⟩
    rw [if_pos hp]
    exact ⟨r, hat, rfl⟩
  · next hp =>
    cases h
    exact ⟨SameSections.refl _, rfl, fun _ _ hw => hw, by rw [if_neg hp]⟩

theorem loadSectionNames_ok (h : o.loadSectionNames B = .ok o') :
    o.shstrSec < o.sectionHeaders.length ∧ ∃ strio,
      (o.sectionAt o.shstrSec).io B o.io = .ok (strio, { o.sectionAt o.shstrSec with io_ := some strio }) ∧
      ∃ o2, ({ o with
        sectionHeaders := List.zipWith (fun h n => { h with name := n })
          (o.sectionHeaders.set o.shstrSec { o.sectionAt o.shstrSec with io_ := some strio })
          (o.sectionHeaders.map fun h => strio.readString h.shdr.sh_name.toNat)
        namedSection := indexNames (o.sectionHeaders.map fun h => strio.readString h.shdr.sh_name.toNat) 0
          fun _ => none } : Object).loadDynamic B = .ok o2 ∧
        o' = { o2 with gnu_version := some (o2.getSection (lit ".gnu.version") SHT_GNU_versym) } := by
  unfold loadSectionNames at h
  split at h
  · cases h
  · next sshdr hget =>
    obtain ⟨⟨strio, sshdr'⟩, hio, h⟩ := Except.bind_eq_ok.mp h
    have hk : o.shstrSec < o.sectionHeaders.length := (List.getElem?_eq_some_iff.mp hget).1
    have hat : o.sectionAt o.shstrSec = sshdr := by rw [sectionAt, List.getD_eq_getElem?_getD, hget]; rfl
    rw [Section.io_ok hio] at h
    obtain ⟨o2, h2, h⟩ := Except.bind_eq_ok.mp h
    cases h
    rw [← hat] at hio h2
    exact ⟨hk, strio, by rw [hio, Section.io_ok hio], o2, h2, rfl⟩

theorem sectionAt_named {strio : Reader} {i : Nat} (hi : i < o.sectionHeaders.length) :
    ({ o with
        sectionHeaders := List.zipWith (fun h n => { h with name := n })
          (o.sectionHeaders.set o.shstrSec { o.sectionAt o.shstrSec with io_ := some strio })
          (o.sectionHeaders.map fun h => strio.readString h.shdr.sh_name.toNat) } : Object).sectionAt i =
      { o.sectionAt i with
        name := strio.readString (o.sectionAt i).shdr.sh_name.toNat
        io_ := if o.shstrSec = i then some strio else (o.sectionAt i).io_ } := by
  have hget : o.sectionHeaders[i]? = some (o.sectionAt i) := by
    rw [sectionAt, List.getD_eq_getElem?_getD, List.getElem?_eq_getElem hi]; rfl
  conv_lhs => rw [sectionAt, List.getD_eq_getElem?_getD, List.getElem?_zipWith, List.getElem?_set,
    List.getElem?_map, hget]
  by_cases hk : o.shstrSec = i
  · subst hk; simp [hi]
  · simp [hk, hget]

theorem loadSections_ok (h : o.loadSections B = .ok o') :
    ∃ shdrs, readSectionHeaders o.io o.elfHeader = .ok shdrs ∧
      let o1 : Object := { o with
        sectionHeaders := if shdrs = [] then [Section.null] else shdrs.map fun s => ⟨s, [], none⟩ }
      if o.elfHeader.e_shstrndx = SHN_UNDEF then o' = o1 else o1.loadSectionNames B = .ok o' := by
  obtain ⟨shdrs, hr, h⟩ := Except.bind_eq_ok.mp h
  refine ⟨shdrs, hr, ?_⟩
  dsimp only at h ⊢
  split at h
  · next hu => rw [if_pos hu]; cases h; rfl
  · next hu => rw [if_neg hu]; exact h

theorem construct_ok {σ : PhdrSort} {io : Reader} {isDebug : Bool} (h : construct B σ io isDebug = .ok o) :
    ∃ eh, io.readEhdr 0 = .ok eh ∧
      if eh.e_shoff.toNat < io.length then (initial σ io isDebug eh).loadSections B = .ok o
      else o = initial σ io isDebug eh := by
  obtain ⟨eh, he, h⟩ := Except.bind_eq_ok.mp h
  refine ⟨eh, he, ?_⟩
  dsimp only at h
  split at h
  · cases h
  split at h
  · next hs => rw [if_pos hs]; exact h
  · next hs => rw [if_neg hs]; cases h; rfl

theorem sectionAt_of_le {i : Nat} (h : o.sectionHeaders.length ≤ i) : o.sectionAt i = Section.null := by
  rw [sectionAt, List.getD_eq_getElem?_getD, List.getElem?_eq_none h]; rfl

theorem getElem?_map_sections {α : Type} (f : Section → α) (i : Nat) :
    (o.sectionHeaders.map f)[i]? = if i < o.sectionHeaders.length then some (f (o.sectionAt i)) else none := by
  split
  · next hi => rw [List.getElem?_map, sectionAt, List.getD_eq_getElem?_getD, List.getElem?_eq_getElem hi]; rfl
  · next hi => rw [List.getElem?_eq_none (by simpa using hi)]

theorem map_sections_congr {α : Type} (f : Section → α) (hl : o'.sectionHeaders.length = o.sectionHeaders.length)
    (hf : ∀ i, f (o'.sectionAt i) = f (o.sectionAt i)) :
    o'.sectionHeaders.map f = o.sectionHeaders.map f :=
  List.ext_getElem? fun i => by rw [getElem?_map_sections, getElem?_map_sections, hl, hf]

theorem shstrSec_congr (he : o'.elfHeader = o.elfHeader) (hs : (o'.sectionAt 0).shdr = (o.sectionAt 0).shdr) :
    o'.shstrSec = o.shstrSec := by
  rw [shstrSec, shstrSec, he, hs]

/-- What the names step leaves: the view `strio` of the name table, built
from its header while unnamed and cached in it; each section named by the
string at its `sh_name`; the name index giving each name's last section; the
entries of the section `getSection(".dynamic", SHT_DYNAMIC)` grouped by tag
in file order; and `gnu_version`. -/
structure Named (B : Build) (o : Object) : Prop where
  shstrSec_lt : o.shstrSec < o.sectionHeaders.length
  table : ∃ strio, (⟨(o.sectionAt o.shstrSec).shdr, [], none⟩ : Section).makeIo B o.io = .ok strio ∧
    (o.sectionAt o.shstrSec).io_ = some strio ∧
    ∀ i < o.sectionHeaders.length, (o.sectionAt i).name = strio.readString (o.sectionAt i).shdr.sh_name.toNat
  namedSection : ∀ k i, o.namedSection k = some i ↔ i < o.sectionHeaders.length ∧
    (o.sectionAt i).name = k ∧ ∀ j, i < j → j < o.sectionHeaders.length → (o.sectionAt j).name ≠ k
  dynamic : if (o.sectionAt (o.getSection (lit ".dynamic") SHT_DYNAMIC)).present then
      ∃ r, (o.sectionAt (o.getSection (lit ".dynamic") SHT_DYNAMIC)).io_ = some r ∧
        ∀ t, o.dynamic t = ((r.array 16).map Dyn.decode).filter fun e => e.d_tag = t
    else ∀ t, o.dynamic t = []
  gnu_version : o.gnu_version = some (o.getSection (lit ".gnu.version") SHT_GNU_versym)

structure Unnamed (o : Object) : Prop where
  sections : ∀ s ∈ o.sectionHeaders, s.name = [] ∧ s.io_ = none
  namedSection : ∀ k, o.namedSection k = none
  dynamic : ∀ t, o.dynamic t = []
  gnu_version : o.gnu_version = none

theorem loadSectionNames_named (hfresh : ∀ i, (o.sectionAt i).name = [] ∧ (o.sectionAt i).io_ = none)
    (hdyn : ∀ t, o.dynamic t = []) (h : o.loadSectionNames B = .ok o') :
    o'.io = o.io ∧ o'.elfHeader = o.elfHeader ∧ o'.programHeaders = o.programHeaders ∧
    o'.debugLoaded = o.debugLoaded ∧ o'.lastSegmentForAddress = o.lastSegmentForAddress ∧
    o'.sectionHeaders.map Section.shdr = o.sectionHeaders.map Section.shdr ∧ o'.Named B := by
  obtain ⟨hk, strio, hio, o2, h2, ho'⟩ := loadSectionNames_ok h
  set names := o.sectionHeaders.map fun h => strio.readString h.shdr.sh_name.toNat with hnames
  set oN : Object := { o with
    sectionHeaders := List.zipWith (fun h n => { h with name := n })
      (o.sectionHeaders.set o.shstrSec { o.sectionAt o.shstrSec with io_ := some strio }) names
    namedSection := indexNames names 0 fun _ => none } with hoN
  obtain ⟨hs2, -, hcache, hd⟩ := loadDynamic_ok h2
  have hs : SameSections oN o' := ho' ▸ hs2.withGnuVersion _
  have hlen : o'.sectionHeaders.length = o.sectionHeaders.length := hs.length.trans (by simp [oN, names])
  have hat : ∀ i < o.sectionHeaders.length, oN.sectionAt i = { o.sectionAt i with
      name := strio.readString (o.sectionAt i).shdr.sh_name.toNat
      io_ := if o.shstrSec = i then some strio else (o.sectionAt i).io_ } := fun i hi => sectionAt_named hi
  have hshdr : ∀ i, (o'.sectionAt i).shdr = (o.sectionAt i).shdr := fun i => by
    rw [hs.shdr]
    by_cases hi : i < o.sectionHeaders.length
    · rw [hat i hi]
    · rw [sectionAt_of_le (by simp [oN, names]; omega), sectionAt_of_le (by omega)]
  have hkk : o'.shstrSec = o.shstrSec := shstrSec_congr (hs.elfHeader) (hshdr 0)
  have hnm : ∀ i < o.sectionHeaders.length,
      (o'.sectionAt i).name = strio.readString (o.sectionAt i).shdr.sh_name.toNat := fun i hi => by
    rw [hs.name i, hat i hi]
  have hget : ∀ k j, names[j]? = some k ↔ j < o.sectionHeaders.length ∧ (o'.sectionAt j).name = k :=
    fun k j => by
      rw [hnames, getElem?_map_sections]
      split
      · next hj => rw [hnm j hj]; simp [hj]
      · next hj => simp [hj]
  refine ⟨hs.io, hs.elfHeader, hs.programHeaders, hs.debugLoaded, hs.lastSegmentForAddress,
    map_sections_congr Section.shdr hlen hshdr, ?_⟩
  refine ⟨by rw [hkk, hlen]; exact hk, ⟨strio, ?_, ?_, fun i hi => ?_⟩, fun k i => ?_, ?_, ?_⟩
  · -- the name table's view is built from its header while it is still unnamed
    rw [Section.io, (hfresh _).2] at hio
    obtain ⟨r, hr, hio⟩ := Except.bind_eq_ok.mp hio
    cases hio
    rw [hkk, hshdr, hs.io, ← (hfresh _).1, ← (hfresh _).2]
    exact hr
  · rw [hkk, ho']
    exact hcache _ _ (by rw [hat _ hk, if_pos rfl])
  · rw [hlen] at hi
    rw [hnm i hi, hshdr]
  · rw [hs.namedSection, indexNames_last, hget, hlen]
    constructor
    · rintro ⟨⟨hi, hn⟩, hlast⟩
      exact ⟨hi, hn, fun j hij hj hnj => hlast j hij ((hget k j).mpr ⟨hj, hnj⟩)⟩
    · rintro ⟨hi, hn, hlast⟩
      exact ⟨⟨hi, hn⟩, fun j hij hj => let ⟨hjl, hjn⟩ := (hget k j).mp hj; hlast j hij hjl hjn⟩
  · -- the dynamic entries, read through the same section as before `gnu_version` was set
    have hpres : ∀ i, (o'.sectionAt i).present = (oN.sectionAt i).present := fun i => by
      simp only [Section.present, hs.shdr]
    rw [getSection_congr hs, hpres, ho']
    split at hd
    · next hp =>
      rw [if_pos hp]
      obtain ⟨r, hr, hdy⟩ := hd
      exact ⟨r, hr, fun t => by simp only [hdy, pushBackAll_eq, List.nil_append]⟩
    · next hp =>
      rw [if_neg hp]
      subst hd
      exact hdyn
  · rw [ho']
    exact congrArg some (getSection_congr ((SameSections.refl o2).withGnuVersion _) _ _).symm

theorem length_phdrTable (io : Reader) (eh : Ehdr) :
    (phdrTable io eh).length = min eh.e_phnum.toNat ((io.length - eh.e_phoff.toNat) / 56) := by
  simp only [phdrTable, List.length_map, Reader.array, List.length_range, Reader.view, List.length_take,
    List.length_drop]
  omega

theorem readPhdr_phdrTable (io : Reader) (eh : Ehdr) (i : Nat) (hi : i < (phdrTable io eh).length) :
    io.readPhdr (eh.e_phoff.toNat + 56 * i) = .ok (phdrTable io eh)[i] := by
  have hl := length_phdrTable io eh ▸ hi
  simp only [phdrTable, Reader.array, Reader.view, List.getElem_map, List.getElem_range, Reader.readPhdr,
    Reader.readBytes, if_pos (by omega : eh.e_phoff.toNat + 56 * i + 56 ≤ io.length)]
  rw [List.drop_take, List.take_take, List.drop_drop, min_eq_left (by omega), Nat.mul_comm, Nat.add_comm]
  rfl

theorem fresh_sections (shdrs : List Shdr) :
    ∀ s ∈ (if shdrs = [] then [Section.null] else shdrs.map fun s => (⟨s, [], none⟩ : Section)),
      s.name = [] ∧ s.io_ = none := by
  split <;> simp [Section.null]

theorem map_shdr_fresh (shdrs : List Shdr) :
    (if shdrs = [] then [Section.null] else shdrs.map fun s => (⟨s, [], none⟩ : Section)).map Section.shdr =
      if shdrs = [] then [Section.null.shdr] else shdrs := by
  split <;> simp [Function.comp_def]

theorem sectionAt_fresh {o : Object} (h : ∀ s ∈ o.sectionHeaders, s.name = [] ∧ s.io_ = none) (i : Nat) :
    (o.sectionAt i).name = [] ∧ (o.sectionAt i).io_ = none := by
  by_cases hi : i < o.sectionHeaders.length
  · exact h _ (by rw [sectionAt, List.getD_eq_getElem _ _ hi]; exact List.getElem_mem hi)
  · rw [sectionAt_of_le (by omega)]
    exact ⟨rfl, rfl⟩

theorem construct_frame {σ : PhdrSort} {io : Reader} {isDebug : Bool} (h : construct B σ io isDebug = .ok o) :
    io.readEhdr 0 = .ok o.elfHeader ∧ o.io = io ∧ o.debugLoaded = isDebug ∧ o.lastSegmentForAddress = none ∧
    o.programHeaders = (initial σ io isDebug o.elfHeader).programHeaders := by
  obtain ⟨eh, he, h⟩ := construct_ok h
  split at h
  · obtain ⟨shdrs, -, h⟩ := loadSections_ok h
    dsimp only [initial] at h
    split at h
    · subst h
      exact ⟨he, rfl, rfl, rfl, rfl⟩
    · obtain ⟨hio, heh, hph, hdbg, hlast, -⟩ :=
        loadSectionNames_named (sectionAt_fresh (fresh_sections shdrs)) (fun _ => rfl) h
      dsimp only at hio heh hph hdbg hlast
      rw [heh]
      exact ⟨he, hio, hdbg, hlast, hph⟩
  · subst h
    exact ⟨he, rfl, rfl, rfl, rfl⟩

theorem initial_programHeaders (σ : PhdrSort) (io : Reader) (isDebug : Bool) (eh : Ehdr) (t : Word) :
    ((initial σ io isDebug eh).programHeaders t).Perm ((phdrTable io eh).filter fun p => p.p_type = t) ∧
    ((initial σ io isDebug eh).programHeaders t).Sorted fun a b => a.p_vaddr ≤ b.p_vaddr := by
  simp only [initial, pushBackAll_eq, List.nil_append]
  exact ⟨σ.perm _, σ.sorted _⟩

/-- The constructor on an image it accepts: the ELF header at 0; the program
headers of each type, in the order of the sort's contract, from the table cut
at the end of the image; when `e_shoff` is inside the image, the section
headers read from it (`headerCount` of them, `e_shentsize` apart), else none,
with the null section standing in for an empty list; the names, the name
index and the dynamic entries when `e_shstrndx` is set there, and nothing of
them otherwise. -/
theorem construct_contents {σ : PhdrSort} {io : Reader} {isDebug : Bool}
    (h : construct B σ io isDebug = .ok o) :
    io.readEhdr 0 = .ok o.elfHeader ∧ o.io = io ∧ o.debugLoaded = isDebug ∧
    o.lastSegmentForAddress = none ∧
    (∀ t, (o.programHeaders t).Perm ((phdrTable io o.elfHeader).filter fun p => p.p_type = t) ∧
      (o.programHeaders t).Sorted fun a b => a.p_vaddr ≤ b.p_vaddr) ∧
    (∃ shdrs : List Shdr, o.sectionHeaders.map Section.shdr = (if shdrs = [] then [Section.null.shdr] else shdrs) ∧
      if o.elfHeader.e_shoff.toNat < io.length then
        (shdrs.length : Int) = headerCount o.elfHeader (shdrs.headD default) ∧ ∀ i (hi : i < shdrs.length),
          io.readShdr (o.elfHeader.e_shoff + BitVec.ofNat 64 i * o.elfHeader.e_shentsize.zeroExtend 64).toNat =
            .ok shdrs[i]
      else shdrs = []) ∧
    if o.elfHeader.e_shstrndx ≠ SHN_UNDEF ∧ o.elfHeader.e_shoff.toNat < io.length then o.Named B
    else o.Unnamed := by
  obtain ⟨he', hio, hdbg, hlast, hph⟩ := construct_frame h
  refine ⟨he', hio, hdbg, hlast, fun t => hph ▸ initial_programHeaders σ io isDebug o.elfHeader t, ?_⟩
  obtain ⟨eh, he, h⟩ := construct_ok h
  split at h
  · next hin =>
    obtain ⟨shdrs, hr, h⟩ := loadSections_ok h
    obtain ⟨hlen, hget⟩ := readSectionHeaders_ok hr
    dsimp only [initial] at h hlen hget
    split at h
    · next hu =>
      subst h
      refine ⟨⟨shdrs, map_shdr_fresh shdrs, ?_⟩, ?_⟩
      · rw [if_pos hin]
        exact ⟨hlen, hget⟩
      · rw [if_neg (fun hn => hn.1 hu)]
        exact ⟨fresh_sections shdrs, fun _ => rfl, fun _ => rfl, rfl⟩
    · next hu =>
      obtain ⟨-, heh, -, -, -, hmap, hnamed⟩ :=
        loadSectionNames_named (sectionAt_fresh (fresh_sections shdrs)) (fun _ => rfl) h
      dsimp only at heh hmap
      rw [heh]
      refine ⟨⟨shdrs, by rw [hmap]; exact map_shdr_fresh shdrs, ?_⟩, ?_⟩
      · rw [if_pos hin]
        exact ⟨hlen, hget⟩
      · rw [if_pos ⟨hu, hin⟩]
        exact hnamed
  · next hin =>
    subst h
    dsimp only [initial]
    refine ⟨⟨[], rfl, by rw [if_neg hin]⟩, ?_⟩
    rw [if_neg (fun hn => hin hn.2)]
    exact ⟨by simp [initial, Section.null], fun _ => rfl, fun _ => rfl, rfl⟩

/-- The object the constructor builds from `img`, in a build without zlib. -/
def ofImage (img : List Byte) : Object :=
  match construct noZlib PhdrSort.insertion img false with
  | .ok o => o
  | .error _ => initial PhdrSort.insertion img false (Ehdr.decode img)

/-- A file with no section named `.dynamic`: the null section, the
section-name table and an `SHT_DYNAMIC` section named `.dynamic.dwo`, then
the table's 24 bytes and one entry with tag 1. -/
def dwoDynamicImage : Reader :=
  sectionImage [⟨0, SHT_NULL, 0, 0, 0, 0, 0⟩, ⟨1, 3, 0, 0, 256, 24, 0⟩, ⟨11, SHT_DYNAMIC, 0, 0, 280, 16, 0⟩] 1 ++
    [0] ++ lit ".shstrtab" ++ [0] ++ lit ".dynamic.dwo" ++ [0] ++ encodeLE 8 1 ++ encodeLE 8 5

set_option maxRecDepth 8000 in
theorem construct_contents_on_dwo_dynamic :
    construct noZlib PhdrSort.insertion dwoDynamicImage false = .ok (ofImage dwoDynamicImage) ∧
    let o := ofImage dwoDynamicImage
    (dwoDynamicImage.readEhdr 0 = .ok o.elfHeader ∧ o.io = dwoDynamicImage ∧ o.debugLoaded = false ∧
    o.lastSegmentForAddress = none ∧
    (∀ t, (o.programHeaders t).Perm ((phdrTable dwoDynamicImage o.elfHeader).filter fun p => p.p_type = t) ∧
      (o.programHeaders t).Sorted fun a b => a.p_vaddr ≤ b.p_vaddr) ∧
    (∃ shdrs : List Shdr, o.sectionHeaders.map Section.shdr = (if shdrs = [] then [Section.null.shdr] else shdrs) ∧
      if o.elfHeader.e_shoff.toNat < dwoDynamicImage.length then
        (shdrs.length : Int) = headerCount o.elfHeader (shdrs.headD default) ∧ ∀ i (hi : i < shdrs.length),
          dwoDynamicImage.readShdr
            (o.elfHeader.e_shoff + BitVec.ofNat 64 i * o.elfHeader.e_shentsize.zeroExtend 64).toNat = .ok shdrs[i]
      else shdrs = []) ∧
    if o.elfHeader.e_shstrndx ≠ SHN_UNDEF ∧ o.elfHeader.e_shoff.toNat < dwoDynamicImage.length then o.Named noZlib
    else o.Unnamed) :=
  have h : construct noZlib PhdrSort.insertion dwoDynamicImage false = .ok (ofImage dwoDynamicImage) := rfl
  ⟨h, construct_contents h⟩

set_option maxRecDepth 8000 in
/-- An image of the ELF header alone whose `e_shoff` is 0, the header's mark
of no section header table, with `e_shentsize = 64`: the code reads the ELF
header itself as section 0, of type `0x10102` (bytes 4 to 7 of `e_ident`).
And a file with no section named `.dynamic`: the code falls back to the
section `.dynamic.dwo` and lists its entry. -/
theorem construct_reads_absent_tables :
    (construct noZlib PhdrSort.insertion (Ehdr.encode ⟨elfIdent, 0, 0, 0, 64, 0, 0⟩) false).map
      (fun o => o.sectionHeaders.map fun s => s.shdr.sh_type) = .ok [0x10102] ∧
    (construct noZlib PhdrSort.insertion dwoDynamicImage false).map
      (fun o => (o.namedSection (lit ".dynamic"), o.dynamic 1)) = .ok (none, [⟨1, 5⟩]) := by
  decide

set_option maxRecDepth 8000 in
/-- `e_shstrndx = 7` in a file of one section, and a `SHT_SYMTAB` section 0
whose `sh_link` is 5 in a file of one section: both index past the sections. -/
theorem construct_indexes_past_sections :
    construct noZlib PhdrSort.insertion (sectionImage [⟨0, SHT_NULL, 0, 0, 0, 0, 0⟩] 7) false =
      .error .outOfRange ∧
    (construct noZlib PhdrSort.insertion (sectionImage [⟨0, SHT_SYMTAB, 0, 0, 0, 0, 5⟩] 0) false).map
      (fun o => o.getLinkedSection none true (o.sectionAt 0)) = .ok (.error .outOfRange) :=
  ⟨rfl, by decide⟩

end Object

end PstackElf
