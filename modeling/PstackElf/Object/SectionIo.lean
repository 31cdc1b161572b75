import PstackElf.Defs.Section

/-! `Section::io()` in a build with zlib, against the three cases of the spec
(`ioBySpec`): an inflater of the `Chdr`'s size over the bytes after the `Chdr`
for `SHF_COMPRESSED`, an inflater of the size in bytes `4..11` over the bytes
after offset 12 for a `.zdebug_` section that starts with `ZLIB`, and the raw
bytes otherwise. The code agrees wherever the header it reads is all there,
but for `.zdebug_` sections: it hands the inflater only the first `S` bytes
after the header, `S` being the decompressed size where the `SHF_COMPRESSED`
branch takes the rest of the section, and gives an empty view to a section
without the magic (`io_bySpec`). The view is cached on the first call. -/

namespace PstackElf

namespace Section

variable (B : Build) (elfIo : Reader) (s : Section)

def bytes : Reader := elfIo.view s.shdr.sh_offset.toNat s.shdr.sh_size.toNat

/-- Modelled from the spec: the view of a section by its three cases, over the
section's bytes. -/
def ioBySpec : Reader :=
  let raw := s.bytes elfIo
  if s.shdr.sh_type = SHT_NULL then []
  else if s.shdr.sh_flags &&& SHF_COMPRESSED ≠ 0 then B.inflate (Chdr.ch_size (raw.take 24)) (raw.drop 24)
  else if (lit ".zdebug_").isPrefixOf s.name ∧ raw.take 4 = lit "ZLIB" then
    B.inflate (zdebugSize (raw.take 12)) (raw.drop 12)
  else raw

/-- The case of the spec that the code departs from: a section that is not
null, not `SHF_COMPRESSED`, and whose name starts with `.zdebug_`. -/
def Zdebug : Prop :=
  s.shdr.sh_type ≠ SHT_NULL ∧ s.shdr.sh_flags &&& SHF_COMPRESSED = 0 ∧ (lit ".zdebug_").isPrefixOf s.name = true

theorem view_eq_bytes :
    elfIo.view s.shdr.sh_offset.toNat s.shdr.sh_size.toNat = s.bytes elfIo := rfl

theorem length_bytes_le : (s.bytes elfIo).length ≤ s.shdr.sh_size.toNat := by
  simp [bytes]

variable {B elfIo s}

theorem view_after_chdr (h : 24 ≤ (s.bytes elfIo).length) :
    (s.bytes elfIo).view 24 (s.shdr.sh_size - 24).toNat = (s.bytes elfIo).drop 24 := by
  have hle := length_bytes_le elfIo s
  have hsz : (s.shdr.sh_size - 24).toNat = s.shdr.sh_size.toNat - 24 := by
    rw [BitVec.toNat_sub_of_le (by rw [BitVec.le_def]; simp; omega)]; rfl
  rw [Reader.view, hsz, List.take_of_length_le (by simp; omega)]

theorem readBytes_bytes {n : Nat} :
    (s.bytes elfIo).readBytes 0 n =
      if n ≤ (s.bytes elfIo).length then .ok ((s.bytes elfIo).take n) else .error .readError := by
  simp [Reader.readBytes]

theorem io_map_fst (hs : s.io_ = none) : (s.io B elfIo).map Prod.fst = s.makeIo B elfIo := by
  rw [io, hs]
  cases s.makeIo B elfIo <;> rfl

/-- A view once returned is cached: every later call returns it, whatever the
file, and leaves the section as it is. -/
theorem io_repeat {r : Reader} {s' : Section} (h : s.io B elfIo = .ok (r, s')) (elfIo' : Reader) :
    s'.io B elfIo' = .ok (r, s') := by
  unfold io at h
  split at h
  · next he => cases h; simp [io, he]
  · obtain ⟨r', -, h⟩ := Except.bind_eq_ok.mp h
    cases h
    rfl

section Cases

variable (hn : s.shdr.sh_type ≠ SHT_NULL)
include hn

theorem makeIo_compressed (hz : B.withZlib = true) (hc : s.shdr.sh_flags &&& SHF_COMPRESSED ≠ 0) :
    s.makeIo B elfIo = if 24 ≤ (s.bytes elfIo).length then
      .ok (B.inflate (Chdr.ch_size ((s.bytes elfIo).take 24)) ((s.bytes elfIo).drop 24)) else .error .readError := by
  simp only [makeIo, if_neg hn, if_pos hc, hz, if_true, view_eq_bytes, readBytes_bytes]
  split
  · rw [Except.ok_bind, view_after_chdr ‹_›]
  · rfl

theorem makeIo_zdebug (hz : B.withZlib = true) (hc : s.shdr.sh_flags &&& SHF_COMPRESSED = 0)
    (hp : (lit ".zdebug_").isPrefixOf s.name = true) :
    s.makeIo B elfIo = if 12 ≤ (s.bytes elfIo).length then
      if (s.bytes elfIo).take 4 = lit "ZLIB" then
        .ok (B.inflate (zdebugSize ((s.bytes elfIo).take 12))
          (((s.bytes elfIo).drop 12).take (zdebugSize ((s.bytes elfIo).take 12)).toNat))
      else .ok []
    else .error .readError := by
  simp only [makeIo, if_neg hn, hc, ne_eq, not_true_eq_false, if_false, hp, if_true, view_eq_bytes, readBytes_bytes,
    hz, and_true]
  split
  · simp only [Except.ok_bind, List.take_take, Nat.min_def, if_pos (by omega : 4 ≤ 12), Reader.view]
  · rfl

theorem makeIo_raw (hc : s.shdr.sh_flags &&& SHF_COMPRESSED = 0) (hp : (lit ".zdebug_").isPrefixOf s.name = false) :
    s.makeIo B elfIo = .ok (s.bytes elfIo) := by
  simp [makeIo, hn, hc, hp, view_eq_bytes]

end Cases

/-- In a zlib build, for a section whose view is not yet cached: outside the
`.zdebug_` case, with the `Chdr` there when it is compressed, the view is the
one by the spec's cases; in the `.zdebug_` case, with its 12-byte header
there, it is an inflater of `S` over the first `S` bytes after the header,
which is the view by the spec when those reach the end of the section, and
it is empty without the magic; a header that is not all there is a read
error. The call caches the view, and every later call, whatever the file,
returns it and leaves the section as it is. -/
theorem io_bySpec (hz : B.withZlib = true) (hs : s.io_ = none) :
    (¬s.Zdebug → (s.shdr.sh_flags &&& SHF_COMPRESSED ≠ 0 → 24 ≤ (s.bytes elfIo).length) →
      (s.io B elfIo).map Prod.fst = .ok (s.ioBySpec B elfIo)) ∧
    (s.Zdebug → 12 ≤ (s.bytes elfIo).length → (s.bytes elfIo).take 4 = lit "ZLIB" →
      (s.io B elfIo).map Prod.fst = .ok (B.inflate (zdebugSize ((s.bytes elfIo).take 12))
        (((s.bytes elfIo).drop 12).take (zdebugSize ((s.bytes elfIo).take 12)).toNat)) ∧
      ((s.bytes elfIo).length ≤ 12 + (zdebugSize ((s.bytes elfIo).take 12)).toNat →
        (s.io B elfIo).map Prod.fst = .ok (s.ioBySpec B elfIo))) ∧
    (s.Zdebug → 12 ≤ (s.bytes elfIo).length → (s.bytes elfIo).take 4 ≠ lit "ZLIB" →
      (s.io B elfIo).map Prod.fst = .ok []) ∧
    (s.shdr.sh_type ≠ SHT_NULL →
      (s.shdr.sh_flags &&& SHF_COMPRESSED ≠ 0 ∧ (s.bytes elfIo).length < 24 ∨ s.Zdebug ∧ (s.bytes elfIo).length < 12) →
      (s.io B elfIo).map Prod.fst = .error .readError) ∧
    ∀ r s', s.io B elfIo = .ok (r, s') → ∀ elfIo', s'.io B elfIo' = .ok (r, s') := by
  rw [io_map_fst hs]
  refine ⟨fun hnz hchdr => ?_, fun ⟨hn, hc, hp⟩ h12 hm => ?_, fun ⟨hn, hc, hp⟩ h12 hm => ?_, fun hn hshort => ?_,
    fun _ _ h => io_repeat h⟩
  · by_cases hn : s.shdr.sh_type = SHT_NULL
    · simp [makeIo, ioBySpec, hn]
    by_cases hc : s.shdr.sh_flags &&& SHF_COMPRESSED = 0
    · cases hp : (lit ".zdebug_").isPrefixOf s.name
      · rw [makeIo_raw hn hc hp]
        simp only [ioBySpec, if_neg hn, if_neg (not_not.mpr hc), hp, Bool.false_eq_true, false_and, ↓reduceIte]
      · exact absurd ⟨hn, hc, hp⟩ hnz
    · rw [makeIo_compressed hn hz hc, if_pos (hchdr hc)]
      simp only [ioBySpec, if_neg hn, if_pos hc]
  · rw [makeIo_zdebug hn hz hc hp, if_pos h12, if_pos hm]
    refine ⟨rfl, fun hle => ?_⟩
    have ht : ((s.bytes elfIo).drop 12).take (zdebugSize ((s.bytes elfIo).take 12)).toNat = (s.bytes elfIo).drop 12 :=
      List.take_of_length_le (by simp only [List.length_drop]; omega)
    simp only [ht, ioBySpec, if_neg hn, if_neg (not_not.mpr hc), if_pos (And.intro hp hm)]
  · rw [makeIo_zdebug hn hz hc hp, if_pos h12, if_neg hm]
  · rcases hshort with ⟨hc, hl⟩ | ⟨⟨-, hc, hp⟩, hl⟩
    · rw [makeIo_compressed hn hz hc, if_neg (by omega)]
    · rw [makeIo_zdebug hn hz hc hp, if_neg (by omega)]

/-- A build whose inflater hands back what it is given: a view then shows
the bytes the inflater receives. -/
def passThrough : Build := ⟨true, fun _ r => r⟩

def zdebugSection : Section := ⟨⟨0, SHT_PROGBITS, 0, 0, 0, 100, 0⟩, lit ".zdebug_info", none⟩

/-- Its bytes: the magic, the decompressed size 50, and 88 compressed bytes. -/
def zdebugBytes : Reader := lit "ZLIB" ++ [0, 0, 0, 0, 0, 0, 0, 50] ++ List.replicate 88 7

theorem io_bySpec_on_zdebug :
    passThrough.withZlib = true ∧ zdebugSection.io_ = none ∧
    (¬zdebugSection.Zdebug →
      (zdebugSection.shdr.sh_flags &&& SHF_COMPRESSED ≠ 0 → 24 ≤ (zdebugSection.bytes zdebugBytes).length) →
      (zdebugSection.io passThrough zdebugBytes).map Prod.fst = .ok (zdebugSection.ioBySpec passThrough zdebugBytes)) ∧
    (zdebugSection.Zdebug → 12 ≤ (zdebugSection.bytes zdebugBytes).length →
      (zdebugSection.bytes zdebugBytes).take 4 = lit "ZLIB" →
      (zdebugSection.io passThrough zdebugBytes).map Prod.fst =
        .ok (passThrough.inflate (zdebugSize ((zdebugSection.bytes zdebugBytes).take 12))
          (((zdebugSection.bytes zdebugBytes).drop 12).take
            (zdebugSize ((zdebugSection.bytes zdebugBytes).take 12)).toNat)) ∧
      ((zdebugSection.bytes zdebugBytes).length ≤ 12 + (zdebugSize ((zdebugSection.bytes zdebugBytes).take 12)).toNat →
        (zdebugSection.io passThrough zdebugBytes).map Prod.fst = .ok (zdebugSection.ioBySpec passThrough zdebugBytes))) ∧
    (zdebugSection.Zdebug → 12 ≤ (zdebugSection.bytes zdebugBytes).length →
      (zdebugSection.bytes zdebugBytes).take 4 ≠ lit "ZLIB" →
      (zdebugSection.io passThrough zdebugBytes).map Prod.fst = .ok []) ∧
    (zdebugSection.shdr.sh_type ≠ SHT_NULL →
      (zdebugSection.shdr.sh_flags &&& SHF_COMPRESSED ≠ 0 ∧ (zdebugSection.bytes zdebugBytes).length < 24 ∨
        zdebugSection.Zdebug ∧ (zdebugSection.bytes zdebugBytes).length < 12) →
      (zdebugSection.io passThrough zdebugBytes).map Prod.fst = .error .readError) ∧
    ∀ r s', zdebugSection.io passThrough zdebugBytes = .ok (r, s') →
      ∀ elfIo', s'.io passThrough elfIo' = .ok (r, s') :=
  ⟨rfl, rfl, io_bySpec rfl rfl⟩

/-- The decompressed size 50 is below the 88 bytes after the header: the
inflater is handed the first 50 of them, where by the spec it is handed all
88. A `.zdebug_` section without the magic reads as empty, where by the spec
it reads as its raw bytes. -/
theorem io_departs_on_zdebug :
    (zdebugSection.io passThrough zdebugBytes).map (fun r => r.1.length) = .ok 50 ∧
    (zdebugSection.ioBySpec passThrough zdebugBytes).length = 88 ∧
    (zdebugSection.io passThrough (List.replicate 100 7)).map Prod.fst = .ok [] ∧
    zdebugSection.ioBySpec passThrough (List.replicate 100 7) = List.replicate 100 7 := by
  decide

end Section

end PstackElf
